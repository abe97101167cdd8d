import SqlGen.Proofs.Update.Offer

/-!
# Returned rows and second statements

What a change reads or counts comes from its modification, if the dialect has it return rows, and
from a second statement otherwise.  `operation_text` is the text of a change in either case.  Both
begin with the clause that modifies the row: up to there it does not matter what the dialect can do.

Two batches that differ in this alone therefore stay in step: they take and hand back the same
changes, number the same parameters, have the same results to expect and judge the reported numbers
of rows alike (`Batch.InStep`).  Their texts are made of the same clauses.
-/

namespace SqlGen

/-! ## The text of a change -/

namespace Generator

variable (g : Generator)

/-- The clause that modifies the row, without what it returns and without its end. -/
def clause (c : RowChange) : String :=
  let assignments := c.written.map ColumnChange.assignment
  let conditions := c.conditions.map (ColumnChange.comparison true)
  match c.kind with
  | .added =>
      g.insertHeader c.table (assignments.map Assignment.column) ++ valuesHeader assignments ++
        g.values assignments
  | .modified => g.updateHeader c.table assignments ++ g.whereClause conditions
  | .deleted => g.deleteHeader c.table ++ g.whereClause conditions

/-- What the modification of a change returns.  An addition that reads nothing returns nothing. -/
def returningLine (c : RowChange) : String :=
  match c.kind with
  | .added => if c.read.isEmpty then "" else g.returningClause (c.read.map ColumnChange.name)
  | .modified => g.returningClause (c.read.map ColumnChange.name)
  | .deleted => g.returningClause []

/-- The second statement of a change.  It reads columns back if there are any to read, and otherwise
it counts, except after an addition. -/
def followUp (c : RowChange) (position : Nat) : String :=
  match c.kind with
  | .added => if c.read.isEmpty then "" else g.render (readBack c.table c.read c.keys)
  | .modified =>
      if c.read.isEmpty then (g.countCommand c.table position).1
      else g.render (readBack c.table c.read c.keys)
  | .deleted => (g.countCommand c.table position).1

theorem insertScript_text {c : RowChange} (kind : c.kind = .added) (position : Nat) :
    g.renderAll (g.insertScript c).1 =
      if g.dialect.returning then g.clause c ++ g.returningLine c ++ g.statementEnd
      else g.clause c ++ g.statementEnd ++ g.followUp c position := by
  simp only [clause, returningLine, followUp, kind, insertScript]
  by_cases nothing : c.read.isEmpty = true
  · simp [nothing, renderAll, render, returning]
  · cases g.dialect.returning <;> simp [nothing, renderAll, render, returning]

theorem updateScript_text {c : RowChange} (kind : c.kind = .modified) (position : Nat) :
    g.renderAll (g.updateScript c position).1 =
      if g.dialect.returning then g.clause c ++ g.returningLine c ++ g.statementEnd
      else g.clause c ++ g.statementEnd ++ g.followUp c position := by
  simp only [clause, returningLine, followUp, kind, updateScript]
  cases g.dialect.returning with
  | true => simp [renderAll, render, returning]
  | false =>
      by_cases nothing : c.read.isEmpty = true
      · simp [nothing, renderAll, render, returning]
      · simp [nothing, renderAll, render, returning]

theorem deleteScript_text {c : RowChange} (kind : c.kind = .deleted) (position : Nat) :
    g.renderAll (g.deleteScript c position).1 =
      if g.dialect.returning then g.clause c ++ g.returningLine c ++ g.statementEnd
      else g.clause c ++ g.statementEnd ++ g.followUp c position := by
  simp only [clause, returningLine, followUp, kind, deleteScript]
  cases g.dialect.returning <;> simp [renderAll, render, returning]

/-- A change is written as its clause, and then either returns rows or is followed by a second
statement. -/
theorem operation_text (c : RowChange) (position : Nat) :
    (g.operation c position).1 =
      if g.dialect.returning then g.clause c ++ g.returningLine c ++ g.statementEnd
      else g.clause c ++ g.statementEnd ++ g.followUp c position := by
  have operation : (g.operation c position).1 = g.renderAll (g.script c position).1 := rfl
  rw [operation]
  cases kind : c.kind with
  | added =>
      have script : g.script c position = g.insertScript c := by rw [script, kind]
      rw [script, g.insertScript_text kind position]
  | modified =>
      have script : g.script c position = g.updateScript c position := by rw [script, kind]
      rw [script, g.updateScript_text kind]
  | deleted =>
      have script : g.script c position = g.deleteScript c position := by rw [script, kind]
      rw [script, g.deleteScript_text kind]

/-! ## The results of a change -/

/-- Apart from an addition that reads nothing, every change has a last result to expect, if the
dialect counts with one. -/
theorem operation_results (counts : ∀ table position, (g.countCommand table position).2 = .last)
    (c : RowChange) (position : Nat) :
    (g.operation c position).2 = if c.kind = .added ∧ c.read = [] then .none else .last := by
  have operation : (g.operation c position).2 = (g.script c position).2 := rfl
  rw [operation]
  unfold script
  cases kind : c.kind with
  | added =>
      simp only [insertScript]
      by_cases nothing : c.read = []
      · simp [nothing]
      · cases g.dialect.returning <;> simp [nothing]
  | modified =>
      simp only [updateScript]
      cases g.dialect.returning with
      | true => simp
      | false => by_cases nothing : c.read = [] <;> simp [nothing, counts]
  | deleted =>
      simp only [deleteScript]
      cases g.dialect.returning <;> simp [counts]

end Generator

/-! ## Two batches in step -/

namespace Batch

/-- Two batches hold the same changes, parameters and results, and will go on to do so. -/
structure InStep (b b' : Batch) : Prop where
  capacity : b.capacity = b'.capacity
  changes : b.changes = b'.changes
  parameters : b.parameters = b'.parameters
  results : b.results = b'.results
  /-- Every change has the same results in both. -/
  outcomes (c : RowChange) (position : Nat) :
    (b.generator.operation c position).2 = (b'.generator.operation c position).2

namespace InStep

variable {b b' : Batch}

theorem isFull_eq (h : InStep b b') : b.isFull = b'.isFull := by
  rw [isFull, isFull, h.capacity, h.changes]

/-- Both take a change, or both hand it back. -/
theorem map_add (h : InStep b b') (c : RowChange) :
    (b.add c).map (fun _ => ()) = (b'.add c).map fun _ => () := by
  rw [add_eq, add_eq, h.isFull_eq]
  cases b'.isFull <;> rfl

theorem extended (h : InStep b b') (c : RowChange) : InStep (b.extended c) (b'.extended c) where
  capacity := h.capacity
  changes := by simp only [Batch.extended, h.changes, h.parameters]
  parameters := by simp only [Batch.extended, h.parameters]
  results := by
    simp only [Batch.extended]
    rw [h.results, h.changes, h.parameters, h.outcomes]
  outcomes := h.outcomes

theorem offer (h : InStep b b') (c : RowChange) : InStep (b.offer c) (b'.offer c) := by
  rw [offer_eq, offer_eq, h.isFull_eq]
  split
  next => exact h
  next => exact h.extended c

theorem offerAll (h : InStep b b') (cs : List RowChange) :
    InStep (b.offerAll cs) (b'.offerAll cs) := by
  induction cs generalizing b b' with
  | nil => exact h
  | cons c rest ih => exact ih (h.offer c)

/-- Both judge the reported numbers of rows alike. -/
theorem consume_eq (h : InStep b b') (affected : List Nat) :
    b.consume affected = b'.consume affected := by
  rw [consume, consume, reporting, reporting, h.changes, h.results]

end InStep

end Batch

/-! ## SQLite with and without returned rows -/

namespace Sqlite

theorem inStep_empty {capacity : Nat} {plain returning : Batch}
    (newPlain : Batch.empty? (generator false) capacity = .ok plain)
    (newReturning : Batch.empty? (generator true) capacity = .ok returning) :
    Batch.InStep plain returning := by
  obtain rfl := Batch.eq_of_empty?_eq_ok newPlain
  obtain rfl := Batch.eq_of_empty?_eq_ok newReturning
  refine ⟨rfl, rfl, rfl, rfl, fun c position => ?_⟩
  rw [Generator.operation_results _ (fun _ _ => rfl),
    Generator.operation_results _ (fun _ _ => rfl)]

/-- Whether data modifications return rows or not, two batches of one size take the same changes and
hand the same ones back, and they have the same parameters and results and the same judgement
of the numbers of affected rows.  Their texts consist of the same clauses.  Each clause returns rows
in the one text and is followed by a second statement in the other. -/
theorem inStep_offerAll {capacity : Nat} {plain returning : Batch}
    (newPlain : Batch.empty? (generator false) capacity = .ok plain)
    (newReturning : Batch.empty? (generator true) capacity = .ok returning)
    (cs : List RowChange) :
    (∀ c, ((plain.offerAll cs).add c).map (fun _ => ()) =
        ((returning.offerAll cs).add c).map fun _ => ()) ∧
      (plain.offerAll cs).changes = (returning.offerAll cs).changes ∧
      (plain.offerAll cs).build.parameters = (returning.offerAll cs).build.parameters ∧
      (plain.offerAll cs).build.results = (returning.offerAll cs).build.results ∧
      (∀ affected, (plain.offerAll cs).consume affected =
        (returning.offerAll cs).consume affected) ∧
      (plain.offerAll cs).build.sql =
        String.join ((plain.offerAll cs).changes.zipIdx.map fun p =>
          (generator false).clause p.1 ++ (generator false).statementEnd ++
            (generator false).followUp p.1 p.2) ∧
      (returning.offerAll cs).build.sql =
        String.join ((plain.offerAll cs).changes.zipIdx.map fun p =>
          (generator false).clause p.1 ++ (generator true).returningLine p.1 ++
            (generator false).statementEnd) := by
  have step := (inStep_empty newPlain newReturning).offerAll cs
  obtain ⟨plainText, plainGenerator⟩ := Batch.rendered_offerAll newPlain cs
  obtain ⟨returningText, returningGenerator⟩ := Batch.rendered_offerAll newReturning cs
  refine ⟨step.map_add, step.changes, step.parameters, step.results, step.consume_eq, ?plain,
    ?returning⟩
  case plain =>
    have built : (plain.offerAll cs).build.sql = "" ++ (plain.offerAll cs).sql := by
      rw [Batch.build, plainGenerator]
      rfl
    rw [built, String.empty_append, plainText.sql, plainGenerator]
    simp only [Generator.operation_text]
    rfl
  case returning =>
    have built : (returning.offerAll cs).build.sql = "" ++ (returning.offerAll cs).sql := by
      rw [Batch.build, returningGenerator]
      rfl
    rw [built, String.empty_append, returningText.sql, returningGenerator, ← step.changes]
    simp only [Generator.operation_text]
    rfl

end Sqlite

/-- A row whose key is made by the database and read back. -/
def addNamed : RowChange where
  table := ⟨"t", none⟩
  kind := .added
  columns :=
    [{ name := "id", roles := { key := true, read := true } },
     { name := "name", roles := { write := true }, value := .text "old" }]

def plainRoomForTwo : Batch := { roomForTwo with generator := Sqlite.generator false }

/-- The new key is returned by the insertion or selected after it, and the modified row is counted
likewise.  Neither batch of two takes the deletion. -/
theorem inStep_offerAll_addNamed :
    Batch.empty? (Sqlite.generator false) 2 = .ok plainRoomForTwo ∧
      Batch.empty? (Sqlite.generator true) 2 = .ok roomForTwo ∧
      (plainRoomForTwo.offerAll [addNamed, rename, deleteWithoutNote]).build.sql =
        "INSERT INTO \"t\" (\"name\")\nVALUES (@p0);\n" ++
        "SELECT \"id\"\nFROM \"t\"\n" ++
        "WHERE changes() = 1 AND \"rowid\" = last_insert_rowid();\n\n" ++
        "UPDATE \"t\" SET \"name\" = @p1\nWHERE \"id\" = @p2 AND \"name\" = @p3;\n" ++
        "SELECT changes();\n\n" ∧
      (roomForTwo.offerAll [addNamed, rename, deleteWithoutNote]).build.sql =
        "INSERT INTO \"t\" (\"name\")\nVALUES (@p0)\nRETURNING \"id\";\n" ++
        "UPDATE \"t\" SET \"name\" = @p1\nWHERE \"id\" = @p2 AND \"name\" = @p3\n" ++
        "RETURNING 1;\n" ∧
      (plainRoomForTwo.offerAll [addNamed, rename, deleteWithoutNote]).build.parameters =
        (roomForTwo.offerAll [addNamed, rename, deleteWithoutNote]).build.parameters ∧
      (plainRoomForTwo.offerAll [addNamed, rename, deleteWithoutNote]).build.results =
        (roomForTwo.offerAll [addNamed, rename, deleteWithoutNote]).build.results := by
  have newPlain : Batch.empty? (Sqlite.generator false) 2 = .ok plainRoomForTwo := rfl
  have newReturning : Batch.empty? (Sqlite.generator true) 2 = .ok roomForTwo := rfl
  obtain ⟨-, -, parameters, results, -⟩ := Sqlite.inStep_offerAll newPlain newReturning
    [addNamed, rename, deleteWithoutNote]
  exact ⟨newPlain, newReturning, by decide +kernel, by decide +kernel, parameters, results⟩

end SqlGen
