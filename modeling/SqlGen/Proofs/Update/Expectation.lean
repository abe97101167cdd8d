import SqlGen.Proofs.Update.Meaning

/-!
# Expected values in the text

A modification finds its row by comparing columns with the values they are expected to have.
`Generator.expectation` is the text this takes: a test for NULL if NULL is expected, and otherwise a
comparison with the placeholder of the expected value, or with its literal if it has no name.  The
values to be written have such a text too.

`Generator.tested` is the text that a modification has.  It goes by the name alone and takes a
missing one for NULL, so the two texts are the same exactly if the name is missing where NULL is
expected (`Generator.operation_tests`).  A batch names its columns so.
-/

namespace SqlGen

/-! ## Required and written texts -/

namespace ColumnChange

/-- What the expected value is compared through. -/
def expectedOperand (x : ColumnChange) : Operand :=
  match x.expectedParameterName with
  | some name => .placeholder name
  | none => .literal x.expected

/-- The expected value has a name unless it is NULL. -/
def NamesExpected (x : ColumnChange) : Prop :=
  x.expectedParameterName = none ↔ x.expected = .null

/-- A column without names has them as it should if NULL is expected. -/
theorem IsFresh.namesExpected_iff {x : ColumnChange} (h : x.IsFresh) :
    x.NamesExpected ↔ x.expected = .null := by
  simp [NamesExpected, h.2]

/-- A column that a batch has named for what it sends. -/
theorem Sends.namesExpected {bound : String → Option Value} {x x' : ColumnChange}
    (h : Sends bound x x') (compared : x.isCondition = true) :
    x'.NamesExpected ∧
      ∀ name, x'.expectedParameterName = some name → bound name = some x'.expected := by
  have expected : x'.expected = x.expected := by
    simpa using congrArg ColumnChange.expected h.same
  rw [NamesExpected, expected]
  cases sent : x.sendsExpected with
  | true =>
      obtain ⟨name, named, binds⟩ := h.compared sent
      have value : x.expected ≠ .null := by
        intro null
        simp [sendsExpected, null, Value.isNull] at sent
      refine ⟨by simp [named, value], fun name' named' => ?_⟩
      obtain rfl := Option.some.inj (named.symm.trans named')
      exact binds
  | false =>
      have unnamed := h.notCompared sent
      have null : x.expected = .null := by
        simpa [sendsExpected, compared] using sent
      exact ⟨by simp [unnamed, null], by simp [unnamed]⟩

end ColumnChange

namespace Generator

variable (g : Generator)

/-- The text that compares a column with its expected value. -/
def expectation (x : ColumnChange) : String :=
  if x.expected = .null then g.dialect.delimit x.name ++ " IS NULL"
  else g.dialect.delimit x.name ++ " = " ++ g.operand x.expectedOperand

/-- The text by which a modification finds its row. -/
def tested (x : ColumnChange) : String := g.condition (x.comparison true)

/-- The table of a modification, with what it sets. -/
def modificationHeader (c : RowChange) : String :=
  match c.kind with
  | .deleted => g.deleteHeader c.table
  | _ => g.updateHeader c.table (c.written.map ColumnChange.assignment)

/-- The texts of conditions in a modification. -/
def whereText (texts : List String) : String :=
  if texts.isEmpty then "" else "WHERE " ++ String.intercalate " AND " texts

theorem whereClause_comparisons (xs : List ColumnChange) :
    g.whereClause (xs.map (ColumnChange.comparison true)) = whereText (xs.map g.tested) := by
  cases xs with
  | nil => rfl
  | cons x rest =>
      rw [whereClause, List.map_map]
      rfl

/-- A test for NULL is no comparison with a value. -/
theorem test_ne_comparison (delimited value : String) :
    delimited ++ " IS NULL" ≠ delimited ++ " = " ++ value := by
  intro same
  have texts := congrArg String.toList same
  simp only [String.toList_append, List.append_assoc, List.append_cancel_left_eq] at texts
  cases texts

/-- The text of a modification is the required one exactly if the column has its names as it
should. -/
theorem tested_eq_expectation_iff
    (standard : g.dialect.columnCondition =
      Standard.columnCondition g.dialect.delimit g.dialect.placeholder) (x : ColumnChange) :
    g.tested x = g.expectation x ↔ x.NamesExpected := by
  unfold tested expectation ColumnChange.NamesExpected ColumnChange.comparison condition
  rw [if_pos rfl, standard]
  cases named : x.expectedParameterName with
  | some name =>
      by_cases null : x.expected = .null
      · simpa [null, Standard.columnCondition] using
          (test_ne_comparison (g.dialect.delimit x.name) (g.dialect.placeholder name)).symm
      · simp [null, Standard.columnCondition, ColumnChange.expectedOperand, named, operand]
  | none =>
      by_cases null : x.expected = .null
      · simp [null, Standard.columnCondition]
      · simpa [null, Standard.columnCondition, ColumnChange.expectedOperand, named, operand] using
          test_ne_comparison (g.dialect.delimit x.name) (g.dialect.literal x.expected)

theorem renderAll_cons (st : Statement) (rest : List Statement) :
    g.renderAll (st :: rest) = g.render st ++ g.renderAll rest := by
  rw [renderAll, List.map_cons, String.join_cons]
  rfl

theorem exists_updateScript_eq (c : RowChange) (position : Nat) :
    ∃ returned rest, (g.updateScript c position).1 =
      .update c.table (c.written.map ColumnChange.assignment)
        (c.conditions.map (ColumnChange.comparison true)) returned :: rest := by
  unfold updateScript
  dsimp only
  split
  next => exact ⟨_, _, rfl⟩
  next =>
    split
    next => exact ⟨_, _, rfl⟩
    next => exact ⟨_, _, rfl⟩

theorem exists_deleteScript_eq (c : RowChange) (position : Nat) :
    ∃ returned rest, (g.deleteScript c position).1 =
      .delete c.table (c.conditions.map (ColumnChange.comparison true)) returned :: rest := by
  unfold deleteScript
  dsimp only
  split
  next => exact ⟨_, _, rfl⟩
  next => exact ⟨_, _, rfl⟩

/-- A modification starts with its table and what it sets, and goes on with the tests of its row. -/
theorem exists_operation_eq {c : RowChange} (modification : c.kind ≠ .added) (position : Nat) :
    ∃ rest, (g.operation c position).1 =
      g.modificationHeader c ++ whereText (c.conditions.map g.tested) ++ rest := by
  have operation : (g.operation c position).1 = g.renderAll (g.script c position).1 := rfl
  rw [operation]
  cases kind : c.kind with
  | added => exact absurd kind modification
  | modified =>
      obtain ⟨returned, rest, updateScript⟩ := g.exists_updateScript_eq c position
      have script : g.script c position = g.updateScript c position := by rw [script, kind]
      rw [script, updateScript, renderAll_cons, render, whereClause_comparisons,
        modificationHeader, kind]
      simp only [String.append_assoc]
      exact ⟨_, rfl⟩
  | deleted =>
      obtain ⟨returned, rest, deleteScript⟩ := g.exists_deleteScript_eq c position
      have script : g.script c position = g.deleteScript c position := by rw [script, kind]
      rw [script, deleteScript, renderAll_cons, render, whereClause_comparisons,
        modificationHeader, kind]
      simp only [String.append_assoc]
      exact ⟨_, rfl⟩

end Generator

/-! ## A batch -/

theorem exists_of_forall₂ {α β : Type} {r : α → β → Prop} {xs : List α} {ys : List β}
    (h : List.Forall₂ r xs ys) {y : β} (mem : y ∈ ys) : ∃ x, r x y := by
  obtain ⟨i, hi, rfl⟩ := List.mem_iff_getElem.mp mem
  exact ⟨_, h.get (h.length_eq ▸ hi) hi⟩

/-- A batch has named every column it compares as it should, and it sends the expected values along
by these names. -/
theorem Batch.namesExpected {g : Generator} {capacity : Nat} {b₀ b : Batch}
    (new : Batch.empty? g capacity = .ok b₀) {cs : List RowChange} (fresh : ∀ c ∈ cs, c.IsFresh)
    (accepted : b₀.addAll cs = .ok b) {c : RowChange} (mem : c ∈ b.changes) {x : ColumnChange}
    (compared : x ∈ c.conditions) :
    x.NamesExpected ∧ ∀ name, x.expectedParameterName = some name →
      valueOf b.build.parameters name = some x.expected := by
  obtain ⟨start, -⟩ := records_empty new
  obtain ⟨records, -⟩ := records_addAll start fresh accepted
  have binds : Binds (valueOf b.parameters) b.parameters :=
    fun p mem => valueOf_of_mem records.names.nodup mem
  obtain ⟨c₀, change⟩ := exists_of_forall₂ (records.changes _ binds) mem
  obtain ⟨column, isCondition⟩ := List.mem_filter.mp compared
  obtain ⟨x₀, sends⟩ := exists_of_forall₂ change.columns column
  exact sends.namesExpected (sends.isCondition ▸ isCondition)

/-- What the text of a modification or a deletion tests.

The text starts with the table and what is set, and goes on with one test for each compared column.
The test is the required one exactly if the column has a name for every expected value but NULL.
Of a column without any names that is so if NULL is expected.  Of the columns of a batch it is always
so, and their names stand for the expected values. -/
theorem Generator.operation_tests {g : Generator}
    (standard : g.dialect.columnCondition =
      Standard.columnCondition g.dialect.delimit g.dialect.placeholder) :
    (∀ (c : RowChange) (position : Nat), c.kind ≠ .added → ∃ rest, (g.operation c position).1 =
      g.modificationHeader c ++ whereText (c.conditions.map g.tested) ++ rest) ∧
    (∀ x, g.tested x = g.expectation x ↔ x.NamesExpected) ∧
    (∀ x : ColumnChange, x.IsFresh → (x.NamesExpected ↔ x.expected = .null)) ∧
    ∀ {capacity b₀ b cs}, Batch.empty? g capacity = .ok b₀ → (∀ c ∈ cs, RowChange.IsFresh c) →
      b₀.addAll cs = .ok b → ∀ c ∈ b.changes, ∀ x ∈ c.conditions,
        x.NamesExpected ∧ ∀ name, x.expectedParameterName = some name →
          valueOf b.build.parameters name = some x.expected := by
  refine ⟨?text, ?test, ?fresh, ?batch⟩
  case text => exact fun c position modification => g.exists_operation_eq modification position
  case test => exact g.tested_eq_expectation_iff standard
  case fresh => exact fun x fresh => fresh.namesExpected_iff
  case batch =>
    intro capacity b₀ b cs new fresh accepted c mem x compared
    exact Batch.namesExpected new fresh accepted mem compared

/-! ## With a batch and without one -/

/-- A batch gives names to the identifiers and the old name, and tests the missing note for NULL. -/
theorem operation_tests_renameAndDelete :
    Batch.empty? (Sqlite.generator true) 2 = .ok roomForTwo ∧
      (∀ c ∈ [rename, deleteWithoutNote], c.IsFresh) ∧
      roomForTwo.addAll [rename, deleteWithoutNote] = .ok renameAndDelete ∧
      renameAndDelete.changes.map (fun c => c.conditions.map (Sqlite.generator true).tested) =
        [["\"id\" = @p1", "\"name\" = @p2"], ["\"id\" = @p3", "\"note\" IS NULL"]] ∧
      ∀ c ∈ renameAndDelete.changes, ∀ x ∈ c.conditions,
        (Sqlite.generator true).tested x = (Sqlite.generator true).expectation x := by
  have new : Batch.empty? (Sqlite.generator true) 2 = .ok roomForTwo := rfl
  have fresh : ∀ c ∈ [rename, deleteWithoutNote], c.IsFresh := by
    simp [rename, deleteWithoutNote, RowChange.IsFresh, ColumnChange.IsFresh]
  have accepted : roomForTwo.addAll [rename, deleteWithoutNote] = .ok renameAndDelete := rfl
  obtain ⟨-, test, -, batch⟩ := Generator.operation_tests (g := Sqlite.generator true) rfl
  refine ⟨new, fresh, accepted, by decide +kernel, fun c mem x compared => ?_⟩
  exact (test x).mpr (batch new fresh accepted c mem x compared).1

/-- A blog gets a new name if it is the first one. -/
def renameFirstBlog : RowChange where
  table := ⟨"Blogs", none⟩
  kind := .modified
  columns :=
    [{ name := "Id", roles := { key := true, condition := true }, expected := .integer 1 },
     { name := "Name", roles := { write := true }, value := .text "Rust" }]

/-- Without a batch the new name is written as a literal, and the row is looked for where its
identifier is NULL. -/
theorem tested_ne_expectation_renameFirstBlog :
    renameFirstBlog.IsFresh ∧
      ((Sqlite.generator true).operation renameFirstBlog 0).1 =
        "UPDATE \"Blogs\" SET \"Name\" = 'Rust'\nWHERE \"Id\" IS NULL\nRETURNING 1;\n" ∧
      renameFirstBlog.conditions.map (Sqlite.generator true).expectation = ["\"Id\" = 1"] ∧
      ∃ x ∈ renameFirstBlog.conditions, x.expected ≠ .null ∧
        (Sqlite.generator true).tested x ≠ (Sqlite.generator true).expectation x := by
  refine ⟨?_, by decide +kernel, by decide +kernel, _, List.mem_cons_self, by decide,
    by decide +kernel⟩
  simp [renameFirstBlog, RowChange.IsFresh, ColumnChange.IsFresh]

end SqlGen
