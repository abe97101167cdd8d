import SqlGen.Proofs.Update.Naming

/-!
# Runs of a batch

A batch that has taken some changes holds each of them with names for what it sends.  The names are
consecutive through the whole batch, so they stay apart whatever is added later, and its text is
the text of the changes one after the other.  `Batch.Records` is this invariant, `records_add` its
step and `records_addAll` its run.
-/

namespace SqlGen.Batch

/-- Adds changes one after the other.  The first one that is handed back ends the run. -/
def addAll (b : Batch) : List RowChange → Except RowChange Batch
  | [] => .ok b
  | c :: rest => (b.add c).bind fun b' => b'.addAll rest

/-- A batch with one more change. -/
def extended (b : Batch) (c : RowChange) : Batch :=
  let named := c.named b.parameters.length
  let operation := b.generator.operation named.1 b.changes.length
  { b with
    changes := b.changes ++ [named.1]
    parameters := b.parameters ++ named.2
    sql := b.sql ++ operation.1
    results := b.results ++ [operation.2] }

/-- A batch takes a change if it is not full, and hands it back otherwise. -/
theorem add_eq (b : Batch) (c : RowChange) :
    b.add c = if b.isFull then .error c else .ok (b.extended c) := rfl

theorem add_eq_ok {b b' : Batch} {c : RowChange} (h : b.add c = .ok b') :
    b.isFull = false ∧ b' = b.extended c := by
  rw [add_eq] at h
  split at h
  next => cases h
  next room => exact ⟨Bool.eq_false_iff.mpr room, (Except.ok.inj h).symm⟩

theorem eq_of_empty?_eq_ok {g : Generator} {capacity : Nat} {b : Batch}
    (h : Batch.empty? g capacity = .ok b) : b = { generator := g, capacity } := by
  unfold Batch.empty? at h
  split at h
  next => cases h
  next => exact (Except.ok.inj h).symm

/-! ## One more change -/

theorem consecutive_extended {b : Batch} (names : Consecutive 0 b.parameters) (c : RowChange) :
    Consecutive 0 (b.extended c).parameters := by
  have later : Consecutive (0 + b.parameters.length) (c.named b.parameters.length).2 := by
    rw [Nat.zero_add]
    exact c.consecutive_named _
  exact names.append later

/-- A batch that has written each change at its position goes on so. -/
theorem sql_extended {b : Batch}
    (sql : b.sql = String.join (b.changes.zipIdx.map fun p => (b.generator.operation p.1 p.2).1))
    (c : RowChange) :
    (b.extended c).sql =
      String.join ((b.extended c).changes.zipIdx.map fun p =>
        (b.generator.operation p.1 p.2).1) := by
  simp only [extended]
  rw [sql, List.zipIdx_append, List.map_append, String.join_append]
  simp

/-! ## The run -/

/-- What is true of a batch that has taken some changes. -/
structure Records (b : Batch) (cs : List RowChange) : Prop where
  names : Consecutive 0 b.parameters
  /-- Each change is held with names that stand for what it sends. -/
  changes (bound : String → Option Value) : Binds bound b.parameters →
    List.Forall₂ (RowChange.Sends bound) cs b.changes
  /-- The text is that of the changes, each at its position. -/
  sql : b.sql = String.join (b.changes.zipIdx.map fun p => (b.generator.operation p.1 p.2).1)

theorem records_empty {g : Generator} {capacity : Nat} {b : Batch}
    (h : Batch.empty? g capacity = .ok b) : b.Records [] ∧ b.generator = g := by
  obtain rfl := eq_of_empty?_eq_ok h
  exact ⟨⟨.nil 0, fun _ _ => .nil, rfl⟩, rfl⟩

theorem records_add {b b' : Batch} {cs : List RowChange} (records : b.Records cs) {c : RowChange}
    (fresh : c.IsFresh) (added : b.add c = .ok b') :
    b'.Records (cs ++ [c]) ∧ b'.generator = b.generator := by
  obtain ⟨-, rfl⟩ := add_eq_ok added
  refine ⟨⟨consecutive_extended records.names c, ?_, sql_extended records.sql c⟩, rfl⟩
  intro bound binds
  obtain ⟨before, own⟩ := binds.append
  exact List.rel_append (records.changes bound before)
    (.cons (RowChange.sends_named fresh own) .nil)

theorem records_addAll {b b' : Batch} {cs more : List RowChange} (records : b.Records cs)
    (fresh : ∀ c ∈ more, c.IsFresh) (accepted : b.addAll more = .ok b') :
    b'.Records (cs ++ more) ∧ b'.generator = b.generator := by
  induction more generalizing b cs with
  | nil =>
      obtain rfl := Except.ok.inj accepted
      rw [List.append_nil]
      exact ⟨records, rfl⟩
  | cons c rest ih =>
      cases added : b.add c with
      | error c' =>
          rw [addAll, added] at accepted
          cases accepted
      | ok b₁ =>
          rw [addAll, added] at accepted
          obtain ⟨records₁, generator₁⟩ := records_add records (fresh c List.mem_cons_self) added
          have run := ih records₁ (fun x mem => fresh x (List.mem_cons_of_mem c mem)) accepted
          rw [List.append_assoc, generator₁] at run
          exact run

end SqlGen.Batch
