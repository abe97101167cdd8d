import SqlGen.Proofs.Update.Offer

/-!
# Reported numbers of rows

After a batch has run, the numbers of affected rows come in, one for each change that returns rows.
`Dealt` hands them out: it goes through the changes and their results side by side, passes over the
changes that return nothing and gives each other one the next number.  It comes out even exactly if
there are as many numbers as changes that return rows (`exists_dealt`, `Dealt.length_eq`).

A batch complains about the first number that is not one, with the table of the change that it was
dealt to (`Batch.consume_eq_ok_iff`, `Batch.consume_eq_error_iff`).
-/

namespace SqlGen

/-! ## Dealing -/

/-- Numbers dealt in order to the changes that return rows. -/
inductive Dealt : List RowChange → List ResultSets → List Nat → List (RowChange × Nat) → Prop where
  | done : Dealt [] [] [] []
  | skip {c : RowChange} {cs : List RowChange} {rs : List ResultSets} {affected : List Nat}
      {dealt : List (RowChange × Nat)} :
      Dealt cs rs affected dealt → Dealt (c :: cs) (.none :: rs) affected dealt
  | deal {c : RowChange} {r : ResultSets} {n : Nat} {cs : List RowChange} {rs : List ResultSets}
      {affected : List Nat} {dealt : List (RowChange × Nat)} :
      r ≠ .none → Dealt cs rs affected dealt →
      Dealt (c :: cs) (r :: rs) (n :: affected) ((c, n) :: dealt)

/-- Those whose results are rows. -/
def answering {α : Type} (xs : List α) (rs : List ResultSets) : List α :=
  ((xs.zip rs).filter fun p => p.2 != .none).map fun p => p.1

/-- How many of the results are rows. -/
def demanded (rs : List ResultSets) : Nat := rs.countP fun r => r != .none

namespace Dealt

variable {cs : List RowChange} {rs : List ResultSets} {affected : List Nat}
  {dealt : List (RowChange × Nat)}

theorem length_eq (h : Dealt cs rs affected dealt) : affected.length = demanded rs := by
  induction h with
  | done => rfl
  | skip _ ih => simpa [demanded] using ih
  | deal returns _ ih => simpa [demanded, returns] using ih

/-- The numbers are dealt in their order. -/
theorem numbers (h : Dealt cs rs affected dealt) : dealt.map Prod.snd = affected := by
  induction h with
  | done => rfl
  | skip _ ih => exact ih
  | deal _ _ ih => rw [List.map_cons, ih]

theorem eq_zip (h : Dealt cs rs affected dealt) : dealt = (answering cs rs).zip affected := by
  induction h with
  | done => rfl
  | skip _ ih => exact ih
  | deal returns _ ih => simp [answering, returns, ih]

end Dealt

theorem exists_dealt {cs : List RowChange} {rs : List ResultSets} (even : cs.length = rs.length)
    {affected : List Nat} (enough : affected.length = demanded rs) :
    ∃ dealt, Dealt cs rs affected dealt := by
  induction cs generalizing rs affected with
  | nil =>
      obtain rfl := List.length_eq_zero_iff.mp even.symm
      obtain rfl := List.length_eq_zero_iff.mp enough
      exact ⟨[], .done⟩
  | cons c cs ih =>
      obtain ⟨r, rs, rfl⟩ := List.exists_cons_of_length_eq_add_one even.symm
      have later : cs.length = rs.length := Nat.succ.inj even
      by_cases silent : r = .none
      · -- A change without rows takes no number, and any other one takes the first.
        subst silent
        have same : affected.length = demanded rs := by simpa [demanded] using enough
        obtain ⟨dealt, h⟩ := ih later same
        exact ⟨dealt, .skip h⟩
      · have more : affected.length = demanded rs + 1 := by simpa [demanded, silent] using enough
        obtain ⟨n, rest, rfl⟩ := List.exists_cons_of_length_eq_add_one more
        obtain ⟨dealt, h⟩ := ih later (Nat.succ.inj more)
        exact ⟨(c, n) :: dealt, .deal silent h⟩

/-! ## Judging -/

namespace Batch

variable {b : Batch} {affected : List Nat}

theorem consume_eq_mismatch_iff {expected actual : Nat} :
    b.consume affected = .error { cause := .resultSetCountMismatch expected actual } ↔
      affected.length ≠ demanded b.results ∧ expected = demanded b.results ∧
        actual = affected.length := by
  have counted : (b.results.countP fun r => r != .none) = demanded b.results := rfl
  simp only [consume, counted]
  by_cases even : affected.length = demanded b.results
  · rw [if_neg (not_not.mpr even)]
    cases firstConflict b.reporting affected <;> simp [even]
  · rw [if_pos even]
    simp [even, eq_comm]

theorem consume_of_dealt {dealt : List (RowChange × Nat)}
    (h : Dealt b.changes b.results affected dealt) :
    b.consume affected =
      match dealt.find? fun p => p.2 != 1 with
      | some (change, actual) =>
          .error { cause := .concurrencyConflict change.table.name 1 actual }
      | none => .ok () := by
  have even : affected.length = b.results.countP fun r => r != .none := h.length_eq
  rw [h.eq_zip, consume, if_neg (not_not.mpr even)]
  rfl

/-- Numbers that have been dealt are accepted if every one is one. -/
theorem consume_eq_ok_iff {dealt : List (RowChange × Nat)}
    (h : Dealt b.changes b.results affected dealt) :
    b.consume affected = .ok () ↔ ∀ n ∈ affected, n = 1 := by
  rw [consume_of_dealt h, ← h.numbers, List.forall_mem_map]
  cases found : dealt.find? fun p => p.2 != 1 with
  | none =>
      have all := List.find?_eq_none.mp found
      simpa using all
  | some p =>
      have mem := List.mem_of_find?_eq_some found
      have other := List.find?_some found
      simp only [reduceCtorEq, false_iff, not_forall]
      exact ⟨p, mem, by simpa using other⟩

/-- Otherwise the first one that differs is complained about, with the table of its change. -/
theorem consume_eq_error_iff {dealt : List (RowChange × Nat)}
    (h : Dealt b.changes b.results affected dealt) {err : Error} :
    b.consume affected = .error err ↔
      ∃ before c n after, dealt = before ++ (c, n) :: after ∧ (∀ p ∈ before, p.2 = 1) ∧ n ≠ 1 ∧
        err = { cause := .concurrencyConflict c.table.name 1 n } := by
  rw [consume_of_dealt h]
  constructor
  · intro complaint
    cases found : dealt.find? fun p => p.2 != 1 with
    | none =>
        rw [found] at complaint
        cases complaint
    | some p =>
        rw [found] at complaint
        obtain ⟨other, before, after, split, ones⟩ := List.find?_eq_some_iff_append.mp found
        exact ⟨before, p.1, p.2, after, split, by simpa using ones, by simpa using other,
          (Except.error.inj complaint).symm⟩
  · rintro ⟨before, c, n, after, split, ones, other, rfl⟩
    have found : dealt.find? (fun p => p.2 != 1) = some (c, n) :=
      List.find?_eq_some_iff_append.mpr
        ⟨by simpa using other, before, after, split, by simpa using ones⟩
    rw [found]

/-- How a batch judges the numbers of affected rows.

It complains about their count, with both counts, exactly if there are not as many of them as
changes that return rows.  Otherwise the numbers can be dealt to these changes.  It accepts them
exactly if all are one, and it complains about a change exactly if that is the first one whose
number differs. -/
theorem judges_offerAll {g : Generator} {capacity : Nat} {b₀ : Batch}
    (new : Batch.empty? g capacity = .ok b₀) (cs : List RowChange) (affected : List Nat) :
    (∀ expected actual,
      (b₀.offerAll cs).consume affected =
          .error { cause := .resultSetCountMismatch expected actual } ↔
        affected.length ≠ demanded (b₀.offerAll cs).results ∧
          expected = demanded (b₀.offerAll cs).results ∧ actual = affected.length) ∧
      (affected.length = demanded (b₀.offerAll cs).results →
        ∃ dealt, Dealt (b₀.offerAll cs).changes (b₀.offerAll cs).results affected dealt) ∧
      ∀ dealt, Dealt (b₀.offerAll cs).changes (b₀.offerAll cs).results affected dealt →
        ((b₀.offerAll cs).consume affected = .ok () ↔ ∀ n ∈ affected, n = 1) ∧
        ∀ err, (b₀.offerAll cs).consume affected = .error err ↔
          ∃ before c n after, dealt = before ++ (c, n) :: after ∧ (∀ p ∈ before, p.2 = 1) ∧
            n ≠ 1 ∧ err = { cause := .concurrencyConflict c.table.name 1 n } := by
  obtain ⟨rendered, -⟩ := rendered_offerAll new cs
  have even : (b₀.offerAll cs).changes.length = (b₀.offerAll cs).results.length := by
    rw [rendered.results, List.length_map, List.length_zipIdx]
  refine ⟨?count, ?dealt, ?judgement⟩
  case count => exact fun expected actual => consume_eq_mismatch_iff
  case dealt => exact fun enough => exists_dealt even enough
  case judgement => exact fun dealt h => ⟨consume_eq_ok_iff h, fun err => consume_eq_error_iff h⟩

end Batch

/-! ## A silent change in the middle -/

/-- A line of a log, of which nothing is read back. -/
def addLine : RowChange where
  table := ⟨"log", none⟩
  kind := .added
  columns := [{ name := "line", roles := { write := true }, value := .text "renamed" }]

def deleteDraft : RowChange where
  table := ⟨"drafts", none⟩
  kind := .deleted
  columns := [{ name := "id", roles := { key := true, condition := true }, expected := .integer 9 }]

def plainRoomForThree : Batch := { generator := Sqlite.generator false, capacity := 3 }

def silentLine : Batch := plainRoomForThree.offerAll [rename, addLine, deleteDraft]

/-- The second number is that of the third change, because the second change returns nothing.  A
third number is one too many. -/
theorem judges_offerAll_silentLine :
    Batch.empty? (Sqlite.generator false) 3 = .ok plainRoomForThree ∧
      silentLine.results = [.last, .none, .last] ∧
      Dealt silentLine.changes silentLine.results [1, 0]
        [((rename.named 0).1, 1), ((deleteDraft.named 4).1, 0)] ∧
      silentLine.consume [1, 0] = .error { cause := .concurrencyConflict "drafts" 1 0 } ∧
      silentLine.consume [1, 1] = .ok () ∧
      silentLine.consume [1, 1, 1] = .error { cause := .resultSetCountMismatch 2 3 } := by
  have new : Batch.empty? (Sqlite.generator false) 3 = .ok plainRoomForThree := rfl
  have judges := Batch.judges_offerAll new [rename, addLine, deleteDraft]
  have dealt (m n : Nat) : Dealt silentLine.changes silentLine.results [m, n]
      [((rename.named 0).1, m), ((deleteDraft.named 4).1, n)] :=
    .deal (by decide) (.skip (.deal (by decide) .done))
  have conflict := ((judges [1, 0]).2.2 _ (dealt 1 0)).2
    { cause := .concurrencyConflict "drafts" 1 0 }
  have accepted := ((judges [1, 1]).2.2 _ (dealt 1 1)).1
  refine ⟨new, rfl, dealt 1 0, conflict.mpr ?_, accepted.mpr (by decide),
    ((judges [1, 1, 1]).1 2 3).mpr (by decide)⟩
  exact ⟨[((rename.named 0).1, 1)], (deleteDraft.named 4).1, 0, [], rfl, by decide, by decide, rfl⟩

end SqlGen
