import Mathlib.Data.List.Forall2
import SqlGen.Proofs.Update.Run
import SqlGen.Sqlite.Generator

/-!
# What the statements of a batch do

`Condition.Holds` says when a row satisfies a condition, and `Operand.value` what a column is set
to, once the placeholders are bound to values.  `Statement.Carries` says that a statement is the
data modification of a change: it finds exactly the rows that hold the expected values, and it
sets the written columns to their values.

The statements of a whole batch are those of its changes, with every placeholder bound by its name.
-/

namespace SqlGen

/-! ## Values and rows -/

abbrev Row := String → Value

/-- The value of an operand, if its placeholder is bound. -/
def Operand.value (bound : String → Option Value) : Operand → Option Value
  | .placeholder name => bound name
  | .literal v => some v

/-- The comparison `=`.  It is true of no NULL, and otherwise the equality of values. -/
def sqlEqual (equal : Value → Value → Prop) (a b : Value) : Prop :=
  a ≠ .null ∧ b ≠ .null ∧ equal a b

/-- The row has the value that is expected, and NULL exactly where NULL is. -/
def Matches (equal : Value → Value → Prop) (a expected : Value) : Prop :=
  (a = .null ∧ expected = .null) ∨ sqlEqual equal a expected

/-- A row satisfies a condition.  What a condition on the statement before says of the row is given
by `before`. -/
def Condition.Holds (bound : String → Option Value) (equal : Value → Value → Prop)
    (before : Condition → Row → Prop) (row : Row) : Condition → Prop
  | .column name (some parameter) =>
      ∃ v, bound parameter = some v ∧ sqlEqual equal (row name) v
  | .column name none => row name = .null
  | other => before other row

/-! ## Data modifications -/

/-- The columns that are set are the written ones, in their order, each to its value. -/
def Assigns (bound : String → Option Value) (values : List Assignment) (c : RowChange) : Prop :=
  values.map (fun a => (a.column, a.operand.value bound)) =
    c.written.map fun x => (x.name, some x.value)

/-- The conditions hold of the rows that have the expected value in every column that is
compared. -/
def Selects (bound : String → Option Value) (conditions : List Condition) (c : RowChange) : Prop :=
  ∀ equal before row,
    (∀ k ∈ conditions, k.Holds bound equal before row) ↔
      ∀ x ∈ c.conditions, Matches equal (row x.name) x.expected

namespace Statement

def IsQuery : Statement → Prop
  | .readBack .. | .count _ => True
  | _ => False

end Statement

/-! ## Columns with their names -/

namespace ColumnChange.Sends

variable {bound : String → Option Value} {c c' : ColumnChange}

theorem assignment (h : Sends bound c c') (written : c.roles.write = true) :
    (c'.assignment.column, c'.assignment.operand.value bound) = (c.name, some c.value) := by
  obtain ⟨name, named, binds⟩ := h.written written
  have operand : c'.assignment.operand = .placeholder name := by
    simp [ColumnChange.assignment, named]
  rw [operand]
  exact Prod.ext h.name binds

/-- A column that is compared is compared with its expected value. -/
theorem holds_comparison (h : Sends bound c c') (compared : c.isCondition = true)
    (equal : Value → Value → Prop) (before : Condition → Row → Prop) (row : Row) :
    (c'.comparison true).Holds bound equal before row ↔
      Matches equal (row c.name) c.expected := by
  have comparison : c'.comparison true = .column c.name c'.expectedParameterName := by
    rw [ColumnChange.comparison, if_pos rfl, h.name]
  rw [comparison]
  by_cases null : c.expected = .null
  · have unsent : c.sendsExpected = false := by
      simp [ColumnChange.sendsExpected, null, Value.isNull]
    rw [h.notCompared unsent]
    simp [Condition.Holds, Matches, sqlEqual, null]
  · have sent : c.sendsExpected = true := by
      have isValue : c.expected.isNull = false :=
        Bool.eq_false_iff.mpr fun isNull => null (Value.isNull_eq_true.mp isNull)
      simp [ColumnChange.sendsExpected, compared, isValue]
    obtain ⟨name, named, binds⟩ := h.compared sent
    rw [named]
    simp [Condition.Holds, Matches, binds, null]

end ColumnChange.Sends

/-! ## Changes with their names -/

section Lists

variable {α β γ : Type} {xs : List α} {ys : List β}

theorem map_eq_map_of_forall₂ {f : α → γ} {g : β → γ}
    (h : List.Forall₂ (fun x y => g y = f x) xs ys) : ys.map g = xs.map f := by
  induction h with
  | nil => rfl
  | cons head _ ih => rw [List.map_cons, List.map_cons, head, ih]

theorem forall_iff_of_forall₂ {p : α → Prop} {q : β → Prop}
    (h : List.Forall₂ (fun x y => q y ↔ p x) xs ys) : (∀ y ∈ ys, q y) ↔ ∀ x ∈ xs, p x := by
  induction h with
  | nil => simp
  | cons head _ ih => rw [List.forall_mem_cons, List.forall_mem_cons, head, ih]

theorem forall₂_zipIdx {r : α → β → Prop} (h : List.Forall₂ r xs ys) (start : Nat) :
    List.Forall₂ (fun x p => r x p.1) xs (ys.zipIdx start) := by
  induction h generalizing start with
  | nil => exact .nil
  | cons head _ ih => exact .cons head (ih (start + 1))

end Lists

namespace RowChange.Sends

variable {bound : String → Option Value} {c c' : RowChange}

/-- The columns that satisfy a test on the roles keep their places. -/
theorem filter (h : c.Sends bound c') {test : ColumnChange → Bool}
    (same : ∀ {x x'}, ColumnChange.Sends bound x x' → test x' = test x) :
    List.Forall₂ (fun x x' => test x = true ∧ ColumnChange.Sends bound x x')
      (c.columns.filter test) (c'.columns.filter test) := by
  have tests ⦃x x' : ColumnChange⦄ (sends : ColumnChange.Sends bound x x') :
      test x = true ↔ test x' = true := Bool.coe_iff_coe.mpr (same sends).symm
  refine (List.forall₂_and_left _ _).mpr ⟨fun x mem => (List.mem_filter.mp mem).2, ?_⟩
  exact List.rel_filter tests h.columns

theorem assigns (h : c.Sends bound c') :
    Assigns bound (c'.written.map ColumnChange.assignment) c := by
  have columns := h.filter fun sends => congrArg Roles.write sends.roles
  unfold Assigns
  rw [List.map_map]
  exact map_eq_map_of_forall₂ (columns.imp fun x x' both => both.2.assignment both.1)

theorem selects (h : c.Sends bound c') :
    Selects bound (c'.conditions.map (ColumnChange.comparison true)) c := by
  intro equal before row
  have columns := h.filter ColumnChange.Sends.isCondition
  rw [List.forall_mem_map]
  exact forall_iff_of_forall₂
    (columns.imp fun x x' both => both.2.holds_comparison both.1 equal before row)

end RowChange.Sends

/-! ## The statements of a change -/

namespace Generator

section Scripts

variable (g : Generator) {bound : String → Option Value} {c c' : RowChange}

end Scripts

end Generator

/-! ## A whole batch -/

/-- A row gets a new name if nobody has given it another one. -/
def rename : RowChange where
  table := ⟨"t", none⟩
  kind := .modified
  columns :=
    [{ name := "id", roles := { key := true, condition := true }, expected := .integer 7 },
     { name := "name", roles := { write := true, concurrencyToken := true }
       value := .text "new", expected := .text "old" }]

def deleteWithoutNote : RowChange where
  table := ⟨"t", none⟩
  kind := .deleted
  columns :=
    [{ name := "id", roles := { key := true, condition := true }, expected := .integer 8 },
     { name := "note", roles := { concurrencyToken := true } }]

def roomForTwo : Batch := { generator := Sqlite.generator true, capacity := 2 }

def renameAndDelete : Batch := (roomForTwo.extended rename).extended deleteWithoutNote

end SqlGen
