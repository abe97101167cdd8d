import Mathlib.Data.List.Nodup
import Mathlib.Tactic.Common
import SqlGen.Update.Batch

/-!
# Names of the values of a batch

A change is named in two rounds: first the values that are written, then the expected values that
are compared.  Each round walks through the columns and gives the next number to those that send
something.  Numbers tell names apart, so in a list of parameters with consecutive numbers every
parameter is found by its name (`valueOf_of_mem`).

`Sends` says what the rounds have made of a column: the names it was given stand for its own
value and its own expected value.
-/

namespace SqlGen

/-! ## Names -/

theorem BatchParameter.nameOf_injective {m n : Nat} (h : nameOf m = nameOf n) : m = n := by
  have digits : Decimal.digits m = Decimal.digits n := by
    have := congrArg String.toList h
    simpa [nameOf, Decimal.natural] using this
  have value := congrArg (fun ds => Nat.ofDigitChars 10 ds 0) digits
  simpa [Decimal.digits, Nat.ofDigitChars_ten_toDigits] using value

/-- The parameters are named by consecutive numbers. -/
def Consecutive (start : Nat) (parameters : List BatchParameter) : Prop :=
  parameters.map BatchParameter.name =
    (List.range' start parameters.length).map BatchParameter.nameOf

theorem Consecutive.nil (start : Nat) : Consecutive start [] := rfl

theorem Consecutive.append {start : Nat} {ps qs : List BatchParameter}
    (hp : Consecutive start ps) (hq : Consecutive (start + ps.length) qs) :
    Consecutive start (ps ++ qs) := by
  unfold Consecutive at *
  rw [List.map_append, hp, hq, List.length_append, ← List.range'_append_1, List.map_append]

theorem Consecutive.nodup {start : Nat} {ps : List BatchParameter} (h : Consecutive start ps) :
    (ps.map BatchParameter.name).Nodup := by
  rw [h]
  exact List.Nodup.map (fun _ _ => BatchParameter.nameOf_injective) List.nodup_range'

def valueOf (parameters : List BatchParameter) (name : String) : Option Value :=
  (parameters.find? fun p => p.name == name).map BatchParameter.value

/-- Among parameters of different names each one is found by its own. -/
theorem valueOf_of_mem {ps : List BatchParameter} (distinct : (ps.map BatchParameter.name).Nodup)
    {p : BatchParameter} (mem : p ∈ ps) : valueOf ps p.name = some p.value := by
  induction ps with
  | nil => cases mem
  | cons q rest ih =>
      rw [List.map_cons, List.nodup_cons] at distinct
      rcases List.mem_cons.mp mem with rfl | later
      · simp [valueOf]
      · have other : q.name ≠ p.name := by
          intro same
          exact distinct.1 (same ▸ List.mem_map_of_mem later)
        have skipped : valueOf (q :: rest) p.name = valueOf rest p.name := by
          simp [valueOf, other]
        rw [skipped, ih distinct.2 later]

/-- Every parameter is found by its name. -/
def Binds (bound : String → Option Value) (parameters : List BatchParameter) : Prop :=
  ∀ p ∈ parameters, bound p.name = some p.value

theorem Binds.append {bound : String → Option Value} {ps qs : List BatchParameter}
    (h : Binds bound (ps ++ qs)) : Binds bound ps ∧ Binds bound qs :=
  ⟨fun p mem => h p (List.mem_append_left qs mem), fun p mem => h p (List.mem_append_right ps mem)⟩

/-! ## One round -/

section Round

variable {needs : ColumnChange → Bool} {value : ColumnChange → Value}
  {assign : ColumnChange → String → ColumnChange}

theorem nameColumns_cons_of_needs {c : ColumnChange} (h : needs c = true) (next : Nat)
    (rest : List ColumnChange) :
    nameColumns needs value assign next (c :: rest) =
      (assign c (BatchParameter.nameOf next) ::
          (nameColumns needs value assign (next + 1) rest).1,
        ⟨BatchParameter.nameOf next, value c, c.mapping⟩ ::
          (nameColumns needs value assign (next + 1) rest).2) := by
  rw [nameColumns, if_pos h]

theorem nameColumns_cons_of_not {c : ColumnChange} (h : needs c = false) (next : Nat)
    (rest : List ColumnChange) :
    nameColumns needs value assign next (c :: rest) =
      (c :: (nameColumns needs value assign next rest).1,
        (nameColumns needs value assign next rest).2) := by
  rw [nameColumns, if_neg (Bool.eq_false_iff.mp h)]

theorem consecutive_nameColumns (next : Nat) (cs : List ColumnChange) :
    Consecutive next (nameColumns needs value assign next cs).2 := by
  induction cs generalizing next with
  | nil => exact .nil next
  | cons c rest ih =>
      cases h : needs c with
      | true =>
          rw [nameColumns_cons_of_needs h]
          have later := ih (next + 1)
          unfold Consecutive at later ⊢
          rw [List.map_cons, later, List.length_cons, List.range'_succ, List.map_cons]
      | false =>
          rw [nameColumns_cons_of_not h]
          exact ih next

/-- A round names the columns that need it, for their own values, and leaves the others. -/
theorem forall₂_nameColumns {bound : String → Option Value} {next : Nat} {cs : List ColumnChange}
    (binds : Binds bound (nameColumns needs value assign next cs).2) :
    List.Forall₂
      (fun c c' =>
        if needs c then ∃ name, bound name = some (value c) ∧ c' = assign c name else c' = c)
      cs (nameColumns needs value assign next cs).1 := by
  induction cs generalizing next with
  | nil => exact .nil
  | cons c rest ih =>
      cases h : needs c with
      | true =>
          rw [nameColumns_cons_of_needs h] at binds ⊢
          refine .cons ?_ (ih fun p mem => binds p (List.mem_cons_of_mem _ mem))
          rw [if_pos h]
          exact ⟨_, binds _ List.mem_cons_self, rfl⟩
      | false =>
          rw [nameColumns_cons_of_not h] at binds ⊢
          refine .cons ?_ (ih binds)
          rw [if_neg (Bool.eq_false_iff.mp h)]

end Round

/-! ## A change -/

namespace ColumnChange

/-- No value of the column has a name yet. -/
def IsFresh (c : ColumnChange) : Prop :=
  c.parameterName = none ∧ c.expectedParameterName = none

/-- The column `c'` is the column `c` with names for what it sends. -/
structure Sends (bound : String → Option Value) (c c' : ColumnChange) : Prop where
  /-- Nothing but the names differs. -/
  same : { c' with parameterName := none, expectedParameterName := none } =
    { c with parameterName := none, expectedParameterName := none }
  /-- A column that is written has a name that stands for its value. -/
  written : c.roles.write = true → ∃ name, c'.parameterName = some name ∧ bound name = some c.value
  /-- A column that is compared with a value has a name that stands for this value. -/
  compared : c.sendsExpected = true →
    ∃ name, c'.expectedParameterName = some name ∧ bound name = some c.expected
  /-- No other column has a name for an expected value. -/
  notCompared : c.sendsExpected = false → c'.expectedParameterName = none

namespace Sends

variable {bound : String → Option Value} {c c' : ColumnChange}

theorem name (h : Sends bound c c') : c'.name = c.name := by
  simpa using congrArg ColumnChange.name h.same

theorem roles (h : Sends bound c c') : c'.roles = c.roles := by
  simpa using congrArg ColumnChange.roles h.same

theorem isCondition (h : Sends bound c c') : c'.isCondition = c.isCondition := by
  rw [ColumnChange.isCondition, ColumnChange.isCondition, h.roles]

end Sends

end ColumnChange

/-- No value of the change has a name yet. -/
def RowChange.IsFresh (c : RowChange) : Prop := ∀ x ∈ c.columns, x.IsFresh

/-- The change `c'` is the change `c` with names for what it sends. -/
structure RowChange.Sends (bound : String → Option Value) (c c' : RowChange) : Prop where
  table : c'.table = c.table
  kind : c'.kind = c.kind
  columns : List.Forall₂ (ColumnChange.Sends bound) c.columns c'.columns

namespace RowChange

theorem consecutive_named (c : RowChange) (next : Nat) : Consecutive next (c.named next).2 :=
  (consecutive_nameColumns next c.columns).append (consecutive_nameColumns _ _)

/-- The two rounds over one column. -/
theorem sends_of_rounds {bound : String → Option Value} {c c₁ c₂ : ColumnChange}
    (fresh : c.IsFresh)
    (first : if c.roles.write then ∃ name, bound name = some c.value ∧
      c₁ = { c with parameterName := some name } else c₁ = c)
    (second : if c₁.sendsExpected then ∃ name, bound name = some c₁.expected ∧
      c₂ = { c₁ with expectedParameterName := some name } else c₂ = c₁) :
    ColumnChange.Sends bound c c₂ := by
  have named : (c.roles.write = true → ∃ name, c₁.parameterName = some name ∧
      bound name = some c.value) ∧ ∃ parameter, c₁ = { c with parameterName := parameter } := by
    split at first
    next =>
      obtain ⟨name, binds, rfl⟩ := first
      exact ⟨fun _ => ⟨name, rfl, binds⟩, some name, rfl⟩
    next unwritten =>
      obtain rfl := first
      exact ⟨fun written => absurd written unwritten, c₁.parameterName, rfl⟩
  obtain ⟨written, parameter, rfl⟩ := named
  split at second
  next sends =>
    obtain ⟨name, binds, rfl⟩ := second
    refine ⟨rfl, written, fun _ => ⟨name, rfl, binds⟩, fun unsent => ?_⟩
    exact absurd sends (Bool.eq_false_iff.mp unsent)
  next unsent =>
    obtain rfl := second
    exact ⟨rfl, written, fun sends => absurd sends unsent, fun _ => fresh.2⟩

/-- Two relations between lists that go on from each other. -/
theorem forall₂_trans {α : Type} {R S T : α → α → Prop} {xs ys zs : List α}
    (first : List.Forall₂ R xs ys) (second : List.Forall₂ S ys zs)
    (both : ∀ x ∈ xs, ∀ y z, R x y → S y z → T x z) : List.Forall₂ T xs zs := by
  induction first generalizing zs with
  | nil =>
      cases second
      exact .nil
  | cons h _ ih =>
      cases second with
      | cons h' rest =>
          exact .cons (both _ List.mem_cons_self _ _ h h')
            (ih rest fun x mem => both x (List.mem_cons_of_mem _ mem))

/-- Whoever finds the parameters of a change by their names finds its values. -/
theorem sends_named {bound : String → Option Value} {c : RowChange} (fresh : c.IsFresh)
    {next : Nat} (binds : Binds bound (c.named next).2) : c.Sends bound (c.named next).1 := by
  obtain ⟨values, expectations⟩ := binds.append
  have columns := forall₂_trans (forall₂_nameColumns values) (forall₂_nameColumns expectations)
    fun x mem y z first second => sends_of_rounds (fresh x mem) first second
  exact ⟨rfl, rfl, columns⟩

end RowChange

end SqlGen
