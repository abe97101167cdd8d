import SqlGen.Proofs.Pass.Nullability
import SqlGen.Proofs.Reading.Grouping

/-!
# Divisions and nullability

An operator says that it may be NULL if one of its operands says so, whatever the operator is.  So
an arithmetic expression over integers says that it is never NULL (`IsArithmetic.isNullable`).  But
SQLite gives NULL for a quotient or a remainder if the divisor is zero.

`denote_eq_none_iff` is the exact condition: an arithmetic expression is NULL where one of its
divisors is zero, at any depth, and nowhere else.  There, and nowhere else, the simplification by
nullability changes what a test for NULL denotes.
-/

namespace SqlGen

/-! ## Operators on integers -/

namespace BinaryOp

def isArithmetic : BinaryOp → Bool
  | .add | .subtract | .multiply | .divide | .modulo => true
  | _ => false

/-- The right operand is a divisor. -/
def isDivision : BinaryOp → Bool
  | .divide | .modulo => true
  | _ => false

end BinaryOp

open Reading.Term in
/-- Two integers have no result only if they are divided and the divisor is zero. -/
theorem Reading.Term.compute_eq_none_iff {op : BinaryOp} (h : op.isArithmetic = true) (a b : Int) :
    compute op a b = none ↔ op.isDivision = true ∧ b = 0 := by
  cases op with
  | add | subtract | multiply => simp [compute, BinaryOp.isDivision]
  | divide | modulo => simp [compute, BinaryOp.isDivision]
  | _ => cases h

/-! ## Arithmetic expressions -/

namespace Expr

/-- Integers, and columns and parameters that are declared never to be NULL, under arithmetic
operators. -/
inductive IsArithmetic : Expr → Prop where
  | constant (i : Int64) (t : Typing) : IsArithmetic (.constant (.integer i) t)
  | column (name tableAlias : String) (t : Typing) :
      IsArithmetic (.column name tableAlias t false)
  | parameter (name : String) (t : Typing) : IsArithmetic (.parameter name t false)
  | binary {op : BinaryOp} {l r : Expr} (h : op.isArithmetic = true) (t : Typing) :
      IsArithmetic l → IsArithmetic r → IsArithmetic (.binary op l r t)
  | negate {e : Expr} (t : Typing) : IsArithmetic e → IsArithmetic (.unary .negate e t)

namespace IsArithmetic

variable {e : Expr}

theorem isNullable (arithmetic : e.IsArithmetic) : e.isNullable = false := by
  induction arithmetic with
  | constant i t => rfl
  | column name tableAlias t => rfl
  | parameter name t => rfl
  | binary h t _ _ ihl ihr => rw [Expr.isNullable, ihl, ihr, Bool.or_false]
  | negate t _ ih => exact ih

/-- The simplification by nullability leaves the expression alone. -/
theorem revise_eq (arithmetic : e.IsArithmetic) : e.revise .nullability = .ok .kept := by
  induction arithmetic with
  | constant i t => rfl
  | column name tableAlias t => rfl
  | parameter name t => rfl
  | binary h t _ _ ihl ihr =>
      rw [revise, ihl, ihr]
      rfl
  | negate t _ ih =>
      rw [revise, ih]
      rfl

/-- A test for NULL is simplified to the truth value that it has for an operand that is not
NULL. -/
theorem revise_test (arithmetic : e.IsArithmetic) {op : UnaryOp} {truth : Bool}
    (rule : ∀ x t, Nullability.simplify (.unary op x t) = Nullability.simplifyTest x t truth)
    (t : Typing) :
    (Expr.unary op e t).revise .nullability = .ok (.changed (.constant (.boolean truth) t) []) := by
  have folded : Nullability.simplify (.unary op e t) =
      .changed (.constant (.boolean truth) t) [] := by
    simp [rule, Nullability.simplifyTest, arithmetic.isNullable]
  rw [revise, arithmetic.revise_eq]
  exact congrArg Except.ok folded

end IsArithmetic

end Expr

/-! ## The integers of SQLite -/

namespace Evaluation

/-- An integer for each column and each parameter. -/
structure Numbers where
  column (name tableAlias : String) : Int
  parameter (name : String) : Int

/-- What SQLite makes of nodes over integers.  Integers do not overflow, truth values are numbers,
and a division by zero is NULL.  Nodes that have no part in arithmetic are NULL as well. -/
def arithmetic : Node (Numbers → Option Int) → Numbers → Option Int
  | .column name tableAlias _ => fun n => some (n.column name tableAlias)
  | .constant (.integer i) _ => fun _ => some i.toInt
  | .constant (.boolean b) _ => fun _ => some (if b then 1 else 0)
  | .parameter name _ => fun n => some (n.parameter name)
  | .binary op l r _ => fun n => do
      let a ← l n
      let b ← r n
      Reading.Term.compute op a b
  | .unary .negate x _ => fun n => (x n).map fun a => -a
  | .unary .isNull x _ => fun n => some (if (x n).isNone then 1 else 0)
  | .unary .isNotNull x _ => fun n => some (if (x n).isNone then 0 else 1)
  | _ => fun _ => none

def arithmeticEvaluation : Evaluation Numbers (Option Int) :=
  .ofTable arithmetic none fun b => some (if b then 1 else 0)

/-- Somewhere in the expression a divisor is zero. -/
def DividesByZero (n : Numbers) (e : Expr) : Prop :=
  ∃ op l r t, op.isDivision = true ∧ (Expr.binary op l r t).Within e ∧
    arithmeticEvaluation.denote r n = some 0

variable {n : Numbers} {e : Expr}

/-- The divisor is that of the node itself, or one below it. -/
theorem dividesByZero_iff :
    DividesByZero n e ↔
      (∃ op l r t, e = .binary op l r t ∧ op.isDivision = true ∧
        arithmeticEvaluation.denote r n = some 0) ∨
      ∃ c ∈ e.children, DividesByZero n c := by
  constructor
  · rintro ⟨op, l, r, t, division, within, zero⟩
    rcases Expr.within_iff.mp within with rfl | ⟨c, mem, below⟩
    · exact .inl ⟨op, l, r, t, rfl, division, zero⟩
    · exact .inr ⟨c, mem, op, l, r, t, division, below, zero⟩
  · rintro (⟨op, l, r, t, rfl, division, zero⟩ | ⟨c, mem, op, l, r, t, division, below, zero⟩)
    · exact ⟨op, l, r, t, division, .self, zero⟩
    · exact ⟨op, l, r, t, division, .child mem below, zero⟩

theorem dividesByZero_binary {op : BinaryOp} {l r : Expr} {t : Typing} :
    DividesByZero n (.binary op l r t) ↔
      (op.isDivision = true ∧ arithmeticEvaluation.denote r n = some 0) ∨
        DividesByZero n l ∨ DividesByZero n r := by
  rw [dividesByZero_iff]
  constructor
  · rintro (⟨_, _, _, _, same, division, zero⟩ | ⟨c, mem, below⟩)
    · cases same
      exact .inl ⟨division, zero⟩
    · rcases List.mem_cons.mp mem with rfl | mem
      · exact .inr (.inl below)
      · obtain rfl := List.mem_singleton.mp mem
        exact .inr (.inr below)
  · rintro (⟨division, zero⟩ | below | below)
    · exact .inl ⟨op, l, r, t, rfl, division, zero⟩
    · exact .inr ⟨l, List.mem_cons_self, below⟩
    · exact .inr ⟨r, List.mem_cons_of_mem l List.mem_cons_self, below⟩

theorem dividesByZero_negate {t : Typing} :
    DividesByZero n (.unary .negate e t) ↔ DividesByZero n e := by
  rw [dividesByZero_iff]
  constructor
  · rintro (⟨_, _, _, _, same, -⟩ | ⟨c, mem, below⟩)
    · cases same
    · obtain rfl := List.mem_singleton.mp mem
      exact below
  · exact fun below => .inr ⟨e, List.mem_cons_self, below⟩

/-- An expression without children does not divide. -/
theorem not_dividesByZero_leaf (leaf : e.children = []) : ¬ DividesByZero n e := by
  rw [dividesByZero_iff, leaf]
  rintro (⟨_, _, _, _, rfl, -⟩ | ⟨c, mem, -⟩)
  · cases leaf
  · cases mem

/-- An arithmetic expression is NULL where a divisor is zero, and nowhere else. -/
theorem denote_eq_none_iff (arithmetic : e.IsArithmetic) (n : Numbers) :
    arithmeticEvaluation.denote e n = none ↔ DividesByZero n e := by
  induction arithmetic with
  | constant i t | column name tableAlias t | parameter name t =>
      exact iff_of_false (Option.some_ne_none _) (not_dividesByZero_leaf rfl)
  | @binary op l r h t _ _ ihl ihr =>
      have node : arithmeticEvaluation.denote (.binary op l r t) n =
          (arithmeticEvaluation.denote l n).bind fun a =>
            (arithmeticEvaluation.denote r n).bind fun b => Reading.Term.compute op a b := rfl
      rw [dividesByZero_binary, ← ihl, ← ihr, node]
      -- NULL on a side is NULL, and two numbers are NULL only by the operator itself.
      cases arithmeticEvaluation.denote l n with
      | none => simp
      | some a =>
          cases arithmeticEvaluation.denote r n with
          | none => simp
          | some b => simp [Reading.Term.compute_eq_none_iff h]
  | negate t _ ih =>
      rw [dividesByZero_negate, ← ih]
      exact Option.map_eq_none_iff

/-- What the nullability of an arithmetic expression is worth.

The expression says that it is never NULL, and tests for NULL are simplified to truth values
accordingly.  It is NULL where one of its divisors is zero.  There both tests change what they
denote, and nowhere else. -/
theorem denote_simplified_test_iff (arithmetic : e.IsArithmetic) (t : Typing) :
    e.isNullable = false ∧
      (Expr.unary .isNull e t).revise .nullability =
        .ok (.changed (.constant (.boolean false) t) []) ∧
      (Expr.unary .isNotNull e t).revise .nullability =
        .ok (.changed (.constant (.boolean true) t) []) ∧
      ∀ n, (arithmeticEvaluation.denote e n = none ↔ DividesByZero n e) ∧
        (arithmeticEvaluation.denote (.constant (.boolean false) t) n =
          arithmeticEvaluation.denote (.unary .isNull e t) n ↔ ¬ DividesByZero n e) ∧
        (arithmeticEvaluation.denote (.constant (.boolean true) t) n =
          arithmeticEvaluation.denote (.unary .isNotNull e t) n ↔ ¬ DividesByZero n e) := by
  refine ⟨arithmetic.isNullable, arithmetic.revise_test (fun _ _ => rfl) t,
    arithmetic.revise_test (fun _ _ => rfl) t,
    fun n => ⟨denote_eq_none_iff arithmetic n, ?isNull, ?isNotNull⟩⟩
  all_goals rw [← denote_eq_none_iff arithmetic n]
  case isNull =>
    have test : arithmeticEvaluation.denote (.unary .isNull e t) n =
        some (if (arithmeticEvaluation.denote e n).isNone then 1 else 0) := rfl
    have falsum : arithmeticEvaluation.denote (.constant (.boolean false) t) n = some 0 := rfl
    rw [test, falsum]
    cases arithmeticEvaluation.denote e n <;> simp
  case isNotNull =>
    have test : arithmeticEvaluation.denote (.unary .isNotNull e t) n =
        some (if (arithmeticEvaluation.denote e n).isNone then 0 else 1) := rfl
    have verum : arithmeticEvaluation.denote (.constant (.boolean true) t) n = some 1 := rfl
    rw [test, verum]
    cases arithmeticEvaluation.denote e n <;> simp

/-! ## Two divisions -/

/-- The negated remainder of ten by the column `id` less a parameter. -/
def remainder : Expr :=
  .unary .negate
    (.binary .modulo (.constant (.integer 10) ⟨.int64, none⟩)
      (.binary .subtract (.column "id" "t" ⟨.int64, none⟩ false)
        (.parameter "p" ⟨.int64, none⟩ false) ⟨.int64, none⟩)
      ⟨.int64, none⟩)
    ⟨.int64, none⟩

theorem isArithmetic_remainder : remainder.IsArithmetic :=
  .negate _ (.binary rfl _ (.constant _ _) (.binary rfl _ (.column _ _ _) (.parameter _ _)))

/-- The remainder is NULL in the row that the parameter names, and its test is not simplified
right for that row. -/
theorem denote_simplified_test_iff_remainder :
    remainder.IsArithmetic ∧ remainder.isNullable = false ∧
      (∀ n : Numbers, arithmeticEvaluation.denote remainder n = none ↔ DividesByZero n remainder) ∧
      DividesByZero ⟨fun _ _ => 3, fun _ => 3⟩ remainder ∧
      ¬ DividesByZero ⟨fun _ _ => 3, fun _ => 4⟩ remainder ∧
      arithmeticEvaluation.denote (.constant (.boolean true) ⟨.boolean, none⟩)
          ⟨fun _ _ => 3, fun _ => 3⟩ ≠
        arithmeticEvaluation.denote (.unary .isNotNull remainder ⟨.boolean, none⟩)
          ⟨fun _ _ => 3, fun _ => 3⟩ := by
  obtain ⟨never, -, -, values⟩ := denote_simplified_test_iff isArithmetic_remainder ⟨.boolean, none⟩
  have zero : DividesByZero ⟨fun _ _ => 3, fun _ => 3⟩ remainder :=
    (values ⟨fun _ _ => 3, fun _ => 3⟩).1.mp rfl
  have other : ¬ DividesByZero ⟨fun _ _ => 3, fun _ => 4⟩ remainder :=
    fun zero => nomatch (values ⟨fun _ _ => 3, fun _ => 4⟩).1.mpr zero
  exact ⟨isArithmetic_remainder, never, fun n => (values n).1, zero, other,
    fun same => (values _).2.2.mp same zero⟩

def oneByZero : Expr :=
  .binary .divide (.constant (.integer 1) ⟨.int64, none⟩) (.constant (.integer 0) ⟨.int64, none⟩)
    ⟨.int64, none⟩

/-- One divided by zero is NULL and says that it is not, and the test whether it is NULL is
simplified to FALSE. -/
theorem not_neverNull_oneByZero :
    oneByZero.IsArithmetic ∧ oneByZero.isNullable = false ∧
      (∀ n, arithmeticEvaluation.denote oneByZero n = none) ∧
      ∃ r, (Expr.unary .isNull oneByZero ⟨.boolean, none⟩).revise .nullability = .ok r ∧
        ∀ n, arithmeticEvaluation.denote (r.of (.unary .isNull oneByZero ⟨.boolean, none⟩)) n ≠
          arithmeticEvaluation.denote (.unary .isNull oneByZero ⟨.boolean, none⟩) n := by
  have arithmetic : oneByZero.IsArithmetic := .binary rfl _ (.constant _ _) (.constant _ _)
  refine ⟨arithmetic, rfl, fun _ => rfl, _, rfl, fun n same => ?_⟩
  cases same

end Evaluation

end SqlGen
