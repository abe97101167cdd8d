import SqlGen.Proofs.Pass.Flags
import SqlGen.Proofs.Printing.NullLiteral

/-!
# Constants that are NULL in the tree and in the text

The tree takes the constant of a value for NULL if the value is.  The text does so for the reals
that are no numbers too.  A simplification by nullability means what the text says as long as both
agree, and that is as long as every real is a number (`Expr.simplifiesAsWritten_iff_number`).
-/

namespace SqlGen

namespace Expr

/-- The simplification of a tree means what the printed text of the tree says, and it is never NULL
if it says so. -/
def SimplifiesAsWritten (d : Dialect) (e : Expr) : Prop :=
  ∃ r, e.revise .nullability = .ok r ∧
    ∀ {Env Val : Type} (v : Evaluation Env Val), v.Honours (e.asWritten d) →
      v.denote ((r.of e).asWritten d) = v.denote (e.asWritten d) ∧
        ((r.of e).isNullable = false → v.NeverNull ((r.of e).asWritten d))

/-! ## Trees whose reals are numbers -/

/-- A call has its flags, and a real is a number. -/
def IsSound (e : Expr) : Prop := e.HasFlags ∧ ∀ v t, e = .constant v t → v.isNaN = false

theorem IsSound.congr {e e' : Expr} (head : e.head = e'.head) (h : e.IsSound) : e'.IsSound := by
  refine ⟨h.1.congr head, ?_⟩
  rintro v t rfl
  cases e with
  | constant v' t' =>
      obtain ⟨rfl, rfl⟩ := Expr.constant.inj head
      exact h.2 _ _ rfl
  | _ => cases head

/-- A node that is no constant is sound if it has its flags. -/
theorem HasFlags.isSound {e : Expr} (flags : e.HasFlags) (other : ∀ v t, e ≠ .constant v t) :
    e.IsSound := ⟨flags, fun v t same => absurd same (other v t)⟩

theorem isSound_unary (op : UnaryOp) (x : Expr) (t : Typing) : IsSound (.unary op x t) := by
  refine HasFlags.isSound trivial fun v t same => ?_
  cases same

theorem isSound_call {f : Function} {args : List Expr} (flags : args.length = f.propagates.length) :
    IsSound (.call f args) := by
  refine HasFlags.isSound flags fun v t same => ?_
  cases same

theorem isSound_niladic {f : Function} (flags : f.propagates = []) : IsSound (.niladic f) := by
  refine HasFlags.isSound flags fun v t same => ?_
  cases same

/-- Every call of the tree has its flags, and every real is a number. -/
def AllSound (root : Expr) : Prop := ∀ e : Expr, e.Within root → e.IsSound

theorem stable_allSound : Stable AllSound := .everywhere IsSound.congr

theorem allSound_constant {v : Value} (number : v.isNaN = false) (t : Typing) :
    AllSound (.constant v t) := by
  refine forall_within ⟨trivial, fun v' t' same => ?_⟩ fun _ mem => nomatch mem
  obtain ⟨rfl, -⟩ := Expr.constant.inj same
  exact number

theorem AllSound.withNullability {e : Expr} (h : e.AllSound) (nullable : Bool) :
    AllSound ((e.withNullability nullable).of e) := by
  refine forall_within ?_ fun c mem => ?_
  · have sound := h e .self
    cases e with
    | call f args =>
        rw [of_withNullability_call]
        exact isSound_call sound.1
    | niladic f =>
        rw [of_withNullability_niladic]
        exact isSound_niladic sound.1
    | _ => exact sound
  · rw [children_withNullability] at mem
    exact stable_allSound.child h mem

theorem keeps_allSound : Pass.nullability.Keeps AllSound :=
  Pass.keeps_nullability (allSound_constant rfl) (fun _ => allSound_constant rfl)
    fun _ h => h.withNullability false

theorem AllSound.asWritten_eq_self {d : Dialect} (plain : d.PlainLiterals) {e : Expr}
    (h : e.AllSound) : e.asWritten d = e :=
  Expr.asWritten_eq_self plain (fun x below => (h x below).1.flagsMatch)
    fun x below => (h x below).2

/-- If the reals of a tree are numbers, its simplification means what its text says. -/
theorem AllSound.simplifiesAsWritten {d : Dialect} (plain : d.PlainLiterals) {e : Expr}
    (h : e.AllSound) : SimplifiesAsWritten d e := by
  have flags : e.FlagsComplete := fun x below => (h x below).1
  obtain ⟨-, r, -, revised, -⟩ := revise_nullability_ok flags.allFlagsMatch
  have after : (r.of e).AllSound := stable_allSound.revise keeps_allSound h revised
  refine ⟨r, revised, fun {Env Val} v honours => ?_⟩
  rw [h.asWritten_eq_self plain] at honours ⊢
  rw [after.asWritten_eq_self plain]
  obtain ⟨r', revised', denotes, neverNull⟩ := v.denote_revise_nullability flags honours
  obtain rfl := Except.ok.inj (revised.symm.trans revised')
  exact ⟨denotes, neverNull⟩

/-! ## Reals that are no numbers -/

section NotNumbers

variable {d : Dialect} {v : Value} {t t' : Typing}

/-- A reader sees a NULL in the place of the operand. -/
theorem asWritten_unary (op : UnaryOp) (literal : d.literal v = "NULL") :
    (Expr.unary op (.constant v t) t').asWritten d = .unary op (.constant .null t) t' := by
  have flags : (Expr.unary op (.constant v t) t').AllFlagsMatch := by
    refine .of_children trivial fun c mem => ?_
    obtain rfl := List.mem_singleton.mp mem
    exact .of_children trivial fun _ mem => nomatch mem
  obtain ⟨v', t'', same, -⟩ | rebuilt := asWritten_cases (d := d) flags
  · cases same
  · have made : Except.ok (Expr.unary op ((Expr.constant v t).asWritten d) t') =
        .ok ((Expr.unary op (.constant v t) t').asWritten d) := rebuilt
    rw [← Except.ok.inj made, asWritten_constant t literal]

theorem asWritten_call {f : Function} (flags : f.propagates.length = 1)
    (literal : d.literal v = "NULL") :
    (Expr.call f [.constant v t]).asWritten d = .call f [.constant .null t] := by
  have allFlags : (Expr.call f [.constant v t]).AllFlagsMatch := by
    refine .of_children flags.symm fun c mem => ?_
    obtain rfl := List.mem_singleton.mp mem
    exact .of_children trivial fun _ mem => nomatch mem
  obtain ⟨v', t'', same, -⟩ | rebuilt := asWritten_cases (d := d) allFlags
  · cases same
  · obtain ⟨-, made⟩ := withSlots_call rebuilt
    rw [made, List.map_singleton, asWritten_constant t literal]

/-- The integers honour a node whose only child is NULL, if it declares nothing. -/
theorem honours_of_nullChild {e : Expr} (child : e.children = [.constant .null t])
    (columns : ∀ name tableAlias t, e ≠ .column name tableAlias t false)
    (calls : ∀ f args, e = .call f args → f.nullable = true) :
    Evaluation.integerEvaluation.Honours e := by
  have nodes {x : Expr} (within : x.Within e) : x = e ∨ x = .constant .null t := by
    rcases within_iff.mp within with rfl | ⟨c, mem, below⟩
    · exact .inl rfl
    · rw [child] at mem
      obtain rfl := List.mem_singleton.mp mem
      rcases within_iff.mp below with rfl | ⟨c, mem, -⟩
      · exact .inr rfl
      · cases mem
  refine Evaluation.honours_integers ?_ ?_
  · intro name tableAlias t within
    rcases nodes within with same | same
    · exact absurd same.symm (columns name tableAlias t)
    · cases same
  · intro f args within
    rcases nodes within with same | same
    · exact calls f args same.symm
    · cases same

theorem honours_test (op : UnaryOp) :
    Evaluation.integerEvaluation.Honours (.unary op (.constant .null t) t') :=
  honours_of_nullChild rfl (fun _ _ _ => nofun) fun _ _ => nofun

variable (plain : d.PlainLiterals) (nan : v.isNaN = true)

include plain nan

/-- A test for NULL of a real that is no number is a truth value to the tree, and the other one to
a reader. -/
theorem not_simplifiesAsWritten_test {op : UnaryOp} (test : op = .isNull ∨ op = .isNotNull) :
    ¬ SimplifiesAsWritten d (.unary op (.constant v t) t') := by
  rintro ⟨r, revised, means⟩
  have literal : d.literal v = "NULL" := (plain.literal_eq_null_iff v).mpr (.inr nan)
  cases v with
  | real bits =>
      have folded : ∃ b, (Expr.unary op (.constant (.real bits) t) t').revise .nullability =
          .ok (.changed (.constant (.boolean b) t') []) ∧
          Evaluation.integerEvaluation.denote (.constant (.boolean b) t') (0, none) ≠
            Evaluation.integerEvaluation.denote (.unary op (.constant .null t) t') (0, none) := by
        rcases test with rfl | rfl
        · exact ⟨false, rfl, nofun⟩
        · exact ⟨true, rfl, nofun⟩
      obtain ⟨b, folded, other⟩ := folded
      obtain rfl := Except.ok.inj (revised.symm.trans folded)
      rw [asWritten_unary op literal] at means
      have denotes := (means _ (honours_test op)).1
      rw [Revision.of_changed, (allSound_constant rfl t').asWritten_eq_self plain] at denotes
      exact other (congrFun denotes (0, none))
  | _ => cases nan

/-- A call of a strict function is never NULL to the tree, and NULL to a reader. -/
theorem not_simplifiesAsWritten_call {f : Function} (nullable : f.nullable = true)
    (strict : f.propagates = [true]) : ¬ SimplifiesAsWritten d (.call f [.constant v t]) := by
  rintro ⟨r, revised, means⟩
  have literal : d.literal v = "NULL" := (plain.literal_eq_null_iff v).mpr (.inr nan)
  obtain ⟨name, schema, declared, propagates, typing⟩ := f
  obtain rfl : declared = true := nullable
  obtain rfl : propagates = [true] := strict
  cases v with
  | real bits =>
      have declared : (Expr.call ⟨name, schema, true, [true], typing⟩
          [.constant (.real bits) t]).revise .nullability =
          .ok (.changed (.call ⟨name, schema, false, [true], typing⟩
            [.constant (.real bits) t]) [true]) := rfl
      obtain rfl := Except.ok.inj (revised.symm.trans declared)
      rw [asWritten_call rfl literal] at means
      have honours : Evaluation.integerEvaluation.Honours
          (.call ⟨name, schema, true, [true], typing⟩ [.constant .null t]) := by
        refine honours_of_nullChild rfl (fun _ _ _ => nofun) fun f args same => ?_
        obtain ⟨rfl, -⟩ := Expr.call.inj same
        rfl
      have neverNull := (means _ honours).2 rfl
      rw [Revision.of_changed, asWritten_call rfl literal] at neverNull
      exact neverNull (0, none) rfl
  | _ => cases nan

end NotNumbers

/-- What the tree and the printed text say of NULL.

The text of a tree is that of the tree that a reader sees in it.  A literal is NULL for NULL, and
for the reals that are no numbers.  If a tree has none of the latter, its simplification means what
its text says.  For a constant by itself, for a test for NULL of it, and for a strict call of it,
this is so exactly if the constant is none of them. -/
theorem simplifiesAsWritten_iff_number {d : Dialect} (plain : d.PlainLiterals) :
    (∀ e : Expr, e.AllFlagsMatch → (e.asWritten d).print d = e.print d) ∧
    (∀ v, d.literal v = "NULL" ↔ v = .null ∨ v.isNaN = true) ∧
    (∀ e : Expr, e.FlagsComplete → e.NoNaN → SimplifiesAsWritten d e) ∧
    ∀ (v : Value) (t t' : Typing) (f : Function), f.nullable = true → f.propagates = [true] →
      (((Expr.constant v t).isNullable = true ↔ d.literal v = "NULL") ↔ v.isNaN = false) ∧
      (((Expr.constant v t).isNullConstant = true ↔ d.literal v = "NULL") ↔ v.isNaN = false) ∧
      (SimplifiesAsWritten d (.unary .isNull (.constant v t) t') ↔ v.isNaN = false) ∧
      (SimplifiesAsWritten d (.unary .isNotNull (.constant v t) t') ↔ v.isNaN = false) ∧
      (SimplifiesAsWritten d (.call f [.constant v t]) ↔ v.isNaN = false) := by
  refine ⟨?_, plain.literal_eq_null_iff, ?_, ?_⟩
  · intro e flags
    rw [print, print, (printsAlike_asWritten plain flags).doc]
  · intro e flags numbers
    exact AllSound.simplifiesAsWritten plain fun x below => ⟨flags x below, numbers x below⟩
  · intro v t t' f nullable strict
    have child (number : v.isNaN = false) : ∀ c ∈ [Expr.constant v t], c.AllSound := by
      intro c mem
      obtain rfl := List.mem_singleton.mp mem
      exact allSound_constant number t
    have literal : (v.isNull = true ↔ d.literal v = "NULL") ↔ v.isNaN = false := by
      rw [Value.isNull_eq_true, plain.literal_eq_null_iff v]
      cases v <;> simp [Value.isNaN]
    have test (op : UnaryOp) (isTest : op = .isNull ∨ op = .isNotNull) :
        SimplifiesAsWritten d (.unary op (.constant v t) t') ↔ v.isNaN = false := by
      constructor
      · intro means
        exact Bool.eq_false_iff.mpr fun nan => not_simplifiesAsWritten_test plain nan isTest means
      · intro number
        have sound : AllSound (.unary op (.constant v t) t') :=
          forall_within (isSound_unary op _ t') (child number)
        exact sound.simplifiesAsWritten plain
    have call : SimplifiesAsWritten d (.call f [.constant v t]) ↔ v.isNaN = false := by
      constructor
      · intro means
        exact Bool.eq_false_iff.mpr fun nan =>
          not_simplifiesAsWritten_call plain nan nullable strict means
      · intro number
        have sound : AllSound (.call f [.constant v t]) :=
          forall_within (isSound_call (by simp [strict])) (child number)
        exact sound.simplifiesAsWritten plain
    exact ⟨literal, literal, test .isNull (.inl rfl), test .isNotNull (.inr rfl), call⟩

/-! ## Two tests -/

open Evaluation in
theorem noNaN_absIsNotNull : absIsNotNull.NoNaN := by
  intro x within v t constant
  rcases within_absIsNotNull within with same | same | same <;>
    cases same.symm.trans constant

/-- The test of an absolute value holds no real. -/
theorem simplifiesAsWritten_absIsNotNull :
    Dialect.ansi.PlainLiterals ∧ Evaluation.absIsNotNull.FlagsComplete ∧
      Evaluation.absIsNotNull.NoNaN ∧ SimplifiesAsWritten .ansi Evaluation.absIsNotNull :=
  ⟨Dialect.plainLiterals_ansi, Evaluation.flagsComplete_absIsNotNull, noNaN_absIsNotNull,
    (simplifiesAsWritten_iff_number Dialect.plainLiterals_ansi).2.2.1 _
      Evaluation.flagsComplete_absIsNotNull noNaN_absIsNotNull⟩

/-- The test for NULL of a real that is no number. -/
def nanIsNull : Expr :=
  .unary .isNull (.constant (.real 0x7ff8000000000000) ⟨.double, none⟩) ⟨.boolean, none⟩

/-- The test is printed as one of NULL, and it is simplified to FALSE. -/
theorem not_simplifiesAsWritten_nanIsNull :
    (nanIsNull.print .ansi).sql = "NULL IS NULL" ∧
      nanIsNull.revise .nullability =
        .ok (.changed (.constant (.boolean false) ⟨.boolean, none⟩) []) ∧
      ((Expr.constant (.boolean false) ⟨.boolean, none⟩).print .ansi).sql = "FALSE" ∧
      ¬ SimplifiesAsWritten .ansi nanIsNull :=
  ⟨by decide +kernel, rfl, by decide +kernel,
    not_simplifiesAsWritten_test Dialect.plainLiterals_ansi (by decide +kernel) (.inl rfl)⟩

end Expr

end SqlGen
