import Mathlib.Logic.Encodable.Basic
import Mathlib.Logic.Equiv.List
import SqlGen.Expr.Print
import SqlGen.Proofs.Equality.Memory
import SqlGen.Proofs.Pass.Success

/-!
# Equal trees in memory

The test of two trees in memory is an equivalence that does not depend on where their nodes stand:
it holds exactly of trees that are copies of each other, and every tree can stand in memory a second
time without sharing a node (`Handle.exists_copy`).  No reader of a tree can tell equal trees apart
(`Expr.Alike`), and the passes over a query make equal trees of equal trees, wherever the nodes that
they make stand.  `Handle.same_congruence` puts these together.
-/

namespace SqlGen

/-! ## A second copy -/

namespace Handle

/-- Memory that holds a tree twice.  The nodes of the first one stand at the even addresses, those
of the second one behind them. -/
def twice (e : Expr) : Memory := fun n =>
  ((Encodable.decode (n / 2)).bind fun path => Expr.at? path e).getD Expr.blank

/-- The first or the second one of two trees. -/
def ofTwo (e : Expr) (second : Fin 2) : Handle (twice e) where
  expr := e
  address path := 2 * Encodable.encode path + second
  loads path x found := by
    have half : (2 * Encodable.encode path + (second : Nat)) / 2 = Encodable.encode path := by omega
    simp only [twice, half, Encodable.encodek, Option.bind_some, found, Option.getD_some]

/-- Every tree can stand in memory twice without sharing a node. -/
theorem exists_copy (e : Expr) :
    ∃ (m : Memory) (a b : Handle m),
      a.expr = e ∧ b.expr = e ∧ ∀ p q, a.address p ≠ b.address q := by
  refine ⟨twice e, ofTwo e 0, ofTwo e 1, rfl, rfl, fun p q => ?_⟩
  simp only [ofTwo, Fin.val_zero, Fin.val_one]
  omega

/-! ## An equivalence -/

variable {m : Memory}

/-- The test does not depend on where the nodes stand. -/
theorem same_iff_isCopy {a b : Handle m} : a.same b = true ↔ a.expr.IsCopy b.expr := by
  rw [same_iff, Expr.isCopy_iff]

theorem equivalence_same (m : Memory) : Equivalence fun a b : Handle m => a.same b = true where
  refl _ := same_iff.mpr rfl
  symm h := same_iff.mpr (same_iff.mp h).symm
  trans h h' := same_iff.mpr ((same_iff.mp h).trans (same_iff.mp h'))

/-- Reals are compared by their bits, so a NaN equals itself and the two zeros differ. -/
theorem same_real {a b : Handle m} {x y : UInt64} {t u : Typing}
    (left : a.expr = .constant (.real x) t) (right : b.expr = .constant (.real y) u) :
    a.same b = true ↔ x = y ∧ t = u := by
  rw [same_iff, left, right, Expr.constant.injEq, Value.real.injEq]

end Handle

/-! ## Readers and passes -/

/-- Two trees are alike for everything that reads them. -/
structure Expr.Alike (x y : Expr) : Prop where
  equal : x.equal y = true
  hash : x.hash = y.hash
  hostType : x.hostType? = y.hostType?
  mapping : x.mapping? = y.mapping?
  nullable : x.isNullable = y.isNullable
  precedence : x.precedence = y.precedence
  print (d : Dialect) : x.print d = y.print d
  statement (d : Dialect) : x.printStatement d = y.printStatement d

theorem Handle.alike_of_same {m : Memory} {a b : Handle m} (h : a.same b = true) :
    a.expr.Alike b.expr := by
  have equal : a.expr.equal b.expr = true := (same_eq_equal a b).symm.trans h
  have copy := Expr.equal_iff.mp equal
  refine ⟨equal, ?_, ?_, ?_, ?_, ?_, ?_, ?_⟩ <;> simp only [copy, implies_true]

/-- A pass over a query before it is printed. -/
inductive Pass.OverQueries : Pass → Prop where
  | nullability : OverQueries .nullability
  | inline (b : Builder) (values : Bindings) : OverQueries (.inline b values)

theorem Pass.OverQueries.keepsSelects {p : Pass} (h : p.OverQueries) : p.KeepsSelects := by
  cases h with
  | nullability => exact keepsSelects_nullability
  | inline b values => exact keepsSelects_inline b values

/-- A pass makes the same of two equal trees and shares the same nodes with each.  What it makes of
them is equal, wherever it stands in a later memory. -/
theorem Handle.same_after_pass {m : Memory} {a b : Handle m} (h : a.same b = true) {p : Pass}
    (pass : p.OverQueries) (flags : a.expr.AllFlagsMatch) :
    ∃ r, a.expr.revise p = .ok r ∧ b.expr.revise p = .ok r ∧
      ∀ (later : Memory) (a' b' : Handle later),
        a'.expr = r.of a.expr → b'.expr = r.of b.expr → a'.same b' = true := by
  have copy := same_iff.mp h
  obtain ⟨r, revised, -⟩ := Expr.revise_ok pass.keepsSelects flags
  refine ⟨r, revised, copy ▸ revised, fun later a' b' made made' => ?_⟩
  rw [same_iff, made, made', copy]

/-- The test of two trees in memory answers as the test of the trees alone.  It holds exactly of
copies, is an equivalence and compares reals by their bits.  Equal trees are alike for their readers,
and the passes over queries make equal trees of them. -/
theorem Handle.same_congruence (m : Memory) :
    (∀ a b : Handle m, a.same b = a.expr.equal b.expr) ∧
      (∀ a b : Handle m, a.same b = true ↔ a.expr.IsCopy b.expr) ∧
      (Equivalence fun a b : Handle m => a.same b = true) ∧
      (∀ (a b : Handle m) (x y : UInt64) (t u : Typing), a.expr = .constant (.real x) t →
        b.expr = .constant (.real y) u → (a.same b = true ↔ x = y ∧ t = u)) ∧
      (∀ a b : Handle m, a.same b = true → a.expr.Alike b.expr) ∧
      ∀ a b : Handle m, a.same b = true → ∀ p : Pass, p.OverQueries → a.expr.AllFlagsMatch →
        ∃ r, a.expr.revise p = .ok r ∧ b.expr.revise p = .ok r ∧
          ∀ (later : Memory) (a' b' : Handle later),
            a'.expr = r.of a.expr → b'.expr = r.of b.expr → a'.same b' = true := by
  refine ⟨same_eq_equal, fun a b => same_iff_isCopy, equivalence_same m, ?reals,
    fun a b => alike_of_same, ?passes⟩
  case reals =>
    intro a b x y t u left right
    exact same_real left right
  case passes =>
    intro a b h p pass flags
    exact same_after_pass h pass flags

/-- A NaN. -/
def notANumber : Expr := .constant (.real 0x7FF8000000000000) ⟨.double, none⟩

/-- The predicate `"b"."Rating" = @rating`. -/
def ratingIs : Expr :=
  .binary .equal (.column "Rating" "b" ⟨.double, none⟩ false)
    (.parameter "rating" ⟨.double, none⟩ false) ⟨.boolean, none⟩

theorem allFlagsMatch_ratingIs : ratingIs.AllFlagsMatch := by
  refine .of_children trivial ?_
  intro c mem
  rcases List.mem_pair.mp mem with rfl | rfl <;> exact .of_children trivial nofun

/-- Two copies of a NaN are equal.  Two copies of a predicate print alike, and so do the predicates
with a value in the place of the parameter. -/
theorem Handle.same_congruence_ratingIs :
    (∃ (m : Memory) (a b : Handle m), (∀ p q, a.address p ≠ b.address q) ∧
        a.expr = notANumber ∧ b.expr = notANumber ∧ a.same b = true) ∧
      ∃ (m : Memory) (a b : Handle m), (∀ p q, a.address p ≠ b.address q) ∧
        a.expr = ratingIs ∧ a.expr.IsCopy b.expr ∧ a.same b = true ∧ a.expr.Alike b.expr ∧
        a.expr.AllFlagsMatch ∧
        ∃ r, a.expr.revise (.inline ⟨fun _ => none⟩ [("rating", .integer 5)]) = .ok r ∧
          b.expr.revise (.inline ⟨fun _ => none⟩ [("rating", .integer 5)]) = .ok r := by
  constructor
  · obtain ⟨m, a, b, left, right, apart⟩ := exists_copy notANumber
    obtain ⟨-, -, -, reals, -⟩ := same_congruence m
    exact ⟨m, a, b, apart, left, right, (reals a b _ _ _ _ left right).mpr ⟨rfl, rfl⟩⟩
  · obtain ⟨m, a, b, left, right, apart⟩ := exists_copy ratingIs
    obtain ⟨-, copies, -, -, readers, passes⟩ := same_congruence m
    have copy : a.expr.IsCopy b.expr := by rw [left, right, Expr.isCopy_iff]
    have equal := (copies a b).mpr copy
    have flags : a.expr.AllFlagsMatch := left ▸ allFlagsMatch_ratingIs
    obtain ⟨r, revised, revised', -⟩ := passes a b equal _ (.inline _ _) flags
    exact ⟨m, a, b, apart, left, copy, equal, readers a b equal, flags, r, revised, revised'⟩

end SqlGen
