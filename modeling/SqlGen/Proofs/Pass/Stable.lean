import SqlGen.Pass.Nullability
import SqlGen.Proofs.Pass.Rebuild

/-!
# Properties of trees that passes keep

A property of trees is *stable* if the children of a tree with the property have it too, and if a
tree with the property may be given other children with it in the same places.  A visit of the
children keeps a stable property if the visitor does (`Stable.visitChildren`), and a pass over the
whole tree keeps it if the work of the pass on one node does (`Stable.revise`).

What every node of a tree says of itself, whatever its children are, is stable
(`Stable.everywhere`).
-/

namespace SqlGen

/-- What holds of a node and below its children holds in the whole tree. -/
theorem Expr.forall_within {Q : Expr → Prop} {e : Expr} (node : Q e)
    (children : ∀ c ∈ e.children, ∀ x : Expr, x.Within c → Q x) (x : Expr) (within : x.Within e) :
    Q x := by
  rcases within_iff.mp within with rfl | ⟨c, mem, below⟩
  · exact node
  · exact children c mem x below

/-- A property of trees that survives other children in the same places. -/
structure Stable (P : Expr → Prop) : Prop where
  child {e c : Expr} : P e → c ∈ e.children → P c
  rebuild {e e' : Expr} {x : Slots Expr e.shape} : P e → e.withSlots x = .ok e' →
    x.places = e.slots.places → (∀ c ∈ x.toList, P c) → P e'

/-- What a pass does to one node keeps a property of trees. -/
structure Pass.Keeps (P : Expr → Prop) (p : Pass) : Prop where
  replace {e result : Expr} : P e → p.replace e = some result → P result
  finish {e : Expr} : P e → P ((p.finish e).of e)

namespace Stable

variable {P : Expr → Prop}

/-- An update with parts in the same places keeps the property. -/
theorem update (stable : Stable P) {e : Expr} (has : P e) {parts : Slots Part e.shape}
    (places : parts.places = e.slots.places) (expr : ∀ p ∈ parts.toList, P p.expr) {r : Revision}
    (updated : e.update parts = .ok r) : P (r.of e) := by
  obtain ⟨-, rfl⟩ | ⟨e', rebuilt, rfl⟩ := Expr.update_cases updated
  · exact has
  · refine stable.rebuild has rebuilt ((Slots.places_map _ _).trans places) fun c mem => ?_
    rw [Slots.toList_map] at mem
    obtain ⟨p, offered, rfl⟩ := List.mem_map.mp mem
    exact expr p offered

theorem ofVisit {c : Expr} {r : Revision} (has : P (r.of c)) (i : Nat) :
    P (Part.ofVisit c i r).expr := by
  cases r <;> exact has

/-- What a visit of the children offers to a node stands in their places, and it has a property that
each child's offer has. -/
theorem offered {m : Type → Type} [Monad m] (returns : MayReturn m) {offer : Expr × Nat → m Part}
    {e : Expr} (offers : ∀ c ∈ e.children, ∀ i p, returns.rel (offer (c, i)) p → P p.expr)
    {parts : Slots Part e.shape} (visited : returns.rel (e.slots.number.visit offer) parts) :
    parts.places = e.slots.places ∧ ∀ p ∈ parts.toList, P p.expr := by
  obtain ⟨places, answers⟩ := Slots.forall₂_visit returns visited
  refine ⟨places.trans (Slots.places_number e.slots), fun p mem => ?_⟩
  obtain ⟨i, hi, rfl⟩ := List.mem_iff_getElem.mp mem
  have hi' : i < e.slots.number.toList.length := answers.length_eq ▸ hi
  have child : e.slots.number.toList[i].1 ∈ e.children :=
    Slots.mem_of_mem_number (List.getElem_mem hi')
  exact offers _ child _ _ (answers.get hi' hi)

/-- A visit of the children keeps the property if the visitor does. -/
theorem visitChildren (stable : Stable P) {σ : Type}
    {visitor : Expr → StateT σ (Except Violation) Revision}
    (keeps : ∀ c s r s', P c → visitor c s = .ok (r, s') → P (r.of c)) {e : Expr} (has : P e)
    {s s' : σ} {r : Revision} (visited : e.visitChildren visitor s = .ok (r, s')) : P (r.of e) := by
  let returns := MayReturn.state σ
  have may : returns.rel (e.visitChildren visitor) r := ⟨s, s', visited⟩
  obtain ⟨parts, offer, rest⟩ := returns.of_bind may
  have offers (c : Expr) (mem : c ∈ e.children) (i : Nat) (p : Part)
      (answered : returns.rel (do return Part.ofVisit c i (← visitor c)) p) : P p.expr := by
    obtain ⟨answer, ⟨s, s', visited⟩, done⟩ := returns.of_bind answered
    obtain rfl := returns.of_pure done
    exact ofVisit (keeps c s answer s' (stable.child has mem) visited) i
  obtain ⟨places, expr⟩ := offered returns offers offer
  cases updated : e.update parts with
  | error v =>
      rw [updated] at rest
      obtain ⟨s, s', failed⟩ := rest
      cases failed
  | ok r' =>
      rw [updated] at rest
      obtain rfl := returns.of_pure rest
      exact stable.update has places expr updated

/-- A pass over a whole tree keeps the property if what it does to one node keeps it. -/
theorem revise (stable : Stable P) {p : Pass} (keeps : p.Keeps P) {e : Expr} (has : P e)
    {r : Revision} (revised : e.revise p = .ok r) : P (r.of e) := by
  induction e using Expr.induction_children generalizing r with
  | node e ih =>
      rw [Expr.revise_eq, Expr.step] at revised
      split at revised
      next result replaced =>
        obtain rfl := Except.ok.inj revised
        exact keeps.replace has replaced
      next =>
        obtain ⟨parts, offer, rest⟩ := MayReturn.except.of_bind revised
        obtain ⟨first, updated, done⟩ := MayReturn.except.of_bind rest
        obtain rfl := MayReturn.except.of_pure done
        have offers (c : Expr) (mem : c ∈ e.children) (i : Nat) (part : Part)
            (answered : Expr.offer p (c, i) = .ok part) : P part.expr := by
          obtain ⟨answer, visited, done⟩ := MayReturn.except.of_bind answered
          obtain rfl := MayReturn.except.of_pure done
          exact ofVisit (ih c mem (stable.child has mem) visited) i
        obtain ⟨places, expr⟩ := offered MayReturn.except offers offer
        rw [Revision.of_andThen]
        exact keeps.finish (stable.update has places expr updated)

/-- What every node of a tree says of itself, apart from its children, is stable. -/
theorem everywhere {Q : Expr → Prop} (congr : ∀ {e e' : Expr}, e.head = e'.head → Q e → Q e') :
    Stable fun e => ∀ x : Expr, x.Within e → Q x where
  child has mem x below := has x (.child mem below)
  rebuild {e e' x} has rebuilt places children := by
    refine Expr.forall_within ?_ fun c mem => ?_
    · exact congr (Expr.head_of_withSlots rebuilt places).symm (has e .self)
    · rw [Expr.children_of_withSlots rebuilt] at mem
      exact children c mem

end Stable

/-- The simplification by nullability puts constants in the place of nodes, and declares calls
never to be NULL. -/
theorem Pass.keeps_nullability {P : Expr → Prop} (null : ∀ t, P (.constant .null t))
    (truth : ∀ b t, P (.constant (.boolean b) t))
    (declared : ∀ e, P e → P ((e.withNullability false).of e)) : Pass.nullability.Keeps P where
  replace _ replaced := nomatch replaced
  finish {e} has := by
    have call (f : Function) (args : List Expr) :
        P ((Nullability.simplifyCall e f args).of e) := by
      unfold Nullability.simplifyCall
      split
      next => exact null f.typing
      next =>
        split
        next => exact declared e has
        next => exact has
    have test (operand : Expr) (t : Typing) (b : Bool) :
        P ((Nullability.simplifyTest operand t b).of e) := by
      unfold Nullability.simplifyTest
      split
      next => exact has
      next => exact truth b t
    cases e with
    | call f args => exact call f args
    | niladic f => exact call f []
    | unary op operand t =>
        cases op with
        | isNull => exact test operand t false
        | isNotNull => exact test operand t true
        | _ => exact has
    | _ => exact has

end SqlGen
