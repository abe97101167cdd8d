import Mathlib.Data.List.Forall2
import SqlGen.Proofs.Equality.Copy
import SqlGen.Proofs.Pass.Outcome

/-!
# Visits in order

A visit of the slots of a node hands out their contents one after the other and puts each answer
where its child was.  Two equations say so for every monad.  As a list, the answers are those of a
visit of the list of children (`Slots.toList_visit`), and what a visit returns stands in the same
places, each answer being one that its child can have (`Slots.forall₂_visit`).

With a state and errors, `Visits` is the run of a visitor through a list, and `visit_of_visits` runs
it through the slots.
-/

namespace SqlGen

/-! ## Places -/

namespace Slots

variable {α β : Type} {s : Shape}

/-- The slots without what they hold. -/
def places (x : Slots α s) : Slots Unit s := x.map fun _ => ()

theorem places_map (f : α → β) (x : Slots α s) : (x.map f).places = x.places := map_map f _ x

theorem places_number (x : Slots α s) : x.number.places = x.places := by
  rw [← places_map Prod.fst, map_fst_number]

/-- Slots are determined by their places and the list of what they hold. -/
theorem eq_of_places_eq {x y : Slots α s} (places : x.places = y.places)
    (same : x.toList = y.toList) : x = y := by
  cases x with
  | leaf =>
      cases y
      rfl
  | one x =>
      cases y
      simpa [toList] using same
  | two l r =>
      cases y
      simpa [toList] using same
  | join t p =>
      cases y with
      | join t' p' => cases p <;> cases p' <;> simp_all [toList, Slots.places, map]
  | arguments list =>
      cases y with
      | arguments list' => cases list <;> cases list' <;> simp_all [toList, Slots.places, map]
  | select c =>
      cases y with
      | select c' => exact congrArg select (Clauses.eq_of_map_eq (Slots.select.inj places) same)

end Slots

/-! ## Every monad -/

section Monads

variable {m : Type → Type} [Monad m] {α β : Type} (f : α → m β)

section Order

variable [LawfulMonad m]

theorem visitList_append (xs ys : List α) :
    visitList f (xs ++ ys) = do
      let first ← visitList f xs
      let second ← visitList f ys
      return first ++ second := by
  induction xs with
  | nil => simp [visitList]
  | cons x rest ih => simp [visitList, ih]

theorem toList_visitOption (o : Option α) :
    Option.toList <$> visitOption f o = visitList f o.toList := by
  cases o <;> simp [visitOption, visitList]

theorem Clauses.toList_visit (c : Clauses α) :
    Clauses.toList <$> c.visit f = visitList f c.toList := by
  simp [Clauses.visit, Clauses.toList, visitList_append, ← toList_visitOption]

/-- The answers of a visit are those of a visit of the list of children. -/
theorem Slots.toList_visit {s : Shape} (x : Slots α s) :
    Slots.toList <$> x.visit f = visitList f x.toList := by
  cases x with
  | leaf => simp [Slots.visit, Slots.toList, visitList]
  | one x => simp [Slots.visit, Slots.toList, visitList]
  | two l r => simp [Slots.visit, Slots.toList, visitList]
  | join t p => simp [Slots.visit, Slots.toList, visitList, ← toList_visitOption]
  | arguments list => cases list <;> simp [Slots.visit, Slots.toList, visitList]
  | select c => simp [Slots.visit, Slots.toList, ← c.toList_visit]

end Order

end Monads

/-! ## What a visit returns -/

/-- What a computation of a monad may return.  What a sequence returns comes from what its first
part may return. -/
structure MayReturn (m : Type → Type) [Monad m] where
  rel {β : Type} : m β → β → Prop
  of_pure {β : Type} {a b : β} : rel (pure a) b → b = a
  of_bind {β γ : Type} {x : m β} {k : β → m γ} {c : γ} :
    rel (x >>= k) c → ∃ b, rel x b ∧ rel (k b) c

/-- A result is what it returns, unless it is an error. -/
def MayReturn.except : MayReturn (Except Violation) where
  rel x b := x = .ok b
  of_pure h := (Except.ok.inj h).symm
  of_bind {_ _ x _ _} h := by
    cases x with
    | error v => cases h
    | ok b => exact ⟨b, rfl, h⟩

/-- A computation with a state may return what it returns from some state. -/
def MayReturn.state (σ : Type) : MayReturn (StateT σ (Except Violation)) where
  rel x b := ∃ s s', x s = .ok (b, s')
  of_pure := by
    rintro _ a b ⟨s, s', h⟩
    exact (congrArg Prod.fst (Except.ok.inj h)).symm
  of_bind := by
    rintro _ _ x k c ⟨s, s', h⟩
    cases first : x s with
    | error v =>
        simp only [bind, StateT.bind, first, Except.bind] at h
        cases h
    | ok p =>
        simp only [bind, StateT.bind, first, Except.bind] at h
        exact ⟨p.1, ⟨s, p.2, first⟩, p.2, s', h⟩

section Returns

variable {m : Type → Type} [Monad m] (returns : MayReturn m) {α β : Type} {f : α → m β}

theorem forall₂_visitOption {o : Option α} {o' : Option β}
    (h : returns.rel (visitOption f o) o') :
    o'.map (fun _ => ()) = o.map (fun _ => ()) ∧
      List.Forall₂ (fun a b => returns.rel (f a) b) o.toList o'.toList := by
  cases o with
  | none =>
      obtain rfl := returns.of_pure h
      exact ⟨rfl, .nil⟩
  | some a =>
      obtain ⟨b, answer, done⟩ := returns.of_bind h
      obtain rfl := returns.of_pure done
      exact ⟨rfl, .cons answer .nil⟩

theorem forall₂_visitList {xs : List α} {ys : List β} (h : returns.rel (visitList f xs) ys) :
    List.Forall₂ (fun a b => returns.rel (f a) b) xs ys := by
  induction xs generalizing ys with
  | nil =>
      obtain rfl := returns.of_pure h
      exact .nil
  | cons a rest ih =>
      obtain ⟨b, answer, h⟩ := returns.of_bind h
      obtain ⟨bs, answers, h⟩ := returns.of_bind h
      obtain rfl := returns.of_pure h
      exact .cons answer (ih answers)

/-- What a visit returns stands in the places of the children, and each answer is one that its child
can have. -/
theorem Slots.forall₂_visit {s : Shape} {x : Slots α s} {y : Slots β s}
    (h : returns.rel (x.visit f) y) :
    y.places = x.places ∧ List.Forall₂ (fun a b => returns.rel (f a) b) x.toList y.toList := by
  have lists {xs : List α} {ys : List β}
      (answers : List.Forall₂ (fun a b => returns.rel (f a) b) xs ys) :
      ys.map (fun _ => ()) = xs.map fun _ => () := by
    rw [List.map_const', List.map_const', answers.length_eq]
  cases x with
  | leaf =>
      obtain rfl := returns.of_pure h
      exact ⟨rfl, .nil⟩
  | one x =>
      obtain ⟨a, first, h⟩ := returns.of_bind h
      obtain rfl := returns.of_pure h
      exact ⟨rfl, .cons first .nil⟩
  | two l r =>
      obtain ⟨a, first, h⟩ := returns.of_bind h
      obtain ⟨b, second, h⟩ := returns.of_bind h
      obtain rfl := returns.of_pure h
      exact ⟨rfl, .cons first (.cons second .nil)⟩
  | join t p =>
      obtain ⟨a, first, h⟩ := returns.of_bind h
      obtain ⟨o, second, h⟩ := returns.of_bind h
      obtain rfl := returns.of_pure h
      obtain ⟨places, answers⟩ := forall₂_visitOption returns second
      exact ⟨congrArg (join ()) places, .cons first answers⟩
  | arguments list =>
      cases list with
      | none =>
          obtain rfl := returns.of_pure h
          exact ⟨rfl, .nil⟩
      | some xs =>
          obtain ⟨ys, visited, h⟩ := returns.of_bind h
          obtain rfl := returns.of_pure h
          have answers := forall₂_visitList returns visited
          exact ⟨congrArg (fun units => arguments (some units)) (lists answers), answers⟩
  | select c =>
      obtain ⟨c', visited, h⟩ := returns.of_bind h
      obtain rfl := returns.of_pure h
      obtain ⟨i, items, h⟩ := returns.of_bind visited
      obtain ⟨t, tables, h⟩ := returns.of_bind h
      obtain ⟨w, predicate, h⟩ := returns.of_bind h
      obtain ⟨o, orderings, h⟩ := returns.of_bind h
      obtain ⟨l, limit, h⟩ := returns.of_bind h
      obtain ⟨k, offset, h⟩ := returns.of_bind h
      obtain rfl := returns.of_pure h
      replace items := forall₂_visitList returns items
      replace tables := forall₂_visitList returns tables
      replace orderings := forall₂_visitList returns orderings
      obtain ⟨predicatePlace, predicate⟩ := forall₂_visitOption returns predicate
      obtain ⟨limitPlace, limit⟩ := forall₂_visitOption returns limit
      obtain ⟨offsetPlace, offset⟩ := forall₂_visitOption returns offset
      refine ⟨?places, ?answers⟩
      case places =>
        simp only [places, map, Clauses.map, lists items, lists tables, lists orderings,
          predicatePlace, limitPlace, offsetPlace]
      case answers =>
        exact List.rel_append (List.rel_append (List.rel_append (List.rel_append
          (List.rel_append items tables) predicate) orderings) limit) offset

end Returns

/-! ## Visitors with a state -/

/-- A visitor goes through a list, from the first element to the last one.  Each element is visited
once, in the state that the visit before it has left. -/
inductive Visits {σ α β : Type} (f : α → StateT σ (Except Violation) β) :
    List α → σ → List β → σ → Prop where
  | nil (s : σ) : Visits f [] s [] s
  | cons {x : α} {xs : List α} {y : β} {ys : List β} {s s₁ s₂ : σ} (first : f x s = .ok (y, s₁))
      (rest : Visits f xs s₁ ys s₂) : Visits f (x :: xs) s (y :: ys) s₂

section Visitors

variable {σ α β : Type} {f : α → StateT σ (Except Violation) β} {s s' : σ}

theorem Visits.length_eq {xs : List α} {ys : List β} (h : Visits f xs s ys s') :
    ys.length = xs.length := by
  induction h with
  | nil => rfl
  | cons _ _ ih => rw [List.length_cons, List.length_cons, ih]

/-- A visitor without errors goes through every list. -/
theorem exists_visits (total : ∀ x s, ∃ y s', f x s = .ok (y, s')) (xs : List α) (s : σ) :
    ∃ ys s', Visits f xs s ys s' := by
  induction xs generalizing s with
  | nil => exact ⟨[], s, .nil s⟩
  | cons x rest ih =>
      obtain ⟨y, s₁, first⟩ := total x s
      obtain ⟨ys, s₂, visits⟩ := ih s₁
      exact ⟨y :: ys, s₂, .cons first visits⟩

/-- A computation goes on with what its first part returns, in the state that this leaves. -/
theorem bind_of_ok {x : StateT σ (Except Violation) α} {a : α} (h : x s = .ok (a, s'))
    (k : α → StateT σ (Except Violation) β) : (x >>= k) s = k a s' := by
  have run : (x >>= k) s = (x s).bind fun p => k p.1 p.2 := rfl
  rw [run, h]
  rfl

theorem visitList_of_visits {xs : List α} {ys : List β} (h : Visits f xs s ys s') :
    visitList f xs s = .ok (ys, s') := by
  induction h with
  | nil => rfl
  | cons first _ ih => exact (bind_of_ok first _).trans (bind_of_ok ih _)

/-- Through the slots a visitor goes as through the list of children. -/
theorem visit_of_visits {sh : Shape} {x : Slots α sh} {ys : List β}
    (h : Visits f x.toList s ys s') :
    ∃ y, x.visit f s = .ok (y, s') ∧ y.toList = ys ∧ y.places = x.places := by
  have list : (Slots.toList <$> x.visit f) s = .ok (ys, s') := by
    rw [x.toList_visit, visitList_of_visits h]
  cases visited : x.visit f s with
  | error v =>
      simp only [Functor.map, StateT.map, visited, bind, Except.bind] at list
      cases list
  | ok p =>
      simp only [Functor.map, StateT.map, visited, bind, Except.bind] at list
      obtain ⟨rfl, rfl⟩ := Prod.mk.inj (Except.ok.inj list)
      obtain ⟨places, -⟩ := Slots.forall₂_visit (MayReturn.state σ) ⟨s, p.2, visited⟩
      exact ⟨p.1, rfl, rfl, places⟩

end Visitors

end SqlGen
