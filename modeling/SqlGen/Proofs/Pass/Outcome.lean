import SqlGen.Pass.Basic
import SqlGen.Proofs.Pass.Children

/-!
# The tree after a pass

Apart from what is shared, a pass that does not replace a node puts the children after the pass in
the place of its children and finishes the result.  `revise_of_withSlots` says so: a node that is
kept is the one that its own children would give.
-/

namespace SqlGen

/-! ## Slots -/

namespace Slots

variable {α β γ : Type} {s : Shape}

theorem map_map (f : α → β) (g : β → γ) (x : Slots α s) :
    (x.map f).map g = x.map fun a => g (f a) := by
  cases x with
  | join t p => cases p <;> rfl
  | arguments list => cases list <;> simp [map]
  | select c => cases c; simp [map, Clauses.map, Function.comp_def]
  | _ => rfl

theorem map_congr {f g : α → β} {x : Slots α s} (h : ∀ a ∈ x.toList, f a = g a) :
    x.map f = x.map g := by
  cases x with
  | leaf => rfl
  | one x => simp [map, h x (by simp [toList])]
  | two l r => simp [map, h l (by simp [toList]), h r (by simp [toList])]
  | join t p =>
      cases p with
      | none => simp [map, h t (by simp [toList])]
      | some p => simp [map, h t (by simp [toList]), h p (by simp [toList])]
  | arguments list =>
      cases list with
      | none => rfl
      | some xs =>
          have same : xs.map f = xs.map g := List.map_congr_left h
          simp [map, same]
  | select c =>
      have inList {xs : List α} (sub : ∀ a ∈ xs, a ∈ c.toList) : xs.map f = xs.map g :=
        List.map_congr_left fun a ha => h a (sub a ha)
      have inOption {o : Option α} (sub : ∀ a, o = some a → a ∈ c.toList) : o.map f = o.map g := by
        cases o with
        | none => rfl
        | some a => exact congrArg some (h a (sub a rfl))
      simp only [map, Clauses.map]
      rw [inList fun a ha => Clauses.mem_toList.mpr (by tauto),
        inList fun a ha => Clauses.mem_toList.mpr (by tauto),
        inOption fun a ha => Clauses.mem_toList.mpr (by tauto),
        inList fun a ha => Clauses.mem_toList.mpr (by tauto),
        inOption fun a ha => Clauses.mem_toList.mpr (by tauto),
        inOption fun a ha => Clauses.mem_toList.mpr (by tauto)]

theorem map_id (x : Slots α s) : (x.map fun a => a) = x := by
  cases x with
  | join t p => cases p <;> rfl
  | arguments list => cases list <;> simp [map]
  | select c => cases c; simp [map, Clauses.map]
  | _ => rfl

/-- Without their positions, numbered children are the children. -/
theorem map_fst_number (x : Slots α s) : (x.number.map fun a => a.1) = x := by
  cases x with
  | join t p => cases p <;> rfl
  | arguments list => cases list <;> simp [map, number]
  | select c =>
      obtain ⟨i, t, w, o, l, f⟩ := c
      cases w <;> cases l <;> cases f <;> simp [map, number, Clauses.map, Clauses.number]
  | _ => rfl

theorem mem_of_mem_number {x : Slots α s} {a : α × Nat} (h : a ∈ x.number.toList) :
    a.1 ∈ x.toList := by
  rw [toList_number] at h
  exact List.fst_mem_of_mem_zipIdx h

end Slots

/-! ## Visits that give something for every child -/

section Visits

variable {α β : Type} {f : α → Except Violation β} {g : α → β}

theorem visitOption_ok {o : Option α} (h : ∀ a, o = some a → f a = .ok (g a)) :
    visitOption f o = .ok (o.map g) := by
  cases o with
  | none => rfl
  | some a =>
      rw [visitOption, h a rfl]
      rfl

theorem visitList_ok {xs : List α} (h : ∀ a ∈ xs, f a = .ok (g a)) :
    visitList f xs = .ok (xs.map g) := by
  induction xs with
  | nil => rfl
  | cons a rest ih =>
      rw [visitList, h a List.mem_cons_self, ih fun b hb => h b (List.mem_cons_of_mem a hb)]
      rfl

theorem Clauses.visit_ok {c : Clauses α} (h : ∀ a ∈ c.toList, f a = .ok (g a)) :
    c.visit f = .ok (c.map g) := by
  have inList {xs : List α} (sub : ∀ a ∈ xs, a ∈ c.toList) : visitList f xs = .ok (xs.map g) :=
    visitList_ok fun a ha => h a (sub a ha)
  have inOption {o : Option α} (sub : ∀ a, o = some a → a ∈ c.toList) :
      visitOption f o = .ok (o.map g) := visitOption_ok fun a ha => h a (sub a ha)
  rw [Clauses.visit, inList fun a ha => Clauses.mem_toList.mpr (by tauto),
    inList fun a ha => Clauses.mem_toList.mpr (by tauto),
    inOption fun a ha => Clauses.mem_toList.mpr (by tauto),
    inList fun a ha => Clauses.mem_toList.mpr (by tauto),
    inOption fun a ha => Clauses.mem_toList.mpr (by tauto),
    inOption fun a ha => Clauses.mem_toList.mpr (by tauto)]
  rfl

theorem Slots.visit_ok {s : Shape} {x : Slots α s} (h : ∀ a ∈ x.toList, f a = .ok (g a)) :
    x.visit f = .ok (x.map g) := by
  cases x with
  | leaf => rfl
  | one x =>
      rw [Slots.visit, h x (by simp [toList])]
      rfl
  | two l r =>
      rw [Slots.visit, h l (by simp [toList]), h r (by simp [toList])]
      rfl
  | join t p =>
      rw [Slots.visit, h t (by simp [toList]),
        visitOption_ok fun a ha => h a (by simp [toList, ha])]
      rfl
  | arguments list =>
      cases list with
      | none => rfl
      | some xs =>
          have visited : visitList f xs = .ok (xs.map g) := visitList_ok h
          rw [Slots.visit, visited]
          rfl
  | select c =>
      rw [Slots.visit, Clauses.visit_ok h]
      rfl

end Visits

/-! ## Other children -/

namespace Expr

variable {h : Expr → Expr} {e' : Expr}

/-- A call keeps its function and has a flag for each argument. -/
theorem withSlots_call {f : Function} {args : List Expr}
    (rebuilt : (Expr.call f args).withSlots ((Expr.call f args).slots.map h) = .ok e') :
    args.length = f.propagates.length ∧ e' = .call f (args.map h) := by
  have made : call? f (args.map h) = .ok e' := rebuilt
  unfold call? at made
  split at made
  next flags => exact ⟨by simpa using flags, (Except.ok.inj made).symm⟩
  next => cases made

theorem asSelect_eq_ok {e : Expr} {q : Select Expr} : e.asSelect = .ok q ↔ e = .select q := by
  cases e <;> simp [asSelect]

/-- The sources of a set operation are selects again. -/
theorem withSlots_setOperation {op : SetOp} {a : String} {l r : Select Expr} {d : Bool}
    (rebuilt : (Expr.setOperation op a l r d).withSlots
      ((Expr.setOperation op a l r d).slots.map h) = .ok e') :
    ∃ l' r', h (.select l) = .select l' ∧ h (.select r) = .select r' ∧
      e' = .setOperation op a l' r' d := by
  have made : (do
      let l' ← (h (.select l)).asSelect
      let r' ← (h (.select r)).asSelect
      return Expr.setOperation op a l' r' d) = .ok e' := rebuilt
  cases left : (h (.select l)).asSelect with
  | error v =>
      rw [left] at made
      cases made
  | ok l' =>
      cases right : (h (.select r)).asSelect with
      | error v =>
          rw [left, right] at made
          cases made
      | ok r' =>
          rw [left, right] at made
          exact ⟨l', r', asSelect_eq_ok.mp left, asSelect_eq_ok.mp right,
            (Except.ok.inj made).symm⟩

/-- Children that stay selects where they are may always be put in the place of others. -/
theorem withSlots_ok {e : Expr} (flags : e.FlagsMatch)
    (selects : ∀ q, .select q ∈ e.children → ∃ q', h (.select q) = .select q') :
    ∃ e', e.withSlots (e.slots.map h) = .ok e' := by
  cases e with
  | call f args =>
      have same : (args.map h).length = f.propagates.length :=
        (List.length_map h).trans flags
      exact ⟨.call f (args.map h), if_pos same⟩
  | setOperation op a l r d =>
      obtain ⟨l', hl⟩ := selects l (List.mem_cons_self)
      obtain ⟨r', hr⟩ := selects r (List.mem_cons_of_mem _ List.mem_cons_self)
      refine ⟨.setOperation op a l' r' d, ?_⟩
      simp only [slots, Slots.map, withSlots, hl, hr]
      rfl
  | _ => exact ⟨_, rfl⟩

end Expr

/-! ## One node -/

namespace Expr

/-- What the children offer after they have been visited. -/
def offers (e : Expr) (g : Expr → Revision) : Slots Part e.shape :=
  e.slots.number.map fun p => .ofVisit p.1 p.2 (g p.1)

theorem map_expr_offers (e : Expr) (g : Expr → Revision) :
    (e.offers g).map Part.expr = e.slots.map fun c => (g c).of c := by
  have one (p : Expr × Nat) : (Part.ofVisit p.1 p.2 (g p.1)).expr = (g p.1).of p.1 := by
    cases g p.1 <;> rfl
  have numbered := Slots.map_map (fun p : Expr × Nat => p.1) (fun c => (g c).of c) e.slots.number
  rw [Slots.map_fst_number] at numbered
  rw [offers, Slots.map_map, numbered]
  exact Slots.map_congr fun p _ => one p

/-- A child stands at one of the numbered places. -/
theorem exists_mem_number {e c : Expr} (mem : c ∈ e.children) :
    ∃ i, (c, i) ∈ e.slots.number.toList := by
  obtain ⟨i, hi, rfl⟩ := List.mem_iff_getElem.mp mem
  rw [Slots.toList_number]
  exact ⟨i, List.mk_mem_zipIdx_iff_getElem?.mpr (List.getElem?_eq_getElem hi)⟩

/-- A node holds what its children offer exactly if each child is kept. -/
theorem holds_offers_iff {e : Expr} {g : Expr → Revision} :
    e.holds (e.offers g) e.positions = true ↔ ∀ c ∈ e.children, (g c).isKept = true := by
  rw [holds, beq_iff_eq, offers, positions, Slots.map_map, Slots.map_map]
  constructor
  · intro held c mem
    have lists := congrArg Slots.toList held
    rw [Slots.toList_map, Slots.toList_map] at lists
    obtain ⟨i, numbered⟩ := exists_mem_number mem
    have address := List.map_inj_left.mp lists _ numbered
    cases kept : g c with
    | kept => rfl
    | changed result shared => simp [Part.ofVisit, kept] at address
  · intro kept
    refine Slots.map_congr fun a mem => ?_
    have child := kept a.1 (Slots.mem_of_mem_number mem)
    cases answer : g a.1 with
    | kept => rfl
    | changed result shared =>
        rw [answer] at child
        cases child

/-- Whether a node is kept or not, it is what its children after the visit give. -/
theorem update_offers {e : Expr} (flags : e.FlagsMatch) {g : Expr → Revision} {e' : Expr}
    (h : e.withSlots (e.slots.map fun c => (g c).of c) = .ok e') :
    ∃ r, e.update (e.offers g) = .ok r ∧ r.of e = e' := by
  unfold update
  split
  next held =>
    have unchanged (c : Expr) (mem : c ∈ e.children) : (g c).of c = c :=
      Revision.of_eq_of_isKept (holds_offers_iff.mp held c mem) c
    rw [Slots.map_congr unchanged, Slots.map_id, withSlots_slots flags] at h
    exact ⟨.kept, rfl, Except.ok.inj h⟩
  next =>
    rw [map_expr_offers, h]
    exact ⟨_, rfl, rfl⟩

/-- What becomes of a node in a pass.  A pass that fails keeps it. -/
def outcome (p : Pass) (e : Expr) : Revision :=
  match e.revise p with
  | .ok r => r
  | .error _ => .kept

def after (p : Pass) (e : Expr) : Expr := (e.outcome p).of e

theorem outcome_of_revise {p : Pass} {e : Expr} {r : Revision} (h : e.revise p = .ok r) :
    e.outcome p = r := by
  rw [outcome, h]

/-- A pass over a node that it does not replace: the children after the pass are put in the place
of the children, and the node that they give is finished. -/
theorem revise_of_withSlots {p : Pass} {e : Expr} (inside : p.replace e = none)
    (flags : e.FlagsMatch) (children : ∀ c ∈ e.children, ∃ r, c.revise p = .ok r) {e' : Expr}
    (rebuilt : e.withSlots (e.slots.map (after p)) = .ok e') :
    ∃ r, e.revise p = .ok r ∧ r.of e = (p.finish e').of e' := by
  have visited : e.slots.number.visit (offer p) = .ok (e.offers (outcome p)) := by
    refine Slots.visit_ok fun a ha => ?_
    obtain ⟨r, revised⟩ := children a.1 (Slots.mem_of_mem_number ha)
    rw [offer, revised, outcome_of_revise revised]
    rfl
  obtain ⟨r, updated, result⟩ := update_offers flags rebuilt
  refine ⟨r.andThen (p.finish e'), ?_, ?_⟩
  · rw [revise_eq, step, inside]
    simp only [visited, updated, bind, Except.bind, pure, Except.pure, result]
  · rw [Revision.of_andThen, result]

end Expr

end SqlGen
