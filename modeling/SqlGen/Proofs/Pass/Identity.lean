import SqlGen.Proofs.Pass.Rebuild
import SqlGen.Proofs.Pass.Success

/-!
# Nodes that a pass keeps

A pass over a node is the pass over its children, the update of the node with what they offer, and
the work of the pass on the node that results (`Expr.revise_step`).  So a node is kept exactly if
each of its children is and the pass leaves it alone (`Expr.isKept_iff`).

A pass may make a copy of a node, which is another node but an equal one.  `Pass.Alters` says that a
pass never does so with a single node.  Then it does not do so with a whole tree either: what comes
out is the very same node whenever it is an equal one (`Expr.isKept_iff_eq`).
-/

namespace SqlGen

namespace Expr

variable {p : Pass} {e : Expr} {r : Revision}

/-! ## One step of a pass -/

/-- Children that have been visited have been revised. -/
theorem revise_of_visited {parts : Slots Part e.shape}
    (visited : e.slots.number.visit (offer p) = .ok parts) {c : Expr} (mem : c ∈ e.children) :
    c.revise p = .ok (c.outcome p) := by
  obtain ⟨-, answers⟩ := Slots.forall₂_visit MayReturn.except visited
  obtain ⟨i, numbered⟩ := exists_mem_number mem
  obtain ⟨k, hk, at_k⟩ := List.mem_iff_getElem.mp numbered
  have answer := answers.get hk (answers.length_eq ▸ hk)
  rw [List.get_eq_getElem, at_k] at answer
  obtain ⟨r, revised, -⟩ := MayReturn.except.of_bind answer
  have revised : c.revise p = .ok r := revised
  rw [revised, outcome_of_revise revised]

/-- Children that have been revised offer what became of them. -/
theorem visit_offer (children : ∀ c ∈ e.children, c.revise p = .ok (c.outcome p)) :
    e.slots.number.visit (offer p) = .ok (e.offers (outcome p)) := by
  refine Slots.visit_ok fun a mem => ?_
  rw [offer, children a.1 (Slots.mem_of_mem_number mem)]
  rfl

/-- What a pass does to a node that it does not replace. -/
theorem revise_step (inside : p.replace e = none) (revised : e.revise p = .ok r) :
    (∀ c ∈ e.children, c.revise p = .ok (c.outcome p)) ∧
      ∃ first, e.update (e.offers (outcome p)) = .ok first ∧
        r = first.andThen (p.finish (first.of e)) := by
  rw [revise_eq, step, inside] at revised
  obtain ⟨parts, visited, rest⟩ := MayReturn.except.of_bind revised
  obtain ⟨first, updated, done⟩ := MayReturn.except.of_bind rest
  obtain rfl := MayReturn.except.of_pure done
  have children (c : Expr) (mem : c ∈ e.children) := revise_of_visited visited mem
  obtain rfl := Except.ok.inj (visited.symm.trans (visit_offer children))
  exact ⟨children, first, updated, rfl⟩

/-- A node is kept exactly if each of its children is, and the pass leaves the node alone. -/
theorem isKept_iff (inside : p.replace e = none) (revised : e.revise p = .ok r) :
    r.isKept = true ↔
      (∀ c ∈ e.children, (c.outcome p).isKept = true) ∧ (p.finish e).isKept = true := by
  obtain ⟨-, first, updated, rfl⟩ := revise_step inside revised
  rw [Revision.isKept_andThen, Bool.and_eq_true, ← holds_offers_iff]
  obtain ⟨held, rfl⟩ | ⟨e', -, rfl⟩ := update_cases updated
  · simp [held]
  · have notHeld : ¬ e.holds (e.offers (outcome p)) e.positions = true := by
      intro held
      rw [update, if_pos held] at updated
      cases updated
    simp [notHeld]

/-- A pass succeeds on a node that it leaves alone over children that it keeps. -/
theorem revise_eq_kept (inside : p.replace e = none)
    (children : ∀ c ∈ e.children, c.revise p = .ok .kept) (leaves : p.finish e = .kept) :
    e.revise p = .ok .kept := by
  have outcomes (c : Expr) (mem : c ∈ e.children) : c.outcome p = .kept :=
    outcome_of_revise (children c mem)
  have held : e.holds (e.offers (outcome p)) e.positions = true :=
    holds_offers_iff.mpr fun c mem => by rw [outcomes c mem, Revision.isKept_kept]
  have visited : e.slots.number.visit (offer p) = .ok (e.offers (outcome p)) :=
    visit_offer fun c mem => by rw [children c mem, outcomes c mem]
  have updated : e.update (e.offers (outcome p)) = .ok .kept := if_pos held
  rw [revise_eq, step, inside, visited]
  simp only [bind, Except.bind, pure, Except.pure, updated, Revision.of_kept, leaves,
    Revision.kept_andThen]

end Expr

/-! ## Copies -/

/-- A pass that makes something else of every node that it does not keep. -/
structure Pass.Alters (p : Pass) : Prop where
  replace {e result : Expr} : p.replace e = some result → result ≠ e
  /-- A node that is not left alone gets another head, whatever its children are. -/
  finish {e result : Expr} {shared : List Bool} :
    p.finish e = .changed result shared → result.head ≠ e.head

namespace Expr

variable {p : Pass} {e : Expr} {r : Revision}

/-- A pass that alters what it does not keep returns the very same node whenever it returns an equal
one. -/
theorem isKept_iff_eq (alters : p.Alters) (revised : e.revise p = .ok r) :
    r.isKept = true ↔ r.of e = e := by
  constructor
  · exact fun kept => Revision.of_eq_of_isKept kept e
  · intro same
    induction e using induction_children generalizing r with
    | node e ih =>
        cases replaced : p.replace e with
        | some result =>
            obtain rfl := Except.ok.inj ((revise_of_replace replaced).symm.trans revised)
            exact absurd same (alters.replace replaced)
        | none =>
            obtain ⟨children, first, updated, rfl⟩ := revise_step replaced revised
            rw [Revision.of_andThen] at same
            have heads : (first.of e).head = e.head := by
              obtain ⟨-, rfl⟩ | ⟨e', rebuilt, rfl⟩ := update_cases updated
              · rfl
              · refine head_of_withSlots rebuilt ?_
                rw [map_expr_offers, Slots.places_map]
            cases done : p.finish (first.of e) with
            | changed result shared =>
                rw [done] at same
                have same : result = e := same
                exact absurd (same ▸ heads.symm) (alters.finish done)
            | kept =>
                rw [done] at same
                obtain ⟨-, rfl⟩ | ⟨e', rebuilt, rfl⟩ := update_cases updated
                · rfl
                · -- The children of the copy are those of the node, so they have been kept.
                  have same : e' = e := same
                  have list : e.children.map (after p) = e.children := by
                    have offered := children_of_withSlots rebuilt
                    rw [map_expr_offers, Slots.toList_map, same] at offered
                    exact offered.symm
                  have kept (c : Expr) (mem : c ∈ e.children) : (c.outcome p).isKept = true := by
                    have unchanged : after p c = c :=
                      List.map_inj_left.mp (list.trans (List.map_id e.children).symm) c mem
                    exact ih c mem (children c mem) unchanged
                  rw [update, if_pos (holds_offers_iff.mpr kept)] at updated
                  cases updated

end Expr

/-! ## The simplification by nullability -/

namespace Nullability

/-- A test is left alone or it becomes a constant. -/
theorem simplifyTest_cases (operand : Expr) (t : Typing) (b : Bool) :
    simplifyTest operand t b = .kept ∨
      simplifyTest operand t b = .changed (.constant (.boolean b) t) [] := by
  unfold simplifyTest
  split
  next => exact .inl rfl
  next => exact .inr rfl

/-- What the rules can do to a node.  They leave it alone, or they put a constant in its place, or
they declare a call never to be NULL that could be. -/
theorem simplify_cases (e : Expr) :
    simplify e = .kept ∨
      (∃ v t, simplify e = .changed (.constant v t) [] ∧ e.head ≠ .constant v t) ∨
      (∃ f args, e = .call f args ∧ isNullCall f args = false ∧ f.nullable = true ∧
        simplify e = .changed (.call { f with nullable := false } args) (args.map fun _ => true)) ∨
      ∃ f, e = .niladic f ∧ f.nullable = true ∧
        simplify e = .changed (.niladic { f with nullable := false }) [] := by
  cases e with
  | call f args =>
      simp only [simplify, simplifyCall]
      split
      next => exact .inr (.inl ⟨_, _, rfl, fun same => nomatch same⟩)
      next notNull =>
        split
        next strict =>
          simp only [isNeverNull, Bool.and_eq_true] at strict
          have nullable : f.nullable = true := strict.1.1.1
          refine .inr (.inr (.inl ⟨f, args, rfl, Bool.eq_false_iff.mpr notNull, nullable, ?_⟩))
          simp [Expr.withNullability, nullable]
        next => exact .inl rfl
  | niladic f =>
      simp only [simplify, simplifyCall]
      split
      next => exact .inr (.inl ⟨_, _, rfl, fun same => nomatch same⟩)
      next =>
        split
        next strict =>
          simp only [isNeverNull, Bool.and_eq_true] at strict
          have nullable : f.nullable = true := strict.1.1.1
          refine .inr (.inr (.inr ⟨f, rfl, nullable, ?_⟩))
          simp [Expr.withNullability, nullable]
        next => exact .inl rfl
  | unary op operand t =>
      cases op with
      | isNull =>
          rcases simplifyTest_cases operand t false with kept | constant
          · exact .inl kept
          · exact .inr (.inl ⟨_, _, constant, fun same => nomatch same⟩)
      | isNotNull =>
          rcases simplifyTest_cases operand t true with kept | constant
          · exact .inl kept
          · exact .inr (.inl ⟨_, _, constant, fun same => nomatch same⟩)
      | _ => exact .inl rfl
  | _ => exact .inl rfl

end Nullability

theorem Pass.alters_nullability : Pass.nullability.Alters where
  replace replaced := nomatch replaced
  finish {e result shared} done := by
    have done : Nullability.simplify e = .changed result shared := done
    obtain kept | ⟨v, t, constant, other⟩ | ⟨f, args, rfl, -, nullable, declared⟩ |
      ⟨f, rfl, nullable, declared⟩ := Nullability.simplify_cases e
    · cases kept.symm.trans done
    · obtain ⟨rfl, -⟩ := Revision.changed.inj (constant.symm.trans done)
      exact other.symm
    · obtain ⟨rfl, -⟩ := Revision.changed.inj (declared.symm.trans done)
      intro heads
      have functions : { f with nullable := false } = f := (Expr.call.inj heads).1
      cases (congrArg Function.nullable functions).trans nullable
    · obtain ⟨rfl, -⟩ := Revision.changed.inj (declared.symm.trans done)
      intro heads
      have functions : { f with nullable := false } = f := Expr.niladic.inj heads
      cases (congrArg Function.nullable functions).trans nullable

/-! ## Inlining -/

/-- A constant stands in the place of a parameter. -/
theorem Pass.alters_inline (b : Builder) (values : Bindings) : (Pass.inline b values).Alters where
  replace {e result} replaced := by
    cases e with
    | parameter name t nullable =>
        obtain ⟨v, -, rfl⟩ := Option.map_eq_some_iff.mp replaced
        exact fun same => nomatch same
    | _ => cases replaced
  finish done := nomatch done

namespace Expr

theorem replace_inline_eq_none_iff {b : Builder} {values : Bindings} :
    (Pass.inline b values).replace e = none ↔
      ∀ name t nullable, e = .parameter name t nullable → values.lookup name = none := by
  constructor
  · rintro inside name t nullable rfl
    exact Option.map_eq_none_iff.mp inside
  · intro unbound
    cases e with
    | parameter name t nullable => exact Option.map_eq_none_iff.mpr (unbound _ _ _ rfl)
    | _ => rfl

/-- A tree keeps every node exactly if none of its parameters has a value. -/
theorem isKept_inline_iff {b : Builder} {values : Bindings}
    (revised : e.revise (.inline b values) = .ok r) :
    r.isKept = true ↔ ∀ name t nullable, (Expr.parameter name t nullable).Within e →
      values.lookup name = none := by
  induction e using induction_children generalizing r with
  | node e ih =>
      cases replaced : (Pass.inline b values).replace e with
      | some result =>
          obtain rfl := Except.ok.inj ((revise_of_replace replaced).symm.trans revised)
          refine ⟨fun kept => (nomatch kept), fun unbound => ?_⟩
          have inside : (Pass.inline b values).replace e = none :=
            replace_inline_eq_none_iff.mpr fun name t nullable parameter =>
              unbound name t nullable (parameter ▸ .self)
          rw [replaced] at inside
          cases inside
      | none =>
          obtain ⟨children, -⟩ := revise_step replaced revised
          have unbound := replace_inline_eq_none_iff.mp replaced
          rw [isKept_iff replaced revised]
          constructor
          · rintro ⟨kept, -⟩ name t nullable within
            rcases within_iff.mp within with same | ⟨c, mem, below⟩
            · exact unbound name t nullable same.symm
            · exact (ih c mem (children c mem)).mp (kept c mem) name t nullable below
          · intro unbound
            refine ⟨fun c mem => (ih c mem (children c mem)).mpr ?_, rfl⟩
            intro name t nullable below
            exact unbound name t nullable (.child mem below)

/-! ## Both passes -/

/-- The passes of the library make no copy.  A tree is the very same one after a pass exactly if it
is an equal one, and inlining keeps it exactly if no parameter of the tree has a value. -/
theorem isKept_iff_equal (flags : e.AllFlagsMatch) :
    (∃ r, e.revise .nullability = .ok r ∧ (r.isKept = true ↔ (r.of e).equal e = true)) ∧
    ∀ b values, ∃ r, e.revise (.inline b values) = .ok r ∧
      (r.isKept = true ↔ (r.of e).equal e = true) ∧
      (r.isKept = true ↔ ∀ name t nullable, (Expr.parameter name t nullable).Within e →
        values.lookup name = none) := by
  constructor
  · obtain ⟨r, revised, -⟩ := revise_ok Pass.keepsSelects_nullability flags
    exact ⟨r, revised, (isKept_iff_eq Pass.alters_nullability revised).trans equal_iff.symm⟩
  · intro b values
    obtain ⟨r, revised, -⟩ := revise_ok (Pass.keepsSelects_inline b values) flags
    exact ⟨r, revised,
      (isKept_iff_eq (Pass.alters_inline b values) revised).trans equal_iff.symm,
      isKept_inline_iff revised⟩

/-- The predicate `abs("b"."Rating") = @rating`.  The call is declared to be NULL at times. -/
def absRatingIs : Expr :=
  .binary .equal
    (.call ⟨"abs", none, true, [true], ⟨.int64, none⟩⟩ [.column "Rating" "b" ⟨.int64, none⟩ false])
    (.parameter "rating" ⟨.int64, none⟩ false) ⟨.boolean, none⟩

theorem allFlagsMatch_absRatingIs : absRatingIs.AllFlagsMatch := by
  refine .of_children trivial ?_
  intro c mem
  rcases List.mem_pair.mp mem with rfl | rfl
  · refine .of_children rfl ?_
    intro c mem
    obtain rfl := List.mem_singleton.mp mem
    exact .of_leaf rfl trivial
  · exact .of_leaf rfl trivial

/-- The predicate is another one with the call declared never to be NULL, or with a value in the
place of its parameter.  It is the very same one if another name has a value. -/
theorem isKept_iff_equal_absRatingIs :
    absRatingIs.AllFlagsMatch ∧
      (∃ r, absRatingIs.revise .nullability = .ok r ∧ r.isKept = false ∧
        ¬ (r.of absRatingIs).equal absRatingIs = true) ∧
      (∃ r, absRatingIs.revise (.inline ⟨fun _ => none⟩ [("rating", .integer 5)]) = .ok r ∧
        r.isKept = false ∧ ¬ (r.of absRatingIs).equal absRatingIs = true) ∧
      absRatingIs.revise (.inline ⟨fun _ => none⟩ [("size", .integer 5)]) = .ok .kept ∧
      ∀ t nullable, ¬ (Expr.parameter "size" t nullable).Within absRatingIs := by
  obtain ⟨⟨r, revised, declared⟩, inlined⟩ := isKept_iff_equal allFlagsMatch_absRatingIs
  obtain ⟨r₁, revised₁, bound, -⟩ := inlined ⟨fun _ => none⟩ [("rating", .integer 5)]
  obtain ⟨r₂, revised₂, -, unbound⟩ := inlined ⟨fun _ => none⟩ [("size", .integer 5)]
  refine ⟨allFlagsMatch_absRatingIs, ⟨r, revised, ?_, ?_⟩, ⟨r₁, revised₁, ?_, ?_⟩, rfl, ?_⟩
  · obtain rfl := Except.ok.inj revised
    rfl
  · rw [← declared]
    obtain rfl := Except.ok.inj revised
    exact Bool.false_ne_true
  · obtain rfl := Except.ok.inj revised₁
    rfl
  · rw [← bound]
    obtain rfl := Except.ok.inj revised₁
    exact Bool.false_ne_true
  · intro t nullable within
    obtain rfl := Except.ok.inj revised₂
    cases unbound.mp rfl "size" t nullable within

end Expr

end SqlGen
