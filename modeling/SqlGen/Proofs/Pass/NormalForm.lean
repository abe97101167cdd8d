import SqlGen.Proofs.Pass.Identity
import SqlGen.Proofs.Pass.Flags

/-!
# Simplified trees

`Expr.Simplifiable` says of a node which of the rules of nullability apply to it, in terms of its
arguments and their flags.  A node that such a rule has been applied to is left alone by the rules
(`Nullability.simplify_of_simplify`), since a rule gives a constant or a call that is declared never
to be NULL over the same arguments.

The pass works from the leaves to the root.  The rules look at a node over children that have been
simplified already, so no node of the result is one that they would change
(`Expr.settled_after`), although the simplification of a child changes what its ancestors see.
-/

namespace SqlGen

namespace Nullability

/-! ## The rules -/

/-- The rules leave alone a call that is declared never to be NULL, unless it is given a NULL. -/
theorem simplifyCall_of_not_nullable {call : Expr} {f : Function} {args : List Expr}
    (notNull : isNullCall f args = false) (declared : f.nullable = false) :
    simplifyCall call f args = .kept := by
  simp [simplifyCall, isNeverNull, notNull, declared]

/-- What a rule makes of a node is left alone by the rules. -/
theorem simplify_of_simplify (e : Expr) : simplify ((simplify e).of e) = .kept := by
  obtain kept | ⟨v, t, constant, -⟩ | ⟨f, args, -, notNull, -, declared⟩ | ⟨f, -, -, declared⟩ :=
    simplify_cases e
  · rw [kept]
    exact kept
  · rw [constant]
    rfl
  · rw [declared]
    exact simplifyCall_of_not_nullable notNull rfl
  · rw [declared]
    exact simplifyCall_of_not_nullable rfl rfl

/-- A rule adds no child to a node. -/
theorem mem_children_of_simplify {e c : Expr} (mem : c ∈ ((simplify e).of e).children) :
    c ∈ e.children := by
  obtain kept | ⟨v, t, constant, -⟩ | ⟨f, args, rfl, -, -, declared⟩ | ⟨f, rfl, -, declared⟩ :=
    simplify_cases e
  · rwa [kept] at mem
  · rw [constant] at mem
    cases mem
  · rwa [declared] at mem
  · rwa [declared] at mem

end Nullability

namespace Expr

/-! ## Nodes to simplify -/

/-- A node that a rule applies to. -/
inductive Simplifiable : Expr → Prop where
  /-- A call with the constant NULL as an argument that makes it NULL. -/
  | nullArgument {f : Function} {args : List Expr} {i : Nat} {t : Typing}
      (argument : args[i]? = some (.constant .null t)) (propagates : f.propagates[i]? = some true) :
      Simplifiable (.call f args)
  /-- A call of some arguments that may be NULL, though each of its arguments makes it NULL and none
  of them may be NULL. -/
  | neverNull {f : Function} {args : List Expr} (nullable : f.nullable = true)
      (someArgument : args ≠ []) (propagate : ∀ i < args.length, f.propagates[i]? = some true)
      (arguments : ∀ a ∈ args, a.isNullable = false) : Simplifiable (.call f args)
  /-- A test for NULL of an operand that may not be NULL. -/
  | isNull {operand : Expr} {t : Typing} (declared : operand.isNullable = false) :
      Simplifiable (.unary .isNull operand t)
  | isNotNull {operand : Expr} {t : Typing} (declared : operand.isNullable = false) :
      Simplifiable (.unary .isNotNull operand t)

theorem isNullCall_of_nullArgument {f : Function} {args : List Expr} {i : Nat} {t : Typing}
    (argument : args[i]? = some (.constant .null t)) (propagates : f.propagates[i]? = some true) :
    Nullability.isNullCall f args = true := by
  have zipped : (args.zip f.propagates)[i]? = some (.constant .null t, true) :=
    List.getElem?_zip_eq_some.mpr ⟨argument, propagates⟩
  have propagating : Expr.constant .null t ∈ f.propagating args :=
    List.mem_map.mpr ⟨_, List.mem_filter.mpr ⟨List.mem_of_getElem? zipped, rfl⟩, rfl⟩
  exact List.any_eq_true.mpr ⟨_, propagating, rfl⟩

theorem isNeverNull_of_neverNull {f : Function} {args : List Expr}
    (flags : args.length = f.propagates.length) (nullable : f.nullable = true)
    (someArgument : args ≠ []) (propagate : ∀ i < args.length, f.propagates[i]? = some true)
    (arguments : ∀ a ∈ args, a.isNullable = false) : Nullability.isNeverNull f args = true := by
  have someFlag : f.propagates ≠ [] := by
    intro none
    rw [none] at flags
    exact someArgument (List.length_eq_zero_iff.mp flags)
  have allFlags : ∀ flag ∈ f.propagates, flag = true := by
    intro flag mem
    obtain ⟨i, hi, rfl⟩ := List.mem_iff_getElem.mp mem
    have set := propagate i (flags ▸ hi)
    rw [List.getElem?_eq_getElem hi] at set
    exact Option.some.inj set
  have allValues : args.all (fun a => !a.isNullable) = true :=
    List.all_eq_true.mpr fun a mem => by rw [arguments a mem, Bool.not_false]
  rw [Nullability.isNeverNull, nullable, List.all_eq_true.mpr allFlags, allValues]
  simp [someFlag]

/-- The rules leave no node alone that they apply to. -/
theorem not_simplifiable {e : Expr} (flags : e.FlagsMatch) (kept : Nullability.simplify e = .kept) :
    ¬ e.Simplifiable := by
  intro simplifiable
  cases simplifiable with
  | @nullArgument f args i t argument propagates =>
      have null := isNullCall_of_nullArgument argument propagates
      rw [Nullability.simplify, Nullability.simplifyCall, if_pos null] at kept
      cases kept
  | @neverNull f args nullable someArgument propagate arguments =>
      have strict := isNeverNull_of_neverNull flags nullable someArgument propagate arguments
      rw [Nullability.simplify, Nullability.simplifyCall] at kept
      split at kept
      next => cases kept
      next =>
        rw [withNullability, nullable] at kept
        cases kept
  | isNull declared =>
      rw [Nullability.simplify, Nullability.simplifyTest, declared] at kept
      cases kept
  | isNotNull declared =>
      rw [Nullability.simplify, Nullability.simplifyTest, declared] at kept
      cases kept

/-! ## Settled trees -/

/-- The rules leave every node of the tree alone. -/
def Settled (root : Expr) : Prop := ∀ e : Expr, e.Within root → Nullability.simplify e = .kept

theorem Settled.child {e c : Expr} (h : e.Settled) (mem : c ∈ e.children) : c.Settled :=
  fun x below => h x (.child mem below)

/-- The pass keeps every node of a settled tree. -/
theorem Settled.revise_eq_kept {e : Expr} (h : e.Settled) : e.revise .nullability = .ok .kept := by
  induction e using induction_children with
  | node e ih => exact Expr.revise_eq_kept rfl (fun c mem => ih c mem (h.child mem)) (h e .self)

/-- A node over settled children is settled once a rule has been applied to it. -/
theorem settled_simplify {e : Expr} (children : ∀ c ∈ e.children, c.Settled) :
    ((Nullability.simplify e).of e).Settled :=
  forall_within (Nullability.simplify_of_simplify e) fun c mem =>
    children c (Nullability.mem_children_of_simplify mem)

/-- The pass settles a tree.  Whatever it makes of the children of a node, the rules are applied to
the node after that. -/
theorem settled_after {e : Expr} (flags : e.AllFlagsMatch) : (e.after .nullability).Settled := by
  induction e using induction_children with
  | node e ih =>
      obtain ⟨e', rebuilt, result⟩ := exists_after Pass.keepsSelects_nullability flags rfl
      rw [result]
      refine settled_simplify fun c mem => ?_
      rw [children_of_withSlots rebuilt, Slots.toList_map] at mem
      obtain ⟨before, child, rfl⟩ := List.mem_map.mp mem
      exact ih before child (flags.child child)

/-! ## Flags of the result -/

theorem FlagsMatch.congr {e e' : Expr} (head : e.head = e'.head) (h : e.FlagsMatch) :
    e'.FlagsMatch := by
  cases e with
  | call f args =>
      cases e' with
      | call f' args' =>
          obtain ⟨rfl, blanks⟩ := Expr.call.inj head
          have length : args.length = args'.length := by simpa using congrArg List.length blanks
          exact length.symm.trans h
      | _ => cases head
  | _ => cases e' <;> trivial

theorem FlagsMatch.withNullability {e : Expr} (h : e.FlagsMatch) (nullable : Bool) :
    ((e.withNullability nullable).of e).FlagsMatch := by
  cases e with
  | call f args => rwa [of_withNullability_call]
  | niladic f => rwa [of_withNullability_niladic]
  | _ => trivial

theorem AllFlagsMatch.withNullability {e : Expr} (h : e.AllFlagsMatch) (nullable : Bool) :
    ((e.withNullability nullable).of e).AllFlagsMatch :=
  .of_children ((h e .self).withNullability nullable) fun _ mem =>
    h.child (children_withNullability nullable e ▸ mem)

/-- The calls of a simplified tree have their flags. -/
theorem AllFlagsMatch.revise_nullability {e : Expr} (h : e.AllFlagsMatch) {r : Revision}
    (revised : e.revise .nullability = .ok r) : (r.of e).AllFlagsMatch := by
  have keeps : Pass.nullability.Keeps AllFlagsMatch :=
    Pass.keeps_nullability (fun _ => .of_leaf rfl trivial) (fun _ _ => .of_leaf rfl trivial)
      fun _ h => h.withNullability false
  exact (Stable.everywhere FlagsMatch.congr).revise keeps h revised

/-- The simplification of a tree leaves nothing to simplify.  No rule applies to any node of the
result, and another simplification returns the very same tree. -/
theorem revise_nullability_normal {e : Expr} (flags : e.AllFlagsMatch) :
    ∃ r, e.revise .nullability = .ok r ∧
      (∀ x : Expr, x.Within (r.of e) → ¬ x.Simplifiable) ∧
      (r.of e).revise .nullability = .ok .kept := by
  obtain ⟨r, revised, -⟩ := revise_ok Pass.keepsSelects_nullability flags
  have settled : (r.of e).Settled := by
    have after := settled_after flags
    rwa [Expr.after, outcome_of_revise revised] at after
  have flags := flags.revise_nullability revised
  exact ⟨r, revised, fun x within => not_simplifiable (flags x within) (settled x within),
    settled.revise_eq_kept⟩

/-- The query `SELECT upper(NULL) FROM "Blogs" AS "b" WHERE abs("b"."Rating") IS NOT NULL`. -/
def ratedBlogs : Expr :=
  .select {
    projection := [.call ⟨"upper", none, true, [true], ⟨.string, none⟩⟩
      [.constant .null ⟨.string, none⟩]]
    tables := [.table ⟨"Blogs", none⟩ "b"]
    predicate := some (.unary .isNotNull
      (.call (absolute true) [.column "Rating" "b" ⟨.int64, none⟩ false]) ⟨.boolean, none⟩) }

/-- The query `SELECT NULL FROM "Blogs" AS "b" WHERE TRUE`. -/
def allBlogs : Expr :=
  .select {
    projection := [.constant .null ⟨.string, none⟩]
    tables := [.table ⟨"Blogs", none⟩ "b"]
    predicate := some (.constant (.boolean true) ⟨.boolean, none⟩) }

theorem allFlagsMatch_ratedBlogs : ratedBlogs.AllFlagsMatch := by
  have call (f : Function) (a : Expr) (flags : f.propagates.length = 1) (h : a.AllFlagsMatch) :
      (Expr.call f [a]).AllFlagsMatch := by
    refine .of_children flags.symm fun c mem => ?_
    obtain rfl := List.mem_singleton.mp mem
    exact h
  refine .of_children trivial fun c mem => ?_
  have oneOf : c = .call ⟨"upper", none, true, [true], ⟨.string, none⟩⟩
        [.constant .null ⟨.string, none⟩] ∨
      c = .table ⟨"Blogs", none⟩ "b" ∨
      c = .unary .isNotNull (.call (absolute true) [.column "Rating" "b" ⟨.int64, none⟩ false])
        ⟨.boolean, none⟩ := by
    simpa [ratedBlogs, children, slots, Slots.toList, Clauses.toList] using mem
  rcases oneOf with rfl | rfl | rfl
  · exact call _ _ rfl (.of_leaf rfl trivial)
  · exact .of_leaf rfl trivial
  · refine .of_children trivial fun c mem => ?_
    obtain rfl := List.mem_singleton.mp mem
    exact call _ _ rfl (.of_leaf rfl trivial)

/-- The call of a NULL is NULL.  The other call is declared never to be NULL, which makes the test
of it true. -/
theorem revise_nullability_ratedBlogs :
    ratedBlogs.AllFlagsMatch ∧
      ratedBlogs.revise .nullability = .ok (.changed allBlogs [false, true, false]) ∧
      (∀ x : Expr, x.Within allBlogs → ¬ x.Simplifiable) ∧
      allBlogs.revise .nullability = .ok .kept := by
  obtain ⟨r, revised, normal, kept⟩ := revise_nullability_normal allFlagsMatch_ratedBlogs
  obtain rfl := Except.ok.inj revised
  exact ⟨allFlagsMatch_ratedBlogs, rfl, normal, kept⟩

end Expr

end SqlGen
