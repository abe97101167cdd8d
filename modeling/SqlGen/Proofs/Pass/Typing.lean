import SqlGen.Proofs.Pass.Flags
import SqlGen.Proofs.Pass.Success

/-!
# Types of rewritten trees

Most nodes hold the type of their values and its mapping, if they have any.  An item of a select
list takes both from its operand, and a comparison by another collation takes the type.  So what a
node produces is a matter of its own fields and of what its children produce
(`Expr.produced_of_withSlots`), and a pass keeps it in the whole tree if it does so in one node.

The constants that simplification by nullability puts in the place of a node have the typing of
that node.  A value that is put in the place of a parameter has the type of the parameter, but it
may have a mapping where the parameter has none: the mapping that the type has by default.
`Expr.isBound` says which nodes take that over.
-/

namespace SqlGen

/-! ## What nodes produce -/

/-- What is known of the values of a node, if it produces any. -/
structure Produced where
  hostType : Option HostType
  mapping : Option TypeMapping

def Expr.produced (e : Expr) : Produced := ⟨e.hostType?, e.mapping?⟩

/-- What a node produces, from what its children produce. -/
def Node.produced : Node Produced → Produced
  | .column _ _ t | .constant _ t | .parameter _ t | .binary _ _ _ t | .unary _ _ t =>
      ⟨some t.hostType, t.mapping⟩
  | .call f _ | .niladic f => ⟨some f.typing.hostType, f.typing.mapping⟩
  | .projection x _ => x
  | .collate x _ => ⟨x.hostType, none⟩
  | _ => ⟨none, none⟩

namespace Expr

variable {e e' : Expr}

theorem produced_eq (e : Expr) : e.produced = (e.node produced).produced := by
  cases e <;> rfl

/-- With other children a node produces what its own fields and these children say. -/
theorem produced_of_withSlots {h : Expr → Expr} (rebuilt : e.withSlots (e.slots.map h) = .ok e') :
    e'.produced = (e.node fun c => (h c).produced).produced := by
  rw [produced_eq, node_of_withSlots rebuilt]

/-! ## Simplification by nullability -/

theorem produced_withNullability (nullable : Bool) (e : Expr) :
    ((e.withNullability nullable).of e).produced = e.produced := by
  cases e with
  | call f args => rw [of_withNullability_call]; rfl
  | niladic f => rw [of_withNullability_niladic]; rfl
  | _ => rfl

/-- The constants that stand for a node have its typing. -/
theorem produced_simplify (e : Expr) : ((Nullability.simplify e).of e).produced = e.produced := by
  have call (f : Function) (args : List Expr)
      (typing : e.produced = ⟨some f.typing.hostType, f.typing.mapping⟩) :
      ((Nullability.simplifyCall e f args).of e).produced = e.produced := by
    unfold Nullability.simplifyCall
    split
    next => exact typing.symm
    next =>
      split
      next => exact produced_withNullability false e
      next => rfl
  have test (operand : Expr) (t : Typing) (truth : Bool)
      (typing : e.produced = ⟨some t.hostType, t.mapping⟩) :
      ((Nullability.simplifyTest operand t truth).of e).produced = e.produced := by
    unfold Nullability.simplifyTest
    split
    next => rfl
    next => exact typing.symm
  cases e with
  | call f args => exact call f args rfl
  | niladic f => exact call f [] rfl
  | unary op operand t =>
      cases op with
      | isNull => exact test operand t false rfl
      | isNotNull => exact test operand t true rfl
      | _ => rfl
  | _ => rfl

theorem produced_after_nullability (flags : e.AllFlagsMatch) :
    (e.after .nullability).produced = e.produced := by
  induction e using induction_children with
  | node e ih =>
      obtain ⟨e', rebuilt, after⟩ := exists_after Pass.keepsSelects_nullability flags rfl
      have children (c : Expr) (mem : c ∈ e.children) := ih c mem (flags.child mem)
      calc (e.after .nullability).produced
          = ((Nullability.simplify e').of e').produced := congrArg produced after
        _ = e'.produced := produced_simplify e'
        _ = (e.node fun c => (c.after .nullability).produced).produced :=
            produced_of_withSlots rebuilt
        _ = (e.node produced).produced := by rw [node_congr children]
        _ = e.produced := e.produced_eq.symm

/-! ## Inlining -/

/-- The values of the node are those of a parameter that has a value. -/
def isBound (values : Bindings) : Expr → Bool
  | .parameter name _ _ => (values.lookup name).isSome
  | .projection x _ => x.isBound values
  | _ => false

/-- What the node produces with values in the place of parameters. -/
def inlinedProduced (b : Builder) (values : Bindings) (e : Expr) : Produced :=
  ⟨e.hostType?, e.mapping?.or (if e.isBound values then e.hostType?.bind b.mapping else none)⟩

theorem produced_after_inline (b : Builder) (values : Bindings) (flags : e.AllFlagsMatch) :
    (e.after (.inline b values)).produced = e.inlinedProduced b values := by
  induction e using induction_children with
  | node e ih =>
      cases replaced : (Pass.inline b values).replace e with
      | some result =>
          cases e with
          | parameter name t nullable =>
              obtain ⟨v, bound, rfl⟩ := Option.map_eq_some_iff.mp replaced
              rw [after_of_replace replaced]
              simp [inlinedProduced, isBound, bound, Builder.inlined, produced, hostType?, mapping?]
          | _ => cases replaced
      | none =>
          obtain ⟨e', rebuilt, after⟩ :=
            exists_after (Pass.keepsSelects_inline b values) flags replaced
          have children (c : Expr) (mem : c ∈ e.children) := ih c mem (flags.child mem)
          rw [after, Pass.inline, Revision.of_kept, produced_of_withSlots rebuilt,
            node_congr children]
          cases e with
          | parameter name t nullable =>
              have unbound : values.lookup name = none := Option.map_eq_none_iff.mp replaced
              simp [node, Node.produced, inlinedProduced, isBound, unbound, hostType?, mapping?]
          | projection x a => rfl
          | _ => simp [node, Node.produced, inlinedProduced, isBound, hostType?, mapping?,
              Function.undeclared]

/-! ## Both passes -/

/-- The passes of the library keep the type of a tree.  Simplification by nullability keeps its
mapping, too, and so does inlining of a mapping that there is.  A tree without a mapping gets one
exactly if its values come from a parameter that has a value, and it is the default of its type. -/
theorem typing_revise (flags : e.AllFlagsMatch) :
    (∃ r, e.revise .nullability = .ok r ∧
      (r.of e).hostType? = e.hostType? ∧ (r.of e).mapping? = e.mapping?) ∧
    ∀ b values, ∃ r, e.revise (.inline b values) = .ok r ∧
      (r.of e).hostType? = e.hostType? ∧
      (∀ m, e.mapping? = some m → (r.of e).mapping? = some m) ∧
      (e.mapping? = none → (r.of e).mapping? =
        if e.isBound values then e.hostType?.bind b.mapping else none) := by
  constructor
  · obtain ⟨r, revised, -⟩ := revise_ok Pass.keepsSelects_nullability flags
    have same := produced_after_nullability flags
    rw [Expr.after, outcome_of_revise revised] at same
    exact ⟨r, revised, congrArg Produced.hostType same, congrArg Produced.mapping same⟩
  · intro b values
    obtain ⟨r, revised, -⟩ := revise_ok (Pass.keepsSelects_inline b values) flags
    have inlined := produced_after_inline b values flags
    rw [Expr.after, outcome_of_revise revised] at inlined
    have mapping : (r.of e).mapping? = _ := congrArg Produced.mapping inlined
    refine ⟨r, revised, congrArg Produced.hostType inlined, fun m known => ?_, fun unknown => ?_⟩
    · rw [mapping, inlinedProduced, known, Option.some_or]
    · rw [mapping, inlinedProduced, unknown, Option.none_or]

/-- The item `@size AS "n"` of a select list. -/
def sizeItem : Expr := .projection (.parameter "size" ⟨.int64, none⟩ false) (some "n")

/-- The item has the mapping of its type once its parameter has a value, and not before. -/
theorem typing_revise_sizeItem :
    sizeItem.AllFlagsMatch ∧ sizeItem.mapping? = none ∧
      (∃ r, sizeItem.revise .nullability = .ok r ∧
        (r.of sizeItem).hostType? = some .int64 ∧ (r.of sizeItem).mapping? = none) ∧
      (∃ r, sizeItem.revise (.inline .ansi [("size", .integer 5)]) = .ok r ∧
        (r.of sizeItem).hostType? = some .int64 ∧
        (r.of sizeItem).mapping? = some ⟨"bigint", .int64⟩) := by
  have flags : sizeItem.AllFlagsMatch := by
    refine .of_children trivial fun c mem => ?_
    obtain rfl := List.mem_singleton.mp mem
    exact .of_leaf rfl trivial
  obtain ⟨simplified, inlined⟩ := typing_revise flags
  obtain ⟨r, revised, type, -, mapping⟩ := inlined .ansi [("size", .integer 5)]
  exact ⟨flags, rfl, simplified, r, revised, type, mapping rfl⟩

end Expr

end SqlGen
