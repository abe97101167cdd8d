import SqlGen.Proofs.Equality.Copy

/-!
# Trees in memory

A tree stands in memory, which holds an expression at each address and never changes one.  A
`Handle` is a tree with the address of each of its nodes.  Trees may share nodes, with each other
and within themselves, and equal nodes may stand at different addresses.

`Handle.same` compares two trees with a look at the addresses: nodes at one address are the same,
and others are compared by their heads and child by child.  The look at the addresses is a shortcut
only.  `Handle.same_iff` says that the test holds exactly of equal trees, wherever their nodes stand.
-/

namespace SqlGen

/-- The expression at each address. -/
abbrev Memory := Nat → Expr

/-- A tree in memory. -/
structure Handle (m : Memory) where
  expr : Expr
  /-- Where the node at a path stands. -/
  address : List Nat → Nat
  /-- Each node of the tree stands where the handle says. -/
  loads : ∀ path e, Expr.at? path expr = some e → m (address path) = e

namespace Handle

variable {m : Memory}

theorem load_root (h : Handle m) : m (h.address []) = h.expr := h.loads [] h.expr rfl

/-- The child at a position, where it stands already. -/
def child (h : Handle m) (i : Nat) (hi : i < h.expr.children.length) : Handle m where
  expr := h.expr.children[i]
  address := fun path => h.address (i :: path)
  loads := fun path e found => h.loads (i :: path) e ((Expr.at?_cons hi path).trans found)

@[simp] theorem expr_child (h : Handle m) (i : Nat) (hi : i < h.expr.children.length) :
    (h.child i hi).expr = h.expr.children[i] := rfl

/-! ## The test -/

/-- Two trees are built alike.  Nodes at one address are not looked into. -/
def same (a b : Handle m) : Bool :=
  a.address [] == b.address [] ||
    (a.expr.head == b.expr.head &&
      (List.finRange a.expr.children.length).all fun i =>
        if hb : i < b.expr.children.length then same (a.child i i.isLt) (b.child i hb) else false)
termination_by sizeOf a.expr
decreasing_by exact Expr.sizeOf_lt_of_mem_children (List.getElem_mem _)

/-- One step of the test. -/
theorem same_eq_true {a b : Handle m} :
    a.same b = true ↔ a.address [] = b.address [] ∨ a.expr.head = b.expr.head ∧
      ∀ i (ha : i < a.expr.children.length),
        ∃ hb : i < b.expr.children.length, (a.child i ha).same (b.child i hb) = true := by
  rw [same]
  simp [List.all_eq_true, Fin.forall_iff]

/-- The test holds exactly of equal trees. -/
theorem same_iff {a b : Handle m} : a.same b = true ↔ a.expr = b.expr := by
  induction tree : a.expr using Expr.induction_children generalizing a b with
  | node x ih =>
      subst tree
      rw [same_eq_true]
      constructor
      · rintro (address | ⟨heads, children⟩)
        · rw [← a.load_root, address, b.load_root]
        · refine Expr.eq_of_head_eq heads
            (List.ext_getElem (Expr.length_children_eq heads) fun i ha hb => ?_)
          obtain ⟨_, alike⟩ := children i ha
          exact (ih _ (List.getElem_mem ha) (a := a.child i ha) rfl).mp alike
      · intro equal
        refine .inr ⟨by rw [equal], fun i ha => ?_⟩
        have hb : i < b.expr.children.length := equal ▸ ha
        refine ⟨hb, (ih _ (List.getElem_mem ha) (a := a.child i ha) rfl).mpr ?_⟩
        simp only [expr_child, equal]

/-- The test of the trees alone gives the same answer. -/
theorem same_eq_equal (a b : Handle m) : a.same b = a.expr.equal b.expr := by
  rw [Bool.eq_iff_iff, same_iff, Expr.equal_iff]

end Handle

end SqlGen
