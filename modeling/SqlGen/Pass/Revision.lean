import SqlGen.Expr.Slots

/-!
# Revisions of a node

A pass shares with the tree it starts from everything it does not touch.
Trees are values here, so sharing is part of the answer: a `Revision` says that
a node is the very same node, or gives another one together with the
positions at which both have the very same child.

`Expr.update` gives a node other children.  Children are compared by the addresses
at which they stand: a node that stands in two slots is one child, and an equal one
that stands elsewhere is another.  The node is kept exactly when every slot gets the
child it has already.

`Expr.visitChildren` hands each child to a visitor and updates the node with the
answers.  An answer is only ever compared with the child of its own slot, so there the
position of a child is address enough.
-/

namespace SqlGen

/-! ## Revisions -/

/-- What became of a node. -/
inductive Revision where
  /-- It is the very same node. -/
  | kept
  /-- It is another node.  The list marks the positions at which both have the same child. -/
  | changed (result : Expr) (shared : List Bool)

namespace Revision

/-- The node after the revision of `e`. -/
def of (e : Expr) : Revision → Expr
  | .kept => e
  | .changed result _ => result

/-- The node is the very same one. -/
def isKept : Revision → Bool
  | .kept => true
  | .changed .. => false

/-- One revision after another.  A child is shared if both share it. -/
def andThen : Revision → Revision → Revision
  | .kept, second => second
  | .changed result shared, .kept => .changed result shared
  | .changed _ shared, .changed result shared' =>
      .changed result (List.zipWith (fun a b => a && b) shared shared')

/-- For each position that both nodes have: the child there is the very same one. -/
def sharedChildren (e : Expr) : Revision → List Bool
  | .kept => e.children.map fun _ => true
  | .changed result shared =>
      (List.range (min e.children.length result.children.length)).map fun i =>
        shared.getD i false

@[simp] theorem of_kept (e : Expr) : Revision.kept.of e = e := rfl

@[simp] theorem of_changed (e result : Expr) (shared : List Bool) :
    (Revision.changed result shared).of e = result := rfl

@[simp] theorem isKept_kept : Revision.kept.isKept = true := rfl

@[simp] theorem isKept_changed (result : Expr) (shared : List Bool) :
    (Revision.changed result shared).isKept = false := rfl

/-- The very same node is an equal one. -/
theorem of_eq_of_isKept {r : Revision} (kept : r.isKept = true) (e : Expr) : r.of e = e := by
  cases r with
  | kept => rfl
  | changed result shared => cases kept

@[simp] theorem kept_andThen (r : Revision) : Revision.kept.andThen r = r := rfl

theorem of_andThen (e : Expr) (r s : Revision) : (r.andThen s).of e = s.of (r.of e) := by
  cases r <;> cases s <;> rfl

theorem isKept_andThen (r s : Revision) : (r.andThen s).isKept = (r.isKept && s.isKept) := by
  cases r <;> cases s <;> rfl

end Revision

/-! ## Updates -/

/-- A child offered to a node. -/
structure Part where
  expr : Expr
  /-- Where the child stands.  A node that was just made stands nowhere yet. -/
  address : Option Nat

/-- What a visit of the child at a position offers to the node. -/
def Part.ofVisit (child : Expr) (position : Nat) : Revision → Part
  | .kept => ⟨child, some position⟩
  | .changed result _ => ⟨result, none⟩

namespace Expr

/-- The positions of a node's children, in their slots. -/
def positions (e : Expr) : Slots Nat e.shape := e.slots.number.map Prod.snd

/-- Every slot gets the child that stands there already. -/
def holds (e : Expr) (parts : Slots Part e.shape) (addresses : Slots Nat e.shape) : Bool :=
  parts.map Part.address == addresses.map some

/-- For each position with a child before and after: it is the very same child. -/
def sharedParts {s : Shape} (parts : Slots Part s) (addresses : Slots Nat s) : List Bool :=
  List.zipWith (fun p a => p.address == some a) parts.toList addresses.toList

/-- The node with the offered children.  It is kept if every slot gets the child it has.  The
children of the node stand at `addresses`, where a node that fills several slots has one address. -/
def update (e : Expr) (parts : Slots Part e.shape)
    (addresses : Slots Nat e.shape := e.positions) : Except Violation Revision :=
  if e.holds parts addresses then .ok .kept
  else do
    let result ← e.withSlots (parts.map Part.expr)
    return .changed result (sharedParts parts addresses)

/-- Visits each child once, in order, and updates the node with the answers. -/
def visitChildren {σ : Type} (visitor : Expr → StateT σ (Except Violation) Revision)
    (e : Expr) : StateT σ (Except Violation) Revision := do
  let parts ← e.slots.number.visit fun p => do
    return Part.ofVisit p.1 p.2 (← visitor p.1)
  match e.update parts with
  | .ok r => return r
  | .error v => throw v

/-- A call with another nullability, over the same arguments. -/
def withNullability (nullable : Bool) : Expr → Revision
  | .call f args =>
      if f.nullable = nullable then .kept
      else .changed (.call { f with nullable } args) (args.map fun _ => true)
  | .niladic f =>
      if f.nullable = nullable then .kept else .changed (.niladic { f with nullable }) []
  | _ => .kept

end Expr

end SqlGen
