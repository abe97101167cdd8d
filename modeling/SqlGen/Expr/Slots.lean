import SqlGen.Expr.Equality

/-!
# Children of a node

A node keeps its children in *slots*.  Six shapes of slots cover all nodes: none,
one, two, a joined table with its predicate, an argument list that may be
absent, and the clauses of a select.  `Slots α s` fills the slots of shape `s`
with things of type `α`, so the same shape carries expressions, or what a visit
says about each of them.

`Expr.slots` reads the children of a node and `Expr.withSlots` puts others in
their place, with every other field kept.  `withSlots_slots` says that a node's own
children give the node.  Putting children in fails where the constructor of the node
would refuse them.
-/

namespace SqlGen

/-! ## Slots -/

/-- The arrangement of a node's children. -/
inductive Shape where
  | leaf
  | one
  | two
  | join
  | arguments
  | select
deriving DecidableEq, Repr

/-- Children of a shape, of any type. -/
inductive Slots (α : Type) : Shape → Type where
  | leaf : Slots α .leaf
  | one (x : α) : Slots α .one
  | two (left right : α) : Slots α .two
  | join (table : α) (predicate : Option α) : Slots α .join
  /-- The arguments of a call.  Having no list differs from having an empty one. -/
  | arguments (list : Option (List α)) : Slots α .arguments
  | select (clauses : Clauses α) : Slots α .select
deriving DecidableEq

namespace Slots

def toList {α : Type} {s : Shape} : Slots α s → List α
  | .leaf => []
  | .one x => [x]
  | .two l r => [l, r]
  | .join t p => t :: p.toList
  | .arguments list => list.getD []
  | .select c => c.toList

/-- The same slots with other contents. -/
def map {α β : Type} (f : α → β) {s : Shape} : Slots α s → Slots β s
  | .leaf => .leaf
  | .one x => .one (f x)
  | .two l r => .two (f l) (f r)
  | .join t p => .join (f t) (p.map f)
  | .arguments list => .arguments (list.map (List.map f))
  | .select c => .select (c.map f)

@[simp] theorem toList_map {α β : Type} (f : α → β) {s : Shape} (x : Slots α s) :
    (x.map f).toList = x.toList.map f := by
  cases x with
  | join t p => cases p <;> rfl
  | arguments list => cases list <;> rfl
  | select c => simp [map, toList]
  | _ => rfl

end Slots

/-! ## Numbered children -/

/-- The children of a select, each with its position among all of them. -/
def Clauses.number {α : Type} (c : Clauses α) : Clauses (α × Nat) :=
  let afterProjection := c.projection.length
  let afterTables := afterProjection + c.tables.length
  let afterPredicate := afterTables + c.predicate.toList.length
  let afterOrderings := afterPredicate + c.orderings.length
  let afterLimit := afterOrderings + c.limit.toList.length
  { projection := c.projection.zipIdx 0
    tables := c.tables.zipIdx afterProjection
    predicate := c.predicate.map fun x => (x, afterTables)
    orderings := c.orderings.zipIdx afterPredicate
    limit := c.limit.map fun x => (x, afterOrderings)
    offset := c.offset.map fun x => (x, afterLimit) }

/-- The children, each with its position. -/
def Slots.number {α : Type} {s : Shape} : Slots α s → Slots (α × Nat) s
  | .leaf => .leaf
  | .one x => .one (x, 0)
  | .two l r => .two (l, 0) (r, 1)
  | .join t p => .join (t, 0) (p.map fun x => (x, 1))
  | .arguments list => .arguments (list.map fun xs => xs.zipIdx 0)
  | .select c => .select c.number

theorem Clauses.toList_number {α : Type} (c : Clauses α) :
    c.number.toList = c.toList.zipIdx := by
  cases c with
  | mk p t w o l f =>
    cases w <;> cases l <;> cases f <;>
      simp [Clauses.number, Clauses.toList, List.zipIdx_append, Nat.add_assoc]

/-- Numbering the slots numbers the list of children. -/
theorem Slots.toList_number {α : Type} {s : Shape} (x : Slots α s) :
    x.number.toList = x.toList.zipIdx := by
  cases x with
  | join t p => cases p <;> rfl
  | arguments list => cases list <;> rfl
  | select c => exact c.toList_number
  | _ => rfl

/-! ## Visits -/

section Visits

variable {m : Type → Type} [Monad m] {α β : Type}

def visitOption (f : α → m β) : Option α → m (Option β)
  | none => pure none
  | some x => do return some (← f x)

def visitList (f : α → m β) : List α → m (List β)
  | [] => pure []
  | x :: xs => do
      let y ← f x
      return y :: (← visitList f xs)

/-- Visits the children of a select in the order of its clauses. -/
def Clauses.visit (f : α → m β) (c : Clauses α) : m (Clauses β) := do
  let projection ← visitList f c.projection
  let tables ← visitList f c.tables
  let predicate ← visitOption f c.predicate
  let orderings ← visitList f c.orderings
  let limit ← visitOption f c.limit
  let offset ← visitOption f c.offset
  return { projection, tables, predicate, orderings, limit, offset }

def Slots.visit (f : α → m β) {s : Shape} : Slots α s → m (Slots β s)
  | .leaf => pure .leaf
  | .one x => do return .one (← f x)
  | .two l r => do
      let l ← f l
      return .two l (← f r)
  | .join t p => do
      let t ← f t
      return .join t (← visitOption f p)
  | .arguments none => pure (.arguments none)
  | .arguments (some xs) => do return .arguments (some (← visitList f xs))
  | .select c => do return .select (← c.visit f)

end Visits

/-! ## The slots of an expression -/

namespace Expr

/-- The shape of a node's slots. -/
@[reducible] def shape : Expr → Shape
  | .call .. | .niladic _ => .arguments
  | .binary .. | .setOperation .. => .two
  | .unary .. | .projection .. | .ordering .. | .collate .. => .one
  | .join .. | .crossJoin _ => .join
  | .select _ => .select
  | _ => .leaf

/-- The children of a node, in their slots. -/
def slots : (e : Expr) → Slots Expr e.shape
  | .column .. | .constant .. | .parameter .. | .fragment _ | .table .. => .leaf
  | .call _ args => .arguments (some args)
  | .niladic _ => .arguments none
  | .binary _ l r _ => .two l r
  | .unary _ e _ | .projection e _ | .ordering e _ | .collate e _ => .one e
  | .join _ t p => .join t (some p)
  | .crossJoin t => .join t none
  | .select q => .select q.toClauses
  | .setOperation _ _ l r _ => .two (.select l) (.select r)

/-- The children of a node in order. -/
def children (e : Expr) : List Expr := e.slots.toList

/-- The node with other children.  Each condition of a constructor is checked again. -/
def withSlots : (e : Expr) → Slots Expr e.shape → Except Violation Expr
  | .call f _, .arguments (some args) => call? f args
  | .call f _, .arguments none => .ok (.niladic f)
  | .niladic f, .arguments (some args) => call? f args
  | .niladic f, .arguments none => .ok (.niladic f)
  | .binary op _ _ t, .two l r => .ok (.binary op l r t)
  | .unary op _ t, .one e => .ok (.unary op e t)
  | .projection _ a, .one e => .ok (.projection e a)
  | .ordering _ a, .one e => .ok (.ordering e a)
  | .collate _ c, .one e => .ok (.collate e c)
  | .join k _ _, .join t p => join? (some k) t p
  | .crossJoin _, .join t p => join? none t p
  | .select q, .select c => .ok (.select { q with toClauses := c })
  | .setOperation op a _ _ d, .two l r => do
      let l ← l.asSelect
      let r ← r.asSelect
      return .setOperation op a l r d
  | .column n a t u, .leaf => .ok (.column n a t u)
  | .constant v t, .leaf => .ok (.constant v t)
  | .parameter n t u, .leaf => .ok (.parameter n t u)
  | .fragment s, .leaf => .ok (.fragment s)
  | .table n a, .leaf => .ok (.table n a)

/-- A call has a flag for each of its arguments. -/
def FlagsMatch : Expr → Prop
  | .call f args => args.length = f.propagates.length
  | _ => True

/-- A node with its own children is the node. -/
theorem withSlots_slots {e : Expr} (h : e.FlagsMatch) : e.withSlots e.slots = .ok e := by
  cases e with
  | call f args =>
    have h' : args.length = f.propagates.length := h
    simp [slots, withSlots, call?, h']
  | _ => rfl

end Expr

end SqlGen
