import SqlGen.Pass.Revision

/-!
# Passes over a tree

A pass says for a node whether it is replaced without a look inside, and what
becomes of it once its children have been revised.  `Expr.revise` runs a pass
over a whole tree.  It recurs on the tree through companions for the
containers; `revise_eq` says that it is one step on every node: replace the node, or
visit its children and finish it.
-/

namespace SqlGen

/-- A rule for the nodes of a tree. -/
structure Pass where
  /-- What a node is replaced by, if the pass does not look inside. -/
  replace : Expr → Option Expr := fun _ => none
  /-- What becomes of a node whose children have been revised. -/
  finish : Expr → Revision := fun _ => .kept

def Pass.identity : Pass where

namespace Expr

/-- The work on one node, given the offers of its children. -/
def step (p : Pass) (e : Expr) (parts : Unit → Except Violation (Slots Part e.shape)) :
    Except Violation Revision :=
  match p.replace e with
  | some result => .ok (.changed result [])
  | none => do
      let visited ← e.update (← parts ())
      return visited.andThen (p.finish (visited.of e))

mutual

/-- Runs a pass over a tree. -/
def revise (p : Pass) : Expr → Except Violation Revision
  | .column n a t u => step p (.column n a t u) fun _ => pure .leaf
  | .constant v t => step p (.constant v t) fun _ => pure .leaf
  | .parameter n t u => step p (.parameter n t u) fun _ => pure .leaf
  | .fragment s => step p (.fragment s) fun _ => pure .leaf
  | .table n a => step p (.table n a) fun _ => pure .leaf
  | .niladic f => step p (.niladic f) fun _ => pure (.arguments none)
  | .call f args => step p (.call f args) fun _ => do
      return .arguments (some (← offerList p 0 args))
  | .binary op l r t => step p (.binary op l r t) fun _ => do
      let l' ← revise p l
      return .two (.ofVisit l 0 l') (.ofVisit r 1 (← revise p r))
  | .unary op e t => step p (.unary op e t) fun _ => do
      return .one (.ofVisit e 0 (← revise p e))
  | .projection e a => step p (.projection e a) fun _ => do
      return .one (.ofVisit e 0 (← revise p e))
  | .ordering e a => step p (.ordering e a) fun _ => do
      return .one (.ofVisit e 0 (← revise p e))
  | .collate e c => step p (.collate e c) fun _ => do
      return .one (.ofVisit e 0 (← revise p e))
  | .join k t w => step p (.join k t w) fun _ => do
      let t' ← revise p t
      return .join (.ofVisit t 0 t') (some (.ofVisit w 1 (← revise p w)))
  | .crossJoin t => step p (.crossJoin t) fun _ => do
      return .join (.ofVisit t 0 (← revise p t)) none
  | .select q => reviseSelect p q
  | .setOperation op a l r d => step p (.setOperation op a l r d) fun _ => do
      let l' ← reviseSelect p l
      return .two (.ofVisit (.select l) 0 l') (.ofVisit (.select r) 1 (← reviseSelect p r))
termination_by structural e => e

/-- What each expression of a list offers, the first one at position `position`. -/
def offerList (p : Pass) (position : Nat) : List Expr → Except Violation (List Part)
  | [] => pure []
  | e :: rest => do
      let r ← revise p e
      return .ofVisit e position r :: (← offerList p (position + 1) rest)
termination_by structural es => es

/-- What an optional expression offers. -/
def offerOption (p : Pass) (position : Nat) : Option Expr → Except Violation (Option Part)
  | none => pure none
  | some e => do return some (.ofVisit e position (← revise p e))
termination_by structural e => e

/-- Runs a pass over a select. -/
def reviseSelect (p : Pass) : Select Expr → Except Violation Revision
  | ⟨⟨i, t, w, o, l, f⟩, d⟩ => step p (.select ⟨⟨i, t, w, o, l, f⟩, d⟩) fun _ => do
      let afterItems := i.length
      let afterTables := afterItems + t.length
      let afterPredicate := afterTables + w.toList.length
      let afterOrderings := afterPredicate + o.length
      let afterLimit := afterOrderings + l.toList.length
      let i' ← offerList p 0 i
      let t' ← offerList p afterItems t
      let w' ← offerOption p afterTables w
      let o' ← offerList p afterPredicate o
      let l' ← offerOption p afterOrderings l
      let f' ← offerOption p afterLimit f
      return .select ⟨i', t', w', o', l', f'⟩
termination_by structural q => q

end

/-! ## One step on every node -/

/-- What the child at a position offers. -/
def offer (p : Pass) (child : Expr × Nat) : Except Violation Part := do
  return .ofVisit child.1 child.2 (← revise p child.1)

theorem offerList_eq (p : Pass) (es : List Expr) (position : Nat) :
    offerList p position es = visitList (offer p) (es.zipIdx position) := by
  induction es generalizing position with
  | nil => rfl
  | cons e rest ih =>
      simp only [offerList, List.zipIdx_cons, visitList, offer, ih, bind_assoc, pure_bind]

theorem offerOption_eq (p : Pass) (e : Option Expr) (position : Nat) :
    offerOption p position e = visitOption (offer p) (e.map fun x => (x, position)) := by
  cases e with
  | none => rfl
  | some e => simp [offerOption, visitOption, offer]

theorem reviseSelect_eq (p : Pass) (q : Select Expr) :
    reviseSelect p q =
      step p (.select q) fun _ => (Expr.select q).slots.number.visit (offer p) := by
  obtain ⟨⟨i, t, w, o, l, f⟩, d⟩ := q
  rw [reviseSelect]
  refine congrArg (step p _) (funext fun _ => ?_)
  simp only [slots, Slots.number, Slots.visit, Clauses.number, Clauses.visit, offerList_eq,
    offerOption_eq, bind_assoc, pure_bind]

/-- Running a pass is one step on the node, with the pass run over its children. -/
theorem revise_eq (p : Pass) (e : Expr) :
    e.revise p = e.step p fun _ => e.slots.number.visit (offer p) := by
  cases e with
  | select q => rw [revise, reviseSelect_eq]
  | _ =>
    rw [revise]
    refine congrArg (step p _) (funext fun _ => ?_)
    simp only [slots, Slots.number, Slots.visit, offer, offerList_eq, visitOption, Option.map,
      revise, bind_assoc, pure_bind]

end Expr

end SqlGen
