import Mathlib.Tactic.Common
import SqlGen.Expr.Slots

/-!
# Nodes below a node

The children of a node are smaller than the node, so a property of all expressions may be shown
for a node from the same property of its children (`Expr.induction_children`).  `Expr.Within` says
that a node stands somewhere in a tree.
-/

namespace SqlGen

/-! ## Children are smaller -/

namespace Clauses

theorem mem_toList {α : Type} {c : Clauses α} {x : α} :
    x ∈ c.toList ↔ x ∈ c.projection ∨ x ∈ c.tables ∨ c.predicate = some x ∨ x ∈ c.orderings ∨
      c.limit = some x ∨ c.offset = some x := by
  simp only [toList, List.mem_append, Option.mem_toList]
  tauto

theorem sizeOf_lt_of_mem {c : Clauses Expr} {x : Expr} (h : x ∈ c.toList) :
    sizeOf x < sizeOf c := by
  have inList {xs : List Expr} (mem : x ∈ xs) : sizeOf x < sizeOf xs := List.sizeOf_lt_of_mem mem
  have inOption {o : Option Expr} (mem : o = some x) : sizeOf x < sizeOf o := by
    subst mem
    simp
  obtain ⟨i, t, w, o, l, f⟩ := c
  simp only [mem_toList] at h
  simp only [mk.sizeOf_spec]
  rcases h with mem | mem | mem | mem | mem | mem
  · have := inList mem
    omega
  · have := inList mem
    omega
  · have := inOption mem
    omega
  · have := inList mem
    omega
  · have := inOption mem
    omega
  · have := inOption mem
    omega

end Clauses

namespace Expr

theorem sizeOf_select_pos (q : Select Expr) : 0 < sizeOf q := by
  cases q
  simp

theorem sizeOf_lt_of_mem_children {x e : Expr} (h : x ∈ e.children) : sizeOf x < sizeOf e := by
  cases e with
  | column n a t u => cases h
  | constant v t => cases h
  | parameter n t u => cases h
  | fragment s => cases h
  | niladic f => cases h
  | table n a => cases h
  | call f args =>
      have := List.sizeOf_lt_of_mem (show x ∈ args from h)
      simp only [call.sizeOf_spec]
      omega
  | binary op l r t =>
      have mem : x = l ∨ x = r := by simpa [children, slots, Slots.toList] using h
      rcases mem with rfl | rfl <;> simp only [binary.sizeOf_spec] <;> omega
  | unary op e t =>
      obtain rfl := List.mem_singleton.mp h
      simp only [unary.sizeOf_spec]
      omega
  | join k t p =>
      have mem : x = t ∨ x = p := by simpa [children, slots, Slots.toList] using h
      rcases mem with rfl | rfl <;> simp only [join.sizeOf_spec] <;> omega
  | crossJoin t =>
      obtain rfl := List.mem_singleton.mp h
      simp only [crossJoin.sizeOf_spec]
      omega
  | projection e a =>
      obtain rfl := List.mem_singleton.mp h
      simp only [projection.sizeOf_spec]
      omega
  | ordering e a =>
      obtain rfl := List.mem_singleton.mp h
      simp only [ordering.sizeOf_spec]
      omega
  | select q =>
      obtain ⟨c, d⟩ := q
      have := Clauses.sizeOf_lt_of_mem (show x ∈ c.toList from h)
      simp only [select.sizeOf_spec, Select.mk.sizeOf_spec]
      omega
  | setOperation op a l r d =>
      have mem : x = .select l ∨ x = .select r := by
        simpa [children, slots, Slots.toList] using h
      have left := sizeOf_select_pos l
      have right := sizeOf_select_pos r
      rcases mem with rfl | rfl <;> simp only [select.sizeOf_spec, setOperation.sizeOf_spec] <;>
        omega
  | collate e c =>
      obtain rfl := List.mem_singleton.mp h
      simp only [collate.sizeOf_spec]
      omega

/-- A recursion over the children, without the proofs that they are children. -/
theorem flatMap_attach_children {α : Type} (e : Expr) (f : Expr → List α) :
    (e.children.attach.flatMap fun c => f c.1) = e.children.flatMap f := by
  rw [← List.flatMap_map, List.attach_map_subtype_val]

/-- A property of all expressions, shown for a node from the property of its children. -/
theorem induction_children {motive : Expr → Prop}
    (node : ∀ e, (∀ c ∈ e.children, motive c) → motive e) (e : Expr) : motive e :=
  node e fun c _ => induction_children node c
termination_by sizeOf e
decreasing_by exact sizeOf_lt_of_mem_children ‹_›

/-! ## Nodes of a tree -/

/-- A node stands in a tree. -/
inductive Within (x : Expr) : Expr → Prop where
  | self : Within x x
  | child {c e : Expr} (mem : c ∈ e.children) (below : Within x c) : Within x e

theorem Within.trans {x y z : Expr} (hxy : x.Within y) (hyz : y.Within z) : x.Within z := by
  induction hyz with
  | self => exact hxy
  | child mem _ ih => exact .child mem ih

theorem Within.of_mem_children {c e root : Expr} (h : e.Within root) (mem : c ∈ e.children) :
    c.Within root := (Within.child mem .self).trans h

theorem within_iff {x e : Expr} : x.Within e ↔ x = e ∨ ∃ c ∈ e.children, x.Within c := by
  constructor
  · intro h
    cases h with
    | self => exact .inl rfl
    | child mem below => exact .inr ⟨_, mem, below⟩
  · rintro (rfl | ⟨c, mem, below⟩)
    · exact .self
    · exact .child mem below

/-- Every call of the tree that has an argument list has a flag for each argument. -/
def AllFlagsMatch (root : Expr) : Prop := ∀ e : Expr, e.Within root → e.FlagsMatch

theorem AllFlagsMatch.child {c e : Expr} (h : e.AllFlagsMatch) (mem : c ∈ e.children) :
    c.AllFlagsMatch := fun x below => h x (.child mem below)

theorem AllFlagsMatch.of_children {e : Expr} (node : e.FlagsMatch)
    (children : ∀ c ∈ e.children, c.AllFlagsMatch) : e.AllFlagsMatch := by
  intro x within
  rcases within_iff.mp within with rfl | ⟨c, mem, below⟩
  · exact node
  · exact children c mem x below

theorem AllFlagsMatch.of_leaf {e : Expr} (leaf : e.children = []) (node : e.FlagsMatch) :
    e.AllFlagsMatch := .of_children node fun _ mem => nomatch leaf ▸ mem

end Expr

end SqlGen
