import SqlGen.Proofs.Pass.Children

/-!
# Copies

`Expr.head` is a node without its children: its own fields and how many children stand where.
`Expr.at?` follows a path of child positions.  A tree is a copy of another one if the nodes at every
path have the same head, `Expr.IsCopy`, so a tree that has been built a second time node by node is
a copy.  A node is determined by its head and its children (`Expr.eq_of_head_eq`), and a copy is the
same tree (`Expr.isCopy_iff`).
-/

namespace SqlGen

/-- Clauses with as many children in each place are the same if the children are. -/
theorem Clauses.eq_of_map_eq {α β : Type} {f g : α → β} {c c' : Clauses α}
    (places : c.map f = c'.map g) (children : c.toList = c'.toList) : c = c' := by
  obtain ⟨i, t, w, o, l, s⟩ := c
  obtain ⟨i', t', w', o', l', s'⟩ := c'
  obtain ⟨-, tables, predicate, orderings, limit, offset⟩ := Clauses.mk.inj places
  have inList {xs ys : List α} (h : xs.map f = ys.map g) : xs.length = ys.length := by
    simpa using congrArg List.length h
  have inOption {x y : Option α} (h : x.map f = y.map g) :
      x.toList.length = y.toList.length := by
    cases x <;> cases y <;> simp_all
  have ofList {x y : Option α} (h : x.toList = y.toList) : x = y := by
    cases x <;> cases y <;> simp_all
  have whole : i ++ t ++ w.toList ++ o ++ l.toList ++ s.toList =
      i' ++ t' ++ w'.toList ++ o' ++ l'.toList ++ s'.toList := children
  obtain ⟨toLimit, offsets⟩ := List.append_inj' whole (inOption offset)
  obtain ⟨toOrderings, limits⟩ := List.append_inj' toLimit (inOption limit)
  obtain ⟨toPredicate, rfl⟩ := List.append_inj' toOrderings (inList orderings)
  obtain ⟨toTables, predicates⟩ := List.append_inj' toPredicate (inOption predicate)
  obtain ⟨rfl, rfl⟩ := List.append_inj' toTables (inList tables)
  obtain rfl := ofList offsets
  obtain rfl := ofList limits
  obtain rfl := ofList predicates
  rfl

namespace Expr

/-! ## Nodes without their children -/

/-- What stands where a child was. -/
def blank : Expr := .fragment ""

/-- A node with blanks in the place of its children. -/
def head : Expr → Expr
  | .call f args => .call f (args.map fun _ => blank)
  | .binary op _ _ t => .binary op blank blank t
  | .unary op _ t => .unary op blank t
  | .join k _ _ => .join k blank blank
  | .crossJoin _ => .crossJoin blank
  | .projection _ a => .projection blank a
  | .ordering _ ascending => .ordering blank ascending
  | .select q => .select { q with toClauses := q.toClauses.map fun _ => blank }
  | .setOperation op a _ _ distinct => .setOperation op a { tables := [] } { tables := [] } distinct
  | .collate _ c => .collate blank c
  | e => e

theorem length_children_head (e : Expr) : e.head.children.length = e.children.length := by
  cases e with
  | call f args => simp [head, children, slots, Slots.toList]
  | select q => simp [head, children, slots, Slots.toList]
  | _ => rfl

/-- A node is determined by its head and its children. -/
theorem eq_of_head_eq {x y : Expr} (heads : x.head = y.head) (same : x.children = y.children) :
    x = y := by
  cases x with
  | select q =>
      cases y with
      | select q' =>
          obtain ⟨places, distinct⟩ := Select.mk.inj (Expr.select.inj heads)
          have clauses : q.toClauses = q'.toClauses := Clauses.eq_of_map_eq places same
          obtain ⟨c, d⟩ := q
          obtain rfl : c = q'.toClauses := clauses
          obtain rfl : d = q'.distinct := distinct
          rfl
      | _ => cases heads
  | _ => cases y <;> simp_all [head, children, slots, Slots.toList]

/-! ## Paths -/

/-- The node of a tree at a path of child positions. -/
def at? : List Nat → Expr → Option Expr
  | [], e => some e
  | i :: path, e => e.children[i]?.bind (at? path)

@[simp] theorem at?_nil (e : Expr) : at? [] e = some e := rfl

theorem at?_cons {i : Nat} {e : Expr} (h : i < e.children.length) (path : List Nat) :
    at? (i :: path) e = at? path e.children[i] := by
  rw [at?, List.getElem?_eq_getElem h]
  rfl

/-- A path leads to nodes with the same head in both trees, or to none in both. -/
def IsCopy (x y : Expr) : Prop := ∀ path, (at? path x).map head = (at? path y).map head

theorem IsCopy.head_eq {x y : Expr} (h : x.IsCopy y) : x.head = y.head := Option.some.inj (h [])

theorem length_children_eq {x y : Expr} (heads : x.head = y.head) :
    x.children.length = y.children.length := by
  rw [← length_children_head x, heads, length_children_head]

theorem IsCopy.child {x y : Expr} (h : x.IsCopy y) {i : Nat} (hx : i < x.children.length)
    (hy : i < y.children.length) : x.children[i].IsCopy y.children[i] := by
  intro path
  have whole := h (i :: path)
  rwa [at?_cons hx, at?_cons hy] at whole

/-- A copy is the same tree. -/
theorem isCopy_iff {x y : Expr} : x.IsCopy y ↔ x = y := by
  constructor
  · intro copy
    induction x using induction_children generalizing y with
    | node x ih =>
        refine eq_of_head_eq copy.head_eq (List.ext_getElem (length_children_eq copy.head_eq) ?_)
        intro i hx hy
        exact ih _ (List.getElem_mem hx) (copy.child hx hy)
  · rintro rfl path
    rfl

end Expr

end SqlGen
