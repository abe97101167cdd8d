import SqlGen.Proofs.Pass.NormalForm

/-!
# Sequences of passes

A node with other children is refused in three places: a call that has not one flag for each
argument, a join of rows that compare without a predicate or a join of all rows with one, and a set
operation of something else than selects.  `Expr.Accepts` says when a node refuses nothing.

Both passes of the library put constants in the place of calls, tests and parameters, wherever these
stand.  A select, a join or a set operation is never replaced, so no place of a child turns into one
that its node refuses.  What a pass makes of an obtainable tree is obtainable, and calls in
obtainable trees have their flags, so the next pass finds what the one before has found
(`Expr.reviseAll_ok`).
-/

namespace SqlGen

/-! ## Passes one after another -/

/-- A pass of the library. -/
inductive Rewriting where
  | simplify
  | inline (b : Builder) (values : Bindings)

def Rewriting.pass : Rewriting → Pass
  | .simplify => .nullability
  | .inline b values => .inline b values

theorem Rewriting.keepsSelects (p : Rewriting) : p.pass.KeepsSelects := by
  cases p with
  | simplify => exact Pass.keepsSelects_nullability
  | inline b values => exact Pass.keepsSelects_inline b values

namespace Expr

/-- Runs passes one after another, each over what the one before has made. -/
def reviseAll : List Pass → Expr → Except Violation Expr
  | [], e => .ok e
  | p :: rest, e => do
      let r ← e.revise p
      reviseAll rest (r.of e)

theorem keeps_rewriting {removable : Function → Prop} (p : Rewriting) :
    p.pass.Keeps (Obtainable removable) := by
  cases p with
  | simplify => exact keeps_nullability
  | inline b values => exact keeps_inline b values

/-! ## Trees that can be built -/

theorem FlagsMatch.withSlots {e e' : Expr} {x : Slots Expr e.shape}
    (rebuilt : e.withSlots x = .ok e') : e'.FlagsMatch := by
  have own := (own_of_withSlots rebuilt).1
  cases e with
  | call f args | niladic f =>
      cases x with
      | arguments list =>
          cases list with
          | none =>
              obtain rfl := Except.ok.inj rebuilt
              trivial
          | some args' =>
              obtain ⟨length, rfl⟩ := call?_eq_ok rebuilt
              exact length
  | _ => cases e' <;> trivial

/-- A call that has an argument list has its flags, whichever calls may lose theirs. -/
theorem Obtainable.allFlagsMatch {removable : Function → Prop} {e : Expr}
    (h : Obtainable removable e) : e.AllFlagsMatch := by
  refine h.forall_within (fun e other => ?node) (fun _ _ length => length) (fun _ _ => trivial)
    (fun s e flags => ?schema) (fun b _ flags => flags.withNullability b)
    fun e e' x _ rebuilt _ => .withSlots rebuilt
  case node =>
    cases e with
    | call f args => cases other
    | _ => trivial
  case schema => cases e <;> exact flags

/-- If every call may lose its argument list, nothing else is asked of a tree. -/
theorem obtainable_iff {e : Expr} : Obtainable (fun _ => True) e ↔ e.AllFlagsMatch := by
  refine ⟨Obtainable.allFlagsMatch, fun flags => ?_⟩
  induction e using induction_children with
  | node e ih =>
      have children (c : Expr) (mem : c ∈ e.children) := ih c mem (flags.child mem)
      cases e with
      | call f args =>
          have length : args.length = f.propagates.length := flags _ .self
          obtain ⟨name, schema, nullable, propagates, typing⟩ := f
          let unqualified : Function := ⟨name, none, nullable, propagates, typing⟩
          have made : call? unqualified args = .ok (.call unqualified args) := if_pos length
          have call : Obtainable (fun _ => True) (.call unqualified args) := .call rfl children made
          cases schema with
          | none => exact call
          | some schema => exact call.withSchema schema
      | niladic f => exact .removed trivial
      | _ => exact .node rfl children

/-! ## Nodes that refuse nothing -/

/-- A pass that goes into the node finds children that the node accepts.  They leave the own fields
of the node, which is then finished. -/
def IsRebuiltBy (p : Pass) (e : Expr) : Prop :=
  e.Accepts (e.slots.map (after p)) ∧
    ∃ e', e.withSlots (e.slots.map (after p)) = .ok e' ∧ e'.own = e.own ∧
      e.after p = (p.finish e').of e'

theorem isRebuiltBy {p : Pass} (keeps : p.KeepsSelects) {e : Expr} (flags : e.AllFlagsMatch)
    (inside : p.replace e = none) : e.IsRebuiltBy p := by
  obtain ⟨e', rebuilt, after⟩ := exists_after keeps flags inside
  exact ⟨accepts_of_withSlots rebuilt, e', rebuilt, (own_of_withSlots rebuilt).1, after⟩

/-- No sequence of passes fails on a tree that can be built.

The tree that it makes can be built too.  Its calls have a flag for each argument, those without an
argument list as long as only calls without flags may lose theirs.  When yet another pass comes to
a node of that tree, the node accepts its children after the pass: as many arguments as flags, a
predicate for a join of rows that compare and none for a join of all rows, selects for a set
operation. -/
theorem reviseAll_ok {removable : Function → Prop} {e : Expr} (h : Obtainable removable e)
    (ps : List Rewriting) :
    ∃ x, reviseAll (ps.map Rewriting.pass) e = .ok x ∧ Obtainable removable x ∧
      x.AllFlagsMatch ∧ ((∀ f, removable f → f.propagates = []) → x.FlagsComplete) ∧
      ∀ (p : Rewriting) (y : Expr), y.Within x → p.pass.replace y = none →
        y.IsRebuiltBy p.pass := by
  induction ps generalizing e with
  | nil =>
      have flags := h.allFlagsMatch
      refine ⟨e, rfl, h, flags, fun noFlags => h.flagsComplete noFlags, fun p y within => ?_⟩
      exact isRebuiltBy p.keepsSelects fun z below => flags z (below.trans within)
  | cons p rest ih =>
      obtain ⟨r, revised, -⟩ := revise_ok p.keepsSelects h.allFlagsMatch
      obtain ⟨x, made, result⟩ := ih (Obtainable.stable.revise (keeps_rewriting p) h revised)
      refine ⟨x, ?_, result⟩
      rw [List.map_cons, reviseAll, revised]
      exact made

/-! ## Joins under a union -/

/-- The rows of `… FROM "Blogs" AS "b" INNER JOIN "Posts" AS "p" ON … CROSS JOIN "Tags" AS "t"`. -/
def taggedPosts (predicate : Expr) : Select Expr where
  tables := [.table ⟨"Blogs", none⟩ "b", .join .inner (.table ⟨"Posts", none⟩ "p") predicate,
    .crossJoin (.table ⟨"Tags", none⟩ "t")]

/-- The union of these rows, joined on `abs(@rating) IS NOT NULL`, and of all the blogs. -/
def ratedOrAll : Expr :=
  .setOperation .union "u"
    (taggedPosts (.unary .isNotNull
      (.call (absolute true) [.parameter "rating" ⟨.int64, none⟩ true]) ⟨.boolean, none⟩))
    { tables := [.table ⟨"Blogs", none⟩ "b"] } false

/-- The same union, joined on `TRUE`. -/
def trueOrAll : Expr :=
  .setOperation .union "u" (taggedPosts (.constant (.boolean true) ⟨.boolean, none⟩))
    { tables := [.table ⟨"Blogs", none⟩ "b"] } false

theorem obtainable_ratedOrAll : Obtainable (fun f => f.propagates = []) ratedOrAll := by
  have leaf {e : Expr} (other : e.isCall = false) (none : e.children = []) :
      Obtainable (fun f => f.propagates = []) e :=
    .node other fun c mem => nomatch none ▸ mem
  have call : Obtainable (fun f => f.propagates = [])
      (.call (absolute true) [.parameter "rating" ⟨.int64, none⟩ true]) := by
    have made : call? (absolute true) [.parameter "rating" ⟨.int64, none⟩ true] = .ok _ := rfl
    refine .call rfl (fun a mem => ?_) made
    obtain rfl := List.mem_singleton.mp mem
    exact leaf rfl rfl
  have tagged {predicate : Expr} (h : Obtainable (fun f => f.propagates = []) predicate) :
      Obtainable (fun f => f.propagates = []) (.select (taggedPosts predicate)) := by
    refine .node rfl fun c mem => ?_
    have oneOf : c = .table ⟨"Blogs", none⟩ "b" ∨
        c = .join .inner (.table ⟨"Posts", none⟩ "p") predicate ∨
        c = .crossJoin (.table ⟨"Tags", none⟩ "t") := by
      simpa [children, slots, Slots.toList, Clauses.toList, taggedPosts] using mem
    rcases oneOf with rfl | rfl | rfl
    · exact leaf rfl rfl
    · refine .node rfl fun c mem => ?_
      rcases List.mem_pair.mp mem with rfl | rfl
      · exact leaf rfl rfl
      · exact h
    · refine .node rfl fun c mem => ?_
      obtain rfl := List.mem_singleton.mp mem
      exact leaf rfl rfl
  refine .node rfl fun c mem => ?_
  rcases List.mem_pair.mp mem with rfl | rfl
  · refine tagged (.node rfl fun c mem => ?_)
    obtain rfl := List.mem_singleton.mp mem
    exact call
  · refine .node rfl fun c mem => ?_
    obtain rfl := List.mem_singleton.mp mem
    exact leaf rfl rfl

/-- Once the parameter has a value the call is never NULL, and the condition of the join is a truth
value in its place. -/
theorem reviseAll_ratedOrAll :
    Obtainable (fun f => f.propagates = []) ratedOrAll ∧
      reviseAll [.inline .ansi [("rating", .integer 5)], .nullability] ratedOrAll = .ok trueOrAll ∧
      trueOrAll.FlagsComplete ∧ trueOrAll.IsRebuiltBy .nullability := by
  obtain ⟨x, made, -, -, complete, rebuilt⟩ := reviseAll_ok obtainable_ratedOrAll
    [.inline .ansi [("rating", .integer 5)], .simplify]
  have result : reviseAll [.inline .ansi [("rating", .integer 5)], .nullability] ratedOrAll =
      .ok trueOrAll := rfl
  obtain rfl := Except.ok.inj (result.symm.trans made)
  have flags : trueOrAll.FlagsComplete := complete fun _ noFlags => noFlags
  exact ⟨obtainable_ratedOrAll, result, flags, rebuilt .simplify _ .self rfl⟩

end Expr

end SqlGen
