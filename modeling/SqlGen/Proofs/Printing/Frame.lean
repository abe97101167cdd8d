import Mathlib.Logic.Function.Iterate
import SqlGen.Proofs.Layout
import SqlGen.Proofs.Pass.Children

/-!
# Frames

A frame is a node with a hole in the place of one of its children, and a list of frames, the
innermost one first, is a tree with a hole.  `Frame.fill` and `Expr.plug` put an expression there.
Only a select can be put where a set operation has a source.

A tree prints what is in the hole at one place (`Doc.Places`), behind the same text and in front of
the same text for everything that is put there.  The innermost frame decides whether it stands
between parentheses (`Expr.doc_plug`).
-/

namespace SqlGen

/-! ## One place in a document -/

namespace Doc

/-- A document that takes in another one at one place, where it may be indented. -/
def Places (F : Doc → Doc) : Prop :=
  ∃ before after depth, ∀ x, F x = before ++ indent^[depth] x ++ after

theorem iterate_indent_append (depth : Nat) (a b : Doc) :
    indent^[depth] (a ++ b) = indent^[depth] a ++ indent^[depth] b := by
  induction depth generalizing a b with
  | zero => rfl
  | succ depth ih => rw [Function.iterate_succ_apply, indent_append, ih]; rfl

theorem length_iterate_indent (depth : Nat) (d : Doc) : (indent^[depth] d).length = d.length := by
  induction depth generalizing d with
  | zero => rfl
  | succ depth ih => rw [Function.iterate_succ_apply, ih, indent, List.length_map]

theorem iterate_indent_text (depth : Nat) (s : String) :
    indent^[depth] (text s) = [⟨depth, .text s⟩] := by
  induction depth with
  | zero => rfl
  | succ depth ih => rw [Function.iterate_succ_apply', ih]; rfl

namespace Places

variable {F G : Doc → Doc}

theorem hole : Places fun x => x := ⟨[], [], 0, fun x => by simp⟩

theorem append_left (h : Places F) (a : Doc) : Places fun x => a ++ F x := by
  obtain ⟨before, after, depth, same⟩ := h
  exact ⟨a ++ before, after, depth, fun x => by simp only [same, List.append_assoc]⟩

theorem append_right (h : Places F) (a : Doc) : Places fun x => F x ++ a := by
  obtain ⟨before, after, depth, same⟩ := h
  exact ⟨before, after ++ a, depth, fun x => by simp only [same, List.append_assoc]⟩

theorem indent (h : Places F) : Places fun x => Doc.indent (F x) := by
  obtain ⟨before, after, depth, same⟩ := h
  refine ⟨Doc.indent before, Doc.indent after, depth + 1, fun x => ?_⟩
  simp only [same, indent_append, Function.iterate_succ_apply']

theorem comp (hG : Places G) (hF : Places F) : Places fun x => G (F x) := by
  obtain ⟨before, after, depth, same⟩ := hF
  obtain ⟨before', after', depth', same'⟩ := hG
  refine ⟨before' ++ Doc.indent^[depth'] before, Doc.indent^[depth'] after ++ after',
    depth' + depth, fun x => ?_⟩
  simp only [same', same, iterate_indent_append, Function.iterate_add_apply, List.append_assoc]

theorem encloseIf (h : Places F) (needed : Bool) : Places fun x => Doc.encloseIf needed (F x) := by
  cases needed with
  | false => exact h
  | true => exact (h.append_left (text "(")).append_right (text ")")

theorem separate (h : Places F) (separator : Doc) (before after : List Doc) :
    Places fun x => Doc.separate separator (before ++ F x :: after) := by
  induction before with
  | nil =>
      cases after with
      | nil => exact h
      | cons a rest =>
          exact (h.append_right separator).append_right (Doc.separate separator (a :: rest))
  | cons b rest ih =>
      cases rest with
      | nil => exact ih.append_left (b ++ separator)
      | cons c rest => exact ih.append_left (b ++ separator)

end Places

end Doc

/-! ## One place in a select -/

namespace Expr

open Doc (Places text line)

variable (before after : List Doc)

theorem places_listDoc : Places fun x => listDoc (before ++ x :: after) := by
  simpa [listDoc] using Places.hole.separate comma before after

theorem places_tablesDoc : Places fun x => tablesDoc (before ++ x :: after) := by
  cases before with
  | nil => exact (Places.hole.append_left _).append_right _
  | cons b rest =>
      have joins : Places fun x => (rest ++ x :: after).flatMap (line ++ ·) := by
        simp only [List.flatMap_append, List.flatMap_cons]
        exact ((Places.hole.append_left _).append_right _).append_left _
      exact joins.append_left _

theorem places_orderDoc : Places fun x => orderDoc (before ++ x :: after) := by
  have list := (Places.hole.separate comma before after).append_left (line ++ text "ORDER BY ")
  simpa [orderDoc] using list

theorem places_limit (d : Dialect) (offset : Option Doc) :
    Places fun x => limitDoc d (some x) offset := by
  cases offset with
  | none => exact Places.hole.append_left _
  | some offset => exact ((Places.hole.append_left _).append_right _).append_right _

theorem places_offset (d : Dialect) (limit : Option Doc) :
    Places fun x => limitDoc d limit (some x) := by
  cases limit with
  | none => exact Places.hole.append_left _
  | some limit => exact Places.hole.append_left _

theorem places_leftSource (op : SetOp) (tableAlias : String) (right : Doc) (distinct : Bool) :
    Places fun x => setOperationDoc op tableAlias x right distinct := by
  have inside := ((((Places.hole.append_right line).append_right (text op.keyword)).append_right
    (if distinct then [] else text " ALL")).append_right line).append_right right
  exact (((inside.indent.append_left _).append_right _).append_right _).append_right _

theorem places_rightSource (op : SetOp) (tableAlias : String) (left : Doc) (distinct : Bool) :
    Places fun x => setOperationDoc op tableAlias left x distinct := by
  have inside := Places.hole.append_left
    (left ++ line ++ text op.keyword ++ (if distinct then [] else text " ALL") ++ line)
  exact (((inside.indent.append_left _).append_right _).append_right _).append_right _

end Expr

/-- The clause of a select that a child stands in, with its neighbours there. -/
inductive Clause (α : Type) where
  | item (before after : List α)
  | source (before after : List α)
  | predicate
  | ordering (before after : List α)
  | limit
  | offset

namespace Clause

variable {α β : Type}

/-- The clauses with a child at the place. -/
def fill (k : Clause α) (c : Clauses α) (x : α) : Clauses α :=
  match k with
  | .item before after => { c with projection := before ++ x :: after }
  | .source before after => { c with tables := before ++ x :: after }
  | .predicate => { c with predicate := some x }
  | .ordering before after => { c with orderings := before ++ x :: after }
  | .limit => { c with limit := some x }
  | .offset => { c with offset := some x }

def map (f : α → β) : Clause α → Clause β
  | .item before after => .item (before.map f) (after.map f)
  | .source before after => .source (before.map f) (after.map f)
  | .predicate => .predicate
  | .ordering before after => .ordering (before.map f) (after.map f)
  | .limit => .limit
  | .offset => .offset

theorem map_fill (f : α → β) (k : Clause α) (c : Clauses α) (x : α) :
    (k.fill c x).map f = (k.map f).fill (c.map f) (f x) := by
  cases k <;> simp [fill, map, Clauses.map]

/-- Every child of a select stands in one of its clauses. -/
theorem exists_fill_of_mem {c : Clauses α} {x : α} (h : x ∈ c.toList) :
    ∃ k : Clause α, k.fill c x = c := by
  obtain ⟨i, t, w, o, l, f⟩ := c
  rcases Clauses.mem_toList.mp h with mem | mem | rfl | mem | rfl | rfl
  · obtain ⟨before, after, rfl⟩ := List.append_of_mem mem
    exact ⟨.item before after, rfl⟩
  · obtain ⟨before, after, rfl⟩ := List.append_of_mem mem
    exact ⟨.source before after, rfl⟩
  · exact ⟨.predicate, rfl⟩
  · obtain ⟨before, after, rfl⟩ := List.append_of_mem mem
    exact ⟨.ordering before after, rfl⟩
  · exact ⟨.limit, rfl⟩
  · exact ⟨.offset, rfl⟩

open SqlGen.Expr in
/-- A select prints each child at one place. -/
theorem places_selectDoc (d : Dialect) (distinct : Bool) (k : Clause Doc) (c : Clauses Doc) :
    Doc.Places fun x => selectDoc d distinct (k.fill c x) := by
  cases k <;> simp only [selectDoc, fill]
  case item before after =>
    have list := places_listDoc before after
    exact ((((list.append_left _).append_right _).append_right _).append_right _).append_right _
  case source before after =>
    have tables := places_tablesDoc before after
    exact (((tables.append_left _).append_right _).append_right _).append_right _
  case predicate =>
    have condition : Doc.Places fun x => clause "WHERE " (some x) := Doc.Places.hole.append_left _
    exact ((condition.append_left _).append_right _).append_right _
  case ordering before after =>
    have order := places_orderDoc before after
    exact (order.append_left _).append_right _
  case limit => exact (places_limit d c.offset).append_left _
  case offset => exact (places_offset d c.limit).append_left _

end Clause

/-! ## Frames -/

/-- A node with a hole in the place of one child. -/
inductive Frame where
  | left (op : BinaryOp) (right : Expr) (typing : Typing)
  | right (op : BinaryOp) (left : Expr) (typing : Typing)
  | operand (op : UnaryOp) (typing : Typing)
  | argument (function : Function) (before after : List Expr)
  | joined (kind : JoinKind) (predicate : Expr)
  /-- The predicate of a join. -/
  | condition (kind : JoinKind) (table : Expr)
  | crossJoined
  | item (columnAlias : Option String)
  | ordered (ascending : Bool)
  | collated (collation : String)
  /-- A child of a select. -/
  | clause (place : Clause Expr) (query : Select Expr)
  | leftSource (op : SetOp) (tableAlias : String) (right : Select Expr) (distinct : Bool)
  | rightSource (op : SetOp) (tableAlias : String) (left : Select Expr) (distinct : Bool)

namespace Frame

/-- The node with an expression in the hole. -/
def fill (g : Frame) (x : Expr) : Except Violation Expr :=
  match g with
  | .left op r t => .ok (.binary op x r t)
  | .right op l t => .ok (.binary op l x t)
  | .operand op t => .ok (.unary op x t)
  | .argument f before after => .ok (.call f (before ++ x :: after))
  | .joined kind p => .ok (.join kind x p)
  | .condition kind t => .ok (.join kind t x)
  | .crossJoined => .ok (.crossJoin x)
  | .item columnAlias => .ok (.projection x columnAlias)
  | .ordered ascending => .ok (.ordering x ascending)
  | .collated collation => .ok (.collate x collation)
  | .clause k q => .ok (.select { q with toClauses := k.fill q.toClauses x })
  | .leftSource op a r distinct => do return .setOperation op a (← x.asSelect) r distinct
  | .rightSource op a l distinct => do return .setOperation op a l (← x.asSelect) distinct

/-- The hole is an operand of an operator. -/
def isOperand : Frame → Bool
  | .left .. | .right .. | .operand .. => true
  | _ => false

/-- The hole is a source of a set operation. -/
def isSource : Frame → Bool
  | .leftSource .. | .rightSource .. => true
  | _ => false

/-- The node prints the expression in the hole between parentheses of its own. -/
def encloses (d : Dialect) (x : Expr) : Frame → Bool
  | .left op _ _ => Expr.enclosesLeft op x
  | .right op _ _ => Expr.enclosesRight op x
  | .operand op _ => Expr.enclosesOperand d op x
  | _ => false

theorem fill_eq_ok_of_isSource {g : Frame} (h : g.isSource = true) {x e : Expr}
    (filled : g.fill x = .ok e) : ∃ q, x = .select q := by
  cases g with
  | leftSource | rightSource =>
      cases x with
      | select q => exact ⟨q, rfl⟩
      | _ => cases filled
  | _ => cases h

/-- Every child of a node stands in a frame. -/
theorem exists_fill_of_mem_children {c e : Expr} (h : c ∈ e.children) :
    ∃ g : Frame, g.fill c = .ok e := by
  cases e with
  | column | constant | parameter | fragment | niladic | table => cases h
  | call f args =>
      obtain ⟨before, after, rfl⟩ := List.append_of_mem (show c ∈ args from h)
      exact ⟨.argument f before after, rfl⟩
  | binary op l r t =>
      have mem : c = l ∨ c = r := by simpa [Expr.children, Expr.slots, Slots.toList] using h
      rcases mem with rfl | rfl
      · exact ⟨.left op r t, rfl⟩
      · exact ⟨.right op l t, rfl⟩
  | unary op x t =>
      obtain rfl := List.mem_singleton.mp h
      exact ⟨.operand op t, rfl⟩
  | join kind t p =>
      have mem : c = t ∨ c = p := by simpa [Expr.children, Expr.slots, Slots.toList] using h
      rcases mem with rfl | rfl
      · exact ⟨.joined kind p, rfl⟩
      · exact ⟨.condition kind t, rfl⟩
  | crossJoin t =>
      obtain rfl := List.mem_singleton.mp h
      exact ⟨.crossJoined, rfl⟩
  | projection x a =>
      obtain rfl := List.mem_singleton.mp h
      exact ⟨.item a, rfl⟩
  | ordering x ascending =>
      obtain rfl := List.mem_singleton.mp h
      exact ⟨.ordered ascending, rfl⟩
  | select q =>
      obtain ⟨k, same⟩ := Clause.exists_fill_of_mem (show c ∈ q.toClauses.toList from h)
      refine ⟨.clause k q, ?_⟩
      simp only [fill, same]
  | setOperation op a l r distinct =>
      have mem : c = .select l ∨ c = .select r := by
        simpa [Expr.children, Expr.slots, Slots.toList] using h
      rcases mem with rfl | rfl
      · exact ⟨.leftSource op a r distinct, rfl⟩
      · exact ⟨.rightSource op a l distinct, rfl⟩
  | collate x collation =>
      obtain rfl := List.mem_singleton.mp h
      exact ⟨.collated collation, rfl⟩

open SqlGen.Doc (text) in
/-- A node prints the expression in the hole at one place. -/
theorem doc_fill (d : Dialect) (g : Frame) :
    ∃ F, Doc.Places F ∧ ∀ x e, g.fill x = .ok e →
      e.doc d = F (Doc.encloseIf (g.encloses d x) (x.doc d)) := by
  have hole := Doc.Places.hole
  cases g with
  | left op r t =>
      refine ⟨fun y => y ++ text " " ++ text op.symbol ++ text " " ++
        Doc.encloseIf (Expr.enclosesRight op r) (r.doc d), ?_, ?_⟩
      · exact (((hole.append_right _).append_right _).append_right _).append_right _
      · rintro x _ ⟨⟩
        rfl
  | right op l t =>
      refine ⟨fun y => Doc.encloseIf (Expr.enclosesLeft op l) (l.doc d) ++ text " " ++
        text op.symbol ++ text " " ++ y, hole.append_left _, ?_⟩
      rintro x _ ⟨⟩
      rfl
  | operand op t =>
      have places : Doc.Places (Expr.unaryDoc op) := by
        cases op with
        | not | negate => exact hole.append_left _
        | isNull | isNotNull => exact hole.append_right _
      refine ⟨_, places, ?_⟩
      rintro x _ ⟨⟩
      rfl
  | argument f before after =>
      have list := hole.separate Expr.comma (before.map (Expr.doc d)) (after.map (Expr.doc d))
      refine ⟨_, (list.encloseIf true).append_left (Expr.functionName d f), ?_⟩
      rintro x _ ⟨⟩
      simp [Expr.doc, Doc.encloseIf, encloses]
  | joined kind p =>
      refine ⟨fun y => text kind.keyword ++ y ++ text " ON " ++ p.doc d,
        ((hole.append_left _).append_right _).append_right _, ?_⟩
      rintro x _ ⟨⟩
      rfl
  | condition kind t =>
      refine ⟨fun y => text kind.keyword ++ t.doc d ++ text " ON " ++ y, hole.append_left _, ?_⟩
      rintro x _ ⟨⟩
      rfl
  | crossJoined =>
      refine ⟨fun y => text "CROSS JOIN " ++ y, hole.append_left _, ?_⟩
      rintro x _ ⟨⟩
      rfl
  | item columnAlias =>
      refine ⟨fun y => y ++ Expr.aliasDoc d columnAlias, hole.append_right _, ?_⟩
      rintro x _ ⟨⟩
      rfl
  | ordered ascending =>
      refine ⟨fun y => y ++ (if ascending then [] else text " DESC"), hole.append_right _, ?_⟩
      rintro x _ ⟨⟩
      rfl
  | collated collation =>
      refine ⟨fun y => y ++ text " COLLATE " ++ text collation,
        (hole.append_right _).append_right _, ?_⟩
      rintro x _ ⟨⟩
      rfl
  | clause k q =>
      have places := (k.map (Expr.doc d)).places_selectDoc d q.distinct
        (q.toClauses.map (Expr.doc d))
      refine ⟨_, places, ?_⟩
      rintro x _ ⟨⟩
      simp only [Expr.doc, Expr.docSelect_eq, Clause.map_fill, encloses, Doc.encloseIf]
      rfl
  | leftSource op a r distinct =>
      refine ⟨_, Expr.places_leftSource op a (Expr.docSelect d r) distinct, ?_⟩
      intro x e filled
      obtain ⟨q, rfl⟩ := fill_eq_ok_of_isSource rfl filled
      obtain rfl := Except.ok.inj filled
      rfl
  | rightSource op a l distinct =>
      refine ⟨_, Expr.places_rightSource op a (Expr.docSelect d l) distinct, ?_⟩
      intro x e filled
      obtain ⟨q, rfl⟩ := fill_eq_ok_of_isSource rfl filled
      obtain rfl := Except.ok.inj filled
      rfl

/-- Parentheses depend on how tightly an operand binds, on its own operator and on its own sign. -/
theorem encloses_congr (d : Dialect) (g : Frame) {x y : Expr}
    (binds : x.precedence = y.precedence) (operator : ∀ op, x.isBinary op = y.isBinary op)
    (sign : x.startsWithMinus d = y.startsWithMinus d) : g.encloses d x = g.encloses d y := by
  cases g with
  | left op r t => simp only [encloses, Expr.enclosesLeft, binds]
  | right op l t => simp only [encloses, Expr.enclosesRight, binds, operator]
  | operand op t => simp only [encloses, Expr.enclosesOperand, binds, sign]
  | _ => rfl

/-- What a node holds in its own hole does not decide about the parentheses around it. -/
theorem encloses_eq_of_fill (d : Dialect) (outer g : Frame) {x y e e' : Expr}
    (filled : g.fill x = .ok e) (filled' : g.fill y = .ok e') :
    outer.encloses d e = outer.encloses d e' := by
  cases g with
  | leftSource | rightSource =>
      obtain ⟨q, rfl⟩ := fill_eq_ok_of_isSource rfl filled
      obtain ⟨q', rfl⟩ := fill_eq_ok_of_isSource rfl filled'
      obtain rfl := Except.ok.inj filled
      obtain rfl := Except.ok.inj filled'
      exact encloses_congr d outer rfl (fun _ => rfl) rfl
  | _ =>
      obtain rfl := Except.ok.inj filled
      obtain rfl := Except.ok.inj filled'
      exact encloses_congr d outer rfl (fun _ => rfl) rfl

/-- What a node holds in its own hole does not decide about the nodes around it. -/
theorem exists_fill_of_fill {outer g : Frame} {x y e e' f : Expr} (filled : g.fill x = .ok e)
    (filled' : g.fill y = .ok e') (fits : outer.fill e = .ok f) : ∃ f', outer.fill e' = .ok f' := by
  cases outer with
  | leftSource | rightSource =>
      -- Only a select fits, and the one frame that makes a select is that of its clauses.
      obtain ⟨q, rfl⟩ := fill_eq_ok_of_isSource rfl fits
      cases g with
      | clause k q' =>
          obtain rfl := Except.ok.inj filled'
          exact ⟨_, rfl⟩
      | leftSource | rightSource =>
          obtain ⟨q', rfl⟩ := fill_eq_ok_of_isSource rfl filled
          cases filled
      | _ => cases filled
  | _ => exact ⟨_, rfl⟩

end Frame

/-! ## Trees with a hole -/

namespace Expr

/-- The tree that the frames, the innermost one first, make of an expression. -/
def plug : List Frame → Expr → Except Violation Expr
  | [], x => .ok x
  | g :: rest, x => do plug rest (← g.fill x)

@[simp] theorem plug_nil (x : Expr) : plug [] x = .ok x := rfl

theorem plug_cons_eq_ok {g : Frame} {rest : List Frame} {x root : Expr} :
    plug (g :: rest) x = .ok root ↔ ∃ e, g.fill x = .ok e ∧ plug rest e = .ok root := by
  rw [plug]
  cases g.fill x with
  | error v => simp [bind, Except.bind]
  | ok e => simp [bind, Except.bind]

theorem plug_append_singleton {place : List Frame} {g : Frame} {x e root : Expr}
    (inner : plug place x = .ok e) (filled : g.fill e = .ok root) :
    plug (place ++ [g]) x = .ok root := by
  induction place generalizing x with
  | nil =>
      obtain rfl := Except.ok.inj inner
      exact plug_cons_eq_ok.mpr ⟨root, filled, rfl⟩
  | cons h rest ih =>
      obtain ⟨y, first, later⟩ := plug_cons_eq_ok.mp inner
      exact plug_cons_eq_ok.mpr ⟨y, first, ih later⟩

/-- There are frames around every node of a tree. -/
theorem exists_plug_of_within {x root : Expr} (h : x.Within root) :
    ∃ place, plug place x = .ok root := by
  induction h with
  | self => exact ⟨[], rfl⟩
  | child mem _ ih =>
      obtain ⟨place, inner⟩ := ih
      obtain ⟨g, filled⟩ := Frame.exists_fill_of_mem_children mem
      exact ⟨place ++ [g], plug_append_singleton inner filled⟩

/-- Whatever fits in the innermost frame fits in all of them. -/
theorem exists_plug_of_fill {g : Frame} {rest : List Frame} {x y e e' root : Expr}
    (filled : g.fill x = .ok e) (filled' : g.fill y = .ok e') (whole : plug rest e = .ok root) :
    ∃ root', plug rest e' = .ok root' := by
  induction rest generalizing g x y e e' with
  | nil => exact ⟨e', rfl⟩
  | cons h rest ih =>
      obtain ⟨f, fits, outside⟩ := plug_cons_eq_ok.mp whole
      obtain ⟨f', fits'⟩ := Frame.exists_fill_of_fill filled filled' fits
      obtain ⟨root', outside'⟩ := ih fits fits' outside
      exact ⟨root', plug_cons_eq_ok.mpr ⟨f', fits', outside'⟩⟩

/-- A tree prints the expression in the hole at one place.  The innermost frame decides whether it
stands between parentheses. -/
theorem doc_plug (d : Dialect) (g : Frame) (rest : List Frame) :
    ∃ F, Doc.Places F ∧ ∀ x root, plug (g :: rest) x = .ok root →
      root.doc d = F (Doc.encloseIf (g.encloses d x) (x.doc d)) := by
  induction rest generalizing g with
  | nil =>
      obtain ⟨F, places, printed⟩ := g.doc_fill d
      refine ⟨F, places, fun x root whole => ?_⟩
      obtain ⟨e, filled, inner⟩ := plug_cons_eq_ok.mp whole
      obtain rfl := Except.ok.inj inner
      exact printed x e filled
  | cons h rest ih =>
      obtain ⟨F, places, printed⟩ := g.doc_fill d
      obtain ⟨G, outside, around⟩ := ih h
      by_cases fits : ∃ y e, g.fill y = .ok e
      · obtain ⟨y, e', sample⟩ := fits
        refine ⟨fun z => G (Doc.encloseIf (h.encloses d e') (F z)),
          outside.comp (places.encloseIf _), fun x root whole => ?_⟩
        obtain ⟨e, filled, inner⟩ := plug_cons_eq_ok.mp whole
        rw [around e root inner, Frame.encloses_eq_of_fill d h g filled sample, printed x e filled]
      · refine ⟨F, places, fun x root whole => ?_⟩
        obtain ⟨e, filled, -⟩ := plug_cons_eq_ok.mp whole
        exact absurd ⟨x, e, filled⟩ fits

end Expr

end SqlGen
