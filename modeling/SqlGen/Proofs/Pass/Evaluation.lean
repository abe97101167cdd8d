import SqlGen.Proofs.Pass.Outcome

/-!
# Evaluations of a tree

An evaluation says what every expression denotes in every environment, such as a row or a group of
rows with the values of the parameters.  It is compositional: what a node denotes depends on its
own fields and on what its children denote.  Declarations of nullability are no such fields, since
they only promise something.  `Node` is a node without them.

`Evaluation.Honours` says that an evaluation keeps what the nodes of a tree promise, and that
the operators that may be folded have their SQL meaning.
-/

namespace SqlGen

/-! ## Nodes without their nullability -/

/-- A node over something in the place of its children, without its declared nullability. -/
inductive Node (α : Type) where
  | column (name tableAlias : String) (typing : Typing)
  | constant (value : Value) (typing : Typing)
  | parameter (name : String) (typing : Typing)
  | fragment (sql : String)
  /-- The declared nullability of the function is cleared. -/
  | call (function : Function) (arguments : List α)
  | niladic (function : Function)
  | binary (op : BinaryOp) (left right : α) (typing : Typing)
  | unary (op : UnaryOp) (operand : α) (typing : Typing)
  | table (name : QualifiedName) (tableAlias : String)
  | join (kind : JoinKind) (table predicate : α)
  | crossJoin (table : α)
  | projection (operand : α) (columnAlias : Option String)
  | ordering (operand : α) (ascending : Bool)
  | select (clauses : Clauses α) (distinct : Bool)
  | setOperation (op : SetOp) (tableAlias : String) (left right : α) (distinct : Bool)
  | collate (operand : α) (collation : String)

def Function.undeclared (f : Function) : Function := { f with nullable := false }

/-- The node of an expression, with something for each child. -/
def Expr.node {α : Type} (g : Expr → α) : Expr → Node α
  | .column n a t _ => .column n a t
  | .constant v t => .constant v t
  | .parameter n t _ => .parameter n t
  | .fragment s => .fragment s
  | .call f args => .call f.undeclared (args.map g)
  | .niladic f => .niladic f.undeclared
  | .binary op l r t => .binary op (g l) (g r) t
  | .unary op e t => .unary op (g e) t
  | .table n a => .table n a
  | .join k t p => .join k (g t) (g p)
  | .crossJoin t => .crossJoin (g t)
  | .projection e a => .projection (g e) a
  | .ordering e a => .ordering (g e) a
  | .select q => .select (q.toClauses.map g) q.distinct
  | .setOperation op a l r d => .setOperation op a (g (.select l)) (g (.select r)) d
  | .collate e c => .collate (g e) c

theorem Clauses.map_congr {α β : Type} {g h : α → β} {c : Clauses α}
    (same : ∀ x ∈ c.toList, g x = h x) : c.map g = c.map h := by
  have slots : (Slots.select c).map g = (Slots.select c).map h := Slots.map_congr same
  exact Slots.select.inj slots

namespace Expr

/-- A node depends on what stands for its children only. -/
theorem node_congr {α : Type} {g h : Expr → α} {e : Expr} (same : ∀ c ∈ e.children, g c = h c) :
    e.node g = e.node h := by
  cases e with
  | call f args =>
      have list : args.map g = args.map h := List.map_congr_left same
      simp only [node, list]
  | select q =>
      have clauses : q.toClauses.map g = q.toClauses.map h := Clauses.map_congr same
      simp only [node, clauses]
  | binary op l r t | join k l r | setOperation op a l r d =>
      have left := same _ List.mem_cons_self
      have right := same _ (List.mem_cons_of_mem _ List.mem_cons_self)
      simp only [node, left, right]
  | unary op e t | projection e a | ordering e a | collate e c | crossJoin e =>
      simp only [node, same _ (List.mem_cons_self)]
  | _ => rfl

/-- Other children in the slots of a node give the node over what stands for them. -/
theorem node_of_withSlots {α : Type} {h : Expr → Expr} {e e' : Expr}
    (rebuilt : e.withSlots (e.slots.map h) = .ok e') (g : Expr → α) :
    e'.node g = e.node fun c => g (h c) := by
  cases e with
  | call f args =>
      obtain ⟨-, rfl⟩ := withSlots_call rebuilt
      simp [node]
  | select q =>
      obtain rfl := Except.ok.inj rebuilt
      obtain ⟨⟨i, t, w, o, l, f⟩, d⟩ := q
      simp [node, Clauses.map, Function.comp_def]
  | setOperation op a l r d =>
      obtain ⟨l', r', hl, hr, rfl⟩ := withSlots_setOperation rebuilt
      simp only [node, hl, hr]
  | _ =>
      obtain rfl := Except.ok.inj rebuilt
      rfl

end Expr

/-! ## Evaluations -/

/-- What expressions denote. -/
structure Evaluation (Env Val : Type) where
  denote : Expr → Env → Val
  null : Val
  truth : Bool → Val
  /-- Nodes that differ in their nullability and in children that denote the same, denote the
  same. -/
  compositional : ∀ e e' : Expr, e.node denote = e'.node denote → denote e = denote e'

namespace Evaluation

variable {Env Val : Type} (v : Evaluation Env Val)

/-- The expression is NULL in no environment. -/
def NeverNull (e : Expr) : Prop := ∀ env, v.denote e env ≠ v.null

/-- The evaluation keeps what the nodes of a tree promise. -/
structure Honours (root : Expr) : Prop where
  /-- A column is never NULL if it is declared so. -/
  column {name tableAlias : String} {t : Typing} :
    (Expr.column name tableAlias t false).Within root →
      v.NeverNull (.column name tableAlias t false)
  /-- A parameter is never NULL if it is declared so. -/
  parameter {name : String} {t : Typing} :
    (Expr.parameter name t false).Within root → v.NeverNull (.parameter name t false)
  /-- The one NULL among the constants is that of the value. -/
  constant (value : Value) (t : Typing) (env : Env) :
    v.denote (.constant value t) env = v.null ↔ value = .null
  /-- A constant of a truth value is that truth value. -/
  boolean (b : Bool) (t : Typing) (env : Env) :
    v.denote (.constant (.boolean b) t) env = v.truth b
  /-- A call is NULL if one of the arguments that make it NULL is. -/
  propagates {f : Function} {args : List Expr} :
    (Expr.call f args).Within root → ∀ a ∈ f.propagating args, ∀ env,
      v.denote a env = v.null → v.denote (.call f args) env = v.null
  /-- A call is never NULL if its function is declared so. -/
  call {f : Function} {args : List Expr} :
    (Expr.call f args).Within root → f.nullable = false → v.NeverNull (.call f args)
  niladic {f : Function} :
    (Expr.niladic f).Within root → f.nullable = false → v.NeverNull (.niladic f)
  /-- Where every argument makes a call NULL, nothing else does. -/
  strict {f : Function} {args : List Expr} :
    (Expr.call f args).Within root → args ≠ [] → f.propagates.all (fun b => b) = true → ∀ env,
      (∀ a ∈ args, v.denote a env ≠ v.null) → v.denote (.call f args) env ≠ v.null
  /-- An operator is NULL only if an operand is. -/
  binary {op : BinaryOp} {l r : Expr} {t : Typing} :
    (Expr.binary op l r t).Within root → ∀ env, v.denote (.binary op l r t) env = v.null →
      v.denote l env = v.null ∨ v.denote r env = v.null
  not {e : Expr} {t : Typing} :
    (Expr.unary .not e t).Within root → ∀ env, v.denote (.unary .not e t) env = v.null →
      v.denote e env = v.null
  negate {e : Expr} {t : Typing} :
    (Expr.unary .negate e t).Within root → ∀ env, v.denote (.unary .negate e t) env = v.null →
      v.denote e env = v.null
  /-- The tests for NULL give truth values. -/
  isNull {e : Expr} {t : Typing} :
    (Expr.unary .isNull e t).Within root → ∀ env,
      (v.denote e env = v.null → v.denote (.unary .isNull e t) env = v.truth true) ∧
      (v.denote e env ≠ v.null → v.denote (.unary .isNull e t) env = v.truth false)
  isNotNull {e : Expr} {t : Typing} :
    (Expr.unary .isNotNull e t).Within root → ∀ env,
      (v.denote e env = v.null → v.denote (.unary .isNotNull e t) env = v.truth false) ∧
      (v.denote e env ≠ v.null → v.denote (.unary .isNotNull e t) env = v.truth true)
  projection {e : Expr} {columnAlias : Option String} :
    (Expr.projection e columnAlias).Within root →
      v.denote (.projection e columnAlias) = v.denote e

end Evaluation

/-! ## Evaluations from a table of nodes -/

namespace Expr

variable {α : Type} (table : Node α → α)

mutual

/-- What a table of nodes makes of an expression, from the leaves up. -/
def fold : Expr → α
  | .column n a t _ => table (.column n a t)
  | .constant v t => table (.constant v t)
  | .parameter n t _ => table (.parameter n t)
  | .fragment s => table (.fragment s)
  | .call f args => table (.call f.undeclared (foldList args))
  | .niladic f => table (.niladic f.undeclared)
  | .binary op l r t => table (.binary op (fold l) (fold r) t)
  | .unary op e t => table (.unary op (fold e) t)
  | .table n a => table (.table n a)
  | .join k t p => table (.join k (fold t) (fold p))
  | .crossJoin t => table (.crossJoin (fold t))
  | .projection e a => table (.projection (fold e) a)
  | .ordering e a => table (.ordering (fold e) a)
  | .select q => foldSelect q
  | .setOperation op a l r d => table (.setOperation op a (foldSelect l) (foldSelect r) d)
  | .collate e c => table (.collate (fold e) c)
termination_by structural e => e

def foldList : List Expr → List α
  | [] => []
  | e :: rest => fold e :: foldList rest
termination_by structural es => es

def foldOption : Option Expr → Option α
  | none => none
  | some e => some (fold e)
termination_by structural e => e

def foldSelect : Select Expr → α
  | ⟨⟨i, t, w, o, l, f⟩, d⟩ =>
      table (.select ⟨foldList i, foldList t, foldOption w, foldList o, foldOption l,
        foldOption f⟩ d)
termination_by structural q => q

end

theorem foldList_eq_map (es : List Expr) : foldList table es = es.map (fold table) := by
  induction es with
  | nil => rfl
  | cons e rest ih => rw [foldList, ih, List.map_cons]

theorem foldOption_eq_map (e : Option Expr) : foldOption table e = e.map (fold table) := by
  cases e <;> rfl

/-- An expression is its node over what the table makes of its children. -/
theorem fold_eq (e : Expr) : fold table e = table (e.node (fold table)) := by
  cases e with
  | call f args => rw [fold, node, foldList_eq_map]
  | select q =>
      obtain ⟨⟨i, t, w, o, l, f⟩, d⟩ := q
      rw [fold, foldSelect, node]
      simp only [foldList_eq_map, foldOption_eq_map, Clauses.map]
  | _ => rfl

end Expr

def Evaluation.ofTable {Env Val : Type} (table : Node (Env → Val) → Env → Val) (null : Val)
    (truth : Bool → Val) : Evaluation Env Val where
  denote := Expr.fold table
  null := null
  truth := truth
  compositional e e' same :=
    (Expr.fold_eq table e).trans ((congrArg table same).trans (Expr.fold_eq table e').symm)

end SqlGen
