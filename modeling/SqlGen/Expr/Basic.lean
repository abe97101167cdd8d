import SqlGen.Dialect
import SqlGen.Error
import SqlGen.Expr.Operator

/-!
# SQL expressions

An expression is a tree of SQL constructs: operands such as columns and
constants, calls, operators, and the parts of a query from tables to whole
selects.  A tree never changes.  The clauses of a select are a record over the
type of its children, `Clauses α`, so the same record serves for its expressions
and for what a visit says about each of them.

Two conditions are kept by the types: the sources of a set operation are
selects, and a cross join is the one join without a predicate.  Two are kept by
the checked constructors: a call has a flag for each of its arguments
(`Expr.call?`), and a set operation has an alias (`Expr.setOperation?`).

The type, the mapping, the nullability and the precedence of a node are functions of
the tree.
-/

namespace SqlGen

/-! ## Parts of nodes -/

/-- What is known of the values of a node. -/
structure Typing where
  /-- The type on the side of the program. -/
  hostType : HostType
  /-- The store type, once known. -/
  mapping : Option TypeMapping
deriving DecidableEq, Hashable, Repr

/-- A function of the database, as one call sees it. -/
structure Function where
  /-- The name, written as it is. -/
  name : String
  /-- The schema of a function that users define. -/
  schema : Option String := none
  /-- The call may be NULL. -/
  nullable : Bool
  /-- For each argument: the call is NULL when the argument is. -/
  propagates : List Bool
  typing : Typing
deriving DecidableEq, Hashable, Repr

/-- The clauses of a select, over the type of its children.  The first table is the source, the
further ones are joins. -/
structure Clauses (α : Type) where
  /-- The items of the list. -/
  projection : List α := []
  /-- The source and the joins. -/
  tables : List α
  /-- The condition on the rows. -/
  predicate : Option α := none
  /-- The items of the order. -/
  orderings : List α := []
  /-- The greatest number of rows. -/
  limit : Option α := none
  /-- The number of rows left out. -/
  offset : Option α := none
deriving DecidableEq

/-- The children of a select, in the order of its clauses. -/
def Clauses.toList {α : Type} (c : Clauses α) : List α :=
  c.projection ++ c.tables ++ c.predicate.toList ++ c.orderings ++ c.limit.toList ++
    c.offset.toList

/-- The same clauses over other children. -/
def Clauses.map {α β : Type} (f : α → β) (c : Clauses α) : Clauses β where
  projection := c.projection.map f
  tables := c.tables.map f
  predicate := c.predicate.map f
  orderings := c.orderings.map f
  limit := c.limit.map f
  offset := c.offset.map f

@[simp] theorem Clauses.toList_map {α β : Type} (f : α → β) (c : Clauses α) :
    (c.map f).toList = c.toList.map f := by
  cases c with
  | mk p t w o l f => cases w <;> cases l <;> cases f <;> simp [Clauses.map, Clauses.toList]

/-- A select: its clauses, and whether equal rows are returned once. -/
structure Select (α : Type) extends Clauses α where
  /-- Equal rows are returned once. -/
  distinct : Bool := false
deriving DecidableEq

/-! ## Expressions -/

/-- A SQL expression. -/
inductive Expr where
  /-- A column of a table, which the alias names. -/
  | column (name tableAlias : String) (typing : Typing) (nullable : Bool)
  | constant (value : Value) (typing : Typing)
  | parameter (name : String) (typing : Typing) (nullable : Bool)
  /-- SQL text taken as it is. -/
  | fragment (sql : String)
  /-- A call with an argument list, which may be empty. -/
  | call (function : Function) (arguments : List Expr)
  /-- A call without an argument list. -/
  | niladic (function : Function)
  | binary (op : BinaryOp) (left right : Expr) (typing : Typing)
  | unary (op : UnaryOp) (operand : Expr) (typing : Typing)
  /-- A table as a source of rows. -/
  | table (name : QualifiedName) (tableAlias : String)
  | join (kind : JoinKind) (table predicate : Expr)
  | crossJoin (table : Expr)
  /-- An item of a select list. -/
  | projection (operand : Expr) (columnAlias : Option String)
  | ordering (operand : Expr) (ascending : Bool)
  | select (query : Select Expr)
  /-- Two selects combined into a source of rows. -/
  | setOperation (op : SetOp) (tableAlias : String) (left right : Select Expr) (distinct : Bool)
  /-- An operand compared by another collation. -/
  | collate (operand : Expr) (collation : String)

namespace Expr

/-! ## Checked constructors -/

/-- A call whose function has a flag for each argument. -/
def call? (function : Function) (arguments : List Expr) : Except Violation Expr :=
  if arguments.length = function.propagates.length then .ok (.call function arguments)
  else .error .argumentFlags

/-- A join, of rows that compare or of all rows.  Only the latter has no predicate. -/
def join? (kind : Option JoinKind) (table : Expr) (predicate : Option Expr) :
    Except Violation Expr :=
  match kind, predicate with
  | some kind, some predicate => .ok (.join kind table predicate)
  | none, none => .ok (.crossJoin table)
  | _, _ => .error .joinPredicate

/-- A set operation with an alias. -/
def setOperation? (op : SetOp) (tableAlias : String) (left right : Select Expr)
    (distinct : Bool) : Except Violation Expr :=
  if tableAlias.isEmpty then .error .setOperationAlias
  else .ok (.setOperation op tableAlias left right distinct)

/-- The select that an expression is. -/
def asSelect : Expr → Except Violation (Select Expr)
  | .select query => .ok query
  | _ => .error .selectExpected

/-! ## Properties of nodes -/

/-- The type of the values a node produces, if it produces any. -/
def hostType? : Expr → Option HostType
  | .column _ _ t _ | .constant _ t | .parameter _ t _ | .binary _ _ _ t | .unary _ _ t =>
      some t.hostType
  | .call f _ | .niladic f => some f.typing.hostType
  | .projection e _ | .collate e _ => e.hostType?
  | _ => none

/-- The store type of the values a node produces, if one is known. -/
def mapping? : Expr → Option TypeMapping
  | .column _ _ t _ | .constant _ t | .parameter _ t _ | .binary _ _ _ t | .unary _ _ t =>
      t.mapping
  | .call f _ | .niladic f => f.typing.mapping
  | .projection e _ => e.mapping?
  | _ => none

/-- The node may be NULL. -/
def isNullable : Expr → Bool
  | .column _ _ _ nullable | .parameter _ _ nullable => nullable
  | .constant v _ => v.isNull
  | .call f _ | .niladic f => f.nullable
  | .binary _ l r _ => l.isNullable || r.isNullable
  | .unary .isNull _ _ | .unary .isNotNull _ _ => false
  | .unary .not e _ | .unary .negate e _ => e.isNullable
  | .projection e _ => e.isNullable
  | _ => true

/-- How tightly the node binds when it is an operand. -/
def precedence : Expr → Nat
  | .binary op _ _ _ => op.precedence
  | .unary op _ _ => op.precedence
  | .select _ => Precedence.subquery
  | .collate _ _ => Precedence.concat
  | _ => Precedence.atom

/-- The node is the constant NULL. -/
def isNullConstant : Expr → Bool
  | .constant v _ => v.isNull
  | _ => false

def arguments : Expr → List Expr
  | .call _ args => args
  | _ => []

end Expr

/-- The arguments whose NULL makes a call NULL. -/
def Function.propagating (f : Function) (arguments : List Expr) : List Expr :=
  ((arguments.zip f.propagates).filter fun p => p.2).map fun p => p.1

end SqlGen
