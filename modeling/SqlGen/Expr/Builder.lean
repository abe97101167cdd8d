import SqlGen.Expr.Basic

/-!
# Building expressions with their store types

A builder knows the store type that each host type has by default, and gives it to the
nodes it builds.  Predicates have the truth values as their type.  Arithmetic takes its
type from the left operand, from the right one if that has none, and is of any
type if neither has one; it takes its mapping likewise, and falls back to the default of
its type.
-/

namespace SqlGen

/-- The default store types of a database. -/
structure Builder where
  /-- The mapping of a host type, if it has one. -/
  mapping : HostType → Option TypeMapping

namespace Builder

/-- The typing of a host type with its default mapping. -/
def typing (b : Builder) (t : HostType) : Typing := ⟨t, b.mapping t⟩

/-- A column of the table that an alias names. -/
def column (b : Builder) (name tableAlias : String) (t : HostType) (nullable : Bool) : Expr :=
  .column name tableAlias (b.typing t) nullable

/-- A constant of a given type. -/
def typedConstant (b : Builder) (v : Value) (t : HostType) : Expr := .constant v (b.typing t)

/-- A constant of the type its value has. -/
def constant (b : Builder) (v : Value) : Expr := b.typedConstant v v.hostType

def parameter (b : Builder) (name : String) (t : HostType) (nullable : Bool) : Expr :=
  .parameter name (b.typing t) nullable

/-- A call of a function of the database. -/
def call (b : Builder) (name : String) (arguments : List Expr) (nullable : Bool)
    (propagates : List Bool) (t : HostType) : Except Violation Expr :=
  Expr.call? { name, nullable, propagates, typing := b.typing t } arguments

/-- A call without an argument list. -/
def niladic (b : Builder) (name : String) (nullable : Bool) (t : HostType) : Expr :=
  .niladic { name, nullable, propagates := [], typing := b.typing t }

/-- The typing of a binary node. -/
def binaryTyping (b : Builder) (op : BinaryOp) (left right : Expr) : Typing :=
  if op.isPredicate then b.typing .boolean
  else
    let t := (left.hostType?.or right.hostType?).getD .object
    ⟨t, (left.mapping?.or right.mapping?).or (b.mapping t)⟩

def binary (b : Builder) (op : BinaryOp) (left right : Expr) : Expr :=
  .binary op left right (b.binaryTyping op left right)

/-- The typing of a unary node. -/
def unaryTyping (b : Builder) (op : UnaryOp) (operand : Expr) : Typing :=
  match op with
  | .negate => ⟨operand.hostType?.getD .object, operand.mapping?⟩
  | _ => b.typing .boolean

def unary (b : Builder) (op : UnaryOp) (operand : Expr) : Expr :=
  .unary op operand (b.unaryTyping op operand)

/-- The store types of the standard. -/
def ansi : Builder where
  mapping
    | .boolean => some ⟨"boolean", .boolean⟩
    | .int32 => some ⟨"integer", .int32⟩
    | .int64 => some ⟨"bigint", .int64⟩
    | .double => some ⟨"double precision", .double⟩
    | .decimal => some ⟨"decimal(18, 2)", .decimal⟩
    | .string => some ⟨"varchar", .string⟩
    | .char => some ⟨"char(1)", .char⟩
    | .bytes => some ⟨"varbinary", .bytes⟩
    | .dateTime => some ⟨"timestamp", .dateTime⟩
    | .guid => some ⟨"uuid", .guid⟩
    | .dbFunctions | .object => none

end Builder

end SqlGen
