import SqlGen.Dialect

/-!
# Changes of rows

A `RowChange` adds, modifies or deletes one row of a table.  Each of its columns plays
some roles: it is part of the key, it is compared with its expected value, it is read
back, it is written, or it guards against a change made in the meantime.  A column
that guards is always compared.

A batch gives parameter names to the values it sends along; a column without a name is
written as a literal.
-/

namespace SqlGen

/-- The roles of a column in a change. -/
structure Roles where
  key : Bool := false
  /-- Compared with its expected value. -/
  condition : Bool := false
  read : Bool := false
  write : Bool := false
  /-- Compared with its expected value, so that a change in the meantime is noticed. -/
  concurrencyToken : Bool := false
deriving DecidableEq, Repr

/-- A column of a changed row. -/
structure ColumnChange where
  name : String
  roles : Roles
  value : Value := .null
  /-- The value the row is expected to have. -/
  expected : Value := .null
  mapping : Option TypeMapping := none
  /-- The parameter that carries the value. -/
  parameterName : Option String := none
  /-- The parameter that carries the expected value. -/
  expectedParameterName : Option String := none
deriving DecidableEq

namespace ColumnChange

/-- The column is compared with its expected value. -/
def isCondition (c : ColumnChange) : Bool := c.roles.condition || c.roles.concurrencyToken

/-- The column is a key that the database makes. -/
def isIdentity (c : ColumnChange) : Bool := c.roles.key && c.roles.read

/-- The expected value is sent along.  NULL is not, since it is tested for by itself. -/
def sendsExpected (c : ColumnChange) : Bool := c.isCondition && !c.expected.isNull

end ColumnChange

/-- What happens to a row. -/
inductive ChangeKind where
  | added
  | modified
  | deleted
deriving DecidableEq, Repr

structure RowChange where
  table : QualifiedName
  kind : ChangeKind
  columns : List ColumnChange
deriving DecidableEq

namespace RowChange

def written (c : RowChange) : List ColumnChange := c.columns.filter fun x => x.roles.write

/-- The columns that are read back. -/
def read (c : RowChange) : List ColumnChange := c.columns.filter fun x => x.roles.read

def conditions (c : RowChange) : List ColumnChange := c.columns.filter ColumnChange.isCondition

def keys (c : RowChange) : List ColumnChange := c.columns.filter fun x => x.roles.key

end RowChange

end SqlGen
