import SqlGen.Update.Row

/-!
# Statements that change rows

The statements of a change before they are written as text.  A data modification may
return rows.  A `readBack` selects the columns of the row that was changed, and a
`count` asks for the number of rows that were.
-/

namespace SqlGen

/-- What a column is set to. -/
inductive Operand where
  /-- The value of a parameter. -/
  | placeholder (name : String)
  /-- A value in the text. -/
  | literal (v : Value)
deriving DecidableEq

/-- A column with what it is set to. -/
structure Assignment where
  column : String
  operand : Operand
deriving DecidableEq

/-- A condition on rows. -/
inductive Condition where
  /-- The column has the value of the parameter.  Without a parameter it is NULL. -/
  | column (name : String) (parameter : Option String)
  /-- The column has the key the database made last. -/
  | identity (column : ColumnChange)
  /-- The statement before affected this number of rows. -/
  | rowsAffected (count : Nat)
deriving DecidableEq

inductive Statement where
  /-- Adds a row.  `returning` lists the columns that are returned. -/
  | insert (table : QualifiedName) (values : List Assignment) (returning : Option (List String))
  /-- Modifies rows.  If nothing is read back, the rows returned hold a constant. -/
  | update (table : QualifiedName) (values : List Assignment) (conditions : List Condition)
      (returning : Option (List String))
  /-- Deletes rows. -/
  | delete (table : QualifiedName) (conditions : List Condition)
      (returning : Option (List String))
  /-- Selects columns of rows. -/
  | readBack (columns : List String) (table : QualifiedName) (conditions : List Condition)
  /-- Selects the number of rows that the statement before affected, in the words of a dialect. -/
  | count (sql : String)
deriving DecidableEq

namespace Statement

def returnsRows : Statement → Bool
  | .insert _ _ returning | .update _ _ _ returning | .delete _ _ returning => returning.isSome
  | .readBack .. | .count _ => true

end Statement

namespace ColumnChange

/-- The column set to its value, through the parameter if it has one. -/
def assignment (c : ColumnChange) : Assignment where
  column := c.name
  operand :=
    match c.parameterName with
    | some name => .placeholder name
    | none => .literal c.value

/-- The column compared with its expected value or with its value. -/
def comparison (useExpected : Bool) (c : ColumnChange) : Condition :=
  .column c.name (if useExpected then c.expectedParameterName else c.parameterName)

/-- The comparison that finds the row again by a column of its key. -/
def keyCondition (c : ColumnChange) : Condition :=
  if c.isIdentity then .identity c else c.comparison c.isCondition

end ColumnChange

end SqlGen
