import SqlGen.Error
import SqlGen.Update.Statement

/-!
# The SQL of changes

A generator turns the change of a row into statements and writes them.  Adding a row reads
back the columns that ask for it and otherwise returns nothing.  Modifying and deleting
always report whether the row was there.  With a dialect whose data modifications
return rows, both come from the modification itself.  Otherwise a second statement
follows: one that selects the changed row by its key, or one that counts.

Three conditions and commands have no common form and are fields of the generator.
-/

namespace SqlGen

/-- What the executor has to expect from the statements of one change. -/
inductive ResultSets where
  /-- No rows. -/
  | none
  /-- A result set with others after it. -/
  | notLast
  /-- The last result set of the change. -/
  | last
deriving DecidableEq, Repr

namespace Standard

/-- The next value of a sequence. -/
def nextSequence (d : Dialect) (sequence : QualifiedName) : Except Error String :=
  if d.sequences then .ok ("SELECT NEXT VALUE FOR " ++ d.delimitQualified sequence)
  else
    .error
      { cause := .notSupported d.provider "Sequences"
          "The database does not support sequences." }

end Standard

/-- How a database is told to change rows. -/
structure Generator where
  dialect : Dialect
  /-- The condition for the row whose key the database made last. -/
  identityCondition : ColumnChange → String
  /-- The command that counts the rows affected by the change at a position, and what it returns. -/
  countCommand : QualifiedName → (position : Nat) → String × ResultSets
  /-- The condition that the statement before affected a number of rows. -/
  rowsAffectedCondition : Nat → String
  /-- The text in front of a batch. -/
  header : String := ""
  /-- The next value of a sequence. -/
  nextSequence : QualifiedName → Except Error String := Standard.nextSequence dialect

namespace Generator

/-! ## Statements of a change -/

/-- The statement that finds the changed row and reads columns of it. -/
def readBack (table : QualifiedName) (read keys : List ColumnChange) : Statement :=
  .readBack (read.map ColumnChange.name) table
    (.rowsAffected 1 :: keys.map ColumnChange.keyCondition)

/-- The statements that add a row. -/
def insertScript (g : Generator) (c : RowChange) : List Statement × ResultSets :=
  let values := c.written.map ColumnChange.assignment
  if c.read.isEmpty then ([.insert c.table values none], .none)
  else if g.dialect.returning then
    ([.insert c.table values (some (c.read.map ColumnChange.name))], .last)
  else ([.insert c.table values none, readBack c.table c.read c.keys], .last)

/-- The statements that modify a row. -/
def updateScript (g : Generator) (c : RowChange) (position : Nat) :
    List Statement × ResultSets :=
  let values := c.written.map ColumnChange.assignment
  let conditions := c.conditions.map (ColumnChange.comparison true)
  if g.dialect.returning then
    ([.update c.table values conditions (some (c.read.map ColumnChange.name))], .last)
  else if c.read.isEmpty then
    let (sql, results) := g.countCommand c.table position
    ([.update c.table values conditions none, .count sql], results)
  else
    ([.update c.table values conditions none, readBack c.table c.read c.keys], .last)

/-- The statements that delete a row. -/
def deleteScript (g : Generator) (c : RowChange) (position : Nat) :
    List Statement × ResultSets :=
  let conditions := c.conditions.map (ColumnChange.comparison true)
  if g.dialect.returning then ([.delete c.table conditions (some [])], .last)
  else
    let (sql, results) := g.countCommand c.table position
    ([.delete c.table conditions none, .count sql], results)

/-- The statements of the change at a position, and what they return. -/
def script (g : Generator) (c : RowChange) (position : Nat) : List Statement × ResultSets :=
  match c.kind with
  | .added => g.insertScript c
  | .modified => g.updateScript c position
  | .deleted => g.deleteScript c position

/-! ## Text of statements -/

/-- Column names with commas between them. -/
def columnList (g : Generator) (columns : List String) : String :=
  String.intercalate ", " (columns.map g.dialect.delimit)

/-- What a column is set to. -/
def operand (g : Generator) : Operand → String
  | .placeholder name => g.dialect.placeholder name
  | .literal v => g.dialect.literal v

/-- The table of an insertion and the columns it sets. -/
def insertHeader (g : Generator) (table : QualifiedName) (columns : List String) : String :=
  "INSERT INTO " ++ g.dialect.delimitQualified table ++
    (if columns.isEmpty then "" else " (" ++ g.columnList columns ++ ")") ++ "\n"

/-- The words in front of the values of an insertion. -/
def valuesHeader (values : List Assignment) : String :=
  if values.isEmpty then "DEFAULT VALUES" else "VALUES "

def values (g : Generator) (values : List Assignment) : String :=
  if values.isEmpty then ""
  else "(" ++ String.intercalate ", " (values.map fun a => g.operand a.operand) ++ ")"

/-- The table of an update and the columns it sets. -/
def updateHeader (g : Generator) (table : QualifiedName) (values : List Assignment) : String :=
  "UPDATE " ++ g.dialect.delimitQualified table ++ " SET " ++
    String.intercalate ", " (values.map fun a =>
      g.dialect.delimit a.column ++ " = " ++ g.operand a.operand) ++ "\n"

def deleteHeader (g : Generator) (table : QualifiedName) : String :=
  "DELETE FROM " ++ g.dialect.delimitQualified table ++ "\n"

def condition (g : Generator) : Condition → String
  | .column name parameter => g.dialect.columnCondition name parameter
  | .identity column => g.identityCondition column
  | .rowsAffected count => g.rowsAffectedCondition count

/-- The conditions of a modification, if it has any. -/
def whereClause (g : Generator) (conditions : List Condition) : String :=
  if conditions.isEmpty then ""
  else "WHERE " ++ String.intercalate " AND " (conditions.map g.condition)

/-- The columns a modification returns.  Without columns it returns a constant. -/
def returningClause (g : Generator) (columns : List String) : String :=
  "\nRETURNING " ++ (if columns.isEmpty then "1" else g.columnList columns)

/-- The rows a modification returns, if it returns any. -/
def returning (g : Generator) : Option (List String) → String
  | some columns => g.returningClause columns
  | none => ""

def statementEnd (g : Generator) : String := g.dialect.terminator ++ "\n"

def render (g : Generator) : Statement → String
  | .insert table vs returned =>
      g.insertHeader table (vs.map Assignment.column) ++ valuesHeader vs ++ g.values vs ++
        g.returning returned ++ g.statementEnd
  | .update table vs conditions returned =>
      g.updateHeader table vs ++ g.whereClause conditions ++ g.returning returned ++
        g.statementEnd
  | .delete table conditions returned =>
      g.deleteHeader table ++ g.whereClause conditions ++ g.returning returned ++ g.statementEnd
  | .readBack columns table conditions =>
      "SELECT " ++ g.columnList columns ++ "\nFROM " ++ g.dialect.delimitQualified table ++
        "\nWHERE " ++ String.intercalate " AND " (conditions.map g.condition) ++
        g.dialect.terminator ++ "\n\n"
  | .count sql => sql

def renderAll (g : Generator) (statements : List Statement) : String :=
  String.join (statements.map g.render)

/-- The text of the change at a position, and what it returns. -/
def operation (g : Generator) (c : RowChange) (position : Nat) : String × ResultSets :=
  let (statements, results) := g.script c position
  (g.renderAll statements, results)

/-- The next value of a sequence, as a statement. -/
def nextSequenceStatement (g : Generator) (sequence : QualifiedName) : Except Error String := do
  return (← g.nextSequence sequence) ++ g.statementEnd

end Generator

end SqlGen
