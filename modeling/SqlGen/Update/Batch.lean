import SqlGen.Update.Generator

/-!
# Batches of changes

A batch collects changes and writes each one when it is added, up to a greatest number.
It names the values it sends along `p0`, `p1`, … through the whole batch: for each change
first the written values, then the expected values that are compared, both in
the order of the columns.  A full batch hands the change back.

After the text has run, `consume` takes the number of rows that each result set
reports.  Each change that returns rows has to have affected exactly one.
-/

namespace SqlGen

/-- A value that is sent along with a batch. -/
structure BatchParameter where
  name : String
  value : Value
  /-- The store type of its column. -/
  mapping : Option TypeMapping
deriving DecidableEq

/-- The name of the parameter with a number. -/
def BatchParameter.nameOf (number : Nat) : String := "p" ++ Decimal.natural number

/-- Names the values that `needs` asks for, from `next` on. -/
def nameColumns (needs : ColumnChange → Bool) (value : ColumnChange → Value)
    (assign : ColumnChange → String → ColumnChange) :
    (next : Nat) → List ColumnChange → List ColumnChange × List BatchParameter
  | _, [] => ([], [])
  | next, c :: rest =>
      if needs c then
        let name := BatchParameter.nameOf next
        let (columns, parameters) := nameColumns needs value assign (next + 1) rest
        (assign c name :: columns, ⟨name, value c, c.mapping⟩ :: parameters)
      else
        let (columns, parameters) := nameColumns needs value assign next rest
        (c :: columns, parameters)

def nameValues : (next : Nat) → List ColumnChange → List ColumnChange × List BatchParameter :=
  nameColumns (fun c => c.roles.write) ColumnChange.value
    fun c name => { c with parameterName := some name }

/-- Names the expected values that are compared and not NULL. -/
def nameExpected : (next : Nat) → List ColumnChange → List ColumnChange × List BatchParameter :=
  nameColumns ColumnChange.sendsExpected ColumnChange.expected
    fun c name => { c with expectedParameterName := some name }

/-- Names the values of a change, from `next` on. -/
def RowChange.named (c : RowChange) (next : Nat) : RowChange × List BatchParameter :=
  let (withValues, values) := nameValues next c.columns
  let (columns, expectations) := nameExpected (next + values.length) withValues
  ({ c with columns }, values ++ expectations)

/-- Changes that are sent together. -/
structure Batch where
  generator : Generator
  capacity : Nat
  /-- The changes, with the names of their values. -/
  changes : List RowChange := []
  /-- The values that are sent along, in the order of their names. -/
  parameters : List BatchParameter := []
  sql : String := ""
  /-- What each change returns. -/
  results : List ResultSets := []

/-- The text of a batch with what is sent along and what comes back. -/
structure BatchText where
  sql : String
  /-- The values that are sent along. -/
  parameters : List BatchParameter
  /-- What each change returns. -/
  results : List ResultSets

namespace Batch

/-- A batch with room for some changes, at least one. -/
def empty? (g : Generator) (capacity : Nat) : Except Violation Batch :=
  if capacity = 0 then .error .emptyBatch else .ok { generator := g, capacity }

def isFull (b : Batch) : Bool := b.capacity ≤ b.changes.length

/-- Names the values of a change and writes it.  A full batch hands the change back. -/
def add (b : Batch) (c : RowChange) : Except RowChange Batch :=
  if b.isFull then .error c
  else
    let (named, parameters) := c.named b.parameters.length
    let (sql, results) := b.generator.operation named b.changes.length
    .ok
      { b with
        changes := b.changes ++ [named]
        parameters := b.parameters ++ parameters
        sql := b.sql ++ sql
        results := b.results ++ [results] }

def build (b : Batch) : BatchText := ⟨b.generator.header ++ b.sql, b.parameters, b.results⟩

def reporting (b : Batch) : List RowChange :=
  ((b.changes.zip b.results).filter fun p => p.2 != .none).map fun p => p.1

/-- The first change that did not affect exactly one row, with the number it affected. -/
def firstConflict (changes : List RowChange) (affected : List Nat) : Option (RowChange × Nat) :=
  (changes.zip affected).find? fun p => p.2 != 1

/-- Takes the numbers of affected rows, one for each change that returns rows. -/
def consume (b : Batch) (affected : List Nat) : Except Error Unit :=
  let expected := b.results.countP fun r => r != .none
  if affected.length ≠ expected then
    .error { cause := .resultSetCountMismatch expected affected.length }
  else
    match firstConflict b.reporting affected with
    | some (change, actual) =>
        .error { cause := .concurrencyConflict change.table.name 1 actual }
    | none => .ok ()

end Batch

end SqlGen
