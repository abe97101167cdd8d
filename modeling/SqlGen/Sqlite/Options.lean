import SqlGen.Error
import SqlGen.Text.Form

/-!
# Options of a SQLite database

A connection string names a file and may go on, after the first question mark, with
form-encoded options, as in `file:app.db?returning=true&max_batch_size=64`.  The scheme in
front of the file is left out, as often as it stands there.  Of an option that is given
more than once the last value counts, but each of them has to be well formed; the
first one that is not is the error.  Options with other names are ignored.
-/

namespace SqlGen.Sqlite

structure Options where
  filePath : String := ""
  returning : Bool := false
  /-- The greatest number of changes in a batch. -/
  maxBatchSize : Nat := 128
deriving DecidableEq, Repr

namespace Options

/-- The numbers a batch size is less than. -/
def sizeLimit : Nat := Nat.pow 2 64

/-- A text without the scheme in front of it, as often as it stands there. -/
def withoutScheme : List Char → List Char
  | 'f' :: 'i' :: 'l' :: 'e' :: ':' :: rest => withoutScheme rest
  | text => text

/-- The words of a malformed number. -/
def defectText : Decimal.Defect → String
  | .empty => "cannot parse integer from empty string"
  | .invalidDigit => "invalid digit found in string"
  | .overflow => "number too large to fit in target type"

/-- The truth value of an option. -/
def readReturning (value : String) : Except Error Bool :=
  if value == "true" then .ok true
  else if value == "false" then .ok false
  else
    .error { cause := .invalidOptions ("`returning` must be a boolean, got `" ++ value ++ "`") }

/-- The batch size of an option. -/
def readMaxBatchSize (value : String) : Except Error Nat :=
  match Decimal.read sizeLimit value.toList with
  | .ok 0 => .error { cause := .invalidOptions "`max_batch_size` must be at least 1" }
  | .ok n => .ok n
  | .error defect =>
      .error
        { cause := .invalidOptions
            ("`max_batch_size` must be a positive integer, got `" ++ value ++ "`")
          detail := some (defectText defect) }

/-- The options after one more pair. -/
def apply (o : Options) (pair : String × String) : Except Error Options := do
  if pair.1 == "returning" then
    return { o with returning := ← readReturning pair.2 }
  else if pair.1 == "max_batch_size" then
    return { o with maxBatchSize := ← readMaxBatchSize pair.2 }
  else
    return o

/-- The options after some more pairs. -/
def applyAll (o : Options) : List (String × String) → Except Error Options
  | [] => .ok o
  | pair :: rest => do applyAll (← o.apply pair) rest

/-- The options of a connection string. -/
def parse (connection : String) : Except Error Options :=
  let (path, query) := Text.cut '?' (withoutScheme connection.toList)
  applyAll { filePath := String.ofList path } (Text.Form.pairs (query.getD []))

end Options

end SqlGen.Sqlite
