import SqlGen.Expr.Builder

/-!
# The dialect and the store types of SQLite

SQLite writes truth values as numbers and needs a limit for an offset.  It returns rows
from data modifications only in newer versions, so that is a choice.  Host types map to
its storage classes.
-/

namespace SqlGen.Sqlite

/-- The dialect, with or without rows from data modifications. -/
def dialect (returning : Bool) : Dialect where
  provider := "SQLite"
  returning := returning
  boolean b := if b then "1" else "0"
  unboundedLimit := some "-1"

/-- The storage class of a host type. -/
def storageClass? : HostType → Option String
  | .boolean | .int32 | .int64 => some "INTEGER"
  | .double => some "REAL"
  | .decimal | .string | .char | .dateTime | .guid => some "TEXT"
  | .bytes => some "BLOB"
  | .dbFunctions | .object => none

def builder : Builder where
  mapping t := (storageClass? t).map fun storage => ⟨storage, t⟩

end SqlGen.Sqlite
