import SqlGen.Sqlite.Types
import SqlGen.Update.Batch

/-!
# Changes of rows in SQLite

SQLite finds the row it inserted last by its row identifier and counts affected rows by
a function.  It has no sequences.
-/

namespace SqlGen.Sqlite

/-- The generator for SQLite, with or without rows from data modifications. -/
def generator (returning : Bool) : Generator where
  dialect := dialect returning
  identityCondition _ := Standard.delimit "rowid" ++ " = last_insert_rowid()"
  countCommand _ _ := ("SELECT changes()" ++ (dialect returning).terminator ++ "\n\n", .last)
  rowsAffectedCondition count := "changes() = " ++ Decimal.natural count
  nextSequence _ :=
    .error
      { cause := .notSupported "SQLite" "Sequences" "SQLite does not support sequences." }

end SqlGen.Sqlite
