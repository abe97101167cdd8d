import SqlGen.Decimal.Real
import SqlGen.Text.Hex
import SqlGen.Text.Quoted
import SqlGen.Value

/-!
# Dialects

The lexical rules of a database: how it writes identifiers, placeholders and
literals, how a statement ends and which optional clauses it has.  Each rule is
a field of `Dialect`.  A rule that a dialect leaves out is built from the rules
before it, so a dialect with its own quotes has its own qualified names and
column conditions too.

`ansi` is the dialect of the standard.
-/

namespace SqlGen

/-- A name with the schema it lives in, if one is given.  The empty schema is one. -/
structure QualifiedName where
  name : String
  schema : Option String := none
deriving DecidableEq, Hashable, Repr

/-! ## Rules of the standard -/

namespace Standard

def delimit (identifier : String) : String := Text.quote '\"' '\"' identifier

/-- A qualified name, each part delimited. -/
def qualify (delimit : String → String) (q : QualifiedName) : String :=
  match q.schema with
  | some schema => delimit schema ++ "." ++ delimit q.name
  | none => delimit q.name

/-- The truth values as words. -/
def boolean (b : Bool) : String := if b then "TRUE" else "FALSE"

/-- The literal of a real.  An infinity is written as a number too large for any
finite one, and what is no number as NULL. -/
def realLiteral (bits : UInt64) : String :=
  match Decimal.Binary64.ofBits bits with
  | .nan => "NULL"
  | .infinite negative => if negative then "-9e999" else "9e999"
  | .finite negative m q => Decimal.real negative m q

def bytesLiteral (content : List UInt8) : String :=
  "X'" ++ String.ofList (Text.hexBytes content) ++ "'"

/-- The literal of a value, with the truth values of the dialect. -/
def literal (boolean : Bool → String) : Value → String
  | .null => "NULL"
  | .boolean b => boolean b
  | .integer i => Decimal.integer i.toInt
  | .real bits => realLiteral bits
  | .text s => Text.quote '\'' '\'' s
  | .bytes content => bytesLiteral content

/-- A column is compared with a parameter, or with NULL when there is none. -/
def columnCondition (delimit placeholder : String → String) (column : String) :
    (parameter : Option String) → String
  | some parameter => delimit column ++ " = " ++ placeholder parameter
  | none => delimit column ++ " IS NULL"

end Standard

/-! ## Dialects -/

/-- The lexical rules of a database. -/
structure Dialect where
  /-- The name of the database in errors. -/
  provider : String
  /-- Data modifications can return rows. -/
  returning : Bool := false
  /-- The database has sequences. -/
  sequences : Bool := false
  /-- The text that ends a statement. -/
  terminator : String := ";"
  /-- An identifier as it stands in a statement. -/
  delimit : String → String := Standard.delimit
  /-- A qualified name as it stands in a statement. -/
  delimitQualified : QualifiedName → String := Standard.qualify delimit
  /-- The reference to a named parameter. -/
  placeholder : String → String := fun name => "@" ++ name
  /-- The literal of a truth value. -/
  boolean : Bool → String := Standard.boolean
  literal : Value → String := Standard.literal boolean
  /-- The limit that lifts the limit, if an offset needs one. -/
  unboundedLimit : Option String := none
  /-- The comparison of a column with a parameter, or with NULL when there is none. -/
  columnCondition : String → Option String → String :=
    Standard.columnCondition delimit placeholder

/-- The dialect of the standard, with both optional features. -/
def Dialect.ansi : Dialect where
  provider := "Relational"
  returning := true
  sequences := true

example : Dialect.ansi.literal (.text "it's") = "'it''s'" := by decide
example : Dialect.ansi.delimitQualified ⟨"t", some ""⟩ = "\"\".\"t\"" := by decide

end SqlGen
