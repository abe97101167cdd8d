import SqlGen.Method.Catalog
import SqlGen.Method.Translator
import SqlGen.Sqlite.Types

/-!
# Methods and functions of SQLite

Two methods exist only for SQLite.  They are declared as extensions, so the first
argument is the receiver, which the SQL leaves out.

Four translators turn method calls into functions of SQLite: one for each of the two
methods, one for strings and one for numbers.  Every function they call may be NULL and
is NULL when an argument is.
-/

namespace SqlGen.Sqlite

/-! ## Methods -/

def hex : Method :=
  ⟨"SqliteDbFunctionsExtensions", "Hex", [.dbFunctions, .bytes], .string, true⟩

/-- The match of a string with a pattern. -/
def glob : Method :=
  ⟨"SqliteDbFunctionsExtensions", "Glob", [.dbFunctions, .string, .string], .boolean, true⟩

/-- The methods that queries for SQLite may call. -/
def catalog : Catalog := (Catalog.builtIn.register hex).register glob

/-! ## Translators -/

/-- The function of the bytes. -/
def translateHex : Translator := fun call =>
  if call.method = hex then
    match call.arguments with
    | _ :: bytes :: _ => .ok (some (builder.strictCall "hex" [bytes] .string))
    | _ => .error .missingArgument
  else .ok none

/-- The function takes the pattern before the string. -/
def translateGlob : Translator := fun call =>
  if call.method = glob then
    match call.arguments with
    | _ :: matched :: pattern :: _ =>
        .ok (some (builder.strictCall "glob" [pattern, matched] .boolean))
    | _ => .error .missingArgument
  else .ok none

/-- The function of a string method without arguments. -/
def stringFunction? (m : Method) : Option String :=
  if m = .toUpper then some "upper"
  else if m = .toLower then some "lower"
  else if m = .trim then some "trim"
  else none

/-- The start of a part of a string, counted from one. -/
def startFromOne (start : Expr) : Expr :=
  builder.binary .add start (builder.typedConstant (.integer 1) .int32)

/-- The functions of strings.  They need an instance. -/
def translateString : Translator := fun call =>
  match call.receiver with
  | none => .ok none
  | some receiver =>
      match stringFunction? call.method with
      | some function => .ok (some (builder.strictCall function [receiver] .string))
      | none =>
          if call.method = .substring then
            match call.arguments with
            | start :: length :: _ =>
                .ok (some (builder.strictCall "substr"
                  [receiver, startFromOne start, length] .string))
            | _ => .error .missingArgument
          else .ok none

/-- The function of a method of numbers. -/
def mathFunction? (m : Method) : Option String :=
  if m = .absInt ∨ m = .absReal then some "abs"
  else if m = .maxInt then some "max"
  else if m = .minInt then some "min"
  else if m = .roundReal then some "round"
  else none

def translateMath : Translator := fun call =>
  .ok ((mathFunction? call.method).map fun function =>
    builder.strictCall function call.arguments call.method.returnType)

def translators : List Translator :=
  [translateHex, translateGlob, translateString, translateMath]

/-- The chain of translators without plugins. -/
def translatorChain : TranslatorChain where
  translators := translators

end SqlGen.Sqlite
