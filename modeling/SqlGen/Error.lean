import SqlGen.Decimal.Natural

/-!
# Violations and errors

A `Violation` is a use of the library that breaks one of its preconditions, such
as a call with fewer nullability flags than arguments.  An `Error` is a request
that cannot be met, such as a method without a SQL form or a row that changed in
the meantime.  A `Failure` is either.
-/

namespace SqlGen

/-- A broken precondition. -/
inductive Violation where
  /-- A call whose flags and arguments differ in number. -/
  | argumentFlags
  /-- A cross join with a predicate, or another join without one. -/
  | joinPredicate
  /-- A set operation with an empty alias. -/
  | setOperationAlias
  /-- A batch without room for a command. -/
  | emptyBatch
  /-- A source of a set operation that was revised into something else than a select. -/
  | selectExpected
  /-- A method call with fewer arguments than its SQL form reads. -/
  | missingArgument
deriving DecidableEq, Repr

def Violation.message : Violation → String
  | .argumentFlags => "every function argument needs a nullability propagation flag"
  | .joinPredicate => "only cross joins are allowed to omit the join predicate"
  | .setOperationAlias => "a set operation needs an alias"
  | .emptyBatch => "a batch must be able to hold at least one command"
  | .selectExpected => "a select expression must be rewritten into a select expression"
  | .missingArgument => "index out of bounds"

inductive Cause where
  /-- The database of a provider lacks an operation. -/
  | notSupported (provider operation text : String)
  /-- A method call has no SQL form. -/
  | noSqlForm (method : String)
  /-- No method has the name and the parameter types. -/
  | methodNotFound (declaringType name : String)
  /-- A statement affected another number of rows than it should have. -/
  | concurrencyConflict (table : String) (expected actual : Nat)
  /-- The executor reported another number of result sets than a batch has. -/
  | resultSetCountMismatch (expected actual : Nat)
  /-- An option of a provider is malformed. -/
  | invalidOptions (text : String)
deriving DecidableEq, Repr

def Cause.message : Cause → String
  | .notSupported provider operation text =>
      provider ++ ": " ++ operation ++ " is not supported. " ++ text
  | .noSqlForm method => "The method call '" ++ method ++ "' could not be translated."
  | .methodNotFound declaringType name =>
      "No method '" ++ declaringType ++ "." ++ name ++
        "' with the given parameter types was found."
  | .concurrencyConflict table expected actual =>
      "The database operation on '" ++ table ++ "' was expected to affect " ++
        Decimal.natural expected ++ " row(s), but actually affected " ++
        Decimal.natural actual ++ " row(s)."
  | .resultSetCountMismatch expected actual =>
      "The batch has " ++ Decimal.natural expected ++ " result set(s), but " ++
        Decimal.natural actual ++ " affected row count(s) were reported."
  | .invalidOptions text => "Invalid provider options: " ++ text

/-- A request that cannot be met. -/
structure Error where
  cause : Cause
  /-- The words of the part that failed first, if it had any. -/
  detail : Option String := none
deriving DecidableEq, Repr

/-- The text of an error: its cause, then the detail in parentheses. -/
def Error.message (e : Error) : String :=
  match e.detail with
  | none => e.cause.message
  | some detail => e.cause.message ++ " (" ++ detail ++ ")"

/-- The error reports a row that was changed or removed in the meantime. -/
def Error.isConcurrencyConflict (e : Error) : Bool :=
  match e.cause with
  | .concurrencyConflict .. => true
  | _ => false

/-- Why a request has no result. -/
inductive Failure where
  | violation (v : Violation)
  | error (e : Error)
deriving DecidableEq, Repr

/-- A result that only a violation can prevent. -/
def Failure.ofViolation {α : Type} : Except Violation α → Except Failure α
  | .ok a => .ok a
  | .error v => .error (.violation v)

/-- A result that only an error can prevent. -/
def Failure.ofError {α : Type} : Except Error α → Except Failure α
  | .ok a => .ok a
  | .error e => .error (.error e)

end SqlGen
