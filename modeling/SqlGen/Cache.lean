import Std.Data.HashMap
import SqlGen.Expr.Print
import SqlGen.Pass.Nullability

/-!
# A cache of printed statements

A query is simplified, printed as a statement and stored under its tree, so a query
that is built again, node by node, finds the statement of the first.  A stored
statement is numbered by the request that stored it: two requests return the
very same statement exactly when the numbers agree.

Clearing forgets the statements and goes on counting requests.
-/

namespace SqlGen

structure Stored where
  /-- The number of the request that stored it. -/
  number : Nat
  statement : Printed
deriving DecidableEq, Repr

/-- The statements of a dialect, by query. -/
structure CommandCache where
  /-- The dialect they are printed in. -/
  dialect : Dialect
  /-- The number of requests answered so far. -/
  requests : Nat := 0
  stored : Std.HashMap Expr Stored := {}

namespace CommandCache

/-- A query as a statement: simplified, then printed. -/
def compile (d : Dialect) (query : Expr) : Except Violation Printed := do
  let simplified ← query.revise .nullability
  return (simplified.of query).printStatement d

/-- The statement of a query, stored now unless it is there already. -/
def get (c : CommandCache) (query : Expr) : Except Violation (Stored × CommandCache) :=
  match c.stored[query]? with
  | some found => .ok (found, { c with requests := c.requests + 1 })
  | none => do
      let statement ← compile c.dialect query
      let new : Stored := ⟨c.requests, statement⟩
      return (new,
        { c with requests := c.requests + 1, stored := c.stored.insert query new })

def clear (c : CommandCache) : CommandCache := { c with stored := {} }

def size (c : CommandCache) : Nat := c.stored.size

def isEmpty (c : CommandCache) : Bool := c.stored.isEmpty

end CommandCache

end SqlGen
