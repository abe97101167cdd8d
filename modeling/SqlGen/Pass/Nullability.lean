import SqlGen.Pass.Basic

/-!
# Simplification by nullability

Three rules, applied to a node after its children have been simplified, so a folded
argument feeds into the decision for its call.

* A call with the constant NULL as an argument that makes it NULL is NULL.
* A call that may be NULL is declared not to be, if it has flags, all of them are
  set and no argument may be NULL.
* A test for NULL of an operand that is never NULL is a truth value.

The constants take the type and the mapping of the node they stand for.
-/

namespace SqlGen

namespace Nullability

/-- The call is NULL because of a NULL it is given. -/
def isNullCall (f : Function) (arguments : List Expr) : Bool :=
  (f.propagating arguments).any Expr.isNullConstant

/-- The call can be declared never to be NULL. -/
def isNeverNull (f : Function) (arguments : List Expr) : Bool :=
  f.nullable && !f.propagates.isEmpty && f.propagates.all (fun b => b) &&
    arguments.all fun e => !e.isNullable

/-- The rules for a call. -/
def simplifyCall (call : Expr) (f : Function) (arguments : List Expr) : Revision :=
  if isNullCall f arguments then .changed (.constant .null f.typing) []
  else if isNeverNull f arguments then call.withNullability false
  else .kept

/-- The rule for a test for NULL, which gives `truth` if the operand is never NULL. -/
def simplifyTest (operand : Expr) (typing : Typing) (truth : Bool) : Revision :=
  if operand.isNullable then .kept
  else .changed (.constant (.boolean truth) typing) []

def simplify : Expr → Revision
  | .call f args => simplifyCall (.call f args) f args
  | .niladic f => simplifyCall (.niladic f) f []
  | .unary .isNull e t => simplifyTest e t false
  | .unary .isNotNull e t => simplifyTest e t true
  | _ => .kept

end Nullability

/-- Simplifies a tree by what is known of the nullability of its nodes. -/
def Pass.nullability : Pass where
  finish := Nullability.simplify

end SqlGen
