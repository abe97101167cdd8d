import SqlGen.Expr.Builder
import SqlGen.Pass.Basic

/-!
# Replacing parameters and nodes

Two passes that put something else in the place of some nodes.

`Pass.inline` replaces each parameter that has a value by the constant of that
value.  The constant has the type of the parameter and its mapping, or the mapping of its
type if the parameter has none.  `Pass.substitute` replaces each node that equals a
given one and does not look inside it.
-/

namespace SqlGen

/-- The value of a parameter name, if it has one. -/
abbrev Bindings := List (String × Value)

/-- The constant that stands for a parameter. -/
def Builder.inlined (b : Builder) (value : Value) (typing : Typing) : Expr :=
  .constant value ⟨typing.hostType, typing.mapping.or (b.mapping typing.hostType)⟩

/-- Puts values in the place of parameters.  Parameters without a value stay. -/
def Pass.inline (b : Builder) (values : Bindings) : Pass where
  replace
    | .parameter name typing _ => (values.lookup name).map fun v => b.inlined v typing
    | _ => none

/-- Puts `replacement` in the place of every node that equals `target`. -/
def Pass.substitute (target replacement : Expr) : Pass where
  replace e := if e = target then some replacement else none

end SqlGen
