import SqlGen.Error
import SqlGen.Method.Basic

/-!
# Catalogs of methods

A catalog lists the methods that queries may call.  A method is listed once.  A call is
resolved to the first method with its key.
-/

namespace SqlGen

/-- The methods that queries may call, in the order they were registered. -/
structure Catalog where
  methods : List Method := Method.builtIn

namespace Catalog

/-- The catalog of the methods of every provider. -/
def builtIn : Catalog where

/-- Lists a method, unless it is listed. -/
def register (c : Catalog) (m : Method) : Catalog :=
  if m ∈ c.methods then c else { c with methods := c.methods ++ [m] }

/-- The first method with a key. -/
def find? (c : Catalog) (k : MethodKey) : Option Method :=
  c.methods.find? fun m => m.key == k

/-- The first method with a key.  It is an error if there is none. -/
def resolve (c : Catalog) (k : MethodKey) : Except Error Method :=
  match c.find? k with
  | some m => .ok m
  | none => .error { cause := .methodNotFound k.declaringType k.name }

end Catalog

end SqlGen
