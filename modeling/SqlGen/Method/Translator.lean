import SqlGen.Expr.Builder
import SqlGen.Method.Basic

/-!
# Translating method calls

A translator turns the calls of the methods it knows into SQL and answers nothing for all
others.  A provider has a chain of translators, with those that were added as plugins in
front.  The first answer counts.  A translator that reads an argument the call does
not have breaks a precondition, and the chain stops there.
-/

namespace SqlGen

structure MethodCall where
  /-- The value it is called on, if there is one. -/
  receiver : Option Expr
  method : Method
  arguments : List Expr

/-- The SQL of the calls that a translator knows. -/
abbrev Translator := MethodCall → Except Violation (Option Expr)

/-- The first answer of some translators. -/
def Translator.first (call : MethodCall) : List Translator → Except Violation (Option Expr)
  | [] => .ok none
  | t :: rest => do
      match ← t call with
      | some e => return some e
      | none => first call rest

/-- A call of a function that may be NULL and is NULL when an argument is. -/
def Builder.strictCall (b : Builder) (name : String) (arguments : List Expr) (t : HostType) :
    Expr :=
  .call { name, nullable := true, propagates := arguments.map fun _ => true, typing := b.typing t }
    arguments

structure TranslatorChain where
  plugins : List Translator := []
  /-- The translators of the provider itself. -/
  translators : List Translator

namespace TranslatorChain

/-- The chain with a plugin after the ones it has. -/
def addPlugin (c : TranslatorChain) (t : Translator) : TranslatorChain :=
  { c with plugins := c.plugins ++ [t] }

/-- The SQL of a call, if some translator knows it. -/
def translate (c : TranslatorChain) (call : MethodCall) : Except Violation (Option Expr) :=
  Translator.first call (c.plugins ++ c.translators)

/-- The SQL of a call.  It is an error if no translator knows it. -/
def translateRequired (c : TranslatorChain) (call : MethodCall) : Except Failure Expr := do
  match ← Failure.ofViolation (c.translate call) with
  | some e => return e
  | none => throw (.error { cause := .noSqlForm call.method.display })

/-- What a chain holds, in words. -/
def description (c : TranslatorChain) : String :=
  "MethodCallTranslatorProvider \x7b plugins: " ++ Decimal.natural c.plugins.length ++
    ", translators: " ++ Decimal.natural c.translators.length ++ " \x7d"

end TranslatorChain

/-! ## A plugin -/

/-- A plugin of the kind that callers write; no provider has it.  It turns every call of a
method with an instance into a call of a function, with the instance as its first argument. -/
def Translator.named (b : Builder) (method : Method) (function : String) : Translator :=
  fun call =>
    match call.receiver with
    | some receiver =>
        .ok (if call.method = method then
          some (b.strictCall function (receiver :: call.arguments) method.returnType)
        else none)
    | none => .ok none

end SqlGen
