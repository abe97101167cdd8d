import Mathlib.Data.List.Basic
import SqlGen.Proofs.Layout
import SqlGen.Sqlite.Provider

/-!
# Methods of the catalog in SQL

Every method that the catalog lists has a translator, and no other method has one.  `Calls` says
which function of SQLite stands for a method and which texts its arguments have.  The functions of
strings and numbers keep the operands in their order.  The extensions leave out the receiver they
are declared with, and the start of a part of a string is counted from one.

The first translator that answers counts.  So the methods of each of them have to be apart from
those of the translators in front of it (`stringFunctions_apart`, `mathFunctions_apart`).
`Provider.translateRequired_resolved` follows the call to its text.
-/

namespace SqlGen

/-! ## Printed calls -/

theorem Builder.sql_print_strictCall (b : Builder) (d : Dialect) (name : String)
    (arguments : List Expr) (t : HostType) :
    ((b.strictCall name arguments t).print d).sql =
      name ++ "(" ++ String.intercalate ", " (arguments.map fun e => (e.print d).sql) ++ ")" := by
  have list := Doc.isSettled_enclose (Doc.separate Expr.comma (Expr.docs d arguments))
  show (Doc.text name ++ _).body = _
  rw [list.body_append, Doc.body_text, Doc.body_enclose_separate, Expr.docs_eq_map, List.map_map,
    ← String.append_assoc, ← String.append_assoc]
  rfl

namespace Sqlite

/-- The text of an operand of a sum, in parentheses if it binds more loosely. -/
def summand (d : Dialect) (e : Expr) : String :=
  if e.precedence < Precedence.additive then "(" ++ (e.print d).sql ++ ")" else (e.print d).sql

theorem enclosesLeft_add (e : Expr) :
    e.enclosesLeft .add = decide (e.precedence < Precedence.additive) := by
  unfold Expr.enclosesLeft
  split
  next same => rw [same]; rfl
  next => rfl

theorem sql_print_startFromOne (returning : Bool) (start : Expr) :
    ((startFromOne start).print (dialect returning)).sql =
      summand (dialect returning) start ++ " + 1" := by
  have doc : (startFromOne start).doc (dialect returning) =
      Doc.encloseIf (start.enclosesLeft .add) (start.doc (dialect returning)) ++ Doc.text " " ++
        Doc.text "+" ++ Doc.text " " ++ Doc.verbatim "1" := rfl
  have operand : (Doc.encloseIf (start.enclosesLeft .add) (start.doc (dialect returning))).body =
      summand (dialect returning) start := by
    rw [Doc.body_encloseIf, enclosesLeft_add, summand]
    simp only [decide_eq_true_eq]
    rfl
  show ((startFromOne start).doc (dialect returning)).body = _
  rw [doc, (Doc.isSettled_verbatim "1").body_append, (Doc.isSettled_text " ").body_append,
    (Doc.isSettled_text "+").body_append, (Doc.isSettled_text " ").body_append, operand,
    Doc.body_text, Doc.body_text, Doc.body_verbatim]
  simp [String.append_assoc]

/-! ## Functions for methods -/

/-- The methods of a string without arguments, with their functions. -/
def stringFunctions : List (Method × String) :=
  [(.toUpper, "upper"), (.toLower, "lower"), (.trim, "trim")]

/-- The methods of numbers with their functions. -/
def mathFunctions : List (Method × String) :=
  [(.absInt, "abs"), (.absReal, "abs"), (.maxInt, "max"), (.minInt, "min"), (.roundReal, "round")]

/-- The function of SQLite for a call, and the texts of its arguments. -/
inductive Calls (d : Dialect) : MethodCall → String → List String → Prop
  | string {m : Method} {function : String} (receiver : Expr) : (m, function) ∈ stringFunctions →
      Calls d ⟨some receiver, m, []⟩ function [(receiver.print d).sql]
  | substring (receiver start length : Expr) :
      Calls d ⟨some receiver, .substring, [start, length]⟩ "substr"
        [(receiver.print d).sql, summand d start ++ " + 1", (length.print d).sql]
  | math {m : Method} {function : String} (receiver : Option Expr) (arguments : List Expr) :
      (m, function) ∈ mathFunctions →
        Calls d ⟨receiver, m, arguments⟩ function (arguments.map fun e => (e.print d).sql)
  | hex (receiver : Option Expr) (functions bytes : Expr) :
      Calls d ⟨receiver, hex, [functions, bytes]⟩ "hex" [(bytes.print d).sql]
  | glob (receiver : Option Expr) (functions matched pattern : Expr) :
      Calls d ⟨receiver, glob, [functions, matched, pattern]⟩ "glob"
        [(pattern.print d).sql, (matched.print d).sql]

theorem methods_catalog : catalog.methods =
    stringFunctions.map Prod.fst ++ .substring :: mathFunctions.map Prod.fst ++ [hex, glob] := by
  decide

theorem stringFunctions_apart : ∀ p ∈ stringFunctions,
    p.1 ≠ hex ∧ p.1 ≠ glob ∧ stringFunction? p.1 = some p.2 := by
  decide

theorem mathFunctions_apart : ∀ p ∈ mathFunctions,
    p.1 ≠ hex ∧ p.1 ≠ glob ∧ stringFunction? p.1 = none ∧ p.1 ≠ .substring ∧
      mathFunction? p.1 = some p.2 := by
  decide

theorem stringFunctions_signature : ∀ p ∈ stringFunctions,
    p.1.parameters = [] ∧ p.1.returnType = .string ∧ p.1.isStatic = false := by
  decide

/-! ## The chain of translators -/

variable {call : MethodCall}

theorem first_of_none {t : Translator} (none_ : t call = .ok none) (rest : List Translator) :
    Translator.first call (t :: rest) = Translator.first call rest := by
  rw [Translator.first, none_]
  rfl

theorem first_of_some {t : Translator} {e : Expr} (some_ : t call = .ok (some e))
    (rest : List Translator) : Translator.first call (t :: rest) = .ok (some e) := by
  rw [Translator.first, some_]
  rfl

theorem translateHex_of_ne (notHex : call.method ≠ hex) : translateHex call = .ok none :=
  if_neg notHex

theorem translateGlob_of_ne (notGlob : call.method ≠ glob) : translateGlob call = .ok none :=
  if_neg notGlob

theorem translateString_of_not_mem (notString : call.method ∉ stringFunctions.map Prod.fst)
    (notPart : call.method ≠ .substring) : translateString call = .ok none := by
  simp only [stringFunctions, List.map_cons, List.map_nil, List.mem_cons, List.not_mem_nil,
    or_false, not_or] at notString
  obtain ⟨upper, lower, trim⟩ := notString
  cases receiver : call.receiver <;>
    simp [translateString, stringFunction?, receiver, upper, lower, trim, notPart]

theorem translateMath_of_not_mem (notMath : call.method ∉ mathFunctions.map Prod.fst) :
    translateMath call = .ok none := by
  simp only [mathFunctions, List.map_cons, List.map_nil, List.mem_cons, List.not_mem_nil,
    or_false, not_or] at notMath
  obtain ⟨absInt, absReal, max, min, round⟩ := notMath
  simp [translateMath, mathFunction?, absInt, absReal, max, min, round]

/-- Calls of no extension come to the translators of strings and numbers. -/
theorem translate_of_ne (notHex : call.method ≠ hex) (notGlob : call.method ≠ glob) :
    translatorChain.translate call = Translator.first call [translateString, translateMath] := by
  show Translator.first call [translateHex, translateGlob, translateString, translateMath] = _
  rw [first_of_none (translateHex_of_ne notHex), first_of_none (translateGlob_of_ne notGlob)]

theorem translate_string {m : Method} {function : String} (listed : (m, function) ∈ stringFunctions)
    (receiver : Expr) (arguments : List Expr) :
    translatorChain.translate ⟨some receiver, m, arguments⟩ =
      .ok (some (builder.strictCall function [receiver] .string)) := by
  obtain ⟨notHex, notGlob, known⟩ := stringFunctions_apart _ listed
  have answer : translateString ⟨some receiver, m, arguments⟩ =
      .ok (some (builder.strictCall function [receiver] .string)) := by
    simp only [translateString, known]
  rw [translate_of_ne notHex notGlob, first_of_some answer]

theorem translate_math {m : Method} {function : String} (listed : (m, function) ∈ mathFunctions)
    (receiver : Option Expr) (arguments : List Expr) :
    translatorChain.translate ⟨receiver, m, arguments⟩ =
      .ok (some (builder.strictCall function arguments m.returnType)) := by
  obtain ⟨notHex, notGlob, noString, notPart, known⟩ := mathFunctions_apart _ listed
  have passed : translateString ⟨receiver, m, arguments⟩ = .ok none := by
    cases receiver with
    | none => rfl
    | some receiver => simp only [translateString, noString, if_neg notPart]
  have answer : translateMath ⟨receiver, m, arguments⟩ =
      .ok (some (builder.strictCall function arguments m.returnType)) := by
    simp only [translateMath, known, Option.map_some]
  rw [translate_of_ne notHex notGlob, first_of_none passed, first_of_some answer]

theorem translate_substring (receiver start length : Expr) :
    translatorChain.translate ⟨some receiver, .substring, [start, length]⟩ =
      .ok (some (builder.strictCall "substr" [receiver, startFromOne start, length] .string)) := rfl

theorem translate_hex (receiver : Option Expr) (functions bytes : Expr) :
    translatorChain.translate ⟨receiver, hex, [functions, bytes]⟩ =
      .ok (some (builder.strictCall "hex" [bytes] .string)) := rfl

theorem translate_glob (receiver : Option Expr) (functions matched pattern : Expr) :
    translatorChain.translate ⟨receiver, glob, [functions, matched, pattern]⟩ =
      .ok (some (builder.strictCall "glob" [pattern, matched] .boolean)) := rfl

/-- A call has the arguments that its method declares, and an instance if it needs one. -/
structure IsComplete (call : MethodCall) : Prop where
  arity : call.arguments.length = call.method.parameters.length
  receiver : call.method.isStatic = false → call.receiver.isSome = true

theorem exists_translate (returning : Bool) (listed : call.method ∈ catalog.methods)
    (complete : IsComplete call) :
    ∃ function arguments,
      translatorChain.translate call =
        .ok (some (builder.strictCall function arguments call.method.returnType)) ∧
      Calls (dialect returning) call function
        (arguments.map fun e => (e.print (dialect returning)).sql) := by
  obtain ⟨receiver, m, arguments⟩ := call
  obtain ⟨arity, needed⟩ := complete
  simp only [methods_catalog, List.mem_append, List.mem_cons, List.not_mem_nil, or_false] at listed
  rcases listed with (string | rfl | math) | rfl | rfl
  case inl.inl =>
    obtain ⟨⟨m, function⟩, entry, rfl⟩ := List.mem_map.mp string
    obtain ⟨parameters, result, notStatic⟩ := stringFunctions_signature _ entry
    obtain ⟨receiver, rfl⟩ := Option.isSome_iff_exists.mp (needed notStatic)
    obtain rfl := List.length_eq_zero_iff.mp (arity.trans (congrArg List.length parameters))
    refine ⟨function, [receiver], ?_, .string receiver entry⟩
    rw [result]
    exact translate_string entry receiver []
  case inl.inr.inl =>
    obtain ⟨receiver, rfl⟩ := Option.isSome_iff_exists.mp (needed rfl)
    obtain ⟨start, length, rfl⟩ := List.length_eq_two.mp arity
    refine ⟨"substr", [receiver, startFromOne start, length],
      translate_substring receiver start length, ?_⟩
    rw [List.map_cons, List.map_cons, sql_print_startFromOne]
    exact .substring receiver start length
  case inl.inr.inr =>
    obtain ⟨⟨m, function⟩, entry, rfl⟩ := List.mem_map.mp math
    exact ⟨function, arguments, translate_math entry receiver arguments,
      .math receiver arguments entry⟩
  case inr.inl =>
    obtain ⟨functions, bytes, rfl⟩ := List.length_eq_two.mp arity
    exact ⟨"hex", [bytes], translate_hex receiver functions bytes, .hex receiver functions bytes⟩
  case inr.inr =>
    obtain ⟨functions, matched, pattern, rfl⟩ := List.length_eq_three.mp arity
    exact ⟨"glob", [pattern, matched], translate_glob receiver functions matched pattern,
      .glob receiver functions matched pattern⟩

/-- The translators know no other methods. -/
theorem translate_of_not_mem (unlisted : call.method ∉ catalog.methods) :
    translatorChain.translate call = .ok none := by
  simp only [methods_catalog, List.mem_append, List.mem_cons, List.not_mem_nil, or_false,
    not_or] at unlisted
  obtain ⟨⟨notString, notPart, notMath⟩, notHex, notGlob⟩ := unlisted
  rw [translate_of_ne notHex notGlob, first_of_none (translateString_of_not_mem notString notPart),
    first_of_none (translateMath_of_not_mem notMath)]
  rfl

theorem isSome_mapping_returnType : ∀ m ∈ catalog.methods,
    (builder.mapping m.returnType).isSome = true := by
  decide

/-- A complete call of a method that the catalog finds is translated.  The result is a call of the
function for the method, which is NULL if an argument is, has the type that the method declares and
is stored as that type is.  It is printed with the texts of its arguments in the order of SQLite. -/
theorem Provider.translateRequired_resolved (p : Provider) {key : MethodKey} {call : MethodCall}
    (found : p.catalog.find? key = some call.method) (complete : IsComplete call) :
    ∃ f arguments,
      p.translators.translateRequired call = .ok (.call f arguments) ∧
      (Expr.call f arguments).isNullable = true ∧
      (Expr.call f arguments).hostType? = some call.method.returnType ∧
      (Expr.call f arguments).mapping? = p.builder.mapping call.method.returnType ∧
      (p.builder.mapping call.method.returnType).isSome = true ∧
      f.propagates = List.replicate arguments.length true ∧
      ∃ texts, Calls p.dialect call f.name texts ∧
        ((Expr.call f arguments).print p.dialect).sql =
          f.name ++ "(" ++ String.intercalate ", " texts ++ ")" := by
  have listed : call.method ∈ Sqlite.catalog.methods := List.mem_of_find?_eq_some found
  obtain ⟨function, arguments, answer, calls⟩ :=
    exists_translate p.options.returning listed complete
  have required : p.translators.translateRequired call =
      .ok (Sqlite.builder.strictCall function arguments call.method.returnType) := by
    rw [TranslatorChain.translateRequired, Provider.translators, answer]
    rfl
  exact ⟨_, arguments, required, rfl, rfl, rfl, isSome_mapping_returnType _ listed,
    List.map_const' .., _, calls, Sqlite.builder.sql_print_strictCall _ function arguments _⟩

/-- A part of a name whose start is a comparison, which binds more loosely than a sum. -/
def partFromTest : MethodCall where
  receiver := some (builder.column "Name" "b" .string true)
  method := .substring
  arguments :=
    [builder.binary .equal (builder.column "Id" "b" .int32 false)
        (builder.column "Parent" "b" .int32 true),
      builder.parameter "length" .int32 false]

theorem translateRequired_resolved_partFromTest :
    Sqlite.catalog.find? ⟨"String", "Substring", [.int32, .int32]⟩ = some partFromTest.method ∧
    IsComplete partFromTest ∧
    (∃ f arguments,
      translatorChain.translateRequired partFromTest = .ok (.call f arguments) ∧
      (Expr.call f arguments).hostType? = some .string ∧
      ∃ texts, Calls (dialect false) partFromTest f.name texts ∧
        ((Expr.call f arguments).print (dialect false)).sql =
          f.name ++ "(" ++ String.intercalate ", " texts ++ ")") ∧
    ((translatorChain.translateRequired partFromTest).map fun e => (e.print (dialect false)).sql) =
      .ok "substr(\"b\".\"Name\", (\"b\".\"Id\" = \"b\".\"Parent\") + 1, @length)" := by
  have found : Sqlite.catalog.find? ⟨"String", "Substring", [.int32, .int32]⟩ =
      some partFromTest.method := by decide
  have complete : IsComplete partFromTest := ⟨rfl, fun _ => rfl⟩
  obtain ⟨f, arguments, required, -, hostType, -, -, -, texts, calls, sql⟩ :=
    Provider.translateRequired_resolved {} found complete
  exact ⟨found, complete, ⟨f, arguments, required, hostType, texts, calls, sql⟩, by decide +kernel⟩

end Sqlite

end SqlGen
