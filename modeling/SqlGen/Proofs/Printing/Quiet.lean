import SqlGen.Proofs.Printing.Scan
import SqlGen.Proofs.Reading.Words

/-!
# Texts that start no comment

A text that a tree prints as it is must have no quotes and no two minus signs in a row (`IsRaw`).  A
dialect writes the other texts itself: quoted text leads out of its quotes again, since it doubles
its mark, and the signs of a number and of its exponent have digits behind them.
`Dialect.IsQuiet` collects what is asked of a dialect, and `Dialect.isQuiet_standard` shows it for
every dialect that keeps the rules of the standard.
-/

namespace SqlGen

open Reading (numerals)

/-! ## Texts -/

namespace Scan

/-- A text without quotes and without two minus signs in a row. -/
theorem below_run_raw {cs : List Char} (single : '\'' ∉ cs) (double : '"' ∉ cs)
    (signs : ¬ ['-', '-'] <:+: cs) : (outside.run cs).Below minus := by
  induction cs with
  | nil => exact outside_below_minus
  | cons c rest ih =>
      have later : (outside.run rest).Below minus :=
        ih (fun mem => single (List.mem_cons_of_mem c mem))
          (fun mem => double (List.mem_cons_of_mem c mem))
          fun inside => signs (inside.trans (List.suffix_cons c rest).isInfix)
      by_cases sign : c = '-'
      · subst sign
        refine below_run_minus later fun start => ?_
        obtain ⟨after, rfl⟩ := List.head?_eq_some_iff.mp start
        exact signs ⟨[], after, rfl⟩
      · have notSingle : c ≠ '\'' := fun same => single (same ▸ List.mem_cons_self)
        have notDouble : c ≠ '"' := fun same => double (same ▸ List.mem_cons_self)
        have same : outside.step c = outside := by simp [step, enter, sign, notSingle, notDouble]
        rw [run_cons, same]
        exact later

/-- The state between two marks. -/
def within (mark : Char) : Scan := if mark = '"' then identifier else literal

theorem run_double {mark : Char} (isMark : Reading.Nesting.IsMark mark) (cs : List Char) :
    (within mark).run (Text.double mark cs ++ [mark]) = outside := by
  have closes : (within mark).step mark = outside := by
    rcases isMark with rfl | rfl <;> rfl
  have opens : outside.step mark = within mark := by
    rcases isMark with rfl | rfl <;> rfl
  have stays {c : Char} (other : c ≠ mark) : (within mark).step c = within mark := by
    rcases isMark with rfl | rfl <;> simp [within, step, other]
  induction cs with
  | nil => exact closes
  | cons c rest ih =>
      by_cases same : c = mark
      · subst same
        rw [Text.double_cons_self, List.cons_append, List.cons_append, run_cons, closes, run_cons,
          opens, ih]
      · rw [Text.double_cons_of_ne same, List.cons_append, run_cons, stays same, ih]

/-- Quoted text leads out of its quotes. -/
theorem run_quote {s : Scan} (before : s.Below minus) {mark : Char}
    (isMark : Reading.Nesting.IsMark mark) (text : String) :
    s.run (Text.quote mark mark text).toList = outside := by
  have opens : s.step mark = within mark := by
    rcases before with rfl | ⟨rfl, -⟩ | impossible
    · rcases isMark with rfl | rfl <;> rfl
    · rcases isMark with rfl | rfl <;> rfl
    · cases impossible
  rw [Text.toList_quote, run_cons, opens, run_double isMark]

theorem run_numerals {cs : List Char} (h : ∀ c ∈ cs, c ∈ numerals) : outside.run cs = outside := by
  have stays (c : Char) (numeral : c ∈ numerals) : outside.step c = outside := by
    obtain ⟨plain, noSign, -, -⟩ := Reading.numerals_free numeral
    simp only [Reading.Nesting.isPlain, Bool.and_eq_true, bne_iff_ne] at plain
    simp [step, enter, noSign, plain]
  induction cs with
  | nil => rfl
  | cons c rest ih =>
      rw [run_cons, stays c (h c List.mem_cons_self)]
      exact ih fun x mem => h x (List.mem_cons_of_mem c mem)

/-- The sign of a number is followed by a digit. -/
theorem below_run_signed {text : List Char} (number : Reading.IsNumber text)
    (h : (outside.run text).Below minus) (negative : Bool) :
    (outside.run (if negative then '-' :: text else text)).Below minus := by
  cases negative with
  | false => exact h
  | true =>
      obtain ⟨c, rest, rfl, numeral, -⟩ := number
      have noSign : c ≠ '-' := (Reading.numerals_free numeral).2.1
      exact below_run_minus h fun start => noSign (Option.some.inj start)

theorem below_run_integer (i : Int) : (outside.run (Decimal.integer i).toList).Below minus := by
  have digits : outside.run (Decimal.digits i.natAbs) = outside :=
    run_numerals fun _ => Reading.mem_numerals_of_mem_digits
  have text : (Decimal.integer i).toList =
      if decide (i < 0) then '-' :: Decimal.digits i.natAbs else Decimal.digits i.natAbs := by
    unfold Decimal.integer Decimal.natural
    by_cases negative : i < 0 <;> simp [negative]
  rw [text]
  refine below_run_signed (Reading.isNumber_digits _) ?_ _
  rw [digits]
  exact outside_below_minus

theorem below_run_magnitude (m : Nat) (q : Int) :
    (outside.run (Decimal.magnitude m q)).Below minus := by
  have digits : ∀ c ∈ (Decimal.shortest m q).significant.digits, c ∈ numerals :=
    fun _ => Reading.mem_numerals_of_mem_shortest
  unfold Decimal.magnitude Decimal.Significant.text
  split
  next => decide
  next =>
    split
    next =>
      rw [run_numerals fun _ => Reading.mem_numerals_of_mem_positional digits]
      exact outside_below_minus
    next =>
      obtain ⟨mantissa, plain, text⟩ := Reading.exists_mantissa digits
      rw [text, run_append, run_numerals plain]
      exact below_run_integer _

theorem below_run_real (bits : UInt64) :
    (outside.run (Standard.realLiteral bits).toList).Below minus := by
  unfold Standard.realLiteral
  cases Decimal.Binary64.ofBits bits with
  | nan => decide
  | infinite negative => cases negative <;> decide
  | finite negative m q =>
      have text : (Decimal.real negative m q).toList =
          if negative then '-' :: Decimal.magnitude m q else Decimal.magnitude m q :=
        String.toList_ofList
      show (outside.run (Decimal.real negative m q).toList).Below minus
      rw [text]
      exact below_run_signed (Reading.isNumber_magnitude m q) (below_run_magnitude m q) negative

/-- The literals of the standard. -/
theorem below_run_literal {boolean : Bool → String}
    (truth : ∀ b, (outside.run (boolean b).toList).Below minus) (v : Value) :
    (outside.run (Standard.literal boolean v).toList).Below minus := by
  have quoted (s : String) : (outside.run (Text.quote '\'' '\'' s).toList).Below minus := by
    rw [run_quote outside_below_minus (.inr rfl)]
    exact outside_below_minus
  cases v with
  | null =>
      show (outside.run "NULL".toList).Below minus
      decide
  | boolean b => exact truth b
  | integer i => exact below_run_integer i.toInt
  | real bits => exact below_run_real bits
  | text s => exact quoted s
  | bytes content =>
      have text : (Standard.literal boolean (.bytes content)).toList =
          'X' :: (Text.quote '\'' '\'' (String.ofList (Text.hexBytes content))).toList := by
        rw [Standard.literal, Reading.bytesLiteral_eq, String.toList_append]
        rfl
      have letter : outside.step 'X' = outside := by decide
      rw [text, run_cons, letter]
      exact quoted _

end Scan

/-- A text that can be printed as it is: it has no quotes and starts no comment. -/
structure IsRaw (s : String) : Prop where
  single : '\'' ∉ s.toList
  double : '"' ∉ s.toList
  signs : ¬ ['-', '-'] <:+: s.toList

theorem IsRaw.below {s : String} (h : IsRaw s) : (Scan.outside.run s.toList).Below .minus :=
  Scan.below_run_raw h.single h.double h.signs

/-! ## Dialects -/

/-- The texts of a dialect start no comments. -/
structure Dialect.IsQuiet (d : Dialect) : Prop where
  delimit name : Scan.minus.run (d.delimit name).toList = .outside
  qualified name : Scan.minus.run (d.delimitQualified name).toList = .outside
  placeholder {name} : IsRaw name → (Scan.minus.run (d.placeholder name).toList).Below .minus
  literal v : (Scan.outside.run (d.literal v).toList).Below .minus
  terminator : (Scan.minus.run d.terminator.toList).Below .minus
  unbounded {s} : d.unboundedLimit = some s → (Scan.outside.run s.toList).Below .minus

theorem Scan.run_qualify (q : QualifiedName) :
    minus.run (Standard.qualify Standard.delimit q).toList = outside := by
  have quoted {s : Scan} (before : s.Below minus) (name : String) :
      s.run (Standard.delimit name).toList = outside := run_quote before (.inl rfl) name
  unfold Standard.qualify
  cases q.schema with
  | none => exact quoted (.refl _) q.name
  | some schema =>
      have point : outside.run ".".toList = outside := by decide
      show minus.run (Standard.delimit schema ++ "." ++ Standard.delimit q.name).toList = outside
      rw [String.toList_append, String.toList_append, run_append, run_append, quoted (.refl _),
        point, quoted outside_below_minus]

/-- A dialect that quotes names and writes literals as the standard does. -/
theorem Dialect.isQuiet_standard {d : Dialect} (delimit : d.delimit = Standard.delimit)
    (qualified : d.delimitQualified = Standard.qualify Standard.delimit)
    (placeholder : ∀ name, d.placeholder name = "@" ++ name)
    (literal : d.literal = Standard.literal d.boolean)
    (truth : ∀ b, (Scan.outside.run (d.boolean b).toList).Below .minus)
    (terminator : d.terminator = ";")
    (unbounded : ∀ s, d.unboundedLimit = some s → (Scan.outside.run s.toList).Below .minus) :
    d.IsQuiet where
  delimit name := by
    rw [delimit]
    exact Scan.run_quote (.refl _) (.inl rfl) name
  qualified name := by
    rw [qualified]
    exact Scan.run_qualify name
  placeholder {name} raw := by
    rw [placeholder, String.toList_append]
    exact raw.below
  literal v := by
    rw [literal]
    exact Scan.below_run_literal truth v
  terminator := by
    rw [terminator]
    decide
  unbounded {s} known := unbounded s known

theorem Dialect.isQuiet_ansi : Dialect.ansi.IsQuiet := by
  have word (b : Bool) : (Scan.outside.run (Standard.boolean b).toList).Below .minus := by
    cases b <;> decide
  exact Dialect.isQuiet_standard rfl rfl (fun _ => rfl) rfl word rfl fun s known => nomatch known

theorem Sqlite.isQuiet_dialect (returning : Bool) : (Sqlite.dialect returning).IsQuiet := by
  have digit (b : Bool) : (Scan.outside.run (if b then "1" else "0").toList).Below .minus := by
    cases b <;> decide
  refine Dialect.isQuiet_standard rfl rfl (fun _ => rfl) rfl digit rfl fun s known => ?_
  obtain rfl := Option.some.inj known
  decide

end SqlGen
