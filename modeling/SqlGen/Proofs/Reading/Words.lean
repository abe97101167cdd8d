import Mathlib.Tactic.IntervalCases
import SqlGen.Sqlite.Types
import SqlGen.Proofs.Reading.Token

/-!
# Texts that are one word

A text is read as one operand if its quotes and parentheses match, no white space stands outside
of them, and it is neither an operator nor a key word.  Quoted text keeps everything in it
inside, since it doubles its mark.

`Dialect.Readable` says that the identifiers and the literals of a dialect are operands, up to
the sign of a number.  `readable_standard` shows it for every dialect that keeps the rules of the
standard and has its own words for truth values.
-/

namespace SqlGen

namespace Reading

/-! ## Quotes and parentheses -/

namespace Nesting

/-- A character that is part of any word. -/
def isPlain (c : Char) : Bool :=
  !Text.isBlank c && c != '"' && c != '\'' && c != '(' && c != ')'

/-- A mark between which everything is quoted. -/
def IsMark (c : Char) : Prop := c = '"' ∨ c = '\''

theorem scan_append (n : Nesting) (a b : List Char) :
    n.scan (a ++ b) = (n.scan a).bind fun n' => n'.scan b := by
  induction a generalizing n with
  | nil => rfl
  | cons c rest ih =>
      simp only [List.cons_append, scan]
      split
      next => rfl
      next =>
        cases n.next c with
        | none => rfl
        | some n' => exact ih n'

theorem scan_plain {n : Nesting} (hn : n.mark = none) {s : List Char} (h : s.all isPlain = true) :
    n.scan s = some n := by
  induction s with
  | nil => rfl
  | cons c rest ih =>
      obtain ⟨first, more⟩ := Bool.and_eq_true_iff.mp h
      simp only [isPlain, Bool.and_eq_true, Bool.not_eq_true', bne_iff_ne] at first
      obtain ⟨⟨⟨⟨blank, double⟩, single⟩, opening⟩, closing⟩ := first
      have inside : n.endsBefore c = false := by simp [endsBefore, blank, closing]
      have next : n.next c = some n := by simp [Nesting.next, hn, double, single, opening, closing]
      simp only [scan, inside, next]
      exact ih more

theorem endsBefore_mark (n : Nesting) {q : Char} (hq : IsMark q) : n.endsBefore q = false := by
  rcases hq with rfl | rfl
  · have : Text.isBlank '"' = false := rfl
    simp [endsBefore, this]
  · have : Text.isBlank '\'' = false := rfl
    simp [endsBefore, this]

theorem scan_mark {n : Nesting} (hn : n.mark = none) {q : Char} (hq : IsMark q) (s : List Char) :
    n.scan (q :: s) = scan { n with mark := some q } s := by
  have next : n.next q = some { n with mark := some q } := by
    rcases hq with rfl | rfl <;> simp [Nesting.next, hn]
  simp [scan, n.endsBefore_mark hq, next]

theorem scan_inside {n : Nesting} {q : Char} (hn : n.mark = some q) (c : Char) (s : List Char) :
    n.scan (c :: s) = scan { n with mark := if c = q then none else some q } s := by
  have open_ : n ≠ {} := by
    rintro rfl
    cases hn
  have inside : n.endsBefore c = false := by simp [endsBefore, open_]
  have next : n.next c = some { n with mark := if c = q then none else some q } := by
    simp [Nesting.next, hn]
  simp [scan, inside, next]

/-- Quoted text with its closing mark.  A doubled mark closes the quotes and opens them again. -/
theorem scan_double {n : Nesting} (hn : n.mark = none) {q : Char} (hq : IsMark q)
    (s : List Char) :
    scan { n with mark := some q } (Text.double q s ++ [q]) = some n := by
  obtain ⟨depth, mark⟩ := n
  simp only at hn
  subst hn
  induction s with
  | nil =>
      rw [Text.double_nil, List.nil_append, scan_inside rfl]
      simp [scan]
  | cons c rest ih =>
      by_cases same : c = q
      · subst same
        rw [Text.double_cons_self, List.cons_append, List.cons_append, scan_inside rfl, if_pos rfl,
          scan_mark rfl hq]
        exact ih
      · rw [Text.double_cons_of_ne same, List.cons_append, scan_inside rfl, if_neg same]
        exact ih

/-- Text without the mark stays as it is between quotes. -/
theorem double_of_not_mem {q : Char} {s : List Char} (h : q ∉ s) : Text.double q s = s := by
  induction s with
  | nil => rfl
  | cons c rest ih =>
      have other : c ≠ q := fun same => h (by simp [same])
      rw [Text.double_cons_of_ne other, ih fun mem => h (by simp [mem])]

/-- Quoted text opens and closes its own mark only. -/
theorem scan_quote {n : Nesting} (hn : n.mark = none) {q : Char} (hq : IsMark q) (s : String) :
    n.scan (Text.quote q q s).toList = some n := by
  rw [Text.toList_quote, scan_mark hn hq]
  exact scan_double hn hq s.toList

end Nesting

/-! ## Operands -/

/-- The characters of operators and key words. -/
def reserved : List Char := "+-*/%|=<>ANDORTIS".toList

/-- A word with a character of no operator and no key word is an operand. -/
theorem Token.ofWord_of_mem {s : String} {c : Char} (hc : c ∈ s.toList)
    (free : reserved.contains c = false) : Token.ofWord s = .operand s := by
  have other {word : String} (covered : word.toList.all reserved.contains = true) : s ≠ word := by
    rintro rfl
    exact Bool.false_ne_true (free.symm.trans (List.all_eq_true.mp covered c hc))
  have noSymbol : BinaryOp.ofSymbol? s = none := by
    refine Option.eq_none_iff_forall_ne_some.mpr fun op found => ?_
    have same : op.symbol = s := by simpa using List.find?_some found
    exact other (by cases op <;> rfl) same.symm
  have notNot : s ≠ "NOT" := other rfl
  have notIs : s ≠ "IS" := other rfl
  simp [Token.ofWord, noSymbol, notNot, notIs]

/-- A text of one word with a character of no operator and no key word. -/
theorem isOperand_of_mem {s : String} {c : Char} {rest : List Char} (text : s.toList = c :: rest)
    (minus : c ≠ '-') (opening : c ≠ '(') (scan : Nesting.scan {} s.toList = some {}) {x : Char}
    (hx : x ∈ s.toList) (free : reserved.contains x = false) : IsOperand s :=
  ⟨⟨c, rest, text, minus, opening⟩, scan, Token.ofWord_of_mem hx free⟩

theorem isOperand_quote {q : Char} (hq : Nesting.IsMark q) (s : String) :
    IsOperand (Text.quote q q s) := by
  have text := Text.toList_quote q q s
  have other : q ≠ '-' ∧ q ≠ '(' ∧ reserved.contains q = false := by
    rcases hq with rfl | rfl <;> exact ⟨by simp, by simp, rfl⟩
  exact isOperand_of_mem text other.1 other.2.1 (Nesting.scan_quote rfl hq s)
    (by rw [text]; exact List.mem_cons_self) other.2.2

/-- Two operands with a point between them are one. -/
theorem IsOperand.point {a b : String} (ha : IsOperand a)
    (hb : Nesting.scan {} b.toList = some {}) :
    IsOperand (a ++ "." ++ b) := by
  obtain ⟨c, rest, text, minus, opening⟩ := ha.starts
  have whole : (a ++ "." ++ b).toList = a.toList ++ '.' :: b.toList := by simp
  have point : Nesting.scan {} ('.' :: b.toList) = some {} := by
    rw [show '.' :: b.toList = ['.'] ++ b.toList from rfl, Nesting.scan_append,
      Nesting.scan_plain rfl rfl, Option.bind_some, hb]
  have scan : Nesting.scan {} (a ++ "." ++ b).toList = some {} := by
    rw [whole, Nesting.scan_append, ha.scan, Option.bind_some, point]
  have mem : '.' ∈ (a ++ "." ++ b).toList := by simp
  have starts : (a ++ "." ++ b).toList = c :: (rest ++ '.' :: b.toList) := by
    rw [whole, text, List.cons_append]
  exact isOperand_of_mem starts minus opening scan mem rfl

/-! ## Numbers -/

/-- The characters of a number behind its sign. -/
def numerals : List Char := ['0', '1', '2', '3', '4', '5', '6', '7', '8', '9', '.', 'e']

theorem mem_numerals_of_isDigit {c : Char} (h : c.isDigit = true) : c ∈ numerals := by
  have bounds : 48 ≤ c.toNat ∧ c.toNat ≤ 57 := by
    simp only [Char.isDigit, Bool.and_eq_true, decide_eq_true_eq] at h
    exact ⟨h.1, h.2⟩
  obtain ⟨low, high⟩ := bounds
  rw [← Char.ofNat_toNat c]
  interval_cases c.toNat <;> decide

/-- The characters of a number are plain, and none is a sign, an operator or part of a key
word. -/
theorem numerals_free {c : Char} (h : c ∈ numerals) :
    Nesting.isPlain c = true ∧ c ≠ '-' ∧ c ≠ '(' ∧ reserved.contains c = false := by
  have all : numerals.all (fun c => Nesting.isPlain c && c != '-' && c != '(' &&
      !reserved.contains c) = true := rfl
  simpa [and_assoc] using List.all_eq_true.mp all c h

/-- Digits, points, exponents and the signs of these, the first of them no sign. -/
def IsNumber (text : List Char) : Prop :=
  ∃ c rest, text = c :: rest ∧ c ∈ numerals ∧ ∀ x ∈ rest, x ∈ numerals ∨ x = '-'

theorem isOperand_number {text : List Char} (h : IsNumber text) :
    IsOperand (String.ofList text) := by
  obtain ⟨c, rest, rfl, first, more⟩ := h
  obtain ⟨start, minus, opening, free⟩ := numerals_free first
  have plain : ∀ x ∈ c :: rest, Nesting.isPlain x = true := by
    intro x hx
    rcases List.mem_cons.mp hx with rfl | inside
    · exact start
    · rcases more x inside with numeral | rfl
      · exact (numerals_free numeral).1
      · rfl
  have scan := Nesting.scan_plain (n := {}) rfl (List.all_eq_true.mpr plain)
  have text : (String.ofList (c :: rest)).toList = c :: rest := String.toList_ofList
  exact isOperand_of_mem text minus opening (text.symm ▸ scan)
    (text.symm ▸ List.mem_cons_self) free

theorem isNumber_of_forall {text : List Char} (some_ : text ≠ [])
    (h : ∀ c ∈ text, c ∈ numerals) : IsNumber text := by
  cases text with
  | nil => exact absurd rfl some_
  | cons c rest => exact ⟨c, rest, rfl, h c (by simp), fun x hx => .inl (h x (by simp [hx]))⟩

/-- A number goes on behind its exponent with another one. -/
theorem isNumber_exponent {mantissa power : List Char} (hm : ∀ c ∈ mantissa, c ∈ numerals)
    (hp : ∀ c ∈ power, c ∈ numerals ∨ c = '-') : IsNumber (mantissa ++ 'e' :: power) := by
  cases mantissa with
  | nil => exact ⟨'e', power, rfl, by simp [numerals], hp⟩
  | cons c rest =>
      refine ⟨c, rest ++ 'e' :: power, rfl, hm c (by simp), fun x hx => ?_⟩
      rcases List.mem_append.mp hx with before | after
      · exact .inl (hm x (by simp [before]))
      · rcases List.mem_cons.mp after with rfl | power
        · exact .inl (by simp [numerals])
        · exact hp x power

theorem mem_numerals_of_mem_digits {n : Nat} {c : Char} (h : c ∈ Decimal.digits n) :
    c ∈ numerals :=
  mem_numerals_of_isDigit (Nat.isDigit_of_mem_toDigits (by decide) (by decide) h)

theorem isNumber_digits (n : Nat) : IsNumber (Decimal.digits n) :=
  isNumber_of_forall Nat.toDigits_ne_nil fun _ => mem_numerals_of_mem_digits

theorem mem_integer {i : Int} {c : Char} (h : c ∈ (Decimal.integer i).toList) :
    c ∈ numerals ∨ c = '-' := by
  unfold Decimal.integer Decimal.natural at h
  split at h
  next =>
    rw [String.toList_append, String.toList_ofList] at h
    rcases List.mem_append.mp h with sign | digit
    · exact .inr (by simpa using sign)
    · exact .inl (mem_numerals_of_mem_digits (String.toList_ofList ▸ digit))
  next =>
    rw [String.toList_ofList] at h
    exact .inl (mem_numerals_of_mem_digits h)

theorem mem_numerals_of_mem_positional {s : Decimal.Significant}
    (h : ∀ c ∈ s.digits, c ∈ numerals) {c : Char} (hc : c ∈ s.positional) : c ∈ numerals := by
  have zero : '0' ∈ numerals := by simp [numerals]
  have point : '.' ∈ numerals := by simp [numerals]
  unfold Decimal.Significant.positional at hc
  dsimp only at hc
  split at hc
  next =>
    simp only [List.mem_cons, List.mem_append, List.mem_replicate] at hc
    rcases hc with rfl | rfl | ⟨-, rfl⟩ | digit
    · exact zero
    · exact point
    · exact zero
    · exact h c digit
  next =>
    split at hc
    next =>
      simp only [List.mem_append, List.mem_replicate, List.mem_cons, List.not_mem_nil,
        or_false] at hc
      rcases hc with (digit | ⟨-, rfl⟩) | rfl | rfl
      · exact h c digit
      · exact zero
      · exact point
      · exact zero
    next =>
      simp only [List.mem_append, List.mem_cons] at hc
      rcases hc with before | rfl | after
      · exact h c (List.mem_of_mem_take before)
      · exact point
      · exact h c (List.mem_of_mem_drop after)

theorem isNumber_positional {s : Decimal.Significant} (h : ∀ c ∈ s.digits, c ∈ numerals) :
    IsNumber s.positional := by
  have some_ : s.positional ≠ [] := by
    unfold Decimal.Significant.positional
    dsimp only
    split
    next => simp
    next => split <;> simp
  exact isNumber_of_forall some_ fun _ => mem_numerals_of_mem_positional h

/-- In front of the exponent there are no signs. -/
theorem exists_mantissa {s : Decimal.Significant} (h : ∀ c ∈ s.digits, c ∈ numerals) :
    ∃ mantissa, (∀ c ∈ mantissa, c ∈ numerals) ∧
      s.scientific = mantissa ++ 'e' :: (Decimal.integer s.exponent).toList := by
  refine ⟨_, ?_, rfl⟩
  split
  next d e rest digits =>
    intro c hc
    rcases List.mem_cons.mp hc with rfl | hc
    · exact h c (by simp [digits])
    · rcases List.mem_cons.mp hc with rfl | hc
      · simp [numerals]
      · exact h c (by rw [digits]; exact List.mem_cons_of_mem _ hc)
  next => exact h

theorem isNumber_scientific {s : Decimal.Significant} (h : ∀ c ∈ s.digits, c ∈ numerals) :
    IsNumber s.scientific := by
  obtain ⟨mantissa, plain, text⟩ := exists_mantissa h
  rw [text]
  exact isNumber_exponent plain fun c => mem_integer

theorem mem_numerals_of_mem_shortest {m : Nat} {q : Int} {c : Char}
    (hc : c ∈ (Decimal.shortest m q).significant.digits) : c ∈ numerals := by
  have among := List.mem_reverse.mp ((List.dropWhile_sublist _).subset (List.mem_reverse.mp hc))
  exact mem_numerals_of_mem_digits among

/-- The text of a finite number without its sign is a number. -/
theorem isNumber_magnitude (m : Nat) (q : Int) : IsNumber (Decimal.magnitude m q) := by
  unfold Decimal.magnitude Decimal.Significant.text
  have digits : ∀ c ∈ (Decimal.shortest m q).significant.digits, c ∈ numerals :=
    fun _ => mem_numerals_of_mem_shortest
  split
  next => exact ⟨'0', ['.', '0'], rfl, by simp [numerals], by simp [numerals]⟩
  next =>
    split
    next => exact isNumber_positional digits
    next => exact isNumber_scientific digits

/-! ## Literals -/

/-- A literal is an operand, or an operand behind a minus sign. -/
def IsLiteral (s : String) : Prop := IsOperand s ∨ ∃ rest, s = "-" ++ rest ∧ IsOperand rest

theorem isLiteral_signed {text : List Char} (h : IsNumber text) (negative : Bool) :
    IsLiteral (String.ofList (if negative then '-' :: text else text)) := by
  cases negative with
  | false => exact .inl (isOperand_number h)
  | true =>
      refine .inr ⟨String.ofList text, ?_, isOperand_number h⟩
      apply String.toList_injective
      simp

theorem isLiteral_integer (i : Int) : IsLiteral (Decimal.integer i) := by
  have number := isOperand_number (isNumber_digits i.natAbs)
  unfold Decimal.integer
  split
  next => exact .inr ⟨_, rfl, number⟩
  next => exact .inl number

theorem isOperand_null : IsOperand "NULL" := by
  have text : "NULL".toList = ['N', 'U', 'L', 'L'] := rfl
  exact isOperand_of_mem (x := 'U') text (by simp) (by simp) rfl (by simp [text]) rfl

theorem isOperand_true : IsOperand "TRUE" := by
  have text : "TRUE".toList = ['T', 'R', 'U', 'E'] := rfl
  exact isOperand_of_mem (x := 'U') text (by simp) (by simp) rfl (by simp [text]) rfl

theorem isOperand_false : IsOperand "FALSE" := by
  have text : "FALSE".toList = ['F', 'A', 'L', 'S', 'E'] := rfl
  exact isOperand_of_mem (x := 'L') text (by simp) (by simp) rfl (by simp [text]) rfl

theorem isLiteral_real (bits : UInt64) : IsLiteral (Standard.realLiteral bits) := by
  unfold Standard.realLiteral
  cases Decimal.Binary64.ofBits bits with
  | nan => exact .inl isOperand_null
  | infinite negative =>
      have number : IsNumber ['9', 'e', '9', '9', '9'] :=
        isNumber_of_forall (by simp) (by simp [numerals])
      have := isLiteral_signed number negative
      cases negative <;> exact this
  | finite negative m q => exact isLiteral_signed (isNumber_magnitude m q) negative

theorem mark_notMem_hexBytes (content : List UInt8) : '\'' ∉ Text.hexBytes content := by
  have digit : ∀ n < 16, Text.hexDigit n ≠ '\'' := by decide
  intro mem
  obtain ⟨b, -, half⟩ := List.mem_flatMap.mp mem
  have small : b.toNat < 256 := b.toNat_lt
  rcases List.mem_cons.mp half with high | low
  · exact digit (b.toNat / 16) (by omega) high.symm
  · exact digit (b.toNat % 16) (by omega) (List.mem_singleton.mp low).symm

/-- The literal of bytes is a letter in front of quoted digits. -/
theorem bytesLiteral_eq (content : List UInt8) :
    Standard.bytesLiteral content =
      "X" ++ Text.quote '\'' '\'' (String.ofList (Text.hexBytes content)) := by
  apply String.toList_injective
  simp [Standard.bytesLiteral, Nesting.double_of_not_mem (mark_notMem_hexBytes content)]

theorem isOperand_bytes (content : List UInt8) : IsOperand (Standard.bytesLiteral content) := by
  have mark : Nesting.IsMark '\'' := .inr rfl
  have text : (Standard.bytesLiteral content).toList =
      'X' :: '\'' :: (Text.double '\'' (Text.hexBytes content) ++ ['\'']) := by
    simp [bytesLiteral_eq]
  have scan : Nesting.scan {} (Standard.bytesLiteral content).toList = some {} := by
    rw [text, ← List.singleton_append, Nesting.scan_append, Nesting.scan_plain rfl rfl,
      Option.bind_some, Nesting.scan_mark rfl mark, Nesting.scan_double rfl mark]
  have mem : 'X' ∈ (Standard.bytesLiteral content).toList := by
    rw [text]
    exact List.mem_cons_self
  exact isOperand_of_mem text (by simp) (by simp) scan mem rfl

/-- The literals of the standard, for any words for truth values that are operands. -/
theorem isLiteral_standard {boolean : Bool → String} (h : ∀ b, IsOperand (boolean b)) (v : Value) :
    IsLiteral (Standard.literal boolean v) := by
  cases v with
  | null => exact .inl isOperand_null
  | boolean b => exact .inl (h b)
  | integer i => exact isLiteral_integer i.toInt
  | real bits => exact isLiteral_real bits
  | text s => exact .inl (isOperand_quote (.inr rfl) s)
  | bytes content => exact .inl (isOperand_bytes content)

end Reading

/-! ## Dialects -/

/-- The identifiers and the literals of a dialect can be read. -/
structure Dialect.Readable (d : Dialect) : Prop where
  delimit : ∀ name, Reading.IsOperand (d.delimit name)
  /-- A literal is an operand, with or without a sign. -/
  literal : ∀ v, Reading.IsLiteral (d.literal v)

open Reading in
/-- A dialect that keeps the rules of the standard is readable. -/
theorem Dialect.readable_standard {d : Dialect} (delimit : d.delimit = Standard.delimit)
    (literal : d.literal = Standard.literal d.boolean) (boolean : ∀ b, IsOperand (d.boolean b)) :
    d.Readable where
  delimit name := by
    rw [delimit]
    exact isOperand_quote (.inl rfl) name
  literal v := by
    rw [literal]
    exact isLiteral_standard boolean v

theorem Dialect.readable_ansi : Dialect.ansi.Readable := by
  refine Dialect.readable_standard rfl rfl fun b => ?_
  cases b with
  | false => exact Reading.isOperand_false
  | true => exact Reading.isOperand_true

theorem Sqlite.readable_dialect (returning : Bool) : (Sqlite.dialect returning).Readable := by
  refine Dialect.readable_standard rfl rfl fun b => ?_
  have digit {c : Char} (h : c ∈ Reading.numerals) : Reading.IsOperand (String.ofList [c]) :=
    Reading.isOperand_number ⟨c, [], rfl, h, by simp⟩
  cases b with
  | false => exact digit (c := '0') (by simp [Reading.numerals])
  | true => exact digit (c := '1') (by simp [Reading.numerals])

end SqlGen
