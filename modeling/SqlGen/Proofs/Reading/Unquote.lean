import Mathlib.Data.Set.Function
import SqlGen.Proofs.Reading.Words

/-!
# Reading quoted text back

A reader of quoted text takes a doubled mark for one and stops at the first single one (`unquote?`).
`unquote?_eq_some_iff` says that it finds exactly the quoted texts: what it finds is the content of
the quotes in front of it, and it stands behind their closing mark.  So no content ends its quotes
early, whatever it holds and whatever goes on behind it.

Qualified names and the literals of bytes are read with the same reader.  `Dialect.IsFaithful`
collects what a dialect gives back, and `Dialect.isFaithful_of_library` shows it for the dialects of
the library.  A literal of the standard shows its value, unless that is a real number
(`literal?_literal`).
-/

namespace SqlGen

namespace Reading

/-! ## Quotes -/

/-- The content of quotes behind their opening mark, and what stands behind the closing one.  A mark
that is written twice belongs to the content. -/
def inside? (mark : Char) : List Char → Option (List Char × List Char)
  | [] => none
  | c :: rest =>
      if c = mark then
        match rest with
        | [] => some ([], [])
        | d :: more =>
            if d = mark then (inside? mark more).map (Prod.map (mark :: ·) id)
            else some ([], d :: more)
      else (inside? mark rest).map (Prod.map (c :: ·) id)

/-- The content of the quotes a text starts with, and what stands behind them. -/
def unquote? (mark : Char) : List Char → Option (String × List Char)
  | [] => none
  | c :: rest => if c = mark then (inside? mark rest).map (Prod.map String.ofList id) else none

example : unquote? '"' "\"a\"\"b\" = 1".toList = some ("a\"b", " = 1".toList) := by
  decide +kernel

theorem inside?_close {mark : Char} {rest : List Char} (single : rest.head? ≠ some mark) :
    inside? mark (mark :: rest) = some ([], rest) := by
  rw [inside?.eq_def]
  dsimp only
  rw [if_pos rfl]
  cases rest with
  | nil => rfl
  | cons d more => exact if_neg fun same => single (congrArg some same)

theorem inside?_mark_mark (mark : Char) (rest : List Char) :
    inside? mark (mark :: mark :: rest) = (inside? mark rest).map (Prod.map (mark :: ·) id) := by
  rw [inside?.eq_def]
  dsimp only
  rw [if_pos rfl, if_pos rfl]

theorem inside?_cons_of_ne {mark c : Char} (other : c ≠ mark) (rest : List Char) :
    inside? mark (c :: rest) = (inside? mark rest).map (Prod.map (c :: ·) id) := by
  rw [inside?.eq_def]
  dsimp only
  rw [if_neg other]

theorem inside?_double {mark : Char} {rest : List Char} (single : rest.head? ≠ some mark)
    (content : List Char) :
    inside? mark (Text.double mark content ++ mark :: rest) = some (content, rest) := by
  induction content with
  | nil => exact inside?_close single
  | cons c more ih =>
      by_cases same : c = mark
      · subst same
        simp [inside?_mark_mark, ih]
      · simp [Text.double_cons_of_ne same, inside?_cons_of_ne same, ih]

theorem eq_double_of_inside? {mark : Char} {text content rest : List Char}
    (read : inside? mark text = some (content, rest)) :
    text = Text.double mark content ++ mark :: rest ∧ rest.head? ≠ some mark := by
  fun_induction inside? mark text generalizing content with
  | case1 => cases read
  | case2 =>
      obtain ⟨rfl, rfl⟩ := Prod.mk.inj (Option.some.inj read)
      exact ⟨rfl, nofun⟩
  | case3 more ih =>
      obtain ⟨⟨before, behind⟩, found, same⟩ := Option.map_eq_some_iff.mp read
      obtain ⟨rfl, rfl⟩ := Prod.mk.inj same
      obtain ⟨rfl, single⟩ := ih found
      exact ⟨by simp, single⟩
  | case4 d more other =>
      obtain ⟨rfl, rfl⟩ := Prod.mk.inj (Option.some.inj read)
      exact ⟨rfl, by simpa using other⟩
  | case5 c rest other ih =>
      obtain ⟨⟨before, behind⟩, found, same⟩ := Option.map_eq_some_iff.mp read
      obtain ⟨rfl, rfl⟩ := Prod.mk.inj same
      obtain ⟨rfl, single⟩ := ih found
      exact ⟨by simp [Text.double_cons_of_ne other], single⟩

/-- The quoted texts are read, and nothing else. -/
theorem unquote?_eq_some_iff {mark : Char} {text rest : List Char} {content : String} :
    unquote? mark text = some (content, rest) ↔
      text = (Text.quote mark mark content).toList ++ rest ∧ rest.head? ≠ some mark := by
  rw [Text.toList_quote]
  constructor
  · intro read
    cases text with
    | nil => cases read
    | cons c more =>
        rw [unquote?] at read
        split at read
        next opening =>
          obtain ⟨⟨letters, behind⟩, found, same⟩ := Option.map_eq_some_iff.mp read
          obtain ⟨rfl, rfl⟩ := Prod.mk.inj same
          obtain ⟨rfl, single⟩ := eq_double_of_inside? found
          exact ⟨by simp [opening], single⟩
        next => cases read
  · rintro ⟨rfl, single⟩
    simp [unquote?, inside?_double single]

theorem unquote?_quote {mark : Char} {rest : List Char} (single : rest.head? ≠ some mark)
    (content : String) :
    unquote? mark ((Text.quote mark mark content).toList ++ rest) = some (content, rest) :=
  unquote?_eq_some_iff.mpr ⟨rfl, single⟩

/-! ## Qualified names -/

/-- The qualified name a text starts with, and what stands behind it.  A point goes on with the
name. -/
def qualified? (text : List Char) : Option (QualifiedName × List Char) :=
  match unquote? '"' text with
  | some (schema, '.' :: rest) => (unquote? '"' rest).map fun p => (⟨p.1, some schema⟩, p.2)
  | some (name, rest) => some (⟨name, none⟩, rest)
  | none => none

theorem qualified?_qualify {rest : List Char} (single : rest.head? ≠ some '"') (q : QualifiedName)
    (alone : q.schema = none → rest.head? ≠ some '.') :
    qualified? ((Standard.qualify Standard.delimit q).toList ++ rest) = some (q, rest) := by
  obtain ⟨name, _ | schema⟩ := q
  · have read : unquote? '"' ((Standard.delimit name).toList ++ rest) = some (name, rest) :=
      unquote?_quote single name
    have noPoint := alone rfl
    rw [qualified?, Standard.qualify, read]
    split
    next text =>
      obtain ⟨rfl, rfl⟩ := Prod.mk.inj (Option.some.inj text)
      exact absurd rfl noPoint
    next text =>
      obtain ⟨rfl, rfl⟩ := Prod.mk.inj (Option.some.inj text)
      rfl
    next text => cases text
  · have text : (Standard.qualify Standard.delimit ⟨name, some schema⟩).toList ++ rest =
        (Standard.delimit schema).toList ++ '.' :: ((Standard.delimit name).toList ++ rest) := by
      simp [Standard.qualify]
    have first : unquote? '"'
        ((Standard.delimit schema).toList ++ '.' :: ((Standard.delimit name).toList ++ rest)) =
          some (schema, '.' :: ((Standard.delimit name).toList ++ rest)) :=
      unquote?_quote (by simp) schema
    have second : unquote? '"' ((Standard.delimit name).toList ++ rest) = some (name, rest) :=
      unquote?_quote single name
    rw [text, qualified?, first]
    simp only [second, Option.map_some]

/-! ## Bytes -/

/-- The bytes of their hexadecimal digits, two for each of them. -/
def unhex? : List Char → Option (List UInt8)
  | [] => some []
  | [_] => none
  | high :: low :: rest => do
      let h ← Text.hexDigit? high
      let l ← Text.hexDigit? low
      let more ← unhex? rest
      return UInt8.ofNat (16 * h + l) :: more

/-- The bytes whose literal a text starts with, and what stands behind it. -/
def bytes? : List Char → Option (List UInt8 × List Char)
  | 'X' :: text => do
      let (digits, rest) ← unquote? '\'' text
      let content ← unhex? digits.toList
      return (content, rest)
  | _ => none

theorem unhex?_hexBytes (content : List UInt8) : unhex? (Text.hexBytes content) = some content := by
  induction content with
  | nil => rfl
  | cons b more ih =>
      have small : b.toNat < 256 := b.toNat_lt
      have high := Text.hexDigit?_hexDigit (b.toNat / 16) (by omega)
      have low := Text.hexDigit?_hexDigit (b.toNat % 16) (by omega)
      have byte : UInt8.ofNat (16 * (b.toNat / 16) + b.toNat % 16) = b := by
        rw [Nat.div_add_mod, UInt8.ofNat_toNat]
      have text : Text.hexBytes (b :: more) =
          Text.hexDigit (b.toNat / 16) :: Text.hexDigit (b.toNat % 16) :: Text.hexBytes more := rfl
      rw [text, unhex?, high, low, ih]
      exact congrArg (fun x => some (x :: more)) byte

theorem bytes?_bytesLiteral {rest : List Char} (single : rest.head? ≠ some '\'')
    (content : List UInt8) :
    bytes? ((Standard.bytesLiteral content).toList ++ rest) = some (content, rest) := by
  have text : (Standard.bytesLiteral content).toList ++ rest =
      'X' :: ((Text.quote '\'' '\'' (String.ofList (Text.hexBytes content))).toList ++ rest) := by
    simp [bytesLiteral_eq]
  rw [text, bytes?, unquote?_quote single]
  simp [unhex?_hexBytes]

/-! ## Literals -/

/-- The integer of decimal digits, with a minus sign below zero. -/
def integer : List Char → Int
  | '-' :: digits => -(Nat.ofDigitChars 10 digits 0 : Int)
  | digits => (Nat.ofDigitChars 10 digits 0 : Int)

/-- The value of a literal of the standard that is no real number.  Its first character tells what
kind of value it is. -/
def literal? (text : List Char) : Option Value :=
  match text.head? with
  | some 'N' => some .null
  | some 'T' => some (.boolean true)
  | some 'F' => some (.boolean false)
  | some '\'' => (unquote? '\'' text).map fun p => .text p.1
  | some 'X' => (bytes? text).map fun p => .bytes p.1
  | _ => some (.integer (Int64.ofInt (integer text)))

theorem ofDigitChars_digits (n : Nat) : Nat.ofDigitChars 10 (Decimal.digits n) 0 = n :=
  Nat.ofDigitChars_toDigits (by decide) (by decide)

theorem integer_integer (i : Int) : integer (Decimal.integer i).toList = i := by
  unfold Decimal.integer Decimal.natural
  split
  next negative =>
    have text : ("-" ++ String.ofList (Decimal.digits i.natAbs)).toList =
        '-' :: Decimal.digits i.natAbs := by simp
    rw [text, integer, ofDigitChars_digits]
    omega
  next positive =>
    obtain ⟨c, rest, digits, first, -⟩ := isNumber_digits i.natAbs
    have noSign : c ≠ '-' := (numerals_free first).2.1
    rw [String.toList_ofList, integer, ofDigitChars_digits]
    · omega
    · intro more text
      rw [digits] at text
      exact noSign (List.cons.inj text).1

/-- An integer starts with a digit or with a sign. -/
theorem head?_integer (i : Int) :
    ∃ c, (Decimal.integer i).toList.head? = some c ∧ c ∈ '-' :: numerals := by
  cases text : (Decimal.integer i).toList with
  | nil =>
      obtain ⟨c, rest, digits, -⟩ := isNumber_digits i.natAbs
      have written : (Decimal.integer i).toList ≠ [] := by
        unfold Decimal.integer Decimal.natural
        split <;> simp [digits]
      exact absurd text written
  | cons c rest =>
      have mem : c ∈ (Decimal.integer i).toList := text ▸ List.mem_cons_self
      rcases mem_integer mem with numeral | rfl
      · exact ⟨c, rfl, List.mem_cons_of_mem _ numeral⟩
      · exact ⟨'-', rfl, List.mem_cons_self⟩

/-- The literals of the standard show their values, real numbers left aside. -/
theorem literal?_literal {v : Value} (noReal : ∀ bits, v ≠ .real bits) :
    literal? (Standard.literal Standard.boolean v).toList = some v := by
  have alone : ([] : List Char).head? ≠ some '\'' := by simp
  cases v with
  | null => rfl
  | boolean b => cases b <;> rfl
  | integer i =>
      obtain ⟨c, first, mem⟩ := head?_integer i.toInt
      have other : ['N', 'T', 'F', '\'', 'X'].all (fun x => !('-' :: numerals).contains x) = true :=
        rfl
      have apart {x : Char} (letter : x ∈ ['N', 'T', 'F', '\'', 'X']) : c ≠ x := by
        rintro rfl
        have outside := List.all_eq_true.mp other c letter
        rw [List.contains_iff_mem.mpr mem] at outside
        cases outside
      unfold literal? Standard.literal
      rw [first]
      split
      next same => exact absurd (Option.some.inj same) (apart (by simp))
      next same => exact absurd (Option.some.inj same) (apart (by simp))
      next same => exact absurd (Option.some.inj same) (apart (by simp))
      next same => exact absurd (Option.some.inj same) (apart (by simp))
      next same => exact absurd (Option.some.inj same) (apart (by simp))
      next => rw [integer_integer, Int64.ofInt_toInt]
  | real bits => exact absurd rfl (noReal bits)
  | text s =>
      have read := unquote?_quote alone s
      have first : (Text.quote '\'' '\'' s).toList.head? = some '\'' := by simp
      rw [List.append_nil] at read
      rw [Standard.literal, literal?, first]
      simp only [read, Option.map_some]
  | bytes content =>
      have read := bytes?_bytesLiteral alone content
      have first : (Standard.bytesLiteral content).toList.head? = some 'X' := by
        simp [bytesLiteral_eq]
      rw [List.append_nil] at read
      rw [Standard.literal, literal?, first]
      simp only [read, Option.map_some]

end Reading

/-! ## Dialects -/

open Reading (unquote? qualified? bytes?)

/-- What a dialect quotes is found again: the reader stops where the quotes end, whatever goes on
behind them, and gives the content back. -/
structure Dialect.IsFaithful (d : Dialect) : Prop where
  identifier : ∀ (name : String) (rest : List Char), rest.head? ≠ some '"' →
    unquote? '"' ((d.delimit name).toList ++ rest) = some (name, rest)
  text : ∀ (s : String) (rest : List Char), rest.head? ≠ some '\'' →
    unquote? '\'' ((d.literal (.text s)).toList ++ rest) = some (s, rest)
  /-- Without a schema no point may follow, since another name would belong to it. -/
  qualified : ∀ (q : QualifiedName) (rest : List Char), rest.head? ≠ some '"' →
    (q.schema = none → rest.head? ≠ some '.') →
      qualified? ((d.delimitQualified q).toList ++ rest) = some (q, rest)
  bytes : ∀ (content : List UInt8) (rest : List Char), rest.head? ≠ some '\'' →
    bytes? ((d.literal (.bytes content)).toList ++ rest) = some (content, rest)

/-- A dialect that keeps the rules of the standard is faithful. -/
theorem Dialect.isFaithful_standard {d : Dialect} (delimit : d.delimit = Standard.delimit)
    (qualified : d.delimitQualified = Standard.qualify Standard.delimit)
    (literal : d.literal = Standard.literal d.boolean) : d.IsFaithful where
  identifier name rest single := by
    rw [delimit]
    exact Reading.unquote?_quote single name
  text s rest single := by
    rw [literal]
    exact Reading.unquote?_quote single s
  qualified q rest single alone := by
    rw [qualified]
    exact Reading.qualified?_qualify single q alone
  bytes content rest single := by
    rw [literal]
    exact Reading.bytes?_bytesLiteral single content

theorem Dialect.IsFaithful.delimitQualified_injective {d : Dialect} (h : d.IsFaithful) :
    Function.Injective d.delimitQualified := by
  intro q q' same
  have first := h.qualified q [] nofun fun _ => nofun
  have second := h.qualified q' [] nofun fun _ => nofun
  rw [same, second] at first
  exact (Prod.mk.inj (Option.some.inj first)).1.symm

/-- In the dialects of the library quotes cannot be left and nothing between them is lost.  The
texts of two qualified names differ, also if one has no schema and the other one the empty schema.
The standard writes no two values alike, real numbers left aside. -/
theorem Dialect.isFaithful_of_library {d : Dialect}
    (library : d = .ansi ∨ ∃ returning, d = Sqlite.dialect returning) :
    d.IsFaithful ∧ Function.Injective d.delimitQualified ∧
      (d = .ansi → Set.InjOn d.literal {v | ∀ bits, v ≠ .real bits}) := by
  have faithful : d.IsFaithful := by
    rcases library with rfl | ⟨returning, rfl⟩
    · exact isFaithful_standard rfl rfl rfl
    · exact isFaithful_standard rfl rfl rfl
  refine ⟨faithful, faithful.delimitQualified_injective, ?values⟩
  case values =>
    rintro rfl
    intro v noReal w noReal' same
    have first := Reading.literal?_literal noReal
    have second := Reading.literal?_literal noReal'
    have literals : Standard.literal Standard.boolean v = Standard.literal Standard.boolean w :=
      same
    rw [literals, second] at first
    exact (Option.some.inj first).symm

/-- A name that tries to leave its quotes is read to its end. -/
theorem Dialect.isFaithful_of_library_leaving :
    (Sqlite.dialect true).delimit "a\" OR \"b" = "\"a\"\" OR \"\"b\"" ∧
      unquote? '"' (((Sqlite.dialect true).delimit "a\" OR \"b").toList ++ " = 1".toList) =
        some ("a\" OR \"b", " = 1".toList) ∧
      Set.InjOn Dialect.ansi.literal {v | ∀ bits, v ≠ .real bits} :=
  ⟨by decide +kernel,
    (isFaithful_of_library (.inr ⟨true, rfl⟩)).1.identifier _ _ (by decide +kernel),
    (isFaithful_of_library (.inl rfl)).2.2 rfl⟩

end SqlGen
