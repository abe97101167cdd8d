import SqlGen.Decimal.Natural

/-!
# Numbers read back

A text spells a number by ASCII digits, at least one, that may have a plus sign in front of them
(`Spells`).  `read_eq_ok_iff` says that the numbers below the limit are read, and nothing else.  Any
other text has a first defect, which is the one that is reported (`read_eq_error_iff`).  A number
that is written is read as itself (`read_natural`).
-/

namespace SqlGen.Decimal

/-! ## Digits -/

theorem digit?_eq (c : Char) : digit? c = if c.isDigit then some (c.toNat - 48) else none := by
  have same : ('0' ≤ c ∧ c ≤ '9') ↔ c.isDigit = true := by
    simp only [Char.isDigit, Bool.and_eq_true, decide_eq_true_eq]
    exact Iff.rfl
  unfold digit?
  simp only [same]

theorem readDigits_cons {limit sofar : Nat} {c : Char} (digit : c.isDigit = true)
    (rest : List Char) :
    readDigits limit sofar (c :: rest) =
      if Nat.ofDigitChars 10 [c] sofar < limit then
        readDigits limit (Nat.ofDigitChars 10 [c] sofar) rest
      else .error .overflow := by
  rw [readDigits, digit?_eq, if_pos digit]
  rfl

/-- More digits do not make a number smaller. -/
theorem le_ofDigitChars (digits : List Char) (sofar : Nat) :
    sofar ≤ Nat.ofDigitChars 10 digits sofar := by
  induction digits generalizing sofar with
  | nil => exact Nat.le_refl sofar
  | cons c rest ih =>
      rw [Nat.ofDigitChars_cons]
      have later := ih (10 * sofar + (c.toNat - '0'.toNat))
      omega

/-- As long as the number stays below the limit, its digits are read. -/
theorem readDigits_append {limit sofar : Nat} {digits : List Char}
    (all : ∀ c ∈ digits, c.isDigit = true)
    (small : Nat.ofDigitChars 10 digits sofar < limit) (rest : List Char) :
    readDigits limit sofar (digits ++ rest) =
      readDigits limit (Nat.ofDigitChars 10 digits sofar) rest := by
  induction digits generalizing sofar with
  | nil => rfl
  | cons c more ih =>
      have split : Nat.ofDigitChars 10 (c :: more) sofar =
          Nat.ofDigitChars 10 more (Nat.ofDigitChars 10 [c] sofar) := rfl
      rw [split] at small ⊢
      have first : Nat.ofDigitChars 10 [c] sofar < limit :=
        Nat.lt_of_le_of_lt (le_ofDigitChars more _) small
      rw [List.cons_append, readDigits_cons (all c List.mem_cons_self), if_pos first]
      exact ih (fun x mem => all x (List.mem_cons_of_mem c mem)) small

theorem readDigits_eq_ok_iff {limit sofar n : Nat} (start : sofar < limit) {text : List Char} :
    readDigits limit sofar text = .ok n ↔
      (∀ c ∈ text, c.isDigit = true) ∧ Nat.ofDigitChars 10 text sofar = n ∧ n < limit := by
  constructor
  · intro read
    induction text generalizing sofar with
    | nil =>
        obtain rfl := Except.ok.inj read
        exact ⟨by simp, rfl, start⟩
    | cons c rest ih =>
        by_cases digit : c.isDigit = true
        · rw [readDigits_cons digit] at read
          split at read
          next small =>
            obtain ⟨all, value, lt⟩ := ih small read
            exact ⟨List.forall_mem_cons.mpr ⟨digit, all⟩, value, lt⟩
          next => cases read
        · rw [readDigits, digit?_eq, if_neg digit] at read
          cases read
  · rintro ⟨all, rfl, lt⟩
    have whole := readDigits_append all lt []
    rwa [List.append_nil] at whole

/-- Digits of a number below the limit. -/
structure IsBelow (limit sofar : Nat) (text : List Char) : Prop where
  digits : ∀ c ∈ text, c.isDigit = true
  lt : Nat.ofDigitChars 10 text sofar < limit

/-- The place where a text stops to be a number below the limit, with the reason. -/
inductive Stops (limit sofar : Nat) : List Char → Defect → Prop
  | letter {before : List Char} {c : Char} (after : List Char) :
      IsBelow limit sofar before → c.isDigit = false →
        Stops limit sofar (before ++ c :: after) .invalidDigit
  | large {before : List Char} {c : Char} (after : List Char) :
      IsBelow limit sofar before → c.isDigit = true →
        limit ≤ Nat.ofDigitChars 10 (before ++ [c]) sofar →
          Stops limit sofar (before ++ c :: after) .overflow

theorem Stops.cons {limit sofar : Nat} {c : Char} {rest : List Char} {defect : Defect}
    (digit : c.isDigit = true)
    (h : Stops limit (Nat.ofDigitChars 10 [c] sofar) rest defect) :
    Stops limit sofar (c :: rest) defect := by
  have longer {before : List Char} (below : IsBelow limit (Nat.ofDigitChars 10 [c] sofar) before) :
      IsBelow limit sofar (c :: before) :=
    ⟨List.forall_mem_cons.mpr ⟨digit, below.digits⟩, below.lt⟩
  cases h with
  | letter after below other => exact .letter after (longer below) other
  | large after below last reached => exact .large after (longer below) last reached

theorem readDigits_eq_error_iff {limit sofar : Nat} (start : sofar < limit) {text : List Char}
    {defect : Defect} :
    readDigits limit sofar text = .error defect ↔ Stops limit sofar text defect := by
  constructor
  · intro read
    induction text generalizing sofar with
    | nil => cases read
    | cons c rest ih =>
        have none : IsBelow limit sofar [] := ⟨by simp, start⟩
        by_cases digit : c.isDigit = true
        · rw [readDigits_cons digit] at read
          split at read
          next small => exact (ih small read).cons digit
          next reached =>
            obtain rfl := Except.error.inj read
            exact .large rest none digit (Nat.le_of_not_lt reached)
        · rw [readDigits, digit?_eq, if_neg digit] at read
          obtain rfl := Except.error.inj read
          exact .letter rest none (Bool.not_eq_true _ ▸ digit)
  · intro stops
    cases stops with
    | letter after below other =>
        rw [readDigits_append below.digits below.lt, readDigits, digit?_eq, other]
        rfl
    | large after below digit reached =>
        rw [Nat.ofDigitChars_append] at reached
        rw [readDigits_append below.digits below.lt, readDigits_cons digit,
          if_neg (Nat.not_lt.mpr reached)]

/-! ## Texts -/

/-- A text without the plus sign in front of it. -/
def unsigned : List Char → List Char
  | '+' :: rest => rest
  | text => text

/-- The text stands for a number: digits, at least one, with or without a plus sign. -/
structure Spells (text : List Char) (n : Nat) : Prop where
  ne_nil : unsigned text ≠ []
  digits : ∀ c ∈ unsigned text, c.isDigit = true
  value : Nat.ofDigitChars 10 (unsigned text) 0 = n

/-- What is wrong first with a text that is no number below the limit. -/
inductive HasDefect (limit : Nat) : List Char → Defect → Prop
  | empty : HasDefect limit [] .empty
  | sign : HasDefect limit ['+'] .invalidDigit
  | stops {text : List Char} {defect : Defect} :
      Stops limit 0 (unsigned text) defect → HasDefect limit text defect

theorem unsigned_of_ne {text : List Char} (other : ∀ rest, text ≠ '+' :: rest) :
    unsigned text = text := by
  unfold unsigned
  split
  next rest => exact absurd rfl (other rest)
  next => rfl

theorem read_eq (limit : Nat) (text : List Char) :
    read limit text =
      if unsigned text = [] then .error (if text = [] then .empty else .invalidDigit)
      else readDigits limit 0 (unsigned text) := by
  unfold read
  split
  next => rfl
  next => rfl
  next rest more =>
    have some_ : unsigned ('+' :: rest) ≠ [] := more
    rw [if_neg some_, unsigned]
  next some_ _ plus =>
    rw [unsigned_of_ne plus, if_neg some_]

/-- The numbers below the limit are read, and nothing else. -/
theorem read_eq_ok_iff {limit n : Nat} (positive : 0 < limit) {text : List Char} :
    read limit text = .ok n ↔ Spells text n ∧ n < limit := by
  rw [read_eq]
  split
  next none =>
    refine iff_of_false (fun read => nomatch read) ?_
    rintro ⟨spelt, -⟩
    exact spelt.ne_nil none
  next some_ =>
    rw [readDigits_eq_ok_iff positive]
    constructor
    · rintro ⟨digits, value, lt⟩
      exact ⟨⟨some_, digits, value⟩, lt⟩
    · rintro ⟨spelt, lt⟩
      exact ⟨spelt.digits, spelt.value, lt⟩

/-- Of any other text the first defect is reported. -/
theorem read_eq_error_iff {limit : Nat} (positive : 0 < limit) {text : List Char}
    {defect : Defect} : read limit text = .error defect ↔ HasDefect limit text defect := by
  have nothing {d : Defect} : ¬ Stops limit 0 [] d := by
    intro stops
    exact nomatch (readDigits_eq_error_iff positive).mpr stops
  rw [read_eq]
  split
  next none =>
    constructor
    · intro read
      obtain rfl := Except.error.inj read
      unfold unsigned at none
      split at none
      next =>
        subst none
        exact .sign
      next =>
        subst none
        exact .empty
    · intro wrong
      cases wrong with
      | empty => rfl
      | sign => rfl
      | stops stops => exact absurd (none ▸ stops) nothing
  next some_ =>
    rw [readDigits_eq_error_iff positive]
    constructor
    · exact .stops
    · intro wrong
      cases wrong with
      | empty => exact absurd rfl some_
      | sign => exact absurd rfl some_
      | stops stops => exact stops

/-! ## Written numbers -/

theorem unsigned_digits (n : Nat) : unsigned (digits n) = digits n := by
  have noPlus : '+' ∉ digits n := fun mem =>
    absurd (Nat.isDigit_of_mem_toDigits (by decide) (by decide) mem) (by decide)
  exact unsigned_of_ne fun rest text => noPlus (text ▸ List.mem_cons_self)

theorem spells_natural (n : Nat) : Spells (natural n).toList n := by
  rw [natural, String.toList_ofList]
  constructor
  · rw [unsigned_digits]
    exact Nat.toDigits_ne_nil
  · rw [unsigned_digits]
    exact fun c mem => Nat.isDigit_of_mem_toDigits (by decide) (by decide) mem
  · rw [unsigned_digits]
    exact Nat.ofDigitChars_toDigits (by decide) (by decide)

/-- A number below the limit is read as itself. -/
theorem read_natural {limit n : Nat} (small : n < limit) :
    read limit (natural n).toList = .ok n :=
  (read_eq_ok_iff (Nat.zero_lt_of_lt small)).mpr ⟨spells_natural n, small⟩

end SqlGen.Decimal
