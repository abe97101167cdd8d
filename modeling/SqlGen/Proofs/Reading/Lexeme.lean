import SqlGen.Proofs.Reading.Words

/-!
# Lexemes

The smallest parts of a statement: words, quoted identifiers and strings, placeholders and signs.
A reader takes one character after the other and knows where it stands (`Cursor`).  A mark that its
own quotes hold is written twice, so it is the character behind a mark that tells whether the quotes
have ended.

`Reads follow text ts` says that a text is read as the lexemes `ts`, whatever goes on behind it with
a character that passes the test `follow`.  Behind a word that is no letter, and behind quotes it is
not their mark.  `Reads.append` puts two texts together.
-/

namespace SqlGen.Reading

inductive Lexeme where
  /-- A key word, a number or the name of a function. -/
  | word (text : String)
  | identifier (name : String)
  | string (content : String)
  | placeholder (name : String)
  | sign (c : Char)
  /-- Quotes that are open where the text ends. -/
  | unclosed
deriving DecidableEq, Repr

def Lexeme.ofWord : List Char → Lexeme
  | '@' :: name => .placeholder (String.ofList name)
  | text => .word (String.ofList text)

/-- Identifiers stand between double quotes, and strings between single ones. -/
def Lexeme.ofQuoted (mark : Char) (content : List Char) : Lexeme :=
  if mark = '"' then .identifier (String.ofList content) else .string (String.ofList content)

/-- The characters that are lexemes of their own. -/
def signs : List Char := ['(', ')', ',', ';', '=']

/-- A character of words. -/
def isLetter (c : Char) : Bool := Nesting.isPlain c && !signs.contains c

/-! ## Reading -/

/-- Where a reader stands in a text.  Characters so far are kept with the last one first. -/
inductive Cursor where
  | gap
  | word (sofar : List Char)
  | quoted (mark : Char) (sofar : List Char)
  /-- Behind a mark that ends the quotes, unless the same one follows. -/
  | ended (mark : Char) (sofar : List Char)
deriving DecidableEq

namespace Cursor

/-- What the end of the text makes of the characters so far. -/
def finish : Cursor → List Lexeme
  | .gap => []
  | .word sofar => [.ofWord sofar.reverse]
  | .quoted _ _ => [.unclosed]
  | .ended q sofar => [.ofQuoted q sofar.reverse]

/-- One character outside of words and quotes. -/
def start (c : Char) : List Lexeme × Cursor :=
  if Text.isBlank c then ([], .gap)
  else if signs.contains c then ([.sign c], .gap)
  else if c = '"' ∨ c = '\'' then ([], .quoted c [])
  else ([], .word [c])

/-- One more character, with the lexemes that it completes. -/
def next : Cursor → Char → List Lexeme × Cursor
  | .gap, c => start c
  | .word sofar, c =>
      if isLetter c then ([], .word (c :: sofar))
      else (.ofWord sofar.reverse :: (start c).1, (start c).2)
  | .quoted q sofar, c => ([], if c = q then .ended q sofar else .quoted q (c :: sofar))
  | .ended q sofar, c =>
      if c = q then ([], .quoted q (c :: sofar))
      else (.ofQuoted q sofar.reverse :: (start c).1, (start c).2)

/-- The lexemes that a text completes, and where the reader stands behind it. -/
def run : Cursor → List Char → List Lexeme × Cursor
  | p, [] => ([], p)
  | p, c :: rest => ((p.next c).1 ++ ((p.next c).2.run rest).1, ((p.next c).2.run rest).2)

def inWord : Cursor → Bool
  | .word _ => true
  | _ => false

/-- The lexemes of the text that is left. -/
def read (p : Cursor) (text : List Char) : List Lexeme := (p.run text).1 ++ (p.run text).2.finish

theorem read_cons (p : Cursor) (c : Char) (rest : List Char) :
    p.read (c :: rest) = (p.next c).1 ++ (p.next c).2.read rest := by
  simp [read, run]

theorem read_append (p : Cursor) (a b : List Char) :
    p.read (a ++ b) = (p.run a).1 ++ (p.run a).2.read b := by
  induction a generalizing p with
  | nil => rfl
  | cons c rest ih => rw [List.cons_append, read_cons, ih, run, List.append_assoc]

end Cursor

/-- The lexemes of a text. -/
def lexemes (sql : String) : List Lexeme := Cursor.gap.read sql.toList

example : lexemes "SET \"a\"\"b\" = @p0, c = 'it''s';" =
    [.word "SET", .identifier "a\"b", .sign '=', .placeholder "p0", .sign ',', .word "c",
      .sign '=', .string "it's", .sign ';'] := by decide +kernel

/-! ## Texts and what stands behind them -/

/-- The text ends or goes on with a character that passes the test. -/
def GoesOn (follow : Char → Bool) (rest : List Char) : Prop := ∀ c ∈ rest.head?, follow c = true

/-- A character that goes on with neither a word nor quotes. -/
def isApart (c : Char) : Bool := Text.isBlank c || signs.contains c

/-- In front of a rest that the test allows, the text is read as the lexemes, and the reader goes on
with the rest as with a text of its own. -/
def Reads (follow : Char → Bool) (text : String) (ts : List Lexeme) : Prop :=
  ∀ rest, GoesOn follow rest →
    Cursor.gap.read (text.toList ++ rest) = ts ++ Cursor.gap.read rest

namespace Reads

variable {follow test : Char → Bool} {a b : String} {ts us : List Lexeme}

theorem nil : Reads follow "" [] := fun _ _ => rfl

theorem mono (h : Reads follow a ts) (stricter : ∀ c, test c = true → follow c = true) :
    Reads test a ts :=
  fun rest behind => h rest fun c first => stricter c (behind c first)

theorem append (ha : Reads follow a ts) (hb : Reads test b us)
    (behind : ∀ rest, GoesOn test rest → GoesOn follow (b.toList ++ rest)) :
    Reads test (a ++ b) (ts ++ us) := by
  intro rest goesOn
  rw [String.toList_append, List.append_assoc, ha _ (behind rest goesOn), hb rest goesOn,
    List.append_assoc]

/-- A text that leaves the reader in a gap may stand in front of anything. -/
theorem of_run (h : Cursor.gap.run a.toList = (ts, .gap)) : Reads (fun _ => true) a ts := by
  intro rest _
  rw [Cursor.read_append, h]

theorem free (h : Reads (fun _ => true) a ts) : Reads test a ts :=
  h.mono fun _ _ => rfl

/-- A text that leaves the reader in a gap goes on with anything. -/
theorem followed (ha : Reads (fun _ => true) a ts) (hb : Reads test b us) :
    Reads test (a ++ b) (ts ++ us) :=
  ha.append hb fun _ _ _ _ => rfl

theorem lexemes_eq (h : Reads follow a ts) : lexemes a = ts := by
  have whole := h [] (by simp [GoesOn])
  simpa [lexemes, Cursor.read, Cursor.run, Cursor.finish] using whole

end Reads

theorem isLetter_of_isApart {c : Char} (h : isApart c = true) : isLetter c = false := by
  rcases Bool.or_eq_true_iff.mp h with blank | sign
  · simp [isLetter, Nesting.isPlain, blank]
  · rw [isLetter, sign]
    simp

theorem ne_mark_of_isApart {c q : Char} (h : isApart c = true) (hq : Nesting.IsMark q) :
    (c != q) = true := by
  have mark : isApart q = false := by
    rcases hq with rfl | rfl <;> rfl
  exact bne_iff_ne.mpr fun same => Bool.false_ne_true (mark.symm.trans (same ▸ h))

/-- A reader who has come to the end of a lexeme goes on as in a gap. -/
theorem read_leave {p : Cursor} {t : Lexeme} {follow : Char → Bool} (finish : p.finish = [t])
    (next : ∀ c, follow c = true → p.next c = (t :: (Cursor.start c).1, (Cursor.start c).2))
    {rest : List Char} (behind : GoesOn follow rest) :
    p.read rest = t :: Cursor.gap.read rest := by
  cases rest with
  | nil => exact finish
  | cons c rest =>
      rw [Cursor.read_cons, Cursor.read_cons, next c (behind c rfl)]
      rfl

/-- A text that starts with a character apart and leaves the reader in a gap. -/
structure Separates (text : String) (ts : List Lexeme) : Prop where
  starts : ∃ c more, text.toList = c :: more ∧ isApart c = true
  run : Cursor.gap.run text.toList = (ts, .gap)

theorem Separates.reads {text : String} {ts : List Lexeme} (h : Separates text ts) :
    Reads (fun _ => true) text ts :=
  .of_run h.run

theorem Reads.close {a b : String} {ts us : List Lexeme} (ha : Reads isApart a ts)
    (hb : Separates b us) : Reads (fun _ => true) (a ++ b) (ts ++ us) := by
  refine ha.append hb.reads fun rest _ c first => ?_
  obtain ⟨x, more, text, apart⟩ := hb.starts
  rw [text] at first
  obtain rfl := Option.some.inj first
  exact apart

/-! ## Words -/

theorem start_letter {c : Char} (h : isLetter c = true) : Cursor.start c = ([], .word [c]) := by
  simp only [isLetter, Nesting.isPlain, Bool.and_eq_true, Bool.not_eq_true', bne_iff_ne] at h
  obtain ⟨⟨⟨⟨⟨blank, double⟩, single⟩, -⟩, -⟩, sign⟩ := h
  have noSign : c ∉ signs := by simpa using sign
  simp [Cursor.start, blank, double, single, noSign]

theorem run_letters {s : List Char} (letters : ∀ c ∈ s, isLetter c = true) (sofar : List Char) :
    (Cursor.word sofar).run s = ([], .word (s.reverse ++ sofar)) := by
  induction s generalizing sofar with
  | nil => rfl
  | cons c rest ih =>
      have first := letters c List.mem_cons_self
      have later := ih (fun x mem => letters x (List.mem_cons_of_mem c mem)) (c :: sofar)
      simp [Cursor.run, Cursor.next, first, later]

/-- A text that ends in a word goes on with anything but a letter. -/
theorem Reads.of_word {text : String} {ts : List Lexeme}
    (inWord : (Cursor.gap.run text.toList).2.inWord = true) (read : lexemes text = ts) :
    Reads (fun c => !isLetter c) text ts := by
  intro rest behind
  rw [← read, Cursor.read_append]
  cases place : (Cursor.gap.run text.toList).2 with
  | word sofar =>
      have left : (Cursor.word sofar).read rest =
          Lexeme.ofWord sofar.reverse :: Cursor.gap.read rest := by
        refine read_leave rfl (fun x apart => ?_) behind
        have noLetter : isLetter x = false := by simpa using apart
        simp [Cursor.next, noLetter]
      have whole : lexemes text =
          (Cursor.gap.run text.toList).1 ++ [.ofWord sofar.reverse] := by
        rw [lexemes, Cursor.read, place, Cursor.finish]
      rw [left, whole, List.append_assoc]
      rfl
  | gap | quoted _ _ | ended _ _ =>
      rw [place] at inWord
      cases inWord

/-- What is apart from words is no letter. -/
theorem Reads.apart {text : String} {ts : List Lexeme}
    (h : Reads (fun c => !isLetter c) text ts) : Reads isApart text ts :=
  h.mono fun c apart => by simp [isLetter_of_isApart apart]

theorem reads_letters {text : String} {c : Char} {more : List Char}
    (first : text.toList = c :: more)
    (letters : ∀ x ∈ text.toList, isLetter x = true) :
    Reads (fun c => !isLetter c) text [.ofWord text.toList] := by
  rw [first, List.forall_mem_cons] at letters
  have run : Cursor.gap.run text.toList = ([], .word text.toList.reverse) := by
    rw [first, Cursor.run, Cursor.next, start_letter letters.1, run_letters letters.2]
    simp
  refine .of_word (by rw [run]; rfl) ?_
  rw [lexemes, Cursor.read, run, Cursor.finish, List.reverse_reverse]
  rfl

/-- A word that is no placeholder. -/
structure IsWord (text : String) : Prop where
  starts : ∃ c more, text.toList = c :: more ∧ c ≠ '@'
  letters : ∀ c ∈ text.toList, isLetter c = true

theorem IsWord.reads {text : String} (h : IsWord text) : Reads isApart text [.word text] := by
  obtain ⟨c, more, first, other⟩ := h.starts
  have word : Lexeme.ofWord text.toList = .word text := by
    rw [Lexeme.ofWord]
    · rw [String.ofList_toList]
    · intro name same
      rw [first] at same
      exact other (List.cons.inj same).1
  rw [← word]
  exact (reads_letters first h.letters).apart

theorem reads_placeholder {name : String} (letters : ∀ c ∈ name.toList, isLetter c = true) :
    Reads isApart ("@" ++ name) [.placeholder name] := by
  have text : ("@" ++ name).toList = '@' :: name.toList := by simp
  have all : ∀ c ∈ ("@" ++ name).toList, isLetter c = true := by
    rw [text, List.forall_mem_cons]
    exact ⟨rfl, letters⟩
  have word : Lexeme.ofWord ("@" ++ name).toList = .placeholder name := by
    rw [text, Lexeme.ofWord, String.ofList_toList]
  rw [← word]
  exact (reads_letters text all).apart

/-! ## Quotes -/

/-- Quoted text with its closing mark.  A doubled mark is read as one. -/
theorem run_double {q : Char} (s sofar : List Char) :
    (Cursor.quoted q sofar).run (Text.double q s ++ [q]) =
      ([], .ended q (s.reverse ++ sofar)) := by
  induction s generalizing sofar with
  | nil => simp [Cursor.run, Cursor.next]
  | cons c rest ih =>
      by_cases same : c = q
      · -- The first of two marks seems to end the quotes, and the second one opens them again.
        subst same
        simp [Text.double_cons_self, Cursor.run, Cursor.next, ih]
      · simp [Text.double_cons_of_ne same, Cursor.run, Cursor.next, same, ih]

theorem start_mark {q : Char} (hq : Nesting.IsMark q) : Cursor.start q = ([], .quoted q []) := by
  rcases hq with rfl | rfl <;> rfl

theorem reads_quote {q : Char} (hq : Nesting.IsMark q) (s : String) :
    Reads (fun c => c != q) (Text.quote q q s) [.ofQuoted q s.toList] := by
  intro rest behind
  have begun : Cursor.gap.read (q :: (Text.double q s.toList ++ [q]) ++ rest) =
      (Cursor.quoted q []).read (Text.double q s.toList ++ [q] ++ rest) := by
    rw [List.cons_append, Cursor.read_cons, Cursor.next, start_mark hq]
    rfl
  rw [Text.toList_quote, begun, Cursor.read_append, run_double]
  refine read_leave ?_ (fun x other => ?_) behind
  · simp [Cursor.finish]
  · have noMark : x ≠ q := by simpa using other
    simp [Cursor.next, noMark]

theorem reads_identifier (name : String) :
    Reads (fun c => c != '"') (Standard.delimit name) [.identifier name] := by
  have quoted := reads_quote (.inl rfl) name
  rwa [Lexeme.ofQuoted, if_pos rfl, String.ofList_toList] at quoted

theorem reads_string (content : String) :
    Reads (fun c => c != '\'') (Text.quote '\'' '\'' content) [.string content] := by
  have quoted := reads_quote (.inr rfl) content
  rwa [Lexeme.ofQuoted, if_neg (by decide), String.ofList_toList] at quoted

/-! ## Values -/

theorem isLetter_numeral {c : Char} (h : c ∈ numerals ∨ c = '-') : isLetter c = true := by
  have all : ∀ x ∈ '-' :: numerals, isLetter x = true :=
    List.all_eq_true.mp (by decide +kernel)
  rcases h with numeral | rfl
  · exact all c (List.mem_cons_of_mem _ numeral)
  · exact all '-' List.mem_cons_self

/-- The words for values: NULL and numbers with or without a sign. -/
inductive IsConstant : String → Prop where
  | null : IsConstant "NULL"
  | number {text : List Char} (negative : Bool) :
      IsNumber text → IsConstant (String.ofList (if negative then '-' :: text else text))

theorem isConstant_natural (n : Nat) : IsConstant (Decimal.natural n) :=
  .number false (isNumber_digits n)

theorem isConstant_integer (i : Int) : IsConstant (Decimal.integer i) := by
  have signed := IsConstant.number (decide (i < 0)) (isNumber_digits i.natAbs)
  by_cases negative : i < 0
  · simpa [Decimal.integer, Decimal.natural, negative, String.ofList_cons] using signed
  · simpa [Decimal.integer, Decimal.natural, negative] using signed

theorem isConstant_real (bits : UInt64) : IsConstant (Standard.realLiteral bits) := by
  unfold Standard.realLiteral
  cases Decimal.Binary64.ofBits bits with
  | nan => exact .null
  | infinite negative =>
      have number : IsNumber ['9', 'e', '9', '9', '9'] :=
        isNumber_of_forall (by simp) (by simp [numerals])
      have signed := IsConstant.number negative number
      cases negative <;> exact signed
  | finite negative m q => exact .number negative (isNumber_magnitude m q)

theorem IsConstant.isWord {word : String} (h : IsConstant word) : IsWord word := by
  cases h with
  | null => exact ⟨⟨'N', ['U', 'L', 'L'], rfl, by decide⟩, List.all_eq_true.mp (by decide +kernel)⟩
  | number negative number =>
      obtain ⟨c, more, rfl, first, later⟩ := number
      have other : c ≠ '@' := by
        rintro rfl
        exact absurd first (by decide)
      have letters : ∀ x ∈ c :: more, isLetter x = true := by
        rw [List.forall_mem_cons]
        exact ⟨isLetter_numeral (.inl first), fun x mem => isLetter_numeral (later x mem)⟩
      cases negative with
      | false => exact ⟨⟨c, more, String.toList_ofList, other⟩, by simpa using letters⟩
      | true =>
          refine ⟨⟨'-', c :: more, String.toList_ofList, by decide⟩, ?_⟩
          rw [if_pos rfl, String.toList_ofList]
          exact List.forall_mem_cons.mpr ⟨isLetter_numeral (.inr rfl), letters⟩

/-- The lexemes of a value: a constant word or a string, which has the letter X in front of it if it
stands for bytes. -/
inductive IsLiteralOf : List Lexeme → Prop where
  | constant {word : String} : IsConstant word → IsLiteralOf [.word word]
  | string (content : String) : IsLiteralOf [.string content]
  | bytes (digits : String) : IsLiteralOf [.word "X", .string digits]

/-- The lexemes of the literal of a value, with the truth values of a dialect. -/
def literalLexemes (boolean : Bool → String) : Value → List Lexeme
  | .text s => [.string s]
  | .bytes content => [.word "X", .string (String.ofList (Text.hexBytes content))]
  | v => [.word (Standard.literal boolean v)]

theorem reads_bytes (content : List UInt8) :
    Reads (fun c => c != '\'') (Standard.bytesLiteral content)
      [.word "X", .string (String.ofList (Text.hexBytes content))] := by
  have letter : Reads (fun c => !isLetter c) "X" [.word "X"] :=
    .of_word (by decide +kernel) (by decide +kernel)
  rw [bytesLiteral_eq]
  refine letter.append (reads_string _) fun rest _ c first => ?_
  rw [Text.toList_quote] at first
  obtain rfl := Option.some.inj first
  rfl

theorem reads_literal {boolean : Bool → String} (h : ∀ b, IsConstant (boolean b)) (v : Value) :
    Reads isApart (Standard.literal boolean v) (literalLexemes boolean v) := by
  have apart (c : Char) (h : isApart c = true) : (c != '\'') = true :=
    ne_mark_of_isApart h (.inr rfl)
  cases v with
  | null => exact IsConstant.null.isWord.reads
  | boolean b => exact (h b).isWord.reads
  | integer i => exact (isConstant_integer i.toInt).isWord.reads
  | real bits => exact (isConstant_real bits).isWord.reads
  | text s => exact (reads_string s).mono apart
  | bytes content => exact (reads_bytes content).mono apart

theorem isLiteralOf_literalLexemes {boolean : Bool → String} (h : ∀ b, IsConstant (boolean b))
    (v : Value) : IsLiteralOf (literalLexemes boolean v) := by
  cases v with
  | null => exact .constant .null
  | boolean b => exact .constant (h b)
  | integer i => exact .constant (isConstant_integer i.toInt)
  | real bits => exact .constant (isConstant_real bits)
  | text s => exact .string s
  | bytes content => exact .bytes _

/-! ## Lists -/

/-- Lists of lexemes with a separator between them. -/
def separated (separator : Lexeme) : List (List Lexeme) → List Lexeme
  | [] => []
  | [item] => item
  | item :: rest => item ++ separator :: separated separator rest

theorem reads_intercalate {α : Type} {separator : String} {t : Lexeme}
    (gap : Separates separator [t]) {text : α → String} {ts : α → List Lexeme} (xs : List α)
    (items : ∀ x ∈ xs, Reads isApart (text x) (ts x)) :
    Reads isApart (String.intercalate separator (xs.map text)) (separated t (xs.map ts)) := by
  induction xs with
  | nil => exact .nil
  | cons x rest ih =>
      have item := items x List.mem_cons_self
      have later := ih fun y mem => items y (List.mem_cons_of_mem x mem)
      cases rest with
      | nil => exact item
      | cons y more =>
          have whole := (item.close gap).followed later
          simpa [separated] using whole

theorem forall_mem_separated {P : Lexeme → Prop} {separator : Lexeme} (own : P separator)
    {xs : List (List Lexeme)} (items : ∀ x ∈ xs, ∀ t ∈ x, P t) :
    ∀ t ∈ separated separator xs, P t := by
  induction xs with
  | nil => exact fun t mem => absurd mem List.not_mem_nil
  | cons x rest ih =>
      rw [List.forall_mem_cons] at items
      cases rest with
      | nil => exact items.1
      | cons y more =>
          exact List.forall_mem_append.mpr ⟨items.1, List.forall_mem_cons.mpr ⟨own, ih items.2⟩⟩

theorem filterMap_separated {α : Type} {f : Lexeme → Option α} {separator : Lexeme}
    (skipped : f separator = none) (xs : List (List Lexeme)) :
    (separated separator xs).filterMap f = xs.flatMap (List.filterMap f) := by
  induction xs with
  | nil => rfl
  | cons x rest ih =>
      cases rest with
      | nil => simp [separated]
      | cons y more =>
          rw [separated, List.filterMap_append, List.filterMap_cons_none skipped, ih,
            List.flatMap_cons]
          · rfl
          · simp

theorem reads_flatMap {α : Type} {text : α → String} {ts : α → List Lexeme} (xs : List α)
    (items : ∀ x ∈ xs, Reads (fun _ => true) (text x) (ts x)) :
    Reads (fun _ => true) (String.join (xs.map text)) (xs.flatMap ts) := by
  induction xs with
  | nil => exact .nil
  | cons x rest ih =>
      rw [List.map_cons, String.join_cons, List.flatMap_cons]
      exact (items x List.mem_cons_self).followed
        (ih fun y mem => items y (List.mem_cons_of_mem x mem))

/-! ## Statements -/

/-- The statements of a text, each without the semicolon that ends it. -/
def statements : List Lexeme → List (List Lexeme)
  | [] => []
  | t :: rest =>
      if t = .sign ';' then [] :: statements rest
      else
        match statements rest with
        | [] => [[t]]
        | st :: more => (t :: st) :: more

theorem statements_append {st : List Lexeme} (h : .sign ';' ∉ st) (rest : List Lexeme) :
    statements (st ++ .sign ';' :: rest) = st :: statements rest := by
  induction st with
  | nil => rfl
  | cons t more ih =>
      rw [List.mem_cons, not_or] at h
      rw [List.cons_append, statements, if_neg (Ne.symm h.1), ih h.2]

/-- A statement gives a result set: it is a query or has rows returned. -/
def ReturnsRows (st : List Lexeme) : Prop :=
  st.head? = some (.word "SELECT") ∨ .word "RETURNING" ∈ st

instance (st : List Lexeme) : Decidable (ReturnsRows st) :=
  inferInstanceAs (Decidable (_ ∨ _))

/-- A lexeme that neither ends a statement nor makes it return rows. -/
def Lexeme.isInner (t : Lexeme) : Bool := t != .sign ';' && t != .word "RETURNING"

theorem IsConstant.isInner {word : String} (h : IsConstant word) :
    (Lexeme.word word).isInner = true := by
  have other : word ≠ "RETURNING" := by
    intro same
    have letters := congrArg String.toList same
    cases h with
    | null => cases letters
    | number negative number =>
        obtain ⟨c, more, rfl, first, -⟩ := number
        rw [String.toList_ofList] at letters
        cases negative with
        | true => cases letters
        | false =>
            obtain rfl : c = 'R' := Option.some.inj (congrArg List.head? letters)
            exact absurd first (by decide)
  simp [Lexeme.isInner, other]

theorem IsLiteralOf.isInner {ts : List Lexeme} (h : IsLiteralOf ts) : ∀ t ∈ ts, t.isInner := by
  cases h with
  | constant word => exact List.forall_mem_singleton.mpr word.isInner
  | string content => exact List.forall_mem_singleton.mpr rfl
  | bytes digits =>
      exact List.forall_mem_cons.mpr ⟨by decide +kernel, List.forall_mem_singleton.mpr rfl⟩

def Lexeme.placeholder? : Lexeme → Option String
  | .placeholder name => some name
  | _ => none

theorem placeholder_mem_iff {ts : List Lexeme} {name : String} :
    .placeholder name ∈ ts ↔ name ∈ ts.filterMap Lexeme.placeholder? := by
  rw [List.mem_filterMap]
  constructor
  · exact fun mem => ⟨_, mem, rfl⟩
  · rintro ⟨t, mem, named⟩
    cases t with
    | placeholder other =>
        obtain rfl := Option.some.inj named
        exact mem
    | _ => cases named

@[simp] theorem placeholders_word (text : String) (ts : List Lexeme) :
    (Lexeme.word text :: ts).filterMap Lexeme.placeholder? =
      ts.filterMap Lexeme.placeholder? := rfl

@[simp] theorem placeholders_sign (c : Char) (ts : List Lexeme) :
    (Lexeme.sign c :: ts).filterMap Lexeme.placeholder? = ts.filterMap Lexeme.placeholder? := rfl

theorem IsLiteralOf.placeholders {ts : List Lexeme} (h : IsLiteralOf ts) :
    ts.filterMap Lexeme.placeholder? = [] := by
  cases h <;> rfl

end SqlGen.Reading
