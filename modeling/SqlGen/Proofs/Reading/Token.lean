import SqlGen.Proofs.Reading.Term
import SqlGen.Text.Blank

/-!
# Tokens

The text of an expression as a reader sees it.  An operand is one word: it runs up to the next
white space or closing parenthesis that is inside neither quotes nor parentheses of its own, so
a column, a literal and a whole call are words.  `Nesting` keeps track of quotes and
parentheses.  A minus sign at the start of a word is a token of its own, and two in a row
start a comment, which is no token at all.

`lex_text` says that the text of a term whose operands are words is read as its tokens.
-/

namespace SqlGen.Reading

/-! ## Quotes and parentheses -/

/-- The quotes and parentheses that are open at a place in a text. -/
structure Nesting where
  depth : Nat := 0
  mark : Option Char := none
deriving DecidableEq, Repr

namespace Nesting

/-- What is open after one more character, if the parentheses match. -/
def next (n : Nesting) (c : Char) : Option Nesting :=
  match n.mark with
  | some q => some { n with mark := if c = q then none else some q }
  | none =>
      if c = '"' ∨ c = '\'' then some { n with mark := some c }
      else if c = '(' then some { n with depth := n.depth + 1 }
      else if c = ')' then
        match n.depth with
        | 0 => none
        | depth + 1 => some { n with depth }
      else some n

/-- A word that is open up to here ends before the character. -/
def endsBefore (n : Nesting) (c : Char) : Bool :=
  n = {} && (Text.isBlank c || c == ')')

/-- What is open after the characters of one word. -/
def scan : Nesting → List Char → Option Nesting
  | n, [] => some n
  | n, c :: rest => if n.endsBefore c then none else (n.next c).bind fun n' => n'.scan rest

/-- A word that goes on with a character does not end before it. -/
theorem scan_cons {n n' : Nesting} {c : Char} {rest : List Char}
    (h : n.scan (c :: rest) = some n') :
    n.endsBefore c = false ∧ ∃ n₁, n.next c = some n₁ ∧ n₁.scan rest = some n' := by
  rw [scan] at h
  split at h
  next => cases h
  next inside => exact ⟨Bool.eq_false_iff.mpr inside, Option.bind_eq_some_iff.mp h⟩

end Nesting

/-! ## Tokens -/

inductive Token where
  | operand (text : String)
  | symbol (op : BinaryOp)
  | not
  | is
  | opening
  | closing
deriving DecidableEq, Repr

def Token.ofWord (word : String) : Token :=
  match BinaryOp.ofSymbol? word with
  | some op => .symbol op
  | none => if word = "NOT" then .not else if word = "IS" then .is else .operand word

/-- Where a reader stands in a text. -/
inductive Place where
  | gap
  | minus
  /-- Inside a word, with its characters so far, the last one first. -/
  | word (sofar : List Char) (n : Nesting)
deriving DecidableEq

/-- The tokens of a text, read on from a place. -/
def lex : Place → List Char → Option (List Token)
  | .word sofar n, [] =>
      if n = {} then some [.ofWord (String.ofList sofar.reverse)] else none
  | _, [] => some []
  | .word sofar n, c :: rest =>
      if n.endsBefore c then
        (lex .gap rest).map fun ts =>
          .ofWord (String.ofList sofar.reverse) :: if c = ')' then .closing :: ts else ts
      else
        match n.next c with
        | some n' => lex (.word (c :: sofar) n') rest
        | none => none
  | place, c :: rest =>
      if Text.isBlank c then lex .gap rest
      else if c = '(' then (lex .gap rest).map fun ts => .opening :: ts
      else if c = ')' then (lex .gap rest).map fun ts => .closing :: ts
      else if c = '-' then
        if place = .minus then none else (lex .minus rest).map fun ts => .symbol .subtract :: ts
      else
        match Nesting.next {} c with
        | some n => lex (.word [c] n) rest
        | none => none

structure IsOperand (s : String) : Prop where
  /-- It opens with none of the characters that are tokens of their own. -/
  starts : ∃ c rest, s.toList = c :: rest ∧ c ≠ '-' ∧ c ≠ '('
  scan : Nesting.scan {} s.toList = some {}
  ofWord : Token.ofWord s = .operand s

/-- The text goes on with the end of a word. -/
def Boundary : List Char → Prop
  | [] => True
  | c :: _ => Text.isBlank c = true ∨ c = ')'

theorem isBlank_space : Text.isBlank ' ' = true := rfl

theorem boundary_blank (rest : List Char) : Boundary (' ' :: rest) := .inl isBlank_space

example : lex .gap "f(a, ')') - -(1e-5)".toList =
    some [.operand "f(a, ')')", .symbol .subtract, .symbol .subtract, .opening, .operand "1e-5",
      .closing] := by decide +kernel
example : lex .gap "a --b".toList = none := by decide +kernel

/-! ## Steps between words -/

/-- A place outside words. -/
def Place.Outside : Place → Prop
  | .word _ _ => False
  | _ => True

theorem lex_blank {c : Char} (h : Text.isBlank c = true) (rest : List Char) :
    lex .gap (c :: rest) = lex .gap rest := by
  simp [lex, h]

theorem lex_space (rest : List Char) : lex .gap (' ' :: rest) = lex .gap rest :=
  lex_blank isBlank_space rest

theorem lex_opening {p : Place} (hp : p.Outside) (rest : List Char) :
    lex p ('(' :: rest) = (lex .gap rest).map fun ts => .opening :: ts := by
  cases p with
  | gap => rfl
  | minus => rfl
  | word sofar n => exact hp.elim

theorem lex_closing (rest : List Char) :
    lex .gap (')' :: rest) = (lex .gap rest).map fun ts => .closing :: ts := rfl

theorem lex_minus (rest : List Char) :
    lex .gap ('-' :: rest) = (lex .minus rest).map fun ts => .symbol .subtract :: ts := rfl

/-! ## Words -/

theorem lex_word {s : List Char} {n : Nesting} (h : n.scan s = some {}) (sofar : List Char)
    {rest : List Char} (hb : Boundary rest) :
    lex (.word sofar n) (s ++ rest) =
      (lex .gap rest).map fun ts => .ofWord (String.ofList (sofar.reverse ++ s)) :: ts := by
  induction s generalizing n sofar with
  | nil =>
      have closed : n = {} := by simpa [Nesting.scan] using h
      subst closed
      cases rest with
      | nil => simp [lex]
      | cons c rest =>
          rcases hb with blank | rfl
          · have ne : c ≠ ')' := by
              rintro rfl
              cases blank
            rw [lex_blank blank]
            simp [lex, Nesting.endsBefore, blank, ne]
          · rw [lex_closing]
            simp [lex, Nesting.endsBefore, Function.comp_def]
  | cons c s ih =>
      obtain ⟨inside, n', hn, hs⟩ := Nesting.scan_cons h
      have step : lex (.word sofar n) (c :: (s ++ rest)) =
          lex (.word (c :: sofar) n') (s ++ rest) := by
        simp [lex, inside, hn]
      rw [List.cons_append, step, ih hs]
      simp

/-- A character that is no token of its own starts a word. -/
theorem lex_start {p : Place} (hp : p.Outside) {c : Char} (hb : ({} : Nesting).endsBefore c = false)
    (hm : c ≠ '-') (ho : c ≠ '(') {n : Nesting} (hn : Nesting.next {} c = some n)
    (rest : List Char) : lex p (c :: rest) = lex (.word [c] n) rest := by
  have hb' : Text.isBlank c = false ∧ c ≠ ')' := by
    simpa [Nesting.endsBefore] using hb
  cases p with
  | gap => simp [lex, hb', hm, ho, hn]
  | minus => simp [lex, hb', hm, ho, hn]
  | word sofar n => exact hp.elim

/-- A word that starts with no token of its own is read as its token. -/
theorem lex_scan {p : Place} (hp : p.Outside) {s rest : List Char} (hb : Boundary rest)
    (starts : ∃ c tail, s = c :: tail ∧ c ≠ '-' ∧ c ≠ '(') (h : Nesting.scan {} s = some {}) :
    lex p (s ++ rest) = (lex .gap rest).map fun ts => .ofWord (String.ofList s) :: ts := by
  obtain ⟨c, tail, rfl, hm, ho⟩ := starts
  obtain ⟨inside, n, hn, hs⟩ := Nesting.scan_cons h
  rw [List.cons_append, lex_start hp inside hm ho hn, lex_word hs [c] hb]
  rfl

theorem lex_operand {p : Place} (hp : p.Outside) {s : String} (h : IsOperand s)
    {rest : List Char} (hb : Boundary rest) :
    lex p (s.toList ++ rest) = (lex .gap rest).map fun ts => .operand s :: ts := by
  rw [lex_scan hp hb h.starts h.scan, String.ofList_toList, h.ofWord]

theorem lex_not {p : Place} (hp : p.Outside) (rest : List Char) :
    lex p ("NOT".toList ++ ' ' :: rest) = (lex .gap rest).map fun ts => .not :: ts := by
  rw [lex_scan hp (boundary_blank _) ⟨'N', ['O', 'T'], by simp⟩ rfl,
    lex_space]
  rfl

theorem lex_isNull {rest : List Char} (hb : Boundary rest) :
    lex .gap (" IS NULL".toList ++ rest) =
      (lex .gap rest).map fun ts => .is :: .operand "NULL" :: ts := by
  have split : " IS NULL".toList ++ rest =
      ' ' :: ("IS".toList ++ ' ' :: ("NULL".toList ++ rest)) := rfl
  rw [split, lex_space,
    lex_scan (p := .gap) trivial (boundary_blank _) ⟨'I', ['S'], by simp⟩ rfl,
    lex_space,
    lex_scan (p := .gap) trivial hb ⟨'N', ['U', 'L', 'L'], by simp⟩ rfl, Option.map_map]
  rfl

theorem lex_isNotNull {rest : List Char} (hb : Boundary rest) :
    lex .gap (" IS NOT NULL".toList ++ rest) =
      (lex .gap rest).map fun ts => .is :: .not :: .operand "NULL" :: ts := by
  have split : " IS NOT NULL".toList ++ rest =
      ' ' :: ("IS".toList ++ ' ' :: ("NOT".toList ++ ' ' :: ("NULL".toList ++ rest))) := rfl
  rw [split, lex_space,
    lex_scan (p := .gap) trivial (boundary_blank _) ⟨'I', ['S'], by simp⟩ rfl,
    lex_space, lex_not (p := .gap) trivial,
    lex_scan (p := .gap) trivial hb ⟨'N', ['U', 'L', 'L'], by simp⟩ rfl, Option.map_map,
    Option.map_map]
  rfl

theorem lex_symbol (op : BinaryOp) (rest : List Char) :
    lex .gap (op.symbol.toList ++ ' ' :: rest) =
      (lex .gap rest).map fun ts => .symbol op :: ts := by
  by_cases sub : op = .subtract
  · subst sub
    rfl
  · have hb : Boundary (' ' :: rest) := boundary_blank rest
    have starts : ∃ c tail, op.symbol.toList = c :: tail ∧ c ≠ '-' ∧ c ≠ '(' := by
      revert sub
      cases op <;> simp [BinaryOp.symbol]
    have scan : Nesting.scan {} op.symbol.toList = some {} := by
      cases op <;> rfl
    have word : Token.ofWord op.symbol = .symbol op := by
      simp [Token.ofWord, BinaryOp.ofSymbol?_symbol]
    rw [lex_scan (p := .gap) trivial (boundary_blank _) starts scan, String.ofList_toList, word,
      lex_space]

/-! ## The text and the tokens of a term -/

namespace Term

/-- Text between parentheses where they are needed. -/
def enclose (needed : Bool) (text : List Char) : List Char :=
  if needed then '(' :: (text ++ [')']) else text

/-- Tokens between parentheses where they are needed. -/
def encloseTokens (needed : Bool) (tokens : List Token) : List Token :=
  if needed then .opening :: (tokens ++ [.closing]) else tokens

def text : Term → List Char
  | .operand s => s.toList
  | .unary .not t => "NOT".toList ++ ' ' :: enclose (enclosesOperand .not t) t.text
  | .unary .negate t => '-' :: enclose (enclosesOperand .negate t) t.text
  | .unary .isNull t => enclose (enclosesOperand .isNull t) t.text ++ " IS NULL".toList
  | .unary .isNotNull t =>
      enclose (enclosesOperand .isNotNull t) t.text ++ " IS NOT NULL".toList
  | .binary op l r =>
      enclose (enclosesLeft op l) l.text ++
        ' ' :: (op.symbol.toList ++ ' ' :: enclose (enclosesRight op r) r.text)

def tokens : Term → List Token
  | .operand s => [.operand s]
  | .unary .not t => .not :: encloseTokens (enclosesOperand .not t) t.tokens
  | .unary .negate t => .symbol .subtract :: encloseTokens (enclosesOperand .negate t) t.tokens
  | .unary .isNull t =>
      encloseTokens (enclosesOperand .isNull t) t.tokens ++ [.is, .operand "NULL"]
  | .unary .isNotNull t =>
      encloseTokens (enclosesOperand .isNotNull t) t.tokens ++ [.is, .not, .operand "NULL"]
  | .binary op l r =>
      encloseTokens (enclosesLeft op l) l.tokens ++
        .symbol op :: encloseTokens (enclosesRight op r) r.tokens

def IsReadable : Term → Prop
  | .operand s => IsOperand s
  | .unary _ t => t.IsReadable
  | .binary _ l r => l.IsReadable ∧ r.IsReadable

/-- The text can be read from a place.  After a minus sign no other one may follow. -/
def Follows (t : Term) : Place → Prop
  | .gap => True
  | .minus => ∀ rest, t.text ≠ '-' :: rest
  | .word _ _ => False

theorem Follows.outside {t : Term} {p : Place} (h : t.Follows p) : p.Outside := by
  cases p with
  | gap => trivial
  | minus => trivial
  | word sofar n => exact h

/-- The operand of a minus sign starts with none of its own if it has no parentheses. -/
theorem follows_minus {t : Term} (ht : t.IsReadable) (bare : enclosesOperand .negate t = false) :
    t.Follows .minus := by
  cases t with
  | operand s =>
      intro rest same
      obtain ⟨c, tail, text, minus, -⟩ := IsOperand.starts ht
      rw [Term.text, text] at same
      exact minus (List.cons.inj same).1
  | unary op t => simp [enclosesOperand, op.precedence_le_negate] at bare
  | binary op l r => simp [enclosesOperand, op.precedence_le_negate] at bare

/-- The start of a text follows what the text follows. -/
theorem Follows.start {t u : Term} {p : Place} (h : t.Follows p) {more : List Char}
    (same : t.text = u.text ++ more) : u.Follows p := by
  cases p with
  | gap => trivial
  | minus =>
      intro rest hu
      exact h (rest ++ more) (by rw [same, hu]; rfl)
  | word sofar n => exact h.elim

theorem lex_enclose {t : Term} {b : Bool} {p : Place} (hp : p.Outside)
    (bare : b = false → t.Follows p) {rest : List Char} (hb : Boundary rest)
    (ih : ∀ {p : Place} {rest : List Char}, t.Follows p → Boundary rest →
      lex p (t.text ++ rest) = (lex .gap rest).map fun ts => t.tokens ++ ts) :
    lex p (enclose b t.text ++ rest) =
      (lex .gap rest).map fun ts => encloseTokens b t.tokens ++ ts := by
  cases b with
  | false => exact ih (bare rfl) hb
  | true =>
      have inner : lex .gap (t.text ++ ')' :: rest) =
          (lex .gap (')' :: rest)).map fun ts => t.tokens ++ ts := ih trivial (Or.inr rfl)
      simp only [enclose, encloseTokens, if_true, List.cons_append, List.append_assoc,
        List.nil_append, lex_opening hp, inner, lex_closing, Option.map_map]
      rfl

/-- The text of a term is read as its tokens. -/
theorem lex_text {t : Term} (ht : t.IsReadable) :
    ∀ {p : Place} {rest : List Char}, t.Follows p → Boundary rest →
      lex p (t.text ++ rest) = (lex .gap rest).map fun ts => t.tokens ++ ts := by
  induction t with
  | operand s =>
      intro p rest hp hb
      exact lex_operand hp.outside ht hb
  | unary op t ih =>
      intro p rest hp hb
      have inner {q : Place} (hq : q.Outside) {b : Bool} (bare : b = false → t.Follows q)
          {rest : List Char} (hb : Boundary rest) := lex_enclose hq bare hb (ih ht)
      cases op with
      | not =>
          simp only [text, tokens, List.append_assoc, List.cons_append]
          rw [lex_not hp.outside, inner (q := .gap) trivial (fun _ => trivial) hb, Option.map_map]
          rfl
      | negate =>
          cases p with
          | gap =>
              simp only [text, tokens, List.cons_append]
              rw [lex_minus, inner (q := .minus) trivial (follows_minus ht) hb, Option.map_map]
              rfl
          | minus => exact absurd rfl (hp _)
          | word sofar n => exact hp.elim
      | isNull =>
          have bare (h : enclosesOperand .isNull t = false) : t.Follows p :=
            hp.start (by rw [text, h]; rfl)
          have gap : Boundary (" IS NULL".toList ++ rest) := boundary_blank _
          simp only [text, tokens, List.append_assoc]
          rw [inner hp.outside bare gap, lex_isNull hb, Option.map_map]
          rfl
      | isNotNull =>
          have bare (h : enclosesOperand .isNotNull t = false) : t.Follows p :=
            hp.start (by rw [text, h]; rfl)
          have gap : Boundary (" IS NOT NULL".toList ++ rest) := boundary_blank _
          simp only [text, tokens, List.append_assoc]
          rw [inner hp.outside bare gap, lex_isNotNull hb, Option.map_map]
          rfl
  | binary op l r ihl ihr =>
      intro p rest hp hb
      have bare (h : enclosesLeft op l = false) : l.Follows p :=
        hp.start (by rw [text, h]; rfl)
      simp only [text, tokens, List.append_assoc, List.cons_append]
      rw [lex_enclose hp.outside bare (boundary_blank _) (ihl ht.1), lex_space,
        lex_symbol, lex_enclose (p := .gap) trivial (fun _ => trivial) hb (ihr ht.2),
        Option.map_map, Option.map_map]
      rfl

/-- A whole text is read as the tokens of its term. -/
theorem lex_gap_text {t : Term} (ht : t.IsReadable) : lex .gap t.text = some t.tokens := by
  have whole : lex .gap (t.text ++ []) = (lex .gap []).map fun ts => t.tokens ++ ts :=
    lex_text ht trivial trivial
  simpa [lex] using whole

end Term

end SqlGen.Reading
