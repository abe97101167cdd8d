import SqlGen.Proofs.Reading.Token

/-!
# Tokens written out

The text of tokens: their words, with a blank between two of them, but none behind an opening
parenthesis or in front of a closing one.  The operands are written as they are.

`Term.text_eq_spell` says that the text of a term without signs is that of its tokens.  A sign would
stand next to its operand.
-/

namespace SqlGen.Reading

def Token.word : Token → List Char
  | .operand s => s.toList
  | .symbol op => op.symbol.toList
  | .not => "NOT".toList
  | .is => "IS".toList
  | .opening => ['(']
  | .closing => [')']

/-- What stands between two tokens. -/
def between (t u : Token) : List Char := if t = .opening ∨ u = .closing then [] else [' ']

def spell : List Token → List Char
  | [] => []
  | [t] => t.word
  | t :: u :: rest => t.word ++ (between t u ++ spell (u :: rest))

example : spell [.not, .opening, .operand "a", .symbol .or, .operand "b", .closing] =
    "NOT (a OR b)".toList := by decide +kernel

/-- Tokens may be taken apart behind any of them. -/
theorem spell_append_cons_cons (before : List Token) (t u : Token) (rest : List Token) :
    spell (before ++ t :: u :: rest) =
      spell (before ++ [t]) ++ (between t u ++ spell (u :: rest)) := by
  induction before with
  | nil => rfl
  | cons x before ih =>
      cases before with
      | nil => simp [spell]
      | cons y more =>
          simp only [List.cons_append, spell] at ih ⊢
          rw [ih]
          simp only [List.append_assoc]

/-! ## Phrases -/

/-- The tokens neither start with a closing parenthesis nor end with an opening one. -/
structure IsPhrase (ts : List Token) : Prop where
  starts : ∃ t rest, ts = t :: rest ∧ t ≠ .closing
  ends : ∃ before t, ts = before ++ [t] ∧ t ≠ .opening

theorem isPhrase_singleton {t : Token} (opening : t ≠ .opening) (closing : t ≠ .closing) :
    IsPhrase [t] := ⟨⟨t, [], rfl, closing⟩, ⟨[], t, rfl, opening⟩⟩

namespace IsPhrase

variable {a b : List Token}

theorem append (ha : IsPhrase a) (hb : IsPhrase b) : IsPhrase (a ++ b) := by
  obtain ⟨t, rest, rfl, closing⟩ := ha.starts
  obtain ⟨before, u, rfl, opening⟩ := hb.ends
  exact ⟨⟨t, _, rfl, closing⟩, ⟨_, u, (List.append_assoc ..).symm, opening⟩⟩

/-- Two phrases have a blank between them. -/
theorem spell_append (ha : IsPhrase a) (hb : IsPhrase b) :
    spell (a ++ b) = spell a ++ ' ' :: spell b := by
  obtain ⟨before, t, rfl, opening⟩ := ha.ends
  obtain ⟨u, rest, rfl, closing⟩ := hb.starts
  have blank : between t u = [' '] := by simp [between, opening, closing]
  rw [List.append_assoc, List.singleton_append, spell_append_cons_cons, blank,
    List.singleton_append]

/-- No blank stands inside of parentheses next to them. -/
theorem spell_parentheses (h : IsPhrase a) :
    spell (.opening :: (a ++ [.closing])) = '(' :: (spell a ++ [')']) := by
  have last : spell (a ++ [.closing]) = spell a ++ [')'] := by
    obtain ⟨before, t, rfl, -⟩ := h.ends
    rw [List.append_assoc, List.singleton_append, spell_append_cons_cons]
    simp [between, spell, Token.word]
  obtain ⟨u, rest, rfl, -⟩ := h.starts
  rw [List.cons_append] at last ⊢
  rw [spell, last]
  rfl

theorem enclose (h : IsPhrase a) (needed : Bool) : IsPhrase (Term.encloseTokens needed a) := by
  cases needed with
  | false => exact h
  | true => exact ⟨⟨.opening, _, rfl, by simp⟩, ⟨.opening :: a, .closing, rfl, by simp⟩⟩

theorem spell_enclose (h : IsPhrase a) (needed : Bool) :
    spell (Term.encloseTokens needed a) = Term.enclose needed (spell a) := by
  cases needed with
  | false => rfl
  | true => exact h.spell_parentheses

end IsPhrase

/-! ## The text of a term -/

namespace Term

theorem isPhrase_tokens (t : Term) : IsPhrase t.tokens := by
  have word {t : Token} (h : t ≠ .opening ∧ t ≠ .closing) : IsPhrase [t] :=
    isPhrase_singleton h.1 h.2
  induction t with
  | operand s => exact word (by simp)
  | unary op t ih =>
      have operand := ih.enclose (enclosesOperand op t)
      have null : IsPhrase [.operand "NULL"] := word (by simp)
      cases op with
      | not => exact (word (t := .not) (by simp)).append operand
      | negate => exact (word (t := .symbol .subtract) (by simp)).append operand
      | isNull => exact operand.append ((word (t := .is) (by simp)).append null)
      | isNotNull =>
          exact operand.append
            ((word (t := .is) (by simp)).append ((word (t := .not) (by simp)).append null))
  | binary op l r ihl ihr =>
      exact (ihl.enclose _).append ((word (t := .symbol op) (by simp)).append (ihr.enclose _))

/-- No operand has a sign in front. -/
def Unsigned : Term → Prop
  | .operand _ => True
  | .unary op t => op ≠ .negate ∧ t.Unsigned
  | .binary _ l r => l.Unsigned ∧ r.Unsigned

/-- A term without signs is written as its tokens. -/
theorem text_eq_spell {t : Term} (ht : t.Unsigned) : t.text = spell t.tokens := by
  induction t with
  | operand s => rfl
  | unary op t ih =>
      have phrase := t.isPhrase_tokens.enclose (enclosesOperand op t)
      have operand : spell (encloseTokens (enclosesOperand op t) t.tokens) =
          enclose (enclosesOperand op t) t.text := by
        rw [t.isPhrase_tokens.spell_enclose, ih ht.2]
      cases op with
      | not =>
          have word : IsPhrase [.not] := isPhrase_singleton (by simp) (by simp)
          rw [text, tokens, ← operand]
          exact (word.spell_append phrase).symm
      | negate => exact absurd rfl ht.1
      | isNull =>
          have words : IsPhrase [.is, .operand "NULL"] :=
            ⟨⟨_, _, rfl, by simp⟩, ⟨[.is], _, rfl, by simp⟩⟩
          rw [text, tokens, phrase.spell_append words, operand]
          rfl
      | isNotNull =>
          have words : IsPhrase [.is, .not, .operand "NULL"] :=
            ⟨⟨_, _, rfl, by simp⟩, ⟨[.is, .not], _, rfl, by simp⟩⟩
          rw [text, tokens, phrase.spell_append words, operand]
          rfl
  | binary op l r ihl ihr =>
      have symbol : IsPhrase [.symbol op] := isPhrase_singleton (by simp) (by simp)
      have left := l.isPhrase_tokens.enclose (enclosesLeft op l)
      have right := r.isPhrase_tokens.enclose (enclosesRight op r)
      have whole := left.spell_append (symbol.append right)
      rw [symbol.spell_append right, l.isPhrase_tokens.spell_enclose,
        r.isPhrase_tokens.spell_enclose, ← ihl ht.1, ← ihr ht.2] at whole
      exact whole.symm

end Term

end SqlGen.Reading
