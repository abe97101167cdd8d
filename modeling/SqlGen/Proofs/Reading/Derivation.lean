import SqlGen.Proofs.Reading.Token

/-!
# Derivations of terms

The table of precedence as a grammar.  `Derives ts t level` says that the tokens stand for the term
and bind on the level: that of the root, or that of an operand if they stand in parentheses.

An operator that compares asks of both operands that they bind tighter, and so does a test for NULL
of its one operand, so none of these chain.  The other operators may have an operand of their own
level on the left.  A prefix operator may be followed by its own level.
-/

namespace SqlGen.Reading

/-- The least level that the left operand of an operator may bind on. -/
def leftFloor (op : BinaryOp) : Nat := if op.isComparison then op.precedence + 1 else op.precedence

/-- The tokens stand for a term and bind on a level. -/
inductive Derives : List Token → Term → Nat → Prop where
  | operand (s : String) : Derives [.operand s] (.operand s) Precedence.atom
  | parentheses {ts : List Token} {t : Term} {level : Nat} :
      Derives ts t level → Derives (.opening :: (ts ++ [.closing])) t Precedence.atom
  | not {ts : List Token} {t : Term} {level : Nat} :
      Derives ts t level → Precedence.not ≤ level →
      Derives (.not :: ts) (.unary .not t) Precedence.not
  | negate {ts : List Token} {t : Term} {level : Nat} :
      Derives ts t level → Precedence.negate ≤ level →
      Derives (.symbol .subtract :: ts) (.unary .negate t) Precedence.negate
  | isNull {ts : List Token} {t : Term} {level : Nat} :
      Derives ts t level → Precedence.equality < level →
      Derives (ts ++ [.is, .operand "NULL"]) (.unary .isNull t) Precedence.equality
  | isNotNull {ts : List Token} {t : Term} {level : Nat} :
      Derives ts t level → Precedence.equality < level →
      Derives (ts ++ [.is, .not, .operand "NULL"]) (.unary .isNotNull t) Precedence.equality
  | binary (op : BinaryOp) {before after : List Token} {l r : Term} {left right : Nat} :
      Derives before l left → leftFloor op ≤ left →
      Derives after r right → op.precedence < right →
      Derives (before ++ .symbol op :: after) (.binary op l r) op.precedence

theorem precedence_le_leftFloor (op : BinaryOp) : op.precedence ≤ leftFloor op := by
  unfold leftFloor
  split <;> omega

/-- Every level is above that of an open parenthesis. -/
theorem Derives.one_le_level {ts : List Token} {t : Term} {level : Nat} (h : Derives ts t level) :
    1 ≤ level := by
  cases h with
  | operand s => decide
  | parentheses _ => decide
  | not _ _ => decide
  | negate _ _ => decide
  | isNull _ _ => decide
  | isNotNull _ _ => decide
  | binary op _ _ _ _ => exact op.one_le_precedence

/-! ## Derivations of the tokens of a term -/

namespace Term

/-- How tightly an operand binds, with parentheses or without. -/
def levelOf (enclosed : Bool) (t : Term) : Nat :=
  if enclosed then Precedence.atom else t.precedence

theorem le_levelOf {k : Nat} (hk : k ≤ Precedence.atom) {b : Bool} {t : Term}
    (bare : b = false → k ≤ t.precedence) : k ≤ levelOf b t := by
  cases b with
  | false => exact bare rfl
  | true => exact hk

theorem derives_enclose {t : Term} (h : Derives t.tokens t t.precedence) (b : Bool) :
    Derives (encloseTokens b t.tokens) t (levelOf b t) := by
  cases b with
  | false => exact h
  | true => exact h.parentheses

/-- The operand of a prefix operator binds at least as tightly as the operator. -/
theorem le_levelOf_operand (op : UnaryOp) (t : Term) :
    op.precedence ≤ levelOf (enclosesOperand op t) t := by
  refine le_levelOf (Nat.le_of_lt op.precedence_lt_atom) fun bare => ?_
  cases op <;> simp [enclosesOperand] at bare <;> omega

/-- The operand of a test for NULL binds tighter. -/
theorem lt_levelOf_operand {op : UnaryOp} (test : op = .isNull ∨ op = .isNotNull) (t : Term) :
    op.precedence < levelOf (enclosesOperand op t) t := by
  refine le_levelOf op.precedence_lt_atom ?_
  rcases test with rfl | rfl <;> intro bare <;>
    simpa [enclosesOperand, Nat.succ_le_iff] using bare

theorem leftFloor_le_levelOf (op : BinaryOp) (t : Term) :
    leftFloor op ≤ levelOf (enclosesLeft op t) t := by
  unfold leftFloor
  split
  next compares => exact le_levelOf op.precedence_lt_atom (lt_of_enclosesLeft compares)
  next => exact le_levelOf (Nat.le_of_lt op.precedence_lt_atom) le_of_enclosesLeft

/-- The tokens of a term that is nested to the left stand for the term. -/
theorem derives_tokens {t : Term} (ht : t.LeftNested) : Derives t.tokens t t.precedence := by
  induction t with
  | operand s => exact .operand s
  | unary op t ih =>
      have operand := derives_enclose (ih ht) (enclosesOperand op t)
      cases op with
      | not => exact .not operand (le_levelOf_operand .not t)
      | negate => exact .negate operand (le_levelOf_operand .negate t)
      | isNull => exact .isNull operand (lt_levelOf_operand (.inl rfl) t)
      | isNotNull => exact .isNotNull operand (lt_levelOf_operand (.inr rfl) t)
  | binary op l r ihl ihr =>
      obtain ⟨hl, hr, apart⟩ := ht
      exact .binary op (derives_enclose (ihl hl) _) (leftFloor_le_levelOf op l)
        (derives_enclose (ihr hr) _) (le_levelOf op.precedence_lt_atom apart)

end Term

end SqlGen.Reading
