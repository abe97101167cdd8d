import Mathlib.Tactic.Common
import SqlGen.Expr.Operator

/-!
# Terms

A `Term` is what a reader makes of the text of an operand: operators over operands that
are known by their text alone.  It stands in parentheses where the levels of precedence ask
for them.

The right operand of an associative operator loses its parentheses when the very same
operator is its root.  What is read back is therefore not always the term that was
written: `Term.regroup` moves the left operand of such a node down to the first operand
of the chain that follows it.  The result has no right operand without parentheses on the
level of its operator (`leftNested_regroup`), so it is read as it stands.
-/

namespace SqlGen

/-! ## Levels of operators -/

theorem BinaryOp.one_le_precedence (op : BinaryOp) : 1 ≤ op.precedence := by
  cases op <;> decide

theorem UnaryOp.one_le_precedence (op : UnaryOp) : 1 ≤ op.precedence := by
  cases op <;> decide

/-- Nothing binds tighter than a minus sign but operands. -/
theorem BinaryOp.precedence_le_negate (op : BinaryOp) :
    op.precedence ≤ UnaryOp.negate.precedence := by
  cases op <;> decide

theorem UnaryOp.precedence_le_negate (op : UnaryOp) :
    op.precedence ≤ UnaryOp.negate.precedence := by
  cases op <;> decide

theorem BinaryOp.precedence_lt_atom (op : BinaryOp) : op.precedence < Precedence.atom :=
  Nat.lt_of_le_of_lt op.precedence_le_negate (by decide)

theorem UnaryOp.precedence_lt_atom (op : UnaryOp) : op.precedence < Precedence.atom :=
  Nat.lt_of_le_of_lt op.precedence_le_negate (by decide)

theorem BinaryOp.precedence_ne_atom (op : BinaryOp) : op.precedence ≠ Precedence.atom :=
  Nat.ne_of_lt op.precedence_lt_atom

theorem BinaryOp.isComparison_of_isAssociative (op : BinaryOp) (h : op.isAssociative = true) :
    op.isComparison = false := by
  cases op <;> revert h <;> decide

/-- On a level, all operators compare or none does. -/
theorem BinaryOp.isComparison_congr {op op' : BinaryOp} (h : op'.precedence = op.precedence) :
    op'.isComparison = op.isComparison := by
  revert h
  cases op <;> cases op' <;> decide

/-- The operators that may stand on the level of an associative one are it and operators that
are not associative. -/
theorem BinaryOp.eq_of_isAssociative {op op' : BinaryOp} (h : op.isAssociative = true)
    (h' : op'.isAssociative = true) (hp : op'.precedence = op.precedence) : op' = op := by
  revert h h' hp
  cases op <;> cases op' <;> decide

/-- The operators with a left and a right operand that do not compare share no level with the
operators in front of an operand. -/
theorem UnaryOp.precedence_ne {op : BinaryOp} (h : op.isComparison = false) (op' : UnaryOp) :
    op'.precedence ≠ op.precedence := by
  revert h
  cases op <;> cases op' <;> decide

namespace Reading

/-- A tree of operators over operands that are known by their text. -/
inductive Term where
  | operand (text : String)
  | unary (op : UnaryOp) (t : Term)
  | binary (op : BinaryOp) (left right : Term)
deriving DecidableEq, Repr

namespace Term

/-! ## Parentheses -/

/-- How tightly the root binds. -/
def precedence : Term → Nat
  | .operand _ => Precedence.atom
  | .unary op _ => op.precedence
  | .binary op _ _ => op.precedence

@[simp] theorem precedence_operand (s : String) : (operand s).precedence = Precedence.atom := rfl

@[simp] theorem precedence_unary (op : UnaryOp) (t : Term) :
    (unary op t).precedence = op.precedence := rfl

@[simp] theorem precedence_binary (op : BinaryOp) (l r : Term) :
    (binary op l r).precedence = op.precedence := rfl

theorem one_le_precedence (t : Term) : 1 ≤ t.precedence := by
  cases t with
  | operand s => simp [Precedence.atom]
  | unary op t => exact op.one_le_precedence
  | binary op l r => exact op.one_le_precedence

def isBinary (op : BinaryOp) : Term → Bool
  | .binary op' _ _ => op' == op
  | _ => false

@[simp] theorem isBinary_binary (op op' : BinaryOp) (l r : Term) :
    (binary op' l r).isBinary op = (op' == op) := rfl

theorem precedence_of_isBinary {op : BinaryOp} {t : Term} (h : t.isBinary op = true) :
    t.precedence = op.precedence := by
  cases t with
  | operand s => simp [isBinary] at h
  | unary op' t => simp [isBinary] at h
  | binary op' l r =>
      have root : op' = op := by simpa using h
      exact congrArg BinaryOp.precedence root

/-- The left operand of an operator stands in parentheses. -/
def enclosesLeft (op : BinaryOp) (t : Term) : Bool :=
  if t.precedence = op.precedence then op.isComparison else t.precedence < op.precedence

/-- The right operand of an operator stands in parentheses. -/
def enclosesRight (op : BinaryOp) (t : Term) : Bool :=
  if t.precedence = op.precedence then op.isComparison || !(t.isBinary op && op.isAssociative)
  else t.precedence < op.precedence

/-- The operand of a unary operator stands in parentheses. -/
def enclosesOperand (op : UnaryOp) (t : Term) : Bool :=
  match op with
  | .not => t.precedence < op.precedence
  | _ => t.precedence ≤ op.precedence

/-- A left operand without parentheses binds at least as tightly. -/
theorem le_of_enclosesLeft {op : BinaryOp} {t : Term} (h : enclosesLeft op t = false) :
    op.precedence ≤ t.precedence := by
  unfold enclosesLeft at h
  split at h
  next same => omega
  next other =>
    have : ¬ t.precedence < op.precedence := by simpa using h
    omega

/-- The left operand of a comparison binds tighter if it has no parentheses. -/
theorem lt_of_enclosesLeft {op : BinaryOp} {t : Term} (hc : op.isComparison = true)
    (h : enclosesLeft op t = false) : op.precedence < t.precedence := by
  have hne : t.precedence ≠ op.precedence := by
    intro same
    simp [enclosesLeft, same, hc] at h
  have := le_of_enclosesLeft h
  omega

/-- A right operand without parentheses binds tighter, unless it continues a chain of one
associative operator. -/
theorem lt_of_enclosesRight {op : BinaryOp} {t : Term} (h : enclosesRight op t = false)
    (apart : (op.isAssociative && t.isBinary op) = false) : op.precedence < t.precedence := by
  unfold enclosesRight at h
  rw [Bool.and_comm] at apart
  split at h
  next same => simp [apart] at h
  next other =>
    have : ¬ t.precedence < op.precedence := by simpa using h
    omega

/-! ## What is read back -/

/-- Puts `l` and the operator in front of the first operand of the chain of `r`. -/
def graft (op : BinaryOp) (l : Term) : Term → Term
  | .binary op' r₁ r₂ =>
      if op'.precedence = op.precedence then .binary op' (graft op l r₁) r₂
      else .binary op l (.binary op' r₁ r₂)
  | r => .binary op l r

/-- The term that the text of a term stands for.  The operators of a level are read from left
to right, so a right operand without parentheses is taken apart. -/
def regroup : Term → Term
  | .operand s => .operand s
  | .unary op t => .unary op t.regroup
  | .binary op l r =>
      if op.isAssociative && r.isBinary op then graft op l.regroup r.regroup
      else .binary op l.regroup r.regroup

theorem graft_of_ne {op : BinaryOp} {r : Term} (h : r.precedence ≠ op.precedence) (l : Term) :
    graft op l r = .binary op l r := by
  cases r with
  | operand s => rfl
  | unary op' t => rfl
  | binary op' r₁ r₂ => exact if_neg h

theorem graft_binary {op op' : BinaryOp} (h : op'.precedence = op.precedence) (l r₁ r₂ : Term) :
    graft op l (.binary op' r₁ r₂) = .binary op' (graft op l r₁) r₂ := if_pos h

/-- An operator is put in front of the chain of its right operand, or stays above it. -/
theorem regroup_binary (op : BinaryOp) (l r : Term) :
    (op.isAssociative = true ∧ r.isBinary op = true ∧
      (binary op l r).regroup = graft op l.regroup r.regroup) ∨
    ((op.isAssociative && r.isBinary op) = false ∧
      (binary op l r).regroup = .binary op l.regroup r.regroup) := by
  rw [regroup]
  split
  next chained =>
    obtain ⟨associative, root⟩ := Bool.and_eq_true_iff.mp chained
    exact .inl ⟨associative, root, rfl⟩
  next apart => exact .inr ⟨Bool.eq_false_iff.mpr apart, rfl⟩

/-- The root of a graft is the operator, or the root of the chain if that is on its level. -/
theorem isBinary_graft {op : BinaryOp} {r : Term} (hr : r.isBinary op = true) (l : Term)
    (op₀ : BinaryOp) : (graft op l r).isBinary op₀ = (op == op₀) := by
  cases r with
  | operand s => simp [isBinary] at hr
  | unary op' t => simp [isBinary] at hr
  | binary op' r₁ r₂ =>
      have same : op' = op := by simpa using hr
      subst same
      rw [graft_binary rfl]
      rfl

@[simp] theorem precedence_graft (op : BinaryOp) (l r : Term) :
    (graft op l r).precedence = op.precedence := by
  by_cases h : r.precedence = op.precedence
  · cases r with
    | operand s => rfl
    | unary op' t => rfl
    | binary op' r₁ r₂ => rw [graft_binary h]; exact h
  · rw [graft_of_ne h]; rfl

theorem isBinary_regroup (t : Term) (op₀ : BinaryOp) : t.regroup.isBinary op₀ = t.isBinary op₀ := by
  induction t generalizing op₀ with
  | operand s => rfl
  | unary op t ih => rfl
  | binary op l r ihl ihr =>
      rcases regroup_binary op l r with ⟨-, root, grafted⟩ | ⟨-, kept⟩
      · rw [grafted]
        exact isBinary_graft ((ihr op).trans root) _ op₀
      · rw [kept]
        rfl

@[simp] theorem precedence_regroup (t : Term) : t.regroup.precedence = t.precedence := by
  cases t with
  | operand s => rfl
  | unary op t => rfl
  | binary op l r =>
      rcases regroup_binary op l r with ⟨-, -, grafted⟩ | ⟨-, kept⟩
      · rw [grafted]
        exact precedence_graft op _ _
      · rw [kept]
        rfl

/-! ## Terms that are read as they stand -/

/-- No right operand without parentheses is on the level of its operator. -/
def LeftNested : Term → Prop
  | .operand _ => True
  | .unary _ t => t.LeftNested
  | .binary op l r =>
      l.LeftNested ∧ r.LeftNested ∧ (enclosesRight op r = false → op.precedence < r.precedence)

/-- The right operand of an associative operator has another root. -/
theorem isBinary_right_of_leftNested {op : BinaryOp} (h : op.isAssociative = true) {l r : Term}
    (hn : (binary op l r).LeftNested) : r.isBinary op = false := by
  refine Bool.eq_false_iff.mpr fun root => ?_
  have same := precedence_of_isBinary root
  have bare : enclosesRight op r = false := by
    simp [enclosesRight, same, root, h, op.isComparison_of_isAssociative h]
  have := hn.2.2 bare
  omega

/-- A node is read as it stands if its operands are and it continues no chain. -/
theorem leftNested_binary {op : BinaryOp} {l r : Term} (hl : l.LeftNested) (hr : r.LeftNested)
    (apart : (op.isAssociative && r.isBinary op) = false) : (binary op l r).LeftNested :=
  ⟨hl, hr, fun bare => lt_of_enclosesRight bare apart⟩

theorem leftNested_graft {op : BinaryOp} {l : Term} (hl : l.LeftNested) {r : Term}
    (hr : r.LeftNested) : (graft op l r).LeftNested := by
  induction r with
  | operand s => exact leftNested_binary hl hr (by simp [isBinary])
  | unary op' t ih => exact leftNested_binary hl hr (by simp [isBinary])
  | binary op' r₁ r₂ ih₁ ih₂ =>
      by_cases same : op'.precedence = op.precedence
      · rw [graft_binary same]
        exact ⟨ih₁ hr.1, hr.2⟩
      · rw [graft_of_ne (r := .binary op' r₁ r₂) same]
        have hne : op' ≠ op := fun e => same (congrArg BinaryOp.precedence e)
        exact leftNested_binary hl hr (by simp [hne])

/-- What is read back is read as it stands. -/
theorem leftNested_regroup (t : Term) : t.regroup.LeftNested := by
  induction t with
  | operand s => trivial
  | unary op t ih => exact ih
  | binary op l r ihl ihr =>
      rcases regroup_binary op l r with ⟨-, -, grafted⟩ | ⟨apart, kept⟩
      · rw [grafted]
        exact leftNested_graft ihl ihr
      · rw [kept]
        refine leftNested_binary ihl ihr ?_
        rw [isBinary_regroup]
        exact apart

end Term

end Reading

end SqlGen
