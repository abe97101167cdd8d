import SqlGen.Proofs.Reading.Derivation

/-!
# Reading tokens by precedence

A reader of tokens keeps the operators that wait for their right operand on a stack, the
innermost one first.  An operator after an operand first closes every waiting operator that
binds at least as tightly, so the operators of a level group to the left, and comparisons do not
chain.  A closing parenthesis closes everything up to the one that opened it.

`parse_of_derives` says that tokens are read as the term that they stand for by the table of
precedence.  `read_text` says that a text is read as its term regrouped.
-/

namespace SqlGen.Reading

/-! ## The stack -/

/-- What waits for the end of an operand. -/
inductive Frame where
  | opened
  | not
  | negate
  | binary (op : BinaryOp) (left : Term)

namespace Frame

/-- How tightly the frame holds the operand.  A parenthesis is closed by no operator. -/
def precedence : Frame → Nat
  | .opened => 0
  | .not => Precedence.not
  | .negate => Precedence.negate
  | .binary op _ => op.precedence

/-- The least level that an operand needs to go without parentheses. -/
def floor : Frame → Nat
  | .opened => 0
  | .not => Precedence.not
  | .negate => Precedence.negate
  | .binary op _ => op.precedence + 1

def apply : Frame → Term → Term
  | .opened, t => t
  | .not, t => .unary .not t
  | .negate, t => .unary .negate t
  | .binary op l, t => .binary op l t

end Frame

/-- The least level that an operand on top of the stack needs to go without parentheses. -/
def floor : List Frame → Nat
  | [] => 0
  | f :: _ => f.floor

/-- An operand with the frames below it. -/
structure Reduced where
  value : Term
  /-- How tightly its text binds. -/
  level : Nat
  stack : List Frame

/-- Closes the frames that bind at least as tightly as a level. -/
def collapse (k : Nat) (t : Term) (level : Nat) : List Frame → Reduced
  | [] => ⟨t, level, []⟩
  | f :: stack =>
      if k ≤ f.precedence then collapse k (f.apply t) f.precedence stack
      else ⟨t, level, f :: stack⟩

/-- The loosest level of an operator.  An open parenthesis is below it. -/
def loosest : Nat := Precedence.or

/-! ## The reader -/

/-- Where a reader stands between two tokens. -/
inductive State where
  | operand (stack : List Frame)
  | operator (r : Reduced)
  | test (r : Reduced)
  | negatedTest (r : Reduced)

namespace State

def enter (f : Frame) (stack : List Frame) : Option State :=
  if floor stack ≤ f.precedence then some (.operand (f :: stack)) else none

/-- An operator between two operands.  The operand of a comparison has to bind tighter. -/
def join (op : BinaryOp) (r : Reduced) : Option State :=
  let left := collapse op.precedence r.value r.level r.stack
  if (if op.isComparison then op.precedence + 1 else op.precedence) ≤ left.level then
    some (.operand (.binary op left.value :: left.stack))
  else none

/-- A test of an operand.  The operand has to bind tighter. -/
def close (op : UnaryOp) (r : Reduced) : Option State :=
  let inner := collapse op.precedence r.value r.level r.stack
  if op.precedence < inner.level then
    some (.operator ⟨.unary op inner.value, op.precedence, inner.stack⟩)
  else none

def leave (r : Reduced) : Option State :=
  match collapse loosest r.value r.level r.stack with
  | ⟨t, _, .opened :: stack⟩ => some (.operator ⟨t, Precedence.atom, stack⟩)
  | _ => none

def step : State → Token → Option State
  | .operand stack, .operand s => some (.operator ⟨.operand s, Precedence.atom, stack⟩)
  | .operand stack, .opening => some (.operand (.opened :: stack))
  | .operand stack, .not => enter .not stack
  | .operand stack, .symbol .subtract => enter .negate stack
  | .operator r, .symbol op => join op r
  | .operator r, .is => some (.test r)
  | .operator r, .closing => leave r
  | .test r, .not => some (.negatedTest r)
  | .test r, .operand s => if s = "NULL" then close .isNull r else none
  | .negatedTest r, .operand s => if s = "NULL" then close .isNotNull r else none
  | _, _ => none

def run : State → List Token → Option State
  | st, [] => some st
  | st, t :: rest => (st.step t).bind fun st' => st'.run rest

def result : State → Option Term
  | .operator r =>
      match collapse loosest r.value r.level r.stack with
      | ⟨t, _, []⟩ => some t
      | _ => none
  | _ => none

end State

def parse (tokens : List Token) : Option Term :=
  (State.run (.operand []) tokens).bind State.result

def read (text : String) : Option Term := (lex .gap text.toList).bind parse

example : read "a - -5 * (b / c)" =
    some (.binary .subtract (.operand "a")
      (.binary .multiply (.unary .negate (.operand "5"))
        (.binary .divide (.operand "b") (.operand "c")))) := by decide +kernel
example : read "a = b = c" = none := by decide +kernel

/-! ## Closing frames -/

/-- A level between two operands is on none of the prefix operators. -/
def IsInfixLevel (k : Nat) : Prop := 1 ≤ k ∧ k ≠ Precedence.not ∧ k ≠ Precedence.negate

theorem isInfixLevel_binary (op : BinaryOp) : IsInfixLevel op.precedence := by
  cases op <;> exact ⟨by decide, by decide, by decide⟩

theorem isInfixLevel_test : IsInfixLevel Precedence.equality := ⟨by decide, by decide, by decide⟩

/-- No frame is closed by an operator that its operand may have as a root. -/
theorem collapse_of_floor_le {k : Nat} (hk : IsInfixLevel k) {stack : List Frame}
    (h : floor stack ≤ k) (t : Term) (level : Nat) :
    collapse k t level stack = ⟨t, level, stack⟩ := by
  cases stack with
  | nil => rfl
  | cons f stack =>
      have loose : ¬ k ≤ f.precedence := by
        obtain ⟨pos, notNot, notNegate⟩ := hk
        cases f with
        | opened => exact Nat.not_le.mpr pos
        | not => exact fun le => notNot (Nat.le_antisymm le h)
        | negate => exact fun le => notNegate (Nat.le_antisymm le h)
        | binary op l => exact Nat.not_le.mpr h
      exact if_neg loose

theorem collapse_cons {k : Nat} {f : Frame} (h : k ≤ f.precedence) (t : Term) (level : Nat)
    (stack : List Frame) :
    collapse k t level (f :: stack) = collapse k (f.apply t) f.precedence stack := if_pos h

/-- An operator that binds more loosely than the term closes what waits for it, and finds the term
on the stack below. -/
def Yields (t : Term) (level : Nat) (stack : List Frame) (r : Reduced) : Prop :=
  ∀ k ≤ level, collapse k r.value r.level r.stack = collapse k t level stack

theorem Yields.apply {t : Term} {level : Nat} {f : Frame} {stack : List Frame} {r : Reduced}
    (h : Yields t level (f :: stack) r) (hf : f.precedence ≤ level) :
    Yields (f.apply t) f.precedence stack r := by
  intro k hk
  rw [h k (Nat.le_trans hk hf), collapse_cons hk]

/-- An operator of an infix level finds the term just read. -/
theorem Yields.collapse_eq {t : Term} {level : Nat} {stack : List Frame} {r : Reduced}
    (h : Yields t level stack r) {k : Nat} (hk : IsInfixLevel k) (hl : k ≤ level)
    (hf : floor stack ≤ k) : collapse k r.value r.level r.stack = ⟨t, level, stack⟩ :=
  (h k hl).trans (collapse_of_floor_le hk hf t level)

/-! ## Reading a term -/

namespace State

theorem run_append (st : State) (a b : List Token) :
    st.run (a ++ b) = (st.run a).bind fun st' => st'.run b := by
  induction a generalizing st with
  | nil => rfl
  | cons t rest ih =>
      simp only [List.cons_append, run]
      cases st.step t with
      | none => rfl
      | some st' => exact ih st'

/-- The reader takes some tokens for a term that binds on a level. -/
def Takes (stack : List Frame) (tokens : List Token) (t : Term) (level : Nat) : Prop :=
  ∃ r, (State.operand stack).run tokens = some (.operator r) ∧ Yields t level stack r

theorem takes_parentheses {stack : List Frame} {ts : List Token} {t : Term} {level : Nat}
    (binds : 1 ≤ level) (h : Takes (.opened :: stack) ts t level) :
    Takes stack (.opening :: (ts ++ [.closing])) t Precedence.atom := by
  obtain ⟨r, reads, yields⟩ := h
  have found : collapse loosest r.value r.level r.stack = ⟨t, level, .opened :: stack⟩ :=
    yields _ binds
  refine ⟨⟨t, Precedence.atom, stack⟩, ?_, fun k _ => rfl⟩
  simp [run, step, run_append, reads, leave, found]

theorem takes_enter {f : Frame} {stack : List Frame} (free : floor stack ≤ f.precedence)
    {token : Token} (hs : (State.operand stack).step token = enter f stack) {tokens : List Token}
    {t : Term} {level : Nat} (hf : f.precedence ≤ level)
    (h : Takes (f :: stack) tokens t level) :
    Takes stack (token :: tokens) (f.apply t) f.precedence := by
  obtain ⟨r, reads, yields⟩ := h
  have entered : (State.operand stack).step token = some (.operand (f :: stack)) :=
    hs.trans (if_pos free)
  refine ⟨r, ?_, yields.apply hf⟩
  rw [run, entered, Option.bind_some, reads]

theorem takes_close {op : UnaryOp} (hop : op.precedence = Precedence.equality)
    {stack : List Frame} (free : floor stack ≤ op.precedence) {words : List Token}
    (hs : ∀ r, (State.operator r).run words = close op r) {tokens : List Token} {t : Term}
    {level : Nat} (hl : op.precedence < level) (h : Takes stack tokens t level) :
    Takes stack (tokens ++ words) (.unary op t) op.precedence := by
  obtain ⟨r, reads, yields⟩ := h
  have found : collapse op.precedence r.value r.level r.stack = ⟨t, level, stack⟩ :=
    yields.collapse_eq (hop ▸ isInfixLevel_test) (Nat.le_of_lt hl) free
  refine ⟨⟨.unary op t, op.precedence, stack⟩, ?_, fun k _ => rfl⟩
  rw [run_append, reads, Option.bind_some, hs]
  simp [close, found, hl]

theorem takes_join {op : BinaryOp} {stack : List Frame} (free : floor stack ≤ op.precedence)
    {before after : List Token} {l t : Term} {left level : Nat}
    (hl : leftFloor op ≤ left) (hr : op.precedence ≤ level) (h : Takes stack before l left)
    (h' : Takes (.binary op l :: stack) after t level) :
    Takes stack (before ++ .symbol op :: after) (.binary op l t) op.precedence := by
  obtain ⟨r, reads, yields⟩ := h
  obtain ⟨r', reads', yields'⟩ := h'
  have loose : op.precedence ≤ left := Nat.le_trans (precedence_le_leftFloor op) hl
  have found : collapse op.precedence r.value r.level r.stack = ⟨l, left, stack⟩ :=
    yields.collapse_eq (isInfixLevel_binary op) loose free
  have joined : (State.operator r).step (.symbol op) =
      some (.operand (.binary op l :: stack)) := by
    simp only [step, join, found]
    exact if_pos hl
  refine ⟨r', ?_, yields'.apply hr⟩
  rw [run_append, reads, Option.bind_some, run, joined, Option.bind_some, reads']

/-- The reader takes tokens for every term that they stand for, on every stack that leaves it room.
The induction is on the derivation: each operator puts its frame on the stack for the operand after
it, and the operand in front of it is found under what the reader has left open. -/
theorem takes_of_derives {ts : List Token} {t : Term} {level : Nat} (h : Derives ts t level) :
    ∀ {stack : List Frame}, floor stack ≤ level → Takes stack ts t level := by
  induction h with
  | operand s =>
      intro stack _
      exact ⟨⟨.operand s, Precedence.atom, stack⟩, rfl, fun k _ => rfl⟩
  | parentheses h ih =>
      intro stack _
      exact takes_parentheses h.one_le_level (ih (Nat.zero_le _))
  | not _ tight ih =>
      intro stack free
      exact takes_enter (f := .not) free rfl tight (ih tight)
  | negate _ tight ih =>
      intro stack free
      exact takes_enter (f := .negate) free rfl tight (ih tight)
  | isNull _ tight ih =>
      intro stack free
      exact takes_close rfl free (fun r => by simp [run, step]) tight
        (ih (Nat.le_trans free (Nat.le_of_lt tight)))
  | isNotNull _ tight ih =>
      intro stack free
      exact takes_close rfl free (fun r => by simp [run, step]) tight
        (ih (Nat.le_trans free (Nat.le_of_lt tight)))
  | binary op _ left _ right ihl ihr =>
      intro stack free
      have before := ihl (Nat.le_trans free (Nat.le_trans (precedence_le_leftFloor op) left))
      exact takes_join free left (Nat.le_of_lt right) before (ihr right)

end State

/-- Tokens are read as the term that they stand for. -/
theorem parse_of_derives {ts : List Token} {t : Term} {level : Nat} (h : Derives ts t level) :
    parse ts = some t := by
  have taken : State.Takes [] ts t level := State.takes_of_derives h (Nat.zero_le _)
  obtain ⟨r, reads, yields⟩ := taken
  have found : collapse loosest r.value r.level r.stack = ⟨t, level, []⟩ :=
    yields _ h.one_le_level
  simp [parse, reads, State.result, found]

/-! ## Reading a text -/

namespace Term

/-- A right operand of another level is enclosed where it would be on the left. -/
theorem enclosesRight_of_ne {op : BinaryOp} {t : Term} (h : t.precedence ≠ op.precedence) :
    enclosesRight op t = enclosesLeft op t := by
  simp [enclosesRight, enclosesLeft, h]

/-- An operator that compares nothing encloses no left operand of its level. -/
theorem enclosesLeft_of_eq {op : BinaryOp} (hc : op.isComparison = false) {t : Term}
    (h : t.precedence = op.precedence) : enclosesLeft op t = false := by
  simp [enclosesLeft, h, hc]

theorem enclosesLeft_congr (op : BinaryOp) {t u : Term} (h : t.precedence = u.precedence) :
    enclosesLeft op t = enclosesLeft op u := by
  simp [enclosesLeft, h]

theorem enclosesRight_congr (op : BinaryOp) {t u : Term} (h : t.precedence = u.precedence)
    (root : t.isBinary op = u.isBinary op) : enclosesRight op t = enclosesRight op u := by
  simp [enclosesRight, h, root]

theorem enclosesOperand_congr (op : UnaryOp) {t u : Term} (h : t.precedence = u.precedence) :
    enclosesOperand op t = enclosesOperand op u := by
  simp [enclosesOperand, h]

/-- A graft writes its chain after the operator, with the parentheses that the chain would have
on the left.  The induction goes down the left spine of the chain. -/
theorem tokens_graft {op : BinaryOp} (hc : op.isComparison = false) (l r : Term) :
    (graft op l r).tokens =
      encloseTokens (enclosesLeft op l) l.tokens ++
        .symbol op :: encloseTokens (enclosesLeft op r) r.tokens := by
  have plain {r : Term} (other : r.precedence ≠ op.precedence) :
      (graft op l r).tokens =
        encloseTokens (enclosesLeft op l) l.tokens ++
          .symbol op :: encloseTokens (enclosesLeft op r) r.tokens := by
    rw [graft_of_ne other, tokens, enclosesRight_of_ne other]
  induction r with
  | operand s => exact plain (Ne.symm op.precedence_ne_atom)
  | unary op' t ih => exact plain (op'.precedence_ne hc)
  | binary op' r₁ r₂ ih₁ ih₂ =>
      by_cases same : op'.precedence = op.precedence
      · have hc' : op'.isComparison = false := (BinaryOp.isComparison_congr same).trans hc
        have outer : enclosesLeft op' (graft op l r₁) = false :=
          enclosesLeft_of_eq hc' (by rw [precedence_graft, same])
        have chain : enclosesLeft op (.binary op' r₁ r₂) = false := enclosesLeft_of_eq hc same
        have inner : enclosesLeft op' r₁ = enclosesLeft op r₁ := by
          simp [enclosesLeft, same, hc, hc']
        rw [graft_binary same, tokens, outer, chain]
        simp [encloseTokens, ih₁, tokens, inner]
      · exact plain same

@[simp] theorem tokens_regroup (t : Term) : t.regroup.tokens = t.tokens := by
  induction t with
  | operand s => rfl
  | unary op t ih =>
      have encloses := enclosesOperand_congr op t.precedence_regroup
      cases op <;> simp [regroup, tokens, ih, encloses]
  | binary op l r ihl ihr =>
      have left := enclosesLeft_congr op l.precedence_regroup
      rcases regroup_binary op l r with ⟨ha, root, grafted⟩ | ⟨-, kept⟩
      · have hc := op.isComparison_of_isAssociative ha
        have same := precedence_of_isBinary root
        have bare : enclosesRight op r = false := by
          simp [enclosesRight, same, hc, ha, root]
        have chain := enclosesLeft_of_eq hc (r.precedence_regroup.trans same)
        rw [grafted, tokens_graft hc, tokens, left, chain, bare, ihl, ihr]
      · have right := enclosesRight_congr op r.precedence_regroup (r.isBinary_regroup op)
        rw [kept, tokens, tokens, left, right, ihl, ihr]

theorem parse_tokens (t : Term) : parse t.tokens = some t.regroup := by
  rw [← t.tokens_regroup]
  exact parse_of_derives (derives_tokens t.leftNested_regroup)

end Term

/-- The text of a term is read as the term regrouped. -/
theorem read_text {t : Term} (ht : t.IsReadable) :
    read (String.ofList t.text) = some t.regroup := by
  rw [read, String.toList_ofList, Term.lex_gap_text ht, Option.bind_some, t.parse_tokens]

end SqlGen.Reading
