import SqlGen.Proofs.Reading.Parser

/-!
# What the reader accepts

The reader finds the terms that tokens stand for by the table of precedence, and no others
(`parse_eq_some_iff`).  So tokens stand for one term at most.

For the one half the parser is followed along the tokens.  `State.Reached` says what the tokens that
have been read stand for: those that wait for an operand, and those of an operand that has been
read.  `Reached.step` is the step of this invariant and `Reached.run` its run.
-/

namespace SqlGen.Reading

/-! ## Frames that wait -/

/-- The tokens have left the frames waiting. -/
inductive Opens : List Token → List Frame → Prop where
  | nil : Opens [] []
  | opened {ts : List Token} {stack : List Frame} :
      Opens ts stack → Opens (ts ++ [.opening]) (.opened :: stack)
  | not {ts : List Token} {stack : List Frame} :
      Opens ts stack → floor stack ≤ Precedence.not → Opens (ts ++ [.not]) (.not :: stack)
  | negate {ts : List Token} {stack : List Frame} :
      Opens ts stack → floor stack ≤ Precedence.negate →
      Opens (ts ++ [.symbol .subtract]) (.negate :: stack)
  | binary {ts before : List Token} {stack : List Frame} {op : BinaryOp} {l : Term} {left : Nat} :
      Opens ts stack → floor stack ≤ op.precedence → Derives before l left → leftFloor op ≤ left →
      Opens (ts ++ before ++ [.symbol op]) (.binary op l :: stack)

/-- The tokens have left the frames waiting, and end with those of the operand. -/
def Holds (ts : List Token) (r : Reduced) : Prop :=
  ∃ waiting operand, ts = waiting ++ operand ∧ Opens waiting r.stack ∧
    Derives operand r.value r.level ∧ floor r.stack ≤ r.level

namespace Holds

variable {ts : List Token} {r : Reduced}

/-- The innermost frame may be closed unless it is a parenthesis. -/
theorem apply {t : Term} {level : Nat} {f : Frame} {stack : List Frame}
    (h : Holds ts ⟨t, level, f :: stack⟩) (closable : f ≠ .opened) :
    Holds ts ⟨f.apply t, f.precedence, stack⟩ := by
  obtain ⟨waiting, operand, rfl, opens, derives, free⟩ := h
  cases opens with
  | opened _ => exact absurd rfl closable
  | @not before _ opens low =>
      exact ⟨before, .not :: operand, by simp, opens, .not derives free, low⟩
  | @negate before _ opens low =>
      exact ⟨before, .symbol .subtract :: operand, by simp, opens, .negate derives free, low⟩
  | @binary before first _ op l left opens low hl tight =>
      exact ⟨before, first ++ .symbol op :: operand, by simp, opens,
        .binary op hl tight derives free, low⟩

/-- Frames are closed up to one that binds more loosely. -/
theorem collapse {k : Nat} (pos : 1 ≤ k) (h : Holds ts r) :
    Holds ts (collapse k r.value r.level r.stack) ∧
      floor (Reading.collapse k r.value r.level r.stack).stack ≤ k := by
  obtain ⟨t, level, stack⟩ := r
  induction stack generalizing t level with
  | nil => exact ⟨h, Nat.zero_le k⟩
  | cons f stack ih =>
      by_cases closes : k ≤ f.precedence
      · have closable : f ≠ .opened := by
          rintro rfl
          exact absurd (Nat.le_trans pos closes) (by decide)
        rw [collapse_cons closes]
        exact ih _ _ (h.apply closable)
      · rw [Reading.collapse, if_neg closes]
        refine ⟨h, ?_⟩
        cases f with
        | opened => exact Nat.zero_le k
        | not => exact Nat.le_of_lt (Nat.not_le.mp closes)
        | negate => exact Nat.le_of_lt (Nat.not_le.mp closes)
        | binary op l => exact Nat.not_le.mp closes

end Holds

/-! ## The steps of the reader -/

namespace State

/-- The tokens have brought the reader to where it stands. -/
def Reached (ts : List Token) : State → Prop
  | .operand stack => Opens ts stack
  | .operator r => Holds ts r
  | .test r => ∃ before, ts = before ++ [.is] ∧ Holds before r
  | .negatedTest r => ∃ before, ts = before ++ [.is, .not] ∧ Holds before r

variable {ts : List Token} {st : State}

theorem reached_enter {f : Frame} {stack : List Frame} {token : Token}
    (opens : floor stack ≤ f.precedence → Opens (ts ++ [token]) (f :: stack))
    (h : enter f stack = some st) : Reached (ts ++ [token]) st := by
  unfold enter at h
  split at h
  next low =>
    obtain rfl := Option.some.inj h
    exact opens low
  next => cases h

theorem reached_join {op : BinaryOp} {r : Reduced} (holds : Holds ts r)
    (h : join op r = some st) : Reached (ts ++ [.symbol op]) st := by
  obtain ⟨⟨waiting, operand, same, opens, derives, -⟩, low⟩ := holds.collapse op.one_le_precedence
  -- The level is compared with `leftFloor`, which must not be split itself.
  change (if leftFloor op ≤ _ then _ else none) = some st at h
  split at h
  next tight =>
    obtain rfl := Option.some.inj h
    have binary := Opens.binary opens low derives tight
    rwa [← same] at binary
  next => cases h

/-- A test makes a term of the operand that it holds. -/
theorem reached_close {op : UnaryOp} (level : op.precedence = Precedence.equality)
    {words : List Token}
    (test : ∀ {operand t level}, Derives operand t level → Precedence.equality < level →
      Derives (operand ++ words) (.unary op t) Precedence.equality)
    {r : Reduced} (holds : Holds ts r) (h : close op r = some st) : Reached (ts ++ words) st := by
  obtain ⟨⟨waiting, operand, rfl, opens, derives, -⟩, low⟩ := holds.collapse op.one_le_precedence
  simp only [close] at h
  split at h
  next tight =>
    obtain rfl := Option.some.inj h
    have tested := test derives (level ▸ tight)
    rw [← level] at tested
    exact ⟨waiting, operand ++ words, by simp, opens, tested, low⟩
  next => cases h

theorem floor_le_atom (stack : List Frame) : floor stack ≤ Precedence.atom := by
  have frame (f : Frame) : f.floor ≤ Precedence.atom := by
    cases f with
    | binary op l => exact op.precedence_lt_atom
    | _ => decide
  cases stack with
  | nil => exact Nat.zero_le _
  | cons f stack => exact frame f

theorem reached_leave {r : Reduced} (holds : Holds ts r) (h : leave r = some st) :
    Reached (ts ++ [.closing]) st := by
  obtain ⟨closed, -⟩ := holds.collapse (k := loosest) (by decide)
  unfold leave at h
  split at h
  next t level stack found =>
    obtain rfl := Option.some.inj h
    rw [found] at closed
    obtain ⟨waiting, operand, rfl, opens, derives, -⟩ := closed
    cases opens with
    | @opened before _ opens =>
        exact ⟨before, .opening :: (operand ++ [.closing]), by simp, opens, derives.parentheses,
          floor_le_atom stack⟩
  next => cases h

/-- One token more brings the reader one step further. -/
theorem Reached.step (reached : st.Reached ts) {token : Token} {st' : State}
    (h : st.step token = some st') : st'.Reached (ts ++ [token]) := by
  cases st with
  | operand stack =>
      cases token with
      | operand s =>
          obtain rfl := Option.some.inj h
          exact ⟨ts, [.operand s], rfl, reached, .operand s, floor_le_atom stack⟩
      | opening =>
          obtain rfl := Option.some.inj h
          exact .opened reached
      | not => exact reached_enter (.not reached) h
      | symbol op =>
          cases op with
          | subtract => exact reached_enter (.negate reached) h
          | _ => cases h
      | _ => cases h
  | operator r =>
      cases token with
      | symbol op => exact reached_join reached h
      | is =>
          obtain rfl := Option.some.inj h
          exact ⟨ts, rfl, reached⟩
      | closing => exact reached_leave reached h
      | _ => cases h
  | test r =>
      obtain ⟨before, rfl, holds⟩ := reached
      cases token with
      | not =>
          obtain rfl := Option.some.inj h
          exact ⟨before, by simp, holds⟩
      | operand s =>
          simp only [State.step] at h
          split at h
          next null =>
            subst null
            rw [List.append_assoc]
            exact reached_close rfl .isNull holds h
          next => cases h
      | _ => cases h
  | negatedTest r =>
      obtain ⟨before, rfl, holds⟩ := reached
      cases token with
      | operand s =>
          simp only [State.step] at h
          split at h
          next null =>
            subst null
            rw [List.append_assoc]
            exact reached_close rfl .isNotNull holds h
          next => cases h
      | _ => cases h

theorem Reached.run {more : List Token} {st' : State} (reached : st.Reached ts)
    (h : st.run more = some st') : st'.Reached (ts ++ more) := by
  induction more generalizing ts st with
  | nil =>
      obtain rfl := Option.some.inj h
      rwa [List.append_nil]
  | cons token rest ih =>
      obtain ⟨st₁, one, others⟩ := Option.bind_eq_some_iff.mp h
      have whole := ih (reached.step one) others
      rwa [List.append_assoc] at whole

/-- At the end the tokens stand for the result. -/
theorem Reached.derives {t : Term} (reached : st.Reached ts) (h : st.result = some t) :
    ∃ level, Derives ts t level := by
  cases st with
  | operator r =>
      obtain ⟨closed, -⟩ := Holds.collapse (k := loosest) (by decide) reached
      simp only [result] at h
      split at h
      next t' level found =>
        obtain rfl := Option.some.inj h
        rw [found] at closed
        obtain ⟨waiting, operand, rfl, opens, derives, -⟩ := closed
        cases opens
        exact ⟨level, derives⟩
      next => cases h
  | _ => cases h

end State

/-! ## One reading -/

/-- The reader finds the terms that the tokens stand for, and no others. -/
theorem parse_eq_some_iff {ts : List Token} {t : Term} :
    parse ts = some t ↔ ∃ level, Derives ts t level := by
  constructor
  · intro h
    obtain ⟨st, reads, result⟩ := Option.bind_eq_some_iff.mp h
    have start : (State.operand []).Reached [] := Opens.nil
    exact (start.run reads).derives result
  · rintro ⟨level, derives⟩
    exact parse_of_derives derives

/-- The tokens stand for a term and for no other one, and they are read as it. -/
structure ReadsAs (ts : List Token) (t : Term) : Prop where
  parse : parse ts = some t
  derives_iff (u : Term) : (∃ level, Derives ts u level) ↔ u = t

theorem readsAs_of_derives {ts : List Token} {t : Term} {level : Nat} (h : Derives ts t level) :
    ReadsAs ts t where
  parse := parse_of_derives h
  derives_iff u := by
    rw [← parse_eq_some_iff, parse_of_derives h, Option.some_inj]
    exact eq_comm

/-- The tokens of a term stand for the term regrouped. -/
theorem Term.readsAs_tokens (t : Term) : ReadsAs t.tokens t.regroup := by
  rw [← t.tokens_regroup]
  exact readsAs_of_derives (derives_tokens t.leftNested_regroup)

end SqlGen.Reading
