import Mathlib.Data.List.Dedup
import SqlGen.Cache
import SqlGen.Proofs.Pass.Nullability

/-!
# Runs of a cache

A run is a list of requests: queries to be compiled, and clearings.  `CommandCache.Valid` is the
invariant of every run.  A stored statement is what its query compiles to, its number is that of
an earlier request, and no two queries have the same number.

What a request was answered with is followed through the rest of the run by `Remembers`: as long
as the cache is not cleared, the statement stays where it is, and afterwards its number does not
come back.
-/

namespace SqlGen

/-- What is asked of a cache. -/
inductive Request where
  | get (query : Expr)
  | clear
deriving DecidableEq

/-- No request between two others is a clearing. -/
def ClearFree (requests : List Request) (i j : ℕ) : Prop :=
  ∀ k, i < k → k < j → requests[k]? ≠ some .clear

theorem clearFree_zero {request : Request} {rest : List Request} {j : ℕ} :
    ClearFree (request :: rest) 0 (j + 1) ↔ ∀ k < j, rest[k]? ≠ some .clear := by
  constructor
  · intro free k before
    exact free (k + 1) (Nat.succ_pos k) (Nat.succ_lt_succ before)
  · intro free k after before
    obtain ⟨k, rfl⟩ := Nat.exists_eq_add_one_of_ne_zero (Nat.ne_zero_of_lt after)
    exact free k (Nat.lt_of_succ_lt_succ before)

theorem clearFree_succ {request : Request} {rest : List Request} {i j : ℕ} :
    ClearFree (request :: rest) (i + 1) (j + 1) ↔ ClearFree rest i j := by
  constructor
  · intro free k after before
    exact free (k + 1) (Nat.succ_lt_succ after) (Nat.succ_lt_succ before)
  · intro free k after before
    obtain ⟨k, rfl⟩ := Nat.exists_eq_add_one_of_ne_zero (Nat.ne_zero_of_lt after)
    exact free k (Nat.lt_of_succ_lt_succ after) (Nat.lt_of_succ_lt_succ before)

namespace CommandCache

/-! ## Runs -/

/-- Answers a request.  A clearing is answered with nothing. -/
def answer (c : CommandCache) : Request → Except Violation (Option Stored × CommandCache)
  | .get query => (c.get query).map fun r => (some r.1, r.2)
  | .clear => .ok (none, c.clear)

def run (c : CommandCache) : List Request → Except Violation (List (Option Stored) × CommandCache)
  | [] => .ok ([], c)
  | request :: rest =>
      (c.answer request).bind fun r => (r.2.run rest).map fun s => (r.1 :: s.1, s.2)

/-- The queries asked for since the last clearing, the latest one first.  Those of `before` have
been asked for already. -/
def recent (before : List Expr) : List Request → List Expr
  | [] => before
  | .get query :: rest => recent (query :: before) rest
  | .clear :: rest => recent [] rest

/-! ## The invariant -/

/-- What is true of a cache in every run. -/
structure Valid (c : CommandCache) : Prop where
  /-- A statement is what its query compiles to. -/
  compiled {q : Expr} {s : Stored} : c.stored[q]? = some s → compile c.dialect q = .ok s.statement
  /-- Its number is that of an earlier request. -/
  earlier {q : Expr} {s : Stored} : c.stored[q]? = some s → s.number < c.requests
  /-- Numbers tell queries apart. -/
  apart {q q' : Expr} {s s' : Stored} : c.stored[q]? = some s → c.stored[q']? = some s' →
    s.number = s'.number → q = q'

theorem valid_new (d : Dialect) : Valid { dialect := d } where
  compiled h := by simp at h
  earlier h := by simp at h
  apart h := by simp at h

/-- What a cache answers to a query: the statement it has, or a new one that it stores. -/
structure Answers (c : CommandCache) (q : Expr) (s : Stored) (c' : CommandCache) : Prop where
  dialect : c'.dialect = c.dialect
  requests : c'.requests = c.requests + 1
  compiled : compile c.dialect q = .ok s.statement
  stored : (c.stored[q]? = some s ∧ c'.stored = c.stored) ∨
    (c.stored[q]? = none ∧ s.number = c.requests ∧ c'.stored = c.stored.insert q s)

/-- A query whose calls have their flags compiles to the statement of what it is simplified to. -/
theorem compile_ok (d : Dialect) {q : Expr} (flags : q.AllFlagsMatch) :
    ∃ r, q.revise .nullability = .ok r ∧ compile d q = .ok ((r.of q).printStatement d) := by
  obtain ⟨-, r, -, revised, -⟩ := Expr.revise_nullability_ok flags
  refine ⟨r, revised, ?_⟩
  rw [compile, revised]
  rfl

theorem get_ok {c : CommandCache} (valid : c.Valid) {q : Expr} (flags : q.AllFlagsMatch) :
    ∃ s c', c.get q = .ok (s, c') ∧ c.Answers q s c' := by
  unfold get
  cases found : c.stored[q]? with
  | some s => exact ⟨s, _, rfl, rfl, rfl, valid.compiled found, .inl ⟨found, rfl⟩⟩
  | none =>
      obtain ⟨r, -, compiled⟩ := compile_ok c.dialect flags
      rw [compiled]
      exact ⟨_, _, rfl, rfl, rfl, compiled, .inr ⟨found, rfl, rfl⟩⟩

section Step

variable {c c' : CommandCache} {q q' : Expr} {s s' : Stored}

/-- An entry of the cache after a query was there before, or the answer is new and this is it. -/
theorem Answers.lookup (h : c.Answers q s c') (found : c'.stored[q']? = some s') :
    c.stored[q']? = some s' ∨ (q' = q ∧ s' = s ∧ s.number = c.requests) := by
  rcases h.stored with ⟨-, same⟩ | ⟨-, new, inserted⟩
  · rw [same] at found
    exact .inl found
  · rw [inserted, Std.HashMap.getElem?_insert] at found
    split at found
    next hit => exact .inr ⟨(beq_iff_eq.mp hit).symm, (Option.some.inj found).symm, new⟩
    next => exact .inl found

/-- A query leaves every entry as it is. -/
theorem Answers.keeps (h : c.Answers q s c') (found : c.stored[q']? = some s') :
    c'.stored[q']? = some s' := by
  rcases h.stored with ⟨-, same⟩ | ⟨missing, -, inserted⟩
  · rw [same]
    exact found
  · have other : q ≠ q' := by
      rintro rfl
      rw [missing] at found
      cases found
    rw [inserted, Std.HashMap.getElem?_insert, if_neg (by simpa using other)]
    exact found

theorem Answers.valid (h : c.Answers q s c') (valid : c.Valid) : c'.Valid where
  compiled found := by
    rw [h.dialect]
    rcases h.lookup found with old | ⟨rfl, rfl, -⟩
    · exact valid.compiled old
    · exact h.compiled
  earlier found := by
    rw [h.requests]
    rcases h.lookup found with old | ⟨-, rfl, new⟩
    · exact Nat.lt_succ_of_lt (valid.earlier old)
    · exact new ▸ Nat.lt_succ_self _
  apart found found' same := by
    rcases h.lookup found with old | ⟨rfl, rfl, new⟩
    · rcases h.lookup found' with old' | ⟨rfl, rfl, new⟩
      · exact valid.apart old old' same
      · have := valid.earlier old
        omega
    · rcases h.lookup found' with old' | ⟨rfl, rfl, -⟩
      · have := valid.earlier old'
        omega
      · rfl

theorem valid_clear (c : CommandCache) : c.clear.Valid where
  compiled h := by simp [CommandCache.clear] at h
  earlier h := by simp [CommandCache.clear] at h
  apart h := by simp [CommandCache.clear] at h

/-! ## What becomes of an answer -/

/-- The cache has answered a query with a statement.  While it has not been cleared since, the
statement is there.  Afterwards its number belongs to no statement. -/
structure Remembers (c : CommandCache) (q : Expr) (s : Stored) (uncleared : Prop) : Prop where
  earlier : s.number < c.requests
  kept : uncleared → c.stored[q]? = some s
  gone : ¬ uncleared → ∀ {q' : Expr} {s' : Stored},
    c.stored[q']? = some s' → s'.number ≠ s.number

theorem Answers.remembers (h : c.Answers q s c') (valid : c.Valid) : c'.Remembers q s True where
  earlier := by
    rw [h.requests]
    rcases h.stored with ⟨found, -⟩ | ⟨-, new, -⟩
    · exact Nat.lt_succ_of_lt (valid.earlier found)
    · exact new ▸ Nat.lt_succ_self _
  kept _ := by
    rcases h.stored with ⟨found, same⟩ | ⟨-, -, inserted⟩
    · rw [same]
      exact found
    · rw [inserted, Std.HashMap.getElem?_insert_self]
  gone cleared := absurd trivial cleared

variable {uncleared : Prop}

theorem Remembers.step (remembers : c.Remembers q s uncleared) (h : c.Answers q' s' c') :
    c'.Remembers q s uncleared where
  earlier := by
    rw [h.requests]
    exact Nat.lt_succ_of_lt remembers.earlier
  kept fresh := h.keeps (remembers.kept fresh)
  gone cleared _ _ found := by
    rcases h.lookup found with old | ⟨-, rfl, new⟩
    · exact remembers.gone cleared old
    · have := remembers.earlier
      omega

theorem Remembers.clear (remembers : c.Remembers q s uncleared) :
    c.clear.Remembers q s False where
  earlier := remembers.earlier
  kept := False.elim
  gone _ _ _ found := by simp [CommandCache.clear] at found

/-- A later query is answered with the same statement exactly if it is the same query and the cache
has not been cleared. -/
theorem Remembers.same_iff (remembers : c.Remembers q s uncleared) (valid : c.Valid)
    (h : c.Answers q' s' c') : s.number = s'.number ↔ q = q' ∧ uncleared := by
  constructor
  · intro same
    rcases h.stored with ⟨found, -⟩ | ⟨-, new, -⟩
    · by_cases fresh : uncleared
      · exact ⟨valid.apart (remembers.kept fresh) found same, fresh⟩
      · exact absurd same.symm (remembers.gone fresh found)
    · have := remembers.earlier
      omega
  · rintro ⟨rfl, fresh⟩
    have here := remembers.kept fresh
    rcases h.stored with ⟨found, -⟩ | ⟨missing, -, -⟩
    · rw [here] at found
      rw [Option.some.inj found]
    · rw [here] at missing
      cases missing

/-! ## The queries of the cache -/

/-- The queries that have a statement are those of a list, however often they stand in it. -/
structure Holds (c : CommandCache) (qs : List Expr) : Prop where
  mem {q : Expr} : q ∈ c.stored ↔ q ∈ qs
  size : c.stored.size = qs.dedup.length

theorem holds_nil {c : CommandCache} (empty : c.stored = {}) : c.Holds [] where
  mem := by simp [empty]
  size := by simp [empty]

theorem Answers.holds {qs : List Expr} (h : c.Answers q s c') (holds : c.Holds qs) :
    c'.Holds (q :: qs) := by
  rcases h.stored with ⟨found, same⟩ | ⟨missing, -, inserted⟩
  · have here : q ∈ qs := holds.mem.mp (Std.HashMap.mem_iff_isSome_getElem?.mpr (by simp [found]))
    constructor
    case mem =>
      intro q'
      rw [same, holds.mem, List.mem_cons]
      constructor
      · exact .inr
      · rintro (rfl | there)
        · exact here
        · exact there
    case size => rw [same, holds.size, List.dedup_cons_of_mem here]
  · have absent : q ∉ c.stored := by
      intro here
      rw [Std.HashMap.mem_iff_isSome_getElem?, missing] at here
      cases here
    constructor
    case mem =>
      intro q'
      rw [inserted, Std.HashMap.mem_insert, holds.mem, beq_iff_eq, List.mem_cons, eq_comm]
    case size =>
      rw [inserted, Std.HashMap.size_insert, if_neg absent, holds.size,
        List.dedup_cons_of_notMem (fun here => absent (holds.mem.mpr here)), List.length_cons]

end Step

/-! ## Runs, step by step -/

/-- A run as its steps, with the answers and the cache it ends with. -/
inductive Runs : CommandCache → List Request → List (Option Stored) → CommandCache → Prop where
  | nil {c : CommandCache} : Runs c [] [] c
  | get {c c₁ c' : CommandCache} {q : Expr} {s : Stored} {rest : List Request}
      {answers : List (Option Stored)} (step : c.Answers q s c₁) (later : Runs c₁ rest answers c') :
      Runs c (.get q :: rest) (some s :: answers) c'
  | clear {c c' : CommandCache} {rest : List Request} {answers : List (Option Stored)}
      (later : Runs c.clear rest answers c') : Runs c (.clear :: rest) (none :: answers) c'

/-- A run does not fail if every call of a query has its flags. -/
theorem run_ok {requests : List Request} {c : CommandCache} (valid : c.Valid)
    (flags : ∀ q, Request.get q ∈ requests → q.AllFlagsMatch) :
    ∃ answers c', c.run requests = .ok (answers, c') ∧ c.Runs requests answers c' := by
  induction requests generalizing c with
  | nil => exact ⟨[], c, rfl, .nil⟩
  | cons request rest ih =>
      have later : ∀ q, Request.get q ∈ rest → q.AllFlagsMatch :=
        fun q mem => flags q (List.mem_cons_of_mem _ mem)
      cases request with
      | get q =>
          obtain ⟨s, c₁, got, step⟩ := get_ok valid (flags q List.mem_cons_self)
          obtain ⟨answers, c', ran, runs⟩ := ih (step.valid valid) later
          refine ⟨some s :: answers, c', ?_, .get step runs⟩
          simp only [run, answer, got, Except.map, Except.bind, ran]
      | clear =>
          obtain ⟨answers, c', ran, runs⟩ := ih c.valid_clear later
          refine ⟨none :: answers, c', ?_, .clear runs⟩
          simp only [run, answer, Except.map, Except.bind, ran]

namespace Runs

variable {c c' : CommandCache} {q q' : Expr} {s s' : Stored} {requests : List Request}
  {answers : List (Option Stored)} {i j : ℕ}

theorem length_eq (h : c.Runs requests answers c') : answers.length = requests.length := by
  induction h with
  | nil => rfl
  | get _ _ ih => rw [List.length_cons, ih, List.length_cons]
  | clear _ ih => rw [List.length_cons, ih, List.length_cons]

theorem compiled (h : c.Runs requests answers c') (asked : requests[i]? = some (.get q)) :
    ∃ s, answers[i]? = some (some s) ∧ compile c.dialect q = .ok s.statement := by
  induction h generalizing i with
  | nil => cases asked
  | get step _ ih =>
      cases i with
      | zero =>
          cases asked
          exact ⟨_, rfl, step.compiled⟩
      | succ i => exact step.dialect ▸ ih asked
  | clear _ ih =>
      cases i with
      | zero => cases asked
      | succ i => exact ih asked

/-- A later answer is the statement that the cache remembers exactly if it is for the same query
and the cache was not cleared up to it. -/
theorem same_iff_of_remembers {uncleared : Prop} (h : c.Runs requests answers c')
    (valid : c.Valid) (remembers : c.Remembers q s uncleared)
    (asked : requests[j]? = some (.get q')) (answered : answers[j]? = some (some s')) :
    s.number = s'.number ↔ q = q' ∧ uncleared ∧ ∀ k < j, requests[k]? ≠ some .clear := by
  induction h generalizing j uncleared with
  | nil => cases asked
  | get step _ ih =>
      cases j with
      | zero =>
          cases asked
          cases answered
          simpa using remembers.same_iff valid step
      | succ j =>
          rw [ih (step.valid valid) (remembers.step step) asked answered,
            Nat.forall_lt_succ_left]
          simp
  | @clear c _ _ _ _ ih =>
      cases j with
      | zero => cases asked
      | succ j =>
          rw [ih c.valid_clear remembers.clear asked answered, Nat.forall_lt_succ_left]
          simp

/-- Two answers are the very same statement exactly if they are for the same query and the cache
was not cleared in between. -/
theorem same_iff (h : c.Runs requests answers c') (valid : c.Valid) (before : i < j)
    (asked : requests[i]? = some (.get q)) (answered : answers[i]? = some (some s))
    (asked' : requests[j]? = some (.get q')) (answered' : answers[j]? = some (some s')) :
    s.number = s'.number ↔ q = q' ∧ ClearFree requests i j := by
  induction h generalizing i j with
  | nil => cases asked
  | get step later ih =>
      obtain ⟨j, rfl⟩ := Nat.exists_eq_add_one_of_ne_zero (Nat.ne_zero_of_lt before)
      cases i with
      | zero =>
          cases asked
          cases answered
          rw [later.same_iff_of_remembers (step.valid valid) (step.remembers valid) asked'
            answered', true_and, clearFree_zero]
      | succ i =>
          rw [ih (step.valid valid) (Nat.lt_of_succ_lt_succ before) asked answered asked'
            answered', clearFree_succ]
  | @clear c _ _ _ _ ih =>
      obtain ⟨j, rfl⟩ := Nat.exists_eq_add_one_of_ne_zero (Nat.ne_zero_of_lt before)
      cases i with
      | zero => cases asked
      | succ i =>
          rw [ih c.valid_clear (Nat.lt_of_succ_lt_succ before) asked answered asked'
            answered', clearFree_succ]

theorem holds {qs : List Expr} (h : c.Runs requests answers c') (holds : c.Holds qs) :
    c'.Holds (recent qs requests) := by
  induction h generalizing qs with
  | nil => exact holds
  | get step _ ih => exact ih (step.holds holds)
  | clear _ ih => exact ih (holds_nil rfl)

end Runs

/-! ## Runs of a new cache -/

/-- A new cache answers every query with the statement of what it is simplified to.  Two answers
are the very same statement exactly if they are for the same query and the cache was not cleared
in between.  In the end it has one statement for each of the different queries since the last
clearing. -/
theorem run_new (d : Dialect) {requests : List Request}
    (flags : ∀ q, Request.get q ∈ requests → q.AllFlagsMatch) :
    ∃ answers c, run { dialect := d } requests = .ok (answers, c) ∧
      answers.length = requests.length ∧
      (∀ (i : ℕ) q, requests[i]? = some (.get q) → ∃ s r, answers[i]? = some (some s) ∧
        q.revise .nullability = .ok r ∧ s.statement = (r.of q).printStatement d) ∧
      (∀ (i j : ℕ) q q' s s', i < j →
        requests[i]? = some (.get q) → answers[i]? = some (some s) →
        requests[j]? = some (.get q') → answers[j]? = some (some s') →
        (s.number = s'.number ↔ q = q' ∧ ClearFree requests i j)) ∧
      c.size = (recent [] requests).dedup.length ∧
      (c.isEmpty = true ↔ (recent [] requests).dedup.length = 0) := by
  obtain ⟨answers, c, ran, runs⟩ := run_ok (valid_new d) flags
  have holds : c.Holds (recent [] requests) := runs.holds (holds_nil rfl)
  refine ⟨answers, c, ran, runs.length_eq, ?statements, ?same, holds.size, ?empty⟩
  case statements =>
    intro i q asked
    obtain ⟨s, answered, compiled⟩ := runs.compiled asked
    obtain ⟨r, revised, printed⟩ := compile_ok d (flags q (List.mem_of_getElem? asked))
    rw [printed] at compiled
    exact ⟨s, r, answered, revised, (Except.ok.inj compiled).symm⟩
  case same =>
    intro i j q q' s s' before asked answered asked' answered'
    exact runs.same_iff (valid_new d) before asked answered asked' answered'
  case empty =>
    rw [isEmpty, Std.HashMap.isEmpty_eq_size_eq_zero, beq_iff_eq, holds.size]

/-- The query `SELECT upper("b"."Name") FROM "Blogs" AS "b"`. -/
def upperNames : Expr :=
  .select {
    projection := [.call ⟨"upper", none, true, [true], ⟨.string, none⟩⟩
      [.column "Name" "b" ⟨.string, none⟩ true]]
    tables := [.table ⟨"Blogs", none⟩ "b"] }

theorem allFlagsMatch_upperNames : upperNames.AllFlagsMatch := by
  refine .of_children trivial ?_
  intro c mem
  rcases List.mem_pair.mp mem with rfl | rfl
  · refine .of_children rfl ?_
    intro c mem
    obtain rfl := List.mem_singleton.mp mem
    exact .of_children trivial nofun
  · exact .of_children trivial nofun

/-- The query asked for twice, and once more after a clearing. -/
def upperNamesAgain : List Request := [.get upperNames, .get upperNames, .clear, .get upperNames]

theorem run_new_upperNamesAgain :
    (∀ q, Request.get q ∈ upperNamesAgain → q.AllFlagsMatch) ∧
      ∃ answers c s s' s'', run { dialect := .ansi } upperNamesAgain = .ok (answers, c) ∧
        answers[0]? = some (some s) ∧ answers[1]? = some (some s') ∧
        answers[3]? = some (some s'') ∧ s.number = s'.number ∧ s.number ≠ s''.number ∧
        c.size = 1 := by
  have flags : ∀ q, Request.get q ∈ upperNamesAgain → q.AllFlagsMatch := by
    intro q mem
    have same : q = upperNames := by simpa [upperNamesAgain] using mem
    exact same ▸ allFlagsMatch_upperNames
  obtain ⟨answers, c, ran, -, statements, same, size, -⟩ := run_new .ansi flags
  obtain ⟨s, -, first, -⟩ := statements 0 upperNames rfl
  obtain ⟨s', -, second, -⟩ := statements 1 upperNames rfl
  obtain ⟨s'', -, last, -⟩ := statements 3 upperNames rfl
  refine ⟨flags, answers, c, s, s', s'', ran, first, second, last, ?again, ?cleared, size⟩
  case again =>
    refine (same 0 1 _ _ _ _ Nat.one_pos rfl first rfl second).mpr ⟨rfl, ?_⟩
    intro k after before
    omega
  case cleared =>
    intro number
    have free := ((same 0 3 _ _ _ _ (by omega) rfl first rfl last).mp number).2
    exact free 2 (by omega) (by omega) rfl

end CommandCache

end SqlGen
