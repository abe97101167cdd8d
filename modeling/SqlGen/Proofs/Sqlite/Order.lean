import Mathlib.Data.List.Pairwise
import SqlGen.Proofs.Sqlite.Translation

/-!
# The order of the translators

A translator responds to a call if it knows the method or breaks a precondition, so the first one
that responds decides.  Where all that respond agree, a chain gives the same result in any order and
with any repetitions (`Translator.first_congr`).

Each translator of SQLite responds to methods of its own only.  The methods of any two of them are
apart, so at most one responds to a call, however many arguments the call has and whether or not it
has an instance.
-/

namespace SqlGen

namespace Translator

variable {call : MethodCall} {t : Translator} {ts ts' : List Translator}

/-- A translator has an answer for a call or breaks a precondition on it. -/
def Responds (t : Translator) (call : MethodCall) : Prop :=
  t call ≠ .ok none

theorem first_cons_of_responds (responds : t.Responds call) (rest : List Translator) :
    first call (t :: rest) = t call := by
  rw [first]
  cases result : t call with
  | error v => rfl
  | ok answer =>
    cases answer with
    | none => exact absurd result responds
    | some e => rfl

theorem first_cons_of_not_responds (silent : ¬ t.Responds call) (rest : List Translator) :
    first call (t :: rest) = first call rest :=
  Sqlite.first_of_none (not_not.mp silent) rest

theorem first_of_not_responds (silent : ∀ t ∈ ts, ¬ t.Responds call) :
    first call ts = .ok none := by
  induction ts with
  | nil => rfl
  | cons t rest ih =>
    rw [first_cons_of_not_responds (silent t List.mem_cons_self)]
    exact ih fun t mem => silent t (List.mem_cons_of_mem _ mem)

/-- The result is that of any translator that responds, if the others agree with it. -/
theorem first_of_responds (mem : t ∈ ts) (responds : t.Responds call)
    (agree : ∀ t' ∈ ts, t'.Responds call → t' call = t call) : first call ts = t call := by
  induction ts with
  | nil => cases mem
  | cons head rest ih =>
    by_cases decides : head.Responds call
    case pos =>
      rw [first_cons_of_responds decides]
      exact agree head List.mem_cons_self decides
    case neg =>
      have later : t ∈ rest :=
        (List.mem_cons.mp mem).resolve_left fun same => decides (same ▸ responds)
      rw [first_cons_of_not_responds decides]
      exact ih later fun t' mem => agree t' (List.mem_cons_of_mem _ mem)

/-- Chains of the same translators give the same result, if all that respond agree. -/
theorem first_congr (same : ∀ t, t ∈ ts ↔ t ∈ ts')
    (agree : ∀ t ∈ ts', ∀ t' ∈ ts', t.Responds call → t'.Responds call → t' call = t call) :
    first call ts = first call ts' := by
  by_cases known : ∃ t ∈ ts', t.Responds call
  case pos =>
    obtain ⟨t, mem, responds⟩ := known
    rw [first_of_responds mem responds fun t' mem' => agree t mem t' mem' responds,
      first_of_responds ((same t).mpr mem) responds
        fun t' mem' => agree t mem t' ((same t').mp mem') responds]
  case neg =>
    have silent : ∀ t ∈ ts', ¬ t.Responds call := fun t mem responds => known ⟨t, mem, responds⟩
    rw [first_of_not_responds silent, first_of_not_responds fun t mem => silent t ((same t).mp mem)]

end Translator

namespace Sqlite

variable {call : MethodCall}

/-- The translators of SQLite with the methods that each of them knows. -/
def knownMethods : List (Translator × List Method) :=
  [(translateHex, [hex]), (translateGlob, [glob]),
    (translateString, .substring :: stringFunctions.map Prod.fst),
    (translateMath, mathFunctions.map Prod.fst)]

theorem translators_eq : translators = knownMethods.map Prod.fst := rfl

theorem method_mem_of_responds {entry : Translator × List Method} (listed : entry ∈ knownMethods)
    (responds : entry.1.Responds call) : call.method ∈ entry.2 := by
  by_contra unknown
  refine responds ?_
  simp only [knownMethods, List.mem_cons, List.not_mem_nil, or_false] at listed
  rcases listed with rfl | rfl | rfl | rfl
  case inl => exact translateHex_of_ne (by simpa using unknown)
  case inr.inl => exact translateGlob_of_ne (by simpa using unknown)
  case inr.inr.inl =>
    obtain ⟨notPart, notString⟩ := List.ne_and_not_mem_of_not_mem_cons unknown
    exact translateString_of_not_mem notString notPart
  case inr.inr.inr => exact translateMath_of_not_mem unknown

theorem knownMethods_apart : knownMethods.Pairwise fun p q => ∀ m ∈ p.2, m ∉ q.2 := by
  decide

/-- No two translators respond to one call. -/
theorem pairwise_not_responds (call : MethodCall) :
    translators.Pairwise fun t t' => ¬ (t.Responds call ∧ t'.Responds call) := by
  rw [translators_eq, List.pairwise_map]
  refine knownMethods_apart.imp_of_mem fun {p q} listed listed' apart => ?_
  rintro ⟨responds, responds'⟩
  exact apart _ (method_mem_of_responds listed responds) (method_mem_of_responds listed' responds')

theorem agree_of_responds {t t' : Translator} (mem : t ∈ translators) (mem' : t' ∈ translators)
    (responds : t.Responds call) (responds' : t'.Responds call) : t' call = t call := by
  have symm : Std.Symm fun t t' : Translator => ¬ (t.Responds call ∧ t'.Responds call) :=
    ⟨fun _ _ apart both => apart both.symm⟩
  by_contra differ
  have other : t ≠ t' := fun same => differ (same ▸ rfl)
  exact (pairwise_not_responds call).forall mem mem' other ⟨responds, responds'⟩

/-- At most one translator of SQLite responds to a call, and every chain of these translators gives
the result of the provider's own: the same SQL, nothing, or the same violation. -/
theorem translate_any_order (call : MethodCall) :
    translators.Pairwise (fun t t' => ¬ (t.Responds call ∧ t'.Responds call)) ∧
    ∀ chain : TranslatorChain,
      (∀ t, t ∈ chain.plugins ++ chain.translators ↔ t ∈ translators) →
        chain.translate call = translatorChain.translate call := by
  refine ⟨pairwise_not_responds call, ?_⟩
  intro chain same
  exact Translator.first_congr same fun t mem t' mem' => agree_of_responds mem mem'

/-- The translators in another order, two of them twice. -/
def shuffledChain : TranslatorChain where
  plugins := [translateMath, translateString]
  translators := [translateGlob, translateMath, translateHex, translateString]

/-- A part of a name without its length. -/
def partWithoutLength : MethodCall where
  receiver := some (builder.column "Name" "b" .string true)
  method := .substring
  arguments := [builder.parameter "start" .int32 false]

theorem translate_any_order_shuffled :
    (∀ t, t ∈ shuffledChain.plugins ++ shuffledChain.translators ↔ t ∈ translators) ∧
    shuffledChain.translate partWithoutLength = translatorChain.translate partWithoutLength ∧
    translatorChain.translate partWithoutLength = .error .missingArgument := by
  have same : ∀ t, t ∈ shuffledChain.plugins ++ shuffledChain.translators ↔ t ∈ translators := by
    intro t
    simp only [shuffledChain, translators, List.mem_append, List.mem_cons, List.not_mem_nil,
      or_false]
    tauto
  exact ⟨same, (translate_any_order partWithoutLength).2 shuffledChain same, rfl⟩

end Sqlite

end SqlGen
