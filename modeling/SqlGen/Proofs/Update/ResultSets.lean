import SqlGen.Proofs.Update.Report
import SqlGen.Proofs.Update.Statements
import SqlGen.Sqlite.Provider

/-!
# Results and rows

What a batch expects to come back is recorded beside its text.  `Answers` says that the two agree
for one change: if rows are expected, the last statement of the change gives them and no other one
does, and otherwise no statement gives any.  `Generator.answers_script` shows it for each shape that
the statements of a change have.

Hence the text of a whole batch gives one result set for each change that is expected to return
rows, in the order of these changes (`Sqlite.answers_build`).
-/

namespace SqlGen

open Reading

/-! ## Statements that agree with a result -/

/-- Of some statements the last one gives rows if the result says so, and no other one does. -/
inductive Answers {α : Type} (gives : α → Prop) : ResultSets → List α → Prop where
  | silent {sts : List α} : (∀ st ∈ sts, ¬ gives st) → Answers gives .none sts
  | rows {r : ResultSets} {before : List α} {last : α} :
      r ≠ .none → (∀ st ∈ before, ¬ gives st) → gives last → Answers gives r (before ++ [last])

namespace Answers

theorem one {α : Type} {gives : α → Prop} {r : ResultSets} {st : α} (returns : r ≠ .none)
    (rows : gives st) : Answers gives r [st] :=
  show Answers gives r ([] ++ [st]) from .rows returns (List.forall_mem_nil _) rows

theorem two {α : Type} {gives : α → Prop} {r : ResultSets} {st next : α} (returns : r ≠ .none)
    (silent : ¬ gives st) (rows : gives next) : Answers gives r [st, next] :=
  show Answers gives r ([st] ++ [next]) from
    .rows returns (List.forall_mem_singleton.mpr silent) rows

theorem map {α β : Type} {gives : α → Prop} {gives' : β → Prop} {f : α → β}
    (same : ∀ st, gives' (f st) ↔ gives st) {r : ResultSets} {sts : List α}
    (h : Answers gives r sts) : Answers gives' r (sts.map f) := by
  have silent {sts : List α} (none : ∀ st ∈ sts, ¬ gives st) : ∀ st ∈ sts.map f, ¬ gives' st :=
    List.forall_mem_map.mpr fun st mem => (same st).not.mpr (none st mem)
  cases h with
  | silent none => exact .silent (silent none)
  | rows returns none last =>
      rw [List.map_append, List.map_singleton]
      exact .rows returns (silent none) ((same _).mpr last)

end Answers

/-- If several scripts agree with their results, the statements that give rows are the last ones of
the scripts that are expected to. -/
theorem forall₂_answering {α β : Type} {gives : β → Prop} [DecidablePred gives]
    {script : α → List β} {xs : List α} {rs : List ResultSets}
    (h : List.Forall₂ (fun x r => Answers gives r (script x)) xs rs) :
    List.Forall₂ (fun x st => (script x).getLast? = some st) (answering xs rs)
      ((xs.flatMap script).filter gives) := by
  induction h with
  | nil => exact .nil
  | @cons x r xs rs first _ ih =>
      -- Of the statements of the first script at most the last one passes the test.
      rw [List.flatMap_cons, List.filter_append]
      generalize own : script x = sts at first
      cases first with
      | silent none =>
          have nothing : sts.filter (fun st => decide (gives st)) = [] :=
            List.filter_eq_nil_iff.mpr fun st mem => by simpa using none st mem
          rw [nothing, List.nil_append]
          exact ih
      | @rows _ before last returns none answer =>
          have nothing : before.filter (fun st => decide (gives st)) = [] :=
            List.filter_eq_nil_iff.mpr fun st mem => by simpa using none st mem
          have asked : answering (x :: xs) (r :: rs) = x :: answering xs rs := by
            simp [answering, returns]
          rw [asked, List.filter_append, nothing, List.nil_append, List.filter_singleton,
            decide_eq_true answer]
          refine .cons ?_ ih
          rw [own, List.getLast?_concat]

theorem length_answering {α : Type} {xs : List α} {rs : List ResultSets}
    (even : xs.length = rs.length) : (answering xs rs).length = demanded rs := by
  have results : (xs.zip rs).map Prod.snd = rs := List.map_snd_zip (Nat.le_of_eq even.symm)
  calc (answering xs rs).length
      = (xs.zip rs).countP fun p => p.2 != .none := by
        rw [answering, List.length_map, List.countP_eq_length_filter]
    _ = ((xs.zip rs).map Prod.snd).countP fun r => r != .none := by
        rw [List.countP_map]
        rfl
    _ = demanded rs := by rw [results, demanded]

/-! ## The statements of one change -/

theorem ResultSets.last_ne_none : ResultSets.last ≠ .none := by decide

/-- The statements of a change agree with what it is expected to return. -/
theorem Generator.answers_script {g : Generator}
    (counts : ∀ table position, (g.countCommand table position).2 ≠ .none) (c : RowChange)
    (position : Nat) :
    Answers (fun st => st.returnsRows = true) (g.script c position).2 (g.script c position).1 := by
  have silent : ¬ (c.modification none).returnsRows = true := by
    unfold RowChange.modification
    cases c.kind <;> simp [Statement.returnsRows]
  have returning (columns : List String) : (c.modification (some columns)).returnsRows = true := by
    unfold RowChange.modification
    cases c.kind <;> rfl
  generalize shape : g.script c position = script
  cases Generator.isScript_of_eq shape with
  | silent => exact .silent (List.forall_mem_singleton.mpr silent)
  | returning => exact .one ResultSets.last_ne_none (returning _)
  | selecting => exact .two ResultSets.last_ne_none silent rfl
  | counting => exact .two (counts _ _) silent rfl

/-! ## The statements of a batch -/

/-- The statements in the text of a change at its position. -/
def Generator.statementsOf (g : Generator) (p : RowChange × Nat) : List (List Lexeme) :=
  statements (lexemes (g.operation p.1 p.2).1)

namespace Sqlite

theorem statementsOf_eq {returning : Bool} {c : RowChange} (names : c.HasBatchNames)
    (position : Nat) :
    (generator returning).statementsOf (c, position) =
      ((generator returning).script c position).1.map statementLexemes := by
  rw [Generator.statementsOf, (reads_operation names).lexemes_eq, statements_terminated]

/-- The text of a change agrees with what the change is expected to return. -/
theorem answers_statementsOf {returning : Bool} {c : RowChange} (names : c.HasBatchNames)
    (position : Nat) :
    Answers ReturnsRows ((generator returning).operation c position).2
      ((generator returning).statementsOf (c, position)) := by
  rw [statementsOf_eq names]
  have script := Generator.answers_script (g := generator returning)
    (fun _ _ => ResultSets.last_ne_none) c position
  exact script.map returnsRows_statementLexemes

/-- The text of a batch is read as the statements of the changes it holds. -/
theorem statements_build {returning : Bool} {capacity : Nat} {b₀ : Batch}
    (new : Batch.empty? (generator returning) capacity = .ok b₀) {cs : List RowChange}
    (names : ∀ c ∈ cs, c.HasBatchNames) :
    statements (lexemes (b₀.offerAll cs).build.sql) =
      (b₀.offerAll cs).changes.zipIdx.flatMap (generator returning).statementsOf := by
  have given := Batch.hasBatchNames_offerAll new names
  have own := (Batch.rendered_offerAll new cs).2
  rw [lexemes_build new names, statements_terminated, Batch.script, own, List.map_flatMap]
  refine List.flatMap_congr fun p mem => ?_
  exact (statementsOf_eq (given p.1 (List.fst_mem_of_mem_zipIdx mem)) p.2).symm

/-- Results and rows of a batch.

The text of each change agrees with what the change is expected to return, and the text of the
batch consists of the statements of its changes.  So the statements of the batch that give rows are,
one by one, the last statements of the changes that are expected to return rows, and the batch
demands one number of affected rows for each of them. -/
theorem answers_build {p : Provider} {b₀ : Batch} (new : p.createBatch = .ok b₀)
    {cs : List RowChange} (names : ∀ c ∈ cs, c.HasBatchNames) :
    List.Forall₂ (fun change r => Answers ReturnsRows r (p.generator.statementsOf change))
        (b₀.offerAll cs).changes.zipIdx (b₀.offerAll cs).build.results ∧
      statements (lexemes (b₀.offerAll cs).build.sql) =
        (b₀.offerAll cs).changes.zipIdx.flatMap p.generator.statementsOf ∧
      List.Forall₂ (fun change st => (p.generator.statementsOf change).getLast? = some st)
        (answering (b₀.offerAll cs).changes.zipIdx (b₀.offerAll cs).build.results)
        ((statements (lexemes (b₀.offerAll cs).build.sql)).filter fun st => ReturnsRows st) ∧
      ∀ affected,
        (∃ expected actual, (b₀.offerAll cs).consume affected =
          .error { cause := .resultSetCountMismatch expected actual }) ↔
        affected.length ≠
          ((statements (lexemes (b₀.offerAll cs).build.sql)).filter fun st =>
            ReturnsRows st).length := by
  have text := statements_build new names
  have given := Batch.hasBatchNames_offerAll new names
  obtain ⟨rendered, own⟩ := Batch.rendered_offerAll new cs
  have results : (b₀.offerAll cs).build.results = (b₀.offerAll cs).changes.zipIdx.map fun q =>
      (p.generator.operation q.1 q.2).2 := own ▸ rendered.results
  have agree : List.Forall₂
      (fun change r => Answers ReturnsRows r (p.generator.statementsOf change))
      (b₀.offerAll cs).changes.zipIdx (b₀.offerAll cs).build.results := by
    rw [results, List.forall₂_map_right_iff, List.forall₂_same]
    exact fun q mem => answers_statementsOf (given q.1 (List.fst_mem_of_mem_zipIdx mem)) q.2
  have rows := forall₂_answering agree
  have count : ((statements (lexemes (b₀.offerAll cs).build.sql)).filter fun st =>
      ReturnsRows st).length = demanded (b₀.offerAll cs).results := by
    rw [text]
    exact rows.length_eq.symm.trans (length_answering agree.length_eq)
  refine ⟨agree, text, text ▸ rows, fun affected => ?_⟩
  rw [count]
  constructor
  · rintro ⟨expected, actual, mismatch⟩
    exact (Batch.consume_eq_mismatch_iff.mp mismatch).1
  · exact fun other => ⟨_, _, Batch.consume_eq_mismatch_iff.mpr ⟨other, rfl, rfl⟩⟩

end Sqlite

/-- Of three changes the first and the last one are counted by a second statement.  The line between
them gives no rows. -/
theorem answers_build_silentLine :
    Sqlite.Provider.createBatch { options := { maxBatchSize := 3 } } = .ok plainRoomForThree ∧
      (∀ c ∈ [rename, addLine, deleteDraft], c.HasBatchNames) ∧
      (statements (lexemes silentLine.build.sql)).length = 5 ∧
      ((statements (lexemes silentLine.build.sql)).filter fun st => ReturnsRows st) =
        [[.word "SELECT", .word "changes", .sign '(', .sign ')'],
         [.word "SELECT", .word "changes", .sign '(', .sign ')']] ∧
      (answering silentLine.changes.zipIdx silentLine.results).map (fun p => p.1.table.name) =
        ["t", "drafts"] ∧
      List.Forall₂ (fun change st =>
          ((Sqlite.generator false).statementsOf change).getLast? = some st)
        (answering silentLine.changes.zipIdx silentLine.results)
        ((statements (lexemes silentLine.build.sql)).filter fun st => ReturnsRows st) := by
  have new : Sqlite.Provider.createBatch { options := { maxBatchSize := 3 } } =
      .ok plainRoomForThree := rfl
  have names : ∀ c ∈ [rename, addLine, deleteDraft], c.HasBatchNames := by
    intro c mem
    have fresh : ∀ c ∈ [rename, addLine, deleteDraft], c.IsFresh := by
      simp [rename, addLine, deleteDraft, RowChange.IsFresh, ColumnChange.IsFresh]
    exact (fresh c mem).hasBatchNames
  have text : lexemes silentLine.build.sql = Sqlite.terminated silentLine.script :=
    Sqlite.lexemes_build new names
  obtain ⟨-, -, rows, -⟩ := Sqlite.answers_build new names
  refine ⟨new, names, ?_, ?_, by decide +kernel, rows⟩
  · rw [text]
    decide +kernel
  · rw [text]
    decide +kernel

end SqlGen
