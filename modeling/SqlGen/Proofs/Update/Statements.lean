import SqlGen.Proofs.Update.Script

/-!
# The statements of a batch

Inside a statement there is no terminator, and the key words that make it return rows are there
exactly if it does (`Sqlite.returnsRows_statementLexemes`).  Its placeholders are those of the
parameters it refers to.

The names that batches give are words, so the text of a batch is read as the statements of its
changes, one after the other (`Sqlite.lexemes_build`).
-/

namespace SqlGen

open Reading

namespace Sqlite

/-! ## What a statement holds -/

theorem isLiteralOf_operand (v : Value) : IsLiteralOf (operandLexemes (.literal v)) :=
  isLiteralOf_literalLexemes isConstant_boolean v

theorem isInner_table (q : QualifiedName) : ∀ t ∈ tableLexemes q, t.isInner = true := by
  unfold tableLexemes
  cases q.schema <;> simp [Lexeme.isInner]

theorem isInner_columns (columns : List String) :
    ∀ t ∈ columnLexemes columns, t.isInner = true := by
  refine forall_mem_separated (by decide) fun x mem => ?_
  obtain ⟨name, -, rfl⟩ := List.mem_map.mp mem
  exact List.forall_mem_singleton.mpr rfl

theorem isInner_operand (o : Operand) : ∀ t ∈ operandLexemes o, t.isInner = true := by
  cases o with
  | placeholder name => exact List.forall_mem_singleton.mpr rfl
  | literal v => exact (isLiteralOf_operand v).isInner

theorem isInner_condition (k : Condition) : ∀ t ∈ conditionLexemes k, t.isInner = true := by
  cases k with
  | column name parameter => cases parameter <;> simp [conditionLexemes, Lexeme.isInner]
  | identity column => simp [conditionLexemes, Lexeme.isInner]
  | rowsAffected count =>
      have number := (isConstant_natural count).isInner
      simp only [conditionLexemes, List.forall_mem_cons, number]
      simp [Lexeme.isInner]

theorem isInner_conditions (conditions : List Condition) :
    ∀ t ∈ conditionsLexemes conditions, t.isInner = true := by
  refine forall_mem_separated (by decide) fun x mem => ?_
  obtain ⟨k, -, rfl⟩ := List.mem_map.mp mem
  exact isInner_condition k

theorem isInner_values (values : List Assignment) :
    ∀ t ∈ valuesLexemes values, t.isInner = true := by
  have operands : ∀ t ∈ separated (.sign ',') (values.map fun a => operandLexemes a.operand),
      t.isInner = true := by
    refine forall_mem_separated (by decide) fun x mem => ?_
    obtain ⟨a, -, rfl⟩ := List.mem_map.mp mem
    exact isInner_operand a.operand
  unfold valuesLexemes
  split
  next => decide +kernel
  next =>
    simp only [List.forall_mem_cons, List.forall_mem_append]
    exact ⟨rfl, ⟨⟨isInner_columns _, by decide +kernel⟩, operands⟩, by decide⟩

theorem isInner_where (conditions : List Condition) :
    ∀ t ∈ whereLexemes conditions, t.isInner = true := by
  unfold whereLexemes
  split
  next => decide
  next => exact List.forall_mem_cons.mpr ⟨by decide +kernel, isInner_conditions conditions⟩

theorem isInner_body (st : Statement) : ∀ t ∈ bodyLexemes st, t.isInner = true := by
  cases st with
  | insert table values returned =>
      simp only [bodyLexemes, List.forall_mem_append]
      exact ⟨⟨by decide +kernel, isInner_table table⟩, isInner_values values⟩
  | update table values conditions returned =>
      have assignments : ∀ t ∈ separated (.sign ',') (values.map assignmentLexemes),
          t.isInner = true := by
        refine forall_mem_separated (by decide) fun x mem => ?_
        obtain ⟨a, -, rfl⟩ := List.mem_map.mp mem
        exact List.forall_mem_cons.mpr
          ⟨rfl, List.forall_mem_cons.mpr ⟨by decide, isInner_operand a.operand⟩⟩
      simp only [bodyLexemes, List.forall_mem_append]
      exact ⟨⟨⟨⟨by decide +kernel, isInner_table table⟩, by decide +kernel⟩, assignments⟩,
        isInner_where conditions⟩
  | delete table conditions returned =>
      simp only [bodyLexemes, List.forall_mem_append]
      exact ⟨⟨by decide +kernel, isInner_table table⟩, isInner_where conditions⟩
  | readBack columns table conditions =>
      simp only [bodyLexemes, List.forall_mem_append]
      exact ⟨⟨⟨⟨⟨by decide +kernel, isInner_columns columns⟩, by decide +kernel⟩,
        isInner_table table⟩, by decide +kernel⟩, isInner_conditions conditions⟩
  | count sql =>
      rw [bodyLexemes]
      decide +kernel

theorem isInner_items (columns : List String) : ∀ t ∈ itemLexemes columns, t.isInner = true := by
  unfold itemLexemes
  split
  next => decide
  next => exact isInner_columns columns

/-- A statement ends at its terminator and not before. -/
theorem terminator_notMem_statementLexemes (st : Statement) : .sign ';' ∉ statementLexemes st := by
  have body : .sign ';' ∉ bodyLexemes st := fun mem => absurd (isInner_body st _ mem) (by decide)
  have items (columns : List String) : .sign ';' ∉ itemLexemes columns :=
    fun mem => absurd (isInner_items columns _ mem) (by decide)
  rw [statementLexemes, List.mem_append, or_iff_right body]
  cases st.returned <;> simp [returningLexemes, items]

/-- The statements that return rows are those with the key words for it. -/
theorem returnsRows_statementLexemes (st : Statement) :
    ReturnsRows (statementLexemes st) ↔ st.returnsRows = true := by
  have body : .word "RETURNING" ∉ bodyLexemes st :=
    fun mem => absurd (isInner_body st _ mem) (by decide +kernel)
  have clause : .word "RETURNING" ∈ statementLexemes st ↔ st.returned.isSome = true := by
    rw [statementLexemes, List.mem_append, or_iff_right body]
    cases st.returned <;> simp [returningLexemes]
  rw [ReturnsRows, clause]
  cases st <;> simp [statementLexemes, bodyLexemes, Statement.returned, Statement.returnsRows]

/-! ## Placeholders in lexemes -/

theorem placeholders_table (q : QualifiedName) :
    (tableLexemes q).filterMap Lexeme.placeholder? = [] := by
  unfold tableLexemes
  cases q.schema <;> rfl

theorem placeholders_columns (columns : List String) :
    (columnLexemes columns).filterMap Lexeme.placeholder? = [] := by
  rw [columnLexemes, filterMap_separated rfl, List.flatMap_map]
  exact List.flatMap_eq_nil_iff.mpr fun _ _ => rfl

theorem placeholders_operand (o : Operand) :
    (operandLexemes o).filterMap Lexeme.placeholder? = o.placeholder?.toList := by
  cases o with
  | placeholder name => rfl
  | literal v => exact (isLiteralOf_operand v).placeholders

theorem placeholders_condition (k : Condition) :
    (conditionLexemes k).filterMap Lexeme.placeholder? = k.placeholder?.toList := by
  cases k with
  | column name parameter => cases parameter <;> rfl
  | identity column => rfl
  | rowsAffected count => rfl

theorem placeholders_conditions (conditions : List Condition) :
    (conditionsLexemes conditions).filterMap Lexeme.placeholder? =
      conditions.filterMap Condition.placeholder? := by
  rw [conditionsLexemes, filterMap_separated rfl, List.flatMap_map,
    List.filterMap_eq_flatMap_toList]
  simp only [placeholders_condition]

theorem placeholders_where (conditions : List Condition) :
    (whereLexemes conditions).filterMap Lexeme.placeholder? =
      conditions.filterMap Condition.placeholder? := by
  unfold whereLexemes
  cases conditions with
  | nil => rfl
  | cons k rest => exact placeholders_conditions (k :: rest)

theorem placeholders_values (values : List Assignment) :
    (valuesLexemes values).filterMap Lexeme.placeholder? =
      values.filterMap fun a => a.operand.placeholder? := by
  have operands : (separated (.sign ',') (values.map fun a => operandLexemes a.operand)).filterMap
      Lexeme.placeholder? = values.filterMap fun a => a.operand.placeholder? := by
    rw [filterMap_separated rfl, List.flatMap_map, List.filterMap_eq_flatMap_toList]
    simp only [placeholders_operand]
  cases values with
  | nil => rfl
  | cons a rest =>
      simp only [valuesLexemes, List.isEmpty_cons, Bool.false_eq_true, if_false, placeholders_sign,
        placeholders_word, List.filterMap_append, placeholders_columns, operands]
      simp

theorem placeholders_assignments (values : List Assignment) :
    (separated (.sign ',') (values.map assignmentLexemes)).filterMap Lexeme.placeholder? =
      values.filterMap fun a => a.operand.placeholder? := by
  have assignment (a : Assignment) : (assignmentLexemes a).filterMap Lexeme.placeholder? =
      a.operand.placeholder?.toList := placeholders_operand a.operand
  rw [filterMap_separated rfl, List.flatMap_map, List.filterMap_eq_flatMap_toList]
  simp only [assignment]

theorem placeholders_returning (returned : Option (List String)) :
    (returningLexemes returned).filterMap Lexeme.placeholder? = [] := by
  cases returned with
  | none => rfl
  | some columns =>
      simp only [returningLexemes, itemLexemes]
      split
      next => rfl
      next => exact placeholders_columns columns

/-- The placeholders of a statement, in their order. -/
theorem placeholders_statementLexemes (st : Statement) :
    (statementLexemes st).filterMap Lexeme.placeholder? = st.placeholders := by
  rw [statementLexemes, List.filterMap_append, placeholders_returning, List.append_nil]
  cases st with
  | insert table values returned =>
      simp [bodyLexemes, Statement.placeholders, placeholders_table,
        placeholders_values]
  | update table values conditions returned =>
      simp [bodyLexemes, Statement.placeholders, placeholders_table,
        placeholders_assignments, placeholders_where]
  | delete table conditions returned =>
      simp [bodyLexemes, Statement.placeholders, placeholders_table,
        placeholders_where]
  | readBack columns table conditions =>
      simp [bodyLexemes, Statement.placeholders, placeholders_table,
        placeholders_columns, placeholders_conditions]
  | count sql => rfl

/-! ## The statements of a change -/

/-- The lexemes of some statements with their terminators. -/
def terminated (sts : List Statement) : List Lexeme :=
  sts.flatMap fun st => statementLexemes st ++ [.sign ';']

theorem terminated_cons (st : Statement) (rest : List Statement) :
    terminated (st :: rest) = statementLexemes st ++ .sign ';' :: terminated rest := by
  rw [terminated, List.flatMap_cons, List.append_assoc]
  rfl

theorem statements_terminated (sts : List Statement) :
    statements (terminated sts) = sts.map statementLexemes := by
  induction sts with
  | nil => rfl
  | cons st rest ih =>
      rw [terminated_cons, statements_append (terminator_notMem_statementLexemes st), ih,
        List.map_cons]

theorem placeholder_mem_terminated {sts : List Statement} {name : String} :
    .placeholder name ∈ terminated sts ↔ ∃ st ∈ sts, name ∈ st.placeholders := by
  have statement (st : Statement) :
      .placeholder name ∈ statementLexemes st ++ [.sign ';'] ↔ name ∈ st.placeholders := by
    rw [← placeholders_statementLexemes, List.mem_append, placeholder_mem_iff]
    simp
  simp only [terminated, List.mem_flatMap, statement]

theorem isLegibleName_nameOf (n : Nat) : IsLegibleName (BatchParameter.nameOf n) := by
  intro c mem
  rw [BatchParameter.nameOf, String.toList_append, List.mem_append] at mem
  rcases mem with first | later
  · obtain rfl : c = 'p' := by simpa using first
    decide
  · exact (isConstant_natural n).isWord.2 c later

section Change

variable {returning : Bool} {c : RowChange} {position : Nat}

theorem count_mem_script {g : Generator} {sql : String}
    (mem : .count sql ∈ (g.script c position).1) : sql = (g.countCommand c.table position).1 := by
  have modification (returned : Option (List String)) : .count sql ≠ c.modification returned := by
    unfold RowChange.modification
    cases c.kind <;> simp
  generalize shape : g.script c position = script at mem
  cases Generator.isScript_of_eq shape with
  | silent => simp [modification] at mem
  | returning => simp [modification] at mem
  | selecting => simp [modification, Generator.readBack] at mem
  | counting => simpa [modification] using mem

theorem countCommand_eq (table : QualifiedName) :
    ((generator returning).countCommand table position).1 = "SELECT changes();\n\n" := by
  have text : "SELECT changes()" ++ ";" ++ "\n\n" = "SELECT changes();\n\n" := by decide +kernel
  cases returning <;> exact text

theorem isLegible_of_mem_script (names : c.HasBatchNames) {st : Statement}
    (mem : st ∈ ((generator returning).script c position).1) : IsLegible st where
  names := by
    intro name placed
    obtain ⟨n, rfl⟩ := names.placeholders mem name placed
    exact isLegibleName_nameOf n
  counts := by
    rintro sql rfl
    exact (count_mem_script mem).trans (countCommand_eq c.table)

/-- The text of a change is read as its statements. -/
theorem reads_operation (names : c.HasBatchNames) :
    Reads (fun _ => true) ((generator returning).operation c position).1
      (terminated ((generator returning).script c position).1) :=
  reads_flatMap _ fun _ mem => reads_render returning (isLegible_of_mem_script names mem)

end Change

end Sqlite

/-! ## The statements of a batch -/

/-- The statements of the changes, one change after the other. -/
def Batch.script (b : Batch) : List Statement :=
  b.changes.zipIdx.flatMap fun p => (b.generator.script p.1 p.2).1

namespace Sqlite

/-- The text of a batch is read as the statements of its changes. -/
theorem lexemes_build {returning : Bool} {capacity : Nat} {b₀ : Batch}
    (new : Batch.empty? (generator returning) capacity = .ok b₀) {cs : List RowChange}
    (names : ∀ c ∈ cs, c.HasBatchNames) :
    lexemes (b₀.offerAll cs).build.sql = terminated (b₀.offerAll cs).script := by
  obtain ⟨rendered, generator⟩ := Batch.rendered_offerAll new cs
  have given := Batch.hasBatchNames_offerAll new names
  have texts : Reads (fun _ => true) (b₀.offerAll cs).sql (terminated (b₀.offerAll cs).script) := by
    rw [rendered.sql, generator, terminated, Batch.script, generator, List.flatMap_assoc]
    exact reads_flatMap _ fun p mem => reads_operation (given p.1 (List.fst_mem_of_mem_zipIdx mem))
  have build : (b₀.offerAll cs).build.sql = (b₀.offerAll cs).sql := by
    rw [Batch.build, generator]
    exact String.empty_append
  rw [build]
  exact texts.lexemes_eq

end Sqlite

end SqlGen
