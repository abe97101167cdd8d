import SqlGen.Proofs.Update.Meaning
import SqlGen.Proofs.Update.Statements

/-!
# The form of data modifications

`IsModification` is the grammar of the statements that add, modify or delete rows, on lexemes.
Every list in it has a first element: the columns of an insertion and their values, the assignments
of an update, the conditions behind `WHERE` and the items behind `RETURNING`.  Where there is
nothing to list, a statement has other words or leaves the clause out.

The first statement of a change is of this form (`Sqlite.isModification_operation`), unless the
change modifies a row and writes no column.  Of an update without assignments no reading is
(`Sqlite.not_isModification_update`).
-/

namespace SqlGen

open Reading

/-! ## Grammar -/

/-- A name with or without its schema. -/
inductive IsName : List Lexeme → Prop where
  | plain (name : String) : IsName [.identifier name]
  | qualified (schema name : String) :
      IsName [.identifier schema, .word ".", .identifier name]

inductive IsValue : List Lexeme → Prop where
  | placeholder (name : String) : IsValue [.placeholder name]
  | literal {value : List Lexeme} : IsLiteralOf value → IsValue value

inductive IsCondition : List Lexeme → Prop where
  | equal (column : String) {value : List Lexeme} :
      IsValue value → IsCondition (.identifier column :: .sign '=' :: value)
  | isNull (column : String) : IsCondition [.identifier column, .word "IS", .word "NULL"]

/-- Conditions on the rows, if there are any. -/
inductive IsWhere : List Lexeme → Prop where
  | none : IsWhere []
  | some {conditions : List (List Lexeme)} :
      conditions ≠ [] → (∀ k ∈ conditions, IsCondition k) →
      IsWhere (.word "WHERE" :: separated (.word "AND") conditions)

/-- What is returned, if anything is. -/
inductive IsReturning : List Lexeme → Prop where
  | nothing : IsReturning []
  | constant : IsReturning [.word "RETURNING", .word "1"]
  | columns {columns : List String} :
      columns ≠ [] →
      IsReturning
        (.word "RETURNING" :: separated (.sign ',') (columns.map fun name => [.identifier name]))

/-- A data modification of some kind without its terminator, with the columns that it sets and their
values. -/
inductive IsModification : ChangeKind → List (String × List Lexeme) → List Lexeme → Prop where
  | insert {table returned : List Lexeme} {sets : List (String × List Lexeme)} :
      IsName table → sets ≠ [] → (∀ s ∈ sets, IsValue s.2) → IsReturning returned →
      IsModification .added sets
        ([.word "INSERT", .word "INTO"] ++ table ++
          [.sign '('] ++ separated (.sign ',') (sets.map fun s => [.identifier s.1]) ++
          [.sign ')', .word "VALUES", .sign '('] ++ separated (.sign ',') (sets.map Prod.snd) ++
          [.sign ')'] ++ returned)
  | insertDefaults {table returned : List Lexeme} :
      IsName table → IsReturning returned →
      IsModification .added []
        ([.word "INSERT", .word "INTO"] ++ table ++ [.word "DEFAULT", .word "VALUES"] ++ returned)
  | update {table conditions returned : List Lexeme} {sets : List (String × List Lexeme)} :
      IsName table → sets ≠ [] → (∀ s ∈ sets, IsValue s.2) → IsWhere conditions →
      IsReturning returned →
      IsModification .modified sets
        ([.word "UPDATE"] ++ table ++ [.word "SET"] ++
          separated (.sign ',') (sets.map fun s => .identifier s.1 :: .sign '=' :: s.2) ++
          conditions ++ returned)
  | delete {table conditions returned : List Lexeme} :
      IsName table → IsWhere conditions → IsReturning returned →
      IsModification .deleted []
        ([.word "DELETE", .word "FROM"] ++ table ++ conditions ++ returned)

/-! ## The statements of a change -/

/-- The columns that a change sets, with the lexemes of their values. -/
def RowChange.sets (c : RowChange) : List (String × List Lexeme) :=
  match c.kind with
  | .deleted => []
  | _ => c.written.map fun x => (x.name, Sqlite.operandLexemes x.assignment.operand)

/-- The statements of a change are its data modification and at most one query. -/
theorem Generator.exists_script_eq (g : Generator) (c : RowChange) (position : Nat) :
    ∃ returned rest, (g.script c position).1 = c.modification returned :: rest ∧
      (rest = [] ∨ ∃ query, rest = [query] ∧ query.IsQuery) := by
  generalize shape : g.script c position = script
  cases Generator.isScript_of_eq shape with
  | silent => exact ⟨_, [], rfl, .inl rfl⟩
  | returning => exact ⟨_, [], rfl, .inl rfl⟩
  | selecting => exact ⟨_, _, rfl, .inr ⟨_, rfl, trivial⟩⟩
  | counting => exact ⟨_, _, rfl, .inr ⟨_, rfl, trivial⟩⟩

namespace Sqlite

/-! ## Their form -/

theorem isName_table (q : QualifiedName) : IsName (tableLexemes q) := by
  unfold tableLexemes
  cases q.schema with
  | none => exact .plain q.name
  | some schema => exact .qualified schema q.name

theorem isValue_operand (o : Operand) : IsValue (operandLexemes o) := by
  cases o with
  | placeholder name => exact .placeholder name
  | literal v => exact .literal (isLiteralOf_operand v)

theorem isCondition_column (name : String) (parameter : Option String) :
    IsCondition (conditionLexemes (.column name parameter)) := by
  cases parameter with
  | some parameter => exact .equal name (.placeholder parameter)
  | none => exact .isNull name

theorem isWhere_comparisons (xs : List ColumnChange) :
    IsWhere (whereLexemes (xs.map (ColumnChange.comparison true))) := by
  cases xs with
  | nil => exact .none
  | cons x rest =>
      refine .some (by simp) fun k mem => ?_
      obtain ⟨condition, own, rfl⟩ := List.mem_map.mp mem
      obtain ⟨y, -, rfl⟩ := List.mem_map.mp own
      exact isCondition_column y.name y.expectedParameterName

theorem isReturning_returning (returned : Option (List String)) :
    IsReturning (returningLexemes returned) := by
  cases returned with
  | none => exact .nothing
  | some columns =>
      cases columns with
      | nil => exact .constant
      | cons name rest => exact .columns (List.cons_ne_nil name rest)

/-- The columns that assignments set, with the lexemes of their values. -/
def assigned (values : List Assignment) : List (String × List Lexeme) :=
  values.map fun a => (a.column, operandLexemes a.operand)

theorem isValue_of_mem_assigned {values : List Assignment} : ∀ s ∈ assigned values, IsValue s.2 :=
  List.forall_mem_map.mpr fun a _ => isValue_operand a.operand

section Forms

variable (table : QualifiedName) (values : List Assignment) (returned : Option (List String))

theorem isModification_insert :
    IsModification .added (assigned values)
      (statementLexemes (.insert table values returned)) := by
  cases values with
  | nil => exact .insertDefaults (isName_table table) (isReturning_returning returned)
  | cons a rest =>
      have nonempty : assigned (a :: rest) ≠ [] := List.cons_ne_nil _ _
      have form := IsModification.insert (isName_table table) nonempty isValue_of_mem_assigned
        (isReturning_returning returned)
      have columns : (assigned (a :: rest)).map (fun s => [Lexeme.identifier s.1]) =
          ((a :: rest).map Assignment.column).map fun name => [.identifier name] := by
        rw [assigned, List.map_map, List.map_map]
        rfl
      have operands : (assigned (a :: rest)).map Prod.snd =
          (a :: rest).map fun a => operandLexemes a.operand := by
        rw [assigned, List.map_map]
        rfl
      rw [columns, operands] at form
      simpa [statementLexemes, bodyLexemes, valuesLexemes, columnLexemes, Statement.returned]
        using form

theorem isModification_update (xs : List ColumnChange) (nonempty : values ≠ []) :
    IsModification .modified (assigned values)
      (statementLexemes
        (.update table values (xs.map (ColumnChange.comparison true)) returned)) := by
  have assignments : (assigned values).map (fun s => .identifier s.1 :: .sign '=' :: s.2) =
      values.map assignmentLexemes := by
    rw [assigned, List.map_map]
    rfl
  have sets : assigned values ≠ [] := fun none => nonempty (List.map_eq_nil_iff.mp none)
  have form := IsModification.update (isName_table table) sets isValue_of_mem_assigned
    (isWhere_comparisons xs) (isReturning_returning returned)
  rw [assignments] at form
  exact form

theorem isModification_delete (xs : List ColumnChange) :
    IsModification .deleted []
      (statementLexemes (.delete table (xs.map (ColumnChange.comparison true)) returned)) :=
  .delete (isName_table table) (isWhere_comparisons xs) (isReturning_returning returned)

/-! ## An update that sets nothing -/

/-- The words behind a name tell where it ends. -/
theorem eq_of_name_append {a b x y : List Lexeme} (left : IsName a) (right : IsName b)
    (same : a ++ .word "SET" :: x = b ++ .word "SET" :: y) : x = y := by
  cases left with
  | plain name =>
      cases right with
      | plain other => simpa using (List.cons.inj same).2
      | qualified schema other => simp at same
  | qualified schema name =>
      cases right with
      | plain other => simp at same
      | qualified schema' other =>
          simp only [List.cons_append, List.nil_append, List.cons.injEq] at same
          exact same.2.2.2.2

theorem head?_separated_cons {separator t : Lexeme} {item behind : List Lexeme}
    {rest : List (List Lexeme)} :
    (separated separator ((t :: item) :: rest) ++ behind).head? = some t := by
  cases rest <;> rfl

/-- Behind what is set come key words. -/
theorem head?_clauses_ne (conditions : List Condition) (column : String) :
    (whereLexemes conditions ++ returningLexemes returned).head? ≠ some (.identifier column) := by
  cases conditions with
  | nil => cases returned <;> simp [whereLexemes, returningLexemes]
  | cons k rest => simp [whereLexemes]

/-- Behind the words `UPDATE` and `SET` an assignment has to follow. -/
theorem not_isModification_update (conditions : List Condition) (kind : ChangeKind)
    (sets : List (String × List Lexeme)) :
    ¬ IsModification kind sets (statementLexemes (.update table [] conditions returned)) := by
  intro form
  generalize text : statementLexemes (.update table [] conditions returned) = ts at form
  -- The first word leaves only the rule for updates.
  cases form with
  | insert => simp [statementLexemes, bodyLexemes] at text
  | insertDefaults => simp [statementLexemes, bodyLexemes] at text
  | delete => simp [statementLexemes, bodyLexemes] at text
  | @update name tests items sets isName nonempty _ _ _ =>
      obtain ⟨s, rest, rfl⟩ := List.exists_cons_of_ne_nil nonempty
      -- Behind `SET` the rule has the name of a column, and the statement has a key word or ends.
      have behind : whereLexemes conditions ++ returningLexemes returned =
          separated (.sign ',')
            ((.identifier s.1 :: .sign '=' :: s.2) ::
              rest.map fun s => .identifier s.1 :: .sign '=' :: s.2) ++ (tests ++ items) := by
        refine eq_of_name_append (isName_table table) isName ?_
        simpa [statementLexemes, bodyLexemes, separated, Statement.returned] using text
      have first := congrArg List.head? behind
      rw [head?_separated_cons] at first
      exact head?_clauses_ne returned conditions s.1 first

end Forms

/-! ## The first statement of a change -/

/-- Only a change that modifies a row and writes no column has a statement that is not of the form
of data modifications. -/
theorem isModification_modification (c : RowChange) (returned : Option (List String)) :
    (¬ (c.kind = .modified ∧ c.written = []) →
        IsModification c.kind c.sets (statementLexemes (c.modification returned))) ∧
      (c.kind = .modified ∧ c.written = [] →
        ∀ kind sets, ¬ IsModification kind sets (statementLexemes (c.modification returned))) := by
  have sets : (c.written.map fun x => (x.name, operandLexemes x.assignment.operand)) =
      assigned (c.written.map ColumnChange.assignment) := by
    rw [assigned, List.map_map]
    rfl
  unfold RowChange.modification RowChange.sets
  cases kind : c.kind with
  | added =>
      rw [sets]
      exact ⟨fun _ => isModification_insert _ _ _, fun silent => absurd silent.1 (by decide)⟩
  | modified =>
      rw [sets]
      constructor
      · intro writes
        refine isModification_update _ _ _ _ fun none => writes ⟨rfl, ?_⟩
        exact List.map_eq_nil_iff.mp none
      · rintro ⟨-, none⟩ kind sets
        simp only [none, List.map_nil]
        exact not_isModification_update _ _ _ _ _
  | deleted => exact ⟨fun _ => isModification_delete _ _ _, fun silent => absurd silent.1 (by decide)⟩

theorem head?_query {query : Statement} (h : query.IsQuery) :
    (statementLexemes query).head? = some (.word "SELECT") := by
  cases query with
  | readBack => rfl
  | count => rfl
  | _ => exact h.elim

/-- The text of a change starts with a statement that ends at its terminator, and behind that comes
at most a query.  This first statement is a data modification of the kind of the change, which sets
the written columns in their order, unless the change modifies a row and writes no column.  Then the
statement has no such form at all. -/
theorem isModification_operation {returning : Bool} {c : RowChange} (names : c.HasBatchNames)
    (position : Nat) :
    ∃ st rest, lexemes ((generator returning).operation c position).1 = st ++ .sign ';' :: rest ∧
      .sign ';' ∉ st ∧
      (rest = [] ∨ ∃ query, rest = query ++ [.sign ';'] ∧ .sign ';' ∉ query ∧
        query.head? = some (.word "SELECT")) ∧
      (¬ (c.kind = .modified ∧ c.written = []) → IsModification c.kind c.sets st) ∧
      (c.kind = .modified ∧ c.written = [] → ∀ kind sets, ¬ IsModification kind sets st) := by
  obtain ⟨returned, rest, script, followed⟩ := (generator returning).exists_script_eq c position
  have text : lexemes ((generator returning).operation c position).1 =
      statementLexemes (c.modification returned) ++ .sign ';' :: terminated rest := by
    rw [(reads_operation names).lexemes_eq, script, terminated_cons]
  have query : terminated rest = [] ∨ ∃ query, terminated rest = query ++ [.sign ';'] ∧
      .sign ';' ∉ query ∧ query.head? = some (.word "SELECT") := by
    rcases followed with rfl | ⟨query, rfl, isQuery⟩
    · exact .inl rfl
    · exact .inr ⟨statementLexemes query, terminated_cons query [],
        terminator_notMem_statementLexemes query, head?_query isQuery⟩
  exact ⟨_, _, text, terminator_notMem_statementLexemes _, query,
    isModification_modification c returned⟩

end Sqlite

/-- The first statement for a renamed row sets its name and returns a constant. -/
theorem isModification_operation_rename :
    (rename.named 0).1.HasBatchNames ∧
      (rename.named 0).1.sets = [("name", [.placeholder "p0"])] ∧
      ∃ st rest, lexemes ((Sqlite.generator true).operation (rename.named 0).1 0).1 =
          st ++ .sign ';' :: rest ∧
        .sign ';' ∉ st ∧ IsModification .modified (rename.named 0).1.sets st := by
  have fresh : rename.IsFresh := by
    simp [rename, RowChange.IsFresh, ColumnChange.IsFresh]
  have names := RowChange.hasBatchNames_named fresh.hasBatchNames 0
  obtain ⟨st, rest, text, ends, -, form, -⟩ :=
    @Sqlite.isModification_operation true _ names 0
  exact ⟨names, by decide +kernel, st, rest, text, ends, form (by decide +kernel)⟩

/-- A blog is only looked for. -/
def touchBlog : RowChange where
  table := ⟨"Blogs", none⟩
  kind := .modified
  columns := [{ name := "Id", roles := { key := true, condition := true }, expected := .integer 1 }]

/-- The update of a blog without a written column has no assignment. -/
theorem not_isModification_touchBlog :
    touchBlog.IsFresh ∧
      ((Sqlite.generator false).operation (touchBlog.named 0).1 0).1 =
        "UPDATE \"Blogs\" SET \nWHERE \"Id\" = @p0;\nSELECT changes();\n\n" ∧
      lexemes ((Sqlite.generator false).operation (touchBlog.named 0).1 0).1 =
        [.word "UPDATE", .identifier "Blogs", .word "SET", .word "WHERE", .identifier "Id",
          .sign '=', .placeholder "p0"] ++ .sign ';' ::
        [.word "SELECT", .word "changes", .sign '(', .sign ')', .sign ';'] ∧
      ∀ kind sets, ¬ IsModification kind sets
        [.word "UPDATE", .identifier "Blogs", .word "SET", .word "WHERE", .identifier "Id",
          .sign '=', .placeholder "p0"] := by
  refine ⟨?_, by decide +kernel, by decide +kernel, fun kind sets => ?_⟩
  · simp [touchBlog, RowChange.IsFresh, ColumnChange.IsFresh]
  · exact Sqlite.not_isModification_update touchBlog.table none [.column "Id" (some "p0")] kind sets

end SqlGen
