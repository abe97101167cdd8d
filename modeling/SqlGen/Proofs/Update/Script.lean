import SqlGen.Proofs.Reading.Lexeme
import SqlGen.Proofs.Update.Placeholder

/-!
# Statements as a reader sees them

`Sqlite.statementLexemes` are the lexemes of a statement for SQLite, without its terminator.  Its
text is read as these and a semicolon (`Sqlite.reads_render`), whatever values and identifiers it
holds, if the names of its parameters are words.
-/

namespace SqlGen

open Reading

/-- The columns that a modification returns. -/
def Statement.returned : Statement → Option (List String)
  | .insert _ _ returned | .update _ _ _ returned | .delete _ _ returned => returned
  | .readBack .. | .count _ => none

namespace Sqlite

/-! ## Lexemes of statements -/

def tableLexemes (q : QualifiedName) : List Lexeme :=
  match q.schema with
  | some schema => [.identifier schema, .word ".", .identifier q.name]
  | none => [.identifier q.name]

def columnLexemes (columns : List String) : List Lexeme :=
  separated (.sign ',') (columns.map fun name => [.identifier name])

def operandLexemes : Operand → List Lexeme
  | .placeholder name => [.placeholder name]
  | .literal v => literalLexemes (dialect false).boolean v

def assignmentLexemes (a : Assignment) : List Lexeme :=
  .identifier a.column :: .sign '=' :: operandLexemes a.operand

def conditionLexemes : Condition → List Lexeme
  | .column name (some parameter) => [.identifier name, .sign '=', .placeholder parameter]
  | .column name none => [.identifier name, .word "IS", .word "NULL"]
  | .identity _ =>
      [.identifier "rowid", .sign '=', .word "last_insert_rowid", .sign '(', .sign ')']
  | .rowsAffected count =>
      [.word "changes", .sign '(', .sign ')', .sign '=', .word (Decimal.natural count)]

def conditionsLexemes (conditions : List Condition) : List Lexeme :=
  separated (.word "AND") (conditions.map conditionLexemes)

/-- The columns of an insertion and their values. -/
def valuesLexemes (values : List Assignment) : List Lexeme :=
  if values.isEmpty then [.word "DEFAULT", .word "VALUES"]
  else
    .sign '(' :: (columnLexemes (values.map Assignment.column) ++
      [.sign ')', .word "VALUES", .sign '('] ++
      separated (.sign ',') (values.map fun a => operandLexemes a.operand) ++ [.sign ')'])

def whereLexemes (conditions : List Condition) : List Lexeme :=
  if conditions.isEmpty then [] else .word "WHERE" :: conditionsLexemes conditions

/-- What the returned rows consist of. -/
def itemLexemes (columns : List String) : List Lexeme :=
  if columns.isEmpty then [.word "1"] else columnLexemes columns

def returningLexemes : Option (List String) → List Lexeme
  | some columns => .word "RETURNING" :: itemLexemes columns
  | none => []

/-- A statement without what it returns and without its terminator. -/
def bodyLexemes : Statement → List Lexeme
  | .insert table values _ =>
      [.word "INSERT", .word "INTO"] ++ tableLexemes table ++ valuesLexemes values
  | .update table values conditions _ =>
      [.word "UPDATE"] ++ tableLexemes table ++ [.word "SET"] ++
        separated (.sign ',') (values.map assignmentLexemes) ++ whereLexemes conditions
  | .delete table conditions _ =>
      [.word "DELETE", .word "FROM"] ++ tableLexemes table ++ whereLexemes conditions
  | .readBack columns table conditions =>
      [.word "SELECT"] ++ columnLexemes columns ++ [.word "FROM"] ++ tableLexemes table ++
        [.word "WHERE"] ++ conditionsLexemes conditions
  | .count _ => [.word "SELECT", .word "changes", .sign '(', .sign ')']

/-- A statement without its terminator. -/
def statementLexemes (st : Statement) : List Lexeme :=
  bodyLexemes st ++ returningLexemes st.returned

/-! ## Their texts -/

/-- A name that a reader takes for one word. -/
def IsLegibleName (name : String) : Prop := ∀ c ∈ name.toList, isLetter c = true

/-- The names of a statement can be read, and it counts in the words of SQLite. -/
structure IsLegible (st : Statement) : Prop where
  names : ∀ name ∈ st.placeholders, IsLegibleName name
  counts : ∀ sql, st = .count sql → sql = "SELECT changes();\n\n"

theorem reads_delimit (name : String) : Reads isApart (Standard.delimit name) [.identifier name] :=
  (reads_identifier name).mono fun _ apart => ne_mark_of_isApart apart (.inl rfl)

theorem reads_table (q : QualifiedName) :
    Reads isApart (Standard.qualify Standard.delimit q) (tableLexemes q) := by
  unfold Standard.qualify tableLexemes
  cases q.schema with
  | none => exact reads_delimit q.name
  | some schema =>
      have point : Reads (fun c => !isLetter c) "." [.word "."] :=
        .of_word (by decide +kernel) (by decide +kernel)
      have qualifier : Reads (fun c => !isLetter c) (Standard.delimit schema ++ ".")
          [.identifier schema, .word "."] := by
        refine (reads_identifier schema).append point fun rest _ c first => ?_
        obtain rfl := Option.some.inj first
        rfl
      refine qualifier.append (reads_delimit q.name) fun rest _ c first => ?_
      rw [Standard.delimit, Text.toList_quote] at first
      obtain rfl := Option.some.inj first
      rfl

theorem separates_comma : Separates ", " [.sign ','] :=
  ⟨⟨',', [' '], rfl, by decide⟩, by decide +kernel⟩

theorem separates_and : Separates " AND " [.word "AND"] :=
  ⟨⟨' ', _, rfl, by decide⟩, by decide +kernel⟩

theorem separates_equal : Separates " = " [.sign '='] :=
  ⟨⟨' ', _, rfl, by decide⟩, by decide +kernel⟩

theorem separates_line : Separates "\n" [] := ⟨⟨'\n', [], rfl, by decide⟩, by decide +kernel⟩

section Parts

variable (returning : Bool)

theorem delimitQualified_eq :
    (generator returning).dialect.delimitQualified = Standard.qualify Standard.delimit := rfl

theorem reads_columnList (columns : List String) :
    Reads isApart ((generator returning).columnList columns) (columnLexemes columns) :=
  reads_intercalate separates_comma columns fun name _ => reads_delimit name

theorem isConstant_boolean (b : Bool) : IsConstant ((dialect false).boolean b) := by
  cases b with
  | false => exact isConstant_natural 0
  | true => exact isConstant_natural 1

theorem reads_operand {o : Operand} (names : ∀ name ∈ o.placeholder?, IsLegibleName name) :
    Reads isApart ((generator returning).operand o) (operandLexemes o) := by
  cases o with
  | placeholder name => exact reads_placeholder (names name rfl)
  | literal v => exact reads_literal isConstant_boolean v

theorem reads_assignment {a : Assignment}
    (names : ∀ name ∈ a.operand.placeholder?, IsLegibleName name) :
    Reads isApart
      ((generator returning).dialect.delimit a.column ++ " = " ++
        (generator returning).operand a.operand) (assignmentLexemes a) :=
  ((reads_delimit a.column).close separates_equal).followed (reads_operand returning names)

theorem reads_condition {k : Condition} (names : ∀ name ∈ k.placeholder?, IsLegibleName name) :
    Reads isApart ((generator returning).condition k) (conditionLexemes k) := by
  cases k with
  | column name parameter =>
      cases parameter with
      | some parameter =>
          exact ((reads_delimit name).close separates_equal).followed
            (reads_placeholder (names parameter rfl))
      | none =>
          have test : Reads (fun c => !isLetter c) " IS NULL" [.word "IS", .word "NULL"] :=
            .of_word (by decide +kernel) (by decide +kernel)
          refine (reads_delimit name).append test.apart fun rest _ c first => ?_
          obtain rfl := Option.some.inj first
          decide
  | identity column =>
      have made : Separates " = last_insert_rowid()"
          [.sign '=', .word "last_insert_rowid", .sign '(', .sign ')'] :=
        ⟨⟨' ', _, rfl, by decide⟩, by decide +kernel⟩
      exact ((reads_delimit "rowid").close made).free
  | rowsAffected count =>
      have counted : Reads (fun _ => true) "changes() = "
          [.word "changes", .sign '(', .sign ')', .sign '='] := .of_run (by decide +kernel)
      exact counted.followed (isConstant_natural count).isWord.reads

theorem reads_conditions {conditions : List Condition}
    (names : ∀ name ∈ conditions.filterMap Condition.placeholder?, IsLegibleName name) :
    Reads isApart (String.intercalate " AND " (conditions.map (generator returning).condition))
      (conditionsLexemes conditions) :=
  reads_intercalate separates_and conditions fun k mem =>
    reads_condition returning fun name own => names name (List.mem_filterMap.mpr ⟨k, mem, own⟩)

theorem reads_whereClause {conditions : List Condition}
    (names : ∀ name ∈ conditions.filterMap Condition.placeholder?, IsLegibleName name) :
    Reads isApart ((generator returning).whereClause conditions) (whereLexemes conditions) := by
  unfold Generator.whereClause whereLexemes
  split
  next => exact .nil
  next =>
    have word : Reads (fun _ => true) "WHERE " [.word "WHERE"] := .of_run (by decide +kernel)
    exact word.followed (reads_conditions returning names)

/-- The values that a statement assigns. -/
theorem reads_values {values : List Assignment}
    (names : ∀ name ∈ values.filterMap fun a => a.operand.placeholder?, IsLegibleName name) :
    Reads isApart
      (String.intercalate ", " (values.map fun a => (generator returning).operand a.operand))
      (separated (.sign ',') (values.map fun a => operandLexemes a.operand)) :=
  reads_intercalate separates_comma values fun a mem =>
    reads_operand returning fun name own => names name (List.mem_filterMap.mpr ⟨a, mem, own⟩)

theorem reads_insertion {table : QualifiedName} {values : List Assignment}
    (names : ∀ name ∈ values.filterMap fun a => a.operand.placeholder?, IsLegibleName name) :
    Reads isApart
      ((generator returning).insertHeader table (values.map Assignment.column) ++
        Generator.valuesHeader values ++ (generator returning).values values)
      ([.word "INSERT", .word "INTO"] ++ tableLexemes table ++ valuesLexemes values) := by
  have head : Reads isApart ("INSERT INTO " ++ Standard.qualify Standard.delimit table)
      ([.word "INSERT", .word "INTO"] ++ tableLexemes table) :=
    (Reads.of_run (by decide +kernel)).followed (reads_table table)
  cases values with
  | nil =>
      have defaults : Reads (fun c => !isLetter c) "DEFAULT VALUES"
          [.word "DEFAULT", .word "VALUES"] := .of_word (by decide +kernel) (by decide +kernel)
      have whole := (head.close separates_line).followed defaults.apart
      simpa [Generator.insertHeader, Generator.valuesHeader, Generator.values, valuesLexemes,
        delimitQualified_eq] using whole
  | cons a rest =>
      have opening : Separates " (" [.sign '('] := ⟨⟨' ', ['('], rfl, by decide⟩, by decide +kernel⟩
      have closing : Separates ")" [.sign ')'] := ⟨⟨')', [], rfl, by decide⟩, by decide +kernel⟩
      have word : Reads (fun _ => true) "VALUES " [.word "VALUES"] := .of_run (by decide +kernel)
      have parenthesis : Reads (fun _ => true) "(" [.sign '('] := .of_run (by decide +kernel)
      have columns := (head.close opening).followed
        (reads_columnList returning ((a :: rest).map Assignment.column))
      have header := (columns.close closing).followed separates_line.reads
      have values := ((header.followed word).followed parenthesis).followed
        (reads_values returning names)
      have whole : Reads isApart _ _ := (values.close closing).free
      simpa only [Generator.insertHeader, Generator.valuesHeader, Generator.values, valuesLexemes,
        delimitQualified_eq, String.append_assoc, List.append_assoc, List.map_cons,
        List.isEmpty_cons, Bool.false_eq_true, if_false, List.cons_append, List.nil_append]
        using whole

theorem statementEnd_eq : (generator returning).statementEnd = ";\n" := by
  cases returning <;> decide +kernel

/-- The end of a data modification. -/
theorem reads_end {text : String} {ts : List Lexeme} (h : Reads isApart text ts)
    (returned : Option (List String)) :
    Reads (fun _ => true)
      (text ++ (generator returning).returning returned ++ (generator returning).statementEnd)
      (ts ++ returningLexemes returned ++ [.sign ';']) := by
  rw [statementEnd_eq]
  refine Reads.close ?_ ⟨⟨';', ['\n'], rfl, by decide⟩, by decide +kernel⟩
  cases returned with
  | none =>
      rw [Generator.returning, String.append_empty, returningLexemes, List.append_nil]
      exact h
  | some columns =>
      have word : Separates "\nRETURNING " [.word "RETURNING"] :=
        ⟨⟨'\n', _, rfl, by decide⟩, by decide +kernel⟩
      have items : Reads isApart
          (if columns.isEmpty then "1" else (generator returning).columnList columns)
          (itemLexemes columns) := by
        unfold itemLexemes
        split
        next => exact (isConstant_natural 1).isWord.reads
        next => exact reads_columnList returning columns
      have whole := (h.close word).followed items
      rw [String.append_assoc, List.append_assoc] at whole
      exact whole

theorem reads_update {table : QualifiedName} {values : List Assignment}
    {conditions : List Condition}
    (assigned : ∀ name ∈ values.filterMap fun a => a.operand.placeholder?, IsLegibleName name)
    (compared : ∀ name ∈ conditions.filterMap Condition.placeholder?, IsLegibleName name) :
    Reads isApart
      ((generator returning).updateHeader table values ++
        (generator returning).whereClause conditions)
      ([.word "UPDATE"] ++ tableLexemes table ++ [.word "SET"] ++
        separated (.sign ',') (values.map assignmentLexemes) ++ whereLexemes conditions) := by
  have update : Reads (fun _ => true) "UPDATE " [.word "UPDATE"] := .of_run (by decide +kernel)
  have set : Separates " SET " [.word "SET"] := ⟨⟨' ', _, rfl, by decide⟩, by decide +kernel⟩
  have head := (update.followed (reads_table table)).close set
  have assignments := reads_intercalate separates_comma values fun a mem =>
    reads_assignment returning fun name own => assigned name (List.mem_filterMap.mpr ⟨a, mem, own⟩)
  have whole := ((head.followed assignments).close separates_line).followed
    (reads_whereClause returning compared)
  rw [List.append_nil] at whole
  exact whole

theorem reads_delete {table : QualifiedName} {conditions : List Condition}
    (names : ∀ name ∈ conditions.filterMap Condition.placeholder?, IsLegibleName name) :
    Reads isApart
      ((generator returning).deleteHeader table ++ (generator returning).whereClause conditions)
      ([.word "DELETE", .word "FROM"] ++ tableLexemes table ++ whereLexemes conditions) := by
  have delete : Reads (fun _ => true) "DELETE FROM " [.word "DELETE", .word "FROM"] :=
    .of_run (by decide +kernel)
  have head := (delete.followed (reads_table table)).close separates_line
  rw [List.append_nil] at head
  exact head.followed (reads_whereClause returning names)

theorem reads_readBack {columns : List String} {table : QualifiedName}
    {conditions : List Condition}
    (names : ∀ name ∈ conditions.filterMap Condition.placeholder?, IsLegibleName name) :
    Reads (fun _ => true) ((generator returning).render (.readBack columns table conditions))
      (statementLexemes (.readBack columns table conditions) ++ [.sign ';']) := by
  have select : Reads (fun _ => true) "SELECT " [.word "SELECT"] := .of_run (by decide +kernel)
  have source : Separates "\nFROM " [.word "FROM"] :=
    ⟨⟨'\n', _, rfl, by decide⟩, by decide +kernel⟩
  have test : Separates "\nWHERE " [.word "WHERE"] :=
    ⟨⟨'\n', _, rfl, by decide⟩, by decide +kernel⟩
  have terminator : Separates ";" [.sign ';'] := ⟨⟨';', [], rfl, by decide⟩, by decide +kernel⟩
  have lines : Reads (fun _ => true) "\n\n" [] := .of_run (by decide +kernel)
  have listed := (select.followed (reads_columnList returning columns)).close source
  have located := (listed.followed (reads_table table)).close test
  have compared := (located.followed (reads_conditions returning names)).close terminator
  have whole := compared.followed lines
  rw [List.append_nil] at whole
  have body : statementLexemes (.readBack columns table conditions) =
      bodyLexemes (.readBack columns table conditions) := List.append_nil _
  rw [body]
  exact whole

/-- The text of a statement is read as its lexemes and the terminator. -/
theorem reads_render {st : Statement} (legible : IsLegible st) :
    Reads (fun _ => true) ((generator returning).render st)
      (statementLexemes st ++ [.sign ';']) := by
  have names := legible.names
  cases st with
  | insert table values returned =>
      exact reads_end returning (reads_insertion returning names) returned
  | update table values conditions returned =>
      rw [Statement.placeholders, List.forall_mem_append] at names
      exact reads_end returning (reads_update returning names.1 names.2) returned
  | delete table conditions returned =>
      exact reads_end returning (reads_delete returning names) returned
  | readBack columns table conditions => exact reads_readBack returning names
  | count sql =>
      obtain rfl := legible.counts sql rfl
      have text : Reads (fun _ => true) "SELECT changes();\n\n"
          [.word "SELECT", .word "changes", .sign '(', .sign ')', .sign ';'] :=
        .of_run (by decide +kernel)
      exact text

end Parts

end Sqlite

end SqlGen
