import Mathlib.Data.List.Nodup
import Mathlib.Logic.Function.Basic
import SqlGen.Proofs.Update.Meaning

/-!
# Reading a modified row back

Without rows from data modifications, a change that reads columns is followed by a statement that
looks for the changed row by its key.  The first statement compares the row as it was, the second
one the row as it is after the assignments (`assigned`).  A key column that the change leaves alone
compares in the same way in both.  One that the change writes is compared with the value it had
before, so the row is found exactly if that value is the one it was set to.

`Batch.readsBack_build` says so for every change of a batch.
-/

namespace SqlGen

/-! ## Rows after assignments -/

/-- The row after a column has been set.  Without a value it stays as it is. -/
def setColumn (row : Row) (p : String × Option Value) : Row :=
  match p.2 with
  | some v => Function.update row p.1 v
  | none => row

/-- The row after assignments. -/
def assigned (bound : String → Option Value) (values : List Assignment) (row : Row) : Row :=
  (values.map fun a => (a.column, a.operand.value bound)).foldl setColumn row

theorem foldl_setColumn_of_notMem {name : String} {ps : List (String × Option Value)}
    (other : name ∉ ps.map Prod.fst) (row : Row) : ps.foldl setColumn row name = row name := by
  induction ps generalizing row with
  | nil => rfl
  | cons p rest ih =>
      rw [List.map_cons, List.mem_cons, not_or] at other
      rw [List.foldl_cons, ih other.2, setColumn]
      cases p.2 with
      | some v => exact Function.update_of_ne other.1 _ _
      | none => rfl

/-- Among columns of different names, each one is set to its own value. -/
theorem foldl_setColumn_of_mem {p : String × Value} {ps : List (String × Option Value)}
    (distinct : (ps.map Prod.fst).Nodup) (mem : (p.1, some p.2) ∈ ps) (row : Row) :
    ps.foldl setColumn row p.1 = p.2 := by
  induction ps generalizing row with
  | nil => cases mem
  | cons q rest ih =>
      rw [List.map_cons, List.nodup_cons] at distinct
      rw [List.foldl_cons]
      rcases List.mem_cons.mp mem with rfl | later
      · rw [foldl_setColumn_of_notMem distinct.1]
        exact Function.update_self _ _ _
      · exact ih distinct.2 later _

section Assigned

variable {bound : String → Option Value} {values : List Assignment} {c : RowChange}
  {x : ColumnChange}

theorem written_nodup (distinct : (c.columns.map ColumnChange.name).Nodup) :
    ((c.written.map fun x => (x.name, some x.value)).map Prod.fst).Nodup := by
  rw [List.map_map]
  exact distinct.sublist (List.filter_sublist.map ColumnChange.name)

/-- A written column has its value afterwards. -/
theorem assigned_of_write (assigns : Assigns bound values c)
    (distinct : (c.columns.map ColumnChange.name).Nodup) (mem : x ∈ c.columns)
    (write : x.roles.write = true) (row : Row) : assigned bound values row x.name = x.value := by
  rw [assigned, assigns]
  refine foldl_setColumn_of_mem (p := (x.name, x.value)) (written_nodup distinct) ?_ row
  exact List.mem_map_of_mem (List.mem_filter.mpr ⟨mem, write⟩)

/-- A column that is not written is left alone. -/
theorem assigned_of_not_write (assigns : Assigns bound values c)
    (distinct : (c.columns.map ColumnChange.name).Nodup) (mem : x ∈ c.columns)
    (keep : x.roles.write = false) (row : Row) : assigned bound values row x.name = row x.name := by
  rw [assigned, assigns]
  refine foldl_setColumn_of_notMem ?_ row
  rw [List.map_map]
  intro written
  obtain ⟨y, memWritten, same⟩ := List.mem_map.mp written
  obtain ⟨memColumns, write⟩ := List.mem_filter.mp memWritten
  have column : y = x := List.inj_on_of_nodup_map distinct memColumns mem same
  rw [column, keep] at write
  cases write

end Assigned

/-! ## Key columns -/

/-- A modification that reads columns.  Its columns have different names, and each key column is
compared and not read. -/
structure RowChange.ReadsByKey (c : RowChange) : Prop where
  modified : c.kind = .modified
  read : c.read ≠ []
  distinct : (c.columns.map ColumnChange.name).Nodup
  compared : ∀ x ∈ c.keys, x.isCondition = true
  notRead : ∀ x ∈ c.keys, x.roles.read = false

section Keys

variable {bound : String → Option Value} {c c' : RowChange} {x x' : ColumnChange}

/-- A key column that is not read is compared with its expected value if it is a condition. -/
theorem ColumnChange.Sends.keyCondition (h : Sends bound x x') (compared : x.isCondition = true)
    (notRead : x.roles.read = false) : x'.keyCondition = x'.comparison true := by
  have noIdentity : x'.isIdentity = false := by
    rw [ColumnChange.isIdentity, h.roles, notRead, Bool.and_false]
  rw [ColumnChange.keyCondition, noIdentity, if_neg Bool.false_ne_true, h.isCondition, compared]

/-- After the assignments a key column has its expected value, unless it was set to another one. -/
theorem matches_assigned_iff (key : c.ReadsByKey) {values : List Assignment}
    (assigns : Assigns bound values c) (mem : x ∈ c.keys) {equal : Value → Value → Prop} {row : Row}
    (found : ∀ y ∈ c.conditions, Matches equal (row y.name) y.expected) :
    Matches equal (assigned bound values row x.name) x.expected ↔
      (x.roles.write = true → Matches equal x.value x.expected) := by
  have column : x ∈ c.columns := (List.mem_filter.mp mem).1
  cases write : x.roles.write with
  | true =>
      rw [assigned_of_write assigns key.distinct column write]
      exact ⟨fun h _ => h, fun h => h rfl⟩
  | false =>
      rw [assigned_of_not_write assigns key.distinct column write]
      have condition : x ∈ c.conditions := List.mem_filter.mpr ⟨column, key.compared x mem⟩
      exact ⟨fun _ written => absurd written Bool.false_ne_true, fun _ => found x condition⟩

end Keys

/-! ## The statements of a change -/

/-- The script modifies the rows that have the expected values and then looks for them by their
keys.  In every row that has been modified, the comparisons of the keys hold exactly if no key
column was set to another value than the expected one. -/
def ReadsBack (bound : String → Option Value) (c : RowChange) (script : List Statement) : Prop :=
  ∃ (values : List Assignment) (conditions keys : List Condition),
    script = [.update c.table values conditions none,
      .readBack (c.read.map ColumnChange.name) c.table (.rowsAffected 1 :: keys)] ∧
    Assigns bound values c ∧ Selects bound conditions c ∧
    List.Forall₂ (fun x k => ∃ parameter, k = Condition.column x.name parameter) c.keys keys ∧
    ∀ equal before row, (∀ k ∈ conditions, k.Holds bound equal before row) →
      ((∀ k ∈ keys, k.Holds bound equal before (assigned bound values row)) ↔
        ∀ x ∈ c.keys, x.roles.write = true → Matches equal x.value x.expected)

section Script

variable {bound : String → Option Value} {c c' : RowChange}

theorem RowChange.Sends.read (h : c.Sends bound c') :
    c'.read.map ColumnChange.name = c.read.map ColumnChange.name := by
  have columns := h.filter fun sends => congrArg Roles.read sends.roles
  exact map_eq_map_of_forall₂ (columns.imp fun x x' both => both.2.name)

/-- The key columns of a change with those that have been named, in pairs. -/
theorem RowChange.Sends.keys (h : c.Sends bound c') :
    List.Forall₂ (fun x x' => x ∈ c.keys ∧ ColumnChange.Sends bound x x') c.keys c'.keys := by
  have columns := h.filter fun sends => congrArg Roles.key sends.roles
  exact (List.forall₂_and_left _ _).mpr
    ⟨fun x mem => mem, columns.imp fun x x' both => both.2⟩

theorem readsBack_updateScript (g : Generator) (plain : g.dialect.returning = false)
    (h : c.Sends bound c') (key : c.ReadsByKey) (position : Nat) :
    ReadsBack bound c (g.updateScript c' position).1 := by
  have someRead : c'.read.isEmpty = false := by
    have names := congrArg List.isEmpty h.read
    rw [List.isEmpty_map, List.isEmpty_map] at names
    rw [names]
    exact List.isEmpty_eq_false_iff.mpr key.read
  have comparisons : List.Forall₂ (fun x x' => x ∈ c.keys ∧ ColumnChange.Sends bound x x' ∧
      x'.keyCondition = x'.comparison true) c.keys c'.keys :=
    h.keys.imp fun x x' both => ⟨both.1, both.2,
      both.2.keyCondition (key.compared x both.1) (key.notRead x both.1)⟩
  refine ⟨c'.written.map ColumnChange.assignment,
    c'.conditions.map (ColumnChange.comparison true), c'.keys.map ColumnChange.keyCondition,
    ?script, h.assigns, h.selects, ?columns, ?found⟩
  case script =>
    rw [Generator.updateScript, plain, someRead, Generator.readBack, h.read, h.table]
    rfl
  case columns =>
    rw [List.forall₂_map_right_iff]
    refine comparisons.imp ?_
    rintro x x' ⟨-, sends, comparison⟩
    refine ⟨x'.expectedParameterName, ?_⟩
    rw [comparison, ColumnChange.comparison, sends.name]
    rfl
  case found =>
    intro equal before row matched
    have expected := (h.selects equal before row).mp matched
    rw [List.forall_mem_map]
    refine forall_iff_of_forall₂ (comparisons.imp ?_)
    rintro x x' ⟨mem, sends, comparison⟩
    rw [comparison, sends.holds_comparison (key.compared x mem)]
    exact matches_assigned_iff key h.assigns mem expected

end Script

/-! ## A whole batch -/

/-- In the text of a batch for a dialect without rows from data modifications, every change that
reads by its key modifies its row and then finds it again, unless it sets a key column to another
value than the expected one. -/
theorem Batch.readsBack_build {g : Generator} {capacity : Nat} {b₀ b : Batch}
    (new : Batch.empty? g capacity = .ok b₀) {cs : List RowChange} (fresh : ∀ c ∈ cs, c.IsFresh)
    (accepted : b₀.addAll cs = .ok b) (plain : g.dialect.returning = false) :
    ∃ scripts : List (List Statement),
      b.build.sql = g.header ++ String.join (scripts.map g.renderAll) ∧
      List.Forall₂ (fun c script => c.ReadsByKey → ReadsBack (valueOf b.build.parameters) c script)
        cs scripts := by
  obtain ⟨start, generator₀⟩ := records_empty new
  obtain ⟨records, generator⟩ := records_addAll start fresh accepted
  rw [generator₀] at generator
  have binds : Binds (valueOf b.parameters) b.parameters :=
    fun p mem => valueOf_of_mem records.names.nodup mem
  refine ⟨b.changes.zipIdx.map fun p => (g.script p.1 p.2).1, ?_, ?_⟩
  · have text : b.build.sql = b.generator.header ++ b.sql := rfl
    rw [text, records.sql, generator, List.map_map]
    rfl
  · rw [List.forall₂_map_right_iff]
    refine (forall₂_zipIdx (records.changes _ binds) 0).imp fun c p sends key => ?_
    rw [Generator.script, sends.kind, key.modified]
    exact readsBack_updateScript g plain sends key p.2

/-- A blog gets a new name, and the time of the change is read back. -/
def renameBlog : RowChange where
  table := ⟨"Blogs", none⟩
  kind := .modified
  columns :=
    [{ name := "Id", roles := { key := true, condition := true }, expected := .integer 1 },
     { name := "Name", roles := { write := true }, value := .text "Rust" },
     { name := "UpdatedAt", roles := { read := true } }]

/-- A blog gets a new key. -/
def moveBlog : RowChange where
  table := ⟨"Blogs", none⟩
  kind := .modified
  columns :=
    [{ name := "Id", roles := { key := true, condition := true, write := true }
       value := .integer 2, expected := .integer 1 },
     { name := "UpdatedAt", roles := { read := true } }]

theorem readsByKey_renameBlog : renameBlog.ReadsByKey where
  modified := rfl
  read := by decide
  distinct := by decide
  compared := by decide
  notRead := by decide

theorem readsByKey_moveBlog : moveBlog.ReadsByKey where
  modified := rfl
  read := by decide
  distinct := by decide
  compared := by decide
  notRead := by decide

def roomForBlogs : Batch := { generator := Sqlite.generator false, capacity := 2 }

def blogsChanged : Batch := (roomForBlogs.extended renameBlog).extended moveBlog

theorem readsBack_build_blogsChanged :
    Batch.empty? (Sqlite.generator false) 2 = .ok roomForBlogs ∧
      (∀ c ∈ [renameBlog, moveBlog], c.IsFresh ∧ c.ReadsByKey) ∧
      roomForBlogs.addAll [renameBlog, moveBlog] = .ok blogsChanged ∧
      (Sqlite.generator false).dialect.returning = false ∧
      ∃ scripts : List (List Statement),
        blogsChanged.build.sql = (Sqlite.generator false).header ++
          String.join (scripts.map (Sqlite.generator false).renderAll) ∧
        List.Forall₂
          (fun c script =>
            c.ReadsByKey → ReadsBack (valueOf blogsChanged.build.parameters) c script)
          [renameBlog, moveBlog] scripts := by
  have fresh : ∀ c ∈ [renameBlog, moveBlog], c.IsFresh := by
    simp [renameBlog, moveBlog, RowChange.IsFresh, ColumnChange.IsFresh]
  have reads : ∀ c ∈ [renameBlog, moveBlog], c.ReadsByKey := by
    simp [readsByKey_renameBlog, readsByKey_moveBlog]
  have new : Batch.empty? (Sqlite.generator false) 2 = .ok roomForBlogs := rfl
  have accepted : roomForBlogs.addAll [renameBlog, moveBlog] = .ok blogsChanged := rfl
  exact ⟨new, fun c mem => ⟨fresh c mem, reads c mem⟩, accepted, rfl,
    Batch.readsBack_build new fresh accepted rfl⟩

def blogMoved : Batch := roomForBlogs.extended moveBlog

/-- The blog with the key 1 gets the key 2, and is then looked for with the key 1. -/
theorem misses_build_blogMoved :
    moveBlog.IsFresh ∧ moveBlog.ReadsByKey ∧ roomForBlogs.addAll [moveBlog] = .ok blogMoved ∧
      blogMoved.build.sql =
        "UPDATE \"Blogs\" SET \"Id\" = @p0\nWHERE \"Id\" = @p1;\nSELECT \"UpdatedAt\"\n" ++
        "FROM \"Blogs\"\nWHERE changes() = 1 AND \"Id\" = @p1;\n\n" ∧
      ∃ (values : List Assignment) (conditions keys : List Condition) (row : Row),
        blogMoved.build.sql = (Sqlite.generator false).renderAll
          [.update moveBlog.table values conditions none,
            .readBack ["UpdatedAt"] moveBlog.table (.rowsAffected 1 :: keys)] ∧
        (∀ k ∈ conditions,
          k.Holds (valueOf blogMoved.build.parameters) Eq (fun _ _ => True) row) ∧
        ¬ ∀ k ∈ keys, k.Holds (valueOf blogMoved.build.parameters) Eq (fun _ _ => True)
          (assigned (valueOf blogMoved.build.parameters) values row) := by
  have fresh : moveBlog.IsFresh := by
    simp [moveBlog, RowChange.IsFresh, ColumnChange.IsFresh]
  have first : valueOf blogMoved.build.parameters "p0" = some (.integer 2) := by decide +kernel
  have second : valueOf blogMoved.build.parameters "p1" = some (.integer 1) := by decide +kernel
  refine ⟨fresh, readsByKey_moveBlog, rfl, by decide +kernel,
    [⟨"Id", .placeholder "p0"⟩], [.column "Id" (some "p1")], [.column "Id" (some "p1")],
    fun _ => .integer 1, by decide +kernel, ?matched, ?missed⟩
  case matched =>
    intro k mem
    obtain rfl := List.mem_singleton.mp mem
    exact ⟨.integer 1, second, by decide, by decide, rfl⟩
  case missed =>
    intro found
    obtain ⟨v, bound, -, -, same⟩ := found _ List.mem_cons_self
    rw [second] at bound
    obtain rfl := Option.some.inj bound
    have moved : assigned (valueOf blogMoved.build.parameters) [⟨"Id", .placeholder "p0"⟩]
        (fun _ => .integer 1) "Id" = .integer 2 := by
      simp [assigned, setColumn, Operand.value, first]
    rw [moved] at same
    exact absurd same (by decide)

end SqlGen
