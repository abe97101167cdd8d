import SqlGen.Proofs.Update.Statements
import SqlGen.Sqlite.Provider

/-!
# Parameters and their placeholders

A batch sends every written value and every expected value that is compared, whatever kind of change
they belong to.  An insertion compares nothing, and a deletion writes nothing.
`RowChange.UsesSent` tells which changes have a use for all that is sent.

The parameters of a batch have placeholders in its text if all its changes are such, and, since
no two values share a name, only then (`Sqlite.referenced_build`).
-/

namespace SqlGen

open Reading

/-! ## Changes that use what is sent -/

/-- The statements of a change use every value that is sent with it.  An insertion has no use for an
expected value, unless the row is found by it when it is read back, and a deletion has none for a
value to be written. -/
def RowChange.UsesSent (returning : Bool) (c : RowChange) : Prop :=
  match c.kind with
  | .added => ∀ x ∈ c.columns, x.sendsExpected = true →
      returning = false ∧ c.read ≠ [] ∧ x.roles.key = true ∧ x.roles.read = false
  | .modified => True
  | .deleted => ∀ x ∈ c.columns, x.roles.write = false

namespace RowChange

variable {returning : Bool} {c : RowChange}

theorem usesSent_withoutNames_iff :
    c.withoutNames.UsesSent returning ↔ c.UsesSent returning := by
  have read : c.withoutNames.read = [] ↔ c.read = [] := by
    have columns : c.withoutNames.read = c.read.map ColumnChange.withoutNames := by
      rw [RowChange.read, withoutNames, List.filter_map]
      rfl
    rw [columns, List.map_eq_nil_iff]
  have kind : c.withoutNames.kind = c.kind := rfl
  unfold UsesSent
  rw [kind]
  cases c.kind with
  | added =>
      simp only [ne_eq, read]
      exact List.forall_mem_map
  | modified => exact Iff.rfl
  | deleted => exact List.forall_mem_map

/-- Names do not matter. -/
theorem usesSent_named_iff {next : Nat} :
    (c.named next).1.UsesSent returning ↔ c.UsesSent returning := by
  rw [← usesSent_withoutNames_iff, withoutNames_named, usesSent_withoutNames_iff]

/-- An insertion refers to an expected value only if its row is found by it. -/
theorem refersTo_expected_iff {g : Generator} (kind : c.kind = .added) {x : ColumnChange}
    (sends : x.sendsExpected = true) : g.refersTo c x .expected = true ↔
      g.dialect.returning = false ∧ c.read ≠ [] ∧ x.roles.key = true ∧ x.roles.read = false := by
  have compared : x.isCondition = true := (Bool.and_eq_true_iff.mp sends).1
  have slot : x.keySlot = .expected := by rw [ColumnChange.keySlot, if_pos compared]
  simp only [Generator.refersTo, modifiesWith, Generator.readsBack, ColumnChange.isIdentity, kind,
    slot]
  cases x.roles.key <;> simp [and_assoc]

/-- A change uses what is sent exactly if its statements have a placeholder for each such value. -/
theorem usesSent_iff {g : Generator} : c.UsesSent g.dialect.returning ↔
    ∀ x ∈ c.columns, ∀ slot, x.isSent slot = true → g.refersTo c x slot = true := by
  unfold UsesSent
  cases kind : c.kind with
  | added =>
      constructor
      · rintro uses x mem (_ | _) sent
        · have write : x.roles.write = true := sent
          simp [Generator.refersTo, modifiesWith, kind, write]
        · exact (refersTo_expected_iff kind sent).mpr (uses x mem sent)
      · exact fun refers x mem sends => (refersTo_expected_iff kind sends).mp (refers x mem _ sends)
  | modified =>
      refine iff_of_true trivial ?_
      rintro x - (_ | _) sent
      · have write : x.roles.write = true := sent
        simp [Generator.refersTo, modifiesWith, kind, write]
      · have compared : x.isCondition = true := (Bool.and_eq_true_iff.mp sent).1
        simp [Generator.refersTo, modifiesWith, kind, compared]
  | deleted =>
      constructor
      · rintro uses x mem (_ | _) sent
        · exact absurd sent (by simp [ColumnChange.isSent, uses x mem])
        · have compared : x.isCondition = true := (Bool.and_eq_true_iff.mp sent).1
          simp [Generator.refersTo, modifiesWith, kind, compared]
      · intro refers x mem
        have unused : g.refersTo c x .value = false := by
          simp [Generator.refersTo, modifiesWith, Generator.readsBack, kind]
        exact Bool.eq_false_iff.mpr fun write => by simp [refers x mem .value write] at unused

end RowChange

/-! ## Where the names of a batch stand -/

theorem mem_nameColumns {needs : ColumnChange → Bool} {value : ColumnChange → Value}
    {assign : ColumnChange → String → ColumnChange} {next : Nat} {cs : List ColumnChange}
    {q : BatchParameter} (mem : q ∈ (nameColumns needs value assign next cs).2) :
    ∃ c ∈ cs, needs c = true ∧ assign c q.name ∈ (nameColumns needs value assign next cs).1 := by
  induction cs generalizing next with
  | nil => cases mem
  | cons c rest ih =>
      cases h : needs c with
      | true =>
          rw [nameColumns_cons_of_needs h] at mem ⊢
          rcases List.mem_cons.mp mem with rfl | later
          · exact ⟨c, List.mem_cons_self, h, List.mem_cons_self⟩
          · obtain ⟨x, column, needed, named⟩ := ih later
            exact ⟨x, List.mem_cons_of_mem c column, needed, List.mem_cons_of_mem _ named⟩
      | false =>
          rw [nameColumns_cons_of_not h] at mem ⊢
          obtain ⟨x, column, needed, named⟩ := ih mem
          exact ⟨x, List.mem_cons_of_mem c column, needed, List.mem_cons_of_mem _ named⟩

/-- A parameter of a change carries a value of one of its columns, and the column has its name. -/
theorem RowChange.exists_slot_of_mem {c : RowChange} {next : Nat} {q : BatchParameter}
    (mem : q ∈ (c.named next).2) :
    ∃ x ∈ (c.named next).1.columns, ∃ slot, x.isSent slot = true ∧
      x.parameter slot = some q.name := by
  -- The second round gives names to expected values only.
  have kept : (c.named next).1.columns.map (fun x => (x.roles, x.parameterName)) =
      (c.valuesNamed next).map fun x => (x.roles, x.parameterName) :=
    map_nameColumns _ fun _ _ => rfl
  rcases List.mem_append.mp mem with value | expected
  · obtain ⟨x, -, write, named⟩ := mem_nameColumns value
    have entry : (x.roles, some q.name) ∈
        (c.named next).1.columns.map fun x => (x.roles, x.parameterName) :=
      kept ▸ List.mem_map.mpr ⟨_, named, rfl⟩
    obtain ⟨y, column, same⟩ := List.mem_map.mp entry
    obtain ⟨roles, parameter⟩ := Prod.mk.inj same
    exact ⟨y, column, .value, by rw [ColumnChange.isSent, roles, write], parameter⟩
  · obtain ⟨x, -, sends, named⟩ := mem_nameColumns expected
    exact ⟨_, named, .expected, sends, rfl⟩

namespace Batch

variable {g : Generator} {capacity : Nat} {b₀ : Batch}

/-- A parameter of a batch belongs to one of the changes that the batch has taken. -/
theorem exists_named_of_mem (new : Batch.empty? g capacity = .ok b₀) {cs : List RowChange}
    {q : BatchParameter} (mem : q ∈ (b₀.offerAll cs).parameters) :
    ∃ c ∈ cs.take capacity, ∃ next, (c.named next).1 ∈ (b₀.offerAll cs).changes ∧
      q ∈ (c.named next).2 := by
  induction cs using List.reverseRecOn with
  | nil =>
      obtain rfl := eq_of_empty?_eq_ok new
      cases mem
  | append_singleton cs c ih =>
      rw [List.take_append]
      rw [offerAll_append_singleton, offer_eq, isFull_offerAll new] at mem ⊢
      split at mem
      next full =>
        rw [if_pos full]
        obtain ⟨x, taken, next, change, own⟩ := ih mem
        exact ⟨x, List.mem_append_left _ taken, next, change, own⟩
      next space =>
        have room : cs.length < capacity := by simpa using space
        rw [if_neg space]
        rcases List.mem_append.mp mem with before | last
        · obtain ⟨x, taken, next, change, own⟩ := ih before
          exact ⟨x, List.mem_append_left _ taken, next, List.mem_append_left _ change, own⟩
        · refine ⟨c, List.mem_append_right _ ?_, _, List.mem_append_right _ List.mem_cons_self,
            last⟩
          rw [List.take_of_length_le (by rw [List.length_singleton]; omega)]
          exact List.mem_cons_self

end Batch

/-- The names of a change, with the columns and the values they stand for. -/
def RowChange.nameTable (c : RowChange) : List (String × ColumnChange × Slot) :=
  (c.columns.filterMap fun x => x.parameterName.map fun name => (name, x, .value)) ++
    c.columns.filterMap fun x => x.expectedParameterName.map fun name => (name, x, .expected)

theorem RowChange.mem_nameTable {c : RowChange} {x : ColumnChange} (mem : x ∈ c.columns)
    {slot : Slot} {name : String} (named : x.parameter slot = some name) :
    (name, x, slot) ∈ c.nameTable := by
  cases slot with
  | value =>
      have entry : x.parameterName.map (fun name => (name, x, Slot.value)) =
          some (name, x, .value) := Option.map_eq_some_iff.mpr ⟨name, named, rfl⟩
      exact List.mem_append_left _ (List.mem_filterMap.mpr ⟨x, mem, entry⟩)
  | expected =>
      have entry : x.expectedParameterName.map (fun name => (name, x, Slot.expected)) =
          some (name, x, .expected) := Option.map_eq_some_iff.mpr ⟨name, named, rfl⟩
      exact List.mem_append_right _ (List.mem_filterMap.mpr ⟨x, mem, entry⟩)

theorem RowChange.map_fst_nameTable (c : RowChange) :
    c.nameTable.map Prod.fst = c.sent.map BatchParameter.name := by
  simp only [nameTable, sent, List.map_append, List.map_filterMap, Option.map_map,
    ColumnChange.sentValue?, ColumnChange.sentExpected?]
  rfl

namespace Batch.Numbered

variable {b : Batch} {taken : List RowChange}

/-- A name stands for one value of one column of one change. -/
theorem slot_unique (numbered : b.Numbered taken) {c c' : RowChange} (change : c ∈ b.changes)
    (change' : c' ∈ b.changes) {x x' : ColumnChange} (column : x ∈ c.columns)
    (column' : x' ∈ c'.columns) {slot slot' : Slot} {name : String}
    (named : x.parameter slot = some name) (named' : x'.parameter slot' = some name) :
    c = c' ∧ x = x' ∧ slot = slot' := by
  -- In one table of all the names no name stands twice, so an entry is found by its name.
  have names : (b.changes.flatMap fun c => c.nameTable.map fun e => (e.1, c, e.2)).map Prod.fst =
      b.parameters.map BatchParameter.name := by
    rw [numbered.parameters, List.map_flatMap, List.map_flatMap]
    refine List.flatMap_congr fun c _ => ?_
    rw [List.map_map, ← RowChange.map_fst_nameTable]
    rfl
  have distinct : ((b.changes.flatMap fun c => c.nameTable.map fun e => (e.1, c, e.2)).map
      Prod.fst).Nodup := names ▸ numbered.names.nodup
  have entry {c : RowChange} (change : c ∈ b.changes) {x : ColumnChange} (column : x ∈ c.columns)
      {slot : Slot} (named : x.parameter slot = some name) :
      (name, c, x, slot) ∈ b.changes.flatMap fun c => c.nameTable.map fun e => (e.1, c, e.2) :=
    List.mem_flatMap.mpr
      ⟨c, change, List.mem_map.mpr ⟨_, RowChange.mem_nameTable column named, rfl⟩⟩
  have same := List.inj_on_of_nodup_map distinct (entry change column named)
    (entry change' column' named') rfl
  simpa using same

/-- A value that is sent has a name, and a parameter has this name. -/
theorem exists_parameter (numbered : b.Numbered taken) {c : RowChange} (change : c ∈ b.changes)
    {x : ColumnChange} (column : x ∈ c.columns) {slot : Slot} (sent : x.isSent slot = true) :
    ∃ q ∈ b.parameters, x.parameter slot = some q.name := by
  have isNamed := numbered.named c change x column
  have hasName : (x.parameter slot).isSome = true := by
    cases slot with
    | value => exact isNamed.value.trans sent
    | expected => exact isNamed.expected.trans sent
  obtain ⟨name, named⟩ := Option.isSome_iff_exists.mp hasName
  have entry : name ∈ c.sent.map BatchParameter.name := by
    rw [← RowChange.map_fst_nameTable]
    exact List.mem_map.mpr ⟨_, RowChange.mem_nameTable column named, rfl⟩
  obtain ⟨q, own, rfl⟩ := List.mem_map.mp entry
  exact ⟨q, numbered.parameters ▸ List.mem_flatMap.mpr ⟨c, change, own⟩, named⟩

end Batch.Numbered

/-! ## The text of a batch -/

/-- Every parameter of a batch has a placeholder in its text. -/
def Batch.RefersToAll (b : Batch) : Prop :=
  ∀ q ∈ b.build.parameters, .placeholder q.name ∈ lexemes b.build.sql

namespace Sqlite

variable {returning : Bool} {capacity : Nat} {b₀ : Batch} {cs : List RowChange}

theorem placeholder_mem_build (new : Batch.empty? (generator returning) capacity = .ok b₀)
    (names : ∀ c ∈ cs, c.HasBatchNames) {name : String} :
    .placeholder name ∈ lexemes (b₀.offerAll cs).build.sql ↔
      ∃ c ∈ (b₀.offerAll cs).changes, ∃ x ∈ c.columns, ∃ slot,
        (generator returning).refersTo c x slot = true ∧ x.parameter slot = some name := by
  have own := (Batch.rendered_offerAll new cs).2
  rw [lexemes_build new names, placeholder_mem_terminated]
  constructor
  · rintro ⟨st, mem, placed⟩
    rw [Batch.script, own] at mem
    obtain ⟨p, change, statement⟩ := List.mem_flatMap.mp mem
    exact ⟨p.1, List.fst_mem_of_mem_zipIdx change,
      (Generator.mem_placeholders_script _ p.1 p.2).mp ⟨st, statement, placed⟩⟩
  · rintro ⟨c, change, refers⟩
    obtain ⟨position, bound, rfl⟩ := List.mem_iff_getElem.mp change
    obtain ⟨st, statement, placed⟩ :=
      (Generator.mem_placeholders_script (generator returning) _ position).mpr refers
    refine ⟨st, ?_, placed⟩
    rw [Batch.script, own]
    exact List.mem_flatMap.mpr
      ⟨_, List.mk_mem_zipIdx_iff_getElem?.mpr (List.getElem?_eq_getElem bound), statement⟩

/-- The parameters of a batch have placeholders in its text if all the changes that it has taken use
what is sent.  If no value had a name before, they have them only then. -/
theorem referenced_build {p : Provider} (new : p.createBatch = .ok b₀)
    (names : ∀ c ∈ cs, c.HasBatchNames) :
    ((∀ c ∈ cs.take p.options.maxBatchSize, c.UsesSent p.options.returning) →
        (b₀.offerAll cs).RefersToAll) ∧
      ((∀ c ∈ cs, c.IsFresh) → (b₀.offerAll cs).RefersToAll →
        ∀ c ∈ cs.take p.options.maxBatchSize, c.UsesSent p.options.returning) := by
  have placed (name : String) := @placeholder_mem_build _ _ _ _ new names name
  have uses {c : RowChange} := c.usesSent_iff (g := generator p.options.returning)
  constructor
  · intro used q mem
    obtain ⟨c, taken, next, change, own⟩ := Batch.exists_named_of_mem new mem
    obtain ⟨x, column, slot, sent, named⟩ := RowChange.exists_slot_of_mem own
    have refers := uses.mp (RowChange.usesSent_named_iff.mpr (used c taken)) x column slot sent
    exact (placed q.name).mpr ⟨_, change, x, column, slot, refers, named⟩
  · intro fresh refersToAll c taken
    have numbered := Batch.numbered_offerAll new fresh
    rw [← numbered.changes] at taken
    obtain ⟨c', change, rfl⟩ := List.mem_map.mp taken
    refine RowChange.usesSent_withoutNames_iff.mpr (uses.mpr fun x column slot sent => ?_)
    obtain ⟨q, mem, named⟩ := numbered.exists_parameter change column sent
    -- Some statement refers to the name, and it can only do so for this value of this column.
    obtain ⟨c₂, change₂, x₂, column₂, slot₂, refers, named₂⟩ :=
      (placed q.name).mp (refersToAll q mem)
    obtain ⟨rfl, rfl, rfl⟩ := numbered.slot_unique change change₂ column column₂ named named₂
    exact refers

end Sqlite

/-- A row with a key of its own, by which its time stamp is read back. -/
def addStamped : RowChange where
  table := ⟨"t", none⟩
  kind := .added
  columns :=
    [{ name := "id", roles := { key := true, condition := true, write := true }
       value := .integer 5, expected := .integer 5 },
     { name := "stamp", roles := { read := true } }]

/-- The empty batch for a database without options. -/
def plainBatch : Batch := { generator := Sqlite.generator false, capacity := 128 }

/-- The insertion has no use for the expected key, but the query behind it finds the row by it.  The
modification uses all its values. -/
theorem referenced_build_addStamped :
    Sqlite.Provider.createBatch {} = .ok plainBatch ∧
      (∀ c ∈ [addStamped, rename], c.HasBatchNames) ∧
      (∀ c ∈ [addStamped, rename], c.UsesSent false) ∧
      (plainBatch.offerAll [addStamped, rename]).build.parameters.map BatchParameter.name =
        ["p0", "p1", "p2", "p3", "p4"] ∧
      (plainBatch.offerAll [addStamped, rename]).RefersToAll := by
  have new : Sqlite.Provider.createBatch {} = .ok plainBatch := rfl
  have names : ∀ c ∈ [addStamped, rename], c.HasBatchNames := by
    have fresh : ∀ c ∈ [addStamped, rename], c.IsFresh := by
      simp [addStamped, rename, RowChange.IsFresh, ColumnChange.IsFresh]
    exact fun c mem => (fresh c mem).hasBatchNames
  have uses : ∀ c ∈ [addStamped, rename], c.UsesSent false := by
    simp [addStamped, rename, RowChange.UsesSent, RowChange.read, ColumnChange.sendsExpected,
      ColumnChange.isCondition]
  exact ⟨new, names, uses, by decide +kernel, (Sqlite.referenced_build new names).1 uses⟩

/-- A first version of a row, with the version that the row is expected to have. -/
def addVersioned : RowChange where
  table := ⟨"Blogs", none⟩
  kind := .added
  columns :=
    [{ name := "Id", roles := { key := true, write := true }, value := .integer 1 },
     { name := "Version", roles := { write := true, concurrencyToken := true }
       value := .integer 1, expected := .integer 3 }]

/-- The expected version is sent, and nothing in the text refers to it. -/
theorem not_refersToAll_addVersioned :
    Sqlite.Provider.createBatch {} = .ok plainBatch ∧ addVersioned.IsFresh ∧
      (plainBatch.offerAll [addVersioned]).build.sql =
        "INSERT INTO \"Blogs\" (\"Id\", \"Version\")\nVALUES (@p0, @p1);\n" ∧
      (plainBatch.offerAll [addVersioned]).build.parameters =
        [⟨"p0", .integer 1, none⟩, ⟨"p1", .integer 1, none⟩, ⟨"p2", .integer 3, none⟩] ∧
      ¬ (plainBatch.offerAll [addVersioned]).RefersToAll := by
  refine ⟨rfl, ?_, by decide +kernel, by decide +kernel, fun refersToAll => ?_⟩
  · simp [addVersioned, RowChange.IsFresh, ColumnChange.IsFresh]
  · exact absurd (refersToAll ⟨"p2", .integer 3, none⟩ (by decide +kernel)) (by decide +kernel)

end SqlGen
