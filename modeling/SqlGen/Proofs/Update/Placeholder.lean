import SqlGen.Proofs.Update.Offer
import SqlGen.Proofs.Update.Shape

/-!
# Placeholders in statements

A batch names the values it sends without looking at what kind of change they belong to.  The
statements of a change have a placeholder for a value only where they set the column, compare it or
look for the row by it.  `Generator.mem_placeholders_script` tells which values these are.

All the names are those that batches give (`RowChange.HasBatchNames`), whatever batch it was.
-/

namespace SqlGen

/-! ## The placeholders of a statement -/

def Operand.placeholder? : Operand → Option String
  | .placeholder name => some name
  | .literal _ => none

def Condition.placeholder? : Condition → Option String
  | .column _ parameter => parameter
  | _ => none

/-- The parameters that a statement refers to. -/
def Statement.placeholders : Statement → List String
  | .insert _ values _ => values.filterMap fun a => a.operand.placeholder?
  | .update _ values conditions _ =>
      (values.filterMap fun a => a.operand.placeholder?) ++
        conditions.filterMap Condition.placeholder?
  | .delete _ conditions _ | .readBack _ _ conditions =>
      conditions.filterMap Condition.placeholder?
  | .count _ => []

@[simp] theorem Statement.placeholders_count (sql : String) :
    (Statement.count sql).placeholders = [] := rfl

/-! ## The values of a column -/

/-- The two values of a column that may be sent along. -/
inductive Slot where
  | value
  | expected
deriving DecidableEq

namespace ColumnChange

/-- The parameter that carries a value of the column. -/
def parameter (x : ColumnChange) : Slot → Option String
  | .value => x.parameterName
  | .expected => x.expectedParameterName

/-- A batch sends the value along. -/
def isSent (x : ColumnChange) : Slot → Bool
  | .value => x.roles.write
  | .expected => x.sendsExpected

/-- The value of a key column by which a row is found again. -/
def keySlot (x : ColumnChange) : Slot := if x.isCondition then .expected else .value

theorem placeholder?_assignment (x : ColumnChange) :
    x.assignment.operand.placeholder? = x.parameterName := by
  unfold assignment
  cases x.parameterName <;> rfl

theorem placeholder?_keyCondition (x : ColumnChange) :
    x.keyCondition.placeholder? = if x.isIdentity then none else x.parameter x.keySlot := by
  unfold keyCondition keySlot comparison
  cases x.isIdentity <;> cases x.isCondition <;> rfl

end ColumnChange

/-! ## The placeholders of a change -/

namespace RowChange

variable (c : RowChange) {name : String}

/-- The modification of a row has a placeholder for a value of a column. -/
def modifiesWith (x : ColumnChange) : Slot → Bool
  | .value => c.kind != .deleted && x.roles.write
  | .expected => c.kind != .added && x.isCondition

theorem mem_placeholders_written :
    (name ∈ (c.written.map ColumnChange.assignment).filterMap fun a => a.operand.placeholder?) ↔
      ∃ x ∈ c.columns, x.roles.write ∧ x.parameterName = some name := by
  simp only [List.filterMap_map, List.mem_filterMap, Function.comp_def,
    ColumnChange.placeholder?_assignment, written, List.mem_filter, and_assoc]

theorem mem_placeholders_conditions :
    name ∈ (c.conditions.map (ColumnChange.comparison true)).filterMap Condition.placeholder? ↔
      ∃ x ∈ c.columns, x.isCondition ∧ x.expectedParameterName = some name := by
  simp only [List.filterMap_map, List.mem_filterMap, Function.comp_def, ColumnChange.comparison,
    Condition.placeholder?, if_true, conditions, List.mem_filter, and_assoc]

theorem exists_modifiesWith_iff :
    (∃ x ∈ c.columns, ∃ slot, c.modifiesWith x slot ∧ x.parameter slot = some name) ↔
      (c.kind ≠ .deleted ∧ ∃ x ∈ c.columns, x.roles.write ∧ x.parameterName = some name) ∨
      (c.kind ≠ .added ∧
        ∃ x ∈ c.columns, x.isCondition ∧ x.expectedParameterName = some name) := by
  constructor
  · rintro ⟨x, mem, _ | _, modifies, named⟩
    · obtain ⟨kind, write⟩ := Bool.and_eq_true_iff.mp modifies
      exact .inl ⟨by simpa using kind, x, mem, write, named⟩
    · obtain ⟨kind, compared⟩ := Bool.and_eq_true_iff.mp modifies
      exact .inr ⟨by simpa using kind, x, mem, compared, named⟩
  · rintro (⟨kind, x, mem, write, named⟩ | ⟨kind, x, mem, compared, named⟩)
    · exact ⟨x, mem, .value, by simp [modifiesWith, kind, write], named⟩
    · exact ⟨x, mem, .expected, by simp [modifiesWith, kind, compared], named⟩

theorem mem_placeholders_modification (returned : Option (List String)) :
    name ∈ (c.modification returned).placeholders ↔
      ∃ x ∈ c.columns, ∃ slot, c.modifiesWith x slot ∧ x.parameter slot = some name := by
  rw [exists_modifiesWith_iff, ← mem_placeholders_written, ← mem_placeholders_conditions,
    modification]
  cases c.kind <;> simp [Statement.placeholders]

theorem mem_placeholders_readBack :
    name ∈ (Generator.readBack c.table c.read c.keys).placeholders ↔
      ∃ x ∈ c.columns, x.roles.key ∧ x.isIdentity = false ∧ x.parameter x.keySlot = some name := by
  have keys : (Generator.readBack c.table c.read c.keys).placeholders =
      c.keys.filterMap fun x => x.keyCondition.placeholder? := by
    rw [Generator.readBack, Statement.placeholders, List.filterMap_cons_none rfl,
      List.filterMap_map]
    rfl
  rw [keys]
  simp [List.mem_filterMap, RowChange.keys, ColumnChange.placeholder?_keyCondition, and_assoc]

end RowChange

namespace Generator

variable (g : Generator) (c : RowChange) {name : String}

/-- The statements of a change have a placeholder for a value of a column: its row is modified with
the value or found again by it. -/
def refersTo (x : ColumnChange) (slot : Slot) : Bool :=
  c.modifiesWith x slot || (g.readsBack c && x.roles.key && !x.isIdentity && slot == x.keySlot)

theorem exists_refersTo_iff :
    (∃ x ∈ c.columns, ∃ slot, g.refersTo c x slot ∧ x.parameter slot = some name) ↔
      (∃ x ∈ c.columns, ∃ slot, c.modifiesWith x slot ∧ x.parameter slot = some name) ∨
      (g.readsBack c ∧ ∃ x ∈ c.columns,
        x.roles.key ∧ x.isIdentity = false ∧ x.parameter x.keySlot = some name) := by
  constructor
  · rintro ⟨x, mem, slot, refers, named⟩
    rcases Bool.or_eq_true_iff.mp refers with modifies | found
    · exact .inl ⟨x, mem, slot, modifies, named⟩
    · simp only [Bool.and_eq_true, Bool.not_eq_true', beq_iff_eq] at found
      obtain ⟨⟨⟨reads, key⟩, other⟩, rfl⟩ := found
      exact .inr ⟨reads, x, mem, key, other, named⟩
  · rintro (⟨x, mem, slot, modifies, named⟩ | ⟨reads, x, mem, key, other, named⟩)
    · exact ⟨x, mem, slot, by simp [refersTo, modifies], named⟩
    · exact ⟨x, mem, x.keySlot, by simp [refersTo, reads, key, other], named⟩

/-- A change has placeholders for the values its row is modified with, and for those by which it is
found again. -/
theorem mem_placeholders_script (position : Nat) :
    (∃ st ∈ (g.script c position).1, name ∈ st.placeholders) ↔
      ∃ x ∈ c.columns, ∃ slot, g.refersTo c x slot ∧ x.parameter slot = some name := by
  rw [exists_refersTo_iff, ← c.mem_placeholders_readBack]
  generalize shape : g.script c position = script
  cases isScript_of_eq shape with
  | silent reads => simp [c.mem_placeholders_modification, reads]
  | returning reads => simp [c.mem_placeholders_modification, reads]
  | selecting reads => simp [c.mem_placeholders_modification, reads]
  | counting reads => simp [c.mem_placeholders_modification, reads]

end Generator

/-! ## Names that batches give -/

/-- Whatever names a column has, batches gave them. -/
def ColumnChange.HasBatchNames (x : ColumnChange) : Prop :=
  ∀ slot, ∀ name ∈ x.parameter slot, ∃ n, name = BatchParameter.nameOf n

/-- Whatever names are in a change, batches gave them. -/
def RowChange.HasBatchNames (c : RowChange) : Prop := ∀ x ∈ c.columns, x.HasBatchNames

theorem RowChange.IsFresh.hasBatchNames {c : RowChange} (fresh : c.IsFresh) : c.HasBatchNames := by
  intro x mem slot name named
  obtain ⟨value, expected⟩ := fresh x mem
  cases slot with
  | value => cases value.symm.trans named
  | expected => cases expected.symm.trans named

theorem RowChange.hasBatchNames_named {c : RowChange} (names : c.HasBatchNames) (next : Nat) :
    (c.named next).1.HasBatchNames := by
  have values : ∀ x ∈ c.valuesNamed next, x.HasBatchNames := by
    refine forall_nameColumns next names ?_ fun x before _ => before
    rintro x n before - (_ | _) name named
    · exact ⟨n, (Option.some.inj named).symm⟩
    · exact before .expected name named
  refine forall_nameColumns _ values ?_ fun x before _ => before
  rintro x n before - (_ | _) name named
  · exact before .value name named
  · exact ⟨n, (Option.some.inj named).symm⟩

theorem Batch.hasBatchNames_offerAll {g : Generator} {capacity : Nat} {b₀ : Batch}
    (new : Batch.empty? g capacity = .ok b₀) {cs : List RowChange}
    (names : ∀ c ∈ cs, c.HasBatchNames) : ∀ c ∈ (b₀.offerAll cs).changes, c.HasBatchNames := by
  induction cs using List.reverseRecOn with
  | nil =>
      obtain rfl := eq_of_empty?_eq_ok new
      exact fun c mem => absurd mem List.not_mem_nil
  | append_singleton cs c ih =>
      rw [List.forall_mem_append, List.forall_mem_singleton] at names
      rw [offerAll_append_singleton, offer_eq]
      split
      next => exact ih names.1
      next =>
        refine List.forall_mem_append.mpr ⟨ih names.1, List.forall_mem_singleton.mpr ?_⟩
        exact RowChange.hasBatchNames_named names.2 _

/-- A statement of a change refers to names that batches gave. -/
theorem RowChange.HasBatchNames.placeholders {c : RowChange} (names : c.HasBatchNames)
    {g : Generator} {position : Nat} {st : Statement} (mem : st ∈ (g.script c position).1) :
    ∀ name ∈ st.placeholders, ∃ n, name = BatchParameter.nameOf n := by
  intro name placed
  obtain ⟨x, column, slot, -, named⟩ := g.mem_placeholders_script c position |>.mp ⟨st, mem, placed⟩
  exact names x column slot name named

end SqlGen
