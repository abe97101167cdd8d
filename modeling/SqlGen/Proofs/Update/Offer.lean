import Mathlib.Data.List.Induction
import SqlGen.Proofs.Update.Meaning

/-!
# Offers to a batch

A batch is offered changes one after the other.  It takes them as long as it has room, and from
then on hands each one back and stays as it is (`add_offerAll`).

`Batch.Numbered` is the invariant of such a run.  The changes that a batch holds are those it has
taken, with names.  Their values, one change after the other, are the parameters of the batch, and
the parameters are numbered through.  `Batch.Numbered.extended` is its step and `numbered_offerAll`
its run.  Nothing that has been written is changed by a later offer, so the text of a batch begins
with its text at any earlier moment (`isPrefix_offerAll`).
-/

namespace SqlGen

/-! ## The values of a named change -/

namespace ColumnChange

/-- The column before it has been given names. -/
def withoutNames (x : ColumnChange) : ColumnChange :=
  { x with parameterName := none, expectedParameterName := none }

/-- The value of the column as it is sent along, if it has a name. -/
def sentValue? (x : ColumnChange) : Option BatchParameter :=
  x.parameterName.map fun name => ⟨name, x.value, x.mapping⟩

/-- The expected value of the column as it is sent along, if it has a name. -/
def sentExpected? (x : ColumnChange) : Option BatchParameter :=
  x.expectedParameterName.map fun name => ⟨name, x.expected, x.mapping⟩

/-- The column has a name for its value exactly if it is written, and one for its expected value
exactly if it is compared with a value. -/
structure IsNamed (x : ColumnChange) : Prop where
  value : x.parameterName.isSome = x.roles.write
  expected : x.expectedParameterName.isSome = x.sendsExpected

theorem IsFresh.withoutNames_eq {x : ColumnChange} (h : x.IsFresh) : x.withoutNames = x := by
  obtain ⟨value, expected⟩ := h
  cases x with
  | mk n r v e m p q =>
      obtain rfl : p = none := value
      obtain rfl : q = none := expected
      rfl

end ColumnChange

namespace RowChange

/-- The change before it has been given names. -/
def withoutNames (c : RowChange) : RowChange :=
  { c with columns := c.columns.map ColumnChange.withoutNames }

/-- What the names of a change stand for: the values of its columns, then the expected values, both
in the order of the columns. -/
def sent (c : RowChange) : List BatchParameter :=
  c.columns.filterMap ColumnChange.sentValue? ++ c.columns.filterMap ColumnChange.sentExpected?

def IsNamed (c : RowChange) : Prop := ∀ x ∈ c.columns, x.IsNamed

end RowChange

/-! ## One round -/

section Round

variable {needs : ColumnChange → Bool} {value : ColumnChange → Value}
  {assign : ColumnChange → String → ColumnChange} {cs : List ColumnChange}

/-- What a name does not change is the same after a round. -/
theorem map_nameColumns {α : Type} {f : ColumnChange → α} (next : Nat)
    (same : ∀ c name, f (assign c name) = f c) :
    (nameColumns needs value assign next cs).1.map f = cs.map f := by
  induction cs generalizing next with
  | nil => rfl
  | cons c rest ih =>
      cases h : needs c with
      | true => rw [nameColumns_cons_of_needs h, List.map_cons, List.map_cons, same, ih]
      | false => rw [nameColumns_cons_of_not h, List.map_cons, List.map_cons, ih]

theorem filterMap_nameColumns {α : Type} {f : ColumnChange → Option α} (next : Nat)
    (same : ∀ c name, f (assign c name) = f c) :
    (nameColumns needs value assign next cs).1.filterMap f = cs.filterMap f := by
  have columns : (nameColumns needs value assign next cs).1.map f = cs.map f :=
    map_nameColumns next same
  have listed := congrArg (List.filterMap id) columns
  rwa [List.filterMap_map, List.filterMap_map] at listed

/-- The parameters of a round are what its names stand for. -/
theorem filterMap_sent_nameColumns {sent? : ColumnChange → Option BatchParameter} (next : Nat)
    (unnamed : ∀ c ∈ cs, sent? c = none)
    (named : ∀ c name, sent? (assign c name) = some ⟨name, value c, c.mapping⟩) :
    (nameColumns needs value assign next cs).1.filterMap sent? =
      (nameColumns needs value assign next cs).2 := by
  induction cs generalizing next with
  | nil => rfl
  | cons c rest ih =>
      have later (next : Nat) := ih next fun x mem => unnamed x (List.mem_cons_of_mem c mem)
      cases h : needs c with
      | true => rw [nameColumns_cons_of_needs h, List.filterMap_cons_some (named c _), later]
      | false =>
          rw [nameColumns_cons_of_not h,
            List.filterMap_cons_none (unnamed c List.mem_cons_self), later]

/-- What a round makes of columns with a property. -/
theorem forall_nameColumns {P Q : ColumnChange → Prop} (next : Nat) (before : ∀ c ∈ cs, P c)
    (named : ∀ c n, P c → needs c = true → Q (assign c (BatchParameter.nameOf n)))
    (kept : ∀ c, P c → needs c = false → Q c) :
    ∀ x ∈ (nameColumns needs value assign next cs).1, Q x := by
  induction cs generalizing next with
  | nil =>
      intro x mem
      cases mem
  | cons c rest ih =>
      have first := before c List.mem_cons_self
      have later (next : Nat) := ih next fun x mem => before x (List.mem_cons_of_mem c mem)
      cases h : needs c with
      | true =>
          rw [nameColumns_cons_of_needs h, List.forall_mem_cons]
          exact ⟨named c _ first h, later _⟩
      | false =>
          rw [nameColumns_cons_of_not h, List.forall_mem_cons]
          exact ⟨kept c first h, later _⟩

end Round

/-! ## A change -/

namespace RowChange

variable {c : RowChange} {next : Nat}

/-- The columns after the first round. -/
def valuesNamed (c : RowChange) (next : Nat) : List ColumnChange := (nameValues next c.columns).1

theorem columns_named (c : RowChange) (next : Nat) :
    (c.named next).1.columns =
      (nameExpected (next + (nameValues next c.columns).2.length) (c.valuesNamed next)).1 := rfl

/-- A change is the same before it has been given names and after that, but for the names. -/
theorem withoutNames_named (c : RowChange) (next : Nat) :
    (c.named next).1.withoutNames = c.withoutNames := by
  have columns : (c.named next).1.columns.map ColumnChange.withoutNames =
      c.columns.map ColumnChange.withoutNames := by
    calc (c.named next).1.columns.map ColumnChange.withoutNames
        = (c.valuesNamed next).map ColumnChange.withoutNames := map_nameColumns _ fun _ _ => rfl
      _ = c.columns.map ColumnChange.withoutNames := map_nameColumns _ fun _ _ => rfl
  rw [withoutNames, columns]
  rfl

theorem IsFresh.withoutNames_eq (fresh : c.IsFresh) : c.withoutNames = c := by
  have columns : c.columns.map ColumnChange.withoutNames = c.columns.map id :=
    List.map_congr_left fun x mem => (fresh x mem).withoutNames_eq
  rw [withoutNames, columns, List.map_id]

/-- After the first round the columns have names for the values they write, and no others. -/
theorem forall_valuesNamed (fresh : c.IsFresh) :
    ∀ x ∈ c.valuesNamed next,
      x.parameterName.isSome = x.roles.write ∧ x.expectedParameterName = none := by
  refine forall_nameColumns next fresh ?named ?kept
  case named => exact fun x n unnamed write => ⟨write.symm, unnamed.2⟩
  case kept =>
    intro x unnamed keep
    exact ⟨by rw [unnamed.1, keep]; rfl, unnamed.2⟩

theorem isNamed_named (fresh : c.IsFresh) : (c.named next).1.IsNamed := by
  refine forall_nameColumns _ (forall_valuesNamed fresh) ?named ?kept
  case named => exact fun x n values sends => ⟨values.1, sends.symm⟩
  case kept =>
    intro x values unsent
    exact ⟨values.1, by rw [values.2, unsent]; rfl⟩

/-- The names of a change stand for its parameters. -/
theorem sent_named (fresh : c.IsFresh) : (c.named next).1.sent = (c.named next).2 := by
  have values : (c.named next).1.columns.filterMap ColumnChange.sentValue? =
      (nameValues next c.columns).2 := by
    have unnamed : ∀ x ∈ c.columns, x.sentValue? = none := by
      intro x mem
      rw [ColumnChange.sentValue?, (fresh x mem).1]
      rfl
    rw [columns_named]
    calc (nameExpected _ (c.valuesNamed next)).1.filterMap ColumnChange.sentValue?
        = (c.valuesNamed next).filterMap ColumnChange.sentValue? :=
          filterMap_nameColumns _ fun _ _ => rfl
      _ = (nameValues next c.columns).2 :=
          filterMap_sent_nameColumns next unnamed fun _ _ => rfl
  have expectations : (c.named next).1.columns.filterMap ColumnChange.sentExpected? =
      (nameExpected (next + (nameValues next c.columns).2.length) (c.valuesNamed next)).2 := by
    rw [columns_named]
    refine filterMap_sent_nameColumns _ (fun x mem => ?_) fun _ _ => rfl
    rw [ColumnChange.sentExpected?, (forall_valuesNamed fresh x mem).2]
    rfl
  rw [sent, values, expectations]
  rfl

end RowChange

/-! ## One offer -/

namespace Batch

/-- The batch after a change has been offered.  If it hands the change back it is as before. -/
def offer (b : Batch) (c : RowChange) : Batch :=
  match b.add c with
  | .ok b' => b'
  | .error _ => b

/-- The batch after some changes have been offered. -/
def offerAll (b : Batch) (cs : List RowChange) : Batch := cs.foldl offer b

theorem offerAll_append_singleton (b : Batch) (cs : List RowChange) (c : RowChange) :
    b.offerAll (cs ++ [c]) = (b.offerAll cs).offer c := by
  rw [offerAll, List.foldl_append]
  rfl

/-- A full batch stays as it is, and any other one takes the change. -/
theorem offer_eq (b : Batch) (c : RowChange) :
    b.offer c = if b.isFull then b else b.extended c := by
  rw [offer, add_eq]
  cases b.isFull <;> rfl

theorem generator_offer (b : Batch) (c : RowChange) : (b.offer c).generator = b.generator := by
  rw [offer_eq]
  split <;> rfl

/-! ## The run -/

section Run

variable {g : Generator} {capacity : Nat} {b₀ : Batch}

/-- A batch has taken as many of the changes as it has room for. -/
theorem length_offerAll (new : Batch.empty? g capacity = .ok b₀) (cs : List RowChange) :
    (b₀.offerAll cs).capacity = capacity ∧
      (b₀.offerAll cs).changes.length = min cs.length capacity := by
  induction cs using List.reverseRecOn with
  | nil =>
      obtain rfl := eq_of_empty?_eq_ok new
      exact ⟨rfl, (Nat.zero_min capacity).symm⟩
  | append_singleton cs c ih =>
      obtain ⟨same, length⟩ := ih
      rw [offerAll_append_singleton, List.length_append, List.length_singleton]
      rw [offer_eq]
      split
      next full =>
        have enough : capacity ≤ (b₀.offerAll cs).changes.length := by
          simpa [isFull, same] using full
        exact ⟨same, by omega⟩
      next room =>
        have less : (b₀.offerAll cs).changes.length < capacity := by
          simpa [isFull, same] using room
        refine ⟨same, ?_⟩
        simp only [extended, List.length_append, List.length_singleton]
        omega

theorem isFull_offerAll (new : Batch.empty? g capacity = .ok b₀) (cs : List RowChange) :
    (b₀.offerAll cs).isFull = decide (capacity ≤ cs.length) := by
  obtain ⟨same, length⟩ := length_offerAll new cs
  rw [isFull, same, length]
  exact decide_eq_decide.mpr (by omega)

/-- The changes up to the capacity are taken, and the others are handed back to no effect. -/
theorem add_offerAll (new : Batch.empty? g capacity = .ok b₀) (cs : List RowChange)
    (c : RowChange) :
    (cs.length < capacity → (b₀.offerAll cs).add c = .ok (b₀.offerAll (cs ++ [c]))) ∧
      (capacity ≤ cs.length → (b₀.offerAll cs).add c = .error c ∧
        b₀.offerAll (cs ++ [c]) = b₀.offerAll cs) := by
  rw [offerAll_append_singleton, add_eq, offer_eq]
  constructor
  · intro room
    have space : (b₀.offerAll cs).isFull = false := by
      rw [isFull_offerAll new]
      exact decide_eq_false (Nat.not_le.mpr room)
    rw [space]
    rfl
  · intro enough
    have full : (b₀.offerAll cs).isFull = true := by
      rw [isFull_offerAll new]
      exact decide_eq_true enough
    rw [full]
    exact ⟨rfl, rfl⟩

/-! ## Texts and results -/

/-- A batch has written each change at its position, and keeps what it returns. -/
structure Rendered (b : Batch) : Prop where
  sql : b.sql = String.join (b.changes.zipIdx.map fun p => (b.generator.operation p.1 p.2).1)
  results : b.results = b.changes.zipIdx.map fun p => (b.generator.operation p.1 p.2).2

theorem Rendered.extended {b : Batch} (rendered : b.Rendered) (c : RowChange) :
    (b.extended c).Rendered where
  sql := sql_extended rendered.sql c
  results := by
    simp only [Batch.extended]
    rw [rendered.results, List.zipIdx_append, List.map_append]
    simp

theorem Rendered.offer {b : Batch} (rendered : b.Rendered) (c : RowChange) :
    (b.offer c).Rendered := by
  rw [offer_eq]
  split
  next => exact rendered
  next => exact rendered.extended c

theorem rendered_offerAll (new : Batch.empty? g capacity = .ok b₀) (cs : List RowChange) :
    (b₀.offerAll cs).Rendered ∧ (b₀.offerAll cs).generator = g := by
  induction cs using List.reverseRecOn with
  | nil =>
      obtain rfl := eq_of_empty?_eq_ok new
      exact ⟨⟨rfl, rfl⟩, rfl⟩
  | append_singleton cs c ih =>
      rw [offerAll_append_singleton, generator_offer]
      exact ⟨ih.1.offer c, ih.2⟩

/-! ## Names and parameters -/

/-- A batch has taken some changes, and numbered what they send. -/
structure Numbered (b : Batch) (taken : List RowChange) : Prop extends Rendered b where
  /-- The parameters have consecutive numbers. -/
  names : Consecutive 0 b.parameters
  /-- The changes are those that were taken, but for their names. -/
  changes : b.changes.map RowChange.withoutNames = taken
  /-- Names stand on the columns that send something, and on no others. -/
  named : ∀ c ∈ b.changes, c.IsNamed
  /-- The parameters are what the names of the changes stand for, one change after the other. -/
  parameters : b.parameters = b.changes.flatMap RowChange.sent

theorem numbered_empty (new : Batch.empty? g capacity = .ok b₀) : b₀.Numbered [] := by
  obtain rfl := eq_of_empty?_eq_ok new
  exact ⟨⟨rfl, rfl⟩, .nil 0, rfl, by simp, rfl⟩

theorem Numbered.extended {b : Batch} {taken : List RowChange} (numbered : b.Numbered taken)
    {c : RowChange} (fresh : c.IsFresh) : (b.extended c).Numbered (taken ++ [c]) where
  toRendered := numbered.toRendered.extended c
  names := consecutive_extended numbered.names c
  changes := by
    simp only [Batch.extended]
    rw [List.map_append, numbered.changes, List.map_singleton, RowChange.withoutNames_named,
      fresh.withoutNames_eq]
  named := by
    intro x mem
    rcases List.mem_append.mp mem with before | last
    · exact numbered.named x before
    · obtain rfl := List.mem_singleton.mp last
      exact RowChange.isNamed_named fresh
  parameters := by
    simp only [Batch.extended]
    rw [List.flatMap_append, ← numbered.parameters, List.flatMap_singleton,
      RowChange.sent_named fresh]

theorem numbered_offerAll (new : Batch.empty? g capacity = .ok b₀) {cs : List RowChange}
    (fresh : ∀ c ∈ cs, c.IsFresh) : (b₀.offerAll cs).Numbered (cs.take capacity) := by
  induction cs using List.reverseRecOn with
  | nil =>
      rw [List.take_nil]
      exact numbered_empty new
  | append_singleton cs c ih =>
      have numbered := ih fun x mem => fresh x (List.mem_append_left _ mem)
      have last : c.IsFresh := fresh c (List.mem_append_right _ List.mem_cons_self)
      rw [offerAll_append_singleton, offer_eq, isFull_offerAll new]
      split
      next full =>
        have enough : capacity ≤ cs.length := of_decide_eq_true full
        rw [List.take_append_of_le_length enough]
        exact numbered
      next space =>
        have room : cs.length < capacity := by simpa using space
        have all : (cs ++ [c]).take capacity = cs.take capacity ++ [c] := by
          rw [List.take_of_length_le (Nat.le_of_lt room), List.take_of_length_le]
          rw [List.length_append]
          exact room
        rw [all]
        exact numbered.extended last

end Run

end Batch

/-! ## Earlier and later texts -/

/-- A text goes on from another one, with more parameters and results behind those of the other. -/
structure BatchText.IsPrefix (t u : BatchText) : Prop where
  sql : ∃ more, u.sql = t.sql ++ more
  parameters : t.parameters <+: u.parameters
  results : t.results <+: u.results

namespace BatchText.IsPrefix

variable {t u v : BatchText}

theorem refl (t : BatchText) : t.IsPrefix t :=
  ⟨⟨"", String.append_empty.symm⟩, List.prefix_refl _, List.prefix_refl _⟩

theorem trans (first : t.IsPrefix u) (second : u.IsPrefix v) : t.IsPrefix v where
  sql := by
    obtain ⟨more, middle⟩ := first.sql
    obtain ⟨rest, whole⟩ := second.sql
    exact ⟨more ++ rest, by rw [whole, middle, String.append_assoc]⟩
  parameters := first.parameters.trans second.parameters
  results := first.results.trans second.results

end BatchText.IsPrefix

namespace Batch

theorem isPrefix_offer (b : Batch) (c : RowChange) : b.build.IsPrefix (b.offer c).build := by
  rw [offer_eq]
  split
  next => exact .refl _
  next =>
    refine ⟨⟨(b.generator.operation (c.named b.parameters.length).1 b.changes.length).1, ?_⟩,
      List.prefix_append _ _, List.prefix_append _ _⟩
    exact String.append_assoc.symm

/-- Later offers leave the text, the parameters and the results as they are. -/
theorem isPrefix_offerAll (b : Batch) (more : List RowChange) :
    b.build.IsPrefix (b.offerAll more).build := by
  induction more generalizing b with
  | nil => exact .refl _
  | cons c rest ih => exact (isPrefix_offer b c).trans (ih (b.offer c))

/-- The run of a batch with room for some changes.

It takes the first changes up to its capacity, and hands every later one back and stays as it is.
At every moment its parameters have consecutive numbers, they are what the names of its
changes stand for, one change after the other, and it has one result for each change.  What it
builds later goes on from what it builds now. -/
theorem exists_numbered_run (g : Generator) {capacity : Nat} (room : 0 < capacity) :
    ∃ b₀, Batch.empty? g capacity = .ok b₀ ∧
      (∀ cs c, cs.length < capacity →
        (b₀.offerAll cs).add c = .ok (b₀.offerAll (cs ++ [c]))) ∧
      (∀ cs c, capacity ≤ cs.length →
        (b₀.offerAll cs).add c = .error c ∧ b₀.offerAll (cs ++ [c]) = b₀.offerAll cs) ∧
      (∀ cs, (∀ c ∈ cs, c.IsFresh) → (b₀.offerAll cs).Numbered (cs.take capacity) ∧
        ((b₀.offerAll cs).parameters.map BatchParameter.name).Nodup) ∧
      ∀ cs more, (b₀.offerAll cs).build.IsPrefix (b₀.offerAll (cs ++ more)).build := by
  have new : Batch.empty? g capacity = .ok { generator := g, capacity } :=
    if_neg (Nat.ne_of_gt room)
  refine ⟨_, new, ?taken, ?refused, ?numbered, ?goesOn⟩
  case taken => exact fun cs c => (add_offerAll new cs c).1
  case refused => exact fun cs c => (add_offerAll new cs c).2
  case numbered =>
    intro cs fresh
    have numbered := numbered_offerAll new fresh
    exact ⟨numbered, numbered.names.nodup⟩
  case goesOn =>
    intro cs more
    rw [offerAll, offerAll, List.foldl_append]
    exact isPrefix_offerAll _ more

end Batch

/-- Of three changes a batch of two takes the first two and hands the third one back.  Its text goes
on from the one it has built in between. -/
theorem exists_numbered_run_roomForTwo :
    0 < 2 ∧ (∀ c ∈ [rename, deleteWithoutNote, rename], c.IsFresh) ∧
      Batch.empty? (Sqlite.generator true) 2 = .ok roomForTwo ∧
      roomForTwo.offerAll [rename, deleteWithoutNote, rename] = renameAndDelete ∧
      renameAndDelete.add rename = .error rename ∧
      renameAndDelete.parameters.map BatchParameter.name = ["p0", "p1", "p2", "p3"] ∧
      renameAndDelete.Numbered [rename, deleteWithoutNote] ∧
      (roomForTwo.offerAll [rename]).build.IsPrefix renameAndDelete.build := by
  have fresh : ∀ c ∈ [rename, deleteWithoutNote, rename], c.IsFresh := by
    simp [rename, deleteWithoutNote, RowChange.IsFresh, ColumnChange.IsFresh]
  have room : 0 < 2 := by decide
  obtain ⟨b₀, new, -, refused, numbered, goesOn⟩ :=
    Batch.exists_numbered_run (Sqlite.generator true) room
  obtain rfl : b₀ = roomForTwo := Except.ok.inj (new.symm.trans rfl)
  obtain ⟨handedBack, same⟩ := refused [rename, deleteWithoutNote] rename (by decide)
  obtain ⟨twoTaken, -⟩ := numbered _ fresh
  rw [show [rename, deleteWithoutNote, rename] = [rename, deleteWithoutNote] ++ [rename] from rfl,
    same] at twoTaken
  exact ⟨room, fresh, new, same, handedBack, by decide +kernel, twoTaken,
    goesOn [rename] [deleteWithoutNote]⟩

end SqlGen
