import Mathlib.Data.List.Induction
import SqlGen.Proofs.Decimal
import SqlGen.Proofs.Update.Run
import SqlGen.Sqlite.Provider

/-!
# What a connection string asks for

The pairs behind the first question mark are taken one after the other.  A pair with the key of an
option has to spell a value of its type (`WellFormed`), and the first one that does not is the error
(`Refuses`).  Otherwise each option has the last value that is given for it, or its default
(`Asks`).  Pairs with other keys are left out (`applyAll_filter`).

`Sets` is what one pair does to the options, and `Reaches` what a row of pairs does, by one step for
each of them.  `Options.parse_decides` puts the outcomes together, and shows that a batch of the
size that was asked for takes a change.
-/

namespace SqlGen.Sqlite

namespace Options

/-! ## The parts of a connection string -/

/-- The file in front of the first question mark. -/
def pathOf (connection : String) : String :=
  String.ofList (withoutScheme (Text.cut '?' connection.toList).1)

/-- The pairs behind the first question mark. -/
def pairsOf (connection : String) : List (String × String) :=
  Text.Form.pairs ((Text.cut '?' connection.toList).2.getD [])

/-- What is left out in front of the file. -/
def scheme : List Char := ['f', 'i', 'l', 'e', ':']

theorem withoutScheme_scheme (rest : List Char) :
    withoutScheme (scheme ++ rest) = withoutScheme rest := rfl

theorem withoutScheme_of_bare {text : List Char} (bare : ¬ scheme <+: text) :
    withoutScheme text = text := by
  rw [withoutScheme.eq_def]
  split
  next rest => exact absurd ⟨rest, rfl⟩ bare
  next => rfl

/-- The scheme has no question mark, so it may be left out behind the cut as well. -/
theorem cut_withoutScheme (text : List Char) :
    Text.cut '?' (withoutScheme text) =
      (withoutScheme (Text.cut '?' text).1, (Text.cut '?' text).2) := by
  fun_induction withoutScheme text with
  | case1 rest ih => simpa [Text.cut, withoutScheme] using ih
  | case2 text other =>
      have bare : ¬ scheme <+: (Text.cut '?' text).1 := by
        intro inFront
        obtain ⟨rest, whole⟩ := inFront.trans (Text.cut_fst_prefix '?' text)
        exact other rest whole.symm
      rw [withoutScheme_of_bare bare]

theorem parse_eq (connection : String) :
    parse connection = applyAll { filePath := pathOf connection } (pairsOf connection) := by
  unfold parse
  rw [cut_withoutScheme]
  rfl

/-! ## Values -/

/-- The text is the word for a truth value. -/
def SpellsFlag (value : String) (b : Bool) : Prop := value = if b then "true" else "false"

/-- The text is a number of 64 bits that is not zero. -/
structure SpellsSize (value : String) (n : Nat) : Prop where
  spells : Decimal.Spells value.toList n
  one_le : 1 ≤ n
  small : n < sizeLimit

theorem SpellsFlag.unique {value : String} {b c : Bool} (hb : SpellsFlag value b)
    (hc : SpellsFlag value c) : b = c := by
  have words : (if b then "true" else "false") = if c then "true" else "false" := hb.symm.trans hc
  revert words
  cases b <;> cases c <;> decide

theorem SpellsSize.unique {value : String} {m n : Nat} (hm : SpellsSize value m)
    (hn : SpellsSize value n) : m = n :=
  hm.spells.value.symm.trans hn.spells.value

/-- A pair has the key of an option. -/
def isOption (pair : String × String) : Bool :=
  pair.1 == "returning" || pair.1 == "max_batch_size"

/-- A pair has the key of no option, or spells a value of its type. -/
structure WellFormed (pair : String × String) : Prop where
  returning : pair.1 = "returning" → ∃ b, SpellsFlag pair.2 b
  maxBatchSize : pair.1 = "max_batch_size" → ∃ n, SpellsSize pair.2 n

/-- The error of a pair that is not well formed. -/
inductive Refuses (pair : String × String) : Error → Prop
  | returning : pair.1 = "returning" → (∀ b, ¬ SpellsFlag pair.2 b) →
      Refuses pair
        { cause := .invalidOptions ("`returning` must be a boolean, got `" ++ pair.2 ++ "`") }
  | zero : pair.1 = "max_batch_size" → Decimal.Spells pair.2.toList 0 →
      Refuses pair { cause := .invalidOptions "`max_batch_size` must be at least 1" }
  | number {defect : Decimal.Defect} : pair.1 = "max_batch_size" →
      Decimal.HasDefect sizeLimit pair.2.toList defect →
        Refuses pair
          { cause := .invalidOptions
              ("`max_batch_size` must be a positive integer, got `" ++ pair.2 ++ "`")
            detail := some (defectText defect) }

theorem readReturning_eq_ok_iff {value : String} {b : Bool} :
    readReturning value = .ok b ↔ SpellsFlag value b := by
  unfold readReturning SpellsFlag
  split
  next isTrue =>
    obtain rfl := eq_of_beq isTrue
    cases b <;> simp
  next notTrue =>
    split
    next isFalse =>
      obtain rfl := eq_of_beq isFalse
      cases b <;> simp
    next notFalse =>
      rw [beq_iff_eq] at notTrue notFalse
      cases b <;> simp [notTrue, notFalse]

theorem readReturning_eq_error {value : String} {e : Error}
    (refused : readReturning value = .error e) :
    e = { cause := .invalidOptions ("`returning` must be a boolean, got `" ++ value ++ "`") } := by
  unfold readReturning at refused
  split at refused
  next => cases refused
  next =>
    split at refused
    next => cases refused
    next => exact (Except.error.inj refused).symm

theorem read_eq_ok_iff {value : String} {n : Nat} :
    Decimal.read sizeLimit value.toList = .ok n ↔ Decimal.Spells value.toList n ∧ n < sizeLimit :=
  Decimal.read_eq_ok_iff (by decide)

theorem read_eq_error_iff {value : String} {defect : Decimal.Defect} :
    Decimal.read sizeLimit value.toList = .error defect ↔
      Decimal.HasDefect sizeLimit value.toList defect :=
  Decimal.read_eq_error_iff (by decide)

theorem readMaxBatchSize_eq_ok_iff {value : String} {n : Nat} :
    readMaxBatchSize value = .ok n ↔ SpellsSize value n := by
  unfold readMaxBatchSize
  split
  next zero =>
    refine iff_of_false (fun read => nomatch read) fun spelt => ?_
    have same := (read_eq_ok_iff.mp zero).1.value.symm.trans spelt.spells.value
    exact absurd spelt.one_le (same ▸ by decide)
  next m positive read =>
    obtain ⟨spells, small⟩ := read_eq_ok_iff.mp read
    constructor
    · intro same
      obtain rfl := Except.ok.inj same
      exact ⟨spells, Nat.pos_of_ne_zero positive, small⟩
    · intro spelt
      exact congrArg Except.ok (spells.value.symm.trans spelt.spells.value)
  next defect wrong =>
    refine iff_of_false (fun read => nomatch read) fun spelt => ?_
    rw [read_eq_ok_iff.mpr ⟨spelt.spells, spelt.small⟩] at wrong
    cases wrong

/-! ## One pair -/

section Except

variable {ε α β : Type} {x : Except ε α} {f : α → β}

theorem exists_of_map_eq_ok {b : β} (h : x.map f = .ok b) : ∃ a, x = .ok a ∧ f a = b := by
  cases x with
  | error e => cases h
  | ok a => exact ⟨a, rfl, Except.ok.inj h⟩

theorem eq_error_of_map_eq_error {e : ε} (h : x.map f = .error e) : x = .error e := by
  cases x with
  | error e => exact congrArg Except.error (Except.error.inj h)
  | ok a => cases h

end Except

variable {o o' o'' : Options} {pair : String × String} {pairs : List (String × String)} {e : Error}

theorem apply_returning (o : Options) (key : pair.1 = "returning") :
    o.apply pair = (readReturning pair.2).map fun b => { o with returning := b } := by
  unfold apply
  rw [key]
  cases readReturning pair.2 <;> rfl

theorem apply_maxBatchSize (o : Options) (key : pair.1 = "max_batch_size") :
    o.apply pair = (readMaxBatchSize pair.2).map fun n => { o with maxBatchSize := n } := by
  unfold apply
  rw [key]
  cases readMaxBatchSize pair.2 <;> rfl

theorem apply_other (o : Options) (key : isOption pair = false) : o.apply pair = .ok o := by
  obtain ⟨notReturning, notSize⟩ := Bool.or_eq_false_iff.mp key
  unfold apply
  rw [notReturning, notSize]
  rfl

/-- The key of a pair is that of one option, of the other one or of none. -/
theorem key_cases (pair : String × String) :
    pair.1 = "returning" ∨ pair.1 = "max_batch_size" ∨ isOption pair = false := by
  by_cases returning : pair.1 = "returning"
  · exact .inl returning
  · by_cases size : pair.1 = "max_batch_size"
    · exact .inr (.inl size)
    · exact .inr (.inr (by simp [isOption, returning, size]))

/-- What a pair does to the options. -/
inductive Sets (o : Options) (pair : String × String) : Options → Prop
  | returning {b : Bool} : pair.1 = "returning" → SpellsFlag pair.2 b →
      Sets o pair { o with returning := b }
  | maxBatchSize {n : Nat} : pair.1 = "max_batch_size" → SpellsSize pair.2 n →
      Sets o pair { o with maxBatchSize := n }
  | other : isOption pair = false → Sets o pair o

theorem sets_of_apply (h : o.apply pair = .ok o') : Sets o pair o' := by
  rcases key_cases pair with key | key | key
  · rw [apply_returning o key] at h
    obtain ⟨b, read, rfl⟩ := exists_of_map_eq_ok h
    exact .returning key (readReturning_eq_ok_iff.mp read)
  · rw [apply_maxBatchSize o key] at h
    obtain ⟨n, read, rfl⟩ := exists_of_map_eq_ok h
    exact .maxBatchSize key (readMaxBatchSize_eq_ok_iff.mp read)
  · rw [apply_other o key] at h
    obtain rfl := Except.ok.inj h
    exact .other key

theorem Sets.wellFormed (h : Sets o pair o') : WellFormed pair := by
  have apart : "returning" ≠ "max_batch_size" := by decide
  cases h with
  | returning key spelt =>
      exact ⟨fun _ => ⟨_, spelt⟩, fun other => absurd (key.symm.trans other) apart⟩
  | maxBatchSize key spelt =>
      exact ⟨fun other => absurd (other.symm.trans key) apart, fun _ => ⟨_, spelt⟩⟩
  | other none =>
      obtain ⟨notReturning, notSize⟩ := Bool.or_eq_false_iff.mp none
      exact ⟨fun key => absurd key (beq_eq_false_iff_ne.mp notReturning),
        fun key => absurd key (beq_eq_false_iff_ne.mp notSize)⟩

/-- A pair is refused if it is not well formed, and then with its error. -/
theorem apply_eq_error_iff : o.apply pair = .error e ↔ Refuses pair e := by
  constructor
  · intro h
    rcases key_cases pair with key | key | key
    · rw [apply_returning o key] at h
      have refused := eq_error_of_map_eq_error h
      obtain rfl := readReturning_eq_error refused
      refine .returning key fun b spelt => ?_
      rw [readReturning_eq_ok_iff.mpr spelt] at refused
      cases refused
    · rw [apply_maxBatchSize o key] at h
      have refused := eq_error_of_map_eq_error h
      unfold readMaxBatchSize at refused
      split at refused
      next zero =>
        obtain rfl := Except.error.inj refused
        exact .zero key (read_eq_ok_iff.mp zero).1
      next => cases refused
      next defect wrong =>
        obtain rfl := Except.error.inj refused
        exact .number key (read_eq_error_iff.mp wrong)
    · rw [apply_other o key] at h
      cases h
  · intro refused
    cases refused with
    | returning key none =>
        rw [apply_returning o key]
        cases read : readReturning pair.2 with
        | ok b => exact absurd (readReturning_eq_ok_iff.mp read) (none b)
        | error e => rw [readReturning_eq_error read]; rfl
    | zero key spells =>
        have read := read_eq_ok_iff.mpr ⟨spells, by decide⟩
        rw [apply_maxBatchSize o key, readMaxBatchSize, read]
        rfl
    | number key defect =>
        have read := read_eq_error_iff.mpr defect
        rw [apply_maxBatchSize o key, readMaxBatchSize, read]
        rfl

theorem exists_refuses_iff : (∃ e, Refuses pair e) ↔ ¬ WellFormed pair := by
  constructor
  · rintro ⟨e, refused⟩ formed
    cases refused with
    | returning key none =>
        obtain ⟨b, spelt⟩ := formed.returning key
        exact none b spelt
    | zero key spells =>
        obtain ⟨n, spelt⟩ := formed.maxBatchSize key
        have same := spells.value.symm.trans spelt.spells.value
        exact absurd spelt.one_le (same ▸ by decide)
    | number key defect =>
        obtain ⟨n, spelt⟩ := formed.maxBatchSize key
        have read := read_eq_error_iff.mpr defect
        rw [read_eq_ok_iff.mpr ⟨spelt.spells, spelt.small⟩] at read
        cases read
  · intro malformed
    cases result : apply {} pair with
    | ok o' => exact absurd (sets_of_apply result).wellFormed malformed
    | error e => exact ⟨e, apply_eq_error_iff.mp result⟩

/-! ## Rows of pairs -/

theorem applyAll_cons (o : Options) (pair : String × String) (pairs : List (String × String)) :
    o.applyAll (pair :: pairs) = o.apply pair >>= fun o' => o'.applyAll pairs := rfl

theorem applyAll_append_singleton (o : Options) (pairs : List (String × String))
    (pair : String × String) :
    o.applyAll (pairs ++ [pair]) = o.applyAll pairs >>= fun o' => o'.apply pair := by
  induction pairs generalizing o with
  | nil =>
      have single : o.applyAll [pair] = o.apply pair := by
        rw [applyAll_cons]
        cases o.apply pair <;> rfl
      exact single
  | cons first rest ih =>
      rw [List.cons_append, applyAll_cons, applyAll_cons]
      cases o.apply first with
      | error e => rfl
      | ok o' => exact ih o'

/-- Pairs that are no options count for nothing. -/
theorem applyAll_filter (o : Options) (pairs : List (String × String)) :
    o.applyAll (pairs.filter isOption) = o.applyAll pairs := by
  induction pairs generalizing o with
  | nil => rfl
  | cons pair rest ih =>
      by_cases key : isOption pair = true
      · rw [List.filter_cons_of_pos key, applyAll_cons, applyAll_cons]
        exact congrArg (o.apply pair >>= ·) (funext ih)
      · rw [List.filter_cons_of_neg key, ih, applyAll_cons, apply_other o (by simpa using key)]
        rfl

/-- The first pair of a row that is not well formed, with its error. -/
def FirstRefused (pairs : List (String × String)) (e : Error) : Prop :=
  ∃ before pair after, pairs = before ++ pair :: after ∧
    (∀ p ∈ before, WellFormed p) ∧ Refuses pair e

/-- The error of a row is that of its first pair that is not well formed. -/
theorem applyAll_eq_error_iff : o.applyAll pairs = .error e ↔ FirstRefused pairs e := by
  constructor
  · intro h
    induction pairs generalizing o with
    | nil => cases h
    | cons first rest ih =>
        rw [applyAll_cons] at h
        cases result : o.apply first with
        | error e' =>
            rw [result] at h
            obtain rfl := Except.error.inj h
            exact ⟨[], first, rest, rfl, by simp, apply_eq_error_iff.mp result⟩
        | ok o' =>
            rw [result] at h
            obtain ⟨before, pair, after, rfl, formed, refused⟩ := ih h
            exact ⟨first :: before, pair, after, rfl,
              List.forall_mem_cons.mpr ⟨(sets_of_apply result).wellFormed, formed⟩, refused⟩
  · rintro ⟨before, pair, after, rfl, formed, refused⟩
    induction before generalizing o with
    | nil => rw [List.nil_append, applyAll_cons, apply_eq_error_iff.mpr refused]; rfl
    | cons first rest ih =>
        obtain ⟨firstFormed, later⟩ := List.forall_mem_cons.mp formed
        rw [List.cons_append, applyAll_cons]
        cases result : o.apply first with
        | error e' =>
            exact absurd firstFormed (exists_refuses_iff.mp ⟨e', apply_eq_error_iff.mp result⟩)
        | ok o' => exact ih later

theorem exists_firstRefused_iff :
    (∃ e, FirstRefused pairs e) ↔ ∃ pair ∈ pairs, ¬ WellFormed pair := by
  constructor
  · rintro ⟨e, before, pair, after, rfl, -, refused⟩
    exact ⟨pair, by simp, exists_refuses_iff.mp ⟨e, refused⟩⟩
  · intro malformed
    induction pairs with
    | nil => simp at malformed
    | cons first rest ih =>
        by_cases formed : WellFormed first
        · obtain ⟨pair, mem, bad⟩ := malformed
          have later : pair ∈ rest :=
            (List.mem_cons.mp mem).resolve_left fun same => bad (same ▸ formed)
          obtain ⟨e, before, pair, after, rfl, all, refused⟩ := ih ⟨pair, later, bad⟩
          exact ⟨e, first :: before, pair, after, rfl,
            List.forall_mem_cons.mpr ⟨formed, all⟩, refused⟩
        · obtain ⟨e, refused⟩ := exists_refuses_iff.mpr formed
          exact ⟨e, [], first, rest, rfl, by simp, refused⟩

/-! ## Last values -/

/-- The values that a row gives for a key. -/
def values (key : String) (pairs : List (String × String)) : List String :=
  (pairs.filter fun pair => pair.1 == key).map Prod.snd

theorem values_append_singleton (key : String) (pairs : List (String × String))
    (pair : String × String) :
    values key (pairs ++ [pair]) =
      values key pairs ++ if pair.1 = key then [pair.2] else [] := by
  unfold values
  rw [List.filter_append, List.map_append]
  by_cases same : pair.1 = key <;> simp [same]

/-- The last of some values counts, and the default if there is none. -/
inductive Chosen {α : Type} (spells : String → α → Prop) (default : α) : List String → α → Prop
  | default : Chosen spells default [] default
  | last {value : String} {x : α} (before : List String) : spells value x →
      Chosen spells default (before ++ [value]) x

theorem Chosen.unique {α : Type} {spells : String → α → Prop} {default x y : α}
    {values : List String} (hx : Chosen spells default values x)
    (hy : Chosen spells default values y)
    (unique : ∀ value x y, spells value x → spells value y → x = y) : x = y := by
  generalize same : values = values' at hy
  cases hx with
  | default =>
      cases hy with
      | default => rfl
      | last before spelt => simp at same
  | last before spelt =>
      cases hy with
      | default => simp at same
      | last before' spelt' =>
          obtain ⟨-, lasts⟩ := List.append_inj' same rfl
          obtain rfl := List.singleton_inj.mp lasts
          exact unique _ _ _ spelt spelt'

/-- The options that a row of well-formed pairs leads to. -/
structure Reaches (o : Options) (pairs : List (String × String)) (o' : Options) : Prop where
  filePath : o'.filePath = o.filePath
  returning : Chosen SpellsFlag o.returning (values "returning" pairs) o'.returning
  maxBatchSize : Chosen SpellsSize o.maxBatchSize (values "max_batch_size" pairs) o'.maxBatchSize

theorem Reaches.step (h : Reaches o pairs o') (next : Sets o' pair o'') :
    Reaches o (pairs ++ [pair]) o'' := by
  have apart : "returning" ≠ "max_batch_size" := by decide
  obtain ⟨filePath, returning, size⟩ := h
  cases next with
  | returning key spelt =>
      refine ⟨filePath, ?_, ?_⟩
      · rw [values_append_singleton, if_pos key]
        exact .last _ spelt
      · rwa [values_append_singleton, key, if_neg apart, List.append_nil]
  | maxBatchSize key spelt =>
      refine ⟨filePath, ?_, ?_⟩
      · rwa [values_append_singleton, key, if_neg apart.symm, List.append_nil]
      · rw [values_append_singleton, if_pos key]
        exact .last _ spelt
  | other none =>
      obtain ⟨notReturning, notSize⟩ := Bool.or_eq_false_iff.mp none
      refine ⟨filePath, ?_, ?_⟩
      · rwa [values_append_singleton, if_neg (beq_eq_false_iff_ne.mp notReturning),
          List.append_nil]
      · rwa [values_append_singleton, if_neg (beq_eq_false_iff_ne.mp notSize), List.append_nil]

theorem reaches_applyAll (h : o.applyAll pairs = .ok o') : Reaches o pairs o' := by
  induction pairs using List.reverseRecOn generalizing o' with
  | nil =>
      obtain rfl := Except.ok.inj h
      exact ⟨rfl, .default, .default⟩
  | append_singleton before pair ih =>
      rw [applyAll_append_singleton] at h
      cases result : o.applyAll before with
      | error e =>
          rw [result] at h
          cases h
      | ok between =>
          rw [result] at h
          exact (ih result).step (sets_of_apply h)

theorem Reaches.unique (h : Reaches o pairs o') (h' : Reaches o pairs o'') : o' = o'' := by
  obtain ⟨path, flag, size⟩ := o'
  obtain ⟨path', flag', size'⟩ := o''
  obtain rfl : path = path' := h.filePath.trans h'.filePath.symm
  obtain rfl : flag = flag' := h.returning.unique h'.returning fun _ _ _ => SpellsFlag.unique
  obtain rfl : size = size' := h.maxBatchSize.unique h'.maxBatchSize fun _ _ _ => SpellsSize.unique
  rfl

/-- The size stays between one and the greatest number of 64 bits. -/
theorem Chosen.size_bounds {default n : Nat} {values : List String}
    (h : Chosen SpellsSize default values n) (one_le : 1 ≤ default) (small : default < sizeLimit) :
    1 ≤ n ∧ n < sizeLimit := by
  cases h with
  | default => exact ⟨one_le, small⟩
  | last before spelt => exact ⟨spelt.one_le, spelt.small⟩

/-! ## Connection strings -/

/-- The options that a connection string asks for. -/
structure Asks (connection : String) (o : Options) : Prop where
  filePath : o.filePath = pathOf connection
  returning : Chosen SpellsFlag false (values "returning" (pairsOf connection)) o.returning
  maxBatchSize :
    Chosen SpellsSize 128 (values "max_batch_size" (pairsOf connection)) o.maxBatchSize

theorem parse_eq_error_iff {connection : String} :
    parse connection = .error e ↔ FirstRefused (pairsOf connection) e := by
  rw [parse_eq]
  exact applyAll_eq_error_iff

theorem parse_eq_ok_iff {connection : String} :
    parse connection = .ok o ↔
      (∀ pair ∈ pairsOf connection, WellFormed pair) ∧ Asks connection o := by
  have reached {o : Options} (parsed : parse connection = .ok o) :
      Reaches { filePath := pathOf connection } (pairsOf connection) o :=
    reaches_applyAll (parse_eq connection ▸ parsed)
  constructor
  · intro parsed
    refine ⟨fun pair mem => Classical.byContradiction fun malformed => ?_, ?_⟩
    · obtain ⟨e, refused⟩ := exists_firstRefused_iff.mpr ⟨pair, mem, malformed⟩
      rw [parse_eq_error_iff.mpr refused] at parsed
      cases parsed
    · obtain ⟨filePath, returning, size⟩ := reached parsed
      exact ⟨filePath, returning, size⟩
  · rintro ⟨formed, asked⟩
    cases result : parse connection with
    | error e =>
        obtain ⟨pair, mem, malformed⟩ :=
          exists_firstRefused_iff.mp ⟨e, parse_eq_error_iff.mp result⟩
        exact absurd (formed pair mem) malformed
    | ok o' =>
        have same : Reaches { filePath := pathOf connection } (pairsOf connection) o :=
          ⟨asked.filePath, asked.returning, asked.maxBatchSize⟩
        rw [(reached result).unique same]

/-- Errors of pairs are invalid options. -/
theorem Refuses.cause (h : Refuses pair e) : ∃ text, e.cause = .invalidOptions text := by
  cases h <;> exact ⟨_, rfl⟩

end Options

/-- A batch with room takes any first change. -/
theorem Provider.exists_createBatch {p : Provider} (room : 1 ≤ p.options.maxBatchSize) :
    ∃ b, p.createBatch = .ok b ∧ ∀ change, ∃ b', b.add change = .ok b' := by
  have some_ : p.options.maxBatchSize ≠ 0 := Nat.one_le_iff_ne_zero.mp room
  refine ⟨{ generator := p.generator, capacity := p.options.maxBatchSize }, ?_, fun change => ?_⟩
  · exact if_neg some_
  · have notFull : Batch.isFull { generator := p.generator, capacity := p.options.maxBatchSize } =
        false := decide_eq_false (Nat.not_le.mpr room)
    rw [Batch.add_eq, notFull]
    exact ⟨_, rfl⟩

/-- A connection string is refused as invalid, or gives a provider whose batches hold a change at
least.  It is refused if and only if some pair is not well formed, with the error of the first such
pair.  Otherwise each option has its last value or its default.  Pairs that are no options change
nothing. -/
theorem Options.parse_decides (connection : String) :
    ((∃ e text, parse connection = .error e ∧ e.cause = .invalidOptions text) ∨
      ∃ o b, parse connection = .ok o ∧ 1 ≤ o.maxBatchSize ∧ o.maxBatchSize < sizeLimit ∧
        Provider.connect connection = .ok ⟨o⟩ ∧ Provider.createBatch ⟨o⟩ = .ok b ∧
        ∀ change, ∃ b', b.add change = .ok b') ∧
    ((∃ e, parse connection = .error e) ↔ ∃ pair ∈ pairsOf connection, ¬ WellFormed pair) ∧
    (∀ e, parse connection = .error e ↔ FirstRefused (pairsOf connection) e) ∧
    (∀ o, parse connection = .ok o ↔
      (∀ pair ∈ pairsOf connection, WellFormed pair) ∧ Asks connection o) ∧
    ∀ other, pathOf other = pathOf connection →
      (pairsOf other).filter isOption = (pairsOf connection).filter isOption →
        parse other = parse connection := by
  refine ⟨?outcome, ?refused, fun e => parse_eq_error_iff, fun o => parse_eq_ok_iff, ?others⟩
  case outcome =>
    cases result : parse connection with
    | error e =>
        obtain ⟨before, pair, after, -, -, refused⟩ := parse_eq_error_iff.mp result
        obtain ⟨text, cause⟩ := refused.cause
        exact .inl ⟨e, text, rfl, cause⟩
    | ok o =>
        obtain ⟨-, asked⟩ := parse_eq_ok_iff.mp result
        obtain ⟨one_le, small⟩ := asked.maxBatchSize.size_bounds (by decide) (by decide)
        obtain ⟨b, created, takes⟩ := Provider.exists_createBatch (p := ⟨o⟩) one_le
        have connected : Provider.connect connection = .ok ⟨o⟩ := by
          rw [Provider.connect, result]
          rfl
        exact .inr ⟨o, b, rfl, one_le, small, connected, created, takes⟩
  case refused =>
    rw [← exists_firstRefused_iff]
    exact exists_congr fun e => parse_eq_error_iff
  case others =>
    intro other path options
    rw [parse_eq, parse_eq, path, ← applyAll_filter, options, applyAll_filter]

/-- A pair in front of an option that is none itself. -/
theorem Options.parse_decides_mode :
    parse "dev.db?mode=rwc&returning=true" = parse "dev.db?returning=true" :=
  (parse_decides "dev.db?returning=true").2.2.2.2 _ (by decide +kernel) (by decide +kernel)

end SqlGen.Sqlite
