import SqlGen.Proofs.Sqlite.Options

/-!
# Options written as a connection string

`Options.connection` writes options as a connection string.  Pairs of plain characters are read
back from their pieces (`Text.Form.pairs_intercalate`), so flag and size come back as they were.  In
front of the path not one scheme is left out but all that stand there, so the path comes back only
if it does not begin with the scheme itself (`Options.parse_connection`).
-/

namespace SqlGen

/-! ## Plain pairs -/

namespace Text.Form

/-- A character that stands for itself, and neither ends a key nor a value. -/
def isPlain (c : Char) : Bool :=
  decide (c.val ≤ 127) && c != '%' && c != '+' && c != '&' && c != '='

/-- The piece of a pair. -/
def piece (pair : String × String) : String := pair.1 ++ "=" ++ pair.2

/-- A pair of plain characters. -/
structure IsPlain (pair : String × String) : Prop where
  key : pair.1.toList.all isPlain = true
  value : pair.2.toList.all isPlain = true

theorem isPlain_of_isDigit {c : Char} (digit : c.isDigit = true) : isPlain c = true := by
  have other (mark : Char) (noDigit : mark.isDigit = false) : (c != mark) = true := by
    rw [bne_iff_ne]
    rintro rfl
    exact absurd digit (Bool.not_eq_true _ ▸ noDigit)
  have ascii : c.val ≤ 127 := by
    simp only [Char.isDigit, Bool.and_eq_true, decide_eq_true_eq] at digit
    exact UInt32.le_trans digit.2 (by decide)
  rw [isPlain, decide_eq_true ascii, other '%' rfl, other '+' rfl, other '&' rfl, other '=' rfl]
  rfl

theorem bytes_cons {c : Char} (plain : isPlain c = true) (rest : List Char) :
    bytes (c :: rest) = c.val.toUInt8 :: bytes rest := by
  simp only [isPlain, Bool.and_eq_true, decide_eq_true_eq, bne_iff_ne] at plain
  obtain ⟨⟨⟨⟨ascii, noPercent⟩, noPlus⟩, -⟩, -⟩ := plain
  have single : String.utf8EncodeChar c = [c.val.toUInt8] :=
    String.utf8EncodeChar_eq_singleton (Char.utf8Size_eq_one_iff.mpr ascii)
  rw [bytes.eq_def]
  split
  next same => exact absurd (List.cons.inj same).1 noPercent
  next same => exact absurd (List.cons.inj same).1 noPlus
  next same =>
    obtain ⟨rfl, rfl⟩ := List.cons.inj same
    rw [single]
    rfl
  next same => cases same

theorem decode_bytes {text : List Char} (plain : text.all isPlain = true) :
    Utf8.decode (bytes text) = text := by
  induction text with
  | nil => rfl
  | cons c rest ih =>
      obtain ⟨first, later⟩ := Bool.and_eq_true_iff.mp plain
      have ascii : c.val ≤ 127 := by
        simp only [isPlain, Bool.and_eq_true, decide_eq_true_eq] at first
        exact first.1.1.1.1
      have small : c.toNat ≤ 127 := ascii
      have byte : c.val.toUInt8.toNat = c.toNat := by
        show c.toNat % 256 = c.toNat
        omega
      rw [bytes_cons first, Utf8.decode_cons_of_lt (by omega), byte, Char.ofNat_toNat, ih later]

theorem decode_of_plain {s : String} (plain : s.toList.all isPlain = true) :
    decode s.toList = s := by
  rw [decode, decode_bytes plain, String.ofList_toList]

theorem not_mem_of_plain {mark : Char} (other : isPlain mark = false) {text : List Char}
    (plain : text.all isPlain = true) : mark ∉ text := by
  intro mem
  have := List.all_eq_true.mp plain mark mem
  rw [other] at this
  cases this

theorem toList_piece (p : String × String) :
    (piece p).toList = p.1.toList ++ '=' :: p.2.toList := by
  simp [piece]

theorem pair_piece {p : String × String} (plain : IsPlain p) : pair (piece p).toList = p := by
  have noMark : '=' ∉ p.1.toList := not_mem_of_plain (by decide) plain.key
  rw [pair, toList_piece, cut_append _ noMark]
  exact Prod.ext (decode_of_plain plain.key) (decode_of_plain plain.value)

theorem not_mem_piece {p : String × String} (plain : IsPlain p) : '&' ∉ (piece p).toList := by
  have notKey : '&' ∉ p.1.toList := not_mem_of_plain (by decide) plain.key
  have notValue : '&' ∉ p.2.toList := not_mem_of_plain (by decide) plain.value
  rw [toList_piece]
  simp [notKey, notValue]

/-- Plain pairs are read back from their pieces. -/
theorem pairs_intercalate {ps : List (String × String)} (plain : ∀ p ∈ ps, IsPlain p) :
    pairs (String.intercalate "&" (ps.map piece)).toList = ps := by
  by_cases empty : ps = []
  · subst empty
    rfl
  · have apart : ∀ l ∈ ps.map fun p => (piece p).toList, '&' ∉ l :=
      List.forall_mem_map.mpr fun p mem => not_mem_piece (plain p mem)
    have split : (String.intercalate "&" (ps.map piece)).toList.splitOn '&' =
        ps.map fun p => (piece p).toList := by
      rw [String.toList_intercalate, List.map_map]
      exact List.splitOn_intercalate '&' apart (by simpa using empty)
    have filled : ∀ l ∈ ps.map fun p => (piece p).toList, (!l.isEmpty) = true :=
      List.forall_mem_map.mpr fun p _ => by simp [toList_piece]
    have read : ∀ p ∈ ps, (pair ∘ fun p => (piece p).toList) p = id p :=
      fun p mem => pair_piece (plain p mem)
    rw [pairs, split, List.filter_eq_self.mpr filled, List.map_map, List.map_congr_left read,
      List.map_id]

end Text.Form

namespace Sqlite.Options

variable {o : Options}

/-! ## Schemes in front of a path -/

theorem not_scheme_prefix_withoutScheme (text : List Char) : ¬ scheme <+: withoutScheme text := by
  fun_induction withoutScheme text with
  | case1 rest ih => exact ih
  | case2 text other =>
      rintro ⟨rest, whole⟩
      exact other rest whole.symm

theorem withoutScheme_eq_self_iff {text : List Char} :
    withoutScheme text = text ↔ ¬ scheme <+: text :=
  ⟨fun same => same ▸ not_scheme_prefix_withoutScheme text, withoutScheme_of_bare⟩

/-! ## Connection strings -/

/-- The word for a truth value. -/
def flagText (b : Bool) : String := if b then "true" else "false"

/-- The connection string that names all of some options. -/
def connection (o : Options) : String :=
  "file:" ++ o.filePath ++ "?returning=" ++ flagText o.returning ++
    "&max_batch_size=" ++ Decimal.natural o.maxBatchSize

/-- The options that a connection string can name. -/
structure Expressible (o : Options) : Prop where
  noQuery : '?' ∉ o.filePath.toList
  one_le : 1 ≤ o.maxBatchSize
  small : o.maxBatchSize < sizeLimit

/-- The options as pairs. -/
def named (o : Options) : List (String × String) :=
  [("returning", flagText o.returning), ("max_batch_size", Decimal.natural o.maxBatchSize)]

theorem isPlain_named (o : Options) : ∀ p ∈ o.named, Text.Form.IsPlain p := by
  have flag : (flagText o.returning).toList.all Text.Form.isPlain = true := by
    cases o.returning <;> rfl
  have size : (Decimal.natural o.maxBatchSize).toList.all Text.Form.isPlain = true := by
    rw [Decimal.natural, String.toList_ofList, List.all_eq_true]
    intro c mem
    exact Text.Form.isPlain_of_isDigit
      (Nat.isDigit_of_mem_toDigits (by decide) (by decide) mem)
  have keys : "returning".toList.all Text.Form.isPlain = true ∧
      "max_batch_size".toList.all Text.Form.isPlain = true := by decide
  intro p mem
  rcases List.mem_pair.mp mem with rfl | rfl
  · exact ⟨keys.1, flag⟩
  · exact ⟨keys.2, size⟩

theorem toList_connection (o : Options) :
    o.connection.toList = scheme ++ o.filePath.toList ++
      '?' :: (String.intercalate "&" (o.named.map Text.Form.piece)).toList := by
  simp [connection, named, Text.Form.piece, scheme]

theorem cut_connection (ho : o.Expressible) :
    Text.cut '?' o.connection.toList = (scheme ++ o.filePath.toList,
      some (String.intercalate "&" (o.named.map Text.Form.piece)).toList) := by
  have noMark : '?' ∉ scheme ++ o.filePath.toList := by
    simp [scheme, ho.noQuery]
  rw [toList_connection, Text.cut_append _ noMark]

theorem pathOf_connection (ho : o.Expressible) :
    pathOf o.connection = String.ofList (withoutScheme o.filePath.toList) := by
  rw [pathOf, cut_connection ho, withoutScheme_scheme]

theorem pairsOf_connection (ho : o.Expressible) : pairsOf o.connection = o.named := by
  rw [pairsOf, cut_connection ho]
  exact Text.Form.pairs_intercalate o.isPlain_named

/-- All but the schemes in front of the path is read back. -/
theorem parse_connection_eq (ho : o.Expressible) :
    parse o.connection =
      .ok { o with filePath := String.ofList (withoutScheme o.filePath.toList) } := by
  have flag : readReturning (flagText o.returning) = .ok o.returning :=
    readReturning_eq_ok_iff.mpr rfl
  have size : readMaxBatchSize (Decimal.natural o.maxBatchSize) = .ok o.maxBatchSize :=
    readMaxBatchSize_eq_ok_iff.mpr ⟨Decimal.spells_natural _, ho.one_le, ho.small⟩
  rw [parse_eq, pathOf_connection ho, pairsOf_connection ho, named, applyAll_cons,
    apply_returning _ rfl, flag]
  show applyAll _ _ = _
  rw [applyAll_cons, apply_maxBatchSize _ rfl, size]
  rfl

/-- The connection string of some options is accepted, and all but the path comes back as it was.
The path does so if and only if it does not begin with the scheme.  Two connection strings are
taken for one another if they name the same flag and size, and the same path behind the schemes. -/
theorem parse_connection (ho : o.Expressible) :
    parse o.connection =
      .ok { o with filePath := String.ofList (withoutScheme o.filePath.toList) } ∧
    (parse o.connection = .ok o ↔ ¬ scheme <+: o.filePath.toList) ∧
    ∀ o' : Options, o'.Expressible →
      (parse o.connection = parse o'.connection ↔
        withoutScheme o.filePath.toList = withoutScheme o'.filePath.toList ∧
          o.returning = o'.returning ∧ o.maxBatchSize = o'.maxBatchSize) := by
  refine ⟨parse_connection_eq ho, ?_, fun o' ho' => ?_⟩
  · rw [parse_connection_eq ho, ← withoutScheme_eq_self_iff]
    constructor
    · intro same
      have path : String.ofList (withoutScheme o.filePath.toList) = o.filePath :=
        congrArg filePath (Except.ok.inj same)
      rw [← String.toList_inj, String.toList_ofList] at path
      exact path
    · intro kept
      rw [kept, String.ofList_toList]
  · rw [parse_connection_eq ho, parse_connection_eq ho', Except.ok.injEq, mk.injEq,
      String.ofList_inj]

/-- The marks of the encoding, and a scheme behind the front, are part of a path. -/
theorem parse_connection_marks :
    parse "file:a/%41+b&c=d#file:日本.db?returning=true&max_batch_size=18446744073709551615" =
      .ok ⟨"a/%41+b&c=d#file:日本.db", true, 18446744073709551615⟩ := by
  have ho : Expressible ⟨"a/%41+b&c=d#file:日本.db", true, 18446744073709551615⟩ :=
    ⟨by decide, by decide, by decide⟩
  exact (parse_connection ho).2.1.mpr (by decide)

/-- A file whose own name begins with the scheme is taken for another file. -/
theorem parse_connection_schemeTwice :
    Expressible ⟨"file:app.db", true, 64⟩ ∧ Expressible ⟨"app.db", true, 64⟩ ∧
      parse (connection ⟨"file:app.db", true, 64⟩) = .ok ⟨"app.db", true, 64⟩ ∧
      parse (connection ⟨"file:app.db", true, 64⟩) ≠ .ok ⟨"file:app.db", true, 64⟩ ∧
      parse (connection ⟨"file:app.db", true, 64⟩) = parse (connection ⟨"app.db", true, 64⟩) := by
  have twice : Expressible ⟨"file:app.db", true, 64⟩ := ⟨by decide, by decide, by decide⟩
  have once : Expressible ⟨"app.db", true, 64⟩ := ⟨by decide, by decide, by decide⟩
  have result : parse (connection ⟨"file:app.db", true, 64⟩) = .ok ⟨"app.db", true, 64⟩ :=
    parse_connection_eq twice
  refine ⟨twice, once, result, ?_, result.trans (parse_connection_eq once).symm⟩
  rw [result]
  decide

end Sqlite.Options

end SqlGen
