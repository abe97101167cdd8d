import SqlGen.Expr.Print
import SqlGen.Proofs.Pass.Success
import SqlGen.Proofs.Reading.Words
import SqlGen.Sqlite.Types

/-!
# Literals that are NULL

The standard has a literal for every value but the reals that are no numbers, and writes NULL for
these.  So a constant may be printed as a NULL without being one
(`Dialect.PlainLiterals.literal_eq_null_iff`).

`Expr.asWritten` is the tree that a reader of the printed text sees: a constant that is printed as a
NULL is one.  The text of the two trees is the same (`Expr.printsAlike_asWritten`).
-/

namespace SqlGen

/-! ## Values -/

/-- The value is a real that is no number. -/
def Value.isNaN : Value → Bool
  | .real bits => Decimal.Binary64.ofBits bits == .nan
  | _ => false

/-- A dialect with the literals of the standard, whose words for truth values are not NULL. -/
structure Dialect.PlainLiterals (d : Dialect) : Prop where
  literal : d.literal = Standard.literal d.boolean
  boolean (b : Bool) : d.boolean b ≠ "NULL"

theorem Dialect.plainLiterals_ansi : Dialect.ansi.PlainLiterals where
  literal := rfl
  boolean b := by cases b <;> decide

theorem Sqlite.plainLiterals_dialect (returning : Bool) :
    (Sqlite.dialect returning).PlainLiterals where
  literal := rfl
  boolean b := by cases b <;> simp [Sqlite.dialect]

/-- A text that starts with another character is not NULL. -/
theorem ne_null_of_head? {s : String} {c : Char} (first : s.toList.head? = some c)
    (other : c ≠ 'N') : s ≠ "NULL" := by
  rintro rfl
  exact other (Option.some.inj first).symm

open Reading in
theorem signed_ne_null {text : List Char} (h : IsNumber text) (negative : Bool) :
    String.ofList (if negative then '-' :: text else text) ≠ "NULL" := by
  obtain ⟨c, rest, rfl, numeral, -⟩ := h
  have letter : 'N' ∉ numerals := by decide
  cases negative with
  | true => exact ne_null_of_head? (c := '-') (by simp) (by decide)
  | false => exact ne_null_of_head? (c := c) (by simp) fun same => letter (same ▸ numeral)

open Reading in
theorem integer_ne_null (i : Int) : Decimal.integer i ≠ "NULL" := by
  unfold Decimal.integer
  split
  next => exact ne_null_of_head? (c := '-') (by simp) (by decide)
  next => exact signed_ne_null (isNumber_digits i.natAbs) false

open Reading in
theorem realLiteral_eq_null_iff (bits : UInt64) :
    Standard.realLiteral bits = "NULL" ↔ Value.isNaN (.real bits) = true := by
  unfold Standard.realLiteral Value.isNaN
  cases number : Decimal.Binary64.ofBits bits with
  | nan => simp [number]
  | infinite negative => cases negative <;> simp [number]
  | finite negative m q =>
      have other := signed_ne_null (isNumber_magnitude m q) negative
      simpa [number, Decimal.real] using other

/-- The literals that are NULL are those of NULL and of the reals that are no numbers. -/
theorem Dialect.PlainLiterals.literal_eq_null_iff {d : Dialect} (plain : d.PlainLiterals)
    (v : Value) : d.literal v = "NULL" ↔ v = .null ∨ v.isNaN = true := by
  rw [plain.literal]
  cases v with
  | null => simp [Standard.literal]
  | boolean b => simpa [Standard.literal, Value.isNaN] using plain.boolean b
  | integer i => simpa [Standard.literal, Value.isNaN] using integer_ne_null i.toInt
  | real bits => simpa [Standard.literal] using realLiteral_eq_null_iff bits
  | text s =>
      have other : Text.quote '\'' '\'' s ≠ "NULL" :=
        ne_null_of_head? (c := '\'') (by simp) (by decide)
      simpa [Standard.literal, Value.isNaN] using other
  | bytes content =>
      have other : Standard.bytesLiteral content ≠ "NULL" :=
        ne_null_of_head? (c := 'X') (by simp [Standard.bytesLiteral]) (by decide)
      simpa [Standard.literal, Value.isNaN] using other

/-! ## Trees that print alike -/

namespace Expr

/-- Two trees have the same document, and any node is printed the same way over one of them as over
the other. -/
structure PrintsAlike (d : Dialect) (x y : Expr) : Prop where
  doc : x.doc d = y.doc d
  precedence : x.precedence = y.precedence
  isBinary (op : BinaryOp) : x.isBinary op = y.isBinary op
  startsWithMinus : x.startsWithMinus d = y.startsWithMinus d

variable {d : Dialect} {e e' : Expr} {h : Expr → Expr}

/-- A node over children that print like those before prints like the node before. -/
theorem printsAlike_rebuilt (children : ∀ c ∈ e.children, PrintsAlike d (h c) c)
    (rebuilt : e.withSlots (e.slots.map h) = .ok e') : PrintsAlike d e' e := by
  cases e with
  | call f args =>
      obtain ⟨-, rfl⟩ := withSlots_call rebuilt
      have docs : (args.map h).map (Expr.doc d) = args.map (Expr.doc d) := by
        rw [List.map_map]
        exact List.map_congr_left fun c mem => (children c mem).doc
      exact ⟨by simp only [Expr.doc, docs_eq_map, docs], rfl, fun _ => rfl, rfl⟩
  | binary op l r t =>
      obtain rfl := Except.ok.inj rebuilt
      have left := children l List.mem_cons_self
      have right := children r (List.mem_cons_of_mem l List.mem_cons_self)
      refine ⟨?_, rfl, fun _ => rfl, rfl⟩
      simp only [Expr.doc, enclosesLeft, enclosesRight, left.doc, left.precedence, right.doc,
        right.precedence, right.isBinary]
  | unary op x t =>
      obtain rfl := Except.ok.inj rebuilt
      have operand := children x List.mem_cons_self
      refine ⟨?_, rfl, fun _ => rfl, rfl⟩
      simp only [Expr.doc, enclosesOperand, operand.doc, operand.precedence,
        operand.startsWithMinus]
  | join k t p =>
      obtain rfl := Except.ok.inj rebuilt
      have table := children t List.mem_cons_self
      have predicate := children p (List.mem_cons_of_mem t List.mem_cons_self)
      exact ⟨by simp only [Expr.doc, table.doc, predicate.doc], rfl, fun _ => rfl, rfl⟩
  | crossJoin x | projection x a | ordering x a | collate x c =>
      obtain rfl := Except.ok.inj rebuilt
      have operand := children x List.mem_cons_self
      exact ⟨by simp only [Expr.doc, operand.doc], rfl, fun _ => rfl, rfl⟩
  | select q =>
      obtain rfl := Except.ok.inj rebuilt
      have slots : ((Slots.select q.toClauses).map h).map (Expr.doc d) =
          (Slots.select q.toClauses).map (Expr.doc d) := by
        rw [Slots.map_map]
        exact Slots.map_congr fun c mem => (children c mem).doc
      have clauses := Slots.select.inj slots
      refine ⟨?_, rfl, fun _ => rfl, rfl⟩
      simp only [Expr.doc, docSelect_eq, clauses]
  | setOperation op a l r distinct =>
      obtain ⟨l', r', hl, hr, rfl⟩ := withSlots_setOperation rebuilt
      have left := (children _ List.mem_cons_self).doc
      have right := (children _ (List.mem_cons_of_mem _ List.mem_cons_self)).doc
      rw [hl] at left
      rw [hr] at right
      simp only [Expr.doc] at left right
      exact ⟨by simp only [Expr.doc, left, right], rfl, fun _ => rfl, rfl⟩
  | _ =>
      obtain rfl := Except.ok.inj rebuilt
      exact ⟨rfl, rfl, fun _ => rfl, rfl⟩

end Expr

/-! ## Constants that are printed as NULL -/

/-- Puts NULL in the place of each constant that is printed as a NULL. -/
def Pass.asWritten (d : Dialect) : Pass where
  replace
    | .constant v t => if d.literal v = "NULL" then some (.constant .null t) else none
    | _ => none

theorem Pass.keepsSelects_asWritten (d : Dialect) : (Pass.asWritten d).KeepsSelects where
  replace _ := rfl
  finish q := ⟨q, rfl⟩

namespace Expr

/-- The tree that a reader of the printed text of a tree sees. -/
def asWritten (d : Dialect) (e : Expr) : Expr := e.after (.asWritten d)

/-- A node that is not printed as a NULL, or a constant that is and has become one. -/
theorem asWritten_cases {d : Dialect} {e : Expr} (flags : e.AllFlagsMatch) :
    (∃ v t, e = .constant v t ∧ d.literal v = "NULL" ∧ e.asWritten d = .constant .null t) ∨
      e.withSlots (e.slots.map (asWritten d)) = .ok (e.asWritten d) := by
  cases replaced : (Pass.asWritten d).replace e with
  | some result =>
      left
      have written := after_of_replace replaced
      cases e with
      | constant v t =>
          simp only [Pass.asWritten] at replaced
          split at replaced
          next literal =>
            obtain rfl := Option.some.inj replaced
            exact ⟨v, t, rfl, literal, written⟩
          next => cases replaced
      | _ => cases replaced
  | none =>
      right
      obtain ⟨e', rebuilt, written⟩ := exists_after (Pass.keepsSelects_asWritten d) flags replaced
      have same : e.asWritten d = e' := written
      rw [same]
      exact rebuilt

theorem asWritten_constant {d : Dialect} {v : Value} (t : Typing) (literal : d.literal v = "NULL") :
    (Expr.constant v t).asWritten d = .constant .null t := after_of_replace (if_pos literal)

/-- The tree that a reader sees is printed like the tree. -/
theorem printsAlike_asWritten {d : Dialect} (plain : d.PlainLiterals) {e : Expr}
    (flags : e.AllFlagsMatch) : PrintsAlike d (e.asWritten d) e := by
  induction e using induction_children with
  | node e ih =>
      obtain ⟨v, t, rfl, literal, written⟩ | rebuilt := asWritten_cases flags
      · have null : d.literal .null = "NULL" := (plain.literal_eq_null_iff .null).mpr (.inl rfl)
        rw [written]
        refine ⟨?_, rfl, fun _ => rfl, ?_⟩
        · simp only [Expr.doc, null, literal]
        · simp only [startsWithMinus, null, literal]
      · exact printsAlike_rebuilt (fun c mem => ih c mem (flags.child mem)) rebuilt

/-- No constant of the tree is a real that is no number. -/
def NoNaN (root : Expr) : Prop :=
  ∀ e : Expr, e.Within root → ∀ v t, e = .constant v t → v.isNaN = false

/-- A reader sees the tree itself if every real of the tree is a number. -/
theorem asWritten_eq_self {d : Dialect} (plain : d.PlainLiterals) {e : Expr}
    (flags : e.AllFlagsMatch) (numbers : e.NoNaN) : e.asWritten d = e := by
  induction e using induction_children with
  | node e ih =>
      obtain ⟨v, t, rfl, literal, written⟩ | rebuilt := asWritten_cases (d := d) flags
      · rcases (plain.literal_eq_null_iff v).mp literal with rfl | nan
        · exact written
        · rw [numbers _ .self v t rfl] at nan
          cases nan
      · have children : e.slots.map (asWritten d) = e.slots := by
          rw [Slots.map_congr fun c mem => ih c mem (flags.child mem) fun x below =>
            numbers x (.child mem below), Slots.map_id]
        rw [children, withSlots_slots (flags e .self)] at rebuilt
        exact (Except.ok.inj rebuilt).symm

end Expr

end SqlGen
