import SqlGen.Proofs.Reading.Formula

/-!
# What printed arithmetic is read as

The parentheses of a right operand are left out when it has the same associative operator as its
root, whatever stands further down in it.  `x * (a / b * c)` is printed without parentheses, so it
is read as `x * a / b * c`.  Grouping aside, that is the one way in which a printed formula is
read as another one.
-/

namespace SqlGen.Expr

open Reading (Term)

/-- A printed formula is read as one term.  Up to grouping within associative operators it is the
formula exactly when every right operand with the root of its associative operator is a chain of
this operator alone.  If that holds of the products, the value over the integers is kept. -/
theorem read_print_regroups_iff {d : Dialect} (hd : d.Readable) {e : Expr} (he : e.IsFormula d) :
    ∃ t, Reading.read (e.print d).sql = some t ∧
      (t.Regroups (e.term d) ↔ (e.term d).chainsAgree BinaryOp.isAssociative = true) ∧
      ((e.term d).chainsAgree (fun op => op == .multiply) = true →
        ∀ assigned, t.value assigned = (e.term d).value assigned) :=
  ⟨(e.term d).regroup, read_print hd he, (e.term d).regroups_regroup_iff,
    fun h assigned => Term.value_regroup assigned h⟩

def integerColumn (name : String) : Expr := .column name "t" ⟨.int64, none⟩ false

/-- The operator between integers. -/
def integerBinary (op : BinaryOp) (l r : Expr) : Expr := .binary op l r ⟨.int64, none⟩

def productOfQuotient : Expr :=
  integerBinary .multiply (integerColumn "x")
    (integerBinary .multiply
      (integerBinary .divide (integerColumn "a") (integerColumn "b")) (integerColumn "c"))

theorem isFormula_productOfQuotient (d : Dialect) : productOfQuotient.IsFormula d := by
  have column (name : String) : (integerColumn name).IsFormula d := .column name "t" _ false
  exact .binary _ (column "x") (.binary _ (.binary _ (column "a") (column "b") _) (column "c") _) _

/-- With `x = 2`, `a = 1`, `b = 2` and `c = 1` the product is `0`.  Its text is read as a term with
the value `1`. -/
theorem read_print_productOfQuotient :
    Dialect.ansi.Readable ∧ productOfQuotient.IsFormula .ansi ∧
      (productOfQuotient.print .ansi).sql =
        "\"t\".\"x\" * \"t\".\"a\" / \"t\".\"b\" * \"t\".\"c\"" ∧
      ∃ t, Reading.read (productOfQuotient.print .ansi).sql = some t ∧
        ¬ t.Regroups (productOfQuotient.term .ansi) ∧
        ∃ assigned, t.value assigned = some 1 ∧
          (productOfQuotient.term .ansi).value assigned = some 0 := by
  have formula := isFormula_productOfQuotient .ansi
  obtain ⟨t, read, regroups, -⟩ := read_print_regroups_iff Dialect.readable_ansi formula
  refine ⟨Dialect.readable_ansi, formula, by decide +kernel, t, read, ?_, ?_⟩
  · rw [regroups]
    decide +kernel
  · have same : t = (productOfQuotient.term .ansi).regroup :=
      Option.some.inj (read.symm.trans (read_print Dialect.readable_ansi formula))
    refine ⟨fun s => if s = "\"t\".\"x\"" ∨ s = "\"t\".\"b\"" then 2 else 1, ?_, ?_⟩
    · rw [same]
      decide +kernel
    · decide +kernel

end SqlGen.Expr
