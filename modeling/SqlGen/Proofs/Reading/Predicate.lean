import SqlGen.Proofs.Reading.Acceptance
import SqlGen.Proofs.Reading.Formula
import SqlGen.Proofs.Reading.Spelling

/-!
# Reading printed conditions

A condition joins comparisons and tests for NULL by AND, OR and NOT.  Its operands are taken as they
are printed, whatever their text is.  `Expr.outline` is the term of a condition over them.

AND and OR are alone on their levels of precedence.  A chain of one of them therefore continues
with nothing else, and what is read back differs from the condition by grouping alone.
-/

namespace SqlGen

/-! ## Levels of AND and OR -/

/-- A binary operator on the level of AND or OR is that operator. -/
theorem BinaryOp.eq_of_isLogical {op op' : BinaryOp} (h : op.isLogical = true)
    (same : op'.precedence = op.precedence) : op' = op := by
  revert h same
  cases op <;> cases op' <;> decide

theorem BinaryOp.isComparison_of_isLogical {op : BinaryOp} (h : op.isLogical = true) :
    op.isComparison = false := by
  revert h
  cases op <;> decide

/-- Of the operators that give truth values, AND and OR associate. -/
theorem BinaryOp.isLogical_of_isAssociative {op : BinaryOp} (predicate : op.isPredicate = true)
    (h : op.isAssociative = true) : op.isLogical = true := by
  revert predicate h
  cases op <;> decide

namespace Reading.Term

/-- Every operator between two operands compares them or joins truth values. -/
def IsLogic : Term → Prop
  | .operand _ => True
  | .unary _ t => t.IsLogic
  | .binary op l r => op.isPredicate = true ∧ l.IsLogic ∧ r.IsLogic

/-- A term on the level of AND or OR is a chain of it. -/
theorem isChainOf_of_precedence {op : BinaryOp} (h : op.isLogical = true) {t : Term}
    (same : t.precedence = op.precedence) : t.isChainOf op = true := by
  induction t with
  | operand s => exact absurd same.symm op.precedence_ne_atom
  | unary op' t _ => exact absurd same (op'.precedence_ne (op.isComparison_of_isLogical h))
  | binary op' l r ihl ihr =>
      obtain rfl := BinaryOp.eq_of_isLogical h same
      exact isChainOf_binary.mpr ⟨ihl, fun root => ihr (precedence_of_isBinary root)⟩

theorem chainsAgree_of_isLogic {t : Term} (ht : t.IsLogic) :
    t.chainsAgree BinaryOp.isAssociative = true := by
  induction t with
  | operand s => rfl
  | unary op t ih => exact ih ht
  | binary op l r ihl ihr =>
      obtain ⟨predicate, hl, hr⟩ := ht
      simp only [chainsAgree, Bool.and_eq_true, Bool.or_eq_true, Bool.not_eq_true']
      refine ⟨⟨ihl hl, ihr hr⟩, ?_⟩
      by_cases chained : (op.isAssociative && r.isBinary op) = true
      · obtain ⟨associative, root⟩ := Bool.and_eq_true_iff.mp chained
        have logical := BinaryOp.isLogical_of_isAssociative predicate associative
        exact .inr (isChainOf_of_precedence logical (precedence_of_isBinary root))
      · exact .inl (Bool.eq_false_iff.mpr chained)

/-- Where every operator gives truth values, what is read back differs by grouping alone. -/
theorem regroups_of_isLogic {t : Term} (ht : t.IsLogic) : t.regroup.Regroups t :=
  regroups_regroup (chainsAgree_of_isLogic ht)

end Reading.Term

namespace Expr

open Reading (Term ReadsAs)

/-! ## Conditions -/

/-- A column, a parameter, a constant or a call. -/
inductive IsAtom : Expr → Prop where
  | column (name tableAlias : String) (t : Typing) (nullable : Bool) :
      IsAtom (.column name tableAlias t nullable)
  | constant (v : Value) (t : Typing) : IsAtom (.constant v t)
  | parameter (name : String) (t : Typing) (nullable : Bool) : IsAtom (.parameter name t nullable)
  | call (f : Function) (arguments : List Expr) : IsAtom (.call f arguments)
  | niladic (f : Function) : IsAtom (.niladic f)

/-- Comparisons and tests for NULL under AND, OR and NOT, over atoms. -/
inductive IsPredicate : Expr → Prop where
  | atom {e : Expr} (h : e.IsAtom) : IsPredicate e
  | binary {op : BinaryOp} (h : op.isPredicate = true) {l r : Expr} (hl : IsPredicate l)
      (hr : IsPredicate r) (t : Typing) : IsPredicate (.binary op l r t)
  | unary {op : UnaryOp} (h : op ≠ .negate) {e : Expr} (he : IsPredicate e) (t : Typing) :
      IsPredicate (.unary op e t)

/-- The operators of an expression over its operands as they are printed. -/
def outline (d : Dialect) : Expr → Term
  | .binary op l r _ => .binary op (l.outline d) (r.outline d)
  | .unary op e _ => .unary op (e.outline d)
  | e => .operand (e.print d).sql
termination_by structural e => e

section Outline

variable {e : Expr} (d : Dialect)

theorem IsAtom.outline_eq (atom : e.IsAtom) : e.outline d = .operand (e.print d).sql := by
  cases atom <;> rfl

theorem IsAtom.isSettled (atom : e.IsAtom) : (e.doc d).IsSettled := by
  cases atom with
  | column name tableAlias t nullable =>
      have delimited (s : String) : (identifier d s).IsSettled := Doc.isSettled_verbatim _
      exact ((delimited tableAlias).append (Doc.isSettled_text ".")).append (delimited name)
  | constant v t => exact Doc.isSettled_verbatim _
  | parameter name t nullable =>
      exact (Doc.isSettled_parameter name).append (Doc.isSettled_text (d.placeholder name))
  | call f arguments => exact (isSettled_functionName d f).append (Doc.isSettled_enclose _)
  | niladic f => exact isSettled_functionName d f

theorem IsPredicate.precedence_outline (he : e.IsPredicate) :
    (e.outline d).precedence = e.precedence := by
  cases he with
  | atom atom => cases atom <;> rfl
  | binary h hl hr t => rfl
  | unary h he t => rfl

theorem IsPredicate.isBinary_outline (he : e.IsPredicate) (op : BinaryOp) :
    (e.outline d).isBinary op = e.isBinary op := by
  cases he with
  | atom atom => cases atom <;> rfl
  | binary h hl hr t => rfl
  | unary h he t => rfl

/-- A condition is printed as the text of its outline. -/
theorem IsPredicate.writes (he : e.IsPredicate) : Writes d e (e.outline d) := by
  induction he with
  | atom atom =>
      rw [atom.outline_eq d]
      exact ⟨atom.isSettled d, rfl⟩
  | @binary op h l r hl hr t ihl ihr =>
      refine ihl.binary ihr ?left ?right t
      case left => rw [Term.enclosesLeft, enclosesLeft, hl.precedence_outline d]
      case right =>
        rw [Term.enclosesRight, enclosesRight, hr.precedence_outline d, hr.isBinary_outline d]
  | @unary op h e he t ih =>
      refine ih.unary ?_ t
      have level := he.precedence_outline d
      cases op with
      | negate => exact absurd rfl h
      | _ => simp only [Term.enclosesOperand, enclosesOperand, level]

theorem IsPredicate.unsigned_outline (he : e.IsPredicate) : (e.outline d).Unsigned := by
  induction he with
  | atom atom =>
      rw [atom.outline_eq d]
      trivial
  | binary h _ _ t ihl ihr => exact ⟨ihl, ihr⟩
  | unary h _ t ih => exact ⟨h, ih⟩

theorem IsPredicate.isLogic_outline (he : e.IsPredicate) : (e.outline d).IsLogic := by
  induction he with
  | atom atom =>
      rw [atom.outline_eq d]
      trivial
  | binary h _ _ t ihl ihr => exact ⟨h, ihl, ihr⟩
  | unary h _ t ih => exact ih

/-- The signs of literals change nothing between operands. -/
theorem IsPredicate.isLogic_term (he : e.IsPredicate) : (e.term d).IsLogic := by
  induction he with
  | atom atom =>
      cases atom with
      | constant v t =>
          rw [term, Term.ofLiteral]
          split <;> trivial
      | _ => trivial
  | binary h _ _ t ihl ihr => exact ⟨h, ihl, ihr⟩
  | unary h _ t ih => exact ih

end Outline

/-- A condition is printed so that it can be read back.

Its text consists of words for its operators, of the texts of its operands and of parentheses.  By
the table of precedence these stand for one term and no other, and it is the condition, but for
the grouping of AND and OR.  If the operands are words in the dialect, a reader finds them in the
text by itself. -/
theorem readsAs_print {e : Expr} (he : e.IsPredicate) (d : Dialect) :
    (∃ t, (e.print d).sql.toList = Reading.spell (e.outline d).tokens ∧
      ReadsAs (e.outline d).tokens t ∧ t.Regroups (e.outline d)) ∧
    (d.Readable → e.IsFormula d →
      ∃ ts t, Reading.lex .gap (e.print d).sql.toList = some ts ∧ ReadsAs ts t ∧
        t.Regroups (e.term d) ∧ Reading.read (e.print d).sql = some t) := by
  constructor
  · refine ⟨(e.outline d).regroup, ?_, (e.outline d).readsAs_tokens, ?_⟩
    · exact (he.writes d).text.trans (Term.text_eq_spell (he.unsigned_outline d))
    · exact Term.regroups_of_isLogic (he.isLogic_outline d)
  · intro readable formula
    obtain ⟨-, text, words⟩ := isWritten_formula readable formula
    refine ⟨(e.term d).tokens, (e.term d).regroup, ?_, (e.term d).readsAs_tokens,
      Term.regroups_of_isLogic (he.isLogic_term d), read_print readable formula⟩
    rw [← Term.lex_gap_text words]
    exact congrArg (Reading.lex .gap) text

/-! ## A condition -/

def truthColumn (name : String) : Expr := .column name "t" ⟨.boolean, none⟩ false

/-- The operator between truth values. -/
def truthBinary (op : BinaryOp) (l r : Expr) : Expr := .binary op l r ⟨.boolean, none⟩

def truthUnary (op : UnaryOp) (e : Expr) : Expr := .unary op e ⟨.boolean, none⟩

/-- Chains that are nested to the right, with tests and comparisons of each other. -/
def mixedCondition : Expr :=
  truthBinary .and
    (truthBinary .or (truthColumn "p") (truthBinary .or (truthColumn "q")
      (truthBinary .and (truthColumn "r") (truthColumn "p"))))
    (truthBinary .and
      (truthUnary .not (truthBinary .equal (truthBinary .less (truthColumn "x") (truthColumn "y"))
        (truthUnary .isNull (truthColumn "r"))))
      (truthUnary .isNotNull (truthBinary .or (truthColumn "p") (truthColumn "q"))))

theorem isPredicate_mixedCondition : mixedCondition.IsPredicate := by
  have column (name : String) : (truthColumn name).IsPredicate := .atom (.column name "t" _ _)
  have binary {op : BinaryOp} (h : op.isPredicate = true) {l r : Expr} (hl : l.IsPredicate)
      (hr : r.IsPredicate) : (truthBinary op l r).IsPredicate := .binary h hl hr _
  have unary {op : UnaryOp} (h : op ≠ .negate) {e : Expr} (he : e.IsPredicate) :
      (truthUnary op e).IsPredicate := .unary h he _
  refine binary (by decide) ?alternatives (binary (by decide) ?negation ?test)
  case alternatives =>
    exact binary (by decide) (column _)
      (binary (by decide) (column _) (binary (by decide) (column _) (column _)))
  case negation =>
    exact unary (by decide) (binary (by decide) (binary (by decide) (column _) (column _))
      (unary (by decide) (column _)))
  case test => exact unary (by decide) (binary (by decide) (column _) (column _))

theorem isFormula_mixedCondition (d : Dialect) : mixedCondition.IsFormula d := by
  have column (name : String) : (truthColumn name).IsFormula d := .column name "t" _ _
  exact .binary _
    (.binary _ (column _) (.binary _ (column _) (.binary _ (column _) (column _) _) _) _)
    (.binary _
      (.unary _ (.binary _ (.binary _ (column _) (column _) _) (.unary _ (column _) _) _) _)
      (.unary _ (.binary _ (column _) (column _) _) _) _) _

/-- The chain of AND is read back nested to the left. -/
theorem readsAs_print_mixedCondition :
    mixedCondition.IsPredicate ∧ Dialect.ansi.Readable ∧ mixedCondition.IsFormula .ansi ∧
      (mixedCondition.print .ansi).sql =
        "(\"t\".\"p\" OR \"t\".\"q\" OR \"t\".\"r\" AND \"t\".\"p\") AND " ++
        "NOT \"t\".\"x\" < \"t\".\"y\" = (\"t\".\"r\" IS NULL) AND " ++
        "(\"t\".\"p\" OR \"t\".\"q\") IS NOT NULL" ∧
      ∃ ts t, Reading.lex .gap (mixedCondition.print .ansi).sql.toList = some ts ∧
        ReadsAs ts t ∧ t.Regroups (mixedCondition.term .ansi) ∧
        t ≠ mixedCondition.term .ansi := by
  have formula := isFormula_mixedCondition .ansi
  obtain ⟨-, reads⟩ := readsAs_print isPredicate_mixedCondition .ansi
  obtain ⟨ts, t, lexed, readsAs, regroups, read⟩ := reads Dialect.readable_ansi formula
  refine ⟨isPredicate_mixedCondition, Dialect.readable_ansi, formula, by decide +kernel, ts, t,
    lexed, readsAs, regroups, ?_⟩
  rintro rfl
  rw [read_print Dialect.readable_ansi formula] at read
  exact absurd read (by decide +kernel)

end Expr

end SqlGen
