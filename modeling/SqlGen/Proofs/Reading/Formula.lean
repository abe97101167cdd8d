import SqlGen.Proofs.Layout
import SqlGen.Proofs.Reading.Grouping
import SqlGen.Proofs.Reading.Parser
import SqlGen.Proofs.Reading.Words

/-!
# Reading printed formulas

A formula is a tree of operators over columns, parameters, constants and calls.  `Expr.term` is
the term of a formula: its operators, over the texts of its operands.  A number with a minus sign
is the negation of what follows the sign.

`isWritten_formula` says that a formula is printed as the text of its term, so that `read_print`
knows what the printed text is read as: the term regrouped.
-/

namespace SqlGen

namespace Reading

/-! ## Text inside parentheses -/

/-- The text opens and closes its own quotes and parentheses, inside any others. -/
def IsClosed (s : List Char) : Prop :=
  ∀ depth, Nesting.scan ⟨depth + 1, none⟩ s = some ⟨depth + 1, none⟩

theorem IsClosed.append {a b : List Char} (ha : IsClosed a) (hb : IsClosed b) :
    IsClosed (a ++ b) := by
  intro depth
  rw [Nesting.scan_append, ha, Option.bind_some, hb]

/-- A character that opens and closes nothing. -/
def isNeutral (c : Char) : Bool := c != '"' && c != '\'' && c != '(' && c != ')'

/-- Between parentheses everything but quotes and parentheses stands as it is. -/
theorem isClosed_of_all {s : List Char} (h : s.all isNeutral = true) : IsClosed s := by
  intro depth
  induction s with
  | nil => rfl
  | cons c rest ih =>
      obtain ⟨first, more⟩ := Bool.and_eq_true_iff.mp h
      have other : ((c ≠ '"' ∧ c ≠ '\'') ∧ c ≠ '(') ∧ c ≠ ')' := by
        simpa [isNeutral] using first
      have inside : Nesting.endsBefore ⟨depth + 1, none⟩ c = false := by simp [Nesting.endsBefore]
      have next : Nesting.next ⟨depth + 1, none⟩ c = some ⟨depth + 1, none⟩ := by
        simp [Nesting.next, other]
      simp only [Nesting.scan, inside, next]
      exact ih more

/-- The same quotes and parentheses inside more parentheses. -/
def deeper (depth : Nat) (n : Nesting) : Nesting := ⟨n.depth + depth, n.mark⟩

theorem endsBefore_deeper (depth : Nat) {n : Nesting} {c : Char} (h : n.endsBefore c = false) :
    (deeper depth n).endsBefore c = false := by
  by_cases outside : deeper depth n = {}
  · have same : n = {} := by
      obtain ⟨k, mark⟩ := n
      obtain ⟨sum, rfl⟩ := Nesting.mk.inj outside
      have zero : k = 0 := Nat.eq_zero_of_add_eq_zero_right sum
      rw [zero]
    rw [outside, ← same]
    exact h
  · simp [Nesting.endsBefore, outside]

theorem next_deeper (depth : Nat) {n n' : Nesting} {c : Char} (h : n.next c = some n') :
    (deeper depth n).next c = some (deeper depth n') := by
  obtain ⟨k, mark⟩ := n
  cases mark with
  | some q =>
      obtain rfl := Option.some.inj h
      rfl
  | none =>
      simp only [Nesting.next, deeper] at h ⊢
      split
      next quotes =>
        rw [if_pos quotes] at h
        obtain rfl := Option.some.inj h
        rfl
      next plain =>
        rw [if_neg plain] at h
        split
        next opening =>
          rw [if_pos opening] at h
          obtain rfl := Option.some.inj h
          simp [Nat.add_right_comm]
        next other =>
          rw [if_neg other] at h
          split
          next closing =>
            rw [if_pos closing] at h
            cases k with
            | zero => cases h
            | succ k =>
                obtain rfl := Option.some.inj h
                simp [Nat.add_right_comm]
          next ordinary =>
            rw [if_neg ordinary] at h
            obtain rfl := Option.some.inj h
            rfl

/-- A scan goes on the same inside more parentheses. -/
theorem scan_deeper (depth : Nat) {s : List Char} {n n' : Nesting} (h : n.scan s = some n') :
    (deeper depth n).scan s = some (deeper depth n') := by
  induction s generalizing n with
  | nil =>
      obtain rfl := Option.some.inj h
      rfl
  | cons c rest ih =>
      obtain ⟨inside, n₁, step, more⟩ := Nesting.scan_cons h
      have same := endsBefore_deeper depth inside
      simp only [Nesting.scan, same, next_deeper depth step]
      exact ih more

theorem IsOperand.isClosed {s : String} (h : IsOperand s) : IsClosed s.toList := by
  intro depth
  simpa [deeper] using scan_deeper (depth + 1) h.scan

/-- Text in parentheses is closed if the text is. -/
theorem IsClosed.parentheses {s : List Char} (h : IsClosed s) :
    IsClosed ('(' :: (s ++ [')'])) := by
  intro depth
  have opening : Nesting.scan ⟨depth + 1, none⟩ ('(' :: (s ++ [')'])) =
      Nesting.scan ⟨depth + 1 + 1, none⟩ (s ++ [')']) := by
    simp [Nesting.scan, Nesting.endsBefore, Nesting.next]
  rw [opening, Nesting.scan_append, h, Option.bind_some]
  simp [Nesting.scan, Nesting.endsBefore, Nesting.next]

theorem IsClosed.enclose {s : List Char} (h : IsClosed s) (needed : Bool) :
    IsClosed (Term.enclose needed s) := by
  cases needed with
  | false => exact h
  | true => exact h.parentheses

theorem Term.isClosed_text {t : Term} (ht : t.IsReadable) : IsClosed t.text := by
  have blank {s : List Char} (h : IsClosed s) : IsClosed (' ' :: s) :=
    IsClosed.append (a := [' ']) (isClosed_of_all rfl) h
  induction t with
  | operand s => exact IsOperand.isClosed ht
  | unary op t ih =>
      have inner := ih ht
      cases op with
      | not => exact (isClosed_of_all rfl).append (blank (inner.enclose _))
      | negate =>
          exact IsClosed.append (a := ['-']) (isClosed_of_all rfl) (inner.enclose _)
      | isNull => exact (inner.enclose _).append (isClosed_of_all rfl)
      | isNotNull => exact (inner.enclose _).append (isClosed_of_all rfl)
  | binary op l r ihl ihr =>
      have symbol : IsClosed op.symbol.toList := isClosed_of_all (by cases op <;> rfl)
      exact ((ihl ht.1).enclose _).append
        (blank (symbol.append (blank ((ihr ht.2).enclose _))))

/-! ## Names and calls -/

/-- A name of a function: no white space, no quotes, no parentheses and no operators, and no key
word. -/
structure IsName (s : String) : Prop where
  some : s ≠ ""
  plain : s.toList.all Nesting.isPlain = true
  noOperator : ∀ c ∈ s.toList, c ∉ ['+', '-', '*', '/', '%', '|', '=', '<', '>']
  ofWord : Token.ofWord s = .operand s

theorem IsName.scan {s : String} (h : IsName s) : Nesting.scan {} s.toList = Option.some {} :=
  Nesting.scan_plain rfl h.plain

theorem IsName.isOperand {s : String} (h : IsName s) : IsOperand s := by
  refine ⟨?_, h.scan, h.ofWord⟩
  cases text : s.toList with
  | nil => exact absurd (String.toList_eq_nil_iff.mp text) h.some
  | cons c rest =>
      have first : Nesting.isPlain c = true :=
        List.all_eq_true.mp h.plain c (by rw [text]; exact List.mem_cons_self)
      refine ⟨c, rest, rfl, ?_, ?_⟩
      · rintro rfl
        exact h.noOperator '-' (by rw [text]; exact List.mem_cons_self) (by simp)
      · rintro rfl
        cases first

/-- Closed texts with commas between them. -/
theorem isClosed_intercalate {texts : List String} (h : ∀ s ∈ texts, IsClosed s.toList) :
    IsClosed (String.intercalate ", " texts).toList := by
  have comma : IsClosed ", ".toList := isClosed_of_all rfl
  induction texts with
  | nil => exact fun _ => rfl
  | cons s rest ih =>
      have more := ih fun x hx => h x (List.mem_cons_of_mem s hx)
      cases rest with
      | nil => exact h s List.mem_cons_self
      | cons t rest =>
          rw [String.intercalate_cons_cons, String.toList_append, String.toList_append]
          exact ((h s List.mem_cons_self).append comma).append more

theorem IsOperand.call {name arguments : String} (hn : IsOperand name)
    (ha : IsClosed arguments.toList) : IsOperand (name ++ ("(" ++ arguments ++ ")")) := by
  have text : (name ++ ("(" ++ arguments ++ ")")).toList =
      name.toList ++ '(' :: (arguments.toList ++ [')']) := by simp
  obtain ⟨c, rest, head, minus, opening⟩ := hn.starts
  have list : Nesting.scan {} ('(' :: (arguments.toList ++ [')'])) = some {} := by
    have opened : Nesting.scan {} ('(' :: (arguments.toList ++ [')'])) =
        Nesting.scan ⟨0 + 1, none⟩ (arguments.toList ++ [')']) := rfl
    rw [opened, Nesting.scan_append, ha, Option.bind_some]
    rfl
  have scan : Nesting.scan {} (name ++ ("(" ++ arguments ++ ")")).toList = some {} := by
    rw [text, Nesting.scan_append, hn.scan, Option.bind_some, list]
  exact isOperand_of_mem (x := '(') (by rw [text, head, List.cons_append]) minus opening scan
    (by simp) rfl

end Reading

/-! ## The term of a formula -/

namespace Reading

/-- The term of a literal: a minus sign is the negation of what follows it. -/
def Term.ofLiteral (s : String) : Term :=
  match s.toList with
  | '-' :: rest => .unary .negate (.operand (String.ofList rest))
  | _ => .operand s

theorem Term.ofLiteral_minus {s rest : String} (h : s = "-" ++ rest) :
    Term.ofLiteral s = .unary .negate (.operand rest) := by
  subst h
  simp [Term.ofLiteral]

theorem Term.ofLiteral_operand {s : String} (h : IsOperand s) : Term.ofLiteral s = .operand s := by
  obtain ⟨c, rest, text, minus, -⟩ := h.starts
  unfold Term.ofLiteral
  split
  next digits same => exact absurd (List.cons.inj (text.symm.trans same)).1 minus
  next => rfl

theorem Term.text_ofLiteral {s : String} (h : IsLiteral s) :
    (Term.ofLiteral s).text = s.toList := by
  rcases h with operand | ⟨rest, minus, operand⟩
  · rw [Term.ofLiteral_operand operand, Term.text]
  · rw [Term.ofLiteral_minus minus, minus]
    simp [Term.text, Term.enclose, Term.enclosesOperand, Precedence.atom, UnaryOp.precedence,
      Precedence.negate]

theorem Term.isReadable_ofLiteral {s : String} (h : IsLiteral s) :
    (Term.ofLiteral s).IsReadable := by
  rcases h with operand | ⟨rest, minus, operand⟩
  · rw [Term.ofLiteral_operand operand]
    exact operand
  · rw [Term.ofLiteral_minus minus]
    exact operand

end Reading

namespace Expr

open Reading (Term IsOperand IsName IsClosed)

/-- The operators of an expression over the texts of its operands. -/
def term (d : Dialect) : Expr → Term
  | .binary op l r _ => .binary op (l.term d) (r.term d)
  | .unary op e _ => .unary op (e.term d)
  | .constant v _ => .ofLiteral (d.literal v)
  | e => .operand (e.print d).sql
termination_by structural e => e

/-- A tree of operators over columns, parameters, constants and calls.  A parameter is written as
one word.  A function has a plain name, and its arguments close what they open, as formulas do
(`isClosed_print`). -/
inductive IsFormula (d : Dialect) : Expr → Prop where
  | column (name tableAlias : String) (typing : Typing) (nullable : Bool) :
      IsFormula d (.column name tableAlias typing nullable)
  | parameter {name : String} (word : IsOperand (d.placeholder name)) (typing : Typing)
      (nullable : Bool) : IsFormula d (.parameter name typing nullable)
  | constant (v : Value) (typing : Typing) : IsFormula d (.constant v typing)
  | call {f : Function} (name : IsName f.name) {arguments : List Expr}
      (closed : ∀ a ∈ arguments, IsClosed (a.print d).sql.toList) :
      IsFormula d (.call f arguments)
  | niladic {f : Function} (name : IsName f.name) : IsFormula d (.niladic f)
  | binary {l r : Expr} (op : BinaryOp) (hl : IsFormula d l) (hr : IsFormula d r)
      (typing : Typing) : IsFormula d (.binary op l r typing)
  | unary {e : Expr} (op : UnaryOp) (he : IsFormula d e) (typing : Typing) :
      IsFormula d (.unary op e typing)

/-! ## Parentheses of formulas -/

section Parentheses

variable {d : Dialect} (hd : d.Readable) {e : Expr} (he : e.IsFormula d)
include hd he

/-- A formula binds as tightly as its term, but for a number with a sign, which is a negation. -/
theorem precedence_term :
    (e.startsWithMinus d = false ∧ (e.term d).precedence = e.precedence) ∨
      (e.startsWithMinus d = true ∧ e.precedence = Precedence.atom ∧
        (e.term d).precedence = Precedence.negate) := by
  cases he with
  | constant v typing =>
      rcases hd.literal v with operand | ⟨rest, minus, operand⟩
      · left
        obtain ⟨c, rest, text, other, -⟩ := operand.starts
        rw [term, Term.ofLiteral_operand operand]
        exact ⟨by simp [startsWithMinus, text, other], rfl⟩
      · right
        rw [term, Term.ofLiteral_minus minus]
        exact ⟨by simp [startsWithMinus, minus], rfl, rfl⟩
  | _ => exact .inl ⟨rfl, rfl⟩

theorem isBinary_term (op : BinaryOp) : (e.term d).isBinary op = e.isBinary op := by
  cases he with
  | constant v typing =>
      rcases hd.literal v with operand | ⟨rest, minus, operand⟩
      · rw [term, Term.ofLiteral_operand operand]
        rfl
      · rw [term, Term.ofLiteral_minus minus]
        rfl
  | _ => rfl

/-- A number with a sign needs no parentheses next to a binary operator, as its term. -/
theorem enclosesLeft_term (op : BinaryOp) :
    Term.enclosesLeft op (e.term d) = e.enclosesLeft op := by
  rcases precedence_term hd he with ⟨-, same⟩ | ⟨-, atom, negate⟩
  · simp only [Term.enclosesLeft, enclosesLeft, same]
  · simp only [Term.enclosesLeft, enclosesLeft, atom, negate]
    cases op <;> rfl

theorem enclosesRight_term (op : BinaryOp) :
    Term.enclosesRight op (e.term d) = e.enclosesRight op := by
  have root := isBinary_term hd he op
  rcases precedence_term hd he with ⟨-, same⟩ | ⟨-, atom, negate⟩
  · simp only [Term.enclosesRight, enclosesRight, same, root]
  · simp only [Term.enclosesRight, enclosesRight, atom, negate, root]
    cases op <;> rfl

/-- A number with a sign needs parentheses behind another minus sign, as its term. -/
theorem enclosesOperand_term (op : UnaryOp) :
    Term.enclosesOperand op (e.term d) = e.enclosesOperand d op := by
  rcases precedence_term hd he with ⟨unsigned, same⟩ | ⟨minus, atom, negate⟩
  · cases op <;> simp [Term.enclosesOperand, enclosesOperand, same, unsigned]
  · simp only [Term.enclosesOperand, enclosesOperand, atom, negate, minus]
    cases op <;> rfl

end Parentheses

/-! ## Printed terms -/

/-- An expression is printed as the text of a term, on every page. -/
structure Writes (d : Dialect) (e : Expr) (t : Term) : Prop where
  settled : (e.doc d).IsSettled
  text : (e.doc d).body.toList = t.text

namespace Writes

variable {d : Dialect} {e l r : Expr} {t u : Term}

/-- An operand in parentheses or without. -/
theorem encloseIf (h : Writes d e t) (needed : Bool) :
    (Doc.encloseIf needed (e.doc d)).body.toList = Term.enclose needed t.text := by
  rw [Doc.body_encloseIf, ← h.text]
  cases needed <;> simp [Term.enclose]

theorem binary {op : BinaryOp} (hl : Writes d l t) (hr : Writes d r u)
    (left : Term.enclosesLeft op t = l.enclosesLeft op)
    (right : Term.enclosesRight op u = r.enclosesRight op) (typing : Typing) :
    Writes d (.binary op l r typing) (.binary op t u) := by
  have before := hl.settled.encloseIf (enclosesLeft op l)
  have after := hr.settled.encloseIf (enclosesRight op r)
  have blank := Doc.isSettled_text " "
  have symbol := Doc.isSettled_text op.symbol
  have front := ((before.append blank).append symbol).append blank
  refine ⟨front.append after, ?_⟩
  rw [doc, after.body_append, blank.body_append, symbol.body_append, blank.body_append,
    Doc.body_text, Doc.body_text, Term.text, left, right]
  simp only [String.toList_append, hl.encloseIf, hr.encloseIf, List.append_assoc]
  rfl

theorem unary {op : UnaryOp} (h : Writes d e t)
    (encloses : Term.enclosesOperand op t = e.enclosesOperand d op) (typing : Typing) :
    Writes d (.unary op e typing) (.unary op t) := by
  have operand := h.settled.encloseIf (enclosesOperand d op e)
  cases op with
  | not =>
      have word := Doc.isSettled_text "NOT "
      refine ⟨word.append operand, ?_⟩
      rw [doc, unaryDoc, operand.body_append, Doc.body_text, String.toList_append,
        h.encloseIf, Term.text, encloses]
      rfl
  | negate =>
      have sign := Doc.isSettled_text "-"
      refine ⟨sign.append operand, ?_⟩
      rw [doc, unaryDoc, operand.body_append, Doc.body_text, String.toList_append,
        h.encloseIf, Term.text, encloses]
      rfl
  | isNull =>
      have test := Doc.isSettled_text " IS NULL"
      refine ⟨operand.append test, ?_⟩
      rw [doc, unaryDoc, test.body_append, Doc.body_text, String.toList_append,
        h.encloseIf, Term.text, encloses]
  | isNotNull =>
      have test := Doc.isSettled_text " IS NOT NULL"
      refine ⟨operand.append test, ?_⟩
      rw [doc, unaryDoc, test.body_append, Doc.body_text, String.toList_append,
        h.encloseIf, Term.text, encloses]

end Writes

/-! ## Printed formulas -/

/-- An expression is printed as the text of its term, on every page, and the text can be read. -/
structure IsWritten (d : Dialect) (e : Expr) : Prop where
  settled : (e.doc d).IsSettled
  text : (e.doc d).body.toList = (e.term d).text
  readable : (e.term d).IsReadable

/-- An operand whose term is its text. -/
theorem isWritten_operand {d : Dialect} {e : Expr} (term : e.term d = .operand (e.print d).sql)
    (settled : (e.doc d).IsSettled) (word : IsOperand (e.doc d).body) : IsWritten d e where
  settled := settled
  text := by rw [term]; rfl
  readable := by rw [term]; exact word

theorem isSettled_functionName (d : Dialect) (f : Function) : (functionName d f).IsSettled := by
  have name := Doc.isSettled_text f.name
  unfold functionName
  cases f.schema with
  | none => exact name
  | some schema =>
      have front : (identifier d schema).IsSettled := Doc.isSettled_verbatim _
      exact (front.append (Doc.isSettled_text ".")).append name

/-- The name of a function after its schema is an operand. -/
theorem functionName_word {d : Dialect} (hd : d.Readable) {f : Function} (hf : IsName f.name) :
    IsOperand (functionName d f).body := by
  have name := Doc.isSettled_text f.name
  unfold functionName
  cases f.schema with
  | none =>
      rw [Doc.body_text]
      exact hf.isOperand
  | some schema =>
      have front : (identifier d schema).IsSettled := Doc.isSettled_verbatim _
      have point := Doc.isSettled_text "."
      rw [name.body_append, point.body_append, identifier,
        Doc.body_verbatim, Doc.body_text, Doc.body_text]
      exact (hd.delimit schema).point hf.scan

theorem isWritten_column {d : Dialect} (hd : d.Readable) (name tableAlias : String)
    (typing : Typing) (nullable : Bool) :
    IsWritten d (.column name tableAlias typing nullable) := by
  have table : (identifier d tableAlias).IsSettled := Doc.isSettled_verbatim _
  have column : (identifier d name).IsSettled := Doc.isSettled_verbatim _
  have point := Doc.isSettled_text "."
  refine isWritten_operand rfl ((table.append point).append column) ?_
  rw [doc, column.body_append, point.body_append, identifier,
    identifier, Doc.body_verbatim, Doc.body_text, Doc.body_verbatim]
  exact (hd.delimit tableAlias).point (hd.delimit name).scan

theorem isWritten_parameter {d : Dialect} {name : String} (word : IsOperand (d.placeholder name))
    (typing : Typing) (nullable : Bool) : IsWritten d (.parameter name typing nullable) := by
  have mention := Doc.isSettled_parameter name
  have placeholder := Doc.isSettled_text (d.placeholder name)
  refine isWritten_operand rfl (mention.append placeholder) ?_
  rw [doc, placeholder.body_append, Doc.body_parameter, Doc.body_text,
    String.empty_append]
  exact word

theorem isWritten_constant {d : Dialect} (hd : d.Readable) (v : Value) (typing : Typing) :
    IsWritten d (.constant v typing) where
  settled := Doc.isSettled_verbatim _
  text := by
    rw [term, Term.text_ofLiteral (hd.literal v), doc, Doc.body_verbatim]
  readable := Term.isReadable_ofLiteral (hd.literal v)

theorem isWritten_call {d : Dialect} (hd : d.Readable) {f : Function} (hf : IsName f.name)
    {arguments : List Expr} (closed : ∀ a ∈ arguments, IsClosed (a.print d).sql.toList) :
    IsWritten d (.call f arguments) := by
  have settled := isSettled_functionName d f
  have name := functionName_word hd hf
  have list := Doc.isSettled_enclose (Doc.separate comma (docs d arguments))
  refine isWritten_operand rfl (settled.append list) ?_
  rw [doc, list.body_append, Doc.body_enclose_separate, docs_eq_map, List.map_map]
  refine name.call (Reading.isClosed_intercalate fun s hs => ?_)
  obtain ⟨a, ha, rfl⟩ := List.mem_map.mp hs
  exact closed a ha

theorem isWritten_niladic {d : Dialect} (hd : d.Readable) {f : Function} (hf : IsName f.name) :
    IsWritten d (.niladic f) :=
  isWritten_operand rfl (isSettled_functionName d f) (functionName_word hd hf)

theorem IsWritten.writes {d : Dialect} {e : Expr} (h : IsWritten d e) : Writes d e (e.term d) :=
  ⟨h.settled, h.text⟩

theorem isWritten_binary {d : Dialect} (hd : d.Readable) (op : BinaryOp) {l r : Expr}
    (fl : l.IsFormula d) (fr : r.IsFormula d) (hl : IsWritten d l) (hr : IsWritten d r)
    (typing : Typing) : IsWritten d (.binary op l r typing) := by
  obtain ⟨settled, text⟩ := hl.writes.binary hr.writes (enclosesLeft_term hd fl op)
    (enclosesRight_term hd fr op) typing
  exact ⟨settled, text, hl.readable, hr.readable⟩

theorem isWritten_unary {d : Dialect} (hd : d.Readable) (op : UnaryOp) {e : Expr}
    (fe : e.IsFormula d) (he : IsWritten d e) (typing : Typing) :
    IsWritten d (.unary op e typing) := by
  obtain ⟨settled, text⟩ := he.writes.unary (enclosesOperand_term hd fe op) typing
  exact ⟨settled, text, he.readable⟩

/-- A formula is printed as the text of its term. -/
theorem isWritten_formula {d : Dialect} (hd : d.Readable) {e : Expr} (he : e.IsFormula d) :
    IsWritten d e := by
  induction he with
  | column name tableAlias typing nullable =>
      exact isWritten_column hd name tableAlias typing nullable
  | parameter word typing nullable => exact isWritten_parameter word typing nullable
  | constant v typing => exact isWritten_constant hd v typing
  | call name closed => exact isWritten_call hd name closed
  | niladic name => exact isWritten_niladic hd name
  | binary op hl hr typing ihl ihr => exact isWritten_binary hd op hl hr ihl ihr typing
  | unary op he typing ih => exact isWritten_unary hd op he ih typing

/-- The printed text of a formula is read as its term regrouped. -/
theorem read_print {d : Dialect} (hd : d.Readable) {e : Expr} (he : e.IsFormula d) :
    Reading.read (e.print d).sql = some (e.term d).regroup := by
  obtain ⟨-, text, readable⟩ := isWritten_formula hd he
  have same : (e.print d).sql = String.ofList (e.term d).text := by
    apply String.toList_injective
    rw [String.toList_ofList]
    exact text
  rw [same, Reading.read_text readable]

/-- A formula may be an argument of a call: it closes what it opens. -/
theorem isClosed_print {d : Dialect} (hd : d.Readable) {e : Expr} (he : e.IsFormula d) :
    IsClosed (e.print d).sql.toList := by
  obtain ⟨-, text, readable⟩ := isWritten_formula hd he
  exact text ▸ Term.isClosed_text readable

end Expr

end SqlGen
