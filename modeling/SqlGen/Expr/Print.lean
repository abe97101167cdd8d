import SqlGen.Doc
import SqlGen.Expr.Basic
import SqlGen.Text.Blank

/-!
# Printing expressions

`Expr.doc` is the document of an expression in a dialect.  An operand stands in
parentheses only where its level of precedence would let it be read otherwise.

The operands of a binary node are enclosed when they bind more loosely.  On the same
level, comparisons always enclose them, since they do not chain; of the other operators the
left operand is not enclosed, and the right one is unless it is the very same
operator and the grouping does not matter.

The operand of a negation is enclosed too when it would put a second minus sign after the
first, because two of them start a comment.

Identifiers and literals are verbatim.  The names of functions and parameters,
fragments and qualified table names are laid out like text.
-/

namespace SqlGen

namespace Expr

open Doc (text verbatim line)

/-! ## Parentheses -/

/-- The node is a binary one with this operator. -/
def isBinary (op : BinaryOp) : Expr → Bool
  | .binary op' _ _ _ => op' == op
  | _ => false

/-- The left operand of an operator needs parentheses. -/
def enclosesLeft (op : BinaryOp) (operand : Expr) : Bool :=
  if operand.precedence = op.precedence then op.isComparison
  else operand.precedence < op.precedence

/-- The right operand of an operator needs parentheses. -/
def enclosesRight (op : BinaryOp) (operand : Expr) : Bool :=
  if operand.precedence = op.precedence then
    op.isComparison || !(operand.isBinary op && op.isAssociative)
  else operand.precedence < op.precedence

/-- The text of an operand starts with a minus sign that is its own. -/
def startsWithMinus (d : Dialect) : Expr → Bool
  | .constant v _ => (d.literal v).toList.head? == some '-'
  | .fragment sql => (Text.dropBlanks sql.toList).head? == some '-'
  | _ => false

/-- The operand of a unary operator needs parentheses. -/
def enclosesOperand (d : Dialect) (op : UnaryOp) (operand : Expr) : Bool :=
  match op with
  | .isNull | .isNotNull => operand.precedence ≤ op.precedence
  | .not => operand.precedence < op.precedence
  | .negate => operand.precedence ≤ op.precedence || operand.startsWithMinus d

/-! ## Parts of documents -/

def identifier (d : Dialect) (name : String) : Doc := verbatim (d.delimit name)

/-- The name of a function after its schema. -/
def functionName (d : Dialect) (f : Function) : Doc :=
  match f.schema with
  | some schema => identifier d schema ++ text "." ++ text f.name
  | none => text f.name

/-- The alias of an item of a select list. -/
def aliasDoc (d : Dialect) : Option String → Doc
  | some columnAlias => text " AS " ++ identifier d columnAlias
  | none => []

def comma : Doc := text ", "

/-- A document after some words on a line of its own, if there is one. -/
def clause (words : String) : Option Doc → Doc
  | some body => line ++ text words ++ body
  | none => []

/-- The list of a select.  Without items it selects a constant. -/
def listDoc (items : List Doc) : Doc :=
  if items.isEmpty then text "1" else Doc.separate comma items

/-- The source and the joins, each on a line of its own. -/
def tablesDoc : List Doc → Doc
  | [] => []
  | source :: joins => line ++ text "FROM " ++ source ++ joins.flatMap fun j => line ++ j

/-- The order, on a line of its own. -/
def orderDoc (items : List Doc) : Doc :=
  if items.isEmpty then [] else line ++ text "ORDER BY " ++ Doc.separate comma items

/-- The limit and the offset.  Where the dialect needs a limit for an offset, one that
lifts the limit is written. -/
def limitDoc (d : Dialect) : (limit offset : Option Doc) → Doc
  | some limit, some offset => line ++ text "LIMIT " ++ limit ++ text " OFFSET " ++ offset
  | some limit, none => line ++ text "LIMIT " ++ limit
  | none, some offset =>
      line ++
        (match d.unboundedLimit with
          | some unbounded => text "LIMIT " ++ text unbounded ++ text " "
          | none => []) ++
        text "OFFSET " ++ offset
  | none, none => []

/-- A select from the documents of its children. -/
def selectDoc (d : Dialect) (distinct : Bool) (c : Clauses Doc) : Doc :=
  text "SELECT " ++ (if distinct then text "DISTINCT " else []) ++
    listDoc c.projection ++ tablesDoc c.tables ++ clause "WHERE " c.predicate ++
    orderDoc c.orderings ++ limitDoc d c.limit c.offset

/-- A set operation from the documents of its sources. -/
def setOperationDoc (op : SetOp) (tableAlias : String) (left right : Doc) (distinct : Bool) :
    Doc :=
  text "(" ++ line ++
    Doc.indent
      (left ++ line ++ text op.keyword ++ (if distinct then [] else text " ALL") ++ line ++
        right) ++
    line ++ text ") AS " ++ verbatim tableAlias

/-- A unary node from the document of its operand. -/
def unaryDoc (op : UnaryOp) (operand : Doc) : Doc :=
  match op with
  | .not => text "NOT " ++ operand
  | .negate => text "-" ++ operand
  | .isNull => operand ++ text " IS NULL"
  | .isNotNull => operand ++ text " IS NOT NULL"

/-! ## Documents of expressions -/

mutual

/-- The document of an expression. -/
def doc (d : Dialect) : Expr → Doc
  | .column name tableAlias _ _ => identifier d tableAlias ++ text "." ++ identifier d name
  | .constant v _ => verbatim (d.literal v)
  | .parameter name _ _ => Doc.parameter name ++ text (d.placeholder name)
  | .fragment sql => text sql
  | .call f args => functionName d f ++ Doc.enclose (Doc.separate comma (docs d args))
  | .niladic f => functionName d f
  | .binary op l r _ =>
      Doc.encloseIf (enclosesLeft op l) (doc d l) ++ text " " ++ text op.symbol ++ text " " ++
        Doc.encloseIf (enclosesRight op r) (doc d r)
  | .unary op e _ => unaryDoc op (Doc.encloseIf (enclosesOperand d op e) (doc d e))
  | .table name tableAlias =>
      text (d.delimitQualified name) ++ text " AS " ++ identifier d tableAlias
  | .join k t p => text k.keyword ++ doc d t ++ text " ON " ++ doc d p
  | .crossJoin t => text "CROSS JOIN " ++ doc d t
  | .projection e columnAlias => doc d e ++ aliasDoc d columnAlias
  | .ordering e ascending => doc d e ++ (if ascending then [] else text " DESC")
  | .select q => docSelect d q
  | .setOperation op tableAlias l r distinct =>
      setOperationDoc op tableAlias (docSelect d l) (docSelect d r) distinct
  | .collate e collation => doc d e ++ text " COLLATE " ++ text collation
termination_by structural e => e

def docs (d : Dialect) : List Expr → List Doc
  | [] => []
  | e :: rest => doc d e :: docs d rest
termination_by structural es => es

/-- The document of an optional expression. -/
def docOption (d : Dialect) : Option Expr → Option Doc
  | none => none
  | some e => some (doc d e)
termination_by structural e => e

def docSelect (d : Dialect) : Select Expr → Doc
  | ⟨⟨i, t, w, o, l, f⟩, distinct⟩ =>
      selectDoc d distinct
        ⟨docs d i, docs d t, docOption d w, docs d o, docOption d l, docOption d f⟩
termination_by structural q => q

end

@[simp] theorem docs_eq_map (d : Dialect) (es : List Expr) : docs d es = es.map (doc d) := by
  induction es with
  | nil => rfl
  | cons e rest ih => simp [docs, ih]

@[simp] theorem docOption_eq_map (d : Dialect) (e : Option Expr) :
    docOption d e = e.map (doc d) := by
  cases e <;> rfl

@[simp] theorem docSelect_eq (d : Dialect) (q : Select Expr) :
    docSelect d q = selectDoc d q.distinct (q.map (doc d)) := by
  obtain ⟨⟨i, t, w, o, l, f⟩, distinct⟩ := q
  simp [docSelect, Clauses.map]

/-! ## Printed expressions -/

/-- An expression as a piece of SQL. -/
def print (d : Dialect) (e : Expr) : Printed := Doc.render (e.doc d)

/-- An expression as a statement, with the text that ends one. -/
def printStatement (d : Dialect) (e : Expr) : Printed :=
  Doc.render (e.doc d ++ text d.terminator)

end Expr

end SqlGen
