import Mathlib.Data.List.Flatten
import SqlGen.Proofs.Pass.Children
import SqlGen.Proofs.Printing.Piece

/-!
# Quoted texts in a printed expression

A dialect quotes the literals and the identifiers of a tree.  `Expr.quotations` lists them in the
order in which they are printed, each with the number of set operations around it.  All of them
are printed as they were quoted, except that the name of a table is laid out like the text around
it: inside a set operation a line break in the name is followed by a margin.

`Expr.inOrder_print` says so, with the exact condition for a text to be printed as it was quoted.
-/

namespace SqlGen

/-! ## Documents inside a document -/

namespace Doc

theorem separate_cons_cons (separator d e : Doc) (rest : List Doc) :
    separate separator (d :: e :: rest) = d ++ separator ++ separate separator (e :: rest) := rfl

theorem flatten_sublist_separate (separator : Doc) (ds : List Doc) :
    ds.flatten.Sublist (separate separator ds) := by
  induction ds with
  | nil => exact .slnil
  | cons d rest ih =>
      cases rest with
      | nil => simp [separate]
      | cons e rest =>
          rw [List.flatten_cons, separate_cons_cons]
          exact (List.sublist_append_left d separator).append ih

theorem sublist_encloseIf (needed : Bool) (d : Doc) : d.Sublist (encloseIf needed d) := by
  cases needed with
  | false => exact .refl d
  | true => exact (List.sublist_append_right _ d).trans (List.sublist_append_left _ _)

end Doc

namespace Expr

open Doc (text verbatim)

theorem flatten_sublist_listDoc (items : List Doc) : items.flatten.Sublist (listDoc items) := by
  cases items with
  | nil => exact List.nil_sublist _
  | cons d rest => exact Doc.flatten_sublist_separate comma (d :: rest)

theorem flatten_sublist_tablesDoc (tables : List Doc) :
    tables.flatten.Sublist (tablesDoc tables) := by
  cases tables with
  | nil => exact .slnil
  | cons d rest =>
      have joins : rest.flatten.Sublist (rest.flatMap fun j => Doc.line ++ j) := by
        induction rest with
        | nil => exact .slnil
        | cons e rest ih => exact (List.sublist_append_right Doc.line e).append ih
      exact (List.sublist_append_right _ d).append joins

theorem toList_sublist_clause (words : String) (body : Option Doc) :
    body.toList.flatten.Sublist (clause words body) := by
  cases body with
  | none => exact .slnil
  | some d =>
      have single : (some d).toList.flatten = d := by simp
      rw [single]
      exact List.sublist_append_right _ d

theorem flatten_sublist_orderDoc (items : List Doc) : items.flatten.Sublist (orderDoc items) := by
  cases items with
  | nil => exact .slnil
  | cons d rest =>
      exact (Doc.flatten_sublist_separate comma (d :: rest)).trans (List.sublist_append_right _ _)

theorem flatten_sublist_limitDoc (d : Dialect) (limit offset : Option Doc) :
    (limit.toList.flatten ++ offset.toList.flatten).Sublist (limitDoc d limit offset) := by
  cases limit with
  | none =>
      cases offset with
      | none => exact .slnil
      | some o =>
          have single : (none : Option Doc).toList.flatten ++ (some o).toList.flatten = o := by simp
          rw [single]
          exact List.sublist_append_right _ o
  | some l =>
      cases offset with
      | none =>
          have single : (some l).toList.flatten ++ (none : Option Doc).toList.flatten = l := by simp
          rw [single]
          exact List.sublist_append_right _ l
      | some o =>
          have both : (some l).toList.flatten ++ (some o).toList.flatten = l ++ o := by simp
          rw [both]
          exact ((List.sublist_append_right _ l).trans (List.sublist_append_left _ _)).append
            (.refl o)

/-- The documents of the children of a select stand in its document in their order. -/
theorem flatten_sublist_selectDoc (d : Dialect) (distinct : Bool) (c : Clauses Doc) :
    c.toList.flatten.Sublist (selectDoc d distinct c) := by
  have items := (flatten_sublist_listDoc c.projection).trans
    (List.sublist_append_right (text "SELECT " ++ (if distinct then text "DISTINCT " else [])) _)
  have clauses := (((items.append (flatten_sublist_tablesDoc c.tables)).append
    (toList_sublist_clause "WHERE " c.predicate)).append
    (flatten_sublist_orderDoc c.orderings)).append (flatten_sublist_limitDoc d c.limit c.offset)
  simpa only [Clauses.toList, List.flatten_append, List.append_assoc, selectDoc] using clauses

end Expr

/-! ## Quotations -/

/-- A text of a tree that a dialect has quoted. -/
structure Quotation where
  text : String
  /-- It is the name of a table with its schema. -/
  isTable : Bool := false
  /-- The number of set operations around it. -/
  depth : Nat := 0
deriving DecidableEq, Repr

namespace Quotation

def inside (q : Quotation) : Quotation := { q with depth := q.depth + 1 }

/-- The text as it is printed. -/
def printed (q : Quotation) : String :=
  if q.isTable then String.ofList (Page.laid q.depth false q.text.toList) else q.text

/-- The text is the name of a table in a set operation and goes on behind a line break. -/
def IsReindented (q : Quotation) : Prop :=
  q.isTable = true ∧ q.depth ≠ 0 ∧ Page.Breaks q.text.toList

/-- The piece of the document that holds the text. -/
def piece (q : Quotation) : Piece :=
  ⟨q.depth, if q.isTable then .text q.text else .verbatim q.text⟩

theorem written_piece (q : Quotation) : q.piece.written = q.printed := by
  obtain ⟨text, isTable, depth⟩ := q
  cases isTable <;> rfl

theorem map_piece_inside (qs : List Quotation) :
    (qs.map inside).map piece = Doc.indent (qs.map piece) := by
  rw [Doc.indent, List.map_map, List.map_map]
  rfl

/-- Exactly the other texts are printed as they were quoted. -/
theorem printed_eq_text_iff (q : Quotation) : q.printed = q.text ↔ ¬ q.IsReindented := by
  obtain ⟨text, isTable, depth⟩ := q
  cases isTable with
  | false => simp [printed, IsReindented]
  | true =>
      have laid := Page.laid_eq_self_iff depth text.toList
      simp only [printed, IsReindented, if_true, true_and]
      rw [← String.toList_inj, String.toList_ofList, laid]
      tauto

end Quotation

namespace Expr

open Doc (text verbatim)

/-- The texts that the dialect quotes for the node itself, in front of its children. -/
def ownQuotations (d : Dialect) : Expr → List Quotation
  | .column name tableAlias _ _ => [⟨d.delimit tableAlias, false, 0⟩, ⟨d.delimit name, false, 0⟩]
  | .constant v _ => [⟨d.literal v, false, 0⟩]
  | .call f _ | .niladic f => f.schema.toList.map fun schema => ⟨d.delimit schema, false, 0⟩
  | .table name tableAlias => [⟨d.delimitQualified name, true, 0⟩, ⟨d.delimit tableAlias, false, 0⟩]
  | _ => []

/-- The alias of an item of a select list, which stands behind it. -/
def aliasQuotation (d : Dialect) : Expr → List Quotation
  | .projection _ columnAlias => columnAlias.toList.map fun a => ⟨d.delimit a, false, 0⟩
  | _ => []

/-- What stands around the children of a node. -/
def surround : Expr → List Quotation → List Quotation
  | .setOperation .. => List.map Quotation.inside
  | _ => id

/-- The texts of a tree that the dialect quotes, in the order in which they are printed. -/
def quotations (d : Dialect) (e : Expr) : List Quotation :=
  e.ownQuotations d ++ e.surround (e.children.attach.flatMap fun c => quotations d c.1) ++
    e.aliasQuotation d
termination_by sizeOf e
decreasing_by exact sizeOf_lt_of_mem_children c.2

theorem quotations_eq (d : Dialect) (e : Expr) :
    e.quotations d = e.ownQuotations d ++ e.surround (e.children.flatMap (quotations d)) ++
      e.aliasQuotation d := by
  rw [quotations, flatMap_attach_children]

/-! ## Quotations in the document of a node -/

/-- The pieces around the children of a node. -/
def surroundDoc : Expr → Doc → Doc
  | .setOperation .. => Doc.indent
  | _ => id

theorem map_piece_surround (e : Expr) (qs : List Quotation) :
    (e.surround qs).map Quotation.piece = e.surroundDoc (qs.map Quotation.piece) := by
  cases e with
  | setOperation op a l r d => exact Quotation.map_piece_inside qs
  | _ => rfl

theorem surroundDoc_sublist (e : Expr) {a b : Doc} (h : a.Sublist b) :
    (e.surroundDoc a).Sublist (e.surroundDoc b) := by
  cases e with
  | setOperation op a l r d => exact h.map _
  | _ => exact h

theorem flatMap_doc_sublist_docSelect (d : Dialect) (q : Select Expr) :
    (q.toClauses.toList.flatMap (doc d)).Sublist (docSelect d q) := by
  rw [docSelect_eq, List.flatMap_def, ← Clauses.toList_map]
  exact flatten_sublist_selectDoc d q.distinct (q.toClauses.map (doc d))

/-- The name of a function stands behind what is quoted for its schema. -/
theorem schema_sublist_functionName (d : Dialect) (f : Function) :
    ((f.schema.toList.map fun schema => (⟨d.delimit schema, false, 0⟩ : Quotation)).map
      Quotation.piece).Sublist (functionName d f) := by
  unfold functionName
  cases f.schema with
  | none => exact List.nil_sublist _
  | some schema => exact (List.sublist_append_left _ _).trans (List.sublist_append_left _ _)

/-- What a node quotes and the documents of its children stand in its document in their order. -/
theorem quotations_sublist_doc (d : Dialect) (e : Expr) :
    ((e.ownQuotations d).map Quotation.piece ++
      e.surroundDoc (e.children.flatMap (doc d)) ++
      (e.aliasQuotation d).map Quotation.piece).Sublist (e.doc d) := by
  cases e with
  | column name tableAlias t nullable =>
      exact .cons_cons _ (.cons _ (.refl _))
  | constant v t => exact .refl _
  | parameter name t nullable => exact List.nil_sublist _
  | fragment s => exact List.nil_sublist _
  | call f args =>
      have list : (args.flatMap (doc d)).Sublist
          (Doc.enclose (Doc.separate comma (docs d args))) := by
        rw [docs_eq_map, List.flatMap_def]
        exact (Doc.flatten_sublist_separate comma _).trans (Doc.sublist_encloseIf true _)
      simp only [doc, aliasQuotation, List.map_nil, List.append_nil]
      exact (schema_sublist_functionName d f).append list
  | niladic f =>
      simp only [doc, aliasQuotation, List.map_nil, List.append_nil]
      exact (List.append_nil _).symm ▸ schema_sublist_functionName d f
  | binary op l r t =>
      have left := Doc.sublist_encloseIf (enclosesLeft op l) (l.doc d)
      have right := Doc.sublist_encloseIf (enclosesRight op r) (r.doc d)
      have both := (((left.trans (List.sublist_append_left _ (text " "))).trans
        (List.sublist_append_left _ (text op.symbol))).trans
        (List.sublist_append_left _ (text " "))).append right
      simpa [ownQuotations, surroundDoc, aliasQuotation, children, slots, Slots.toList, doc]
        using both
  | unary op e t =>
      have operand := Doc.sublist_encloseIf (enclosesOperand d op e) (e.doc d)
      have whole : (e.doc d).Sublist
          (unaryDoc op (Doc.encloseIf (enclosesOperand d op e) (e.doc d))) := by
        cases op with
        | not | negate => exact operand.trans (List.sublist_append_right _ _)
        | isNull | isNotNull => exact operand.trans (List.sublist_append_left _ _)
      simpa [ownQuotations, surroundDoc, aliasQuotation, children, slots, Slots.toList, doc]
        using whole
  | table name tableAlias =>
      exact .cons_cons _ (.cons _ (.refl _))
  | join k t p =>
      simp [ownQuotations, surroundDoc, aliasQuotation, children, slots, Slots.toList, doc]
  | crossJoin t =>
      simp [ownQuotations, surroundDoc, aliasQuotation, children, slots, Slots.toList, doc]
  | projection e columnAlias =>
      have behind : ((columnAlias.toList.map fun a => (⟨d.delimit a, false, 0⟩ : Quotation)).map
          Quotation.piece).Sublist (aliasDoc d columnAlias) := by
        cases columnAlias with
        | none => exact .slnil
        | some a => exact List.sublist_append_right _ _
      have whole := (List.Sublist.refl (e.doc d)).append behind
      simpa [ownQuotations, surroundDoc, aliasQuotation, children, slots, Slots.toList, doc]
        using whole
  | ordering e ascending =>
      simp [ownQuotations, surroundDoc, aliasQuotation, children, slots, Slots.toList, doc]
  | select q =>
      have clauses := flatMap_doc_sublist_docSelect d q
      simp only [doc, ownQuotations, aliasQuotation, List.map_nil, List.append_nil, List.nil_append]
      exact clauses
  | setOperation op a l r distinct =>
      have sources : (docSelect d l ++ docSelect d r).Sublist
          (docSelect d l ++ Doc.line ++ text op.keyword ++ (if distinct then [] else text " ALL") ++
            Doc.line ++ docSelect d r) := by
        refine List.Sublist.append ?_ (.refl _)
        simp only [List.append_assoc]
        exact List.sublist_append_left _ _
      have whole := ((sources.map fun p => { p with depth := p.depth + 1 }).trans
        (List.sublist_append_right (text "(" ++ Doc.line) _)).trans
        (List.sublist_append_left _ (Doc.line ++ text ") AS " ++ verbatim a))
      simpa [ownQuotations, surroundDoc, aliasQuotation, children, slots, Slots.toList, doc,
        setOperationDoc, Doc.indent] using whole
  | collate e collation =>
      simp [ownQuotations, surroundDoc, aliasQuotation, children, slots, Slots.toList, doc]

/-- The quotations of a tree stand in its document in their order. -/
theorem map_piece_quotations_sublist_doc (d : Dialect) (e : Expr) :
    ((e.quotations d).map Quotation.piece).Sublist (e.doc d) := by
  induction e using induction_children with
  | node e ih =>
      have children : ((e.children.flatMap (quotations d)).map Quotation.piece).Sublist
          (e.children.flatMap (doc d)) := by
        rw [List.map_flatMap]
        exact List.Sublist.flatMap_right _ ih
      rw [quotations_eq, List.map_append, List.map_append, map_piece_surround]
      exact (((List.Sublist.refl _).append (e.surroundDoc_sublist children)).append (.refl _)).trans
        (quotations_sublist_doc d e)

/-- Everything that the dialect quotes stands in the printed text, in its order.  All of it is
printed as it was quoted exactly if no table in a set operation has a name that goes on behind a
line break. -/
theorem inOrder_print (d : Dialect) (e : Expr) :
    InOrder ((e.quotations d).map Quotation.printed) (e.print d).sql ∧
      ((e.quotations d).map Quotation.printed = (e.quotations d).map Quotation.text ↔
        ∀ q ∈ e.quotations d, ¬ q.IsReindented) := by
  constructor
  · have pieces := Doc.inOrder_render (map_piece_quotations_sublist_doc d e)
    rw [List.map_map] at pieces
    have written : Piece.written ∘ Quotation.piece = Quotation.printed :=
      funext Quotation.written_piece
    rw [written] at pieces
    exact pieces
  · rw [List.map_inj_left]
    exact forall₂_congr fun q _ => q.printed_eq_text_iff

/-- The query `SELECT 1 FROM … AS "t"`. -/
def rowsOf (table : String) : Select Expr := { tables := [.table ⟨table, none⟩ "t"] }

/-- The rows of two tables.  The name of the first one has two lines. -/
def linesUnion : Expr := .setOperation .union "u" (rowsOf "a\nb") (rowsOf "c") true

/-- The second line of the name gets the margin of the set operation, and the name that the dialect
quoted stands nowhere in the text. -/
theorem not_infix_print_linesUnion :
    (⟨Dialect.ansi.delimitQualified ⟨"a\nb", none⟩, true, 1⟩ : Quotation) ∈
        linesUnion.quotations .ansi ∧
      (linesUnion.print .ansi).sql =
        "(\n    SELECT 1\n    FROM \"a\n    b\" AS \"t\"\n    UNION\n    SELECT 1\n" ++
          "    FROM \"c\" AS \"t\"\n) AS u" ∧
      ¬ (Dialect.ansi.delimitQualified ⟨"a\nb", none⟩).toList <:+:
        (linesUnion.print .ansi).sql.toList := by
  refine ⟨?_, by decide +kernel, by decide +kernel⟩
  simp [linesUnion, rowsOf, quotations_eq, ownQuotations, surround, aliasQuotation, children, slots,
    Slots.toList, Clauses.toList, Quotation.inside]

end Expr

end SqlGen
