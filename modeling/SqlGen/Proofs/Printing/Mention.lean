import SqlGen.Proofs.Pass.Children
import SqlGen.Proofs.Pass.Evaluation
import SqlGen.Proofs.Printing.Frame

/-!
# Parameters in the document of a tree

`Expr.mentions` lists the parameters of a tree in the order in which its nodes are visited, a node
before its children and the children in their order.  A mention says whether the parameter stands
directly under a negation, and how many set operations are around it.

`Doc.Replaces` relates two documents of which the second one has something else where the first one
mentions parameters.  The documents of two nodes are related so if those of their children are
(`Expr.replaces_document`).  Only a negation looks at more than how tightly its operand binds, since
it puts a literal with a sign of its own between parentheses.

Documents change the depth of indentation at line breaks only.  The relation has the depth before
and behind the documents as indices, which is what makes it hold for their texts, too.
-/

namespace SqlGen

/-! ## Mentions -/

/-- A parameter of a tree. -/
structure Mention where
  name : String
  /-- It is the operand of a negation. -/
  negated : Bool := false
  /-- The number of set operations around it. -/
  depth : Nat := 0
deriving DecidableEq, Repr

def Mention.inside (m : Mention) : Mention := { m with depth := m.depth + 1 }

namespace Expr

/-- The mention that a node is. -/
def ownMentions : Expr → List Mention
  | .parameter name _ _ => [{ name }]
  | _ => []

def isParameter : Expr → Bool
  | .parameter .. => true
  | _ => false

theorem exists_of_isParameter {e : Expr} (h : e.isParameter = true) :
    ∃ name t nullable, e = .parameter name t nullable := by
  cases e with
  | parameter name t nullable => exact ⟨name, t, nullable, rfl⟩
  | _ => cases h

/-- What a node makes of the mentions of its children. -/
def mentionsAround : Expr → List Mention → List Mention
  | .setOperation .. => List.map Mention.inside
  | .unary .negate operand _ =>
      List.map fun m => { m with negated := m.negated || operand.isParameter }
  | _ => id

/-- The parameters of a tree, a node before its children. -/
def mentions (e : Expr) : List Mention :=
  e.ownMentions ++ e.mentionsAround (e.children.attach.flatMap fun c => mentions c.1)
termination_by sizeOf e
decreasing_by exact sizeOf_lt_of_mem_children c.2

theorem mentions_eq (e : Expr) :
    e.mentions = e.ownMentions ++ e.mentionsAround (e.children.flatMap mentions) := by
  rw [mentions, flatMap_attach_children]

section Equations

variable (name : String) (t : Typing) (nullable : Bool) (e : Expr)

/-- Most nodes pass on the mentions of their children. -/
theorem mentions_of_children {e : Expr} (own : e.ownMentions = []) (around : e.mentionsAround = id) :
    e.mentions = e.children.flatMap mentions := by
  rw [mentions_eq, own, around, List.nil_append, id]

theorem mentions_of_child {e c : Expr} (own : e.ownMentions = []) (around : e.mentionsAround = id)
    (child : e.children = [c]) : e.mentions = c.mentions := by
  rw [mentions_of_children own around, child, List.flatMap_singleton]

theorem mentions_of_pair {e l r : Expr} (own : e.ownMentions = []) (around : e.mentionsAround = id)
    (pair : e.children = [l, r]) : e.mentions = l.mentions ++ r.mentions := by
  rw [mentions_of_children own around, pair, List.flatMap_cons, List.flatMap_singleton]

theorem mentions_leaf {e : Expr} (leaf : e.children = []) (other : e.isParameter = false) :
    e.mentions = [] := by
  rw [mentions_eq, leaf]
  cases e with
  | parameter => cases other
  | unary op x t => cases leaf
  | _ => rfl

theorem mentions_parameter : (parameter name t nullable).mentions = [{ name }] := by
  rw [mentions_eq]
  rfl

/-- A negation of something else than a parameter changes nothing. -/
theorem mentions_unary {op : UnaryOp} (other : op ≠ .negate ∨ e.isParameter = false) :
    (unary op e t).mentions = e.mentions := by
  cases op with
  | negate =>
      have operand : e.isParameter = false := other.resolve_left fun differ => differ rfl
      have around : (unary .negate e t).mentionsAround = id := by
        funext ms
        simp [mentionsAround, operand]
      exact mentions_of_child rfl around rfl
  | _ => exact mentions_of_child rfl rfl rfl

theorem mentions_negated (t' : Typing) :
    (unary .negate (parameter name t nullable) t').mentions = [{ name, negated := true }] := by
  have children : (unary .negate (parameter name t nullable) t').children =
      [parameter name t nullable] := rfl
  rw [mentions_eq, children, List.flatMap_singleton, mentions_parameter]
  rfl

theorem mentions_setOperation (op : SetOp) (tableAlias : String) (q q' : Select Expr)
    (distinct : Bool) : (setOperation op tableAlias q q' distinct).mentions =
      ((select q).mentions ++ (select q').mentions).map Mention.inside := by
  have children : (setOperation op tableAlias q q' distinct).children = [select q, select q'] := rfl
  rw [mentions_eq, children, List.flatMap_cons, List.flatMap_singleton]
  rfl

end Equations

end Expr

/-! ## Documents with something else in the place of parameters -/

namespace Doc

theorem iterate_indent (depth : Nat) (a : Doc) :
    indent^[depth] a = a.map fun piece => { piece with depth := piece.depth + depth } := by
  induction depth with
  | zero => simp
  | succ depth ih => rw [Function.iterate_succ_apply', ih, indent, List.map_map]; rfl

/-- The second document is the first one with something else in the place of each mention.  What is
put there depends on the name and on a negation.  The documents start at the depth `i`, they go on
at the depth `j` behind them, and the depth only changes where a line starts. -/
inductive Replaces (d : Dialect) (put : (name : String) → (negated : Bool) → Doc) :
    (i j : Nat) → List Mention → Doc → Doc → Prop where
  | nil {i : Nat} : Replaces d put i i [] [] []
  | piece {i j : Nat} {ms : List Mention} {a b : Doc} {content : Content}
      (other : ∀ name, content ≠ .parameter name) (rest : Replaces d put i j ms a b) :
      Replaces d put i j ms (⟨i, content⟩ :: a) (⟨i, content⟩ :: b)
  | line {i j k n : Nat} {ms : List Mention} {a b : Doc} (rest : Replaces d put k j ms a b) :
      Replaces d put i j ms (⟨n, .line⟩ :: a) (⟨n, .line⟩ :: b)
  | mention {i j : Nat} {ms : List Mention} {a b : Doc} (name : String) (negated : Bool)
      (rest : Replaces d put i j ms a b) :
      Replaces d put i j (⟨name, negated, i⟩ :: ms)
        (⟨i, .parameter name⟩ :: ⟨i, .text (d.placeholder name)⟩ :: a)
        (indent^[i] (put name negated) ++ b)

namespace Replaces

variable {d : Dialect} {put : String → Bool → Doc} {i j k : Nat} {ms ms' : List Mention}
  {a b a' b' : Doc}

theorem append (h : Replaces d put i j ms a b) (h' : Replaces d put j k ms' a' b') :
    Replaces d put i k (ms ++ ms') (a ++ a') (b ++ b') := by
  induction h with
  | nil => exact h'
  | piece other _ ih => exact .piece other (ih h')
  | line _ ih => exact .line (ih h')
  | mention name negated _ ih =>
      rw [List.append_assoc]
      exact .mention name negated (ih h')

theorem indent (h : Replaces d put i j ms a b) :
    Replaces d put (i + 1) (j + 1) (ms.map Mention.inside) a.indent b.indent := by
  induction h with
  | nil => exact .nil
  | piece other _ ih => exact .piece other ih
  | line _ ih => exact .line ih
  | @mention i j ms a b name negated _ ih =>
      rw [indent_append, ← Function.iterate_succ_apply' Doc.indent]
      exact .mention name negated ih

theorem text (s : String) : Replaces d put 0 0 [] (Doc.text s) (Doc.text s) :=
  .piece (fun _ same => nomatch same) .nil

theorem verbatim (s : String) : Replaces d put 0 0 [] (Doc.verbatim s) (Doc.verbatim s) :=
  .piece (fun _ same => nomatch same) .nil

theorem parameter (name : String) (negated : Bool) :
    Replaces d put 0 0 [{ name, negated }] (Doc.parameter name ++ Doc.text (d.placeholder name))
      (put name negated) := by
  have mention : Replaces d put 0 0 _ _ _ := .mention name negated .nil
  rwa [Function.iterate_zero_apply, List.append_nil] at mention

theorem newline : Replaces d put i j [] Doc.line Doc.line := .line .nil

/-- The same words in front of both, on a line of their own. -/
theorem onLine (h : Replaces d put 0 j ms a b) (words : String) :
    Replaces d put i j ms (Doc.line ++ Doc.text words ++ a) (Doc.line ++ Doc.text words ++ b) :=
  .line (.piece (fun _ same => nomatch same) h)

/-- The same document in front of both. -/
theorem behind (h : Replaces d put i j ms b b') (same : Replaces d put k i [] a a) :
    Replaces d put k j ms (a ++ b) (a ++ b') := same.append h

/-- The same document behind both. -/
theorem before (h : Replaces d put i j ms b b') (same : Replaces d put j k [] a a) :
    Replaces d put i k ms (b ++ a) (b' ++ a) := by
  have both := h.append same
  rwa [List.append_nil] at both

theorem encloseIf (h : Replaces d put 0 0 ms a b) (needed : Bool) :
    Replaces d put 0 0 ms (Doc.encloseIf needed a) (Doc.encloseIf needed b) := by
  cases needed with
  | false => exact h
  | true => exact (h.behind (text "(")).before (text ")")

end Replaces

end Doc

/-! ## Lists of documents -/

section Lists

open Doc (Replaces)

variable {d : Dialect} {put : String → Bool → Doc} {α : Type} {m : α → List Mention}
  {f g : α → Doc}

theorem Doc.replaces_separate {separator : Doc} (same : Replaces d put 0 0 [] separator separator)
    {xs : List α} (each : ∀ x ∈ xs, Replaces d put 0 0 (m x) (f x) (g x)) :
    Replaces d put 0 0 (xs.flatMap m) (Doc.separate separator (xs.map f))
      (Doc.separate separator (xs.map g)) := by
  induction xs with
  | nil => exact .nil
  | cons x rest ih =>
      have first := each x List.mem_cons_self
      cases rest with
      | nil => simpa [Doc.separate] using first
      | cons y rest =>
          have later := ih fun z mem => each z (List.mem_cons_of_mem x mem)
          exact (first.before same).append later

namespace Expr

open Doc (text line verbatim)

theorem replaces_listDoc {xs : List α} (each : ∀ x ∈ xs, Replaces d put 0 0 (m x) (f x) (g x)) :
    Replaces d put 0 0 (xs.flatMap m) (listDoc (xs.map f)) (listDoc (xs.map g)) := by
  cases xs with
  | nil => exact .text "1"
  | cons x rest => exact Doc.replaces_separate (.text ", ") each

theorem replaces_tablesDoc {xs : List α} (each : ∀ x ∈ xs, Replaces d put 0 0 (m x) (f x) (g x)) :
    Replaces d put 0 0 (xs.flatMap m) (tablesDoc (xs.map f)) (tablesDoc (xs.map g)) := by
  cases xs with
  | nil => exact .nil
  | cons x rest =>
      have joins {ys : List α} (each : ∀ y ∈ ys, Replaces d put 0 0 (m y) (f y) (g y)) :
          Replaces d put 0 0 (ys.flatMap m) ((ys.map f).flatMap fun j => line ++ j)
            ((ys.map g).flatMap fun j => line ++ j) := by
        induction ys with
        | nil => exact .nil
        | cons y rest ih =>
            have first := each y List.mem_cons_self
            exact .line (first.append (ih fun z mem => each z (List.mem_cons_of_mem y mem)))
      have source := (each x List.mem_cons_self).onLine (i := 0) "FROM "
      exact source.append (joins fun y mem => each y (List.mem_cons_of_mem x mem))

theorem replaces_clause (words : String) {o : Option α}
    (each : ∀ x, o = some x → Replaces d put 0 0 (m x) (f x) (g x)) :
    Replaces d put 0 0 (o.toList.flatMap m) (clause words (o.map f)) (clause words (o.map g)) := by
  cases o with
  | none => exact .nil
  | some x => simpa [clause] using (each x rfl).onLine (i := 0) words

theorem replaces_orderDoc {xs : List α} (each : ∀ x ∈ xs, Replaces d put 0 0 (m x) (f x) (g x)) :
    Replaces d put 0 0 (xs.flatMap m) (orderDoc (xs.map f)) (orderDoc (xs.map g)) := by
  cases xs with
  | nil => exact .nil
  | cons x rest => exact (Doc.replaces_separate (.text ", ") each).onLine "ORDER BY "

theorem replaces_limitDoc {l o : Option α}
    (limit : ∀ x, l = some x → Replaces d put 0 0 (m x) (f x) (g x))
    (offset : ∀ x, o = some x → Replaces d put 0 0 (m x) (f x) (g x)) :
    Replaces d put 0 0 (l.toList.flatMap m ++ o.toList.flatMap m)
      (limitDoc d (l.map f) (o.map f)) (limitDoc d (l.map g) (o.map g)) := by
  cases l with
  | none =>
      cases o with
      | none => exact .nil
      | some y =>
          have number := (offset y rfl).behind (.text "OFFSET ")
          cases unbounded : d.unboundedLimit with
          | none =>
              have whole := number.behind (.newline (i := 0))
              simpa [limitDoc, unbounded] using whole
          | some u =>
              have whole := ((number.behind (.text " ")).behind (.text u)).onLine (i := 0) "LIMIT "
              simpa [limitDoc, unbounded] using whole
  | some x =>
      have first := (limit x rfl).onLine (i := 0) "LIMIT "
      cases o with
      | none => simpa [limitDoc] using first
      | some y =>
          have number := (offset y rfl).behind (.text " OFFSET ")
          simpa [limitDoc] using first.append number

/-- The documents of the children of a select stand in its document in their order. -/
theorem replaces_selectDoc (distinct : Bool) {c : Clauses α}
    (each : ∀ x ∈ c.toList, Replaces d put 0 0 (m x) (f x) (g x)) :
    Replaces d put 0 0 (c.toList.flatMap m) (selectDoc d distinct (c.map f))
      (selectDoc d distinct (c.map g)) := by
  have words : Replaces d put 0 0 [] (text "SELECT " ++ if distinct then text "DISTINCT " else [])
      (text "SELECT " ++ if distinct then text "DISTINCT " else []) := by
    cases distinct with
    | false => exact .text "SELECT "
    | true => exact Replaces.append (.text "SELECT ") (.text "DISTINCT ")
  have items : Replaces d put 0 0 (c.projection.flatMap m) _ _ :=
    replaces_listDoc fun x mem => each x (Clauses.mem_toList.mpr (by tauto))
  have tables : Replaces d put 0 0 (c.tables.flatMap m) _ _ :=
    replaces_tablesDoc fun x mem => each x (Clauses.mem_toList.mpr (by tauto))
  have predicate : Replaces d put 0 0 (c.predicate.toList.flatMap m) _ _ :=
    replaces_clause "WHERE " fun x same => each x (Clauses.mem_toList.mpr (by tauto))
  have orderings : Replaces d put 0 0 (c.orderings.flatMap m) _ _ :=
    replaces_orderDoc fun x mem => each x (Clauses.mem_toList.mpr (by tauto))
  have limits : Replaces d put 0 0 (c.limit.toList.flatMap m ++ c.offset.toList.flatMap m) _ _ :=
    replaces_limitDoc (fun x same => each x (Clauses.mem_toList.mpr (by tauto)))
      fun x same => each x (Clauses.mem_toList.mpr (by tauto))
  have clauses := ((((items.behind words).append tables).append predicate).append orderings).append
    limits
  simpa only [Clauses.toList, Clauses.map, List.flatMap_append, List.append_assoc, selectDoc]
    using clauses

theorem replaces_setOperationDoc (op : SetOp) (tableAlias : String) {ms ms' : List Mention}
    {a b a' b' : Doc} (distinct : Bool) (left : Replaces d put 0 0 ms a b)
    (right : Replaces d put 0 0 ms' a' b') :
    Replaces d put 0 0 ((ms ++ ms').map Mention.inside)
      (setOperationDoc op tableAlias a a' distinct)
      (setOperationDoc op tableAlias b b' distinct) := by
  have all : Replaces d put 0 0 [] (if distinct then [] else text " ALL")
      (if distinct then [] else text " ALL") := by
    cases distinct with
    | false => exact .text " ALL"
    | true => exact .nil
  have sources : Replaces d put 0 0 (ms ++ ms')
      (a ++ line ++ text op.keyword ++ (if distinct then [] else text " ALL") ++ line ++ a')
      (b ++ line ++ text op.keyword ++ (if distinct then [] else text " ALL") ++ line ++ b') :=
    ((((left.before .newline).before (.text _)).before all).before .newline).append right
  have opening : Replaces d put 0 1 [] (text "(" ++ line) (text "(" ++ line) :=
    Replaces.before (.text "(") .newline
  have closing : Replaces d put 0 0 [] (text ") AS " ++ verbatim tableAlias)
      (text ") AS " ++ verbatim tableAlias) :=
    Replaces.before (.text ") AS ") (.verbatim tableAlias)
  have whole := ((sources.indent.behind opening).before .newline).before closing
  simpa only [setOperationDoc, List.append_assoc] using whole

end Expr

end Lists

/-! ## Documents of nodes -/

open SqlGen.Expr Doc in
/-- The document of a node, from the expressions that stand for its children. -/
def Node.document (d : Dialect) : Node Expr → Doc
  | .column name tableAlias _ => identifier d tableAlias ++ text "." ++ identifier d name
  | .constant v _ => verbatim (d.literal v)
  | .parameter name _ => Doc.parameter name ++ text (d.placeholder name)
  | .fragment sql => text sql
  | .call f args => functionName d f ++ Doc.enclose (Doc.separate comma (args.map (doc d)))
  | .niladic f => functionName d f
  | .binary op l r _ =>
      Doc.encloseIf (enclosesLeft op l) (l.doc d) ++ text " " ++ text op.symbol ++ text " " ++
        Doc.encloseIf (enclosesRight op r) (r.doc d)
  | .unary op x _ => unaryDoc op (Doc.encloseIf (enclosesOperand d op x) (x.doc d))
  | .table name tableAlias =>
      text (d.delimitQualified name) ++ text " AS " ++ identifier d tableAlias
  | .join k t p => text k.keyword ++ t.doc d ++ text " ON " ++ p.doc d
  | .crossJoin t => text "CROSS JOIN " ++ t.doc d
  | .projection x columnAlias => x.doc d ++ aliasDoc d columnAlias
  | .ordering x ascending => x.doc d ++ (if ascending then [] else text " DESC")
  | .select c distinct => selectDoc d distinct (c.map (doc d))
  | .setOperation op a l r distinct => setOperationDoc op a (l.doc d) (r.doc d) distinct
  | .collate x collation => x.doc d ++ text " COLLATE " ++ text collation

namespace Expr

open Doc (Replaces text verbatim)

theorem doc_eq_document (d : Dialect) (e : Expr) : e.doc d = (e.node fun c => c).document d := by
  cases e with
  | call f args => simp [doc, node, Node.document, functionName, Function.undeclared]
  | niladic f => rfl
  | select q => simp [doc, node, Node.document, Clauses.map]
  | _ => rfl

/-- What the operand of a negation is written as after the sign. -/
def negatedDoc (d : Dialect) (e : Expr) : Doc :=
  Doc.encloseIf (enclosesOperand d .negate e) (e.doc d)

/-- An expression in the place of another one: its document has something else where parameters are
mentioned, and every node puts it between parentheses as the other one.  The operand of a negation
may be a parameter, and the parentheses may belong to what is put in its place. -/
structure StandsFor (d : Dialect) (put : String → Bool → Doc) (e e' : Expr) : Prop where
  doc : Replaces d put 0 0 e.mentions (e.doc d) (e'.doc d)
  precedence : e.precedence = e'.precedence
  isBinary (op : BinaryOp) : e.isBinary op = e'.isBinary op
  startsWithMinus : e.isParameter = false → e.startsWithMinus d = e'.startsWithMinus d
  negated {name : String} {t : Typing} {nullable : Bool} :
    e = .parameter name t nullable → e'.negatedDoc d = put name true

variable {d : Dialect} {put : String → Bool → Doc} {h : Expr → Expr} {e e' : Expr}

theorem StandsFor.enclosesLeft (s : StandsFor d put e e') (op : BinaryOp) :
    Expr.enclosesLeft op e = Expr.enclosesLeft op e' := by
  simp only [Expr.enclosesLeft, s.precedence]

theorem StandsFor.enclosesRight (s : StandsFor d put e e') (op : BinaryOp) :
    Expr.enclosesRight op e = Expr.enclosesRight op e' := by
  simp only [Expr.enclosesRight, s.precedence, s.isBinary]

theorem StandsFor.enclosesOperand (s : StandsFor d put e e') {op : UnaryOp}
    (other : op ≠ .negate ∨ e.isParameter = false) :
    Expr.enclosesOperand d op e = Expr.enclosesOperand d op e' := by
  cases op with
  | negate =>
      have sign := s.startsWithMinus (other.resolve_left fun differ => differ rfl)
      simp only [Expr.enclosesOperand, s.precedence, sign]
  | _ => simp only [Expr.enclosesOperand, s.precedence]

theorem replaces_functionName (f : Function) :
    Replaces d put 0 0 [] (functionName d f) (functionName d f) := by
  unfold functionName
  cases f.schema with
  | none => exact .text f.name
  | some schema => exact ((Replaces.verbatim _).append (.text ".")).append (.text f.name)

theorem replaces_unaryDoc (op : UnaryOp) {ms : List Mention} {a b : Doc}
    (operand : Replaces d put 0 0 ms a b) :
    Replaces d put 0 0 ms (unaryDoc op a) (unaryDoc op b) := by
  cases op with
  | not => exact operand.behind (.text "NOT ")
  | negate => exact operand.behind (.text "-")
  | isNull => exact operand.before (.text " IS NULL")
  | isNotNull => exact operand.before (.text " IS NOT NULL")

/-- The document of a node over expressions that stand for its children. -/
theorem replaces_document {e : Expr} (children : ∀ c ∈ e.children, StandsFor d put c (h c))
    (own : ∀ name t nullable, e = .parameter name t nullable →
      put name false = Doc.parameter name ++ text (d.placeholder name)) :
    Replaces d put 0 0 e.mentions (e.doc d) ((e.node h).document d) := by
  cases e with
  | column name tableAlias t nullable =>
      rw [mentions_leaf rfl rfl]
      exact ((Replaces.verbatim _).append (.text ".")).append (.verbatim _)
  | constant v t =>
      rw [mentions_leaf rfl rfl]
      exact .verbatim _
  | parameter name t nullable =>
      have mention : Replaces d put 0 0 [{ name }] _ _ := .parameter name false
      rw [own name t nullable rfl] at mention
      rw [mentions_parameter]
      exact mention
  | fragment s =>
      rw [mentions_leaf rfl rfl]
      exact .text s
  | niladic f =>
      rw [mentions_leaf rfl rfl]
      exact replaces_functionName f
  | table name tableAlias =>
      rw [mentions_leaf rfl rfl]
      exact ((Replaces.text _).append (.text " AS ")).append (.verbatim _)
  | call f args =>
      have list : Replaces d put 0 0 (args.flatMap mentions)
          (Doc.separate comma (args.map (Expr.doc d)))
          (Doc.separate comma (args.map fun a => (h a).doc d)) :=
        Doc.replaces_separate (.text ", ") fun a mem => (children a mem).doc
      rw [mentions_of_children rfl rfl, doc, docs_eq_map, node, Node.document, List.map_map]
      exact (list.encloseIf true).behind (replaces_functionName f)
  | binary op l r t =>
      have left := children l List.mem_cons_self
      have right := children r (List.mem_cons_of_mem l List.mem_cons_self)
      have front := (((left.doc.encloseIf (enclosesLeft op l)).before (.text " ")).before
        (.text op.symbol)).before (.text " ")
      rw [mentions_of_pair rfl rfl rfl, node, Node.document, ← left.enclosesLeft, ← right.enclosesRight]
      exact front.append (right.doc.encloseIf (enclosesRight op r))
  | unary op x t =>
      have operand := children x List.mem_cons_self
      by_cases negated : op = .negate ∧ x.isParameter = true
      · obtain ⟨rfl, parameter⟩ := negated
        obtain ⟨name, t', nullable, rfl⟩ := exists_of_isParameter parameter
        have mention : Replaces d put 0 0 [{ name, negated := true }] _ _ := .parameter name true
        rw [← operand.negated rfl] at mention
        rw [mentions_negated]
        exact mention.behind (.text "-")
      · have other : op ≠ .negate ∨ x.isParameter = false := by
          rw [not_and_or, Bool.not_eq_true] at negated
          exact negated
        rw [mentions_unary t x other, node, Node.document, ← operand.enclosesOperand other]
        exact replaces_unaryDoc op (operand.doc.encloseIf (enclosesOperand d op x))
  | join k t p =>
      have table := (children t List.mem_cons_self).doc
      have predicate := (children p (List.mem_cons_of_mem t List.mem_cons_self)).doc
      rw [mentions_of_pair rfl rfl rfl]
      exact ((table.behind (.text k.keyword)).before (.text " ON ")).append predicate
  | crossJoin x =>
      rw [mentions_of_child rfl rfl rfl]
      exact (children x List.mem_cons_self).doc.behind (.text "CROSS JOIN ")
  | projection x columnAlias =>
      rw [mentions_of_child rfl rfl rfl]
      refine (children x List.mem_cons_self).doc.before ?_
      cases columnAlias with
      | none => exact .nil
      | some a => exact (Replaces.text " AS ").append (.verbatim _)
  | ordering x ascending =>
      rw [mentions_of_child rfl rfl rfl]
      refine (children x List.mem_cons_self).doc.before ?_
      cases ascending with
      | false => exact .text " DESC"
      | true => exact .nil
  | collate x collation =>
      rw [mentions_of_child rfl rfl rfl]
      exact ((children x List.mem_cons_self).doc.before (.text " COLLATE ")).before
        (.text collation)
  | select q =>
      have clauses : Replaces d put 0 0 (q.toClauses.toList.flatMap mentions)
          (selectDoc d q.distinct (q.toClauses.map (Expr.doc d)))
          (selectDoc d q.distinct (q.toClauses.map fun c => (h c).doc d)) :=
        replaces_selectDoc q.distinct fun c mem => (children c mem).doc
      have composed : (q.toClauses.map h).map (Expr.doc d) =
          q.toClauses.map fun c => (h c).doc d :=
        Slots.select.inj (Slots.map_map h (Expr.doc d) (.select q.toClauses))
      rw [mentions_of_children rfl rfl, doc, docSelect_eq, node, Node.document, composed]
      exact clauses
  | setOperation op a l r distinct =>
      have left := (children _ List.mem_cons_self).doc
      have right := (children _ (List.mem_cons_of_mem _ List.mem_cons_self)).doc
      rw [mentions_setOperation]
      exact replaces_setOperationDoc op a distinct left right

end Expr

end SqlGen
