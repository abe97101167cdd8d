import SqlGen.Proofs.Pass.Stable
import SqlGen.Proofs.Printing.Quiet

/-!
# No comments in printed trees

Minus signs come from negations, from subtractions, from literals below zero and from texts that are
printed as they are.  What a tree prints never has two of them in a row outside of quotes
(`Expr.not_startsComment_print`).

A subtraction has blanks around its sign.  The operand of a negation stands right behind the sign,
but it is enclosed unless it is an atom that does not start with a minus sign.  Items of lists are
atoms, too, and print their operand first, so they must stay in the lists of selects.  All other
texts start with letters, parentheses or quotes.
-/

namespace SqlGen

namespace Expr

open Doc (text verbatim line)

/-! ## Trees -/

/-- The texts of a node that are printed as they are. -/
def rawTexts : Expr → List String
  | .parameter name _ _ => [name]
  | .fragment sql => [sql]
  | .call f _ | .niladic f => [f.name]
  | .setOperation _ tableAlias _ _ _ => [tableAlias]
  | .collate _ collation => [collation]
  | _ => []

/-- The name of the function that a node calls. -/
def functionName? : Expr → Option String
  | .call f _ | .niladic f => some f.name
  | _ => none

/-- The texts of a node that are printed as they are start no comment, and the name of its function
does not start with a minus sign. -/
structure HasRawTexts (e : Expr) : Prop where
  raw : ∀ s ∈ e.rawTexts, IsRaw s
  function : ∀ name, e.functionName? = some name → name.toList.head? ≠ some '-'

/-- An item of the list or of the order of a select. -/
def isItem : Expr → Bool
  | .projection .. | .ordering .. => true
  | _ => false

/-- The children of a node, without the list and the order of a select. -/
def unlisted : Expr → List Expr
  | .select q => q.tables ++ q.predicate.toList ++ q.limit.toList ++ q.offset.toList
  | e => e.children

/-- No items stand outside of the lists of selects. -/
def HasItemsInLists (e : Expr) : Prop := ∀ c ∈ e.unlisted, c.isItem = false

/-- The texts and the items of every node of the tree are as they have to be. -/
def IsPlain (root : Expr) : Prop := ∀ e : Expr, e.Within root → e.HasRawTexts ∧ e.HasItemsInLists

theorem IsPlain.child {c e : Expr} (h : e.IsPlain) (mem : c ∈ e.children) : c.IsPlain :=
  fun x below => h x (.child mem below)

theorem IsPlain.of_children {e : Expr} (texts : e.HasRawTexts) (items : e.HasItemsInLists)
    (children : ∀ c ∈ e.children, c.IsPlain) : e.IsPlain :=
  forall_within ⟨texts, items⟩ children

/-- A node without texts of its own only needs its items in lists. -/
theorem HasRawTexts.of_none {e : Expr} (texts : e.rawTexts = []) (call : e.functionName? = none) :
    e.HasRawTexts where
  raw _ mem := absurd (texts ▸ mem) List.not_mem_nil
  function _ known := nomatch call.symm.trans known

/-! ## Parts of documents -/

section Parts

variable {d : Dialect}

theorem scans_identifier (quiet : d.IsQuiet) (name : String) :
    (identifier d name).Scans .minus .outside := Doc.scans_verbatim.mpr (.inl (quiet.delimit name))

theorem scans_functionName (quiet : d.IsQuiet) {f : Function} (raw : IsRaw f.name)
    (start : f.name.toList.head? ≠ some '-') : (functionName d f).Scans .minus .minus := by
  have name : (text f.name).Scans .outside .minus := Doc.scans_text.mpr raw.below
  unfold functionName
  cases f.schema with
  | none => exact name.behindMinus (by rwa [Doc.plain_text])
  | some schema =>
      have point : (text ".").Scans .outside .outside := by decide
      exact ((scans_identifier quiet schema).append point).append name

theorem scans_aliasDoc (quiet : d.IsQuiet) (columnAlias : Option String) :
    (aliasDoc d columnAlias).Scans .minus .minus := by
  cases columnAlias with
  | none => exact .nil _
  | some columnAlias =>
      have word : (text " AS ").Scans .minus .minus := by decide
      exact (word.append (scans_identifier quiet columnAlias)).weaken

theorem scans_clause {words : String} (starts : (line ++ text words).Scans .minus .outside)
    {body : Option Doc} (scans : ∀ b, body = some b → b.Scans .outside .minus) :
    (clause words body).Scans .minus .minus := by
  cases body with
  | none => exact .nil _
  | some b => exact starts.append (scans b rfl)

theorem scans_comma : comma.Scans .minus .outside := by decide

theorem scans_listDoc {items : List Doc} (each : ∀ x ∈ items, x.Scans .outside .minus) :
    (listDoc items).Scans .outside .minus := by
  unfold listDoc
  split
  next => decide
  next => exact .separate scans_comma each

theorem scans_tablesDoc {tables : List Doc} (each : ∀ x ∈ tables, x.Scans .outside .minus) :
    (tablesDoc tables).Scans .minus .minus := by
  cases tables with
  | nil => decide
  | cons source joins =>
      have word : (line ++ text "FROM ").Scans .minus .outside := by decide
      have lines : Doc.Scans .minus .minus (joins.flatMap fun j => line ++ j) := by
        replace each (x : Doc) (mem : x ∈ joins) := each x (List.mem_cons_of_mem source mem)
        induction joins with
        | nil => decide
        | cons j rest ih =>
            have start : line.Scans .minus .outside := by decide
            have first := start.append (each j List.mem_cons_self)
            exact first.append (ih fun x mem => each x (List.mem_cons_of_mem j mem))
      exact (word.append (each source List.mem_cons_self)).append lines

theorem scans_orderDoc {items : List Doc} (each : ∀ x ∈ items, x.Scans .outside .minus) :
    (orderDoc items).Scans .minus .minus := by
  unfold orderDoc
  split
  next => decide
  next =>
    have word : (line ++ text "ORDER BY ").Scans .minus .outside := by decide
    exact word.append (.separate scans_comma each)

theorem scans_limitDoc (quiet : d.IsQuiet) {limit offset : Option Doc}
    (scansLimit : ∀ l, limit = some l → l.Scans .outside .minus)
    (scansOffset : ∀ o, offset = some o → o.Scans .outside .minus) :
    (limitDoc d limit offset).Scans .minus .minus := by
  have limitWord : (line ++ text "LIMIT ").Scans .minus .outside := by decide
  have offsetWord : (text " OFFSET ").Scans .minus .outside := by decide
  cases limit with
  | some l =>
      have first := limitWord.append (scansLimit l rfl)
      cases offset with
      | none => exact first
      | some o => exact (first.append offsetWord).append (scansOffset o rfl)
  | none =>
      cases offset with
      | none => exact .nil _
      | some o =>
          have start : line.Scans .minus .outside := by decide
          have word : (text "OFFSET ").Scans .outside .outside := by decide
          refine .append (.append (start.append ?_) word) (scansOffset o rfl)
          cases known : d.unboundedLimit with
          | none => decide
          | some unbounded =>
              have limitWord : (text "LIMIT ").Scans .outside .outside := by decide
              have number : (text unbounded).Scans .outside .minus :=
                Doc.scans_text.mpr (quiet.unbounded known)
              have blank : (text " ").Scans .minus .outside := by decide
              exact (limitWord.append number).append blank

theorem scans_selectDoc (quiet : d.IsQuiet) (distinct : Bool) {c : Clauses Doc}
    (each : ∀ x ∈ c.toList, x.Scans .outside .minus) :
    (selectDoc d distinct c).Scans .minus .minus := by
  have word : (text "SELECT ").Scans .minus .outside := by decide
  have once : Doc.Scans .outside .outside (if distinct then text "DISTINCT " else []) := by
    cases distinct <;> decide
  have list : (listDoc c.projection).Scans .outside .minus :=
    scans_listDoc fun x mem => each x (Clauses.mem_toList.mpr (by tauto))
  have tables : (tablesDoc c.tables).Scans .minus .minus :=
    scans_tablesDoc fun x mem => each x (Clauses.mem_toList.mpr (by tauto))
  have predicate : (clause "WHERE " c.predicate).Scans .minus .minus :=
    scans_clause (by decide) fun x known => each x (Clauses.mem_toList.mpr (by tauto))
  have order : (orderDoc c.orderings).Scans .minus .minus :=
    scans_orderDoc fun x mem => each x (Clauses.mem_toList.mpr (by tauto))
  have limit : (limitDoc d c.limit c.offset).Scans .minus .minus :=
    scans_limitDoc quiet (fun x known => each x (Clauses.mem_toList.mpr (by tauto)))
      fun x known => each x (Clauses.mem_toList.mpr (by tauto))
  exact ((((((word.append once).append list).append tables).append predicate).append order).append
    limit)

theorem scans_setOperationDoc (op : SetOp) {tableAlias : String} (raw : IsRaw tableAlias)
    {left right : Doc} (scansLeft : left.Scans .outside .minus)
    (scansRight : right.Scans .outside .minus) (distinct : Bool) :
    (setOperationDoc op tableAlias left right distinct).Scans .minus .minus := by
  have opening : (text "(" ++ line).Scans .minus .outside := by decide
  have newline : line.Scans .minus .outside := by decide
  have word : (text op.keyword).Scans .outside .outside := by cases op <;> decide
  have all : Doc.Scans .outside .minus (if distinct then [] else text " ALL") := by
    cases distinct <;> decide
  have closing : (text ") AS ").Scans .outside .outside := by decide
  have name : (verbatim tableAlias).Scans .outside .minus := Doc.scans_verbatim.mpr raw.below
  have inside := ((((scansLeft.append newline).append word).append all).append newline).append
    scansRight
  exact (((opening.append inside.indent).append newline).append closing).append name

end Parts

/-! ## Whole trees -/

section Trees

variable {d : Dialect}

/-- The node may be printed behind another text, and behind a minus sign if it may be the operand of
a negation there. -/
def IsPrinted (d : Dialect) (e : Expr) : Prop :=
  (e.doc d).Scans .outside .minus ∧
    (e.isItem = false → e.enclosesOperand d .negate = false → (e.doc d).Scans .minus .minus)

theorem IsPrinted.of_scans {e : Expr} (h : (e.doc d).Scans .minus .minus) : e.IsPrinted d :=
  ⟨h.mono Scan.outside_below_minus (.refl _), fun _ _ => h⟩

/-- A literal or a fragment that stands behind a minus sign does not start with another one. -/
theorem head_ne_of_not_encloses {e : Expr} {cs : List Char}
    (starts : e.startsWithMinus d = (cs.head? == some '-'))
    (free : e.enclosesOperand d .negate = false) : cs.head? ≠ some '-' := by
  obtain ⟨-, noSign⟩ := Bool.or_eq_false_iff.mp free
  rw [starts] at noSign
  exact beq_eq_false_iff_ne.mp noSign

theorem isPrinted_constant (quiet : d.IsQuiet) (v : Value) (t : Typing) :
    (constant v t).IsPrinted d := by
  have scans : (verbatim (d.literal v)).Scans .outside .minus :=
    Doc.scans_verbatim.mpr (quiet.literal v)
  refine ⟨scans, fun _ free => scans.behindMinus ?_⟩
  rw [Doc.plain_verbatim]
  exact head_ne_of_not_encloses rfl free

theorem isPrinted_fragment {sql : String} (raw : IsRaw sql) : (fragment sql).IsPrinted d := by
  have scans : (text sql).Scans .outside .minus := Doc.scans_text.mpr raw.below
  refine ⟨scans, fun _ free => scans.behindMinus ?_⟩
  rw [Doc.plain_text]
  have inside : (Text.dropBlanks sql.toList).head? ≠ some '-' := head_ne_of_not_encloses rfl free
  intro start
  obtain ⟨rest, starts⟩ := List.head?_eq_some_iff.mp start
  have sign : Text.isBlank '-' = false := by decide
  have kept : Text.dropBlanks ('-' :: rest) = '-' :: rest := by
    rw [Text.dropBlanks, List.dropWhile_cons, sign]
    rfl
  rw [starts, kept] at inside
  exact inside rfl

theorem isPrinted_unary {op : UnaryOp} {e : Expr} {t : Typing} (operand : e.IsPrinted d)
    (noItem : e.isItem = false) : (unary op e t).IsPrinted d := by
  have enclosed := operand.1.encloseIf (enclosesOperand d op e)
  have scans : ((unary op e t).doc d).Scans .outside .minus := by
    rw [doc]
    unfold unaryDoc
    cases op with
    | not =>
        have word : (text "NOT ").Scans .outside .outside := by decide
        exact word.append enclosed
    | negate =>
        have sign : (text "-").Scans .outside .minus := by decide
        refine sign.append ?_
        cases free : enclosesOperand d .negate e with
        | false => exact operand.2 noItem free
        | true => exact operand.1.enclose.weaken
    | isNull | isNotNull => exact enclosed.append (by decide)
  refine ⟨scans, fun _ free => ?_⟩
  -- A node of this kind is enclosed behind a minus sign.
  cases op <;> cases free

theorem isPrinted_binary {op : BinaryOp} {l r : Expr} {t : Typing} (left : l.IsPrinted d)
    (right : r.IsPrinted d) : (binary op l r t).IsPrinted d := by
  have blank : (text " ").Scans .minus .outside := by decide
  have symbol : (text op.symbol).Scans .outside .minus := by cases op <;> decide
  have first := left.1.encloseIf (enclosesLeft op l)
  have second := right.1.encloseIf (enclosesRight op r)
  have scans : ((binary op l r t).doc d).Scans .outside .minus := by
    rw [doc]
    exact (((first.append blank).append symbol).append blank).append second
  refine ⟨scans, fun _ free => ?_⟩
  cases op <;> cases free

/-- Every node is printed so, if its children are. -/
theorem isPrinted_of_children (quiet : d.IsQuiet) {e : Expr} (texts : e.HasRawTexts)
    (items : e.HasItemsInLists) (children : ∀ c ∈ e.children, c.IsPrinted d) : e.IsPrinted d := by
  cases e with
  | column name tableAlias t nullable =>
      have point : (text ".").Scans .outside .minus := by decide
      have first := (scans_identifier quiet tableAlias).append point
      refine .of_scans ?_
      rw [doc]
      exact (first.append (scans_identifier quiet name)).weaken
  | constant v t => exact isPrinted_constant quiet v t
  | parameter name t nullable =>
      have raw : IsRaw name := texts.raw name List.mem_cons_self
      refine .of_scans ?_
      rw [doc, Doc.Scans, Doc.plain_append, Doc.plain_text]
      exact quiet.placeholder raw
  | fragment sql => exact isPrinted_fragment (texts.raw sql List.mem_cons_self)
  | call f args =>
      have name := scans_functionName quiet (texts.raw f.name List.mem_cons_self)
        (texts.function f.name rfl)
      have list : (Doc.separate comma (docs d args)).Scans .outside .minus := by
        refine .separate scans_comma fun x mem => ?_
        rw [docs_eq_map] at mem
        obtain ⟨a, argument, rfl⟩ := List.mem_map.mp mem
        exact (children a argument).1
      refine .of_scans ?_
      rw [doc]
      exact (name.append list.enclose).weaken
  | niladic f =>
      exact .of_scans (scans_functionName quiet (texts.raw f.name List.mem_cons_self)
        (texts.function f.name rfl))
  | binary op l r t =>
      exact isPrinted_binary (children l List.mem_cons_self)
        (children r (List.mem_cons_of_mem l List.mem_cons_self))
  | unary op operand t =>
      exact isPrinted_unary (children operand List.mem_cons_self)
        (items operand List.mem_cons_self)
  | table name tableAlias =>
      have qualified : (text (d.delimitQualified name)).Scans .minus .outside :=
        Doc.scans_text.mpr (.inl (quiet.qualified name))
      have word : (text " AS ").Scans .outside .minus := by decide
      refine .of_scans ?_
      rw [doc]
      exact ((qualified.append word).append (scans_identifier quiet tableAlias)).weaken
  | join k t p =>
      have word : (text k.keyword).Scans .minus .outside := by cases k <;> decide
      have on : (text " ON ").Scans .minus .outside := by decide
      have table := (children t List.mem_cons_self).1
      have predicate := (children p (List.mem_cons_of_mem t List.mem_cons_self)).1
      refine .of_scans ?_
      rw [doc]
      exact ((word.append table).append on).append predicate
  | crossJoin t =>
      have word : (text "CROSS JOIN ").Scans .minus .outside := by decide
      refine .of_scans ?_
      rw [doc]
      exact word.append (children t List.mem_cons_self).1
  | projection x columnAlias =>
      refine ⟨?_, fun noItem _ => by cases noItem⟩
      rw [doc]
      exact (children x List.mem_cons_self).1.append (scans_aliasDoc quiet columnAlias)
  | ordering x ascending =>
      have direction : Doc.Scans .minus .minus (if ascending then [] else text " DESC") := by
        cases ascending <;> decide
      refine ⟨?_, fun noItem _ => by cases noItem⟩
      rw [doc]
      exact (children x List.mem_cons_self).1.append direction
  | select q =>
      refine .of_scans ?_
      rw [doc, docSelect_eq]
      refine scans_selectDoc quiet q.distinct fun x mem => ?_
      rw [Clauses.toList_map] at mem
      obtain ⟨c, child, rfl⟩ := List.mem_map.mp mem
      exact (children c child).1
  | setOperation op tableAlias l r distinct =>
      have raw : IsRaw tableAlias := texts.raw tableAlias List.mem_cons_self
      refine .of_scans ?_
      rw [doc]
      exact scans_setOperationDoc op raw (children (.select l) List.mem_cons_self).1
        (children (.select r) (List.mem_cons_of_mem _ List.mem_cons_self)).1 distinct
  | collate x collation =>
      have word : (text " COLLATE ").Scans .minus .outside := by decide
      have name : (text collation).Scans .outside .minus :=
        Doc.scans_text.mpr (texts.raw collation List.mem_cons_self).below
      refine ⟨?_, fun _ free => by cases free⟩
      rw [doc]
      exact ((children x List.mem_cons_self).1.append word).append name

theorem isPrinted (quiet : d.IsQuiet) {e : Expr} (plain : e.IsPlain) : e.IsPrinted d := by
  induction e using induction_children with
  | node e ih =>
      obtain ⟨texts, items⟩ := plain e .self
      exact isPrinted_of_children quiet texts items fun c mem => ih c mem (plain.child mem)

end Trees

/-- In the dialects of the library no tree is printed with a comment, neither alone nor as a
statement.  Its fragments and its names that are not quoted must have no quotes and no two minus
signs in a row, its functions must not start with such a sign, and items must stay in the lists of
selects. -/
theorem not_startsComment_print {d : Dialect}
    (library : d = .ansi ∨ ∃ returning, d = Sqlite.dialect returning) {e : Expr}
    (plain : e.IsPlain) :
    ¬ StartsComment (e.print d).sql ∧ ¬ StartsComment (e.printStatement d).sql := by
  have quiet : d.IsQuiet := by
    rcases library with rfl | ⟨returning, rfl⟩
    · exact Dialect.isQuiet_ansi
    · exact Sqlite.isQuiet_dialect returning
  have scans := (isPrinted quiet plain).1
  have terminator : (text d.terminator).Scans .minus .minus :=
    Doc.scans_text.mpr quiet.terminator
  exact ⟨Doc.not_startsComment_render scans, Doc.not_startsComment_render (scans.append terminator)⟩

/-! ## A query full of signs -/

/-- The negation of a number. -/
def minusOf (x : Expr) : Expr := .unary .negate x ⟨.int64, none⟩

/-- The difference of the negation of a negative number and of a negation twice over a fragment. -/
def signs : Expr :=
  .binary .subtract (minusOf (.constant (.integer (-5)) ⟨.int64, none⟩))
    (minusOf (minusOf (.fragment " -1"))) ⟨.int64, none⟩

/-- The difference under the name `--`. -/
def selectSigns : Expr := .select { projection := [.projection signs (some "--")], tables := [] }

theorem isPlain_selectSigns : selectSigns.IsPlain := by
  have negated {e : Expr} (noItem : e.isItem = false) (h : e.IsPlain) : (minusOf e).IsPlain := by
    refine .of_children (.of_none rfl rfl) (fun c mem => ?_) fun c mem => ?_
    · obtain rfl := List.mem_singleton.mp mem
      exact noItem
    · obtain rfl := List.mem_singleton.mp mem
      exact h
  have number : (constant (.integer (-5)) ⟨.int64, none⟩).IsPlain :=
    .of_children (.of_none rfl rfl) (fun _ mem => (nomatch mem)) fun _ mem => nomatch mem
  have texts : (fragment " -1").HasRawTexts := by
    refine ⟨fun s mem => ?_, fun _ call => nomatch call⟩
    obtain rfl := List.mem_singleton.mp mem
    exact ⟨by decide, by decide, by decide⟩
  have fragment : (fragment " -1").IsPlain :=
    .of_children texts (fun _ mem => (nomatch mem)) fun _ mem => nomatch mem
  have difference : signs.IsPlain := by
    refine .of_children (.of_none rfl rfl) (fun c mem => ?_) fun c mem => ?_
    · rcases List.mem_pair.mp mem with rfl | rfl <;> rfl
    · rcases List.mem_pair.mp mem with rfl | rfl
      · exact negated rfl number
      · exact negated rfl (negated rfl fragment)
  refine .of_children (.of_none rfl rfl) (fun _ mem => (nomatch mem)) fun c mem => ?_
  obtain rfl := List.mem_singleton.mp mem
  refine .of_children (.of_none rfl rfl) (fun c mem => ?_) fun c mem => ?_
  · obtain rfl := List.mem_singleton.mp mem
    rfl
  · obtain rfl := List.mem_singleton.mp mem
    exact difference

/-- The signs of the difference are kept apart.  The name has two in a row, but inside quotes. -/
theorem not_startsComment_selectSigns :
    selectSigns.IsPlain ∧
      (selectSigns.print .ansi).sql = "SELECT -(-5) - -(-( -1)) AS \"--\"" ∧
      ¬ StartsComment (selectSigns.print .ansi).sql := by
  refine ⟨isPlain_selectSigns, ?_, (not_startsComment_print (.inl rfl) isPlain_selectSigns).1⟩
  decide +kernel

end Expr

end SqlGen
