import SqlGen.Proofs.Printing.Frame
import SqlGen.Proofs.Printing.Piece

/-!
# Selects inside a tree

SQL reads the clauses of a nested select as its own if it stands between parentheses of its own
(`Expr.IsEnclosed`), or if it is a source of a set operation and has no clause that the operation
would take, `Select.IsPlain`.

Operands of operators are delimited because a select binds more loosely than every operator.  No
other node encloses its children, so a select is not delimited in an argument list, in an item of a
list, as a table, as a condition, in an order or as a limit.  `Expr.isDelimited_iff` says both of
every select in every tree.
-/

namespace SqlGen

/-! ## Text between parentheses -/

/-- A page goes on with a parenthesis, perhaps behind the margin of a line that it has started. -/
theorem Page.sql_add_parenthesis (p : Page) (depth : Nat) {s : String} (h : s = "(" ∨ s = ")") :
    ∃ gap, (gap = "" ∨ gap = margin depth) ∧ (p.add ⟨depth, .text s⟩).sql = p.sql ++ gap ++ s := by
  have put : p.add ⟨depth, .text s⟩ = p.put depth s := by
    rcases h with rfl | rfl <;> rfl
  have written : s.isEmpty = false := by
    rcases h with rfl | rfl <;> rfl
  rw [put, Page.put, written]
  cases p.lineStart with
  | false => exact ⟨"", .inl rfl, by simp⟩
  | true => exact ⟨margin depth, .inr rfl, rfl⟩

theorem Page.lineStart_add_opening (p : Page) (depth : Nat) :
    (p.add ⟨depth, .text "("⟩).lineStart = false := rfl

/-- Between parentheses a document writes its own text.  Only the margin of a line that it has
started stands behind it. -/
theorem Doc.sql_render_enclose (before d after : Doc) (depth : Nat) :
    ∃ front gap back, (gap = "" ∨ gap = Page.margin depth) ∧
      (Doc.render (before ++ indent^[depth] (enclose d) ++ after)).sql =
        front ++ "(" ++ (indent^[depth] d).body ++ gap ++ ")" ++ back := by
  have pieces : indent^[depth] (enclose d) =
      [⟨depth, .text "("⟩] ++ indent^[depth] d ++ [⟨depth, .text ")"⟩] := by
    rw [enclose, iterate_indent_append, iterate_indent_append, iterate_indent_text,
      iterate_indent_text]
  let start := Page.addAll {} before
  let opened := start.add ⟨depth, .text "("⟩
  let filled := opened.addAll (indent^[depth] d)
  obtain ⟨gap, -, opening⟩ := start.sql_add_parenthesis depth (.inl rfl)
  have inside : filled.sql = opened.sql ++ (indent^[depth] d).body :=
    sql_addAll_of_not_lineStart (start.lineStart_add_opening depth) _
  obtain ⟨gap', blank, closing⟩ := filled.sql_add_parenthesis depth (.inr rfl)
  obtain ⟨back, behind, -⟩ :=
    Page.exists_inOrder_addAll (List.nil_sublist after) (filled.add ⟨depth, .text ")"⟩)
  refine ⟨start.sql ++ gap, gap', back, blank, ?_⟩
  have whole : (Doc.render (before ++ indent^[depth] (enclose d) ++ after)).sql =
      ((filled.add ⟨depth, .text ")"⟩).addAll after).sql := by
    rw [pieces, Doc.render, Page.addAll_append, Page.addAll_append, Page.addAll_append,
      Page.addAll_append]
    rfl
  rw [whole, behind, closing, inside, opening]

/-! ## Delimited selects -/

/-- A select without an order, a limit and an offset, which are clauses of a set operation too. -/
def Select.IsPlain (q : Select Expr) : Prop :=
  q.orderings = [] ∧ q.limit = none ∧ q.offset = none

namespace Expr

/-- A select stands in the frames between parentheses of its own: something else in its place is
printed without them, behind the same text and in front of the same text. -/
def IsEnclosed (d : Dialect) (place : List Frame) (q : Select Expr) : Prop :=
  ∃ before after depth,
    (∃ x root, plug place x = .ok root ∧
      root.doc d = before ++ Doc.indent^[depth] (x.doc d) ++ after) ∧
    ∃ root, plug place (.select q) = .ok root ∧
      root.doc d = before ++ Doc.indent^[depth] (Doc.enclose (docSelect d q)) ++ after

/-- SQL reads all clauses of the select as its own. -/
def IsDelimited (d : Dialect) (g : Frame) (rest : List Frame) (q : Select Expr) : Prop :=
  IsEnclosed d (g :: rest) q ∨ g.isSource ∧ q.IsPlain

/-! ## Which frames enclose a select -/

/-- A select binds more loosely than every operator. -/
theorem encloses_select (d : Dialect) {g : Frame} (h : g.isOperand = true) (q : Select Expr) :
    g.encloses d (.select q) = true := by
  cases g with
  | left op r t => cases op <;> rfl
  | right op l t => cases op <;> rfl
  | operand op t => cases op <;> rfl
  | _ => cases h

theorem encloses_eq_false (d : Dialect) {g : Frame} (h : g.isOperand = false) (x : Expr) :
    g.encloses d x = false := by
  cases g with
  | left | right | operand => cases h
  | _ => rfl

/-- Empty text is an operand that needs no parentheses. -/
theorem encloses_fragment (d : Dialect) (g : Frame) : g.encloses d (.fragment "") = false := by
  cases g with
  | left op r t => cases op <;> rfl
  | right op l t => cases op <;> rfl
  | operand op t => cases op <;> rfl
  | _ => rfl

theorem exists_fill_of_isOperand {g : Frame} (h : g.isOperand = true) (x : Expr) :
    ∃ e, g.fill x = .ok e := by
  cases g with
  | left | right | operand => exact ⟨_, rfl⟩
  | _ => cases h

variable {d : Dialect} {g : Frame} {rest : List Frame} {q : Select Expr} {root : Expr}

theorem isEnclosed_of_isOperand (operand : g.isOperand = true)
    (whole : plug (g :: rest) (.select q) = .ok root) : IsEnclosed d (g :: rest) q := by
  obtain ⟨F, ⟨before, after, depth, placed⟩, printed⟩ := doc_plug d g rest
  obtain ⟨e, filled, outside⟩ := plug_cons_eq_ok.mp whole
  obtain ⟨e', filled'⟩ := exists_fill_of_isOperand operand (.fragment "")
  obtain ⟨root', outside'⟩ := exists_plug_of_fill filled filled' outside
  have whole' : plug (g :: rest) (.fragment "") = .ok root' :=
    plug_cons_eq_ok.mpr ⟨e', filled', outside'⟩
  refine ⟨before, after, depth, ⟨.fragment "", root', whole', ?_⟩, root, whole, ?_⟩
  · rw [printed _ _ whole', encloses_fragment, placed]
    rfl
  · rw [printed _ _ whole, encloses_select d operand, placed]
    rfl

/-- What is printed bare wherever it stands leaves no room for parentheses. -/
theorem not_isEnclosed (bare : g.isOperand = false) : ¬ IsEnclosed d (g :: rest) q := by
  rintro ⟨before, after, depth, ⟨x, root', whole', something⟩, root, whole, between⟩
  obtain ⟨F, ⟨front, back, depth', placed⟩, printed⟩ := doc_plug d g rest
  have first := congrArg List.length ((printed _ _ whole').symm.trans something)
  have second := congrArg List.length ((printed _ _ whole).symm.trans between)
  simp only [encloses_eq_false d bare, Doc.encloseIf, Bool.false_eq_true, if_false, placed, doc,
    Doc.enclose, Doc.text, List.length_append, List.length_singleton,
    Doc.length_iterate_indent] at first second
  omega

/-- A select in a frame is delimited exactly as an operand, or as a plain source of a set
operation. -/
theorem isDelimited_iff_of_plug (whole : plug (g :: rest) (.select q) = .ok root) :
    IsDelimited d g rest q ↔ g.isOperand = true ∨ g.isSource = true ∧ q.IsPlain := by
  constructor
  · rintro (enclosed | plain)
    · refine .inl ?_
      by_contra other
      exact not_isEnclosed (Bool.eq_false_iff.mpr other) enclosed
    · exact .inr plain
  · rintro (operand | plain)
    · exact .inl (isEnclosed_of_isOperand operand whole)
    · exact .inr plain

/-- The text of an enclosed select stands between two parentheses. -/
theorem IsEnclosed.exists_sql {place : List Frame} (h : IsEnclosed d place q)
    (whole : plug place (.select q) = .ok root) :
    ∃ front gap back depth, (gap = "" ∨ gap = Page.margin depth) ∧
      (root.print d).sql =
        front ++ "(" ++ (Doc.indent^[depth] (docSelect d q)).body ++ gap ++ ")" ++ back := by
  obtain ⟨before, after, depth, -, root', whole', printed⟩ := h
  obtain rfl := Except.ok.inj (whole.symm.trans whole')
  obtain ⟨front, gap, back, blank, sql⟩ :=
    Doc.sql_render_enclose before (docSelect d q) after depth
  refine ⟨front, gap, back, depth, blank, ?_⟩
  rw [print, printed, sql]

/-- Every select that is the child of a node in a tree stands there in a frame.  In each such frame
it is delimited exactly if it is the operand of an operator, or a source of a set operation without
an order, a limit and an offset.  The text of an operand stands between two parentheses. -/
theorem isDelimited_iff (d : Dialect) {parent root : Expr} {q : Select Expr}
    (within : parent.Within root) (child : .select q ∈ parent.children) :
    (∃ g rest, Frame.fill g (.select q) = .ok parent ∧ plug rest parent = .ok root) ∧
      ∀ g rest, Frame.fill g (.select q) = .ok parent → plug rest parent = .ok root →
        (IsDelimited d g rest q ↔ g.isOperand = true ∨ g.isSource = true ∧ q.IsPlain) ∧
        (g.isOperand = true → ∃ front gap back depth, (gap = "" ∨ gap = Page.margin depth) ∧
          (root.print d).sql =
            front ++ "(" ++ (Doc.indent^[depth] (docSelect d q)).body ++ gap ++ ")" ++ back) := by
  constructor
  · obtain ⟨g, filled⟩ := Frame.exists_fill_of_mem_children child
    obtain ⟨rest, outside⟩ := exists_plug_of_within within
    exact ⟨g, rest, filled, outside⟩
  · intro g rest filled outside
    have whole : plug (g :: rest) (.select q) = .ok root :=
      plug_cons_eq_ok.mpr ⟨parent, filled, outside⟩
    exact ⟨isDelimited_iff_of_plug whole, fun operand =>
      (isEnclosed_of_isOperand (d := d) operand whole).exists_sql whole⟩

/-- The title of the first post. -/
def firstTitle : Select Expr where
  projection := [.projection (.column "Title" "p" ⟨.string, none⟩ true) none]
  tables := [.table ⟨"Posts", none⟩ "p"]
  orderings := [.ordering (.column "Id" "p" ⟨.int64, none⟩ false) true]
  limit := some (.constant (.integer 1) ⟨.int64, none⟩)

/-- The parameter `@title`. -/
def wantedTitle : Expr := .parameter "title" ⟨.string, none⟩ false

/-- The predicate that the title of the first post is `@title`. -/
def titleIs : Expr := .binary .equal (.select firstTitle) wantedTitle ⟨.boolean, none⟩

/-- As an operand the select stands between parentheses. -/
theorem isDelimited_iff_titleIs :
    titleIs.Within titleIs ∧ .select firstTitle ∈ titleIs.children ∧
      IsDelimited .ansi (.left .equal wantedTitle ⟨.boolean, none⟩) [] firstTitle := by
  have child : .select firstTitle ∈ titleIs.children := List.mem_cons_self
  obtain ⟨-, everywhere⟩ := isDelimited_iff .ansi .self child
  obtain ⟨delimited, -⟩ := everywhere (.left .equal wantedTitle ⟨.boolean, none⟩) [] rfl rfl
  exact ⟨.self, child, delimited.mpr (.inl rfl)⟩

/-- The list of the title of the first post, once for each blog. -/
def titleInList : Expr :=
  .select {
    projection := [.projection (.select firstTitle) none]
    tables := [.table ⟨"Blogs", none⟩ "b"] }

/-- The select around the item of that list. -/
def blogsFrame : Frame := .clause (.item [] []) { tables := [.table ⟨"Blogs", none⟩ "b"] }

/-- In the list of another select the text of the select has no parentheses, and nothing tells its
clauses from those of the other one. -/
theorem not_isDelimited_titleInList :
    plug [.item none, blogsFrame] (.select firstTitle) = .ok titleInList ∧
      (titleInList.print .ansi).sql =
        "SELECT SELECT \"p\".\"Title\"\nFROM \"Posts\" AS \"p\"\nORDER BY \"p\".\"Id\"\n" ++
          "LIMIT 1\nFROM \"Blogs\" AS \"b\"" ∧
      ¬ IsDelimited .ansi (.item none) [blogsFrame] firstTitle := by
  have whole : plug [.item none, blogsFrame] (.select firstTitle) = .ok titleInList := rfl
  refine ⟨whole, by decide +kernel, ?_⟩
  rw [isDelimited_iff_of_plug whole]
  simp [Frame.isOperand, Frame.isSource]

end Expr

end SqlGen
