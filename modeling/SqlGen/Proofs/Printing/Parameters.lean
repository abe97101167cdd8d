import SqlGen.Proofs.Pass.Rebuild
import SqlGen.Proofs.Printing.Mention
import SqlGen.Proofs.Printing.Piece

/-!
# The parameters of a printed expression

Who runs a printed query binds values by the list of its parameters.  The printer adds a name to the
list when it meets the first parameter of that name.  Each node prints its children in an order of
its own, and a visit of the children has an order, too.

The two orders are the same for every kind of node.  So the list is that of the names which a visit
of the whole tree meets, a node before its children, without repetitions
(`Expr.parameters_print`).
-/

namespace SqlGen

/-! ## Parameters of a page -/

/-- The parameter that a piece mentions. -/
def Piece.parameter? (piece : Piece) : Option String :=
  match piece.content with
  | .parameter name => some name
  | _ => none

theorem Piece.parameter?_eq_none {piece : Piece} (other : ∀ name, piece.content ≠ .parameter name) :
    piece.parameter? = none := by
  obtain ⟨depth, content⟩ := piece
  cases content with
  | parameter name => exact absurd rfl (other name)
  | _ => rfl

/-- The parameters that a document mentions, in its order. -/
def Doc.names (d : Doc) : List String := d.filterMap Piece.parameter?

namespace Page

theorem parameters_put (p : Page) (depth : Nat) (s : String) :
    (p.put depth s).parameters = p.parameters := by
  unfold put
  split <;> rfl

theorem parameters_foldl_putChar (p : Page) (depth : Nat) (cs : List Char) :
    (cs.foldl (putChar depth) p).parameters = p.parameters := by
  induction cs generalizing p with
  | nil => rfl
  | cons c rest ih =>
      rw [List.foldl_cons, ih, putChar]
      split
      next => rfl
      next => exact p.parameters_put depth _

/-- A piece that mentions no parameter adds none to the list. -/
theorem parameters_add_of_none (p : Page) {piece : Piece} (h : piece.parameter? = none) :
    (p.add piece).parameters = p.parameters := by
  obtain ⟨depth, content⟩ := piece
  cases content with
  | text s => exact p.parameters_foldl_putChar depth s.toList
  | verbatim s => exact p.parameters_put depth s
  | line => rfl
  | parameter name => cases h

theorem parameters_add_of_some (p : Page) {piece : Piece} {name : String}
    (h : piece.parameter? = some name) :
    (p.add piece).parameters =
      if name ∈ p.parameters then p.parameters else p.parameters ++ [name] := by
  obtain ⟨depth, content⟩ := piece
  cases content with
  | parameter name' =>
      obtain rfl := Option.some.inj h
      show (p.mention name').parameters = _
      unfold mention
      split <;> rfl
  | _ => cases h

/-- A page goes on with the parameters that a document mentions and that it does not list yet, each
of them once. -/
theorem parameters_addAll (p : Page) (d : Doc) :
    (p.addAll d).parameters =
      p.parameters ++ (d.names.filter fun name => name ∉ p.parameters).eraseDups := by
  induction d generalizing p with
  | nil => simp [Doc.names]
  | cons piece rest ih =>
      rw [addAll_cons, ih]
      cases mentioned : piece.parameter? with
      | none =>
          have names : Doc.names (piece :: rest) = Doc.names rest :=
            List.filterMap_cons_none mentioned
          rw [p.parameters_add_of_none mentioned, names]
      | some name =>
          have names : Doc.names (piece :: rest) = name :: Doc.names rest :=
            List.filterMap_cons_some mentioned
          rw [p.parameters_add_of_some mentioned, names]
          by_cases listed : name ∈ p.parameters
          · simp [listed]
          · have others (ns : List String) :
                (ns.filter fun n => n ∉ p.parameters ++ [name]) =
                  (ns.filter fun n => n ∉ p.parameters).filter fun n => !n == name := by
              rw [List.filter_filter]
              refine List.filter_congr fun n _ => ?_
              by_cases same : n = name <;> simp [same, listed]
            rw [if_neg listed, others]
            simp [listed, List.eraseDups_cons]

end Page

theorem Doc.parameters_render (d : Doc) : d.render.parameters = d.names.eraseDups := by
  show (Page.addAll {} d).parameters = _
  simpa using Page.parameters_addAll {} d

/-! ## Mentions in a document -/

/-- The piece that holds the placeholder. -/
def Mention.piece (d : Dialect) (m : Mention) : Piece := ⟨m.depth, .text (d.placeholder m.name)⟩

/-- The placeholder as it is printed. -/
def Mention.printed (d : Dialect) (m : Mention) : String :=
  String.ofList (Page.laid m.depth false (d.placeholder m.name).toList)

namespace Doc.Replaces

variable {d : Dialect} {put : String → Bool → Doc} {i j : Nat} {ms : List Mention} {a b : Doc}

/-- The first document mentions the parameters, and nothing else. -/
theorem names (h : Replaces d put i j ms a b) : a.names = ms.map Mention.name := by
  induction h with
  | nil => rfl
  | @piece i j ms a b content other _ ih =>
      exact (List.filterMap_cons_none (Piece.parameter?_eq_none other)).trans ih
  | line _ ih => exact ih
  | mention name negated _ ih => exact congrArg (name :: ·) ih

/-- The placeholders stand in the first document. -/
theorem map_piece_sublist (h : Replaces d put i j ms a b) :
    (ms.map (Mention.piece d)).Sublist a := by
  induction h with
  | nil => exact .slnil
  | piece _ _ ih => exact .cons _ ih
  | line _ ih => exact .cons _ ih
  | mention name negated _ ih => exact .cons _ (.cons_cons _ ih)

end Doc.Replaces

/-- A parameter as it is printed. -/
def Dialect.mentioned (d : Dialect) (name : String) (_ : Bool) : Doc :=
  Doc.parameter name ++ Doc.text (d.placeholder name)

namespace Expr

theorem standsFor_self (d : Dialect) (e : Expr) : StandsFor d d.mentioned e e := by
  induction e using induction_children with
  | node e ih =>
      have document := replaces_document (h := fun c => c) ih fun _ _ _ _ => rfl
      rw [← doc_eq_document] at document
      refine ⟨document, rfl, fun _ => rfl, fun _ => rfl, ?_⟩
      rintro name t nullable rfl
      rfl

/-! ## Parameters of a tree -/

/-- The name of a parameter. -/
def ownParameters : Expr → List String
  | .parameter name _ _ => [name]
  | _ => []

/-- The names of the parameters of a tree, a node before its children. -/
def parameterNames (e : Expr) : List String :=
  e.ownParameters ++ e.children.attach.flatMap fun c => parameterNames c.1
termination_by sizeOf e
decreasing_by exact sizeOf_lt_of_mem_children c.2

theorem parameterNames_eq (e : Expr) :
    e.parameterNames = e.ownParameters ++ e.children.flatMap parameterNames := by
  rw [parameterNames, flatMap_attach_children]

theorem map_name_mentionsAround (e : Expr) (ms : List Mention) :
    (e.mentionsAround ms).map Mention.name = ms.map Mention.name := by
  cases e with
  | setOperation => simp [mentionsAround, Mention.inside, Function.comp_def]
  | unary op x t => cases op <;> simp [mentionsAround, Function.comp_def]
  | _ => rfl

theorem map_name_mentions (e : Expr) : e.mentions.map Mention.name = e.parameterNames := by
  induction e using induction_children with
  | node e ih =>
      have own : e.ownMentions.map Mention.name = e.ownParameters := by cases e <;> rfl
      have children : (e.children.flatMap mentions).map Mention.name =
          e.children.flatMap parameterNames := by
        rw [List.map_flatMap]
        exact List.flatMap_congr ih
      rw [mentions_eq, parameterNames_eq, List.map_append, own, map_name_mentionsAround, children]

/-- Writes down the names of the parameters of a tree, behind those seen before, and keeps it. -/
def recordParameters (e : Expr) : StateT (List String) (Except Violation) Revision := fun seen =>
  .ok (.kept, seen ++ e.parameterNames)

/-- A visitor that keeps every child keeps the node. -/
theorem visitChildren_of_kept {σ : Type}
    {visitor : Expr → StateT σ (Except Violation) Revision} {e : Expr} {s s' : σ}
    {answers : List Revision} (visits : Visits visitor e.children s answers s')
    (kept : ∀ answer ∈ answers, answer.isKept = true) :
    e.visitChildren visitor s = .ok (.kept, s') := by
  obtain ⟨parts, visited, -, -, held⟩ := exists_visited visits
  rw [visited, update, if_pos (held.mpr kept)]
  rfl

theorem visits_recordParameters (xs : List Expr) (seen : List String) :
    Visits recordParameters xs seen (xs.map fun _ => .kept)
      (seen ++ xs.flatMap parameterNames) := by
  induction xs generalizing seen with
  | nil =>
      rw [List.flatMap_nil, List.append_nil]
      exact .nil seen
  | cons x rest ih =>
      rw [List.flatMap_cons, ← List.append_assoc]
      exact .cons rfl (ih (seen ++ x.parameterNames))

/-- Writing down the names is to write down that of the node and to visit its children. -/
theorem recordParameters_eq (e : Expr) (seen : List String) :
    recordParameters e seen = e.visitChildren recordParameters (seen ++ e.ownParameters) := by
  have kept : ∀ answer ∈ e.children.map fun _ => Revision.kept, answer.isKept = true := by
    intro answer mem
    obtain ⟨c, -, rfl⟩ := List.mem_map.mp mem
    rfl
  rw [visitChildren_of_kept (visits_recordParameters e.children _) kept, recordParameters,
    parameterNames_eq, List.append_assoc]

/-- The parameters of a printed expression are those that a visit of the tree meets, each of them
once and where it is met first.  They are the parameters whose placeholders are printed, and these
stand in the text in the order of the visit. -/
theorem parameters_print (d : Dialect) (e : Expr) :
    (e.print d).parameters = e.parameterNames.eraseDups ∧
      (∀ (x : Expr) (seen : List String),
        recordParameters x seen = x.visitChildren recordParameters (seen ++ x.ownParameters)) ∧
      e.mentions.map Mention.name = e.parameterNames ∧
      InOrder (e.mentions.map (Mention.printed d)) (e.print d).sql := by
  have document := (standsFor_self d e).doc
  refine ⟨?_, recordParameters_eq, map_name_mentions e, ?_⟩
  · rw [print, Doc.parameters_render, document.names, map_name_mentions]
  · have pieces := Doc.inOrder_render document.map_piece_sublist
    rw [List.map_map] at pieces
    exact pieces

end Expr

end SqlGen
