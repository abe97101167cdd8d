import SqlGen.Printer
import SqlGen.Proofs.Printing.Inlining

/-!
# Indentation of programs

A program writes lines.  The line breaks that separate them are those of the layout: a break that is
written as such, or one in a text that is laid out.  A verbatim text is part of one line, whatever
it contains.  A line has the level of indentation at which its first text was written, and one
without text has no margin (`Doc.lines`).

So a page is the lines, each behind its break and its margin (`Page.sql_addAll`), and further levels
around a program put their blanks between the break and the margin of every line with text
(`Program.run_guarded`).
-/

namespace SqlGen

/-! ## Lines -/

/-- The text between two line breaks of the layout. -/
structure Line where
  /-- The level of indentation at the first text of the line. -/
  level : Nat := 0
  text : List Char := []

/-- What goes on the line that is there, and the lines that are started. -/
structure Lines where
  first : Line := {}
  more : List Line := []

/-- The text of a line that has been started, or not, by a line break.  Some text is inserted behind
the line break if the line has text. -/
def Line.shown (inserted : List Char) (started : Bool) (l : Line) : List Char :=
  (if started = true ∧ l.text ≠ [] then inserted ++ (Page.margin l.level).toList else []) ++ l.text

namespace Lines

/-- Text in front of the first line. -/
def put (level : Nat) (cs : List Char) (ls : Lines) : Lines :=
  if cs = [] then ls else { ls with first := ⟨level, cs ++ ls.first.text⟩ }

/-- A line break in front of the first line. -/
def newline (ls : Lines) : Lines := ⟨{}, ls.first :: ls.more⟩

/-- Text whose line breaks are laid out, in front of the first line. -/
def putAll (level : Nat) (cs : List Char) (ls : Lines) : Lines :=
  cs.foldr (fun c ls => if c = '\n' then ls.newline else ls.put level [c]) ls

def add (piece : Piece) (ls : Lines) : Lines :=
  match piece.content with
  | .text s => ls.putAll piece.depth s.toList
  | .verbatim s => ls.put piece.depth s.toList
  | .line => ls.newline
  | .parameter _ => ls

/-- The text of the lines, with some text inserted behind every line break that is followed by text
on its line. -/
def shown (inserted : List Char) (started : Bool) (ls : Lines) : List Char :=
  ls.first.shown inserted started ++ ls.more.flatMap fun l => '\n' :: l.shown inserted true

variable {inserted : List Char} {started : Bool} {ls : Lines}

theorem shown_newline : ls.newline.shown inserted started = '\n' :: ls.shown inserted true := by
  simp [shown, newline, Line.shown]

theorem putAll_cons (level : Nat) (c : Char) (cs : List Char) :
    ls.putAll level (c :: cs) =
      if c = '\n' then (ls.putAll level cs).newline else (ls.putAll level cs).put level [c] := rfl

theorem shown_put_nil (level : Nat) :
    (ls.put level []).shown inserted started = ls.shown inserted started := by
  rw [put, if_pos rfl]

theorem shown_put (level : Nat) {cs : List Char} (some : cs ≠ []) :
    (ls.put level cs).shown inserted started =
      (if started then inserted ++ (Page.margin level).toList else []) ++ cs ++
        ls.shown inserted false := by
  simp [shown, put, some, Line.shown]

end Lines

/-- The lines that a document writes. -/
def Doc.lines (d : Doc) : Lines := d.foldr Lines.add {}

/-! ## Pages -/

namespace Page

/-- Text put on a page stands in front of what is shown later. -/
theorem sql_put_shown (p : Page) (depth : Nat) (s : String) (ls : Lines) :
    (p.put depth s).sql ++ String.ofList (ls.shown [] (p.put depth s).lineStart) =
      p.sql ++ String.ofList ((ls.put depth s.toList).shown [] p.lineStart) := by
  by_cases empty : s = ""
  · subst empty
    rw [String.toList_empty, Lines.shown_put_nil]
    rfl
  · have some : s.toList ≠ [] := by simpa using empty
    have written : s.isEmpty = false := String.isEmpty_eq_false_iff.mpr empty
    rw [Lines.shown_put depth some, sql_put, lineStart_put, written, Bool.and_false]
    apply String.toList_injective
    cases p.lineStart <;> simp [empty]

theorem sql_newline_shown (p : Page) (ls : Lines) :
    p.newline.sql ++ String.ofList (ls.shown [] p.newline.lineStart) =
      p.sql ++ String.ofList (ls.newline.shown [] p.lineStart) := by
  rw [Lines.shown_newline]
  apply String.toList_injective
  simp [newline]

theorem sql_foldl_putChar_shown (p : Page) (depth : Nat) (cs : List Char) (ls : Lines) :
    (cs.foldl (putChar depth) p).sql ++
        String.ofList (ls.shown [] (cs.foldl (putChar depth) p).lineStart) =
      p.sql ++ String.ofList ((ls.putAll depth cs).shown [] p.lineStart) := by
  induction cs generalizing p with
  | nil => rfl
  | cons c rest ih =>
      rw [List.foldl_cons, ih, Lines.putAll_cons, putChar]
      split
      next => exact sql_newline_shown p _
      next =>
        rw [sql_put_shown, String.toList_singleton]

theorem sql_add_shown (p : Page) (piece : Piece) (ls : Lines) :
    (p.add piece).sql ++ String.ofList (ls.shown [] (p.add piece).lineStart) =
      p.sql ++ String.ofList ((ls.add piece).shown [] p.lineStart) := by
  unfold add Lines.add
  cases piece.content with
  | text s => exact sql_foldl_putChar_shown p piece.depth s.toList ls
  | verbatim s => exact sql_put_shown p piece.depth s ls
  | line => exact sql_newline_shown p ls
  | parameter name =>
      dsimp only
      rw [sql_mention, lineStart_mention]

/-- A page goes on with the lines of a document. -/
theorem sql_addAll (p : Page) (d : Doc) :
    (p.addAll d).sql = p.sql ++ String.ofList (d.lines.shown [] p.lineStart) := by
  induction d generalizing p with
  | nil =>
      show p.sql = p.sql ++ String.ofList (Lines.shown [] p.lineStart {})
      simp [Lines.shown, Line.shown]
  | cons piece rest ih =>
      rw [addAll_cons, ih, sql_add_shown]
      rfl

/-! ## Deeper documents -/

theorem toList_margin_add (m n : Nat) :
    (margin (m + n)).toList = (margin n).toList ++ (margin m).toList := by
  induction n with
  | zero => simp [margin]
  | succ n ih =>
      show (margin (m + n + 1)).toList = _
      simp [margin, ih]

theorem toList_margin (levels : Nat) :
    (margin levels).toList = List.replicate (4 * levels) ' ' := by
  induction levels with
  | zero => rfl
  | succ levels ih =>
      rw [Nat.mul_succ, List.replicate_add, ← ih, Nat.add_comm levels 1, toList_margin_add]
      rfl

end Page

/-- The lines are other ones, with the blanks of some levels behind the line breaks. -/
def Lines.IsDeeper (levels : Nat) (deeper ls : Lines) : Prop :=
  ∀ started, deeper.shown [] started = ls.shown (Page.margin levels).toList started

namespace Lines.IsDeeper

variable {levels : Nat} {deeper ls : Lines}

theorem put (h : deeper.IsDeeper levels ls) (level : Nat) (cs : List Char) :
    (deeper.put (level + levels) cs).IsDeeper levels (ls.put level cs) := by
  intro started
  by_cases empty : cs = []
  · subst empty
    rw [shown_put_nil, shown_put_nil, h]
  · rw [shown_put _ empty, shown_put _ empty, h, Page.toList_margin_add, List.nil_append]

theorem newline (h : deeper.IsDeeper levels ls) : deeper.newline.IsDeeper levels ls.newline := by
  intro started
  rw [shown_newline, shown_newline, h]

theorem putAll (h : deeper.IsDeeper levels ls) (level : Nat) (cs : List Char) :
    (deeper.putAll (level + levels) cs).IsDeeper levels (ls.putAll level cs) := by
  induction cs with
  | nil => exact h
  | cons c rest ih =>
      rw [putAll_cons, putAll_cons]
      split
      next => exact ih.newline
      next => exact ih.put level [c]

end Lines.IsDeeper

/-- Further levels put their blanks behind the line breaks. -/
theorem Doc.isDeeper_lines (levels : Nat) (d : Doc) :
    (d.deepen levels).lines.IsDeeper levels d.lines := by
  induction d with
  | nil =>
      intro started
      simp [deepen, lines, Lines.shown, Line.shown]
  | cons piece rest ih =>
      let deeper : Piece := ⟨piece.depth + levels, piece.content⟩
      show (Lines.add deeper (lines (deepen levels rest))).IsDeeper levels
        (Lines.add piece (lines rest))
      unfold Lines.add
      cases piece.content with
      | text s => exact ih.putAll piece.depth s.toList
      | verbatim s => exact ih.put piece.depth s.toList
      | line => exact ih.newline
      | parameter name => exact ih

theorem Doc.names_deepen (levels : Nat) (d : Doc) : (d.deepen levels).names = d.names := by
  rw [deepen, names, List.filterMap_map]
  rfl

/-! ## Programs -/

namespace Program

/-- What a program writes, at the level of the printer that runs it. -/
def doc (d : Dialect) : Program → Doc
  | skip => []
  | seq first second => first.doc d ++ second.doc d
  | append s => .text s
  | verbatim s => .verbatim s
  | line => .line
  | identifier name => .verbatim (d.delimit name)
  | mention name => .parameter name
  | visit e => e.doc d
  | indent body => (body.doc d).deepen 1

/-- A program writes its document and leaves the level as it was. -/
theorem run_eq (d : Dialect) (p : Program) (s : Printer) :
    p.run d s = { s with page := s.page.addAll ((p.doc d).deepen s.level) } := by
  induction p generalizing s with
  | seq first second ih ih' =>
      rw [run, ih, ih', doc, Doc.deepen_append, Page.addAll_append]
  | indent body ih =>
      rw [run, ih, doc, Doc.deepen_deepen, Nat.add_comm]
      rfl
  | append s | verbatim s | identifier name | mention name =>
      simp [run, doc, Printer.write, Doc.text, Doc.verbatim, Doc.parameter, Doc.deepen]
  | skip | line | visit e => simp [run, doc, Printer.write, Printer.visit, Doc.line, Doc.deepen]

theorem doc_guarded (d : Dialect) (guards : Nat) (p : Program) :
    (p.guarded guards).doc d = (p.doc d).deepen guards := by
  induction guards with
  | zero => simp [guarded, Doc.deepen]
  | succ guards ih => rw [guarded, doc, ih, Doc.deepen_deepen]

/-- Further guards around a program put four blanks for each of them behind the line breaks of the
layout, on the lines with text.  Nothing else changes, and the level is what it was. -/
theorem run_guarded (d : Dialect) (p : Program) (guards : Nat) (s : Printer) :
    (p.run d s).level = s.level ∧ ((p.guarded guards).run d s).level = s.level ∧
      ((p.guarded guards).run d s).page.parameters = (p.run d s).page.parameters ∧
      (p.run d s).page.sql = s.page.sql ++
        String.ofList (((p.doc d).deepen s.level).lines.shown [] s.page.lineStart) ∧
      ((p.guarded guards).run d s).page.sql = s.page.sql ++
        String.ofList (((p.doc d).deepen s.level).lines.shown (List.replicate (4 * guards) ' ')
          s.page.lineStart) := by
  rw [run_eq, run_eq, doc_guarded, Doc.deepen_deepen, Nat.add_comm, ← Doc.deepen_deepen]
  refine ⟨rfl, rfl, ?parameters, Page.sql_addAll _ _, ?sql⟩
  case parameters => simp only [Page.parameters_addAll, Doc.names_deepen]
  case sql =>
    rw [← Page.toList_margin, ← Doc.isDeeper_lines]
    exact Page.sql_addAll _ _

example :
    ((guarded 1 (seq line (seq line (verbatim "'a\nb'")))).run .ansi {}).page.sql =
      "\n\n    'a\nb'" := by decide +kernel

end Program

end SqlGen
