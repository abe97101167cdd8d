import SqlGen.Expr.Print

/-!
# Programs of the printer

A node prints itself on a printer, which has a page and a level of indentation.  `Program` says
what can be done with a printer: texts, line breaks, identifiers and mentions of parameters are
written at its level, trees are visited, and the level is raised by one while an indented program
runs.  `Program.run` does it.
-/

namespace SqlGen

/-- The document, further inside by some levels. -/
def Doc.deepen (levels : Nat) (d : Doc) : Doc :=
  d.map fun p => { p with depth := p.depth + levels }

theorem Doc.deepen_append (levels : Nat) (a b : Doc) :
    (a ++ b).deepen levels = a.deepen levels ++ b.deepen levels := List.map_append

theorem Doc.deepen_deepen (m n : Nat) (d : Doc) : (d.deepen m).deepen n = d.deepen (m + n) := by
  simp [deepen, Nat.add_assoc]

/-- A page while it is written, and the level of indentation. -/
structure Printer where
  page : Page := {}
  level : Nat := 0

namespace Printer

def write (content : Content) (p : Printer) : Printer :=
  { p with page := p.page.add ⟨p.level, content⟩ }

/-- Prints a tree at the level of the printer. -/
def visit (d : Dialect) (e : Expr) (p : Printer) : Printer :=
  { p with page := p.page.addAll ((e.doc d).deepen p.level) }

def raise (p : Printer) : Printer := { p with level := p.level + 1 }

def lower (p : Printer) : Printer := { p with level := p.level - 1 }

end Printer

/-- What can be done with a printer. -/
inductive Program where
  | skip
  /-- One program after another. -/
  | seq (first second : Program)
  /-- Text whose line breaks are laid out. -/
  | append (s : String)
  /-- Text that stands as it is. -/
  | verbatim (s : String)
  | line
  /-- A name, quoted by the dialect. -/
  | identifier (name : String)
  /-- A mention of a parameter. -/
  | mention (name : String)
  | visit (e : Expr)
  /-- A program under a guard of indentation. -/
  | indent (body : Program)

namespace Program

def run (d : Dialect) : Program → Printer → Printer
  | skip, p => p
  | seq first second, p => second.run d (first.run d p)
  | append s, p => p.write (.text s)
  | verbatim s, p => p.write (.verbatim s)
  | line, p => p.write .line
  | identifier name, p => p.write (.verbatim (d.delimit name))
  | mention name, p => p.write (.parameter name)
  | visit e, p => p.visit d e
  | indent body, p => (body.run d p.raise).lower

/-- The program under further guards. -/
def guarded : Nat → Program → Program
  | 0, p => p
  | guards + 1, p => indent (guarded guards p)

example :
    (run .ansi (seq (append "a") (seq (indent (seq line (append "b\nc")))
      (seq line (append "d")))) {}).page.sql = "a\n    b\n    c\nd" := by decide +kernel

end Program

end SqlGen
