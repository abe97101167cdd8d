/-!
# Documents

A document is SQL text before it is laid out: a list of pieces, each at a depth of
indentation.  Rendering goes through the pieces once.  A line break that is part of the
layout, from a `line` piece or inside a `text` piece, starts a line; the first text of
that line that is not empty is preceded by four blanks for each level of its depth.
Line breaks inside a `verbatim` piece belong to the text and start no line.

Documents join by `++`, and a page goes on with the second where it stands after the
first (`Page.addAll_append`).  `Doc.indent` moves every piece one level deeper.
-/

namespace SqlGen

/-- What a piece of a document holds. -/
inductive Content where
  /-- Text whose line breaks are laid out. -/
  | text (s : String)
  /-- Text that stands as it is, such as a literal or an identifier. -/
  | verbatim (s : String)
  | line
  /-- A mention of a parameter, which writes nothing. -/
  | parameter (name : String)
deriving DecidableEq, Repr

structure Piece where
  /-- The levels of indentation around it. -/
  depth : Nat
  content : Content
deriving DecidableEq, Repr

/-- Text before it is laid out. -/
abbrev Doc := List Piece

namespace Doc

/-- Text whose line breaks are laid out. -/
def text (s : String) : Doc := [⟨0, .text s⟩]

/-- Text that stands as it is. -/
def verbatim (s : String) : Doc := [⟨0, .verbatim s⟩]

def line : Doc := [⟨0, .line⟩]

/-- A mention of a parameter. -/
def parameter (name : String) : Doc := [⟨0, .parameter name⟩]

def indent (d : Doc) : Doc := d.map fun p => { p with depth := p.depth + 1 }

def enclose (d : Doc) : Doc := text "(" ++ d ++ text ")"

/-- The document, between parentheses where they are needed. -/
def encloseIf (needed : Bool) (d : Doc) : Doc := if needed then enclose d else d

/-- The documents one after the other with a separator between them. -/
def separate (separator : Doc) : List Doc → Doc
  | [] => []
  | [d] => d
  | d :: rest => d ++ separator ++ separate separator rest

@[simp] theorem indent_append (a b : Doc) : indent (a ++ b) = indent a ++ indent b :=
  List.map_append

end Doc

/-! ## Rendering -/

/-- SQL text with the parameters it mentions, in the order they are mentioned first. -/
structure Printed where
  sql : String
  parameters : List String
deriving DecidableEq, Repr

/-- Text while it is written. -/
structure Page where
  sql : String := ""
  /-- A line has been started and holds no text yet. -/
  lineStart : Bool := false
  parameters : List String := []

namespace Page

/-- The blanks in front of a line. -/
def margin : (depth : Nat) → String
  | 0 => ""
  | depth + 1 => "    " ++ margin depth

def newline (p : Page) : Page := { p with sql := p.sql.push '\n', lineStart := true }

/-- Writes text as it is, after the margin if it is the first of its line. -/
def put (depth : Nat) (p : Page) (s : String) : Page :=
  if s.isEmpty then p
  else
    { p with
      sql := (if p.lineStart then p.sql ++ margin depth else p.sql) ++ s
      lineStart := false }

/-- Writes one character of text that is laid out. -/
def putChar (depth : Nat) (p : Page) (c : Char) : Page :=
  if c = '\n' then p.newline else p.put depth (String.singleton c)

/-- Adds a parameter to those mentioned, unless it is among them. -/
def mention (p : Page) (name : String) : Page :=
  if name ∈ p.parameters then p else { p with parameters := p.parameters ++ [name] }

def add (p : Page) (piece : Piece) : Page :=
  match piece.content with
  | .text s => s.toList.foldl (putChar piece.depth) p
  | .verbatim s => p.put piece.depth s
  | .line => p.newline
  | .parameter name => p.mention name

/-- Writes a document after what is there. -/
def addAll (p : Page) (d : Doc) : Page := d.foldl add p

@[simp] theorem addAll_append (p : Page) (a b : Doc) :
    p.addAll (a ++ b) = (p.addAll a).addAll b := List.foldl_append

/-- The text written and the parameters mentioned. -/
def printed (p : Page) : Printed := ⟨p.sql, p.parameters⟩

end Page

def Doc.render (d : Doc) : Printed := (Page.addAll {} d).printed

example :
    Doc.render (.text "a" ++ .line ++ (Doc.text "b\n" ++ .verbatim "'\n'").indent) =
      ⟨"a\n    b\n    '\n'", []⟩ := by decide +kernel

end SqlGen
