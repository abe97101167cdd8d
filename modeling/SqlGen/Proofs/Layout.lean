import Mathlib.Tactic.Common
import SqlGen.Expr.Print

/-!
# Layout piece by piece

What a document writes depends on the page only through the line that may have been started.
`Doc.IsSettled` says that it does not depend on that either.  Text outside all indentation is
settled, and so is everything behind an opening parenthesis.  The text of a settled document stands
behind the text of any other one.
-/

namespace SqlGen

namespace Page

/-! ## Pages that start alike -/

@[simp] theorem addAll_nil (p : Page) : p.addAll [] = p := rfl

@[simp] theorem addAll_cons (p : Page) (piece : Piece) (d : Doc) :
    p.addAll (piece :: d) = (p.add piece).addAll d := rfl

/-- The page holds some text in front of another page, and goes on as that one does. -/
structure Extends (before : String) (p q : Page) : Prop where
  sql : q.sql = before ++ p.sql
  lineStart : q.lineStart = p.lineStart

variable {before : String} {p q : Page}

theorem Extends.newline (h : Extends before p q) : Extends before p.newline q.newline :=
  ⟨by apply String.toList_injective; simp [Page.newline, h.sql], rfl⟩

theorem Extends.put (h : Extends before p q) (depth : Nat) (s : String) :
    Extends before (p.put depth s) (q.put depth s) := by
  unfold Page.put
  split
  next => exact h
  next =>
    refine ⟨?_, rfl⟩
    simp only [h.sql, h.lineStart]
    split <;> simp [String.append_assoc]

theorem Extends.putChar (h : Extends before p q) (depth : Nat) (c : Char) :
    Extends before (p.putChar depth c) (q.putChar depth c) := by
  unfold Page.putChar
  split
  next => exact h.newline
  next => exact h.put depth _

theorem Extends.foldl_putChar (h : Extends before p q) (depth : Nat) (cs : List Char) :
    Extends before (cs.foldl (Page.putChar depth) p) (cs.foldl (Page.putChar depth) q) := by
  induction cs generalizing p q with
  | nil => exact h
  | cons c rest ih => exact ih (h.putChar depth c)

theorem Extends.mention (h : Extends before p q) (name : String) :
    Extends before (p.mention name) (q.mention name) := by
  unfold Page.mention
  split <;> split <;> exact ⟨h.sql, h.lineStart⟩

theorem Extends.add (h : Extends before p q) (piece : Piece) :
    Extends before (p.add piece) (q.add piece) := by
  unfold Page.add
  cases piece.content with
  | text s => exact h.foldl_putChar piece.depth s.toList
  | verbatim s => exact h.put piece.depth s
  | line => exact h.newline
  | parameter name => exact h.mention name

/-- Documents write the same after pages that start alike. -/
theorem Extends.addAll (h : Extends before p q) (d : Doc) :
    Extends before (p.addAll d) (q.addAll d) := by
  induction d generalizing p q with
  | nil => exact h
  | cons piece rest ih => exact ih (h.add piece)

/-! ## Text outside all indentation -/

theorem sql_put_zero (p : Page) (s : String) : (p.put 0 s).sql = p.sql ++ s := by
  unfold put
  split
  next empty => rw [String.isEmpty_iff.mp empty, String.append_empty]
  next => simp [margin]

theorem sql_putChar_zero (p : Page) (c : Char) : (p.putChar 0 c).sql = p.sql.push c := by
  unfold putChar
  split
  next isBreak => rw [isBreak, newline]
  next => rw [sql_put_zero, String.append_singleton]

theorem sql_foldl_putChar_zero (p : Page) (cs : List Char) :
    (cs.foldl (putChar 0) p).sql = p.sql ++ String.ofList cs := by
  induction cs generalizing p with
  | nil => simp
  | cons c rest ih =>
      rw [List.foldl_cons, ih, sql_putChar_zero]
      apply String.toList_injective
      simp

end Page

namespace Doc

/-! ## Settled documents -/

/-- The text of a document. -/
def body (d : Doc) : String := (Doc.render d).sql

/-- The document writes its text on every page. -/
def IsSettled (d : Doc) : Prop := ∀ p : Page, (p.addAll d).sql = p.sql ++ d.body

theorem IsSettled.body_append {b : Doc} (hb : b.IsSettled) (a : Doc) :
    (a ++ b).body = a.body ++ b.body := by
  have split : (a ++ b).body = ((Page.addAll {} a).addAll b).sql :=
    congrArg Page.sql (Page.addAll_append {} a b)
  rw [split, hb]
  rfl

theorem IsSettled.append {a b : Doc} (ha : a.IsSettled) (hb : b.IsSettled) :
    (a ++ b).IsSettled := by
  intro p
  rw [Page.addAll_append, hb, ha, hb.body_append a, String.append_assoc]

@[simp] theorem body_text (s : String) : (text s).body = s := by
  have written := Page.sql_foldl_putChar_zero {} s.toList
  rw [String.ofList_toList, String.empty_append] at written
  exact written

@[simp] theorem body_verbatim (s : String) : (verbatim s).body = s := by
  have written := Page.sql_put_zero {} s
  rw [String.empty_append] at written
  exact written

theorem isSettled_text (s : String) : (text s).IsSettled := by
  intro p
  have := Page.sql_foldl_putChar_zero p s.toList
  rw [String.ofList_toList] at this
  rw [body_text]
  exact this

theorem isSettled_verbatim (s : String) : (verbatim s).IsSettled := by
  intro p
  rw [body_verbatim]
  exact Page.sql_put_zero p s

@[simp] theorem body_parameter (name : String) : (parameter name).body = "" := rfl

theorem isSettled_parameter (name : String) : (parameter name).IsSettled := by
  intro p
  have kept : (p.mention name).sql = p.sql := by
    unfold Page.mention
    split <;> rfl
  rw [body_parameter, String.append_empty]
  exact kept

/-- Nothing starts a line on a page that ends in a parenthesis. -/
theorem isSettled_opening (d : Doc) : (text "(" ++ d).IsSettled := by
  intro p
  have opened : Page.Extends p.sql (Page.add {} ⟨0, .text "("⟩) (p.add ⟨0, .text "("⟩) :=
    ⟨isSettled_text "(" p, rfl⟩
  exact (opened.addAll d).sql

/-! ## Parentheses and lists -/

/-- A page that has not started a line goes on with the text of a document. -/
theorem sql_addAll_of_not_lineStart {p : Page} (hp : p.lineStart = false) (d : Doc) :
    (p.addAll d).sql = p.sql ++ d.body := by
  have fresh : Page.Extends p.sql {} p := ⟨(String.append_empty).symm, hp⟩
  exact (fresh.addAll d).sql

/-- Behind a parenthesis, documents with commas between them write their texts. -/
theorem sql_separate_comma {p : Page} (hp : p.lineStart = false) (ds : List Doc) :
    (p.addAll (Doc.separate Expr.comma ds)).sql =
      p.sql ++ String.intercalate ", " (ds.map body) := by
  induction ds generalizing p with
  | nil => simp [Doc.separate]
  | cons d rest ih =>
      cases rest with
      | nil => exact sql_addAll_of_not_lineStart hp d
      | cons e rest =>
          have written := sql_addAll_of_not_lineStart hp d
          have comma : ((p.addAll d).addAll Expr.comma).sql = (p.addAll d).sql ++ ", " := by
            rw [Expr.comma, isSettled_text, body_text]
          have more := ih (p := (p.addAll d).addAll Expr.comma) rfl
          simp only [Doc.separate, Page.addAll_append, List.map_cons,
            String.intercalate_cons_cons] at more ⊢
          rw [more, comma, written]
          simp [String.append_assoc]

/-- The text of a list in parentheses. -/
theorem body_enclose_separate (ds : List Doc) :
    (Doc.enclose (Doc.separate Expr.comma ds)).body =
      "(" ++ String.intercalate ", " (ds.map body) ++ ")" := by
  have opened : (Page.addAll {} (text "(")).sql = "(" := body_text "("
  have list := sql_separate_comma (p := Page.addAll {} (text "(")) rfl ds
  have closing := isSettled_text ")"
    ((Page.addAll {} (text "(")).addAll (Doc.separate Expr.comma ds))
  rw [list, opened, body_text] at closing
  rw [← closing]
  simp only [body, Doc.render, Doc.enclose, Page.addAll_append]
  rfl

theorem isSettled_enclose (d : Doc) : (Doc.enclose d).IsSettled :=
  (isSettled_opening d).append (isSettled_text ")")

theorem IsSettled.encloseIf {d : Doc} (h : d.IsSettled) (needed : Bool) :
    (Doc.encloseIf needed d).IsSettled := by
  cases needed with
  | false => exact h
  | true => exact isSettled_enclose d

theorem body_enclose (d : Doc) : (Doc.enclose d).body = "(" ++ d.body ++ ")" :=
  body_enclose_separate [d]

theorem body_encloseIf (d : Doc) (needed : Bool) :
    (Doc.encloseIf needed d).body = if needed then "(" ++ d.body ++ ")" else d.body := by
  cases needed with
  | false => rfl
  | true => exact body_enclose d

end Doc

end SqlGen
