import SqlGen.Proofs.Layout

/-!
# What a piece writes

A piece writes its text after what is there.  A text that is laid out gets a margin in front of
every line that it starts and puts something on, `Page.laid`.  A verbatim text is written as it is.
In front of either there may be the margin of a line that the page has started before.

`InOrder` says that texts stand in another one after each other and apart.  The pieces of a
document do so in its text, and so does every selection of them (`Doc.inOrder_render`).
-/

namespace SqlGen

/-! ## Text with margins -/

namespace Page

/-- The characters of a text at a depth of indentation.  The first character of a line gets the
margin.  `lineStart` says whether the text begins with a line that holds nothing yet. -/
def laid (depth : Nat) : (lineStart : Bool) → List Char → List Char
  | _, [] => []
  | lineStart, c :: rest =>
      if c = '\n' then c :: laid depth true rest
      else (if lineStart then (margin depth).toList else []) ++ c :: laid depth false rest

/-- A page goes on with a text as it is laid out. -/
theorem sql_foldl_putChar (p : Page) (depth : Nat) (cs : List Char) :
    (cs.foldl (putChar depth) p).sql = p.sql ++ String.ofList (laid depth p.lineStart cs) := by
  induction cs generalizing p with
  | nil => simp [laid]
  | cons c rest ih =>
      rw [List.foldl_cons, ih, laid, putChar]
      apply String.toList_injective
      split
      next isBreak => simp [newline, isBreak]
      next =>
        have written : (String.singleton c).isEmpty = false := by simp [String.isEmpty_eq_false_iff]
        simp only [put, written]
        cases p.lineStart <;> simp

/-- The line that a page has started gets its margin before the text goes on as it does inside a
line. -/
theorem exists_laid_eq (depth : Nat) (lineStart : Bool) (cs : List Char) :
    ∃ gap, laid depth lineStart cs = gap ++ laid depth false cs := by
  cases cs with
  | nil => exact ⟨[], rfl⟩
  | cons c rest =>
      by_cases isBreak : c = '\n'
      · exact ⟨[], by simp [laid, isBreak]⟩
      · exact ⟨if lineStart then (margin depth).toList else [], by simp [laid, isBreak]⟩

/-- Some line break is followed by something on the line that it starts. -/
def Breaks (cs : List Char) : Prop :=
  ∃ (before : List Char) (c : Char) (after : List Char),
    cs = before ++ '\n' :: c :: after ∧ c ≠ '\n'

theorem Breaks.cons {cs : List Char} (h : Breaks cs) (c : Char) : Breaks (c :: cs) := by
  obtain ⟨before, c', after, rfl, other⟩ := h
  exact ⟨c :: before, c', after, rfl, other⟩

theorem laid_zero (lineStart : Bool) (cs : List Char) : laid 0 lineStart cs = cs := by
  induction cs generalizing lineStart with
  | nil => rfl
  | cons c rest ih =>
      rw [laid, ih, ih]
      simp [margin]

/-- Without anything behind its line breaks a text gets no margin.  The line break that started the
line counts, too. -/
theorem laid_of_not_breaks (depth : Nat) {lineStart : Bool} {cs : List Char}
    (h : ¬ Breaks (if lineStart then '\n' :: cs else cs)) : laid depth lineStart cs = cs := by
  induction cs generalizing lineStart with
  | nil => rfl
  | cons c rest ih =>
      have inside : ¬ Breaks (c :: rest) := by
        cases lineStart with
        | false => exact h
        | true => exact fun breaks => h (breaks.cons '\n')
      rw [laid]
      split
      next isBreak =>
        have started : ¬ Breaks (if true then '\n' :: rest else rest) := by
          rwa [if_pos rfl, ← isBreak]
        rw [ih started]
      next other =>
        have within : ¬ Breaks (if false then '\n' :: rest else rest) :=
          fun breaks => inside (breaks.cons c)
        rw [ih within]
        cases lineStart with
        | false => rfl
        | true => exact absurd ⟨[], c, rest, rfl, other⟩ h

theorem length_le_laid (depth : Nat) (lineStart : Bool) (cs : List Char) :
    cs.length ≤ (laid depth lineStart cs).length := by
  induction cs generalizing lineStart with
  | nil => exact Nat.le_refl 0
  | cons c rest ih =>
      rw [laid]
      split
      next => exact Nat.succ_le_succ (ih true)
      next =>
        rw [List.length_append]
        exact Nat.le_add_left_of_le (Nat.succ_le_succ (ih false))

theorem margin_length_pos {depth : Nat} (indented : depth ≠ 0) :
    0 < (margin depth).toList.length := by
  obtain ⟨depth, rfl⟩ := Nat.exists_eq_add_one_of_ne_zero indented
  simp [margin]

/-- Behind a line break the margin makes a text longer. -/
theorem length_lt_laid {depth : Nat} (indented : depth ≠ 0) (lineStart : Bool) {cs : List Char}
    (h : Breaks cs) : cs.length < (laid depth lineStart cs).length := by
  induction cs generalizing lineStart with
  | nil =>
      obtain ⟨before, c, after, same, -⟩ := h
      simp at same
  | cons c rest ih =>
      obtain ⟨before, c', after, same, other⟩ := h
      cases before with
      | nil =>
          obtain ⟨rfl, rfl⟩ := List.cons_eq_cons.mp same
          have later := length_le_laid depth false after
          have wide := margin_length_pos indented
          rw [laid, if_pos rfl, laid, if_neg other]
          simp only [if_true, List.length_cons, List.length_append]
          omega
      | cons _ before =>
          have breaks : Breaks rest := ⟨before, c', after, (List.cons_eq_cons.mp same).2, other⟩
          rw [laid]
          split
          next => exact Nat.succ_lt_succ (ih true breaks)
          next =>
            rw [List.length_append]
            exact Nat.lt_add_left _ (Nat.succ_lt_succ (ih false breaks))

/-- A text is changed exactly if it is indented and goes on behind a line break. -/
theorem laid_eq_self_iff (depth : Nat) (cs : List Char) :
    laid depth false cs = cs ↔ depth = 0 ∨ ¬ Breaks cs := by
  constructor
  · intro same
    by_cases outside : depth = 0
    · exact .inl outside
    · refine .inr fun breaks => ?_
      have longer := length_lt_laid outside false breaks
      rw [same] at longer
      exact Nat.lt_irrefl _ longer
  · rintro (rfl | noBreak)
    · exact laid_zero false cs
    · exact laid_of_not_breaks depth noBreak

end Page

/-! ## The text of a piece -/

/-- The text of a piece inside a line. -/
def Piece.written (piece : Piece) : String :=
  match piece.content with
  | .text s => String.ofList (Page.laid piece.depth false s.toList)
  | .verbatim s => s
  | .line => "\n"
  | .parameter _ => ""

/-- A page goes on with the text of a piece, perhaps behind the margin of a line that it has
started. -/
theorem Page.sql_add (p : Page) (piece : Piece) :
    ∃ gap, (p.add piece).sql = p.sql ++ gap ++ piece.written := by
  unfold Page.add Piece.written
  cases piece.content with
  | text s =>
      obtain ⟨gap, split⟩ := exists_laid_eq piece.depth p.lineStart s.toList
      refine ⟨String.ofList gap, ?_⟩
      dsimp only
      rw [sql_foldl_putChar, split, String.ofList_append, String.append_assoc]
  | verbatim s =>
      dsimp only
      unfold put
      split
      next empty =>
        refine ⟨"", ?_⟩
        rw [String.isEmpty_iff.mp empty, String.append_empty, String.append_empty]
      next =>
        cases p.lineStart with
        | false => exact ⟨"", by simp⟩
        | true => exact ⟨margin piece.depth, rfl⟩
  | line =>
      refine ⟨"", ?_⟩
      apply String.toList_injective
      simp [newline]
  | parameter name =>
      refine ⟨"", ?_⟩
      dsimp only [mention]
      split <;> simp

/-! ## Texts inside a text -/

/-- The texts stand in a text one after the other and apart. -/
def InOrder : List String → String → Prop
  | [], _ => True
  | t :: rest, s => ∃ before after, s = before ++ t ++ after ∧ InOrder rest after

theorem InOrder.append_left {ts : List String} {s : String} (h : InOrder ts s) (before : String) :
    InOrder ts (before ++ s) := by
  cases ts with
  | nil => trivial
  | cons t rest =>
      obtain ⟨gap, after, rfl, later⟩ := h
      exact ⟨before ++ gap, after, by simp only [String.append_assoc], later⟩

theorem Page.exists_inOrder_addAll {marks d : Doc} (h : marks.Sublist d) (p : Page) :
    ∃ rest, (p.addAll d).sql = p.sql ++ rest ∧ InOrder (marks.map Piece.written) rest := by
  induction h generalizing p with
  | slnil => exact ⟨"", String.append_empty.symm, trivial⟩
  | cons piece _ ih =>
      obtain ⟨gap, first⟩ := p.sql_add piece
      obtain ⟨rest, text, order⟩ := ih (p.add piece)
      refine ⟨gap ++ piece.written ++ rest, ?_, order.append_left _⟩
      rw [addAll_cons, text, first]
      simp only [String.append_assoc]
  | cons_cons piece _ ih =>
      obtain ⟨gap, first⟩ := p.sql_add piece
      obtain ⟨rest, text, order⟩ := ih (p.add piece)
      refine ⟨gap ++ piece.written ++ rest, ?_, gap, rest, rfl, order⟩
      rw [addAll_cons, text, first]
      simp only [String.append_assoc]

/-- Pieces of a document stand in its text in their order. -/
theorem Doc.inOrder_render {marks d : Doc} (h : marks.Sublist d) :
    InOrder (marks.map Piece.written) d.render.sql := by
  obtain ⟨rest, text, order⟩ := Page.exists_inOrder_addAll h {}
  have sql : d.render.sql = "" ++ rest := text
  rw [sql]
  exact order.append_left ""

end SqlGen
