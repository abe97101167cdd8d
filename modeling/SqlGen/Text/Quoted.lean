/-!
# Quoted text

Text between two marks.  The closing mark is written twice wherever the text
itself holds it, so a reader that takes a doubled mark for one and stops at a
single one finds the end of the text and the text again.

`double` doubles the mark and `quote` puts the result between the marks.
-/

namespace SqlGen.Text

/-- The text with every occurrence of `mark` written twice. -/
def double (mark : Char) : List Char → List Char
  | [] => []
  | c :: rest =>
      if c = mark then mark :: mark :: double mark rest else c :: double mark rest

@[simp] theorem double_nil (mark : Char) : double mark [] = [] := rfl

@[simp] theorem double_cons_self (mark : Char) (rest : List Char) :
    double mark (mark :: rest) = mark :: mark :: double mark rest := by
  simp [double]

theorem double_cons_of_ne {mark c : Char} (h : c ≠ mark) (rest : List Char) :
    double mark (c :: rest) = c :: double mark rest := by
  simp [double, h]

/-- The text between two marks, the closing one doubled inside. -/
def quote (opening closing : Char) (text : String) : String :=
  String.ofList (opening :: (double closing text.toList ++ [closing]))

@[simp] theorem toList_quote (opening closing : Char) (text : String) :
    (quote opening closing text).toList =
      opening :: (double closing text.toList ++ [closing]) := by
  simp [quote]

/-- A mark inside the text is doubled. -/
example : quote '[' ']' "a]b" = "[a]]b]" := by decide

end SqlGen.Text
