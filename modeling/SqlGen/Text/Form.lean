import SqlGen.Text.Hex
import SqlGen.Text.Utf8

/-!
# Form-encoded pairs

The query part of an address: pairs `key=value` between `&` marks.  An empty
piece is no pair and a piece without `=` has the empty value.  In a key or a
value `+` stands for a blank and `%` with two hexadecimal digits for a byte, a
`%` without them for itself.  The bytes are read as UTF-8.

`Text.cut` cuts a text in two at the first mark.
-/

namespace SqlGen.Text

/-! ## Cutting at a mark -/

/-- The text before the first mark, and the text after it if there is one. -/
def cut (mark : Char) : List Char → List Char × Option (List Char)
  | [] => ([], none)
  | c :: rest =>
      if c = mark then ([], some rest)
      else (c :: (cut mark rest).1, (cut mark rest).2)

/-- The cut is at the first mark. -/
theorem cut_append {mark : Char} (after : List Char) : ∀ {text : List Char}, mark ∉ text →
    cut mark (text ++ mark :: after) = (text, some after)
  | [], _ => by simp [cut]
  | c :: rest, h => by
      have hc : c ≠ mark := fun e => h (by simp [e])
      have hr : mark ∉ rest := fun e => h (by simp [e])
      simp [cut, hc, cut_append after hr]

theorem cut_fst_prefix (mark : Char) : ∀ text : List Char, (cut mark text).1 <+: text
  | [] => List.prefix_rfl
  | c :: rest => by
      rw [cut]
      split
      next => exact List.nil_prefix
      next => exact List.cons_prefix_cons.mpr ⟨rfl, cut_fst_prefix mark rest⟩

/-! ## Pairs -/

namespace Form

/-- The bytes a key or value stands for. -/
def bytes : List Char → List UInt8
  | '%' :: h :: l :: rest =>
      match hexDigit? h, hexDigit? l with
      | some a, some b => UInt8.ofNat (16 * a + b) :: bytes rest
      | _, _ => 0x25 :: bytes (h :: l :: rest)
  | '+' :: rest => 0x20 :: bytes rest
  | c :: rest => String.utf8EncodeChar c ++ bytes rest
  | [] => []

/-- The text a key or value stands for. -/
def decode (text : List Char) : String := String.ofList (Utf8.decode (bytes text))

/-- The pair a piece stands for. -/
def pair (piece : List Char) : String × String :=
  (decode (cut '=' piece).1, decode ((cut '=' piece).2.getD []))

/-- The pairs of a query, in order. -/
def pairs (query : List Char) : List (String × String) :=
  ((query.splitOn '&').filter (fun piece => !piece.isEmpty)).map pair

example : pairs "a=1&&b+c=%41%zz&d".toList = [("a", "1"), ("b c", "A%zz"), ("d", "")] := by
  decide +kernel

end Form

end SqlGen.Text
