/-!
# Reading UTF-8

A byte sequence is read as text.  Bytes that form no character are replaced by
U+FFFD, one replacement for each longest run that some character starts with,
and reading goes on at the byte that broke the run.

A run is followed by a state: how many bytes the character still needs, the
bits read so far and the range the next byte has to lie in.  The range is
narrower than `80..BF` only after the first byte, where it keeps out overlong
forms, surrogates and numbers above `10FFFF`.
-/

namespace SqlGen.Text.Utf8

/-- A character whose first bytes have been read. -/
structure Pending where
  /-- The bytes it still needs after the next one. -/
  more : Nat
  /-- The bits read so far. -/
  code : Nat
  /-- The least value of the next byte. -/
  low : Nat
  /-- The greatest value of the next byte. -/
  high : Nat

/-- The mark that stands for bytes that form no character. -/
def replacement : Char := Char.ofNat 0xFFFD

/-- What one byte outside a character gives: text, and a character it starts. -/
def start (byte : Nat) : List Char × Option Pending :=
  if byte < 0x80 then ([Char.ofNat byte], none)
  else if byte < 0xC2 then ([replacement], none)
  else if byte < 0xE0 then ([], some ⟨0, byte - 0xC0, 0x80, 0xBF⟩)
  else if byte = 0xE0 then ([], some ⟨1, 0, 0xA0, 0xBF⟩)
  else if byte = 0xED then ([], some ⟨1, 0xD, 0x80, 0x9F⟩)
  else if byte < 0xF0 then ([], some ⟨1, byte - 0xE0, 0x80, 0xBF⟩)
  else if byte = 0xF0 then ([], some ⟨2, 0, 0x90, 0xBF⟩)
  else if byte < 0xF4 then ([], some ⟨2, byte - 0xF0, 0x80, 0xBF⟩)
  else if byte = 0xF4 then ([], some ⟨2, 4, 0x80, 0x8F⟩)
  else ([replacement], none)

/-- What one byte gives after the bytes of `pending`. -/
def next (pending : Option Pending) (byte : Nat) : List Char × Option Pending :=
  match pending with
  | none => start byte
  | some p =>
      if p.low ≤ byte ∧ byte ≤ p.high then
        match p.more with
        | 0 => ([Char.ofNat (p.code * 64 + (byte - 0x80))], none)
        | more + 1 => ([], some ⟨more, p.code * 64 + (byte - 0x80), 0x80, 0xBF⟩)
      else (replacement :: (start byte).1, (start byte).2)

/-- The text of the bytes that follow those of `pending`. -/
def decodeFrom : Option Pending → List UInt8 → List Char
  | none, [] => []
  | some _, [] => [replacement]
  | pending, b :: rest =>
      (next pending b.toNat).1 ++ decodeFrom (next pending b.toNat).2 rest

/-- The text of a byte sequence. -/
def decode (bytes : List UInt8) : List Char := decodeFrom none bytes

/-- ASCII bytes are characters of their own. -/
theorem decode_cons_of_lt {b : UInt8} (h : b.toNat < 0x80) (rest : List UInt8) :
    decode (b :: rest) = Char.ofNat b.toNat :: decode rest := by
  simp [decode, decodeFrom, next, start, h]

example : decode [0x61, 0xE2, 0x82, 0xAC, 0xC3] = ['a', '€', replacement] := by decide
example : decode [0xED, 0xA0, 0x80] = [replacement, replacement, replacement] := by decide
example : decode [0xF0, 0x9F, 0x98, 0x41] = [replacement, 'A'] := by decide

end SqlGen.Text.Utf8
