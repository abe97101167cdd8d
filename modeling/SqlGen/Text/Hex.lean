/-!
# Hexadecimal digits

A byte is written as two upper-case digits, the high half first.  `hexDigit?`
reads a digit of either case.
-/

namespace SqlGen.Text

/-- The upper-case digit of a number below sixteen. -/
def hexDigit (n : Nat) : Char :=
  if n < 10 then Char.ofNat (n + 48) else Char.ofNat (n + 55)

/-- The two digits of a byte. -/
def hexByte (b : UInt8) : List Char :=
  [hexDigit (b.toNat / 16), hexDigit (b.toNat % 16)]

/-- The digits of a list of bytes. -/
def hexBytes (bytes : List UInt8) : List Char := bytes.flatMap hexByte

/-- The number a hexadecimal digit stands for, in either case. -/
def hexDigit? (c : Char) : Option Nat :=
  if '0' ≤ c ∧ c ≤ '9' then some (c.toNat - 48)
  else if 'A' ≤ c ∧ c ≤ 'F' then some (c.toNat - 55)
  else if 'a' ≤ c ∧ c ≤ 'f' then some (c.toNat - 87)
  else none

/-- A written digit reads back. -/
theorem hexDigit?_hexDigit : ∀ n < 16, hexDigit? (hexDigit n) = some n := by decide

example : hexBytes [0, 171, 255] = "00ABFF".toList := by decide

end SqlGen.Text
