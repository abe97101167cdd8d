/-!
# Binary floating-point numbers

The 64 bits of a number are a sign, an exponent field of eleven bits and a
fraction field of 52 bits.  `Binary64.ofBits` says what they stand for: no
number, an infinity, or a sign with a natural mantissa and a power of two.
-/

namespace SqlGen.Decimal

/-- What 64 bits stand for. -/
inductive Binary64 where
  | nan
  | infinite (negative : Bool)
  /-- The number `mantissa · 2 ^ exponent` with a sign, which zero has too. -/
  | finite (negative : Bool) (mantissa : Nat) (exponent : Int)
deriving DecidableEq, Repr

/-- The mantissa of a number whose fraction field is zero and whose exponent field is not. -/
def hiddenBit : Nat := Nat.pow 2 52

/-- The number some bits stand for. -/
def Binary64.ofBits (bits : UInt64) : Binary64 :=
  let n : Nat := bits.toNat
  let negative : Bool := Nat.pow 2 63 ≤ n
  let field : Nat := n / hiddenBit % Nat.pow 2 11
  let fraction : Nat := n % hiddenBit
  if field = 2047 then
    if fraction = 0 then .infinite negative else .nan
  else if field = 0 then .finite negative fraction (-1074)
  else .finite negative (hiddenBit + fraction) ((field : Int) - 1075)

example : Binary64.ofBits 0x3ff8000000000000 = .finite false (3 * 2 ^ 51) (-52) := by decide
example : Binary64.ofBits 0x8000000000000000 = .finite true 0 (-1074) := by decide
example : Binary64.ofBits 0xfff0000000000000 = .infinite true := by decide

end SqlGen.Decimal
