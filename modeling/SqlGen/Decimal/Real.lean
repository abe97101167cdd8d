import SqlGen.Decimal.Shortest

/-!
# The text of a real number

A finite number is written with the fewest digits that read back.  Numbers from
`10 ^ -4` up to but not including `10 ^ 16`, and zero, are positional and keep
at least one digit behind the point.  All others have one digit before the
point, the further digits behind it if there are any, and the power of ten
after an `e`, without a plus sign or padding.  The sign of zero is kept.
-/

namespace SqlGen.Decimal

/-- The digits of a positive number from the leading one on, the last one not zero. -/
structure Significant where
  digits : List Char
  /-- The power of ten of the first digit. -/
  exponent : Int
deriving DecidableEq, Repr

/-- The digits of a decimal without its trailing zeros. -/
def Scaled.significant (s : Scaled) : Significant where
  digits := ((digits s.value).reverse.dropWhile (· == '0')).reverse
  exponent := s.place + (digits s.value).length - 1

/-- Positional notation. -/
def Significant.positional (s : Significant) : List Char :=
  if s.exponent < 0 then
    '0' :: '.' :: (List.replicate (-s.exponent - 1).toNat '0' ++ s.digits)
  else
    let whole := s.exponent.toNat + 1
    if s.digits.length ≤ whole then
      s.digits ++ List.replicate (whole - s.digits.length) '0' ++ ['.', '0']
    else s.digits.take whole ++ '.' :: s.digits.drop whole

/-- Notation with a power of ten. -/
def Significant.scientific (s : Significant) : List Char :=
  let mantissa :=
    match s.digits with
    | d :: e :: rest => d :: '.' :: e :: rest
    | short => short
  mantissa ++ 'e' :: (integer s.exponent).toList

/-- The notation the size of the number asks for. -/
def Significant.text (s : Significant) : List Char :=
  if -4 ≤ s.exponent ∧ s.exponent < 16 then s.positional else s.scientific

/-- The text of `m · 2 ^ q`. -/
def magnitude (m : Nat) (q : Int) : List Char :=
  if m = 0 then ['0', '.', '0'] else (shortest m q).significant.text

/-- The text of a finite number. -/
def real (negative : Bool) (m : Nat) (q : Int) : String :=
  String.ofList (if negative then '-' :: magnitude m q else magnitude m q)

example : real false (3 * 2 ^ 51) (-52) = "1.5" := by decide +kernel
example : real true 0 (-1074) = "-0.0" := by decide +kernel
example : real false 1 (-1074) = "5e-324" := by decide +kernel
example : real false 5000000000000000 1 = "1e16" := by decide +kernel
example : real false 4999999999999999 1 = "9999999999999998.0" := by decide +kernel

end SqlGen.Decimal
