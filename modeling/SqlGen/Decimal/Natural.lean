/-!
# Numbers in decimal

`natural` and `integer` write a number without padding.  `read` reads a number
that has to stay below a limit: a leading plus sign is allowed and every
character after it has to be an ASCII digit.  Reading stops at the first
character that is no digit or takes the number to the limit, and says which of
the two it was.
-/

namespace SqlGen.Decimal

def digits (n : Nat) : List Char := Nat.toDigits 10 n

def natural (n : Nat) : String := String.ofList (digits n)

/-- An integer in decimal, with a minus sign below zero. -/
def integer (i : Int) : String :=
  if i < 0 then "-" ++ natural i.natAbs else natural i.natAbs

/-- Why a text is no number below the limit. -/
inductive Defect where
  | empty
  /-- A character is no digit, or a sign stands alone. -/
  | invalidDigit
  | overflow
deriving DecidableEq, Repr

/-- The number an ASCII digit stands for. -/
def digit? (c : Char) : Option Nat :=
  if '0' ≤ c ∧ c ≤ '9' then some (c.toNat - 48) else none

/-- The number that `digits` give after the number `sofar`. -/
def readDigits (limit : Nat) : (sofar : Nat) → (digits : List Char) → Except Defect Nat
  | sofar, [] => .ok sofar
  | sofar, c :: rest =>
      match digit? c with
      | none => .error .invalidDigit
      | some d =>
          if 10 * sofar + d < limit then readDigits limit (10 * sofar + d) rest
          else .error .overflow

/-- The number below `limit` a text stands for. -/
def read (limit : Nat) : (text : List Char) → Except Defect Nat
  | [] => .error .empty
  | ['+'] => .error .invalidDigit
  | '+' :: rest => readDigits limit 0 rest
  | text => readDigits limit 0 text

example : read 100 "+99".toList = .ok 99 := by rfl
example : read 100 "100".toList = .error .overflow := by rfl
example : read 100 "99x".toList = .error .invalidDigit := by rfl
example : read 100 "+".toList = .error .invalidDigit := by rfl

end SqlGen.Decimal
