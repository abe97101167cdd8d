import SqlGen.Decimal.Binary64
import SqlGen.Decimal.Natural

/-!
# The shortest decimal of a binary number

A decimal stands for the binary number `m · 2 ^ q` when it lies between the
midpoints to the two neighbours of that number.  The midpoints themselves count
when `m` is even.  Below a power of two the neighbour is half as far away, so
there the interval reaches a quarter of a unit down and half a unit up.

All quantities are counted in quarters of `2 ^ q`: the number is `4 * m`, the
interval runs from `lower m` to `upper m`.  A decimal grid with step `10 ^ p` is
compared with them through the fraction `ratio q p`, a quarter unit in steps of
the grid.

`shortest` tries grids with 1, 2, … 17 digits at the place of the number's
leading digit.  If some point of a grid lies in the interval then one of the two
points next to the number does, so two candidates per grid are enough.  Of two
hits the nearer one is taken, and the upper one if both are equally near.
-/

namespace SqlGen.Decimal

/-- A decimal number `value · 10 ^ place`. -/
structure Scaled where
  /-- The digits, as a number. -/
  value : Nat
  /-- The power of ten of the last digit. -/
  place : Int
deriving DecidableEq, Repr

/-- The lower end of the interval, in quarter units. -/
def lower (m : Nat) : Nat := if m = hiddenBit then 4 * m - 1 else 4 * m - 2

/-- The upper end of the interval, in quarter units. -/
def upper (m : Nat) : Nat := 4 * m + 2

/-- A quarter of `2 ^ q` in steps of `10 ^ p`, as numerator and denominator. -/
def ratio (q p : Int) : Nat × Nat :=
  (Nat.pow 2 (q - 2).toNat * Nat.pow 10 (-p).toNat, Nat.pow 2 (2 - q).toNat * Nat.pow 10 p.toNat)

/-- The grid point `t · 10 ^ p` stands for the number `m · 2 ^ q`. -/
def readsBack (m : Nat) (q p : Int) (t : Nat) : Bool :=
  let (num, den) := ratio q p
  if m % 2 = 0 then lower m * num ≤ t * den && t * den ≤ upper m * num
  else lower m * num < t * den && t * den < upper m * num

/-- The point of the grid with step `10 ^ p` that stands for `m · 2 ^ q` and is nearest to it. -/
def onGrid (m : Nat) (q p : Int) : Option Nat :=
  let (num, den) := ratio q p
  let below := 4 * m * num / den
  match readsBack m q p below, readsBack m q p (below + 1) with
  | true, true =>
      if 2 * (4 * m * num) < (2 * below + 1) * den then some below else some (below + 1)
  | true, false => some below
  | false, true => some (below + 1)
  | false, false => none

/-- The power of ten of the leading digit of `m · 2 ^ q`, for positive `m`. -/
def leadingPlace (m : Nat) (q : Int) : Int :=
  let num := m * Nat.pow 2 q.toNat
  let den := Nat.pow 2 (-q).toNat
  let guess : Int := (digits num).length - (digits den).length
  if Nat.pow 10 guess.toNat * den ≤ num * Nat.pow 10 (-guess).toNat then guess else guess - 1

/-- The decimal of fewest digits that stands for `m · 2 ^ q`, for positive `m`.
Seventeen digits always suffice. -/
def shortest (m : Nat) (q : Int) : Scaled :=
  let lead := leadingPlace m q
  match (List.range 17).findSome? fun extra : Nat =>
      (onGrid m q (lead - extra)).map fun t => Scaled.mk t (lead - extra) with
  | some found => found
  | none => ⟨4 * m * (ratio q (lead - 16)).1 / (ratio q (lead - 16)).2, lead - 16⟩

/-- One tenth has one digit. -/
example : shortest 0x1999999999999a (-56) = ⟨1, -1⟩ := by decide +kernel
/-- The least positive number has one digit. -/
example : shortest 1 (-1074) = ⟨5, -324⟩ := by decide +kernel
/-- A grid point above the leading place is taken when it is the nearer one. -/
example : shortest 2 (-1074) = ⟨10, -324⟩ := by decide +kernel

end SqlGen.Decimal
