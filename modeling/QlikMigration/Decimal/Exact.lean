import QlikMigration.Decimal.FloatStyle

/-!
# Whole numbers beside floating-point numbers

A whole number of any size and a floating-point number are compared by their
exact values. A finite floating-point number is `m * 2 ^ q`, so both sides become
whole numbers when they are counted in a small enough unit; nothing is rounded.

The quotient of two whole numbers is rounded once, however large they are.
-/

namespace QlikMigration.Decimal

/-- Whether the sign of a floating-point number is a minus. -/
def isNegative (x : Float) : Bool :=
  x.toBits.toNat / twoTo 63 == 1

/-- A whole number `m * 2 ^ q` with a sign, counted in units of `2 ^ unit`, where `unit` is at
most `q`. -/
def signedUnits (negative : Bool) (x : Binary) (unit : Int) : Int :=
  let magnitude : Int := x.significand * twoTo (x.exponent - unit).toNat
  if negative then -magnitude else magnitude

/-- The order of a whole number and a floating-point number; none if the latter is not a
number. -/
def compareWhole? (n : Int) (x : Float) : Option Ordering :=
  if x.isNaN then none
  else if x.isInf then some (if isNegative x then .gt else .lt)
  else
    let binary := binaryOfBits x.toBits
    let unit := min binary.exponent 0
    some (compare (n * twoTo (-unit).toNat) (signedUnits (isNegative x) binary unit))

/-- The bits by which a dividend is shifted before it is divided. -/
def quotientShift : Nat := 128

/-- The floating-point number nearest to the quotient of two natural numbers, of which the
second is less than `2 ^ 64` and not zero. The whole quotient of the shifted dividend has
more bits than the result, and its last bit is set if the division leaves a rest, so that
rounding it rounds the exact quotient. -/
def quotientNat (n d : Nat) : Float :=
  let shifted := n * twoTo quotientShift
  let whole := shifted / d
  let marked := if shifted % d == 0 || whole % 2 == 1 then whole else whole + 1
  Float.ofNat marked / Float.ofNat (twoTo quotientShift)

/-- The floating-point number nearest to the quotient of a whole number and a positive one. -/
def quotient (n : Int) (d : Nat) : Float :=
  let magnitude := quotientNat n.natAbs d
  if n < 0 then -magnitude else magnitude

end QlikMigration.Decimal
