/-!
# Shortest decimals

The shortest decimal of a binary floating-point number is the one with the
fewest digits among those that read back as the number, and of several such the
nearest to it. A finite number is `m * 2 ^ q`; the decimals that read back as it
lie between the midpoints to its two neighbours, and on a midpoint only if `m`
is even. For one digit, two digits and so on, the two decimals of that length
around the number are tried in exact arithmetic; seventeen digits always do.
-/

namespace QlikMigration.Decimal

/-- A power of two. -/
def twoTo (n : Nat) : Nat := Nat.pow 2 n

/-- A power of ten. -/
def tenTo (n : Nat) : Nat := Nat.pow 10 n

/-- A decimal number `digits * 10 ^ exponent`. -/
structure Scaled where
  digits : Nat
  exponent : Int
  deriving DecidableEq, Repr

/-- A positive binary number `significand * 2 ^ exponent`. The flag says whether the
next smaller number is only half as far away as the next larger one. -/
structure Binary where
  significand : Nat
  exponent : Int
  closeBelow : Bool
  deriving DecidableEq, Repr

namespace Binary

/-- Four times the significand, so that both midpoints to the neighbours are whole
numbers of the same unit. -/
def quarters (x : Binary) : Nat :=
  4 * x.significand

/-- The exponent of the unit that `quarters` counts. -/
def unit (x : Binary) : Int :=
  x.exponent - 2

/-- The midpoint to the next smaller number, in units. -/
def lower (x : Binary) : Nat :=
  x.quarters - if x.closeBelow then 1 else 2

/-- The midpoint to the next larger number, in units. -/
def upper (x : Binary) : Nat :=
  x.quarters + 2

/-- The whole part of `count * 2 ^ unit * 10 ^ shift`. -/
def wholePart (x : Binary) (count : Nat) (shift : Int) : Nat :=
  (count * twoTo x.unit.toNat * tenTo shift.toNat) /
    (twoTo (-x.unit).toNat * tenTo (-shift).toNat)

/-- The position of the leading digit: the largest `e` with `10 ^ e` at most the
number. The shift by four hundred places makes every double a whole number with
digits to spare. -/
def leading (x : Binary) : Int :=
  ((Nat.toDigits 10 (x.wholePart x.quarters 400)).length : Int) - 401

/-- A decimal on the common scale on which it is compared with counts of units. -/
def scaleDecimal (x : Binary) (d : Scaled) : Nat :=
  d.digits * tenTo d.exponent.toNat * twoTo (-x.unit).toNat

/-- A count of units on the common scale on which it is compared with a decimal. -/
def scaleUnits (x : Binary) (d : Scaled) (count : Nat) : Nat :=
  count * twoTo x.unit.toNat * tenTo (-d.exponent).toNat

/-- Whether a decimal reads back as the number. -/
def readsBack (x : Binary) (d : Scaled) : Bool :=
  let value := x.scaleDecimal d
  let low := x.scaleUnits d x.lower
  let high := x.scaleUnits d x.upper
  if x.significand % 2 == 0 then low ≤ value && value ≤ high
  else low < value && value < high

/-- The distance of a decimal from the number, on the common scale. -/
def distance (x : Binary) (d : Scaled) : Nat :=
  let value := x.scaleDecimal d
  let exact := x.scaleUnits d x.quarters
  if value ≤ exact then exact - value else value - exact

/-- The better of two neighbouring decimals that may both read back: the nearer, or
the one with the even last digit at equal distance. -/
def nearer? (x : Binary) (below above : Scaled) : Option Scaled :=
  match x.readsBack below, x.readsBack above with
  | false, false => none
  | true, false => some below
  | false, true => some above
  | true, true =>
    if x.distance below < x.distance above then some below
    else if x.distance above < x.distance below then some above
    else if below.digits % 2 == 0 then some below else some above

/-- The decimal with the given number of digits that reads back, if there is one. -/
def withDigits? (x : Binary) (count : Nat) : Option Scaled :=
  let exponent := x.leading - count + 1
  let below := x.wholePart x.quarters (-exponent)
  x.nearer? ⟨below, exponent⟩ ⟨below + 1, exponent⟩

end Binary

/-- A decimal without zeros at the end of its digits. At most `fuel` zeros go. -/
def Scaled.trimZeros : Nat → Scaled → Scaled
  | 0, d => d
  | fuel + 1, d =>
    if d.digits != 0 && d.digits % 10 == 0 then
      Scaled.trimZeros fuel ⟨d.digits / 10, d.exponent + 1⟩
    else d

/-- The shortest decimal that reads back as a positive binary number. -/
def shortest (x : Binary) : Scaled :=
  let found := (List.range 17).findSome? fun n => x.withDigits? (n + 1)
  (found.getD ⟨x.wholePart x.quarters (17 - x.leading), x.leading - 17⟩).trimZeros 20

end QlikMigration.Decimal
