import QlikMigration.Decimal.Shortest

/-!
# Writing floating-point numbers

A number is written with the digits of its shortest decimal. Near one it is
written positionally, with a point and at least one digit behind it; far from
one it is written with an exponent that has a sign and at least two digits.
-/

namespace QlikMigration.Decimal

/-- How floating-point numbers are laid out. Numbers whose decimal point stands
behind a digit position in the given range are written positionally. -/
structure FloatStyle where
  leastPoint : Int
  greatestPoint : Int
  notANumber : String
  infinite : String
  deriving Repr

/-- The notation of data files: positional from `0.0001` up to sixteen digits. -/
def FloatStyle.document : FloatStyle := ⟨-3, 16, "NaN", "Infinity"⟩

/-- The notation of running text: like that of data files, with short words for the
values that are no numbers. -/
def FloatStyle.plain : FloatStyle := ⟨-3, 16, "nan", "inf"⟩

/-- The decimal digits of a number. -/
def digitsOf (n : Nat) : List Char :=
  Nat.toDigits 10 n

/-- A decimal whose point stands after `point` of its digits, written positionally. -/
def positional (digits : List Char) (point : Int) : List Char :=
  if point ≤ 0 then
    '0' :: '.' :: List.replicate (-point).toNat '0' ++ digits
  else if (digits.length : Int) ≤ point then
    digits ++ List.replicate (point.toNat - digits.length) '0' ++ ['.', '0']
  else
    digits.take point.toNat ++ '.' :: digits.drop point.toNat

/-- A decimal whose point stands after `point` of its digits, written with an exponent. -/
def scientific (digits : List Char) (point : Int) : List Char :=
  let power := point - 1
  let magnitude := digitsOf power.natAbs
  let mantissa := match digits with
    | [] => []
    | [d] => [d]
    | d :: rest => d :: '.' :: rest
  mantissa ++ 'e' :: (if power < 0 then '-' else '+') ::
    (if magnitude.length < 2 then '0' :: magnitude else magnitude)

/-- A decimal in a notation. -/
def FloatStyle.layout (style : FloatStyle) (d : Scaled) : List Char :=
  let digits := digitsOf d.digits
  let point := (digits.length : Int) + d.exponent
  if style.leastPoint ≤ point && point ≤ style.greatestPoint then positional digits point
  else scientific digits point

/-- The magnitude of a finite number that is not zero, from its bits. -/
def binaryOfBits (bits : UInt64) : Binary :=
  let fraction : Nat := bits.toNat % twoTo 52
  let biased : Nat := bits.toNat / twoTo 52 % twoTo 11
  if biased == 0 then ⟨fraction, -1074, false⟩
  else ⟨fraction + twoTo 52, (biased : Int) - 1075, fraction == 0 && 1 < biased⟩

/-- The text of a floating-point number in a notation. -/
def FloatStyle.write (style : FloatStyle) (x : Float) : String :=
  let bits := x.toBits
  let sign := if bits.toNat / twoTo 63 == 1 then "-" else ""
  if x.isNaN then style.notANumber
  else if x.isInf then sign ++ style.infinite
  else if bits.toNat % twoTo 63 == 0 then sign ++ "0.0"
  else sign ++ String.ofList (style.layout (shortest (binaryOfBits bits)))

end QlikMigration.Decimal
