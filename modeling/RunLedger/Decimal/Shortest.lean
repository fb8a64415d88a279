/-!
# Shortest decimals of doubles

A finite double other than zero is `m · 2^q` for whole numbers `m` and `q`. Every real number nearer
to it than to its neighbours reads back as it, and so do the midpoints to them if `m` is even. Of
the decimals with so many significant digits the two next to the double are tried, for one digit,
then two and so on, and the first number of digits with a decimal that reads back is taken; of two
such decimals the nearer one, on a tie the greater (`Decimal.shortestDigits`).

`Decimal.shortest` writes these digits without an exponent.
-/

set_option autoImplicit false

namespace RunLedger.Decimal

/-- A positive rational number. -/
structure Ratio where
  numerator : Nat
  denominator : Nat

/-- Whether one ratio is less than another. -/
def Ratio.isLess (first second : Ratio) : Bool :=
  first.numerator * second.denominator < second.numerator * first.denominator

/-- `factor · base ^ exponent`. -/
def scaled (factor base : Nat) (exponent : Int) : Ratio :=
  match exponent with
  | .ofNat exponent => ⟨factor * Nat.pow base exponent, 1⟩
  | .negSucc exponent => ⟨factor, Nat.pow base (exponent + 1)⟩

/-- A double other than zero as `mantissa · 2 ^ exponent`. At the least mantissa of an exponent the
double below is only half as far away as the one above, unless the exponent is the least of all. -/
structure Binary where
  mantissa : Nat
  exponent : Int
  isLowest : Bool

/-- The parts of a positive finite double with the given bits. -/
def Binary.ofBits (bits : Nat) : Binary :=
  let biased : Nat := bits / Nat.pow 2 52 % Nat.pow 2 11
  let fraction : Nat := bits % Nat.pow 2 52
  if biased = 0 then ⟨fraction, -1074, false⟩
  else ⟨Nat.pow 2 52 + fraction, Int.ofNat biased - 1075, fraction = 0 && 1 < biased⟩

/-- The least and the greatest number that may read back as the double. -/
def Binary.bounds (binary : Binary) : Ratio × Ratio :=
  let quarter := binary.exponent - 2
  (scaled (4 * binary.mantissa - if binary.isLowest then 1 else 2) 2 quarter,
    scaled (4 * binary.mantissa + 2) 2 quarter)

/-- Whether a number reads back as the double: it lies between the bounds, or on one if the mantissa
is even. -/
def Binary.isReadFrom (binary : Binary) (ratio : Ratio) : Bool :=
  let (least, greatest) := binary.bounds
  if binary.mantissa % 2 = 0 then !ratio.isLess least && !greatest.isLess ratio
  else least.isLess ratio && ratio.isLess greatest

/-- The least power of ten above a ratio: the `e` with `10 ^ (e - 1) ≤ ratio < 10 ^ e`, if it is
among the numbers from `low` on, of which there are `count`. -/
def magnitude (ratio : Ratio) (low : Int) : (count : Nat) → Int
  | 0 => low
  | count + 1 => if ratio.isLess (scaled 1 10 low) then low else magnitude ratio (low + 1) count

/-- Digits as a whole number, and the power of ten they are multiplied by. -/
structure Digits where
  number : Nat
  exponent : Int

/-- The decimal with so many digits that is nearest to the double among those that read back as it,
of which only the two next to it can be; the greater of the two if they are equally near. -/
def nearest? (binary : Binary) (magnitude : Int) (count : Nat) : Option Digits :=
  let exponent := magnitude - count
  let value := scaled binary.mantissa 2 binary.exponent
  let unit := scaled 1 10 exponent
  let numerator := value.numerator * unit.denominator
  let denominator := value.denominator * unit.numerator
  let below := numerator / denominator
  let remainder := numerator % denominator
  let reads (number : Nat) : Bool := binary.isReadFrom (scaled number 10 exponent)
  let belowIsNearer := 2 * remainder < denominator
  match reads below, reads (below + 1) with
  | true, true => some ⟨if belowIsNearer then below else below + 1, exponent⟩
  | true, false => some ⟨below, exponent⟩
  | false, true => some ⟨below + 1, exponent⟩
  | false, false => none

/-- The fewest digits that read back as the double, with at most `left` digits more than `count`. -/
def fewest (binary : Binary) (magnitude : Int) (count : Nat) : (left : Nat) → Digits
  | 0 => ⟨0, 0⟩
  | left + 1 =>
    match nearest? binary magnitude count with
    | some digits => digits
    | none => fewest binary magnitude (count + 1) left

/-- The fewest digits that read back as a positive finite double with the given bits; seventeen
always do. -/
def shortestDigits (bits : Nat) : Digits :=
  let binary := Binary.ofBits bits
  let value := scaled binary.mantissa 2 binary.exponent
  fewest binary (magnitude value (-323) 633) 1 17

/-- Digits without their final zeros, of which there are at most `left`. -/
def Digits.trimmed (digits : Digits) : (left : Nat) → Digits
  | 0 => digits
  | left + 1 =>
    if digits.number ≠ 0 ∧ digits.number % 10 = 0 then
      Digits.trimmed ⟨digits.number / 10, digits.exponent + 1⟩ left
    else digits

/-- Digits written out, with a point only before a fraction. -/
def Digits.positional (digits : Digits) : String :=
  let digits := digits.trimmed 20
  let written := Nat.toDigits 10 digits.number
  match digits.exponent with
  | .ofNat exponent => String.ofList (written ++ List.replicate exponent '0')
  | .negSucc exponent =>
    let places := exponent + 1
    let padded := List.replicate (places + 1 - written.length) '0' ++ written
    let whole := padded.take (padded.length - places)
    String.ofList (whole ++ '.' :: padded.drop (padded.length - places))

/-- A double in the fewest digits that read back as it, without an exponent and without a point if
it is whole. -/
def shortest (value : Float) : String :=
  if value.isNaN then "NaN"
  else
    let bits := value.toBits.toNat
    let magnitude := bits % Nat.pow 2 63
    let sign := if bits = magnitude then "" else "-"
    if value.isInf then sign ++ "inf"
    else if magnitude = 0 then sign ++ "0"
    else sign ++ (shortestDigits magnitude).positional

end RunLedger.Decimal
