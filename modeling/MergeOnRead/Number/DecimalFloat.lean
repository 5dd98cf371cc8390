import MergeOnRead.Number.Binary64
import MergeOnRead.Number.Decimal

/-!
# Decimals and floating-point numbers

Conversions between decimals with a fixed number of places and floating-point numbers,
in integers of a fixed size.  From a float to a decimal, the value is multiplied by a
power of ten and shifted to the right; `shiftRound` rounds to the nearest integer, a
half to the even one.  From a decimal to a float, every step is rounded to the format.
-/

namespace MergeOnRead.DecimalFloat

open Binary64

/-- The number of digits that a decimal can have. -/
def maxDigits : Nat := 38

/-- The number of decimal digits that is set aside for the coefficient of a format. -/
def coefficientDigits (format : Format) : Nat := if format.precision ≤ 24 then 8 else 16

/-! ## From floats to decimals -/

/-- A number without its last bits, rounded. -/
def shiftRound (n bits : Nat) : Nat := roundHalfEven n (Nat.pow 2 bits)

/-- The number of bits that a factor of a power of ten adds at most. -/
def bitsOfPower (places : Nat) : Nat :=
  if places = 0 then 0 else (Nat.pow 10 places - 1).log2 + 1

/-- Multiplies by a power of ten and shifts to the right in turns, so that what is between stays
small; each turn takes at most `step` places.  What is left to do comes at the end. -/
def scaleInTurns (step : Nat) :
    (fuel : Nat) → (n places shift donePlaces doneShift : Nat) → Nat
  | 0, n, places, shift, _, _ => shiftRound (n * Nat.pow 10 places) shift
  | fuel + 1, n, places, shift, donePlaces, doneShift =>
    if places = 0 ∨ shift = 0 then shiftRound (n * Nat.pow 10 places) shift
    else
      let now := min places step
      let donePlaces := donePlaces + now
      let bits := min shift (bitsOfPower donePlaces - doneShift)
      scaleInTurns step fuel (shiftRound n bits * Nat.pow 10 now) (places - now) (shift - bits)
        donePlaces (doneShift + bits)

/-- The coefficient and exponent of a finite number other than zero, with as many bits in the
coefficient as the format has. -/
def normalized (format : Format) (x : Binary64) : Nat × Int :=
  let lift : Int := (format.precision - 1 : Nat) - (x.coefficient.log2 : Int)
  let m := if 0 ≤ lift then x.coefficient * Nat.pow 2 lift.toNat
    else x.coefficient / Nat.pow 2 (-lift).toNat
  (m, x.exponent - lift)

/-- The digits of the decimal with a number of places that stands for the magnitude of a finite
number of a format.  As long as there is room for the whole product it is rounded once. -/
def scaledDigits (format : Format) (precision places : Nat) (x : Binary64) : Nat :=
  let (m, q) := normalized format x
  let room := maxDigits - coefficientDigits format
  if 0 ≤ q then m * Nat.pow 10 places * Nat.pow 2 q.toNat
  else if places ≤ room then shiftRound (m * Nat.pow 10 places) (-q).toNat
  else scaleInTurns (max 1 (maxDigits - precision)) places (m * Nat.pow 10 room) (places - room)
    (-q).toNat 0 0

/-- The decimal with a number of places that stands for a number of a format; none when it has more
digits than the precision, or when the number is not finite. -/
def toDecimal? (format : Format) (precision places : Nat) (x : Binary64) : Option Decimal :=
  if !x.isFinite then none
  else if x.isZero then some (.finite false 0 (-(places : Int)))
  else
    let digits := scaledDigits format precision places x
    if digits < Nat.pow 10 precision then
      some (.finite (x.isNegative && digits != 0) digits (-(places : Int)))
    else none

/-! ## From decimals to floats -/

/-- The product of two magnitudes in a format. -/
def multiply (format : Format) (x y : Binary64) : Binary64 :=
  let (a, b) := x.ratio
  let (c, d) := y.ratio
  ofRatioIn format false (a * c) (b * d)

/-- The sum of two magnitudes in a format. -/
def add (format : Format) (x y : Binary64) : Binary64 :=
  let (a, b) := x.ratio
  let (c, d) := y.ratio
  ofRatioIn format false (a * d + c * b) (b * d)

/-- An integer in a format: the parts above and below 64 bits are rounded, and then their sum. -/
def ofNat (format : Format) (n : Nat) : Binary64 :=
  let unit := Nat.pow 2 64
  let (num, den) := (ofRatioIn format false (n / unit) 1).ratio
  add format (ofRatioIn format false (num * unit) den) (ofRatioIn format false (n % unit) 1)

/-- The digits of a decimal times a power of ten, both in a format. -/
def scaled (format : Format) (digits places : Nat) : Binary64 :=
  multiply format (ofNat format digits) (ofRatioIn format false 1 (Nat.pow 10 places))

/-- The number of a format that stands for `± digits / 10 ^ places`.  Where the format does not hold
all the digits, integer part and fraction are converted one by one. -/
def ofDecimal (format : Format) (negative : Bool) (digits places : Nat) : Binary64 :=
  let x :=
    if places = 0 then ofNat format digits
    else if digits ≤ Nat.pow 2 format.precision then scaled format digits places
    else
      let unit := Nat.pow 10 places
      add format (ofNat format (digits / unit)) (scaled format (digits % unit) places)
  if negative then ⟨x.bits ||| UInt64.ofNat signUnit⟩ else x

end MergeOnRead.DecimalFloat
