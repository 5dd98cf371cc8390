/-!
# Binary floating-point numbers

A double is its 64 bits.  A finite one stands for `± m · 2 ^ q` with natural `m`, and
every operation below works on `m` and `q` in exact arithmetic: rounding of a
quotient to the nearest double (ties to even), rounding to single precision,
truncation to an integer.
-/

namespace MergeOnRead

/-- A double, as the 64 bits of its binary interchange form. -/
structure Binary64 where
  /-- Sign, eleven bits of exponent and 52 bits of fraction, from the top. -/
  bits : UInt64
  deriving DecidableEq, Repr, Inhabited, Hashable

namespace Binary64

/-- The sign bit as a number: `2 ^ 63`. -/
def signUnit : Nat := 0x8000000000000000

/-- The least coefficient of a normal double: `2 ^ 52`. -/
def hiddenBit : Nat := 0x10000000000000

/-- The bits below the sign. -/
def magnitudeBits (x : Binary64) : Nat := x.bits.toNat % signUnit

/-- The sign bit. -/
def isNegative (x : Binary64) : Bool := x.bits.toNat ≥ signUnit

/-- The magnitude bits of infinity; the larger ones are those of the NaNs. -/
def infinityBits : Nat := 0x7FF0000000000000

/-- Not a number. -/
def isNaN (x : Binary64) : Bool := x.magnitudeBits > infinityBits

/-- One of the two infinities. -/
def isInfinite (x : Binary64) : Bool := x.magnitudeBits == infinityBits

/-- A number proper. -/
def isFinite (x : Binary64) : Bool := x.magnitudeBits < infinityBits

/-- Builds a double from a sign and magnitude bits. -/
def ofMagnitude (negative : Bool) (magnitude : Nat) : Binary64 :=
  ⟨UInt64.ofNat (if negative then signUnit + magnitude else magnitude)⟩

/-- The NaN that stands for all of them. -/
def nan : Binary64 := ⟨0x7FF8000000000000⟩

/-- Infinity with a sign. -/
def infinity (negative : Bool) : Binary64 := ofMagnitude negative infinityBits

/-- The coefficient `m` of a finite double `± m · 2 ^ q`. -/
def coefficient (x : Binary64) : Nat :=
  let fraction := x.magnitudeBits % hiddenBit
  if x.magnitudeBits < hiddenBit then fraction else hiddenBit + fraction

/-- The exponent `q` of a finite double `± m · 2 ^ q`. -/
def exponent (x : Binary64) : Int :=
  let field : Nat := x.magnitudeBits / hiddenBit
  if field = 0 then -1074 else (field : Int) - 1075

/-- Zero with either sign. -/
def isZero (x : Binary64) : Bool := x.magnitudeBits == 0

/-- The quotient rounded to the nearest natural number, a half to the even neighbour. -/
def roundHalfEven (num den : Nat) : Nat :=
  let q := num / den
  let r := num % den
  if 2 * r < den then q
  else if den < 2 * r then q + 1
  else if q % 2 = 0 then q else q + 1

/-- The integer `e` with `2 ^ e ≤ num / den < 2 ^ (e + 1)`, for a positive quotient. -/
def floorLog2 (num den : Nat) : Int :=
  let guess : Int := (num.log2 : Int) - (den.log2 : Int)
  let fits : Bool :=
    if 0 ≤ guess then den * Nat.pow 2 guess.toNat ≤ num else den ≤ num * Nat.pow 2 (-guess).toNat
  if fits then guess else guess - 1

/-- A binary format, given by what rounding needs of it. -/
structure Format where
  /-- The number of bits of a normal coefficient. -/
  precision : Nat
  /-- The least exponent `q`. -/
  minExponent : Int
  /-- The exponent that a finite number cannot reach. -/
  maxExponent : Int

/-- Double precision. -/
def double : Format := ⟨53, -1074, 972⟩

/-- Single precision. -/
def single : Format := ⟨24, -149, 105⟩

/-- The coefficient and exponent in a format that are nearest to a positive quotient, unless it
rounds to infinity. -/
def Format.round? (format : Format) (num den : Nat) : Option (Nat × Int) :=
  let q := max (floorLog2 num den - (format.precision - 1 : Nat)) format.minExponent
  let m := if 0 ≤ q then roundHalfEven num (den * Nat.pow 2 q.toNat)
    else roundHalfEven (num * Nat.pow 2 (-q).toNat) den
  let (m, q) :=
    if m = Nat.pow 2 format.precision then (Nat.pow 2 (format.precision - 1), q + 1) else (m, q)
  if q < format.maxExponent then some (m, q) else none

/-- The double `± m · 2 ^ q` of a coefficient and exponent that double precision holds. -/
def ofParts (negative : Bool) (m : Nat) (q : Int) : Binary64 :=
  if m = 0 then ofMagnitude negative 0
  else
    let shift := 52 - m.log2
    let (m, q) := if -1074 ≤ q - shift then (m * Nat.pow 2 shift, q - shift)
      else (m * Nat.pow 2 (q + 1074).toNat, -1074)
    ofMagnitude negative (if m < hiddenBit then m else (q + 1074).toNat * hiddenBit + m)

/-- The number of a format that is nearest to a quotient with a sign, as a double. -/
def ofRatioIn (format : Format) (negative : Bool) (num den : Nat) : Binary64 :=
  if num = 0 then ofMagnitude negative 0
  else match format.round? num den with
    | some (m, q) => ofParts negative m q
    | none => infinity negative

/-- The double nearest to a quotient with a sign. -/
def ofRatio (negative : Bool) (num den : Nat) : Binary64 := ofRatioIn double negative num den

/-- The double nearest to an integer, unless that is infinite. -/
def ofInt? (n : Int) : Option Binary64 :=
  let x := ofRatio (decide (n < 0)) n.natAbs 1
  if x.isInfinite then none else some x

/-- The number of a format nearest to `± digits · 10 ^ exponent`, as a double. -/
def ofDecimalIn (format : Format) (negative : Bool) (digits : Nat) (exponent : Int) : Binary64 :=
  let width : Int := (Nat.toDigits 10 digits).length
  if digits = 0 then ofMagnitude negative 0
  else if exponent + width > 400 then infinity negative
  else if exponent + width < -400 then ofMagnitude negative 0
  else if 0 ≤ exponent then ofRatioIn format negative (digits * Nat.pow 10 exponent.toNat) 1
  else ofRatioIn format negative digits (Nat.pow 10 (-exponent).toNat)

/-- The double nearest to `± digits · 10 ^ exponent`. -/
def ofDecimal (negative : Bool) (digits : Nat) (exponent : Int) : Binary64 :=
  ofDecimalIn double negative digits exponent

/-- The magnitude of a finite double as a quotient. -/
def ratio (x : Binary64) : Nat × Nat :=
  if 0 ≤ x.exponent then (x.coefficient * Nat.pow 2 x.exponent.toNat, 1)
  else (x.coefficient, Nat.pow 2 (-x.exponent).toNat)

/-- The value rounded to single precision; too large a magnitude becomes infinite. -/
def toSingle (x : Binary64) : Binary64 :=
  if x.isNaN then nan
  else if !x.isFinite || x.isZero then x
  else
    let (num, den) := x.ratio
    ofRatioIn single x.isNegative num den

/-- The integer part of a finite double, toward zero. -/
def truncate (x : Binary64) : Int :=
  let (num, den) := x.ratio
  let n : Int := (num / den : Nat)
  if x.isNegative then -n else n

/-- A finite double without a fraction. -/
def isIntegral (x : Binary64) : Bool :=
  x.isFinite && (let (num, den) := x.ratio; num % den == 0)

end Binary64

end MergeOnRead
