import MergeOnRead.Number.Binary64

/-!
# The shortest decimal of a floating-point number

Among the decimals that read back as a given number of a format, those with the fewest
digits are sought, and of these the nearest to the number.  For each number of digits it
is enough to look at the two neighbours of the number on the grid of decimals with that
many digits: if any point of the grid reads back, so does a neighbour.
-/

namespace MergeOnRead

/-- The decimal `digits · 10 ^ exponent`. -/
structure ScaledDigits where
  /-- The digits, read as a natural number. -/
  digits : Nat
  /-- The power of ten of the last digit. -/
  exponent : Int
  deriving DecidableEq, Repr

namespace Shortest

/-- The reals that round to one number of a format, multiplied by a common denominator. -/
structure Interval where
  /-- The number itself. -/
  value : Nat
  /-- The lower end. -/
  low : Nat
  /-- The upper end. -/
  high : Nat
  /-- The common denominator. -/
  den : Nat
  /-- The ends round to the number as well. -/
  closed : Bool

/-- The interval of a positive number `m · 2 ^ q` of a format: half a step to each side, a quarter
step below the coefficient with which a binade starts.  The ends belong to it when the
coefficient is even. -/
def Interval.ofParts (format : Binary64.Format) (m : Nat) (q : Int) : Interval :=
  let shift := q - 2
  let scale := if 0 ≤ shift then Nat.pow 2 shift.toNat else 1
  let below :=
    if m = Nat.pow 2 (format.precision - 1) ∧ format.minExponent < q then 1 else 2
  { value := 4 * m * scale
    low := (4 * m - below) * scale
    high := (4 * m + 2) * scale
    den := if 0 ≤ shift then 1 else Nat.pow 2 (-shift).toNat
    closed := m % 2 == 0 }

/-- All members multiplied by a power of ten. -/
def Interval.shift (i : Interval) (places : Int) : Interval :=
  if 0 ≤ places then
    let p := Nat.pow 10 places.toNat
    { i with value := i.value * p, low := i.low * p, high := i.high * p }
  else { i with den := i.den * Nat.pow 10 (-places).toNat }

/-- A natural number lies in the interval. -/
def Interval.holds (i : Interval) (n : Nat) : Bool :=
  if i.closed then i.low ≤ n * i.den && n * i.den ≤ i.high
  else i.low < n * i.den && n * i.den < i.high

/-- The neighbour of the value among the natural numbers that lies in the interval; of two the
nearer one, of two equally near the even one. -/
def Interval.neighbour? (i : Interval) : Option Nat :=
  let below := i.value / i.den
  let above := below + 1
  match i.holds below, i.holds above with
  | true, true =>
    let down := i.value - below * i.den
    let up := above * i.den - i.value
    some (if down < up then below else if up < down then above
      else if below % 2 = 0 then below else above)
  | true, false => some below
  | false, true => some above
  | false, false => none

/-- The number of digits before the decimal point of `num / den`; zero or less for leading zeros
behind the point. -/
def pointPosition (num den : Nat) : Int :=
  let guess : Int :=
    ((Nat.toDigits 10 num).length : Int) - ((Nat.toDigits 10 den).length : Int)
  let reached : Bool :=
    if 0 ≤ guess then den * Nat.pow 10 guess.toNat ≤ num else den ≤ num * Nat.pow 10 (-guess).toNat
  if reached then guess + 1 else guess

/-- Tries the grids with `count`, `count + 1`, … digits. -/
def search (i : Interval) (point : Int) : (attempts count : Nat) → ScaledDigits
  | 0, count => ⟨(i.shift (count - point)).value, point - count⟩
  | attempts + 1, count =>
    match (i.shift (count - point)).neighbour? with
    | some digits => ⟨digits, point - count⟩
    | none => search i point attempts (count + 1)

/-- The shortest decimal that reads back, in a format, as a positive finite number of it. -/
def ofBinary64 (format : Binary64.Format) (x : Binary64) : ScaledDigits :=
  let (num, den) := x.ratio
  let (m, q) := (format.round? num den).getD (x.coefficient, x.exponent)
  let i := Interval.ofParts format m q
  search i (pointPosition i.value i.den) 17 1

end Shortest

/-- How a floating-point number is written. -/
structure FloatLayout where
  /-- The least power of ten of the first digit that is written with a point only. -/
  leastPositional : Int
  /-- The first power of ten that is written with an exponent again. -/
  firstScientific : Int
  /-- The least number of digits of an exponent. -/
  exponentWidth : Nat
  /-- What follows the digits of a number without a fraction. -/
  wholeEnd : String

namespace FloatLayout

/-- Numbers from `0.0001` up to, and without, `1e+16` are written with a point, all others with
an exponent of at least two digits. -/
def standard : FloatLayout := ⟨-4, 16, 2, ".0"⟩

/-- Numbers from `0.000001` up to, and without, `1e+10` are written without an exponent, and whole
numbers without a point. -/
def compact : FloatLayout := ⟨-6, 10, 1, ""⟩

/-- The text of an exponent: a sign and its digits, padded with zeros. -/
def exponentText (layout : FloatLayout) (e : Int) : String :=
  let digits := Nat.toDigits 10 e.natAbs
  (if e < 0 then "-" else "+") ++
    String.ofList (List.replicate (layout.exponentWidth - digits.length) '0' ++ digits)

/-- The digits of a number and the place of its point, written out. -/
def render (layout : FloatLayout) (n : ScaledDigits) : String :=
  let all := Nat.toDigits 10 n.digits
  let point : Int := n.exponent + all.length
  let digits := (all.reverse.dropWhile (· == '0')).reverse
  if point - 1 < layout.leastPositional || layout.firstScientific ≤ point - 1 then
    let tail := digits.drop 1
    String.ofList (digits.take 1 ++ (if tail.isEmpty then [] else '.' :: tail)) ++ "e" ++
      layout.exponentText (point - 1)
  else if point ≤ 0 then
    "0." ++ String.ofList (List.replicate (-point).toNat '0' ++ digits)
  else
    let p := point.toNat
    let whole := digits.take p
    let fraction := digits.drop p
    String.ofList (whole ++ List.replicate (p - whole.length) '0') ++
      (if fraction.isEmpty then layout.wholeEnd else "." ++ String.ofList fraction)

/-- The text of a number of a format. -/
def write (layout : FloatLayout) (format : Binary64.Format) (x : Binary64) : String :=
  if x.isNaN then "nan"
  else
    let sign := if x.isNegative then "-" else ""
    if x.isInfinite then sign ++ "inf"
    else if x.isZero then sign ++ "0" ++ layout.wholeEnd
    else sign ++ layout.render (Shortest.ofBinary64 format x)

end FloatLayout

/-- The text of a double. -/
def Binary64.text (x : Binary64) : String := FloatLayout.standard.write Binary64.double x

end MergeOnRead
