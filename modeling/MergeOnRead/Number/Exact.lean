import MergeOnRead.Number.Binary64
import MergeOnRead.Number.Decimal

/-!
# Exact values of numbers

Integers, doubles and decimals are compared by exact value.  Every one of them is a
decimal fraction, and a decimal fraction has one form `mantissa · 10 ^ exponent`
whose mantissa does not end in zero; two numbers are equal exactly when these forms
are the same.
-/

namespace MergeOnRead

/-- A decimal fraction in lowest form, or an infinity. -/
inductive Exact where
  | finite (mantissa exponent : Int)
  | infinite (negative : Bool)
  deriving DecidableEq, Repr, Inhabited, Ord

namespace Exact

/-- Drops zeros from the end of a number, and counts them into an exponent. -/
def stripZeros : (fuel : Nat) → Nat → Int → Nat × Int
  | 0, n, e => (n, e)
  | fuel + 1, n, e => if n % 10 = 0 then stripZeros fuel (n / 10) (e + 1) else (n, e)

/-- The lowest form of `± n · 10 ^ e`. -/
def ofParts (negative : Bool) (n : Nat) (e : Int) : Exact :=
  if n = 0 then .finite 0 0
  else
    let (n, e) := stripZeros (n.log2 + 1) n e
    .finite (if negative then -(n : Int) else n) e

/-- The value of an integer. -/
def ofInt (n : Int) : Exact := ofParts (decide (n < 0)) n.natAbs 0

/-- The value of a double; none for NaN. -/
def ofBinary64? (x : Binary64) : Option Exact :=
  if x.isNaN then none
  else if x.isInfinite then some (.infinite x.isNegative)
  else if 0 ≤ x.exponent then
    some (ofParts x.isNegative (x.coefficient * Nat.pow 2 x.exponent.toNat) 0)
  else some (ofParts x.isNegative (x.coefficient * Nat.pow 5 (-x.exponent).toNat) x.exponent)

/-- The value of a decimal; none for NaN. -/
def ofDecimal? : Decimal → Option Exact
  | .finite negative digits exponent => some (ofParts negative digits exponent)
  | .infinite negative => some (.infinite negative)
  | .nan _ _ _ => none

/-- Compares two magnitudes, first by the place of the leading digit. -/
def compareMagnitude (m : Nat) (e : Int) (n : Nat) (f : Int) : Ordering :=
  let lead (k : Nat) (g : Int) : Int := g + (Nat.toDigits 10 k).length
  match compare (lead m e) (lead n f) with
  | .eq => compare (m * Nat.pow 10 (e - f).toNat) (n * Nat.pow 10 (f - e).toNat)
  | order => order

/-- The sign of a value: `-1`, `0` or `1`. -/
def sign : Exact → Int
  | .finite m _ => m.sign
  | .infinite negative => if negative then -1 else 1

/-- The order of values. -/
def order (x y : Exact) : Ordering :=
  match compare x.sign y.sign with
  | .eq => match x, y with
    | .infinite _, .infinite _ => .eq
    | .infinite negative, .finite _ _ => if negative then .lt else .gt
    | .finite _ _, .infinite negative => if negative then .gt else .lt
    | .finite m e, .finite n f =>
      if m = 0 then .eq
      else if 0 < m then compareMagnitude m.natAbs e n.natAbs f
      else compareMagnitude n.natAbs f m.natAbs e
  | order => order

end Exact

end MergeOnRead
