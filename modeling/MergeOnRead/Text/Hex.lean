/-!
# Hexadecimal text

Numbers to base sixteen, and bytes as two digits each.  Digits are written in small
letters and read in letters of both cases.
-/

namespace MergeOnRead.Text

/-- The digits of a number to base sixteen, padded with zeros to a width. -/
def hexDigits (width n : Nat) : String :=
  let digits := Nat.toDigits 16 n
  String.ofList (List.replicate (width - digits.length) '0' ++ digits)

/-- The text of bytes. -/
def hexOfBytes (bytes : List UInt8) : String :=
  String.join (bytes.map fun b => hexDigits 2 b.toNat)

/-- The value of a digit. -/
def hexDigit? (c : Char) : Option Nat :=
  if c.isDigit then some (c.toNat - '0'.toNat)
  else if 'a' ≤ c.toLower ∧ c.toLower ≤ 'f' then some (c.toLower.toNat - 'a'.toNat + 10)
  else none

/-- The number that digits spell; there may be none. -/
def hexNumber? (digits : List Char) : Option Nat :=
  digits.foldlM (fun n c => (hexDigit? c).map (16 * n + ·)) 0

/-- The bytes that pairs of digits spell. -/
def hexBytes? : List Char → Option (List UInt8)
  | [] => some []
  | [_] => none
  | c :: d :: rest => do
    let b ← hexNumber? [c, d]
    let bytes ← hexBytes? rest
    some (UInt8.ofNat b :: bytes)

end MergeOnRead.Text
