import MergeOnRead.Text.Characters

/-!
# Decimal numbers

A decimal keeps the digits it was written with, so `1.5` and `1.50` differ in form
although they are equal in value.  `Decimal.text` and `Decimal.read?` are the two
directions between a decimal and its text.
-/

namespace MergeOnRead

/-- A decimal number `± digits · 10 ^ exponent`, an infinity, or not a number. -/
inductive Decimal where
  | finite (negative : Bool) (digits : Nat) (exponent : Int)
  | infinite (negative : Bool)
  /-- Not a number; a signaling one cannot even be compared.  The payload is a number that goes with
  it. -/
  | nan (negative signaling : Bool) (payload : Nat)
  deriving DecidableEq, Repr, Inhabited

namespace Decimal

/-- The text of a decimal.  The point is shown where it stands unless the digits are followed by
zeros or preceded by more than five zeros; then the number has an exponent. -/
def text : Decimal → String
  | .nan negative signaling payload =>
    (if negative then "-" else "") ++ (if signaling then "sNaN" else "NaN") ++
      (if payload = 0 then "" else toString payload)
  | .infinite negative => (if negative then "-" else "") ++ "Infinity"
  | .finite negative digits exponent =>
    let all := Nat.toDigits 10 digits
    let length : Int := all.length
    let left := exponent + length
    let point : Int := if exponent ≤ 0 && -6 < left then left else 1
    let body :=
      if point ≤ 0 then "0." ++ String.ofList (List.replicate (-point).toNat '0' ++ all)
      else if length ≤ point then
        String.ofList (all ++ List.replicate (point - length).toNat '0')
      else String.ofList (all.take point.toNat ++ '.' :: all.drop point.toNat)
    let power := left - point
    let tail :=
      if power = 0 then "" else "E" ++ (if 0 < power then "+" else "") ++ toString power
    (if negative then "-" else "") ++ body ++ tail

/-- The natural number that ASCII digits spell. -/
def spelled (digits : List Char) : Nat :=
  digits.foldl (fun n c => 10 * n + (c.toNat - '0'.toNat)) 0

/-- Reads an exponent: a sign, if any, and digits up to the end. -/
def readExponent? (cs : List Char) : Option Int :=
  let (negative, digits) := match cs with
    | '-' :: rest => (true, rest)
    | '+' :: rest => (false, rest)
    | rest => (false, rest)
  if digits.isEmpty || !digits.all Char.isDigit then none
  else some (if negative then -(spelled digits : Int) else spelled digits)

/-- What stands for a number that is not finite. -/
def special? (negative : Bool) (body : List Char) : Option Decimal :=
  let word := body.map Char.toLower
  let payload (signaling : Bool) (digits : List Char) : Option Decimal :=
    if digits.all Char.isDigit then some (.nan negative signaling (spelled digits)) else none
  match word with
  | 'n' :: 'a' :: 'n' :: digits => payload false digits
  | 's' :: 'n' :: 'a' :: 'n' :: digits => payload true digits
  | _ =>
    if word = "infinity".toList || word = "inf".toList then some (.infinite negative) else none

/-- Reads a decimal in ASCII digits. -/
def readAscii? (cs : List Char) : Option Decimal :=
  let (negative, body) := match cs with
    | '-' :: rest => (true, rest)
    | '+' :: rest => (false, rest)
    | rest => (false, rest)
  match special? negative body with
  | some d => some d
  | none =>
    let whole := body.takeWhile Char.isDigit
    let rest := body.dropWhile Char.isDigit
    let (fraction, rest) := match rest with
      | '.' :: more => (more.takeWhile Char.isDigit, more.dropWhile Char.isDigit)
      | _ => ([], rest)
    let power := match rest with
      | [] => some 0
      | 'e' :: more => readExponent? more
      | 'E' :: more => readExponent? more
      | _ => none
    if whole.isEmpty && fraction.isEmpty then none
    else power.map fun e =>
      .finite negative (spelled (whole ++ fraction)) (e - (fraction.length : Int))

/-- The ASCII digit of the same value; other characters stay. -/
def asciiDigit (c : Char) : Char :=
  match Text.digitValue? c with
  | some d => Char.ofNat ('0'.toNat + d)
  | none => c

/-- Reads the text of a decimal.  There may be blanks around it and underscores in it, and the
digits may be of any script. -/
def read? (s : String) : Option Decimal :=
  readAscii? (((Text.trimBlanks s.toList).filter (· != '_')).map asciiDigit)

/-- Whether a decimal is a signaling NaN. -/
def isSignaling : Decimal → Bool
  | .nan _ signaling _ => signaling
  | _ => false

/-- The decimal with a number of places behind the point that has the same value, if there is
one.  Zero loses its sign. -/
def atScale? (places : Int) : Decimal → Option Decimal
  | .finite negative digits exponent =>
    let shift := exponent + places
    let scaled : Option Nat :=
      if 0 ≤ shift then some (digits * Nat.pow 10 shift.toNat)
      else
        let unit := Nat.pow 10 (-shift).toNat
        if digits % unit = 0 then some (digits / unit) else none
    scaled.map fun n => .finite (negative && n != 0) n (-places)
  | _ => none

end Decimal

end MergeOnRead
