import MergeOnRead.Number.Binary64
import MergeOnRead.Text.Characters

/-!
# Reading numbers

The grammar of integers and of floating-point numbers in option values and casts:
blanks around the number, a sign, decimal digits of any script, and single
underscores between two digits.  Integers with very many digits are neither read nor
written.
-/

namespace MergeOnRead.Numeral

/-- Why a text is not an integer. -/
inductive IntegerError where
  | malformed
  | tooLong (digits : Nat)
  deriving DecidableEq, Repr

/-- The largest number of digits that is converted between text and integer. -/
def maxDigits : Nat := 4300

/-- The wording of the refusal of a text with too many digits. -/
def tooLongText (digits : Nat) : String :=
  "Exceeds the limit (" ++ toString maxDigits ++
    " digits) for integer string conversion: value has " ++ toString digits ++
    " digits; use sys.set_int_max_str_digits() to increase the limit"

/-- The wording of the refusal to write an integer with too many digits. -/
def tooLongToWriteText : String :=
  "Exceeds the limit (" ++ toString maxDigits ++
    " digits) for integer string conversion; use sys.set_int_max_str_digits() to increase the limit"

/-- Writes an integer, unless it has too many digits. -/
def writeInt? (n : Int) : Option String :=
  if maxDigits < (Nat.toDigits 10 n.natAbs).length then none else some (toString n)

/-- A character as the reader sees it. -/
inductive Symbol where
  | digit (value : Nat)
  | other (c : Char)
  deriving DecidableEq

/-- Recognises the digits of all scripts. -/
def symbol (c : Char) : Symbol :=
  match Text.digitValue? c with
  | some d => .digit d
  | none => .other c

/-- The value of digits, most significant first. -/
def digitsValue (ds : List Nat) : Nat := ds.foldl (fun n d => 10 * n + d) 0

/-- Splits off a sign; true means negative. -/
def takeSign : List Symbol → Bool × List Symbol
  | .other '-' :: rest => (true, rest)
  | .other '+' :: rest => (false, rest)
  | rest => (false, rest)

/-- Splits a text after its longest run of digits with single underscores between them. -/
def takeDigits : List Symbol → List Nat × List Symbol
  | .digit d :: .other '_' :: .digit e :: more =>
    let (ds, left) := takeDigits (.digit e :: more)
    (d :: ds, left)
  | .digit d :: rest =>
    let (ds, left) := takeDigits rest
    (d :: ds, left)
  | rest => ([], rest)

/-- The symbols of a text without the blanks around it. -/
def symbols (s : String) : List Symbol := (Text.trimBlanks s.toList).map symbol

/-- Reads an integer. -/
def readInt (s : String) : Except IntegerError Int :=
  let (negative, body) := takeSign (symbols s)
  let (ds, rest) := takeDigits body
  match ds, rest with
  | [], _ => .error .malformed
  | _, .other '_' :: _ => .error .malformed
  | _, _ =>
    if maxDigits < ds.length then .error (.tooLong ds.length)
    else if rest.isEmpty then
      .ok (if negative then -(digitsValue ds : Int) else digitsValue ds)
    else .error .malformed

/-- Reads an exponent, if there is one; none when it is malformed. -/
def readExponent? : List Symbol → Option Int
  | [] => some 0
  | .other c :: rest =>
    if c = 'e' || c = 'E' then
      let (negative, body) := takeSign rest
      match takeDigits body with
      | ([], _) => none
      | (ds, []) => some (if negative then -(digitsValue ds : Int) else digitsValue ds)
      | _ => none
    else none
  | .digit _ :: _ => none

/-- Reads the special numbers, in any case of letters. -/
def readSpecial? (negative : Bool) (body : List Symbol) : Option Binary64 :=
  let word := body.map fun
    | .digit _ => '0'
    | .other c => c.toLower
  if word = "inf".toList || word = "infinity".toList then some (Binary64.infinity negative)
  else if word = "nan".toList then some Binary64.nan
  else none

/-- Reads a floating-point number. -/
def readFloat? (s : String) : Option Binary64 :=
  let (negative, body) := takeSign (symbols s)
  match readSpecial? negative body with
  | some x => some x
  | none =>
    let (whole, rest) := takeDigits body
    let (fraction, rest) := match rest with
      | .other '.' :: more => takeDigits more
      | _ => ([], rest)
    if whole.isEmpty && fraction.isEmpty then none
    else (readExponent? rest).map fun e =>
      Binary64.ofDecimal negative (digitsValue (whole ++ fraction)) (e - (fraction.length : Int))

end MergeOnRead.Numeral
