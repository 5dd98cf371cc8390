import MergeOnRead.Calendar
import MergeOnRead.Number.Decimal
import MergeOnRead.Number.Shortest
import MergeOnRead.Schema.ColumnField

/-!
# Values written as texts

The texts that values of columns are converted from and to.  Reading is strict: there
are no blanks around a value, digits are ASCII, and the whole text must be the value.
-/

namespace MergeOnRead.Literal

/-- Splits off a sign; true means negative. -/
def takeSign : List Char → Bool × List Char
  | '-' :: rest => (true, rest)
  | '+' :: rest => (false, rest)
  | rest => (false, rest)

/-- Splits a text after its longest run of digits. -/
def takeDigits (cs : List Char) : List Char × List Char :=
  (cs.takeWhile Char.isDigit, cs.dropWhile Char.isDigit)

/-- Splits off digits with a point before, between or behind them: whole part, fraction and rest. -/
def takeFraction (cs : List Char) : List Char × List Char × List Char :=
  let (whole, rest) := takeDigits cs
  match rest with
  | '.' :: more => (whole, takeDigits more)
  | _ => (whole, [], rest)

/-! ## Numbers -/

/-- The integer whose bits are hexadecimal digits, at most as many as the width holds. -/
def bits? (width : IntWidth) (digits : List Char) : Option Int :=
  if digits.isEmpty ∨ width.bits / 4 < digits.length then none
  else (Text.hexNumber? digits).map fun n =>
    if width.holds n then n else n - (Nat.pow 2 width.bits : Nat)

/-- Reads an integer: digits behind a minus sign, if any, or bits behind `0x`. -/
def int? (width : IntWidth) (cs : List Char) : Option Int :=
  match cs with
  | '0' :: 'x' :: digits | '0' :: 'X' :: digits => bits? width digits
  | _ =>
    let (negative, digits) := match cs with
      | '-' :: rest => (true, rest)
      | rest => (false, rest)
    if digits.isEmpty || !digits.all Char.isDigit then none
    else
      let n : Int := Decimal.spelled digits
      let n := if negative then -n else n
      if width.holds n then some n else none

/-- What stands for a number that is not finite: an infinity, or not a number with a remark in
brackets, if any. -/
def special? (negative : Bool) (cs : List Char) : Option Binary64 :=
  let word := cs.map Char.toLower
  if word = "inf".toList || word = "infinity".toList then some (Binary64.infinity negative)
  else if word = "nan".toList then some Binary64.nan
  else match word.take 4, (word.drop 4).reverse with
    | ['n', 'a', 'n', '('], ')' :: remark =>
      if remark.all fun c => c.isAlphanum || c = '_' then some Binary64.nan else none
    | _, _ => none

/-- Reads a number of a binary format.  Too large a magnitude becomes infinite. -/
def float? (format : Binary64.Format) (cs : List Char) : Option Binary64 :=
  let (negative, body) := takeSign cs
  match special? negative body with
  | some x => some x
  | none =>
    let (whole, fraction, rest) := takeFraction body
    if whole.isEmpty && fraction.isEmpty then none
    else
      let power := match rest with
        | [] => some 0
        | c :: more => if c = 'e' ∨ c = 'E' then Decimal.readExponent? more else none
      power.map fun e =>
        Binary64.ofDecimalIn format negative (Decimal.spelled (whole ++ fraction))
          (e - (fraction.length : Int))

/-- The number of zeros that an exponent may add to the digits of a decimal. -/
def decimalZeros : Int := 38

/-- Reads a decimal.  Its exponent is written like an integer, with a plus sign allowed. -/
def decimal? (cs : List Char) : Option Decimal :=
  let (negative, body) := takeSign cs
  let (whole, fraction, rest) := takeFraction body
  if whole.isEmpty && fraction.isEmpty then none
  else
    let power := match rest with
      | [] => some 0
      | c :: more =>
        if c = 'e' ∨ c = 'E' then
          int? .w32 (match more with
            | '+' :: more => more
            | _ => more)
        else none
    power.bind fun e =>
      let exponent := e - (fraction.length : Int)
      if decimalZeros < exponent then none
      else some (.finite negative (Decimal.spelled (whole ++ fraction)) exponent)

/-- Reads a truth value, in letters of any case or as a digit. -/
def bool? (cs : List Char) : Option Bool :=
  let word := cs.map Char.toLower
  if word = "true".toList || word = "1".toList then some true
  else if word = "false".toList || word = "0".toList then some false
  else none

/-! ## Times -/

/-- Reads the fraction of a second in nanoseconds: a point and at most as many digits as a
resolution has. -/
def fraction? (unit : TimeUnit) : List Char → Option Nat
  | [] => some 0
  | '.' :: digits =>
    if digits.isEmpty || unit.digits < digits.length || !digits.all Char.isDigit then none
    else some (Decimal.spelled ((digits ++ List.replicate 9 '0').take 9))
  | _ => none

/-- Reads a number of two digits below a limit. -/
def part? (limit : Nat) (cs : List Char) : Option Nat := do
  let n ← Calendar.field? 2 cs
  if n < limit then some n else none

/-- Reads a time of day in nanoseconds: `23`, `23:59`, `23:59:59` or `23:59:59.5`. -/
def clock? (unit : TimeUnit) (cs : List Char) : Option Nat := do
  let hours ← part? 24 (cs.take 2)
  let (minutes, seconds, nanos) ← match cs.drop 2 with
    | [] => some (0, 0, 0)
    | ':' :: more => do
      let minutes ← part? 60 (more.take 2)
      match more.drop 2 with
      | [] => some (minutes, 0, 0)
      | ':' :: more =>
        let seconds ← part? 60 (more.take 2)
        let nanos ← fraction? unit (more.drop 2)
        some (minutes, seconds, nanos)
      | _ => none
    | _ => none
  some (((hours * 60 + minutes) * 60 + seconds) * 1000000000 + nanos)

/-- Reads a timestamp: a date, and a time of day behind a blank or `T`, if any. -/
def timestamp? (unit : TimeUnit) (cs : List Char) : Option Timestamp := do
  let date ← Date.read? (String.ofList (cs.take 10))
  match cs.drop 10 with
  | [] => some date.midnight
  | ' ' :: more | 'T' :: more =>
    let nanos ← clock? unit more
    some ⟨date.midnight.nanos + nanos⟩
  | _ => none

/-- The text of a timestamp, with all digits of the resolution.  Times of a zone end in `Z`. -/
def timestampText (unit : TimeUnit) (zone : Option String) (t : Timestamp) : String :=
  let (h, m, s, n) := t.clock
  let digits := (Calendar.padded 9 n).toList.take unit.digits
  t.date.text ++ " " ++ Calendar.padded 2 h ++ ":" ++ Calendar.padded 2 m ++ ":" ++
    Calendar.padded 2 s ++ (if digits.isEmpty then "" else "." ++ String.ofList digits) ++
    (if zone.isSome then "Z" else "")

end MergeOnRead.Literal
