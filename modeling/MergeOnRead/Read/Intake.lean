import MergeOnRead.Read.Cast

/-!
# Taking values into columns

Values that were made elsewhere are taken into a column of a given type.  This is more
liberal than a conversion between columns in some ways, and stricter in others.

* Integers are what is left of a number in front of the point, and no truth value.
  Dates and timestamps are also counted in such integers.
* Floats are made of numbers in binary formats, and only of integers that they hold
  exactly.
* Texts are taken from their bytes and bytes from texts.
* Decimals must come out exactly, and must not have been written with too many digits.
* Lists are taken from all sequences, maps from dictionaries and sequences of pairs.
-/

namespace MergeOnRead

/-! ## Numbers -/

/-- The integer in front of the point.  Digits that lie too far on either side of the point do not
matter: the integer is zero, or too great for any use. -/
def Decimal.truncate? : Decimal → Option Int
  | .finite negative digits exponent =>
    let n :=
      if 0 ≤ exponent then digits * Nat.pow 10 (min exponent.toNat 64)
      else digits / Nat.pow 10 (min (-exponent).toNat (digits.log2 + 1))
    some (if negative then -(n : Int) else n)
  | _ => none

/-- The number of digits that a decimal is written with, and how many of these are behind the point.
Zeros in front of the first digit count only when they are behind the point, and an exponent that
moves the point to the right adds zeros. -/
def Decimal.written (digits : Nat) (exponent : Int) : Int × Int :=
  let length : Int := if digits = 0 then 0 else (Nat.toDigits 10 digits).length
  if 0 < exponent then (length + exponent, 0)
  else if -6 < exponent + max 1 length then (max length (-exponent), -exponent)
  else (length, -exponent)

namespace Scalar

/-- The integer in front of the point of a number. -/
def wholePart : Scalar → Except Error Int
  | .int n => .ok n
  | .float x =>
    if x.isNaN then .error (.raised .value)
    else if x.isInfinite then .error .overflow
    else .ok x.truncate
  | .decimal (.infinite _) => .error .overflow
  | .decimal d =>
    match d.truncate? with
    | some n => .ok n
    | none => .error (.raised .value)
  | _ => .error .badValueType

/-- The integer of a width in front of the point of a number.  One that does not even fit into 64
bits is out of range. -/
def wholeOf (width : IntWidth) (s : Scalar) : Except Error Int := do
  let n ← s.wholePart
  if !IntWidth.w64.holds n then .error .overflow
  else if width.holds n then .ok n
  else .error .badColumn

/-- Takes an integer.  Whatever is wrong with values that are no integers, they are refused
alike. -/
def takeInt (width : IntWidth) (s : Scalar) : Except Error Scalar :=
  let taken := (s.wholeOf width).map Scalar.int
  match s with
  | .bool _ => .error .badValueType
  | .int _ => taken
  | _ => taken.mapError fun _ => .badColumn

/-- Takes a number of a binary format. -/
def takeFloat (format : Binary64.Format) (round : Binary64 → Binary64) :
    Scalar → Except Error Scalar
  | .float x => .ok (.float (round x))
  | .bool b => .ok (.float (Binary64.ofRatio false b.toNat 1))
  | .int n =>
    if !IntWidth.w64.holds n then .error .overflow
    else match precise? format n with
      | some x => .ok x
      | none => .error .badColumn
  | _ => .error .badColumn

/-- The greatest number of digits of a decimal, and of the zeros that its exponent stands for. -/
def digitLimit : Int := 38

/-- Takes a decimal of a precision and a scale. -/
def takeDecimal (precision : Nat) (scale : Int) : Decimal → Except Error Scalar
  | .finite negative digits exponent =>
    let (length, places) := Decimal.written digits exponent
    if digitLimit < length ∨ digitLimit < exponent ∨ digitLimit < places - scale then
      .error .badColumn
    else match (Decimal.finite negative digits exponent).atScale? scale with
      | some d =>
        if length + scale - places ≤ precision then .ok (.decimal d) else .error .badColumn
      | none => .error .badColumn
  | _ => .error .badColumn

end Scalar

/-! ## Values without parts -/

namespace FlatType

/-- The error for a value of a kind that is never taken. -/
def refusal : FlatType → Error
  | .int _ | .single | .double | .bool => .badColumn
  | _ => .badValueType

/-- Takes a scalar other than null. -/
def take (type : FlatType) (s : Scalar) : Except Error Scalar :=
  match type, s with
  | .int width, s => s.takeInt width
  | .single, s => s.takeFloat Binary64.single Binary64.toSingle
  | .double, s => s.takeFloat Binary64.double id
  | .bool, .bool b => .ok (.bool b)
  | .text _, .text t => .ok (.text t)
  | .text _, .binary _ bytes =>
    match Scalar.decode? bytes with
    | some t => .ok t
    | none => .error .badColumn
  | .binary _, .binary _ bytes => .ok (.binary .fixed bytes)
  | .binary _, .text t => .ok (.binary .fixed t.toUTF8.toList)
  | .decimal _ precision scale, .int n => Scalar.takeDecimal precision scale (Scalar.ofInt n)
  | .decimal _ precision scale, .decimal d => Scalar.takeDecimal precision scale d
  | .decimal _ _ _, .bool _ => .error .badColumn
  | .date32, .date d => .ok (.date d)
  | .date32, .timestamp t | .date32, .instant t => .ok (.date t.date)
  | .date32, s => (s.wholeOf .w32).map fun n => .date ⟨n⟩
  | .timestamp unit _, .timestamp t =>
    match Scalar.resolve? unit (t.floor unit) with
    | some t => .ok t
    | none => .error .badColumn
  | .timestamp _ _, .instant t => .ok (.instant t)
  | .timestamp unit _, s => (s.wholeOf .w64).map (Scalar.ofTicks unit)
  | type, _ => .error type.refusal

end FlatType

/-! ## Values with parts -/

namespace Value

/-- The items of a sequence: the characters of a text and the numbers of bytes are items. -/
def sequence? : Value → Option (List Value)
  | .list items | .tuple items => some items
  | .text t => some (t.toList.map fun c => .text (String.singleton c))
  | .scalar (.binary _ content) => some (content.map fun b => .int b.toNat)
  | _ => none

/-- The key and the value that an item of a map is made of; a key is never null. -/
def pair : Value → Except Error (Value × Value)
  | .tuple [.null, _] => .error .badColumn
  | .tuple [k, v] => .ok (k, v)
  | .tuple _ | .null => .error .badColumn
  | _ => .error .badValueType

/-- The items of a map. -/
def mapItems? : Value → Option (List Value)
  | .dict entries => some (entries.map fun (k, v) => .tuple [k, v])
  | v => v.sequence?

end Value

mutual

/-- Takes a value into a column. -/
def ColumnType.take : ColumnType → Value → Except Error Value
  | _, .null => .ok .null
  | .flat type, .scalar s => (type.take s).map .scalar
  | .flat type, _ => .error type.refusal
  | .list _ item, v =>
    match v.sequence? with
    | none => .error .badValueType
    | some items => do
      let items ← items.mapM item.take
      .ok (.list items)
  | .map key value, v =>
    match v.mapItems? with
    | none => .error .badValueType
    | some items => do
      let items ← items.mapM fun e => do
        let (k, w) ← e.pair
        let k ← key.take k
        let w ← value.take w
        .ok (Value.tuple [k, w])
      .ok (.list items)
  | .struct fields, .dict entries => (ColumnType.takeFields fields entries).map .dict
  | .struct _, _ => .error .badValueType

/-- Takes the entries of a dictionary into fields; a field without an entry is null. -/
def ColumnType.takeFields : List (String × ColumnType) → List (Value × Value) →
    Except Error (List (Value × Value))
  | [], _ => .ok []
  | (name, type) :: fields, entries => do
    let held := (entries.find? fun e => decide (e.1 = .text name)).elim .null (·.2)
    let v ← type.take held
    let rest ← takeFields fields entries
    .ok ((.text name, v) :: rest)

end

end MergeOnRead
