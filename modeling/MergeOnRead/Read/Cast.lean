import MergeOnRead.Error
import MergeOnRead.Number.DecimalFloat
import MergeOnRead.Read.Column
import MergeOnRead.Read.Literal

/-!
# Conversions of columns

The values of a file are converted to the types of the table where these differ.  Of
some types no column is ever converted to some others, whatever its values are; where
there is a conversion, it fails for the values that it would have to change.  Only a
floating-point number may be rounded.

* Integers, floats and timestamps keep their value, and it must be in range.
* Texts are read as values, and values are written as texts (`Literal`).
* Decimals get the scale of the target, and no digit may be lost.
* Lists and maps are converted part by part.
-/

namespace MergeOnRead

/-- The number of digits that integers of a width may have. -/
def IntWidth.digits : IntWidth → Int
  | .w8 => 3
  | .w16 => 5
  | .w32 => 10
  | .w64 => 19

namespace Scalar

/-- An integer, if it has the width. -/
def narrow? (width : IntWidth) (n : Int) : Option Scalar :=
  if width.holds n then some (.int n) else none

/-- A double that stands for an integer of a width. -/
def integral? (width : IntWidth) (x : Binary64) : Option Scalar :=
  if x.isIntegral then narrow? width x.truncate else none

/-- The integer as a double, if all integers up to it are numbers of the format. -/
def precise? (format : Binary64.Format) (n : Int) : Option Scalar :=
  if n.natAbs ≤ Nat.pow 2 format.precision then
    some (.float (Binary64.ofRatio (decide (n < 0)) n.natAbs 1))
  else none

/-- A timestamp, if the resolution holds it. -/
def resolve? (unit : TimeUnit) (t : Timestamp) : Option Scalar :=
  if t.floor unit = t && IntWidth.w64.holds (t.ticks unit) then some (.timestamp t) else none

/-- A decimal of a scale and at most some digits. -/
def rescale? (precision : Nat) (scale : Int) (d : Decimal) : Option Scalar :=
  match d.atScale? scale with
  | some (.finite negative digits exponent) =>
    if digits < Nat.pow 10 precision then some (.decimal (.finite negative digits exponent))
    else none
  | _ => none

/-- The decimal of an integer. -/
def ofInt (n : Int) : Decimal := .finite (decide (n < 0)) n.natAbs 0

/-- A decimal that stands for an integer of a width. -/
def integer? (width : IntWidth) (d : Decimal) : Option Scalar :=
  match d.atScale? 0 with
  | some (.finite negative digits _) =>
    narrow? width (if negative then -(digits : Int) else digits)
  | _ => none

/-- The number of a format that stands for a decimal. -/
def approximate? (format : Binary64.Format) : Decimal → Option Scalar
  | .finite negative digits exponent =>
    some (.float (DecimalFloat.ofDecimal format negative digits (-exponent).toNat))
  | _ => none

/-- The text that bytes encode. -/
def decode? (bytes : List UInt8) : Option Scalar :=
  (String.fromUTF8? ⟨bytes.toArray⟩).map .text

/-- The timestamp after some ticks of a resolution. -/
def ofTicks (unit : TimeUnit) (ticks : Int) : Scalar :=
  .timestamp ⟨ticks * unit.nanos⟩

/-- The characters that a value is read from; a byte counts as one character. -/
def characters? : Scalar → Option (List Char)
  | .text s => some s.toList
  | .binary _ bytes => some (bytes.map fun b => Char.ofNat b.toNat)
  | _ => none

end Scalar

namespace FlatType

/-- Conversions of values other than null. -/
abbrev Conversion := Scalar → Option Scalar

/-- How texts and binary data are read as a type; none when they never are. -/
def reading? : FlatType → Option (List Char → Option Scalar)
  | .bool => some fun cs => (Literal.bool? cs).map .bool
  | .int w => some fun cs => (Literal.int? w cs).map .int
  | .single => some fun cs => (Literal.float? Binary64.single cs).map .float
  | .double => some fun cs => (Literal.float? Binary64.double cs).map .float
  | .decimal _ precision scale => some fun cs =>
    (Literal.decimal? cs).bind (Scalar.rescale? precision scale)
  | _ => none

/-- How texts alone are read as a type. -/
def textReading? : FlatType → Option (List Char → Option Scalar)
  | .date32 => some fun cs => (Date.read? (String.ofList cs)).map .date
  | .timestamp unit none => some fun cs =>
    (Literal.timestamp? unit cs).bind (Scalar.resolve? unit)
  | _ => none

/-- How values of a type are written as texts; none when they never are. -/
def writing? : FlatType → Option (Scalar → Option String)
  | .bool => some fun
    | .bool b => some (if b then "true" else "false")
    | _ => none
  | .int _ => some fun
    | .int n => some (toString n)
    | _ => none
  | .single => some fun
    | .float x => some (FloatLayout.compact.write Binary64.single x)
    | _ => none
  | .double => some fun
    | .float x => some (FloatLayout.compact.write Binary64.double x)
    | _ => none
  | .decimal _ _ _ => some fun
    | .decimal d => some d.text
    | _ => none
  | .date32 => some fun
    | .date d => some d.text
    | _ => none
  | .timestamp unit zone => some fun s => s.time?.map (Literal.timestampText unit zone)
  | _ => none

/-- Conversions between numbers, truth values and times. -/
def numeric? (source target : FlatType) : Option Conversion :=
  match source, target with
  | .int _, .int w => some fun
    | .int n => Scalar.narrow? w n
    | _ => none
  | .int _, .single => some fun
    | .int n => Scalar.precise? Binary64.single n
    | _ => none
  | .int _, .double => some fun
    | .int n => Scalar.precise? Binary64.double n
    | _ => none
  | .int _, .bool => some fun
    | .int n => some (.bool (n != 0))
    | _ => none
  | .int _, .decimal _ precision scale => some fun
    | .int n => Scalar.rescale? precision scale (Scalar.ofInt n)
    | _ => none
  | .int .w32, .date32 => some fun
    | .int n => some (.date ⟨n⟩)
    | _ => none
  | .int .w64, .timestamp unit _ => some fun
    | .int n => some (Scalar.ofTicks unit n)
    | _ => none
  | .single, .int w | .double, .int w => some fun
    | .float x => Scalar.integral? w x
    | _ => none
  | .single, .double => some some
  | .double, .single => some fun
    | .float x => some (.float x.toSingle)
    | _ => none
  | .single, .bool | .double, .bool => some fun
    | .float x => some (.bool !x.isZero)
    | _ => none
  | .single, .decimal _ precision scale => some fun
    | .float x => (DecimalFloat.toDecimal? Binary64.single precision scale.toNat x).map .decimal
    | _ => none
  | .double, .decimal _ precision scale => some fun
    | .float x => (DecimalFloat.toDecimal? Binary64.double precision scale.toNat x).map .decimal
    | _ => none
  | .bool, .int _ => some fun
    | .bool b => some (.int b.toInt)
    | _ => none
  | .bool, .single | .bool, .double => some fun
    | .bool b => Scalar.precise? Binary64.single b.toInt
    | _ => none
  | .decimal _ _ _, .decimal _ precision scale => some fun
    | .decimal d => Scalar.rescale? precision scale d
    | _ => none
  | .decimal _ _ _, .int w => some fun
    | .decimal d => Scalar.integer? w d
    | _ => none
  | .decimal _ _ _, .single => some fun
    | .decimal d => Scalar.approximate? Binary64.single d
    | _ => none
  | .decimal _ _ _, .double => some fun
    | .decimal d => Scalar.approximate? Binary64.double d
    | _ => none
  | .date32, .timestamp unit _ => some fun
    | .date d => Scalar.resolve? unit d.midnight
    | _ => none
  | .date32, .int .w32 => some fun
    | .date d => some (.int d.days)
    | _ => none
  | .timestamp _ _, .date32 => some fun s => s.time?.map fun t => .date t.date
  | .timestamp unit _, .int .w64 => some fun s => s.time?.map fun t => .int (t.ticks unit)
  | .timestamp _ _, .timestamp unit _ => some fun s => s.time?.bind (Scalar.resolve? unit)
  | _, _ => none

/-- How values other than null are converted between two types; none when they never are. -/
def conversion? (source target : FlatType) : Option Conversion :=
  match source, target with
  | .text _, .text _ | .binary _, .binary _ => some some
  | .text _, .binary _ => some fun
    | .text s => some (.binary .fixed s.toUTF8.toList)
    | _ => none
  | .binary _, .text _ => some fun
    | .binary _ bytes => Scalar.decode? bytes
    | _ => none
  | .text _, _ =>
    (target.reading? <|> target.textReading?).map fun read s => s.characters?.bind read
  | .binary _, _ => target.reading?.map fun read s => s.characters?.bind read
  | _, .text _ => source.writing?.map fun write s => (write s).map .text
  | _, _ => source.numeric? target

/-- Whether a conversion is refused for all values alike: that of integers to decimals is, when the
precision leaves no room for the greatest of them. -/
def refuses (source target : FlatType) : Bool :=
  match source, target with
  | .int w, .decimal _ precision scale => (precision : Int) < scale + w.digits
  | _, _ => false

/-- Converts a value; null stays null. -/
def Conversion.apply? (convert : Conversion) : Value → Option Value
  | .null => some .null
  | .scalar s => (convert s).map .scalar
  | _ => none

/-- Converts the values of a column.  A column of nulls is converted to any type, and one without
values is never refused for them. -/
def convertAll (source target : FlatType) (values : List Value) : Except Error (List Value) :=
  if source = target ∨ source = .null then .ok values
  else match source.conversion? target with
    | none => .error (.raised .conversion)
    | some convert =>
      if values.isEmpty then .ok []
      else if source.refuses target then .error .badColumn
      else match values.mapM convert.apply? with
        | some values => .ok values
        | none => .error .badColumn

end FlatType

namespace ColumnType

/-- Replaces the items of lists by others, as many for each list as it had. -/
def regroup : (lists pool : List Value) → List Value
  | [], _ => []
  | .list items :: rest, pool =>
    .list (pool.take items.length) :: regroup rest (pool.drop items.length)
  | v :: rest, pool => v :: regroup rest pool

/-- The keys of the pairs of maps. -/
def keysOf (entries : List Value) : List Value :=
  entries.map fun
    | .tuple [k, _] => k
    | _ => .null

/-- The values of the pairs of maps. -/
def valuesOf (entries : List Value) : List Value :=
  entries.map fun
    | .tuple [_, v] => v
    | _ => .null

/-- Converts the values of a column.  The parts of lists and maps are converted together, those of
all rows at once, and without rows not at all. -/
def convertAll (source target : ColumnType) (values : List Value) :
    Except Error (List Value) :=
  match source, target with
  | .flat s, .flat t => s.convertAll t values
  | .flat .null, _ => .ok values
  | .list _ s, .list _ t =>
    if s = t ∨ values.isEmpty then .ok values
    else do
      let items ← s.convertAll t (values.flatMap Value.items)
      .ok (regroup values items)
  | .map k v, .map l w =>
    if (k = l ∧ v = w) ∨ values.isEmpty then .ok values
    else do
      let entries := values.flatMap Value.items
      let keys ← k.convertAll l (keysOf entries)
      let contents ← v.convertAll w (valuesOf entries)
      .ok (regroup values (List.zipWith (fun k v => .tuple [k, v]) keys contents))
  | .map _ _, .list _ _ => if values.isEmpty then .ok [] else .error (.raised .columnType)
  | s, t => if s = t then .ok values else .error (.raised .conversion)

end ColumnType

end MergeOnRead
