import MergeOnRead.Container.Form
import MergeOnRead.Container.Reading
import MergeOnRead.Files.RecordFile

/-!
# Containers of records

A container starts with a header: a mark of four bytes, a map from names to bytes, and a
seal of sixteen bytes.  The map holds the description of the records, and the name of the
method by which they are packed.

Blocks of records follow.  Each has the number of its records and of its bytes in front,
and the seal behind.  A container may end only where a block would begin; the records
in front of a damaged place can be read.
-/

namespace MergeOnRead.Container

open Reading

/-! ## Values -/

/-- The number in single precision that some bits stand for. -/
def singleOfBits (bits : Nat) : Binary64 :=
  let negative := decide (Nat.pow 2 31 ≤ bits)
  let exponent := bits / Nat.pow 2 23 % 256
  let fraction := bits % Nat.pow 2 23
  if exponent = 255 then (if fraction = 0 then Binary64.infinity negative else Binary64.nan)
  else if exponent = 0 then Binary64.ofParts negative fraction (-149)
  else Binary64.ofParts negative (fraction + Nat.pow 2 23) ((exponent : Int) - 150)

/-- A day that can be named. -/
def dayOf (days : Int) : Except Error Value :=
  if (Date.mk days).isNamed then .ok (.date ⟨days⟩) else .error (.raised .value)

/-- A point of time on a day that can be named. -/
def timeOf (unit : TimeUnit) (utc : Bool) (ticks : Int) : Except Error Value :=
  let t : Timestamp := ⟨ticks * unit.nanos⟩
  if t.date.isNamed then .ok (.scalar (if utc then .instant t else .timestamp t))
  else .error .overflow

/-- The item that a number from the bytes selects. -/
def selected {α : Type} (items : List α) : Reading α := do
  match itemAt? items (← integer) with
  | some a => pure a
  | none => throw (.raised .index)

/-- Reads a value of a form.  The fuel bounds how deep values lie in each other. -/
def value (forms : Forms) : (fuel : Nat) → Form → Reading Value
  | 0, _ => throw (.raised .runtime)
  | fuel + 1, form =>
    match form with
    | .null => pure .null
    | .boolean => do pure (.bool ((← byte) != 0))
    | .integer => do pure (.int (← integer))
    | .single => do pure (.float (singleOfBits (← fixed 4)))
    | .double => do pure (.float ⟨UInt64.ofNat (← fixed 8)⟩)
    | .bytes => do pure (.bytes (← counted))
    | .text => do pure (.text (← text))
    | .date => do dayOf (← integer)
    | .time unit utc => do timeOf unit utc (← integer)
    | .decimal scale digits => do
      match ← value forms fuel digits with
      | .bytes content =>
        let n := Bytes.signed content
        pure (.decimal (.finite (decide (n < 0)) n.natAbs (-(scale : Int))))
      | v => pure v
    | .fixed size => do pure (.bytes (← taken size))
    | .enumeration words => do pure (.text (← selected words))
    | .array item => do pure (.list (← blocks (value forms fuel item)))
    | .map item => do
      let entries ← blocks do
        let name ← text
        let v ← value forms fuel item
        pure (Value.text name, v)
      pure (Value.dictOf entries)
    | .choice branches => do value forms fuel (← selected branches)
    | .record fields => do
      let entries ← fields.mapM fun (name, form) => do
        let v ← value forms fuel form
        pure (name.map fun name => (Value.text name, v))
      pure (Value.dictOf (entries.filterMap id))
    | .named name =>
      match forms.lookup name with
      | some form => value forms fuel form
      | none => throw (.raised .key)

/-- Reads a record as the values of its fields. -/
def record (fields : List (Option String × Form)) (forms : Forms) : Reading (List Value) := do
  let values ← fields.mapM fun (name, form) => do
    let v ← value forms Form.depthLimit form
    pure (name.map fun _ => v)
  pure (values.filterMap id)

/-! ## Blocks -/

/-- Reads records up to the first that cannot be read. -/
def records (read : Reading (List Value)) : (count : Nat) → List UInt8 →
    List (List Value) × Option Error
  | 0, _ => ([], none)
  | count + 1, bytes =>
    match read bytes with
    | .error e => ([], some e)
    | .ok (r, rest) =>
      let (more, failure) := records read count rest
      (r :: more, failure)

/-- The number of bytes of a seal. -/
def sealSize : Nat := 16

/-- Reads the number of records of a block and its bytes. -/
def block : Reading (Nat × List UInt8) := do
  let count ← integer
  let content ← counted
  pure (count.toNat, content)

/-- The records of at most `limit` blocks. -/
def blockRecords (read : Reading (List Value)) (mark : List UInt8) : (limit : Nat) → List UInt8 →
    List (List Value) × Option Error
  | 0, _ | _, [] => ([], none)
  | limit + 1, bytes =>
    match block bytes with
    | .error e => ([], some e)
    | .ok ((count, content), rest) =>
      match records read count content with
      | (rows, some e) => (rows, some e)
      | (rows, none) =>
        if rest.take sealSize ≠ mark then (rows, some (.raised .value))
        else
          let (more, failure) := blockRecords read mark limit (rest.drop sealSize)
          (rows ++ more, failure)

/-! ## Headers -/

/-- What a header says, and the seal. -/
structure Header where
  /-- The names in the map with their texts. -/
  entries : List (String × String)
  /-- The seal of every block. -/
  mark : List UInt8

/-- The text under a name; of equal names the last one counts. -/
def Header.get? (h : Header) (name : String) : Option String := h.entries.reverse.lookup name

/-- Reads the parts of a header. -/
def headerParts : Reading (List (String × List UInt8) × List UInt8) := do
  let _ ← taken 4
  let entries ← blocks do
    let name ← text
    let content ← counted
    pure (name, content)
  pure (entries, ← taken sealSize)

/-- Reads a header.  Bytes that end in it hold no container. -/
def header (bytes : List UInt8) : Except Error (Header × List UInt8) := do
  let ((entries, mark), rest) ← (headerParts bytes).mapError fun e =>
    if e = ended then .raised .value else e
  let entries ← entries.mapM fun (name, content) => do .ok (name, ← decode content)
  .ok (⟨entries, mark⟩, rest)

/-! ## Containers -/

/-- The ways of packing that have a name.  Only what is not packed at all can be unpacked here. -/
def packings : List String := ["null", "deflate", "bzip2", "snappy", "zstandard", "lz4", "xz"]

/-- The records of the blocks behind a header, by the name of their packing. -/
def unpacked (packing : String) (read : Reading (List Value)) (mark bytes : List UInt8) :
    List (List Value) × Option Error :=
  if packing = "null" then blockRecords read mark bytes.length bytes
  else if packings.contains packing ∧ bytes = [] then ([], none)
  else ([], some (.raised .value))

/-- The file of records that some bytes are. -/
def fileOf (bytes : List UInt8) : Except Error RecordFile := do
  let (h, rest) ← header bytes
  let description ← match h.get? "avro.schema" with
    | none => .error (.raised .key)
    | some text =>
      match Text.Json.read? text with
      | some j => .ok j
      | none => .error (.raised .value)
  let (fields, forms) ← Form.fieldsOf description
  let packing := (h.get? "avro.codec").getD "null"
  let (rows, failure) := unpacked packing (record fields forms) h.mark rest
  .ok ⟨fields.filterMap (·.1), rows, failure⟩

end MergeOnRead.Container
