import MergeOnRead.Error
import MergeOnRead.Text.Json

/-!
# Forms of records

A container describes the form of its values in JSON: a word for a value without parts, a
list for a choice, and an object for everything else.  Enumerations, byte strings of a
fixed size and records have names, by which they can be used again behind their
description, and a record also in it.
-/

namespace MergeOnRead.Container

open Text (Json)

/-- The form of a value. -/
inductive Form where
  | null
  | boolean
  | integer
  | single
  | double
  | bytes
  | text
  | date
  /-- A point of time, counted in a resolution, in UTC or in local time. -/
  | time (unit : TimeUnit) (utc : Bool)
  /-- A decimal of a scale, whose digits are held as bytes in some form. -/
  | decimal (scale : Nat) (digits : Form)
  /-- Bytes of a fixed number. -/
  | fixed (size : Nat)
  /-- One of some words. -/
  | enumeration (words : List String)
  | array (item : Form)
  | map (value : Form)
  | choice (branches : List Form)
  /-- Fields in order; a field whose name is no text cannot be asked for. -/
  | record (fields : List (Option String × Form))
  /-- A form that has this name. -/
  | named (name : String)
  deriving Inhabited

/-- The forms that have names. -/
abbrev Forms := List (String × Form)

namespace Form

/-- Reading a description keeps the forms that have names; the form of a record is there before it
is known. -/
abbrev Describing (α : Type) := StateT Forms (Except Error) α

/-- The forms that have a word. -/
def words : List (String × Form) :=
  [("null", .null), ("boolean", .boolean), ("int", .integer), ("long", .integer),
    ("float", .single), ("double", .double), ("bytes", .bytes), ("string", .text)]

/-- Forms that are given another meaning. -/
def meanings : List ((String × String) × Form) :=
  [(("int", "date"), .date), (("long", "timestamp-millis"), .time .milli true),
    (("long", "timestamp-micros"), .time .micro true),
    (("long", "local-timestamp-millis"), .time .milli false),
    (("long", "local-timestamp-micros"), .time .micro false)]

/-- A description is not acceptable. -/
def refused : Error := .raised .recordForm

/-- The member of an object, which must be there. -/
def member (name : String) (j : Json) : Except Error Json :=
  match j.get? name with
  | some v => .ok v
  | none => .error (.raised .key)

/-- The natural number that a member is; none where there is no member. -/
def natural (name : String) (j : Json) : Except Error (Option Nat) :=
  match j.get? name with
  | none | some .null => .ok none
  | some (.int n) => if n < 0 then .error refused else .ok (some n.toNat)
  | some _ => .error refused

/-- The scale of an object that describes decimals; the digits must be enough for it. -/
def scale? (j : Json) : Except Error (Option Nat) := do
  match j.get? "logicalType" with
  | some (.text "decimal") =>
    let scale := (← natural "scale" j).getD 0
    match ← natural "precision" j with
    | some precision => if precision < scale then .error refused else .ok (some scale)
    | none => .ok (some scale)
  | _ => .ok none

/-- The full name that a word stands for in a namespace. -/
def fullName (scope name : String) : String :=
  if name.toList.contains '.' || scope.isEmpty then name else scope ++ "." ++ name

/-- The namespace of a full name, or else the one around it. -/
def scopeOf (scope name : String) : String :=
  match name.toList.reverse.dropWhile (· != '.') with
  | [] => scope
  | _ :: rest => String.ofList rest.reverse

/-- The namespace in an object and its full name, which it must have. -/
def nameIn (scope : String) (j : Json) : Except Error (String × String) := do
  let name ← match j.get? "name" with
    | some (.text name) => .ok name
    | some _ => .error (.raised .type)
    | none => .error refused
  let scope := match j.get? "namespace" with
    | some (.text s) => s
    | some _ => ""
    | none => scope
  if scope.isEmpty then .ok ("", name) else .ok (scopeOf scope name, fullName scope name)

/-- Gives a form a name that is not used yet. -/
def keep (name : String) (form : Form) : Describing Unit := do
  if (← get).any fun f => f.1 == name then throw refused
  modify ((name, form) :: ·)

/-- The items of an array.  What has no items at all has the wrong type, and what has other items
lacks their parts. -/
def items : Json → Except Error (List Json)
  | .array items => .ok items
  | .text "" | .object [] => .ok []
  | .text _ | .object _ => .error (.raised .attribute)
  | _ => .error (.raised .type)

/-- The text that an item is. -/
def wordOf : Json → Except Error String
  | .text s => .ok s
  | _ => .error refused

/-- The name of a field.  Only simple values are names. -/
def fieldName : Json → Except Error (Option String)
  | .text s => .ok (some s)
  | .array _ | .object _ => .error (.raised .type)
  | _ => .ok none

/-- The form that a description stands for in a namespace.  The fuel is enough when it exceeds the
depth of the description. -/
def describe : (fuel : Nat) → (scope : String) → Json → Describing Form
  | 0, _, _ => throw (.raised .runtime)
  | fuel + 1, scope, .array branches => .choice <$> branches.mapM (describe fuel scope)
  | _, scope, .text word => do
    match words.lookup word with
    | some form => pure form
    | none =>
      let name := fullName scope word
      if (← get).any fun f => f.1 == name then pure (.named name) else throw (.raised .value)
  | fuel + 1, scope, .object members => do
    let j := Json.object members
    let type ← member "type" j
    let scale ← scale? j
    let withScale (form : Form) : Form := scale.elim form fun scale => .decimal scale form
    match type with
    | .array _ | .object _ => throw (.raised .type)
    | .text "array" => do .array <$> describe fuel scope (← member "items" j)
    | .text "map" => do .map <$> describe fuel scope (← member "values" j)
    | .text "enum" => do
      let (_, name) ← nameIn scope j
      let symbols ← items (← member "symbols" j)
      let form := Form.enumeration (← (symbols.mapM wordOf : Except Error (List String)))
      keep name form
      pure form
    | .text "fixed" => do
      let (_, name) ← nameIn scope j
      let _ ← member "size" j
      let form := withScale (.fixed ((← natural "size" j).getD 0))
      keep name form
      pure form
    | .text "record" | .text "error" => do
      let (scope, name) ← nameIn scope j
      keep name .null
      let fields ← (← items ((j.get? "fields").getD (.array []))).mapM fun field => do
        match field with
        | .object _ => do
          let fieldName ← member "name" field
          let form ← describe fuel scope (← member "type" field)
          pure (fieldName, form)
        | _ => throw (.raised .attribute)
      let form := Form.record (← fields.mapM fun (n, form) => do pure (← fieldName n, form))
      modify ((name, form) :: ·)
      pure form
    | .text word =>
      match words.lookup word with
      | none => throw (.raised .value)
      | some .bytes => pure (withScale .bytes)
      | some form =>
        match j.get? "logicalType" with
        | some (.text meaning) => pure ((meanings.lookup (word, meaning)).getD form)
        | _ => pure form
    | _ => throw (.raised .value)
  | _, _, _ => throw (.raised .type)

/-- The depth of descriptions that are read. -/
def depthLimit : Nat := 1000

/-- The fields of the records that a description stands for, and the forms that have names.  What is
no description of a record has no fields. -/
def fieldsOf (j : Json) : Except Error (List (Option String × Form) × Forms) := do
  let (form, forms) ← (describe depthLimit "" j).run []
  match form, j with
  | .record fields, .object _ => .ok (fields, forms)
  | _, .object _ => .error (.raised .key)
  | _, _ => .error (.raised .type)

end Form

end MergeOnRead.Container
