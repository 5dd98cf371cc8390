import MergeOnRead.Schema.DataType
import MergeOnRead.Value.Printer

/-!
# Table schemas

A schema is one version of the fields of a table.  Schemas are not changed: making a
column optional or adding one gives the next version.  The highest field id that was
ever given out is kept, so that no id is used twice.
-/

namespace MergeOnRead

/-- Why a schema does not exist. -/
inductive SchemaError where
  | duplicateIds (ids : List Int)
  /-- A requested column is not in the schema. -/
  | unknownColumn (name : String) (names : List String)
  /-- The column to be changed is not in the schema. -/
  | missingColumn (name : String)
  | columnExists (name : String)
  /-- An added column must be nullable, as rows exist that have no value for it. -/
  | addedNotNullable (name : String)
  deriving DecidableEq, Repr

/-- The wording of the error. -/
def SchemaError.message : SchemaError → String
  | .duplicateIds ids => "Duplicate field ids in schema: " ++ Value.listText (ids.map toString)
  | .unknownColumn name names =>
    "Column '" ++ name ++ "' does not exist in schema " ++
      Value.listText (names.map Text.quoted)
  | .missingColumn name => "Column '" ++ name ++ "' does not exist"
  | .columnExists name => "Column '" ++ name ++ "' already exists"
  | .addedNotNullable name => "Added column '" ++ name ++ "' must be nullable"

/-- One version of the fields of a table. -/
structure TableSchema where
  /-- The number of the version. -/
  id : Int
  fields : List Field
  partitionKeys : List String
  /-- No field that is added later has an id up to this one. -/
  highestFieldId : Int
  options : List (String × Value)
  deriving DecidableEq, Repr

namespace TableSchema

/-- The last item with a property; where names or ids repeat, the last one counts. -/
def findLast? {α : Type} (p : α → Bool) (xs : List α) : Option α :=
  xs.foldl (fun found x => if p x then some x else found) none

/-- The highest of some ids; zero when there are none. -/
def highestOf : List Int → Int
  | [] => 0
  | id :: ids => ids.foldl max id

/-- Makes a schema.  The ids of the fields must differ; the highest id is that of the fields
unless it is given. -/
def make (id : Int) (fields : List Field) (partitionKeys : List String)
    (highest : Option Int) (options : List (String × Value)) : Except SchemaError TableSchema :=
  let ids := fields.map (·.id)
  if ids.Nodup then
    .ok ⟨id, fields, partitionKeys, highest.getD (highestOf ids), options⟩
  else .error (.duplicateIds ids)

/-- The names of the fields. -/
def fieldNames (s : TableSchema) : List String := s.fields.map (·.name)

/-- The ids of the fields. -/
def fieldIds (s : TableSchema) : List Int := s.fields.map (·.id)

/-- The field with an id. -/
def findField? (s : TableSchema) (id : Int) : Option Field :=
  findLast? (fun f => f.id == id) s.fields

/-- The field with a name. -/
def findFieldByName? (s : TableSchema) (name : String) : Option Field :=
  findLast? (fun f => f.name == name) s.fields

/-- The name that selects every field. -/
def allColumns : String := "*"

/-- Looks up the fields with the given names; the first name without a field is an error. -/
def fieldsNamed (s : TableSchema) : List String → Except SchemaError (List Field)
  | [] => .ok []
  | name :: names =>
    match s.findFieldByName? name with
    | some f => (s.fieldsNamed names).map (f :: ·)
    | none => .error (.unknownColumn name s.fieldNames)

/-- The fields with the given names, in that order; without names, or with `*` among them, all
fields. -/
def project (s : TableSchema) (names : Option (List String)) : Except SchemaError (List Field) :=
  match names with
  | none => .ok s.fields
  | some names =>
    if names.isEmpty || names.contains allColumns then .ok s.fields else s.fieldsNamed names

/-- The next version, in which a column is nullable. -/
def makeColumnOptional (s : TableSchema) (name : String) : Except SchemaError TableSchema :=
  match s.findFieldByName? name with
  | none => .error (.missingColumn name)
  | some field =>
    make (s.id + 1) (s.fields.map fun f => if f.id = field.id then f.asOptional else f)
      s.partitionKeys (some s.highestFieldId) s.options

/-- The next version, with one more column at the end. -/
def addColumn (s : TableSchema) (name : String) (type : DataType) :
    Except SchemaError TableSchema :=
  if (s.findFieldByName? name).isSome then .error (.columnExists name)
  else if !type.nullable then .error (.addedNotNullable name)
  else
    let id := s.highestFieldId + 1
    make (s.id + 1) (s.fields ++ [⟨id, name, type, none⟩]) s.partitionKeys (some id) s.options

/-- The same content under another version number. -/
def withId (s : TableSchema) (id : Int) : TableSchema := { s with id }

/-- Lists of fields are the same when they are so pairwise. -/
def sameFields : List Field → List Field → Bool
  | [], [] => true
  | f :: fs, g :: gs => f.same g && sameFields fs gs
  | _, _ => false

/-- Schemas are the same when they agree on version, fields and partition keys. -/
def same (s t : TableSchema) : Bool :=
  s.id == t.id && sameFields s.fields t.fields && s.partitionKeys == t.partitionKeys

/-- The text of a schema. -/
def print (s : TableSchema) : String :=
  "TableSchema(id=" ++ toString s.id ++ ", fields=[" ++
    ", ".intercalate (s.fields.map Field.print) ++ "])"

end TableSchema

end MergeOnRead
