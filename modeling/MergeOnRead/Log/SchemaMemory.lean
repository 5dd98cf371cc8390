import MergeOnRead.Log.Evolution
import MergeOnRead.Log.TableMemory

/-!
# Versions of a schema

Changes of columns make one version of a schema after another.  A version in memory refers to
its fields, which are objects of their own: the next version refers to the same ones, but for
those that were changed or added, which are made for it.
-/

namespace MergeOnRead

deriving instance DecidableEq for ColumnChange

namespace TableSchema

/-- The next version, with one change. -/
def change (s : TableSchema) : ColumnChange → Except SchemaError TableSchema
  | .relax name => s.makeColumnOptional name
  | .add name type => s.addColumn name type

/-- The version after some calls, each of which was made on the version before it.  A call that
fails makes no version. -/
def after (s : TableSchema) (changes : List ColumnChange) : TableSchema :=
  changes.foldl (fun s change => (s.change change).toOption.getD s) s

end TableSchema

/-- Collects changes.  One that fails is left out. -/
def SchemaChange.collectAll (c : SchemaChange) (changes : List ColumnChange) : SchemaChange :=
  changes.foldl (fun c change => (c.collect change).toOption.getD c) c

/-! ## Versions in memory -/

/-- A schema in memory. -/
structure SchemaObject where
  id : Int
  /-- The places of its fields. -/
  places : List Nat
  partitionKeys : List String
  highestFieldId : Int
  options : List (String × Value)

/-- Fields and schemas in memory.  Their places are the order in which they were made. -/
structure SchemaMemory where
  fields : List Field
  schemas : List SchemaObject

namespace SchemaMemory

variable {α : Type}

/-- The fields at some places. -/
def fieldsAt (m : SchemaMemory) (places : List Nat) : Option (List Field) :=
  places.mapM fun place => m.fields[place]?

/-- The schema at a place, with its fields. -/
def schema? (m : SchemaMemory) (place : Nat) : Option TableSchema := do
  let o ← m.schemas[place]?
  let fields ← m.fieldsAt o.places
  some ⟨o.id, fields, o.partitionKeys, o.highestFieldId, o.options⟩

/-- What is taken for granted at a place. -/
def there : Option α → Except Error α
  | some a => .ok a
  | none => .error (.raised .key)

/-- Makes a field. -/
def addField (f : Field) : Writing SchemaMemory Nat := do
  let place := (← get).fields.length
  modify fun m => { m with fields := m.fields ++ [f] }
  return place

/-- Makes a schema of fields that are in memory.  Their ids must differ. -/
def addSchema (o : SchemaObject) : Writing SchemaMemory Nat := do
  let m ← get
  let fields ← there (m.fieldsAt o.places)
  let ids := fields.map (·.id)
  if ¬ ids.Nodup then
    throw (.schema (.duplicateIds ids))
  modify fun m => { m with schemas := m.schemas ++ [o] }
  return m.schemas.length

/-- The place of a field, or that of a nullable copy if it has the given id. -/
def relaxAt (id : Int) (place : Nat) : Writing SchemaMemory Nat := do
  let f ← there (← get).fields[place]?
  if f.id = id then addField f.asOptional else return place

/-- Makes the next version of a schema, in which a column is nullable. -/
def makeColumnOptional (schema : Nat) (name : String) : Writing SchemaMemory Nat := do
  let m ← get
  let o ← there m.schemas[schema]?
  let fields ← there (m.fieldsAt o.places)
  match TableSchema.findLast? (fun f => f.name == name) fields with
  | none => throw (.schema (.missingColumn name))
  | some field =>
    let places ← o.places.mapM (relaxAt field.id)
    addSchema { o with id := o.id + 1, places }

/-- Makes the next version of a schema, with one more column at the end. -/
def addColumn (schema : Nat) (name : String) (type : DataType) : Writing SchemaMemory Nat := do
  let m ← get
  let o ← there m.schemas[schema]?
  let fields ← there (m.fieldsAt o.places)
  if (TableSchema.findLast? (fun f => f.name == name) fields).isSome then
    throw (.schema (.columnExists name))
  if !type.nullable then
    throw (.schema (.addedNotNullable name))
  let id := o.highestFieldId + 1
  let place ← addField ⟨id, name, type, none⟩
  addSchema { o with id := o.id + 1, places := o.places ++ [place], highestFieldId := id }

/-- Makes the next version of a schema, with one change. -/
def change (schema : Nat) : ColumnChange → Writing SchemaMemory Nat
  | .relax name => makeColumnOptional schema name
  | .add name type => addColumn schema name type

end SchemaMemory

end MergeOnRead
