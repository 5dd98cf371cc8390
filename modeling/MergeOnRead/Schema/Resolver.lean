import MergeOnRead.Schema.TableSchema

/-!
# Resolving fields by id

Fields of the table are found in the schema a file was written with by their ids, so
that renamed columns are still found and columns added later resolve to nothing.
-/

namespace MergeOnRead

namespace Field

/-- The name under which a file holds the field with an id. -/
def nameOf? (fileFields : List Field) (id : Int) : Option String :=
  (TableSchema.findLast? (fun f => f.id == id) fileFields).map (·.name)

/-- The names under which a file holds the given fields. -/
def physicalNames (fileFields readFields : List Field) : List (Option String) :=
  readFields.map fun f => nameOf? fileFields f.id

/-- The place of the field with an id. -/
def positionOf? (fields : List Field) (id : Int) : Option Nat :=
  (TableSchema.findLast? (fun (f, _) => f.id == id) fields.zipIdx).map (·.2)

/-- For each target field the place of the field with its id in the source, or `-1`. -/
def indexMapping (target source : List Field) : List Int :=
  target.map fun f => match positionOf? source f.id with
    | some i => (i : Int)
    | none => -1

/-- The places of the fields with the given ids; the first id without a field is the error. -/
def positionsOf (ids : List Int) (fields : List Field) : Except Int (List Nat) :=
  ids.mapM fun id => match positionOf? fields id with
    | some i => .ok i
    | none => .error id

end Field

end MergeOnRead
