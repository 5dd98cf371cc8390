import MergeOnRead.Deletes.DeleteIndex
import MergeOnRead.Read.Batch
import MergeOnRead.Schema.Resolver

/-!
# Delete filters

What is deleted from one data file: the union of its deletes by position, and for each
list of key fields the union of the deleted keys.  A filter decides single rows, and
removes the deleted rows of a batch.
-/

namespace MergeOnRead

/-- The deletes by equality whose keys are made of the same fields. -/
structure EqualityGroup where
  fieldIds : List Int
  keys : KeySet
  /-- The places of the key fields among the fields being read. -/
  places : List Nat

/-- What is deleted from one data file. -/
structure DeleteFilter where
  file : DataFile
  /-- The fields that its rows consist of. -/
  fields : List Field
  /-- The deleted positions, unless no position is deleted. -/
  positions : Option PositionSet
  groups : List EqualityGroup

/-- Whether the key that some values make is deleted. -/
def EqualityGroup.deletes (g : EqualityGroup) (values : List Value) : Except RowError Bool := do
  let key ← Row.canonicalValues values
  g.keys.containsTuple key

namespace DeleteFilter

/-! ## Building a filter -/

/-- Adds the positions that an index deletes in a data file. -/
def mergeIndex (dataPath : String) (merged : Option PositionSet) (index : DeleteIndex) :
    Option PositionSet :=
  match index.vector? dataPath with
  | none => merged
  | some v =>
    if v.isEmpty then merged
    else some (match merged with
      | none => v
      | some m => m.union v)

/-- The deleted positions of a data file, unless there are none. -/
def mergePositions (dataPath : String) (indexes : List DeleteIndex) : Option PositionSet :=
  indexes.foldl (mergeIndex dataPath) none

/-- Adds deleted keys to those of the same key fields. -/
def addKeys (fieldIds : List Int) (keys : KeySet) :
    List (List Int × KeySet) → List (List Int × KeySet)
  | [] => [(fieldIds, KeySet.empty.union keys)]
  | (ids, ks) :: rest =>
    if ids = fieldIds then (ids, ks.union keys) :: rest
    else (ids, ks) :: addKeys fieldIds keys rest

/-- Adds the keys that an index deletes. -/
def groupIndex (groups : List (List Int × KeySet)) (index : DeleteIndex) :
    List (List Int × KeySet) :=
  match index with
  | .positions _ _ => groups
  | .equalities _ fieldIds keys => addKeys fieldIds keys groups

/-- The deleted keys by key fields, in order of first occurrence. -/
def groupKeys (indexes : List DeleteIndex) : List (List Int × KeySet) :=
  indexes.foldl groupIndex []

/-- Finds the key fields of a group among the fields being read. -/
def resolve (file : DataFile) (fields : List Field) (group : List Int × KeySet) :
    Except Error EqualityGroup :=
  match Field.positionsOf group.1 fields with
  | .ok places => .ok ⟨group.1, group.2, places⟩
  | .error id => .error (.scan (.unresolved id) (some file.path))

/-- The greatest deleted position, if it lies past the end of the data file. -/
def beyondEnd? (file : DataFile) (positions : Option PositionSet) : Option Nat :=
  match positions.bind (·.max?) with
  | some last => if file.rowCount ≤ last then some last else none
  | none => none

/-- The filter of a data file.  With bounds checked, positions past the end of the file are
refused; every key field must be among the fields being read. -/
def create (file : DataFile) (indexes : List DeleteIndex) (fields : List Field)
    (checkBounds : Bool) : Except Error DeleteFilter :=
  let positions := mergePositions file.path indexes
  match if checkBounds then beyondEnd? file positions else none with
  | some last => .error (.scan (.deleteOutOfRange (some last) file.rowCount) (some file.path))
  | none => do
    let groups ← (groupKeys indexes).mapM (resolve file fields)
    .ok ⟨file, fields, positions, groups⟩

/-! ## Single rows -/

/-- The ids of all key fields, each once. -/
def requiredFieldIds (f : DeleteFilter) : List Int :=
  (f.groups.flatMap (·.fieldIds)).foldl (fun ids id => if ids.contains id then ids else ids ++ [id])
    []

/-- Whether the filter can delete anything. -/
def hasDeletes (f : DeleteFilter) : Bool := f.positions.isSome || !f.groups.isEmpty

/-- Whether the position is deleted. -/
def positionDeleted (f : DeleteFilter) (position : Int) : Bool :=
  match f.positions with
  | some set => set.isDeleted position
  | none => false

/-- Whether a row is deleted by one of the groups; those behind it are not consulted. -/
def groupsDelete (r : Row) : List EqualityGroup → Except RowError Bool
  | [] => .ok false
  | g :: gs => do
    let values ← g.places.mapM fun (i : Nat) => r.get i
    if (← g.deletes values) then .ok true else groupsDelete r gs

/-- Whether the row at a position is deleted. -/
def isDeleted (f : DeleteFilter) (position : Int) (r : Row) : Except RowError Bool :=
  if f.positionDeleted position then .ok true else groupsDelete r f.groups

/-- Whether the row at a position survives. -/
def test (f : DeleteFilter) (position : Int) (r : Row) : Except RowError Bool :=
  (f.isDeleted position r).map not

/-! ## Batches -/

/-- The columns that the keys are made of, in ascending order. -/
def keyColumns (f : DeleteFilter) : List Nat :=
  ((f.groups.flatMap (·.places)).mergeSort (· ≤ ·)).eraseDups

/-- Whether the values of the key columns make a deleted key. -/
def keyDeleted (columns : List Nat) (record : List Value) :
    List EqualityGroup → Except RowError Bool
  | [] => .ok false
  | g :: gs => do
    let values := g.places.map fun place => record.getD (columns.idxOf place) .null
    if (← g.deletes values) then .ok true else keyDeleted columns record gs

/-- Of some row numbers those whose key is not deleted; every number must have a record. -/
def keepLive (columns : List Nat) (groups : List EqualityGroup) (records : Array (List Value)) :
    List Nat → Except Error (List Nat)
  | [] => .ok []
  | i :: is =>
    match records[i]? with
    | none => .error .outsideList
    | some record => do
      let deleted ← liftError .row (keyDeleted columns record groups)
      let rest ← keepLive columns groups records is
      .ok (if deleted then rest else i :: rest)

/-- Rows are matched with position deletes below this position only. -/
def positionLimit : Nat := 4294967296

/-- The greatest number that the end of a range of positions can be. -/
def rangeLimit : Nat := 0xFFFFFFFFFFFFFFFF

/-- The numbers of the rows that no position delete removes, when the first row of a batch is at
`start`.  A start before the file is refused, as is an end beyond the greatest one; rows at the
limit or behind it do not stay. -/
def undeletedPositions (f : DeleteFilter) (start : Int) (count : Nat) :
    Except Error (List Nat) :=
  match f.positions with
  | none => .ok (List.range count)
  | some set =>
    if start < 0 ∨ (rangeLimit : Int) < start + count then .error (.raised .overflow)
    else
      let start := start.toNat
      .ok ((set.survivors start (min count (positionLimit - start))).map (· - start))

/-- The numbers of the rows that survive, when the first row of a batch is at `start`.  The keys are
read from the key columns alone, and not at all when no row is left. -/
def survivingRows (f : DeleteFilter) (b : Batch) (start : Int) : Except Error (List Nat) := do
  let kept ← f.undeletedPositions start b.size
  if f.groups.isEmpty || kept.isEmpty then .ok kept
  else
    let keyBatch ← b.select (f.keyColumns.map fun (i : Nat) => (i : Int))
    let records ← keyBatch.records
    keepLive f.keyColumns f.groups records.toArray kept

/-- Removes the deleted rows of a batch whose first row is at `start`.  A batch that loses no row
stays as it is. -/
def apply (f : DeleteFilter) (b : Batch) (start : Int) : Except Error Batch :=
  if b.size = 0 || !f.hasDeletes then .ok b
  else do
    let live ← f.survivingRows b start
    if live.length = b.size then .ok b else .ok (b.keep live)

/-- The text of a filter. -/
def print (f : DeleteFilter) : String :=
  "DeleteFilter(file=" ++ f.file.path ++ ", position_deletes=" ++
    toString ((f.positions.map PositionSet.size).getD 0) ++ ", equality_field_ids=" ++
    Value.listText (f.groups.map fun g => DeleteFile.idsText g.fieldIds) ++ ")"

end DeleteFilter

end MergeOnRead
