import MergeOnRead.Deletes.PositionSet
import MergeOnRead.Manifest.DeleteFile
import MergeOnRead.Row.KeySet

/-!
# Delete indexes

A parsed delete file: the positions that it deletes in each data file it mentions, or
the keys that it deletes together with the fields they are made of.
-/

namespace MergeOnRead

/-- A parsed delete file. -/
inductive DeleteIndex where
  /-- The deleted positions by path of the data file, each path once. -/
  | positions (path : String) (vectors : List (String × PositionSet))
  /-- The deleted keys, made of the fields with the given ids. -/
  | equalities (path : String) (fieldIds : List Int) (keys : KeySet)

namespace DeleteIndex

instance : Inhabited DeleteIndex := ⟨.positions "" []⟩

/-- The path of the delete file. -/
def path : DeleteIndex → String
  | .positions path _ => path
  | .equalities path _ _ => path

/-- Positions by path; of equal paths the last set counts. -/
def ofVectors (path : String) (vectors : List (String × PositionSet)) : DeleteIndex :=
  .positions path (vectors.foldl (fun vs (p, v) => put p v vs) [])
where
  /-- Puts a set under a path. -/
  put (p : String) (v : PositionSet) : List (String × PositionSet) → List (String × PositionSet)
    | [] => [(p, v)]
    | (q, w) :: rest => if q = p then (q, v) :: rest else (q, w) :: put p v rest

/-- Whether the file deletes by position. -/
def isPosition : DeleteIndex → Bool
  | .positions _ _ => true
  | .equalities _ _ _ => false

/-- The positions that are deleted in a data file, if the delete file mentions it. -/
def vector? (index : DeleteIndex) (dataPath : String) : Option PositionSet :=
  match index with
  | .positions _ vectors => vectors.lookup dataPath
  | .equalities _ _ _ => none

/-- The ids of the fields that the keys are made of. -/
def fieldIds : DeleteIndex → List Int
  | .positions _ _ => []
  | .equalities _ fieldIds _ => fieldIds

/-- The deleted keys. -/
def keys : DeleteIndex → KeySet
  | .positions _ _ => .empty
  | .equalities _ _ keys => keys

/-- The deleted positions by path. -/
def vectors : DeleteIndex → List (String × PositionSet)
  | .positions _ vectors => vectors
  | .equalities _ _ _ => []

/-- The number of deletes. -/
def cardinality : DeleteIndex → Nat
  | .positions _ vectors => (vectors.map fun (_, v) => v.size).foldl (· + ·) 0
  | .equalities _ _ keys => keys.size

/-- The text of an index. -/
def print : DeleteIndex → String
  | .positions path vectors =>
    "DeleteIndex(POSITION_DELETES, file=" ++ path ++ ", paths=" ++ toString vectors.length ++ ")"
  | .equalities path fieldIds keys =>
    "DeleteIndex(EQUALITY_DELETES, file=" ++ path ++ ", field_ids=" ++
      DeleteFile.idsText fieldIds ++ ", keys=" ++ toString keys.size ++ ")"

end DeleteIndex

end MergeOnRead
