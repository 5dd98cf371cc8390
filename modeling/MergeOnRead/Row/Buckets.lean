import MergeOnRead.Row.Basic
import MergeOnRead.Value.Hash

/-!
# Rows as keys

Rows can be the keys of a dictionary, which finds them by their hashes and compares rows of one
hash only.  The delete files of a table are put into buckets in this way, one for each partition.
-/

namespace MergeOnRead

namespace RowObject

variable {α : Type}

/-- The hash of the key of a row.  If a NaN is left in the key it depends on the identity of that
NaN, and is given by the serial of the row. -/
def hashKey (hasher : Hasher) (identity : Nat → Hash) (o : RowObject) (key : List Value) :
    Except RowError Hash :=
  if Value.areHashable key then
    .ok (((hasher.items? key).map Hash.ofItems).getD (identity o.serial))
  else .error .unhashable

/-- The hash of a row.  Only rows that hold their values are hashed by their keys; windows and views
are hashed by their identity, and bare tuples as they are. -/
def hash (hasher : Hasher) (identity : Nat → Hash) (o : RowObject) : Except RowError Hash :=
  match o.row with
  | .plain values fields => do o.hashKey hasher identity (← (Row.plain values fields).key)
  | .bare values => o.hashKey hasher identity values
  | .window .. | .view .. => .ok (identity o.serial)

/-- Whether the entry of a dictionary under a row is found by another row: it is the same row, or
one with the same hash to which it is equal. -/
def isFoundBy (hasher : Hasher) (identity : Nat → Hash) (key o : RowObject) :
    Except RowError Bool :=
  if key.serial = o.serial then .ok true
  else do
    let h ← key.hash hasher identity
    let h' ← o.hash hasher identity
    if h = h' then key.equal o else .ok false

end RowObject

/-- Buckets of items, in the order in which they were made, each under the row that it was made
for. -/
abbrev RowBuckets (α : Type) := List (RowObject × List α)

namespace RowBuckets

variable {α : Type}

/-- The items that are found under a row. -/
def find (hasher : Hasher) (identity : Nat → Hash) (o : RowObject) :
    RowBuckets α → Except RowError (List α)
  | [] => .ok []
  | (key, items) :: buckets => do
    if ← key.isFoundBy hasher identity o then .ok items
    else find hasher identity o buckets

/-- Adds an item at the end of the bucket that is found, or in a new one. -/
def add (hasher : Hasher) (identity : Nat → Hash) (o : RowObject) (item : α) :
    RowBuckets α → Except RowError (RowBuckets α)
  | [] => .ok [(o, [item])]
  | (key, items) :: buckets => do
    if ← key.isFoundBy hasher identity o then .ok ((key, items ++ [item]) :: buckets)
    else .ok ((key, items) :: (← add hasher identity o item buckets))

/-- Puts items into buckets, one after the other.  Each row must have a hash. -/
def ofItems (hasher : Hasher) (identity : Nat → Hash) (items : List (RowObject × α)) :
    Except RowError (RowBuckets α) :=
  items.foldlM (fun buckets (o, item) => do
    let _ ← o.hash hasher identity
    add hasher identity o item buckets) []

/-- The items that are found under a row, which must have a hash. -/
def get (hasher : Hasher) (identity : Nat → Hash) (buckets : RowBuckets α) (o : RowObject) :
    Except RowError (List α) := do
  let _ ← o.hash hasher identity
  buckets.find hasher identity o

end RowBuckets

end MergeOnRead
