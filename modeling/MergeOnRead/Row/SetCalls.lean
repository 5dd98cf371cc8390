import MergeOnRead.Row.KeySet
import MergeOnRead.Value.Hash

/-!
# Calls on sets of rows

Any number of sets of rows, each under its name, and the calls that put rows into them.  A set is
empty until the first call on it.
-/

namespace MergeOnRead

/-- The hash of a set, if all its tuples have one that depends on their content only. -/
def KeySet.hash? (hasher : Hasher) (s : KeySet) : Option Hash :=
  (hasher.items? (s.toList.map .tuple)).map Hash.ofSet

/-- A call on a set of rows. -/
inductive SetCall where
  /-- Adds a row. -/
  | add (name : String) (row : Row)
  /-- Adds rows in order, up to the first one that has no key. -/
  | addAll (name : String) (rows : List Row)
  /-- Adds the rows of another set. -/
  | update (name other : String)

/-- The answer to a call. -/
inductive SetAnswer where
  /-- Whether the set grew by a row. -/
  | added (grew : Bool)
  | done
  | failed (e : RowError)
  deriving DecidableEq

/-- The rows that a call names. -/
def SetCall.rows : SetCall → List Row
  | .add _ row => [row]
  | .addAll _ rows => rows
  | .update _ _ => []

/-- Sets of rows, and the number of calls that were made on them. -/
structure KeySets where
  set : String → KeySet
  calls : Nat

namespace KeySets

/-- All sets are empty. -/
def start : KeySets := ⟨fun _ => .empty, 0⟩

/-- Replaces a set. -/
def put (s : KeySets) (name : String) (set : KeySet) : KeySets :=
  ⟨fun n => if n = name then set else s.set n, s.calls + 1⟩

/-- Makes a call.  Tuples with a loose NaN are stamped with the number of the call. -/
def call (s : KeySets) : SetCall → KeySets × SetAnswer
  | .add name row =>
    match (s.set name).addRow ⟨toString s.calls, 0⟩ row with
    | .ok (set, grew) => (s.put name set, .added grew)
    | .error e => (s.put name (s.set name), .failed e)
  | .addAll name rows =>
    match (s.set name).addRows (toString s.calls) 0 rows with
    | (set, none) => (s.put name set, .done)
    | (set, some e) => (s.put name set, .failed e)
  | .update name other => (s.put name ((s.set name).union (s.set other)), .done)

/-- Makes calls one after the other. -/
def run (calls : List SetCall) : KeySets := calls.foldl (fun s c => (s.call c).1) start

end KeySets

end MergeOnRead
