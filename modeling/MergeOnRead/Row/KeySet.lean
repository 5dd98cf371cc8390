import MergeOnRead.Row.Basic

/-!
# Sets of keys

A key set holds tuples of values modulo equality: of equal tuples the first one stays.
A tuple that holds a NaN outside canonical form is equal to itself only.  Such a loose
tuple is kept apart, under a stamp that says where it came from.
-/

namespace MergeOnRead

/-- The identity of a loose tuple. -/
structure Stamp where
  /-- Where the tuple came from. -/
  origin : String
  /-- Its number there. -/
  number : Nat
  deriving DecidableEq, Repr

/-- A set of tuples of values. -/
structure KeySet where
  /-- The settled tuples, each with its keys, which are those of no other tuple of the set. -/
  settled : List (List Key × List Value)
  /-- The loose tuples, each under a stamp of its own. -/
  loose : List (Stamp × List Value)

namespace KeySet

/-- The set without tuples. -/
def empty : KeySet := ⟨[], []⟩

instance : Inhabited KeySet := ⟨empty⟩

/-- A settled tuple with the given keys is in the set. -/
def containsKeys (s : KeySet) (keys : List Key) : Bool := s.settled.any fun e => e.1 == keys

/-- A tuple is in the set when an equal one is; a loose tuple is not equal to any. -/
def contains (s : KeySet) (values : List Value) : Bool :=
  let keys := Value.keys values
  Key.areSettled keys && s.containsKeys keys

/-- Adds a tuple that is not in the set yet, under the given stamp if it is loose.  Says whether
the set grew. -/
def insert (s : KeySet) (stamp : Stamp) (values : List Value) : KeySet × Bool :=
  let keys := Value.keys values
  if Key.areSettled keys then
    if s.containsKeys keys then (s, false)
    else ({ s with settled := (keys, values) :: s.settled }, true)
  else ({ s with loose := (stamp, values) :: s.loose }, true)

/-- The number of tuples. -/
def size (s : KeySet) : Nat := s.settled.length + s.loose.length

/-- The tuples. -/
def toList (s : KeySet) : List (List Value) := s.settled.map (·.2) ++ s.loose.map (·.2)

/-- All tuples of two sets; of equal tuples that of the first set stays. -/
def union (s t : KeySet) : KeySet :=
  { settled := s.settled ++ t.settled.filter fun e => !s.containsKeys e.1
    loose := s.loose ++ t.loose.filter fun e => !s.loose.any fun d => d.1 == e.1 }

/-- Every tuple of the first set is in the second. -/
def subset (s t : KeySet) : Bool :=
  s.settled.all (fun e => t.containsKeys e.1) &&
    s.loose.all fun e => t.loose.any fun d => d.1 == e.1

/-- Two sets are equal when they hold the same tuples, in whatever order. -/
def equal (s t : KeySet) : Bool := s.size == t.size && s.subset t

/-- Adds the key of a row, which must be hashable. -/
def addRow (s : KeySet) (stamp : Stamp) (r : Row) : Except RowError (KeySet × Bool) := do
  let values ← r.setKey
  if Value.areHashable values then .ok (s.insert stamp values) else .error .unhashable

/-- Adds the keys of rows up to the first one that has none.  The set holds what was added, and
the error is that of the row that stopped it. -/
def addRows (s : KeySet) (origin : String) : (number : Nat) → List Row →
    KeySet × Option RowError
  | _, [] => (s, none)
  | number, r :: rows =>
    match s.addRow ⟨origin, number⟩ r with
    | .ok (t, _) => t.addRows origin (number + 1) rows
    | .error e => (s, some e)

/-- The set of the given tuples as they are; each must be hashable. -/
def ofTuples (origin : String) (number : Nat) (tuples : List (List Value)) :
    Except RowError KeySet :=
  if tuples.all Value.areHashable then
    .ok ((tuples.zipIdx number).foldl (fun s (values, n) => (s.insert ⟨origin, n⟩ values).1) empty)
  else .error .unhashable

/-- Looks up a tuple as it is; it must be hashable. -/
def containsTuple (s : KeySet) (values : List Value) : Except RowError Bool :=
  if Value.areHashable values then .ok (s.contains values) else .error .unhashable

/-- Looks up the key of a row. -/
def containsRow (s : KeySet) (r : Row) : Except RowError Bool := do
  s.containsTuple (← r.setKey)

/-- The text of a set: the quoted tuples in the order of their texts. -/
def print (s : KeySet) : String :=
  let texts := s.toList.map fun values => Value.quoted (.tuple values)
  "StructLikeSet(" ++ Value.listText (texts.mergeSort fun a b => decide (a ≤ b)) ++ ")"

end KeySet

end MergeOnRead
