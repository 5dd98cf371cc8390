import MergeOnRead.Deletes.PositionSet

/-!
# Deletion vectors that share positions

Several vectors can be made over one set of positions, and then see each other's
changes; a copy has a set of its own.  A vector table holds the sets, and says which
vector is made over which of them.
-/

namespace MergeOnRead

/-- Named vectors over position sets. -/
structure VectorTable where
  sets : Array PositionSet
  /-- The number of the set that each vector is made over. -/
  vectors : List (String × Nat)

namespace VectorTable

/-- The table of one empty vector. -/
def single (name : String) : VectorTable := ⟨#[.empty], [(name, 0)]⟩

/-- The number of the set that a vector is made over. -/
def place? (t : VectorTable) (name : String) : Option Nat := t.vectors.lookup name

/-- The positions of a vector. -/
def get? (t : VectorTable) (name : String) : Option PositionSet := do
  t.sets[← t.place? name]?

/-- Makes a vector over a set of its own. -/
def bind (t : VectorTable) (name : String) (set : PositionSet) : VectorTable :=
  ⟨t.sets.push set, (name, t.sets.size) :: t.vectors⟩

/-- Makes a vector over the set of another one. -/
def share (t : VectorTable) (name other : String) : VectorTable :=
  match t.place? other with
  | some place => { t with vectors := (name, place) :: t.vectors }
  | none => t

/-- Changes the set of a vector, for all vectors that are made over it. -/
def write (t : VectorTable) (name : String) (set : PositionSet) : VectorTable :=
  match t.place? name with
  | some place => { t with sets := t.sets.setIfInBounds place set }
  | none => t

/-- Adds a position to a vector. -/
def delete (t : VectorTable) (name : String) (position : Int) :
    Except PositionError VectorTable := do
  let set ← ((t.get? name).getD .empty).delete position
  .ok (t.write name set)

/-- Adds the positions of another vector to a vector; only a vector can be merged. -/
def merge (t : VectorTable) (name : String) (other : Option String) :
    Except PositionError VectorTable :=
  match other.bind t.get? with
  | some set => .ok (t.write name (((t.get? name).getD .empty).union set))
  | none => .error .notPositions

end VectorTable

end MergeOnRead
