/-!
# Sets of row positions

The deleted positions of a data file: natural numbers up to `2147483647`, kept in
ascending order and each once.  `mem_insert` and `mem_union` say what insertion and
union do to the members.
-/

namespace MergeOnRead

/-- The greatest position of a row. -/
def maxPosition : Nat := 2147483647

/-- Why a position set does not answer. -/
inductive PositionError where
  | negative (position : Int)
  | tooLarge
  /-- There is no greatest member. -/
  | empty
  /-- Only another position set can be merged. -/
  | notPositions
  deriving DecidableEq, Repr

/-- The wording of the error, where it has one. -/
def PositionError.message? : PositionError → Option String
  | .negative position =>
    some ("Row position must not be negative, got " ++ toString position ++ ".")
  | .tooLarge =>
    some ("The file has too many rows, RoaringBitmap32 only supports files with row count not " ++
      "exceeding " ++ toString maxPosition ++ ".")
  | .empty => none
  | .notPositions => some "Only instance with the same class type can be merged."

/-- A set of positions. -/
structure PositionSet where
  positions : List Nat
  ascending : positions.Pairwise (· < ·)
  bounded : ∀ p ∈ positions, p ≤ maxPosition

namespace PositionSet

/-- The set without members. -/
def empty : PositionSet := ⟨[], .nil, by simp⟩

instance : Inhabited PositionSet := ⟨empty⟩

instance : Membership Nat PositionSet := ⟨fun s p => p ∈ s.positions⟩

theorem mem_def {s : PositionSet} {p : Nat} : p ∈ s ↔ p ∈ s.positions := Iff.rfl

@[ext] theorem ext_positions {s t : PositionSet} (h : s.positions = t.positions) : s = t := by
  cases s
  cases t
  cases h
  rfl

instance : DecidableEq PositionSet := fun s t =>
  decidable_of_iff (s.positions = t.positions) ⟨ext_positions, fun h => h ▸ rfl⟩

/-! ## Insertion keeps the order -/

/-- Puts a position into an ascending list, unless it is there. -/
def insertSorted (p : Nat) : List Nat → List Nat
  | [] => [p]
  | q :: qs => if p < q then p :: q :: qs else if p = q then q :: qs else q :: insertSorted p qs

theorem mem_insertSorted {p r : Nat} {qs : List Nat} :
    r ∈ insertSorted p qs ↔ r = p ∨ r ∈ qs := by
  induction qs with
  | nil => simp [insertSorted]
  | cons q qs ih =>
      rw [insertSorted]
      split
      · simp
      · split
        · rename_i h
          simp [h]
        · simp only [List.mem_cons, ih]
          exact or_left_comm

theorem pairwise_insertSorted {p : Nat} {qs : List Nat} (hqs : qs.Pairwise (· < ·)) :
    (insertSorted p qs).Pairwise (· < ·) := by
  induction qs with
  | nil => simp [insertSorted]
  | cons q qs ih =>
      obtain ⟨hq, hrest⟩ := List.pairwise_cons.1 hqs
      rw [insertSorted]
      split
      · rename_i hlt
        refine List.pairwise_cons.2 ⟨fun r hr => ?_, hqs⟩
        rcases List.mem_cons.1 hr with rfl | hr
        · exact hlt
        · exact Nat.lt_trans hlt (hq r hr)
      · split
        · exact hqs
        · rename_i hge hne
          refine List.pairwise_cons.2 ⟨fun r hr => ?_, ih hrest⟩
          rcases mem_insertSorted.1 hr with rfl | hr
          · omega
          · exact hq r hr

/-- Adds a position that is in range. -/
def insert (s : PositionSet) (p : Nat) (hp : p ≤ maxPosition) : PositionSet where
  positions := insertSorted p s.positions
  ascending := pairwise_insertSorted s.ascending
  bounded := fun r hr => by
    rcases mem_insertSorted.1 hr with rfl | hr
    · exact hp
    · exact s.bounded r hr

@[simp] theorem mem_insert {s : PositionSet} {p r : Nat} {hp : p ≤ maxPosition} :
    r ∈ s.insert p hp ↔ r = p ∨ r ∈ s := mem_insertSorted

/-- Adds a position that is in range, and refuses any other. -/
def delete (s : PositionSet) (position : Int) : Except PositionError PositionSet :=
  if position < 0 then .error (.negative position)
  else if hp : position.toNat ≤ maxPosition then .ok (s.insert position.toNat hp)
  else .error .tooLarge

/-- The set of the given positions; the first one out of range is refused. -/
def ofPositions (positions : List Int) : Except PositionError PositionSet :=
  positions.foldlM delete empty

/-- Adds the positions of a list that are in range; those of an ascending list are added in time
proportional to their number. -/
def insertAll (s : PositionSet) (ps : List Nat) : PositionSet :=
  ps.foldr (fun p s => if hp : p ≤ maxPosition then s.insert p hp else s) s

theorem mem_insertAll {s : PositionSet} {ps : List Nat} {r : Nat} :
    r ∈ s.insertAll ps ↔ (r ∈ ps ∧ r ≤ maxPosition) ∨ r ∈ s := by
  induction ps with
  | nil => simp [insertAll]
  | cons p ps ih =>
      rw [insertAll, List.foldr_cons]
      split
      · rename_i hp
        rw [mem_insert, ← insertAll, ih, List.mem_cons]
        constructor
        · rintro (rfl | h | h)
          · exact .inl ⟨.inl rfl, hp⟩
          · exact .inl ⟨.inr h.1, h.2⟩
          · exact .inr h
        · rintro (⟨rfl | h, hr⟩ | h)
          · exact .inl rfl
          · exact .inr (.inl ⟨h, hr⟩)
          · exact .inr (.inr h)
      · rename_i hp
        rw [← insertAll, ih, List.mem_cons]
        constructor
        · rintro (h | h)
          · exact .inl ⟨.inr h.1, h.2⟩
          · exact .inr h
        · rintro (⟨rfl | h, hr⟩ | h)
          · exact absurd hr hp
          · exact .inl ⟨h, hr⟩
          · exact .inr h

/-! ## Union and queries -/

/-- The positions of two sets. -/
def union (s t : PositionSet) : PositionSet := s.insertAll t.positions

@[simp] theorem mem_union {s t : PositionSet} {r : Nat} : r ∈ s.union t ↔ r ∈ s ∨ r ∈ t := by
  rw [union, mem_insertAll]
  constructor
  · rintro (h | h)
    · exact .inr h.1
    · exact .inl h
  · rintro (h | h)
    · exact .inr h
    · exact .inl ⟨h, t.bounded r h⟩

/-- Whether a position is deleted; any integer may be asked for. -/
def isDeleted (s : PositionSet) (position : Int) : Bool :=
  decide (0 ≤ position) && s.positions.contains position.toNat

theorem isDeleted_iff {s : PositionSet} {position : Int} :
    s.isDeleted position = true ↔ 0 ≤ position ∧ position.toNat ∈ s := by
  simp [isDeleted, mem_def]

/-- The set has no members. -/
def isEmpty (s : PositionSet) : Bool := s.positions.isEmpty

/-- The number of members. -/
def size (s : PositionSet) : Nat := s.positions.length

/-- The greatest member. -/
def max? (s : PositionSet) : Option Nat := s.positions.getLast?

/-- The greatest member, without which there is no answer. -/
def max (s : PositionSet) : Except PositionError Nat :=
  match s.max? with
  | some p => .ok p
  | none => .error .empty

/-- The positions from a start on, below an end, that are not in the set. -/
def survivors (s : PositionSet) (start count : Nat) : List Nat :=
  absent (s.positions.dropWhile (· < start)) start count
where
  /-- Those of `count` numbers from `p` on that are missing in an ascending list. -/
  absent : List Nat → (p count : Nat) → List Nat
    | _, _, 0 => []
    | [], p, count + 1 => p :: absent [] (p + 1) count
    | q :: qs, p, count + 1 =>
      if p = q then absent qs (p + 1) count else p :: absent (q :: qs) (p + 1) count

/-- The text of a set. -/
def print (s : PositionSet) : String :=
  "BitmapDeletionVector([" ++ ", ".intercalate (s.positions.map toString) ++ "])"

end PositionSet

end MergeOnRead
