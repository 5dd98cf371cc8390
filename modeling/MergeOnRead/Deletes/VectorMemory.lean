import MergeOnRead.Deletes.VectorTable
import MergeOnRead.Error

/-!
# Deletion vectors in memory

A deletion vector is an object that refers to a bitmap, and a bitmap is a set of numbers of 32 bits.
The bitmap itself knows nothing of rows.  A position is checked before it is added and before it is
looked up, while a union of two bitmaps is made without any check.

Vectors are made, changed and copied by calls (`VectorCall`), one after the other.  In memory a call
that changes a vector changes its bitmap where it is (`VectorMemory.perform`); in a vector table it
changes a set of positions (`VectorTable.perform`).
-/

namespace MergeOnRead

/-! ## Bitmaps -/

/-- A set of numbers of 32 bits. -/
structure Bitmap where
  members : List Nat
  ascending : members.Pairwise (· < ·)
  fits : ∀ n ∈ members, n < UInt32.size

namespace Bitmap

@[ext] theorem ext_members {b c : Bitmap} (h : b.members = c.members) : b = c := by
  cases b
  cases c
  cases h
  rfl

/-- The bitmap without members. -/
def empty : Bitmap := ⟨[], PositionSet.empty.ascending, fun _ h => absurd h List.not_mem_nil⟩

/-- Whether an integer is a number of 32 bits. -/
def Fits (n : Int) : Prop := 0 ≤ n ∧ n < UInt32.size

instance (n : Int) : Decidable (Fits n) := inferInstanceAs (Decidable (0 ≤ n ∧ n < UInt32.size))

/-- Adds an integer, which must be a number of 32 bits. -/
def add (b : Bitmap) (n : Int) : Except Error Bitmap :=
  if h : Fits n then
    .ok {
      members := PositionSet.insertSorted n.toNat b.members
      ascending := PositionSet.pairwise_insertSorted b.ascending
      fits := fun k hk => by
        rcases PositionSet.mem_insertSorted.1 hk with rfl | hk
        · obtain ⟨hnonneg, hlt⟩ := h
          omega
        · exact b.fits k hk }
  else .error (.raised .overflow)

/-- Whether an integer is a member.  It must be a number of 32 bits. -/
def contains (b : Bitmap) (n : Int) : Except Error Bool :=
  if Fits n then .ok (b.members.contains n.toNat) else .error (.raised .overflow)

/-- The members of two bitmaps. -/
def union (b c : Bitmap) : Bitmap where
  members := c.members.foldr PositionSet.insertSorted b.members
  ascending := by
    induction c.members with
    | nil => exact b.ascending
    | cons n ns ih => exact PositionSet.pairwise_insertSorted ih
  fits := by
    have hfits := c.fits
    revert hfits
    induction c.members with
    | nil => exact fun _ => b.fits
    | cons n ns ih =>
        intro hfits k hk
        rcases PositionSet.mem_insertSorted.1 hk with rfl | hk
        · exact hfits _ (List.mem_cons_self ..)
        · exact ih (fun m hm => hfits m (List.mem_cons_of_mem _ hm)) k hk

/-- The bitmap has no members. -/
def isEmpty (b : Bitmap) : Bool := b.members.isEmpty

/-- The number of members. -/
def size (b : Bitmap) : Nat := b.members.length

/-- The greatest member. -/
def max (b : Bitmap) : Except Error Nat :=
  match b.members.getLast? with
  | some n => .ok n
  | none => .error (.position .empty)

/-! ### Positions in a bitmap -/

/-- Refuses what is not the position of a row. -/
def checkPosition (position : Int) : Except Error Unit :=
  if position < 0 then .error (.position (.negative position))
  else if (maxPosition : Int) < position then .error (.position .tooLarge)
  else .ok ()

/-- Adds a position. -/
def delete (b : Bitmap) (position : Int) : Except Error Bitmap := do
  checkPosition position
  b.add position

/-- Whether a position is deleted.  What is not the position of a row is not looked up. -/
def isDeleted (b : Bitmap) (position : Int) : Except Error Bool :=
  if position < 0 ∨ (maxPosition : Int) < position then .ok false else b.contains position

/-- The bitmap of some positions, which are added one after the other. -/
def ofPositions (positions : List Int) : Except Error Bitmap := positions.foldlM delete empty

end Bitmap

/-! ## Calls -/

/-- A call on deletion vectors, which are known by names. -/
inductive VectorCall where
  /-- A vector of some positions is made. -/
  | of (name : String) (positions : List Int)
  | delete (name : String) (position : Int)
  /-- The positions of another vector are added to a vector. -/
  | merge (name other : String)
  /-- A vector is copied, and the copy has a name, too. -/
  | copy (name as : String)
  deriving DecidableEq, Repr

/-- The vector that a call makes or changes. -/
def VectorCall.target : VectorCall → String
  | .of name _ | .delete name _ | .merge name _ => name
  | .copy _ as => as

/-- Vectors and their bitmaps. -/
structure VectorMemory where
  bitmaps : Array Bitmap
  /-- The place of the bitmap that each vector refers to. -/
  vectors : List (String × Nat)

namespace VectorMemory

/-- Memory without vectors. -/
def empty : VectorMemory := ⟨#[], []⟩

/-- The bitmap of a vector. -/
def get? (m : VectorMemory) (name : String) : Option Bitmap := do
  m.bitmaps[← m.vectors.lookup name]?

/-- Makes a vector that refers to a new bitmap. -/
def make (name : String) (b : Bitmap) : Writing VectorMemory Unit :=
  modify fun m => ⟨m.bitmaps.push b, (name, m.bitmaps.size) :: m.vectors⟩

/-- Changes the bitmap of a vector where it is. -/
def change (name : String) (b : Bitmap) : Writing VectorMemory Unit :=
  modify fun m =>
    match m.vectors.lookup name with
    | some place => { m with bitmaps := m.bitmaps.setIfInBounds place b }
    | none => m

/-- One call.  A vector that was not made is not changed, and cannot be merged. -/
def perform : VectorCall → Writing VectorMemory Unit
  | .of name positions => do
    let b ← Bitmap.ofPositions positions
    make name b
  | .delete name position => do
    if let some b := (← get).get? name then
      let b ← b.delete position
      change name b
  | .merge name other => do
    if let some b := (← get).get? name then
      match (← get).get? other with
      | some c => change name (b.union c)
      | none => throw (.position .notPositions)
  | .copy name as => do
    if let some b := (← get).get? name then make as b

/-- The memory after a call, whether it failed or not. -/
def step (m : VectorMemory) (call : VectorCall) : VectorMemory := (perform call m).2

/-- The memory after some calls in order. -/
def run (calls : List VectorCall) : VectorMemory := calls.foldl step empty

end VectorMemory

/-! ## Calls on a table of vectors -/

namespace VectorTable

/-- The table without vectors. -/
def empty : VectorTable := ⟨#[], []⟩

/-- One call. -/
def perform (t : VectorTable) : VectorCall → Except PositionError VectorTable
  | .of name positions => do
    let set ← PositionSet.ofPositions positions
    .ok (t.bind name set)
  | .delete name position => if (t.get? name).isSome then t.delete name position else .ok t
  | .merge name other => if (t.get? name).isSome then t.merge name (some other) else .ok t
  | .copy name as =>
    match t.get? name with
    | some set => .ok (t.bind as set)
    | none => .ok t

/-- The table after a call, whether it failed or not. -/
def step (t : VectorTable) (call : VectorCall) : VectorTable :=
  match t.perform call with
  | .ok u => u
  | .error _ => t

/-- The table after some calls in order. -/
def run (calls : List VectorCall) : VectorTable := calls.foldl step empty

end VectorTable

end MergeOnRead
