/-!
# Searching for the first place

Places are natural numbers below some count, and a test says of each whether it is far
enough.  Tests may fail, and they need not be consistent; so it matters which places are
tested, and in which order.

* `halve` tests the middle of the places that are left.
* `gallop` tests the first place, then places in growing distances, and halves the rest.
-/

namespace MergeOnRead.Sorting

variable {ε : Type}

/-- Which of two middle places is tested: the later one on the way forward. -/
inductive Direction where
  | forward
  | backward
  deriving DecidableEq, Repr

/-- The place to test of `count` places that start at `low`. -/
def Direction.middle (direction : Direction) (low count : Nat) : Nat :=
  match direction with
  | .forward => low + count / 2
  | .backward => low + (count - 1) / 2

/-- The first place that is far enough, from `low` up to `low + count`, found by halving. -/
def halve (direction : Direction) (isFar : Nat → Except ε Bool) (low count : Nat) :
    Except ε Nat :=
  if h : count = 0 then .ok low
  else
    let middle := direction.middle low count
    have : middle < low + count := by
      cases direction <;> simp only [middle, Direction.middle] <;> omega
    have : low ≤ middle := by
      cases direction <;> simp only [middle, Direction.middle] <;> omega
    match isFar middle with
    | .error e => .error e
    | .ok true => halve direction isFar low (middle - low)
    | .ok false => halve direction isFar (middle + 1) (low + count - (middle + 1))
termination_by count

/-- Tests `place`, `2 · place + 1` and so on below `count`.  The answer is the last place that is
not far enough, and the first tested one that is; behind the last place all are. -/
def leap (isFar : Nat → Except ε Bool) (count : Nat) :
    (fuel last place : Nat) → Except ε (Nat × Nat)
  | 0, last, _ => .ok (last, count)
  | fuel + 1, last, place =>
    if place < count then do
      if ← isFar place then .ok (last, place)
      else leap isFar count fuel place (2 * place + 1)
    else .ok (last, count)

/-- The first of `count` places that is far enough, found by leaps. -/
def gallop (direction : Direction) (isFar : Nat → Except ε Bool) (count : Nat) :
    Except ε Nat := do
  if count = 0 then .ok 0
  else if ← isFar 0 then .ok 0
  else
    let (last, high) ← leap isFar count count 0 1
    halve direction isFar (last + 1) (high - (last + 1))

end MergeOnRead.Sorting
