import MergeOnRead.Sorting.Search

/-!
# Merging two sorted runs

Two runs that lie side by side are merged, from their beginnings on the way forward and
from their ends on the way backward.  The shorter one is kept aside, and the other one
gives way.  An item that gives way passes when it comes before the next item that was
kept aside.

* `oneByOne` compares the two next items until one run wins often in a row.
* `leaps` searches in turns for the place of the next item of one run in the other, until
  little is won by that.  How often a run has to win before leaps are tried is adapted.

For an order of items that is consistent the outcome is the stable merge.  An order that
is not consistent has an outcome too, which depends on every comparison that is made.
-/

namespace MergeOnRead.Sorting

variable {ε α : Type}

/-- An order of items that can fail. -/
abbrev Less (ε α : Type) := α → α → Except ε Bool

/-- A merge under way, in the direction in which it is made. -/
structure Merging (α : Type) where
  /-- The merged items, the latest first. -/
  done : List α
  /-- The items to come of the run that was kept aside. -/
  aside : List α
  /-- The items to come of the run that gives way. -/
  giving : List α

namespace Merging

/-- The number of items to come. -/
def pending (m : Merging α) : Nat := m.aside.length + m.giving.length

/-- The merge is at its end when no item gives way any more, or when only the last item that was
kept aside is left: this one comes last. -/
def isSettled (m : Merging α) : Bool := m.giving.isEmpty || m.aside.length ≤ 1

/-- The items in merged order, when no more comparisons are made. -/
def settle (m : Merging α) : List α :=
  m.done.reverse ++ (if m.giving.isEmpty then m.aside else m.giving ++ m.aside)

/-- Takes items that were kept aside. -/
def takeAside (count : Nat) (m : Merging α) : Merging α :=
  ⟨(m.aside.take count).reverse ++ m.done, m.aside.drop count, m.giving⟩

/-- Takes items that give way. -/
def takeGiving (count : Nat) (m : Merging α) : Merging α :=
  ⟨(m.giving.take count).reverse ++ m.done, m.aside, m.giving.drop count⟩

/-- Takes one item after the other, until one of the runs has won `limit` times in a row. -/
def oneByOne (before : Less ε α) (limit : Nat) :
    (fuel asideWins givingWins : Nat) → Merging α → Except ε (Merging α)
  | 0, _, _, m => .ok m
  | fuel + 1, asideWins, givingWins, m =>
    match m.isSettled, m.aside, m.giving with
    | false, x :: _, y :: _ => do
      if ← before y x then
        let m := m.takeGiving 1
        if limit ≤ givingWins + 1 then .ok m
        else oneByOne before limit fuel 0 (givingWins + 1) m
      else
        let m := m.takeAside 1
        if limit ≤ asideWins + 1 then .ok m
        else oneByOne before limit fuel (asideWins + 1) 0 m
    | _, _, _ => .ok m

/-- Takes all items that were kept aside and stay before the next one that gives way, and then this
one.  Also says how many there were. -/
def leapAside (direction : Direction) (before : Less ε α) (m : Merging α) :
    Except ε (Nat × Merging α) :=
  match m.isSettled, m.giving with
  | false, y :: _ => do
    let count ← gallop direction
      (fun i => match m.aside[i]? with
        | some x => before y x
        | none => .ok true)
      m.aside.length
    let m := m.takeAside count
    .ok (count, if m.isSettled then m else m.takeGiving 1)
  | _, _ => .ok (0, m)

/-- Takes all items that give way and come before the next one that was kept aside, and then this
one.  Also says how many there were. -/
def leapGiving (direction : Direction) (before : Less ε α) (m : Merging α) :
    Except ε (Nat × Merging α) :=
  match m.isSettled, m.aside with
  | false, x :: _ => do
    let count ← gallop direction
      (fun i => match m.giving[i]? with
        | some y => (before y x).map not
        | none => .ok true)
      m.giving.length
    let m := m.takeGiving count
    .ok (count, if m.isSettled then m else m.takeAside 1)
  | _, _ => .ok (0, m)

/-- The number of items that a leap has to win to be worth it. -/
def worth : Nat := 7

/-- Leaps in the left run and in the right run in turns, as long as one of the two is worth it.
Every turn lowers the number of wins that is asked for before leaps are tried. -/
def leaps (direction : Direction) (before : Less ε α) :
    (fuel limit : Nat) → Merging α → Except ε (Nat × Merging α)
  | 0, limit, m => .ok (limit, m)
  | fuel + 1, limit, m => do
    let limit := max 1 (limit - 1)
    let (first, second) := match direction with
      | .forward => (leapAside direction before, leapGiving direction before)
      | .backward => (leapGiving direction before, leapAside direction before)
    let (i, m) ← first m
    let (j, m) ← second m
    if m.isSettled then .ok (limit, m)
    else if worth ≤ i ∨ worth ≤ j then leaps direction before fuel limit m
    else .ok (limit + 1, m)

/-- Merges to the end.  The number of wins that is asked for is handed on. -/
def run (direction : Direction) (before : Less ε α) :
    (fuel limit : Nat) → Merging α → Except ε (Nat × List α)
  | 0, limit, m => .ok (limit, m.settle)
  | fuel + 1, limit, m => do
    let m ← oneByOne before limit m.pending 0 0 m
    if m.isSettled then .ok (limit, m.settle)
    else
      let (limit, m) ← leaps direction before m.pending (limit + 1) m
      if m.isSettled then .ok (limit, m.settle)
      else run direction before fuel limit m

end Merging

/-- Merges two runs from their beginnings; the left one is kept aside.  The first item of the right
run comes first. -/
def mergeForward (less : Less ε α) (limit : Nat) (left right : List α) :
    Except ε (Nat × List α) :=
  let m := Merging.takeGiving 1 ⟨[], left, right⟩
  m.run .forward less m.pending limit

/-- Merges two runs from their ends; the right one is kept aside.  The last item of the left run
comes last. -/
def mergeBackward (less : Less ε α) (limit : Nat) (left right : List α) :
    Except ε (Nat × List α) := do
  let m := Merging.takeGiving 1 ⟨[], right.reverse, left.reverse⟩
  let (limit, merged) ← m.run .backward (fun y x => less x y) m.pending limit
  .ok (limit, merged.reverse)

/-- Merges two runs.  What comes before all items of the right run stays, as does what comes behind
all items of the left one; the rest is merged toward the longer run. -/
def merge (less : Less ε α) (limit : Nat) (left right : List α) : Except ε (Nat × List α) := do
  match right with
  | [] => .ok (limit, left)
  | y :: _ =>
    let kept ← gallop .forward
      (fun i => match left[i]? with
        | some x => less y x
        | none => .ok true)
      left.length
    let inner := left.drop kept
    match inner.getLast? with
    | none => .ok (limit, left ++ right)
    | some x =>
      let reversed := right.reverse
      let behind ← gallop .backward
        (fun i => match reversed[i]? with
          | some y => less y x
          | none => .ok true)
        right.length
      let outer := right.take (right.length - behind)
      let rest := right.drop (right.length - behind)
      if outer.isEmpty then .ok (limit, left ++ right)
      else
        let (limit, merged) ←
          if inner.length ≤ outer.length then mergeForward less limit inner outer
          else mergeBackward less limit inner outer
        .ok (limit, left.take kept ++ merged ++ rest)

end MergeOnRead.Sorting
