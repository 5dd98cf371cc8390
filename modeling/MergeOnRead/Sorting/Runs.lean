import MergeOnRead.Sorting.Merge

/-!
# Sorting by runs

A list is cut into runs that are in order as they are, or become so when they are turned
round; short ones are lengthened by insertion.  Runs wait until they are merged with a
neighbour.  A boundary between two runs has a depth in the halvings of the whole list, and
deeper boundaries vanish first, so that the merges come close to those of a balanced tree.
-/

namespace MergeOnRead.Sorting

variable {ε α : Type}

/-- Splits off the longest beginning in which each item is less, or is not less, than the one
before it. -/
def splitRun (less : Less ε α) (descending : Bool) :
    α → List α → Except ε (List α × List α)
  | x, [] => .ok ([x], [])
  | x, y :: rest => do
    if (← less y x) = descending then
      let (run, left) ← splitRun less descending y rest
      .ok (x :: run, left)
    else .ok ([x], y :: rest)

/-- Splits off the first run.  One in which every item is less than the one before it is turned
round. -/
def firstRun (less : Less ε α) : List α → Except ε (List α × List α)
  | [] => .ok ([], [])
  | [x] => .ok ([x], [])
  | x :: y :: rest => do
    let descending ← less y x
    let (run, left) ← splitRun less descending y rest
    .ok (if descending then (x :: run).reverse else x :: run, left)

/-- Puts an item behind those of a sorted array that it is not less than. -/
def insert (less : Less ε α) (sorted : Array α) (x : α) : Except ε (Array α) := do
  let place ← halve .forward
    (fun i => match sorted[i]? with
      | some y => less x y
      | none => .ok true)
    0 sorted.size
  .ok (sorted.extract 0 place ++ #[x] ++ sorted.extract place sorted.size)

/-- The least length of a run: from 32 to 64, and such that the whole is a little less than a power
of two times it.  A list with fewer than 64 items is one run. -/
def leastRun : (fuel count : Nat) → (rounded : Bool) → Nat
  | 0, count, _ => count
  | fuel + 1, count, rounded =>
    if count < 64 then count + rounded.toNat
    else leastRun fuel (count / 2) (rounded || count % 2 == 1)

/-- A run that waits to be merged. -/
structure Run (α : Type) where
  items : List α
  /-- The depth of the boundary between this run and the next one. -/
  depth : Nat

/-- The runs that wait to be merged, the last one first, and the number of wins that a merge asks
for before it leaps. -/
structure Waiting (α : Type) where
  runs : List (Run α)
  /-- The number of wins. -/
  limit : Nat

/-- The depth of a boundary between two runs: when the whole is halved again and again, the number
of halvings until the middles of the two runs fall apart.  The middles are `a / (2 * total)` and `b
/ (2 * total)` of the whole. -/
def boundaryDepth (total : Nat) : (fuel a b : Nat) → Nat
  | 0, _, _ => 0
  | fuel + 1, a, b =>
    if total ≤ a then boundaryDepth total fuel (2 * (a - total)) (2 * (b - total)) + 1
    else if total ≤ b then 1
    else boundaryDepth total fuel (2 * a) (2 * b) + 1

/-- Merges the last two runs. -/
def mergeLast (less : Less ε α) (w : Waiting α) : Except ε (Waiting α) :=
  match w.runs with
  | last :: middle :: rest => do
    let (limit, merged) ← merge less w.limit middle.items last.items
    .ok ⟨⟨merged, last.depth⟩ :: rest, limit⟩
  | _ => .ok w

/-- Merges the last run but one with the shorter of its neighbours. -/
def mergeMiddle (less : Less ε α) (w : Waiting α) : Except ε (Waiting α) :=
  match w.runs with
  | last :: middle :: first :: rest =>
    if first.items.length < last.items.length then do
      let (limit, merged) ← merge less w.limit first.items middle.items
      .ok ⟨last :: ⟨merged, middle.depth⟩ :: rest, limit⟩
    else mergeLast less w
  | _ => mergeLast less w

/-- Merges the last runs while the boundary between them is deeper than the one behind them. -/
def settle (less : Less ε α) (depth : Nat) : (fuel : Nat) → Waiting α → Except ε (Waiting α)
  | 0, w => .ok w
  | fuel + 1, w =>
    match w.runs with
    | _ :: middle :: _ =>
      if depth < middle.depth then do settle less depth fuel (← mergeLast less w)
      else .ok w
    | _ => .ok w

/-- Lets a run wait behind the others.  These are merged as far as its boundary to them allows. -/
def push (less : Less ε α) (total : Nat) (items : List α) (w : Waiting α) :
    Except ε (Waiting α) :=
  match w.runs with
  | [] => .ok ⟨[⟨items, 0⟩], w.limit⟩
  | last :: rest => do
    let start := rest.foldl (fun count r => count + r.items.length) 0
    let a := 2 * start + last.items.length
    let depth := boundaryDepth total (total + 1) a (a + last.items.length + items.length)
    let w ← settle less depth w.runs.length w
    match w.runs with
    | [] => .ok ⟨[⟨items, 0⟩], w.limit⟩
    | last :: rest => .ok ⟨⟨items, 0⟩ :: ⟨last.items, depth⟩ :: rest, w.limit⟩

/-- Merges all runs. -/
def mergeAll (less : Less ε α) : (fuel : Nat) → Waiting α → Except ε (List α)
  | 0, w => .ok (w.runs.reverse.flatMap (·.items))
  | fuel + 1, w =>
    match w.runs with
    | [] => .ok []
    | [run] => .ok run.items
    | _ => do mergeAll less fuel (← mergeMiddle less w)

/-- Cuts a list into runs of some least length, and adds them to those that wait. -/
def collect (less : Less ε α) (total least : Nat) :
    (fuel : Nat) → List α → Waiting α → Except ε (Waiting α)
  | 0, _, w => .ok w
  | _, [], w => .ok w
  | fuel + 1, xs, w => do
    let (run, rest) ← firstRun less xs
    let short := least - run.length
    let lengthened ← (rest.take short).foldlM (insert less) run.toArray
    collect less total least fuel (rest.drop short) (← push less total lengthened.toList w)

/-- Sorts a list by an order that can fail. -/
def sort (less : Less ε α) (xs : List α) : Except ε (List α) :=
  if xs.length ≤ 1 then .ok xs
  else do
    let total := xs.length
    let w ← collect less total (leastRun total total false) total xs ⟨[], Merging.worth⟩
    mergeAll less w.runs.length w

end MergeOnRead.Sorting
