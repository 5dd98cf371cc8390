import MergeOnRead.Calendar
import MergeOnRead.Number.Exact

/-!
# Keys

A key is what equality of values looks at: a tree of atoms in which nothing is left of the way a
value is represented.
-/

namespace MergeOnRead

/-- The key of a scalar. -/
inductive Atom where
  | null
  | number (x : Exact)
  | text (s : String)
  | binary (bytes : List UInt8)
  | date (d : Date)
  | timestamp (t : Timestamp)
  | instant (t : Timestamp)
  | member (family name : String)
  | nan
  /-- A NaN that was not made canonical. -/
  | stray
  deriving DecidableEq, Repr, Ord

/-- The kinds of values that have parts. -/
inductive Shape where
  | list
  | tuple
  | dict
  deriving DecidableEq, Repr, Ord

/-- What equality of values looks at. -/
inductive Key where
  | atom (a : Atom)
  | node (shape : Shape) (items : List Key)
  deriving Repr

namespace Key

instance : Inhabited Key := ⟨.atom .null⟩

mutual

/-- Whether two keys are the same. -/
def decEq : (k l : Key) → Decidable (k = l)
  | .atom a, .atom b =>
    if h : a = b then isTrue (h ▸ rfl) else isFalse fun e => h (Key.atom.inj e)
  | .node s xs, .node t ys =>
    if hs : s = t then
      match decEqItems xs ys with
      | isTrue h => isTrue (hs ▸ h ▸ rfl)
      | isFalse h => isFalse fun e => h (Key.node.inj e).2
    else isFalse fun e => hs (Key.node.inj e).1
  | .atom _, .node _ _ => isFalse nofun
  | .node _ _, .atom _ => isFalse nofun

/-- Whether two lists of keys are the same. -/
def decEqItems : (xs ys : List Key) → Decidable (xs = ys)
  | [], [] => isTrue rfl
  | [], _ :: _ => isFalse nofun
  | _ :: _, [] => isFalse nofun
  | x :: xs, y :: ys =>
    match decEq x y, decEqItems xs ys with
    | isTrue h, isTrue hs => isTrue (h ▸ hs ▸ rfl)
    | isFalse h, _ => isFalse fun e => h (List.cons.inj e).1
    | _, isFalse hs => isFalse fun e => hs (List.cons.inj e).2

end

instance : DecidableEq Key := decEq

mutual

/-- A key that holds no NaN outside canonical form is equal to itself. -/
def isSettled : Key → Bool
  | .atom .stray => false
  | .atom _ => true
  | .node _ items => areSettled items

/-- All keys are equal to themselves. -/
def areSettled : List Key → Bool
  | [] => true
  | k :: ks => isSettled k && areSettled ks

end

mutual

/-- An order of keys, used only to list the entries of a dictionary in one way. -/
def order : Key → Key → Ordering
  | .atom a, .atom b => compare a b
  | .atom _, .node _ _ => .lt
  | .node _ _, .atom _ => .gt
  | .node s xs, .node t ys => (compare s t).then (orderItems xs ys)

/-- The order of lists of keys, item by item. -/
def orderItems : List Key → List Key → Ordering
  | [], [] => .eq
  | [], _ :: _ => .lt
  | _ :: _, [] => .gt
  | x :: xs, y :: ys => (order x y).then (orderItems xs ys)

end

/-- Puts a key into a sorted list. -/
def insertSorted (k : Key) : List Key → List Key
  | [] => [k]
  | l :: ls => if (order k l).isLE then k :: l :: ls else l :: insertSorted k ls

end Key

end MergeOnRead
