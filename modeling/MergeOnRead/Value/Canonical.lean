import MergeOnRead.Sorting.Runs
import MergeOnRead.Value.Key

/-!
# Canonical values

Decoders present one logical value in different ways.  The canonical form of a value
has one NaN, one holder of binary data, and tuples in the place of lists; a
dictionary becomes the tuple of its entries, sorted by their keys.  It exists unless
two keys of a dictionary that are compared on the way have no order.
-/

namespace MergeOnRead

/-- The canonical form of a scalar. -/
def Scalar.canonical : Scalar → Scalar
  | .float x => if x.isNaN then .nan else .float x
  | .binary _ bytes => .binary .fixed bytes
  | s => s

/-- Why two values cannot be compared. -/
inductive ComparisonError where
  /-- There is no order between their types. -/
  | types
  /-- One of two numbers is a decimal, and one is not a number. -/
  | notANumber
  deriving DecidableEq, Repr

/-- Whether a scalar is a decimal. -/
def Scalar.isDecimal : Scalar → Bool
  | .decimal _ => true
  | _ => false

/-- The order of two numbers.  A NaN is less than nothing and nothing is less than it, but it is
never compared with a decimal. -/
def Scalar.lessNumber (s t : Scalar) : Except ComparisonError Bool :=
  match s.atom, t.atom with
  | .number x, .number y => .ok (x.order y).isLT
  | _, _ => if s.isDecimal || t.isDecimal then .error .notANumber else .ok false

/-- The order of two scalars.  A view of memory is compared with buffers only. -/
def Scalar.less : Scalar → Scalar → Except ComparisonError Bool
  | .text s, .text t => .ok (s < t)
  | .date d, .date e => .ok (d.days < e.days)
  | .timestamp s, .timestamp t | .instant s, .instant t => .ok (s.nanos < t.nanos)
  | .binary .view _, .binary .view _ => .error .types
  | .binary .view _, .binary .fixed _ => .error .types
  | .binary .fixed _, .binary .view _ => .error .types
  | .binary _ b, .binary _ c => .ok (compare b c).isLT
  | s, t => if s.isNumber && t.isNumber then s.lessNumber t else .error .types

namespace Value

mutual

/-- The order of two values. -/
def less : Value → Value → Except ComparisonError Bool
  | .scalar s, .scalar t => s.less t
  | .list xs, .list ys => lessItems xs ys
  | .tuple xs, .tuple ys => lessItems xs ys
  | _, _ => .error .types

/-- The order of two sequences is that of their first unequal items; a beginning is less than the
whole. -/
def lessItems : List Value → List Value → Except ComparisonError Bool
  | [], ys => .ok !ys.isEmpty
  | _ :: _, [] => .ok false
  | x :: xs, y :: ys => if x.eq y then lessItems xs ys else less x y

end

/-- The entries of a dictionary are ordered by key, and then by value. -/
def lessEntry (e f : Value × Value) : Except ComparisonError Bool :=
  lessItems [e.1, e.2] [f.1, f.2]

mutual

/-- The canonical form of a value. -/
def canonical : Value → Except ComparisonError Value
  | .scalar s => .ok (.scalar s.canonical)
  | .list items => (canonicalItems items).map .tuple
  | .tuple items => (canonicalItems items).map .tuple
  | .dict entries => do
    let entries ← canonicalEntries entries
    let sorted ← Sorting.sort lessEntry entries
    .ok (.tuple (sorted.map fun (k, v) => .tuple [k, v]))

/-- The canonical forms of a sequence. -/
def canonicalItems : List Value → Except ComparisonError (List Value)
  | [] => .ok []
  | v :: vs => do
    let c ← canonical v
    let cs ← canonicalItems vs
    .ok (c :: cs)

/-- The entries of a dictionary with canonical values; the keys stay as they are. -/
def canonicalEntries : List (Value × Value) → Except ComparisonError (List (Value × Value))
  | [] => .ok []
  | (k, v) :: rest => do
    let c ← canonical v
    let es ← canonicalEntries rest
    .ok ((k, c) :: es)

end

/-- Puts an entry into a dictionary; an equal key keeps its place and its form. -/
def putEntry (k v : Value) : List (Value × Value) → List (Value × Value)
  | [] => [(k, v)]
  | (l, w) :: rest => if l.eq k then (l, v) :: rest else (l, w) :: putEntry k v rest

/-- The dictionary with the given entries; of equal keys the last value counts. -/
def dictOf (entries : List (Value × Value)) : Value :=
  .dict (entries.foldl (fun d (k, v) => putEntry k v d) [])

end Value

end MergeOnRead
