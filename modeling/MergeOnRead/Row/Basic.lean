import MergeOnRead.Schema.DataType
import MergeOnRead.Value.Canonical
import MergeOnRead.Value.Printer

/-!
# Rows

A row is a sequence of field values that is read by position.  It holds its values
itself, or it is a window of a longer tuple, or a view that selects and reorders the
fields of another row.  All of them have a key: the tuple of their canonical values.
A bare tuple can stand for a row in a set of keys, but it has no fields to be read.
-/

namespace MergeOnRead

/-- Why a field of a row cannot be read, or a row has no key. -/
inductive RowError where
  /-- The position is not below the number of fields. -/
  | outOfBounds (position arity : Int)
  /-- The position lies before the first value, or the view is too short. -/
  | outsideList
  /-- The window reaches over the ends of its tuple. -/
  | outsideTuple
  /-- The position is too far away to be that of any item. -/
  | unreachable
  | oversized
  | negativeArity
  | noTuple
  | noRow
  /-- A bare tuple has no fields. -/
  | noFields
  | comparison (e : ComparisonError)
  /-- A value that can change cannot be kept in a set. -/
  | unhashable
  deriving DecidableEq, Repr

/-- The wording of the error, where it has one. -/
def RowError.message? : RowError → Option String
  | .outOfBounds position arity =>
    some ("Position " ++ toString position ++ " is out of bounds for row arity " ++
      toString arity)
  | .outsideList => some "list index out of range"
  | .outsideTuple => some "tuple index out of range"
  | .unreachable | .oversized => some "cannot fit 'int' into an index-sized integer"
  | .negativeArity => some "__len__() should return >= 0"
  | .noTuple | .noRow | .noFields | .comparison _ | .unhashable => none

/-- The item at a position; a negative one counts from the end. -/
def itemAt? {α : Type} (xs : List α) (position : Int) : Option α :=
  if 0 ≤ position then xs[position.toNat]?
  else if -position ≤ xs.length then xs[(xs.length + position).toNat]?
  else none

/-- The greatest position of an item in any sequence, and the greatest size of one. -/
def maxIndex : Nat := 0x7FFFFFFFFFFFFFFF

/-- A position, counted from the start or from the end, can be that of an item in some sequence. -/
def isIndex (position : Int) : Bool := -(maxIndex : Int) - 1 ≤ position && position ≤ maxIndex

/-- The item at a position, with the error to report where the sequence does not reach. -/
def itemAt {α : Type} (outside : RowError) (xs : List α) (position : Int) : Except RowError α :=
  if isIndex position then
    match itemAt? xs position with
    | some x => .ok x
    | none => .error outside
  else .error .unreachable

/-- A row. -/
inductive Row where
  /-- A row that holds its values; it may know the fields they belong to. -/
  | plain (values : List Value) (fields : List Field)
  /-- A window of a tuple, if there is one. -/
  | window (tuple : Option (List Value)) (offset arity : Int)
  /-- A view of a row, if there is one; a negative index reads as null. -/
  | view (mapping : List Int) (row : Option Row)
  /-- A bare tuple, which only stands for a row. -/
  | bare (values : List Value)
  deriving Repr

namespace Row

/-- A row of values. -/
def ofValues (values : List Value) : Row := .plain values []

/-- The number of fields as the row states it. -/
def arity : Row → Int
  | .plain values _ => values.length
  | .window _ _ arity => arity
  | .view mapping _ => mapping.length
  | .bare values => values.length

/-- The number of fields, which must be one that a sequence can have. -/
def size (r : Row) : Except RowError Nat :=
  if r.arity < 0 then .error .negativeArity
  else if (maxIndex : Int) < r.arity then .error .oversized
  else .ok r.arity.toNat

/-- The value at a position. -/
def get : Row → Int → Except RowError Value
  | .plain values _, position =>
    if values.length ≤ position then .error (.outOfBounds position values.length)
    else itemAt .outsideList values position
  | .window tuple offset arity, position =>
    if arity ≤ position then .error (.outOfBounds position arity)
    else match tuple with
      | none => .error .noTuple
      | some values => itemAt .outsideTuple values (offset + position)
  | .view mapping row, position => do
    let index ← itemAt .outsideList mapping position
    if index < 0 then .ok .null
    else match row with
      | none => .error .noRow
      | some r => r.get index
  | .bare _, _ => .error .noFields

/-- Whether the value at a position is null.  A view asks the row that it shows. -/
def isNullAt : Row → Int → Except RowError Bool
  | .view mapping row, position => do
    let index ← itemAt .outsideList mapping position
    if index < 0 then .ok true
    else match row with
      | none => .error .noRow
      | some r => r.isNullAt index
  | r, position => (r.get position).map Value.isNull

/-- The first values of the row from a position on, each made into something else.  The first value
that fails ends the reading. -/
def collect {α : Type} (r : Row) (make : Value → Except RowError α) :
    (position count : Nat) → Except RowError (List α)
  | _, 0 => .ok []
  | position, count + 1 => do
    let a ← make (← r.get position)
    .ok (a :: (← r.collect make (position + 1) count))

/-- Whether there are no fields to be read. -/
def isBare : Row → Bool
  | .bare _ => true
  | _ => false

/-- The values of all fields. -/
def toList (r : Row) : Except RowError (List Value) := do
  if r.isBare then .error .noFields else r.collect .ok 0 (← r.size)

/-- The canonical form of a value; without one a row has no key. -/
def canonical (v : Value) : Except RowError Value :=
  v.canonical.mapError .comparison

/-- The canonical values of a sequence; the first that has none is the error. -/
def canonicalValues (values : List Value) : Except RowError (List Value) :=
  values.mapM canonical

/-- The key of a row: its canonical values in order.  Each field is read and made canonical before
the next one. -/
def key (r : Row) : Except RowError (List Value) := do
  r.collect canonical 0 (← r.size)

/-- The key under which a row is kept in a set, where a bare tuple has a key as well. -/
def setKey : Row → Except RowError (List Value)
  | .bare values => canonicalValues values
  | r => r.key

/-- Whether the value at a position is equal to a value. -/
def holds (r : Row) (position : Int) (value : Value) : Except RowError Bool := do
  let v ← r.get position
  if v.signals value then .error (.comparison .notANumber) else .ok (v.eq value)

/-- The text of a row that holds its values: quoted, and with the names of the fields if it knows
them. -/
def plainText (values : List Value) (fields : List Field) : String :=
  let parts :=
    if fields.isEmpty then values.map Value.quoted
    else (fields.zip values).map fun (f, v) => f.name ++ "=" ++ v.quoted
  "GenericRow(" ++ ", ".intercalate parts ++ ")"

/-- The text of a row. -/
def print : Row → Except RowError String
  | .plain values fields => .ok (plainText values fields)
  | .window tuple offset arity => do
    let values ← (Row.window tuple offset arity).collect .ok 0 arity.toNat
    .ok (" ".intercalate (values.map Value.plain))
  | .view mapping row => do
    let inner ← match row with
      | none => .ok "None"
      | some r => r.print
    .ok ("ProjectedRow\x7bindex_mapping=" ++ Value.listText (mapping.map toString) ++
      ", row=" ++ inner ++ "\x7d")
  | .bare values => .ok (Value.tuple values).quoted

end Row

/-- A row that can be told apart from other rows with the same content. -/
structure RowObject where
  serial : Nat
  row : Row

namespace RowObject

/-- Only rows that hold their values are compared by content. -/
def isPlain (o : RowObject) : Bool :=
  match o.row with
  | .plain _ _ => true
  | _ => false

/-- Equality of keys.  A NaN that stayed in a key is equal to itself only, so a row is equal to
itself, but to no other row, when its key holds one. -/
def sameKeys (same : Bool) (k l : List Value) : Bool :=
  decide (Value.keys k = Value.keys l) && (same || Key.areSettled (Value.keys k))

/-- Equality of keys, unless a signaling NaN is met on the way. -/
def compareKeys (same : Bool) (k l : List Value) : Except RowError Bool :=
  if !same && Value.signalsItems k l then .error (.comparison .notANumber)
  else .ok (sameKeys same k l)

/-- Rows are equal when their keys are, provided that one of the two holds its values; its key is
computed first.  Two windows or views are equal only when they are the same object.  Bare tuples are
compared as they are, and equal to no row. -/
def equal (a b : RowObject) : Except RowError Bool :=
  let same := a.serial == b.serial
  if a.row.isBare || b.row.isBare then
    match a.row, b.row with
    | .bare xs, .bare ys => compareKeys same xs ys
    | _, _ => .ok false
  else if a.isPlain then do
    let k ← a.row.key
    let l ← b.row.key
    compareKeys same k l
  else if b.isPlain then do
    let l ← b.row.key
    let k ← a.row.key
    compareKeys same l k
  else .ok same

/-- Whether two rows that are equal go to one place of a set, which they do when they can be kept in
a set at all.  Nothing is said of others. -/
def sharePlace (a b : RowObject) : Except RowError (Option Bool) := do
  if ← a.equal b then
    let key ← a.row.key
    if Value.areHashable key then .ok (some true) else .error .unhashable
  else .ok none

end RowObject

end MergeOnRead
