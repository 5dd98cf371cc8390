import MergeOnRead.Schema.ColumnType
import MergeOnRead.Value.Canonical

/-!
# Values of columns

The resolution in which a column holds timestamps, and the form in which records hand
out its values: maps are lists of pairs in a column and dictionaries in records, and
records know no fractions of microseconds.
-/

namespace MergeOnRead

/-- The number of nanoseconds of a tick. -/
def TimeUnit.nanos (unit : TimeUnit) : Int := 1000000000 / unit.perSecond

/-- The latest timestamp of a resolution that is not after the given one. -/
def Timestamp.floor (unit : TimeUnit) (t : Timestamp) : Timestamp :=
  ⟨t.nanos / unit.nanos * unit.nanos⟩

/-- The number of ticks of a resolution up to a timestamp. -/
def Timestamp.ticks (unit : TimeUnit) (t : Timestamp) : Int := t.nanos / unit.nanos

/-- The items of a list. -/
def Value.items : Value → List Value
  | .list items => items
  | _ => []

/-- The form in which a record hands out a scalar. -/
def Scalar.decode : Scalar → Scalar
  | .timestamp t => .timestamp (t.floor .micro)
  | s => s

/-- The form in which a record hands out a value of a column: the pairs of a map become a
dictionary. -/
def ColumnType.decode : ColumnType → Value → Value
  | .map key value, .list items =>
    Value.dictOf (items.filterMap fun
      | .tuple [k, v] => some (key.decode k, value.decode v)
      | _ => none)
  | .list _ item, .list items => .list (items.map item.decode)
  | _, .scalar s => .scalar s.decode
  | _, v => v

end MergeOnRead
