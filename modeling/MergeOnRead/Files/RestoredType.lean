import MergeOnRead.Files.FileTree

/-!
# Types of columns that are read back

A format that keeps types does not keep all of them: some resolutions of timestamps
come back finer than they were written.  Where a resolution is so fine that its range
is small, a value may be out of this range.
-/

namespace MergeOnRead

/-- The resolution in which a format hands out timestamps. -/
def FileFormat.restoredUnit : FileFormat → TimeUnit → TimeUnit
  | .orc, _ => .nano
  | .parquet, .second => .milli
  | _, unit => unit

/-- The type in which a format hands out a column. -/
def FileFormat.restored (format : FileFormat) : ColumnType → ColumnType
  | .flat (.timestamp unit zone) => .flat (.timestamp (format.restoredUnit unit) zone)
  | .list large item => .list large (format.restored item)
  | .map key value => .map (format.restored key) (format.restored value)
  | type => type

/-- Whether the ticks of all timestamps in a value can be counted in 64 bits. -/
def ColumnType.inRange : ColumnType → Value → Bool
  | .flat (.timestamp unit _), .timestamp t => IntWidth.w64.holds (t.ticks unit)
  | .list _ item, .list items => items.all item.inRange
  | .map key value, .list entries => entries.all fun
    | .tuple [k, v] => key.inRange k && value.inRange v
    | _ => true
  | _, _ => true

end MergeOnRead
