import MergeOnRead.Read.Column

/-!
# Types found from values

Records carry no types of columns, so the type of a column is found from its values: each
value has the widest type of its kind, and the types of all values are joined.

* A null fits in with everything, and integers fit in with doubles.
* Decimals have the longest fraction of all; integers fit in with them.
* Dates fit in with timestamps, and texts with binary data.
* Lists are joined by their items, and records field by field.

Values of other mixtures make no column.
-/

namespace MergeOnRead

/-- The type of decimals with a scale. -/
def FlatType.decimalOf (scale : Int) : FlatType := .decimal false 38 scale

/-- The type of a scalar, for those that have one. -/
def Scalar.columnType? : Scalar → Option FlatType
  | .null => some .null
  | .bool _ => some .bool
  | .int _ => some (.int .w64)
  | .float _ => some .double
  | .text _ => some (.text false)
  | .binary _ _ => some (.binary false)
  | .decimal (.finite _ _ exponent) => some (.decimalOf (max 0 (-exponent)))
  | .date _ => some .date32
  | .timestamp _ => some (.timestamp .micro none)
  | .instant _ => some (.timestamp .micro (some "UTC"))
  | _ => none

/-- The type that two types without parts have in common, if there is one. -/
def FlatType.join : FlatType → FlatType → Option FlatType
  | .null, t => some t
  | s, .null => some s
  | .int _, .double | .double, .int _ => some .double
  | .int _, .decimal _ _ scale | .decimal _ _ scale, .int _ => some (.decimalOf scale)
  | .decimal _ _ scale, .decimal _ _ other => some (.decimalOf (max scale other))
  | .date32, .timestamp _ _ | .timestamp _ _, .date32 => some .date32
  | .text _, .binary _ | .binary _, .text _ => some (.binary false)
  | s, t => if s = t then some s else none

namespace ColumnType

mutual

/-- The type that two types have in common, if there is one. -/
def join : ColumnType → ColumnType → Option ColumnType
  | .flat .null, t => some t
  | s, .flat .null => some s
  | .flat s, .flat t => (s.join t).map .flat
  | .list _ s, .list _ t => (join s t).map (.list false)
  | .struct fields, .struct others => (joinFields fields others).map .struct
  | _, _ => none
termination_by s t => sizeOf s + sizeOf t

/-- The fields of two lists in order of their names. -/
def joinFields : List (String × ColumnType) → List (String × ColumnType) →
    Option (List (String × ColumnType))
  | [], others => some others
  | fields, [] => some fields
  | (m, s) :: fields, (n, t) :: others =>
    if m < n then (joinFields fields ((n, t) :: others)).map ((m, s) :: ·)
    else if n < m then (joinFields ((m, s) :: fields) others).map ((n, t) :: ·)
    else do
      let type ← join s t
      let rest ← joinFields fields others
      some ((m, type) :: rest)
termination_by fields others => sizeOf fields + sizeOf others

end

/-- The type that types have in common, if there is one; without types it is that of nulls. -/
def joinAll (types : List ColumnType) : Option ColumnType := types.foldlM join (.flat .null)

end ColumnType

mutual

/-- The type of a value, for those that have one. -/
def Value.columnType? : Value → Option ColumnType
  | .scalar s => s.columnType?.map .flat
  | .list items | .tuple items => do
    let item ← Value.itemType? items
    some (.list false item)
  | .dict entries => do
    let fields ← Value.fieldTypes? entries
    some (.struct (fields.mergeSort fun f g => decide (f.1 ≤ g.1)))

/-- The type that the items of a list have in common. -/
def Value.itemType? : List Value → Option ColumnType
  | [] => some (.flat .null)
  | v :: vs => do
    let type ← v.columnType?
    let rest ← Value.itemType? vs
    type.join rest

/-- The names and types of the entries of a dictionary. -/
def Value.fieldTypes? : List (Value × Value) → Option (List (String × ColumnType))
  | [] => some []
  | (.text name, v) :: entries => do
    let type ← v.columnType?
    let rest ← Value.fieldTypes? entries
    some ((name, type) :: rest)
  | _ => none

end

/-- The type of a column of values. -/
def ColumnType.ofValues? (values : List Value) : Option ColumnType := do
  let types ← values.mapM Value.columnType?
  ColumnType.joinAll types

end MergeOnRead
