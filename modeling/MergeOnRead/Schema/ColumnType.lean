/-!
# Types of columns in memory

The types that the columns of a batch can have, with the text of each.  Lists come
in two sizes, as do texts and binary data; the size matters for the text of a type
and for nothing else here.
-/

namespace MergeOnRead

/-- The resolution of times, timestamps and durations. -/
inductive TimeUnit where
  | second
  | milli
  | micro
  | nano
  deriving DecidableEq, Repr

/-- The text of a resolution. -/
def TimeUnit.text : TimeUnit → String
  | .second => "s"
  | .milli => "ms"
  | .micro => "us"
  | .nano => "ns"

/-- The number of ticks of a resolution in a second. -/
def TimeUnit.perSecond : TimeUnit → Nat
  | .second => 1
  | .milli => 1000
  | .micro => 1000000
  | .nano => 1000000000

/-- The widths of integers. -/
inductive IntWidth where
  | w8
  | w16
  | w32
  | w64
  deriving DecidableEq, Repr

/-- The number of bits of an integer. -/
def IntWidth.bits : IntWidth → Nat
  | .w8 => 8
  | .w16 => 16
  | .w32 => 32
  | .w64 => 64

/-- The integers of a width. -/
def IntWidth.holds (width : IntWidth) (n : Int) : Bool :=
  let limit : Int := Nat.pow 2 (width.bits - 1)
  n < limit && -limit ≤ n

/-- A type without parts. -/
inductive FlatType where
  | null
  | int (width : IntWidth)
  | uint (width : IntWidth)
  | half
  | single
  | double
  | bool
  | text (large : Bool)
  | binary (large : Bool)
  | fixedBinary (size : Int)
  | date32
  | date64
  | timestamp (unit : TimeUnit) (zone : Option String)
  /-- A decimal of 128 bits, or of 256.  Newer columns may also hold decimals of 32 or 64 bits; they
  are not among the types here. -/
  | decimal (wide : Bool) (precision : Nat) (scale : Int)
  | time32 (unit : TimeUnit)
  | time64 (unit : TimeUnit)
  | duration (unit : TimeUnit)
  deriving DecidableEq, Repr

/-- The type of a column. -/
inductive ColumnType where
  | flat (type : FlatType)
  | list (large : Bool) (item : ColumnType)
  | map (key value : ColumnType)
  | struct (fields : List (String × ColumnType))
  deriving Repr

namespace FlatType

/-- The text of a type. -/
def print : FlatType → String
  | .null => "null"
  | .int width => "int" ++ toString width.bits
  | .uint width => "uint" ++ toString width.bits
  | .half => "halffloat"
  | .single => "float"
  | .double => "double"
  | .bool => "bool"
  | .text large => if large then "large_string" else "string"
  | .binary large => if large then "large_binary" else "binary"
  | .fixedBinary size => "fixed_size_binary[" ++ toString size ++ "]"
  | .date32 => "date32[day]"
  | .date64 => "date64[ms]"
  | .timestamp unit none => "timestamp[" ++ unit.text ++ "]"
  | .timestamp unit (some zone) => "timestamp[" ++ unit.text ++ ", tz=" ++ zone ++ "]"
  | .decimal wide precision scale =>
    (if wide then "decimal256(" else "decimal128(") ++ toString precision ++ ", " ++
      toString scale ++ ")"
  | .time32 unit => "time32[" ++ unit.text ++ "]"
  | .time64 unit => "time64[" ++ unit.text ++ "]"
  | .duration unit => "duration[" ++ unit.text ++ "]"

end FlatType

namespace ColumnType

/-- Whether the type has no parts. -/
def isFlat : ColumnType → Bool
  | .flat _ => true
  | _ => false

instance : Inhabited ColumnType := ⟨.flat .null⟩

mutual

/-- The text of a type. -/
def print : ColumnType → String
  | .flat type => type.print
  | .list large item =>
    (if large then "large_list<item: " else "list<item: ") ++ item.print ++ ">"
  | .map key value => "map<" ++ key.print ++ ", " ++ value.print ++ ">"
  | .struct fields => "struct<" ++ ", ".intercalate (printFields fields) ++ ">"

/-- The texts of the fields of a structure. -/
def printFields : List (String × ColumnType) → List String
  | [] => []
  | (name, type) :: rest => (name ++ ": " ++ type.print) :: printFields rest

end

mutual

/-- Whether two types are the same. -/
def decEq : (s t : ColumnType) → Decidable (s = t)
  | .flat a, .flat b =>
    if h : a = b then isTrue (h ▸ rfl) else isFalse fun e => h (ColumnType.flat.inj e)
  | .list a s, .list b t =>
    if h : a = b then
      match decEq s t with
      | isTrue g => isTrue (h ▸ g ▸ rfl)
      | isFalse g => isFalse fun e => g (ColumnType.list.inj e).2
    else isFalse fun e => h (ColumnType.list.inj e).1
  | .map k v, .map l w =>
    match decEq k l, decEq v w with
    | isTrue h, isTrue g => isTrue (h ▸ g ▸ rfl)
    | isFalse h, _ => isFalse fun e => h (ColumnType.map.inj e).1
    | _, isFalse g => isFalse fun e => g (ColumnType.map.inj e).2
  | .struct xs, .struct ys =>
    match decEqFields xs ys with
    | isTrue h => isTrue (h ▸ rfl)
    | isFalse h => isFalse fun e => h (ColumnType.struct.inj e)
  | .flat _, .list _ _ => isFalse nofun
  | .flat _, .map _ _ => isFalse nofun
  | .flat _, .struct _ => isFalse nofun
  | .list _ _, .flat _ => isFalse nofun
  | .list _ _, .map _ _ => isFalse nofun
  | .list _ _, .struct _ => isFalse nofun
  | .map _ _, .flat _ => isFalse nofun
  | .map _ _, .list _ _ => isFalse nofun
  | .map _ _, .struct _ => isFalse nofun
  | .struct _, .flat _ => isFalse nofun
  | .struct _, .list _ _ => isFalse nofun
  | .struct _, .map _ _ => isFalse nofun

/-- Whether two lists of fields are the same. -/
def decEqFields : (xs ys : List (String × ColumnType)) → Decidable (xs = ys)
  | [], [] => isTrue rfl
  | [], _ :: _ => isFalse nofun
  | _ :: _, [] => isFalse nofun
  | (m, s) :: xs, (n, t) :: ys =>
    if h : m = n then
      match decEq s t, decEqFields xs ys with
      | isTrue g, isTrue hs => isTrue (h ▸ g ▸ hs ▸ rfl)
      | isFalse g, _ => isFalse fun e => g (Prod.mk.inj (List.cons.inj e).1).2
      | _, isFalse hs => isFalse fun e => hs (List.cons.inj e).2
    else isFalse fun e => h (Prod.mk.inj (List.cons.inj e).1).1

end

instance : DecidableEq ColumnType := decEq

end ColumnType

end MergeOnRead
