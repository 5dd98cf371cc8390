/-!
# Types of table fields

A field has an atomic type, given by its name, or an array or map type; every type
says whether it admits null.
-/

namespace MergeOnRead

/-- The type of a field. -/
inductive DataType where
  | atomic (name : String) (nullable : Bool)
  | array (element : DataType) (nullable : Bool)
  | map (key value : DataType) (nullable : Bool)
  deriving DecidableEq, Repr

namespace DataType

/-- A nullable type admits null. -/
def nullable : DataType → Bool
  | .atomic _ nullable => nullable
  | .array _ nullable => nullable
  | .map _ _ nullable => nullable

/-- The same type with another nullability; parts keep theirs. -/
def withNullable (nullable : Bool) : DataType → DataType
  | .atomic name _ => .atomic name nullable
  | .array element _ => .array element nullable
  | .map key value _ => .map key value nullable

/-- The text of a type that is not nullable ends in this. -/
def nullSuffix (nullable : Bool) : String := if nullable then "" else " NOT NULL"

/-- The text of a type. -/
def print : DataType → String
  | .atomic name nullable => name ++ nullSuffix nullable
  | .array element nullable => "ARRAY<" ++ element.print ++ ">" ++ nullSuffix nullable
  | .map key value nullable =>
    "MAP<" ++ key.print ++ ", " ++ value.print ++ ">" ++ nullSuffix nullable

/-- Types are the same when they differ at most in what is nullable. -/
def same : DataType → DataType → Bool
  | .atomic m _, .atomic n _ => m == n
  | .array s _, .array t _ => s.same t
  | .map k v _, .map l w _ => k.same l && v.same w
  | _, _ => false

end DataType

/-- A field of a table: its id is what stays when the field is renamed. -/
structure Field where
  id : Int
  name : String
  type : DataType
  description : Option String := none
  deriving DecidableEq, Repr

namespace Field

/-- A field is nullable when its type is. -/
def nullable (f : Field) : Bool := f.type.nullable

/-- The same field, nullable. -/
def asOptional (f : Field) : Field := { f with type := f.type.withNullable true }

/-- The text of a field. -/
def print (f : Field) : String :=
  f.name ++ ": " ++ f.type.print ++ " (id=" ++ toString f.id ++ ")"

/-- Fields are the same when they differ at most in what is nullable. -/
def same (f g : Field) : Bool :=
  f.id == g.id && f.name == g.name && f.type.same g.type && f.description == g.description

end Field

end MergeOnRead
