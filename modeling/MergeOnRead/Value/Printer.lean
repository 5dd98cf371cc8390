import MergeOnRead.Number.Shortest
import MergeOnRead.Text.Quoted
import MergeOnRead.Value.Basic

/-!
# The text of a value

A value has a plain form, in which a text stands for itself, and a quoted form,
which tells values of different types apart.  Inside a list, a tuple or a
dictionary every part is quoted.
-/

namespace MergeOnRead

/-- The members of an enumeration are written with the name of the enumeration. -/
def Member.text (m : Member) : String := m.family ++ "." ++ m.name

/-- The quoted form of the value behind a member. -/
def MemberLabel.quoted : MemberLabel → String
  | .int n => toString n
  | .text s => Text.quoted s
  | .other _ _ quoted => quoted

/-- The plain form of the value behind a member. -/
def MemberLabel.plain : MemberLabel → String
  | .int n => toString n
  | .text s => s
  | .other _ plain _ => plain

/-- The quoted form of a timestamp names its parts; seconds and microseconds may be left out.  A
remark about the zone comes last, if there is one. -/
def Timestamp.quoted (zone : List String) (t : Timestamp) : String :=
  let (y, m, d) := Calendar.civilOfDays t.date.days
  let (h, mi, s, n) := t.clock
  let u := n / 1000
  let tail := if u ≠ 0 then [s, u] else if s ≠ 0 then [s] else []
  "datetime.datetime(" ++
    ", ".intercalate ([y, m, d].map toString ++ ([h, mi] ++ tail).map toString ++ zone) ++ ")"

/-- The quoted form of a date names its parts. -/
def Date.quoted (d : Date) : String :=
  let (y, m, day) := Calendar.civilOfDays d.days
  "datetime.date(" ++ ", ".intercalate ([y, m, day].map toString) ++ ")"

namespace Scalar

/-- The quoted form of a scalar. -/
def quoted : Scalar → String
  | .null => "None"
  | .bool b => if b then "True" else "False"
  | .int n => toString n
  | .float x => x.text
  | .text s => Text.quoted s
  | .binary .fixed b => Text.quotedBytes b
  | .binary .buffer b => "bytearray(" ++ Text.quotedBytes b ++ ")"
  | .binary .view _ => "<memory>"
  | .decimal d => "Decimal('" ++ d.text ++ "')"
  | .date d => d.quoted
  | .timestamp t => t.quoted []
  | .instant t => t.quoted ["tzinfo=datetime.timezone.utc"]
  | .member m => "<" ++ m.text ++ ": " ++ m.label.quoted ++ ">"
  | .nan => "NaN"

/-- The plain form of a scalar. -/
def plain : Scalar → String
  | .text s => s
  | .decimal d => d.text
  | .date d => d.text
  | .timestamp t => t.text " "
  | .instant t => t.text " " ++ "+00:00"
  | .member m => m.text
  | s => s.quoted

end Scalar

namespace Value

/-- The parts of a tuple in parentheses; a comma follows a single part. -/
def tupleText (parts : List String) : String :=
  match parts with
  | [part] => "(" ++ part ++ ",)"
  | _ => "(" ++ ", ".intercalate parts ++ ")"

/-- The parts of a list in brackets. -/
def listText (parts : List String) : String := "[" ++ ", ".intercalate parts ++ "]"

mutual

/-- The quoted form of a value. -/
def quoted : Value → String
  | .scalar s => s.quoted
  | .list items => listText (quotedItems items)
  | .tuple items => tupleText (quotedItems items)
  | .dict entries => "\x7b" ++ ", ".intercalate (quotedEntries entries) ++ "\x7d"

/-- The quoted forms of a sequence. -/
def quotedItems : List Value → List String
  | [] => []
  | v :: vs => quoted v :: quotedItems vs

/-- The quoted forms of the entries of a dictionary. -/
def quotedEntries : List (Value × Value) → List String
  | [] => []
  | (k, v) :: rest => (quoted k ++ ": " ++ quoted v) :: quotedEntries rest

end

/-- The plain form of a value. -/
def plain : Value → String
  | .scalar s => s.plain
  | v => v.quoted

/-- The name of the type of a value, as error messages show it. -/
def typeText : Value → String
  | .scalar (.member m) => "<enum '" ++ m.family ++ "'>"
  | v => "<class '" ++ typeName v ++ "'>"
where
  /-- The bare name of a type. -/
  typeName : Value → String
    | .scalar .null => "NoneType"
    | .scalar (.bool _) => "bool"
    | .scalar (.int _) => "int"
    | .scalar (.float _) => "float"
    | .scalar (.text _) => "str"
    | .scalar (.binary .fixed _) => "bytes"
    | .scalar (.binary .buffer _) => "bytearray"
    | .scalar (.binary .view _) => "memoryview"
    | .scalar (.decimal _) => "decimal.Decimal"
    | .scalar (.date _) => "datetime.date"
    | .scalar (.timestamp _) | .scalar (.instant _) => "datetime.datetime"
    | .scalar (.member m) => m.family
    | .scalar .nan => "NaN"
    | .list _ => "list"
    | .tuple _ => "tuple"
    | .dict _ => "dict"

end Value

end MergeOnRead
