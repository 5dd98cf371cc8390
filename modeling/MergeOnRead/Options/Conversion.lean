import MergeOnRead.Number.Numeral
import MergeOnRead.Text.LetterCase
import MergeOnRead.Value.Key
import MergeOnRead.Value.Printer

/-!
# Conversion of option values

Options are stored as text, or as values of any type, and read as values of the type
that a setting declares.  `OptionType.convert` reads and `optionText` writes; the
errors say which value did not fit.
-/

namespace MergeOnRead

/-- The types that a setting can declare. -/
inductive OptionType where
  | text
  | bool
  | int
  | float
  /-- Lists are no option values: nothing can be converted to one. -/
  | list
  | enumeration (e : Enumeration)
  deriving DecidableEq, Repr

namespace OptionType

/-- The name of a type. -/
def name : OptionType → String
  | .text => "str"
  | .bool => "bool"
  | .int => "int"
  | .float => "float"
  | .list => "list"
  | .enumeration e => e.name

end OptionType

/-- Why a setting could not be declared, or a value not be converted. -/
inductive OptionError where
  /-- A truth value must be one of eight words. -/
  | notBoolean (text : String)
  | noBooleanOf (type : String)
  /-- A truth value is not taken for a number. -/
  | booleanForInt
  | noIntOf (type : String)
  | noFloatOf (type : String)
  | notInt (text : String)
  | intTooLong (digits : Nat)
  | notFloat (text : String)
  | intOfNaN
  | intOfInfinity
  | floatOverflow
  /-- No member of the enumeration has this value or name. -/
  | notMember (text enumeration : String)
  | unsupported (type : String)
  | emptyKey
  | emptyKeyDeclared
  | notEnumeration
  /-- A signaling NaN cannot be compared with a number. -/
  | notANumber
  deriving DecidableEq, Repr

namespace OptionError

/-- Numbers that lie outside a range, as opposed to values of the wrong form. -/
def isOverflow : OptionError → Bool
  | .intOfInfinity | .floatOverflow => true
  | _ => false

/-- The wording of the error, where it has one. -/
def message? : OptionError → Option String
  | .notBoolean text => some ("Cannot convert '" ++ text ++ "' to boolean")
  | .noBooleanOf type => some ("Cannot convert " ++ type ++ " to boolean")
  | .booleanForInt => some "Cannot convert bool to int"
  | .noIntOf type => some ("Cannot convert " ++ type ++ " to int")
  | .noFloatOf type => some ("Cannot convert " ++ type ++ " to float")
  | .notInt text =>
    some ("invalid literal for int() with base 10: " ++
      String.ofList ((Text.quoted text).toList.take 200))
  | .intTooLong digits => some (Numeral.tooLongText digits)
  | .notFloat text => some ("could not convert string to float: " ++ Text.quoted text)
  | .intOfNaN => some "cannot convert float NaN to integer"
  | .intOfInfinity => some "cannot convert float infinity to integer"
  | .floatOverflow => some "int too large to convert to float"
  | .notMember text enumeration => some ("Cannot convert '" ++ text ++ "' to " ++ enumeration)
  | .unsupported type => some ("Unsupported type: " ++ type)
  | .emptyKey => some "Key must not be null."
  | .emptyKeyDeclared => some "Key must not be None or empty."
  | .notEnumeration => some "enum_class must be a subclass of Enum"
  | .notANumber => none

end OptionError

/-- A text without the blanks around it. -/
def Text.trimmed (s : String) : String := String.ofList (Text.trimBlanks s.toList)

namespace OptionType

/-- The words that mean true. -/
def trueWords : List String := ["true", "1", "yes", "on"]

/-- The words that mean false. -/
def falseWords : List String := ["false", "0", "no", "off"]

/-- Converts a value to a truth value: a word in any case, or a number that is zero or not. -/
def toBool : Value → Except OptionError Bool
  | .bool b => .ok b
  | .text s =>
    let word := Text.trimmed (Text.lower s)
    if trueWords.contains word then .ok true
    else if falseWords.contains word then .ok false
    else .error (.notBoolean s)
  | .int n => .ok (n != 0)
  | .float x => .ok (!x.isZero)
  | v => .error (.noBooleanOf v.typeText)

/-- Converts a value to an integer: the text of one, or the integer part of a number. -/
def toInt : Value → Except OptionError Int
  | .bool _ => .error .booleanForInt
  | .int n => .ok n
  | .text s =>
    match Numeral.readInt (Text.trimmed s) with
    | .ok n => .ok n
    | .error .malformed => .error (.notInt (Text.trimmed s))
    | .error (.tooLong digits) => .error (.intTooLong digits)
  | .float x =>
    if x.isNaN then .error .intOfNaN
    else if x.isInfinite then .error .intOfInfinity
    else .ok x.truncate
  | v => .error (.noIntOf v.typeText)

/-- Rounds an integer to a floating-point number. -/
def floatOfInt (n : Int) : Except OptionError Binary64 :=
  match Binary64.ofInt? n with
  | some x => .ok x
  | none => .error .floatOverflow

/-- Converts a value to a floating-point number. -/
def toFloat : Value → Except OptionError Binary64
  | .float x => .ok x
  | .text s =>
    match Numeral.readFloat? (Text.trimmed s) with
    | some x => .ok x
    | none => .error (.notFloat (Text.trimmed s))
  | .int n => floatOfInt n
  | .bool b => floatOfInt (if b then 1 else 0)
  | v => .error (.noFloatOf v.typeText)

/-- The key of the value behind a member of an enumeration. -/
def labelKey : MemberLabel → Key
  | .int n => (Value.int n).key
  | .text s => (Value.text s).key
  | .other key _ _ => key

/-- A value denotes a member when it is the value behind it, or its name in any case. -/
def denotes (v : Value) (m : Member) : Bool :=
  (decide (labelKey m.label = v.key) && v.key.isSettled) ||
    match v with
    | .text s => Text.lower m.name == Text.lower (Text.trimmed s)
    | _ => false

/-- The value behind a member is a number and the other one a signaling NaN: the two cannot be
compared. -/
def signals (v : Value) (m : Member) : Bool :=
  match labelKey m.label, v with
  | .atom (.number _), .scalar s => s.isSignaling
  | _, _ => false

/-- Converts a value to the first member that it denotes.  A signaling NaN denotes none, and cannot
be compared with the number behind a member. -/
def toMember (e : Enumeration) (v : Value) : Except OptionError Member :=
  match v with
  | .member m =>
    if m.family = e.name then .ok m else .error (.notMember v.plain e.name)
  | _ =>
    if e.members.any (signals v) then .error .notANumber
    else match e.members.find? (denotes v) with
    | some m => .ok m
    | none => .error (.notMember v.plain e.name)

/-- A value that has a type already is not converted. -/
def admits : OptionType → Value → Bool
  | .text, .text _ => true
  | .bool, .bool _ => true
  | .int, .int _ => true
  | .int, .bool _ => true
  | .float, .float _ => true
  | .list, .list _ => true
  | .enumeration e, .member m => m.family == e.name
  | _, _ => false

/-- Reads a value as one of a type; null stays null. -/
def convert (type : OptionType) (v : Value) : Except OptionError Value :=
  if v.isNull || type.admits v then .ok v
  else match type with
    | .enumeration e => (toMember e v).map .member
    | .text => .ok (.text v.plain)
    | .bool => (toBool v).map .bool
    | .int => (toInt v).map .int
    | .float => (toFloat v).map .float
    | .list => .error (.unsupported "<class 'list'>")

end OptionType

/-- The text under which a value is stored. -/
def optionText : Value → String
  | .bool b => if b then "true" else "false"
  | .member m => m.label.plain
  | v => v.plain

end MergeOnRead
