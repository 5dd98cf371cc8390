import MergeOnRead.Options.Conversion

/-!
# Settings

A setting declares a configuration parameter: its key, the type of its values, a
description, and the default that holds while it is not set.
-/

namespace MergeOnRead

/-- A configuration parameter. -/
structure Setting where
  key : String
  type : OptionType
  description : String := ""
  /-- The value while the parameter is not set; null when there is none. -/
  default : Value := .null

namespace Setting

/-- Makes a setting; its key must not be empty. -/
def make (key : String) (type : OptionType) (description : String) (default : Value) :
    Except OptionError Setting :=
  if key.isEmpty then .error .emptyKey else .ok ⟨key, type, description, default⟩

/-- Declares a setting of a plain type. -/
def declare (key : String) (type : OptionType) (default : Value) : Except OptionError Setting :=
  if key.isEmpty then .error .emptyKeyDeclared else .ok ⟨key, type, "", default⟩

/-- Declares a setting whose type has to be an enumeration. -/
def declareEnumerated (key : String) (type : OptionType) (default : Value) :
    Except OptionError Setting :=
  if key.isEmpty then .error .emptyKeyDeclared
  else match type with
    | .enumeration _ => .ok ⟨key, type, "", default⟩
    | _ => .error .notEnumeration

/-- The same setting with another description. -/
def withDescription (s : Setting) (description : String) : Setting := { s with description }

/-- Null stands for a missing default. -/
def hasDefault (s : Setting) : Bool := !s.default.isNull

/-- Settings are the same when key and default are; type and description do not count. -/
def same (s t : Setting) : Bool := s.key == t.key && s.default.eq t.default

/-- Compares a setting with another, or with itself.  A default with parts is equal to itself,
whatever its parts are; a signaling NaN cannot be compared with a number. -/
def compare (itself : Bool) (s t : Setting) : Except OptionError Bool :=
  if s.key != t.key then .ok false
  else if itself && s.default.hasParts then .ok true
  else if s.default.signals t.default then .error .notANumber
  else .ok (s.default.eq t.default)

/-- Compares all settings of a list with each other. -/
def equalities (settings : List Setting) : Except OptionError (List (List Bool)) :=
  settings.zipIdx.mapM fun (s, i) => settings.zipIdx.mapM fun (t, j) => compare (i == j) s t

/-- The text of a setting. -/
def text (s : Setting) : String :=
  "key: '" ++ s.key ++ "'; default_value: " ++ s.default.plain

/-- The number of different settings in a list; none when a default cannot be kept in a set. -/
def countDistinct? (settings : List Setting) : Option Nat :=
  if settings.all fun s => s.default.isHashable then
    some (settings.eraseDupsBy same).length
  else none

end Setting

end MergeOnRead
