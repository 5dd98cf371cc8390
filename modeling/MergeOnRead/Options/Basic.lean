import MergeOnRead.Options.Setting

/-!
# Options

Options map keys to stored values.  A parameter is read through its setting, which
converts the stored value; it is written as text.
-/

namespace MergeOnRead

/-- Stored values by key, each key once. -/
structure Options where
  entries : List (String × Value)

namespace Options

/-- Nothing is set. -/
def empty : Options := ⟨[]⟩

/-- Stores a value under a key; a key that is present keeps its place. -/
def store (key : String) (v : Value) : List (String × Value) → List (String × Value)
  | [] => [(key, v)]
  | (k, w) :: rest => if k = key then (k, v) :: rest else (k, w) :: store key v rest

/-- The options with the given entries; of equal keys the last value counts. -/
def ofList (entries : List (String × Value)) : Options :=
  ⟨entries.foldl (fun es (k, v) => store k v es) []⟩

/-- The value stored under a key. -/
def raw? (options : Options) (key : String) : Option Value := options.entries.lookup key

/-- The value of a parameter.  While it is not set, or set to null, the fallback holds if there is
one, and else the default of the setting. -/
def get (options : Options) (setting : Setting) (fallback : Value) : Except OptionError Value :=
  match options.raw? setting.key with
  | some v =>
    if v.isNull then .ok (if fallback.isNull then setting.default else fallback)
    else setting.type.convert v
  | none => .ok (if fallback.isNull then setting.default else fallback)

/-- Sets a parameter to the text of a value. -/
def set (options : Options) (setting : Setting) (v : Value) : Options :=
  ⟨store setting.key (.text (optionText v)) options.entries⟩

/-- A parameter is set, if only to null. -/
def contains (options : Options) (setting : Setting) : Bool :=
  (options.raw? setting.key).isSome

end Options

end MergeOnRead
