import MergeOnRead.Value.Basic

/-!
# What a file holds

A file of a table holds rows, or deletes by position, or deletes by equality.
-/

namespace MergeOnRead

/-- The content of a file. -/
inductive FileContent where
  | data
  | positionDeletes
  | equalityDeletes
  deriving DecidableEq, Repr

namespace FileContent

/-- The contents in order. -/
def all : List FileContent := [.data, .positionDeletes, .equalityDeletes]

/-- The name of a content. -/
def name : FileContent → String
  | .data => "DATA"
  | .positionDeletes => "POSITION_DELETES"
  | .equalityDeletes => "EQUALITY_DELETES"

/-- The number of a content. -/
def number : FileContent → Nat
  | .data => 0
  | .positionDeletes => 1
  | .equalityDeletes => 2

/-- Both kinds of deletes, as opposed to rows. -/
def isDelete : FileContent → Bool
  | .data => false
  | _ => true

/-- A content as a value. -/
def member (c : FileContent) : Member := ⟨"FileContent", c.name, .int c.number⟩

/-- The enumeration of the contents. -/
def enumeration : Enumeration := ⟨"FileContent", all.map member⟩

/-- The content with a name. -/
def ofName? (name : String) : Option FileContent := all.find? fun c => c.name == name

end FileContent

end MergeOnRead
