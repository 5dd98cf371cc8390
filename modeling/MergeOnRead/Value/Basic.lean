import MergeOnRead.Calendar
import MergeOnRead.Number.Binary64
import MergeOnRead.Number.Decimal
import MergeOnRead.Value.KeyTree

/-!
# Field values

The values that fields of rows hold, whatever file they were decoded from, and the
values that options take.  A decoder chooses freely between lists and tuples,
between the holders of binary data, and between the bit patterns of NaN; what such
values have in common is said in `MergeOnRead.Value.Key` and
`MergeOnRead.Value.Canonical`.
-/

namespace MergeOnRead

/-- How binary data is held in memory. -/
inductive BinaryHolder where
  /-- An immutable string of bytes. -/
  | fixed
  /-- A buffer that can be written to. -/
  | buffer
  /-- A view of an immutable string of bytes. -/
  | view
  deriving DecidableEq, Repr

/-- The value behind a member of an enumeration. -/
inductive MemberLabel where
  | int (n : Int)
  | text (s : String)
  /-- A value of any other type: the key under which it is compared, and its two forms. -/
  | other (key : Key) (plain quoted : String)
  deriving DecidableEq, Repr

/-- A member of an enumeration. -/
structure Member where
  /-- The enumeration it belongs to. -/
  family : String
  name : String
  /-- The value behind it. -/
  label : MemberLabel
  deriving DecidableEq, Repr

/-- An enumeration: a name and the members in order. -/
structure Enumeration where
  name : String
  /-- Its members, in order of declaration. -/
  members : List Member
  deriving DecidableEq, Repr

/-- A value without parts. -/
inductive Scalar where
  | null
  | bool (b : Bool)
  | int (n : Int)
  | float (x : Binary64)
  | text (s : String)
  | binary (holder : BinaryHolder) (bytes : List UInt8)
  | decimal (d : Decimal)
  | date (d : Date)
  | timestamp (t : Timestamp)
  | instant (t : Timestamp)
  | member (m : Member)
  /-- The single stand-in for every NaN in a canonical key. -/
  | nan
  deriving DecidableEq, Repr

/-- A value: a scalar, a sequence, or a dictionary in order of insertion. -/
inductive Value where
  | scalar (s : Scalar)
  | list (items : List Value)
  | tuple (items : List Value)
  | dict (entries : List (Value × Value))
  deriving Repr

namespace Scalar

/-- The timestamp that a scalar is, in local time or in UTC. -/
def time? : Scalar → Option Timestamp
  | .timestamp t | .instant t => some t
  | _ => none

/-- A date lies in a year of four digits. -/
def hasNamedDate : Scalar → Bool
  | .date d => d.isNamed
  | _ => true

/-- A date or a timestamp lies in a year of four digits. -/
def isDated (s : Scalar) : Bool :=
  s.hasNamedDate && s.time?.all fun t => t.date.isNamed

end Scalar

namespace Value

/-- The null value. -/
@[match_pattern] abbrev null : Value := .scalar .null

/-- A truth value. -/
@[match_pattern] abbrev bool (b : Bool) : Value := .scalar (.bool b)

/-- An integer. -/
@[match_pattern] abbrev int (n : Int) : Value := .scalar (.int n)

/-- A double. -/
@[match_pattern] abbrev float (x : Binary64) : Value := .scalar (.float x)

/-- A text. -/
@[match_pattern] abbrev text (s : String) : Value := .scalar (.text s)

/-- An immutable string of bytes. -/
@[match_pattern] abbrev bytes (b : List UInt8) : Value := .scalar (.binary .fixed b)

/-- A decimal number. -/
@[match_pattern] abbrev decimal (d : Decimal) : Value := .scalar (.decimal d)

/-- A date. -/
@[match_pattern] abbrev date (d : Date) : Value := .scalar (.date d)

/-- A timestamp. -/
@[match_pattern] abbrev timestamp (t : Timestamp) : Value := .scalar (.timestamp t)

/-- A member of an enumeration. -/
@[match_pattern] abbrev member (m : Member) : Value := .scalar (.member m)

instance : Inhabited Value := ⟨null⟩

/-- Only the null value is null. -/
def isNull : Value → Bool
  | null => true
  | _ => false

/-- Whether a value is made of other values. -/
def hasParts : Value → Bool
  | .scalar _ => false
  | _ => true

mutual

/-- Whether all scalars in a value have a property. -/
def every (p : Scalar → Bool) : Value → Bool
  | .scalar s => p s
  | .list xs => everyItem p xs
  | .tuple xs => everyItem p xs
  | .dict entries => everyEntry p entries

/-- Whether all scalars in a sequence have a property. -/
def everyItem (p : Scalar → Bool) : List Value → Bool
  | [] => true
  | x :: xs => x.every p && everyItem p xs

/-- Whether all scalars in a dictionary have a property. -/
def everyEntry (p : Scalar → Bool) : List (Value × Value) → Bool
  | [] => true
  | (k, v) :: xs => k.every p && v.every p && everyEntry p xs

end

mutual

/-- Whether two values have the same form. -/
def decEq : (v w : Value) → Decidable (v = w)
  | .scalar s, .scalar t =>
    if h : s = t then isTrue (h ▸ rfl) else isFalse fun e => h (Value.scalar.inj e)
  | .list xs, .list ys =>
    match decEqItems xs ys with
    | isTrue h => isTrue (h ▸ rfl)
    | isFalse h => isFalse fun e => h (Value.list.inj e)
  | .tuple xs, .tuple ys =>
    match decEqItems xs ys with
    | isTrue h => isTrue (h ▸ rfl)
    | isFalse h => isFalse fun e => h (Value.tuple.inj e)
  | .dict xs, .dict ys =>
    match decEqEntries xs ys with
    | isTrue h => isTrue (h ▸ rfl)
    | isFalse h => isFalse fun e => h (Value.dict.inj e)
  | .scalar _, .list _ => isFalse nofun
  | .scalar _, .tuple _ => isFalse nofun
  | .scalar _, .dict _ => isFalse nofun
  | .list _, .scalar _ => isFalse nofun
  | .list _, .tuple _ => isFalse nofun
  | .list _, .dict _ => isFalse nofun
  | .tuple _, .scalar _ => isFalse nofun
  | .tuple _, .list _ => isFalse nofun
  | .tuple _, .dict _ => isFalse nofun
  | .dict _, .scalar _ => isFalse nofun
  | .dict _, .list _ => isFalse nofun
  | .dict _, .tuple _ => isFalse nofun

/-- Whether two sequences have the same form. -/
def decEqItems : (xs ys : List Value) → Decidable (xs = ys)
  | [], [] => isTrue rfl
  | [], _ :: _ => isFalse nofun
  | _ :: _, [] => isFalse nofun
  | x :: xs, y :: ys =>
    match decEq x y, decEqItems xs ys with
    | isTrue h, isTrue hs => isTrue (h ▸ hs ▸ rfl)
    | isFalse h, _ => isFalse fun e => h (List.cons.inj e).1
    | _, isFalse hs => isFalse fun e => hs (List.cons.inj e).2

/-- Whether two dictionaries have the same form. -/
def decEqEntries : (xs ys : List (Value × Value)) → Decidable (xs = ys)
  | [], [] => isTrue rfl
  | [], _ :: _ => isFalse nofun
  | _ :: _, [] => isFalse nofun
  | (k, v) :: xs, (l, w) :: ys =>
    match decEq k l, decEq v w, decEqEntries xs ys with
    | isTrue h, isTrue g, isTrue hs => isTrue (h ▸ g ▸ hs ▸ rfl)
    | isFalse h, _, _ => isFalse fun e => h (Prod.mk.inj (List.cons.inj e).1).1
    | _, isFalse g, _ => isFalse fun e => g (Prod.mk.inj (List.cons.inj e).1).2
    | _, _, isFalse hs => isFalse fun e => hs (List.cons.inj e).2

end

instance : DecidableEq Value := decEq

end Value

end MergeOnRead
