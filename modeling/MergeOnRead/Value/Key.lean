import MergeOnRead.Value.Basic

/-!
# Equality of values

Two values are equal when their keys are the same.  A key forgets how a value is
represented: numbers of all types are compared by exact value, and binary data by
content whatever holds it.  A NaN that was not made canonical has a key, but is
equal to nothing, not even to itself.  A signaling NaN must not be compared with a
number at all.
-/

namespace MergeOnRead

namespace Scalar

/-- The key of a scalar. -/
def atom : Scalar → Atom
  | .null => .null
  | .bool b => .number (.ofInt (if b then 1 else 0))
  | .int n => .number (.ofInt n)
  | .float x => match Exact.ofBinary64? x with
    | some e => .number e
    | none => .stray
  | .text s => .text s
  | .binary _ bytes => .binary bytes
  | .decimal d => match Exact.ofDecimal? d with
    | some e => .number e
    | none => .stray
  | .date d => .date d
  | .timestamp t => .timestamp t
  | .instant t => .instant t
  | .member m => .member m.family m.name
  | .nan => .nan

/-- Whether a scalar counts as a number. -/
def isNumber : Scalar → Bool
  | .bool _ | .int _ | .float _ | .decimal _ => true
  | _ => false

/-- Whether a scalar is a signaling NaN. -/
def isSignaling : Scalar → Bool
  | .decimal d => d.isSignaling
  | _ => false

/-- Whether two scalars cannot be compared because one of them is a signaling NaN. -/
def signals (s t : Scalar) : Bool :=
  s.isNumber && t.isNumber && (s.isSignaling || t.isSignaling)

end Scalar

namespace Value

mutual

/-- The key of a value. -/
def key : Value → Key
  | .scalar s => .atom s.atom
  | .list items => .node .list (keys items)
  | .tuple items => .node .tuple (keys items)
  | .dict entries => .node .dict (entryKeys entries)

/-- The keys of a sequence. -/
def keys : List Value → List Key
  | [] => []
  | v :: vs => key v :: keys vs

/-- The keys of the entries of a dictionary, in an order that does not depend on theirs. -/
def entryKeys : List (Value × Value) → List Key
  | [] => []
  | (k, v) :: rest => Key.insertSorted (.node .tuple [key k, key v]) (entryKeys rest)

end

/-- Equal values have the same key, and it holds no stray NaN. -/
def eq (v w : Value) : Bool := decide (v.key = w.key) && v.key.isSettled

mutual

/-- Whether a signaling NaN is met before two values are found to differ. -/
def signals : Value → Value → Bool
  | .scalar s, .scalar t => s.signals t
  | .tuple xs, .tuple ys => signalsItems xs ys
  | .list xs, .list ys => xs.length == ys.length && signalsItems xs ys
  | .dict xs, .dict ys => xs.length == ys.length && signalsEntries ys xs
  | _, _ => false

/-- The same for sequences, which are compared item by item. -/
def signalsItems : List Value → List Value → Bool
  | x :: xs, y :: ys => signals x y || (x.eq y && signalsItems xs ys)
  | _, _ => false

/-- The same for dictionaries: every entry of one is compared with that of an equal key. -/
def signalsEntries (others : List (Value × Value)) : List (Value × Value) → Bool
  | [] => false
  | (k, v) :: rest =>
    match others.find? fun e => e.1.eq k with
    | none => false
    | some e => signals v e.2 || (v.eq e.2 && signalsEntries others rest)

end

mutual

/-- Values that can be kept in a set: lists, dictionaries, writable buffers and signaling NaNs
cannot. -/
def isHashable : Value → Bool
  | .scalar (.binary .buffer _) => false
  | .scalar s => !s.isSignaling
  | .list _ => false
  | .tuple items => areHashable items
  | .dict _ => false

/-- All items can be kept in a set. -/
def areHashable : List Value → Bool
  | [] => true
  | v :: vs => isHashable v && areHashable vs

end

end Value

end MergeOnRead
