import MergeOnRead.Value.Key

/-!
# Hashes of values

Values of a set are found by their hashes.  Numbers are hashed modulo the prime `2 ^ 61 - 1`, each
type in its own way: an integer by its remainder, a double by its coefficient and its exponent
modulo 61, a decimal by its digits times a power of ten or of the inverse of ten.  The hashes of
texts and of other content depend on the process; a `Hasher` holds them.

A NaN outside canonical form is hashed by its identity, and values that can change have no hash.
-/

namespace MergeOnRead

/-- A hash is a machine word. -/
abbrev Hash := UInt64

namespace Hash

/-- The modulus of hashes of numbers, `2 ^ 61 - 1`. -/
def modulus : Nat := 0x1FFFFFFFFFFFFFFF

/-- The inverse of ten for this modulus. -/
def tenth : Nat := 2075258708292324556

/-- The hash of an infinity, but for its sign. -/
def infinity : Nat := 314159

/-- The hash of a number with a sign and a remainder.  Minus one is reserved for errors. -/
def ofResidue (negative : Bool) (residue : Nat) : Hash :=
  let signed : Int := if negative then -(residue : Int) else residue
  UInt64.ofInt (if signed = -1 then -2 else signed)

/-- The hash of an integer. -/
def ofInt (n : Int) : Hash := ofResidue (decide (n < 0)) (n.natAbs % modulus)

/-- The hash of a double that is a number: a power of two is taken modulo 61. -/
def ofBinary64 (x : Binary64) : Hash :=
  if x.isInfinite then ofResidue x.isNegative infinity
  else ofResidue x.isNegative (x.coefficient * Nat.pow 2 (x.exponent % 61).toNat % modulus)

/-- The remainder of a power of ten. -/
def powerOfTen (exponent : Int) : Nat :=
  if 0 ≤ exponent then Nat.pow 10 exponent.toNat % modulus
  else Nat.pow tenth (-exponent).toNat % modulus

/-- The hash of `± n · 10 ^ e`. -/
def ofParts (negative : Bool) (n : Nat) (e : Int) : Hash :=
  ofResidue negative (n * powerOfTen e % modulus)

/-- The hash of a decimal that is a number. -/
def ofDecimal? : Decimal → Option Hash
  | .finite negative digits exponent => some (ofParts negative digits exponent)
  | .infinite negative => some (ofResidue negative infinity)
  | .nan _ _ _ => none

/-- A word turned to the left by 31 bits. -/
def rotate (h : Hash) : Hash := (h <<< 31) ||| (h >>> 33)

/-- Adds the hash of an item to that of a sequence. -/
def addItem (acc item : Hash) : Hash :=
  rotate (acc + item * 14029467366897019727) * 11400714785074694791

/-- The hash that a sequence starts with. -/
def seed : Hash := 2870177450012600261

/-- The hash of a sequence with the given hashes of items. -/
def ofItems (items : List Hash) : Hash :=
  let acc := items.foldl addItem seed + (UInt64.ofNat items.length ^^^ (seed ^^^ (3527539 : Hash)))
  if acc = 0xFFFFFFFFFFFFFFFF then 1546275796 else acc

/-- Spreads the bits of a hash. -/
def shuffle (h : Hash) : Hash := ((h ^^^ (89869747 : Hash)) ^^^ (h <<< 16)) * 3644798167

/-- The hash of a set with the given hashes of items, in whatever order they come. -/
def ofSet (items : List Hash) : Hash :=
  let acc := items.foldl (fun acc h => acc ^^^ shuffle h) 0
  let acc := acc ^^^ ((UInt64.ofNat items.length + 1) * 1927868237)
  let acc := acc ^^^ ((acc >>> 11) ^^^ (acc >>> 25))
  let acc := acc * 69069 + 907133923
  if acc = 0xFFFFFFFFFFFFFFFF then 590923713 else acc

end Hash

/-- The hashes of content that is no number. -/
structure Hasher where
  null : Hash
  text : String → Hash
  binary : List UInt8 → Hash
  date : Date → Hash
  timestamp : Timestamp → Hash
  instant : Timestamp → Hash

namespace Hasher

/-- A hasher that takes texts and binary data for sequences, and days and times for numbers. -/
def ofContent : Hasher where
  null := 0
  text s := Hash.ofItems (s.toList.map fun c => UInt64.ofNat c.toNat)
  binary bytes := Hash.ofItems (bytes.map fun b => UInt64.ofNat b.toNat)
  date d := Hash.ofInt d.days
  timestamp t := Hash.ofInt t.nanos
  instant t := Hash.ofInt t.nanos

/-- The hash of a scalar, if it has one that depends on its content only.  The stand-in for NaNs is
hashed like its text, and a member of an enumeration like its name. -/
def scalar? (hasher : Hasher) : Scalar → Option Hash
  | .null => some hasher.null
  | .bool b => some (Hash.ofInt (if b then 1 else 0))
  | .int n => some (Hash.ofInt n)
  | .float x => if x.isNaN then none else some (Hash.ofBinary64 x)
  | .text s => some (hasher.text s)
  | .binary .buffer _ => none
  | .binary _ bytes => some (hasher.binary bytes)
  | .decimal d => Hash.ofDecimal? d
  | .date d => some (hasher.date d)
  | .timestamp t => some (hasher.timestamp t)
  | .instant t => some (hasher.instant t)
  | .member m => some (hasher.text m.name)
  | .nan => some (hasher.text "NaN")

mutual

/-- The hash of a value, if it has one that depends on its content only. -/
def value? (hasher : Hasher) : Value → Option Hash
  | .scalar s => hasher.scalar? s
  | .tuple items => (hasher.items? items).map Hash.ofItems
  | .list _ => none
  | .dict _ => none

/-- The hashes of a sequence. -/
def items? (hasher : Hasher) : List Value → Option (List Hash)
  | [] => some []
  | v :: vs => do
    let h ← hasher.value? v
    let hs ← hasher.items? vs
    some (h :: hs)

end

end Hasher

end MergeOnRead
