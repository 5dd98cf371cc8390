import MergeOnRead.Error

/-!
# Reading from bytes

A reading takes what it needs from the beginning of some bytes, and leaves the others.
Numbers come in groups of seven bits, and most other things with their size in front.

Bytes that end where something should begin have ended too early.  Where they end within
a number, an item is missing.
-/

namespace MergeOnRead

/-! ## Numbers in a fixed number of bytes -/

namespace Bytes

/-- The natural number in bytes, the lowest first. -/
def littleEndian (bytes : List UInt8) : Nat :=
  bytes.foldr (fun b n => b.toNat + 256 * n) 0

/-- The natural number in bytes, the highest first. -/
def bigEndian (bytes : List UInt8) : Nat :=
  bytes.foldl (fun n b => 256 * n + b.toNat) 0

/-- The integer in bytes, the highest first, of which the first bit is the sign. -/
def signed (bytes : List UInt8) : Int :=
  let n := bigEndian bytes
  let limit := Nat.pow 256 bytes.length
  if 2 * n < limit then n else (n : Int) - limit

end Bytes

namespace Container

/-! ## Readings -/

/-- What is read from the beginning of bytes. -/
abbrev Reading (α : Type) := StateT (List UInt8) (Except Error) α

namespace Reading

/-- The bytes have ended too early. -/
def ended : Error := .raised .endOfFile

/-- The natural number in groups of seven bits, the lowest first.  The top bit is set in all groups
but the last. -/
def groups : (started : Bool) → List UInt8 → Except Error (Nat × List UInt8)
  | started, [] => .error (if started then .raised .index else ended)
  | _, b :: rest =>
    if b.toNat < 128 then .ok (b.toNat, rest)
    else do
      let (n, rest) ← groups true rest
      .ok (b.toNat - 128 + 128 * n, rest)

/-- An integer of 64 bits: the naturals stand for `0`, `-1`, `1`, `-2` and so on. -/
def integer : Reading Int := do
  let n ← groups false
  let n := n % Nat.pow 2 64
  pure (if n % 2 = 0 then ((n / 2 : Nat) : Int) else -((n / 2 : Nat) : Int) - 1)

/-- A number of bytes. -/
def taken (count : Nat) : Reading (List UInt8) := fun bytes =>
  if bytes.length < count then .error ended else .ok (bytes.splitAt count)

/-- Bytes with their number in front. -/
def counted : Reading (List UInt8) := do
  let count ← integer
  if count < 0 then throw ended else taken count.toNat

/-- The text that bytes encode. -/
def decode (bytes : List UInt8) : Except Error String :=
  match String.fromUTF8? ⟨bytes.toArray⟩ with
  | some s => .ok s
  | none => .error (.raised .value)

/-- A text with the number of its bytes in front. -/
def text : Reading String := do
  let bytes ← counted
  decode bytes

/-- A byte that is there. -/
def byte : Reading Nat
  | [] => .error (.raised .index)
  | b :: rest => .ok (b.toNat, rest)

/-- The natural number in a number of bytes, the lowest first. -/
def fixed (count : Nat) : Reading Nat := do
  let bytes ← taken count
  pure (Bytes.littleEndian bytes)

/-- Reads a number of items. -/
def times {α : Type} (item : Reading α) : (count : Nat) → Reading (List α)
  | 0 => pure []
  | count + 1 => do
    let a ← item
    let more ← times item count
    pure (a :: more)

/-- Reads items in at most `limit` blocks, which have the number of their items in front.  A
negative number is followed by the size of the block, and a block without items is the end. -/
def blocksWithin {α : Type} (item : Reading α) : (limit : Nat) → Reading (List α)
  | 0 => throw ended
  | limit + 1 => do
    let count ← integer
    if count = 0 then pure []
    else do
      if count < 0 then let _ ← integer
      let items ← times item count.natAbs
      let more ← blocksWithin item limit
      pure (items ++ more)

/-- Reads items in blocks, each of which takes at least one byte. -/
def blocks {α : Type} (item : Reading α) : Reading (List α) := do
  let bytes ← get
  blocksWithin item (bytes.length + 1)

end Reading

end Container

end MergeOnRead
