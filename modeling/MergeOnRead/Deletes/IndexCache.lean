import MergeOnRead.Error
import MergeOnRead.Value.Key

/-!
# The cache of delete indexes

A bounded list of entries, the most recently used one first, and the keys whose
entries are being built.  Builds are numbered, so that two of them can be told apart.  Each
operation here happens at once; building an entry takes several of them, between which
other callers may act:

* `enter` finds the entry, or finds that it is being built, or registers a build;
* `publish` stores the entry that was built, and forgets the least recent ones;
* `withdraw` gives a failed build up.
-/

namespace MergeOnRead

/-- A cache of entries of some type. -/
structure IndexCache (α : Type) where
  maxEntries : Int
  /-- The entries by key, the most recently used one first. -/
  entries : List (Key × α)
  /-- The keys that are being built, each with the number of its build. -/
  pending : List (Key × Nat)
  /-- The number of builds that were begun. -/
  builds : Nat

namespace IndexCache

variable {α : Type}

/-- A cache without entries, with any bound. -/
def empty (maxEntries : Int) : IndexCache α := ⟨maxEntries, [], [], 0⟩

/-- A new cache.  The bound is not checked by the cache itself: that it must not be negative is
asked for by the library that keeps the entries.  Versions of it that do not ask begin with `empty`,
and like all others refuse entries that do not fit. -/
def make (maxEntries : Int) : Except Error (IndexCache α) :=
  if maxEntries < 0 then .error (.raised .value) else .ok (.empty maxEntries)

/-- A key matches an equal key; one that holds a stray NaN matches none. -/
def matching (key k : Key) : Bool := key == k && key.isSettled

/-- The entry of a key, which is not moved. -/
def peek? (c : IndexCache α) (key : Key) : Option α :=
  (c.entries.find? fun e => matching key e.1).map (·.2)

/-- The entry of a key, which becomes the most recent one. -/
def touch (c : IndexCache α) (key : Key) : Option α × IndexCache α :=
  match c.peek? key with
  | none => (none, c)
  | some a =>
    (some a, { c with entries := (key, a) :: c.entries.filter fun e => !matching key e.1 })

/-- What a caller finds. -/
inductive Entry (α : Type) where
  | hit (a : α)
  /-- Another caller is building it. -/
  | busy (build : Nat)
  /-- The caller has to build it. -/
  | owner (build : Nat)

/-- Finds an entry, or registers the caller as its builder unless there is one. -/
def enter (c : IndexCache α) (key : Key) : Entry α × IndexCache α :=
  match c.touch key with
  | (some a, c) => (.hit a, c)
  | (none, c) =>
    match c.pending.find? fun p => matching key p.1 with
    | some (_, build) => (.busy build, c)
    | none =>
      (.owner c.builds, { c with pending := (key, c.builds) :: c.pending, builds := c.builds + 1 })

/-- What is pending without the key of a build. -/
def released (c : IndexCache α) (key : Key) (build : Nat) : List (Key × Nat) :=
  c.pending.filter fun p => !(matching key p.1 || p.2 == build)

/-- Stores a built entry as the most recent one, forgets the entries beyond the bound, and ends
the build.  An entry that cannot be kept at all is refused, and its build does not end. -/
def publish (c : IndexCache α) (key : Key) (build : Nat) (a : α) :
    Except Error (IndexCache α) :=
  if c.maxEntries < 1 then .error (.raised .value)
  else .ok
    { c with
      entries :=
        ((key, a) :: c.entries.filter fun e => !matching key e.1).take c.maxEntries.toNat
      pending := c.released key build }

/-- Ends a build that failed. -/
def withdraw (c : IndexCache α) (key : Key) (build : Nat) : IndexCache α :=
  { c with pending := c.released key build }

/-- Forgets the entry of a key. -/
def invalidate (c : IndexCache α) (key : Key) : IndexCache α :=
  { c with entries := c.entries.filter fun e => !matching key e.1 }

/-- Forgets all entries. -/
def clear (c : IndexCache α) : IndexCache α := { c with entries := [] }

/-- The number of entries. -/
def size (c : IndexCache α) : Nat := c.entries.length

/-- Whether a key has an entry. -/
def contains (c : IndexCache α) (key : Key) : Bool := (c.peek? key).isSome

/-- The state of a caller: a cache, and whatever a loader works on. -/
abbrev Loading (α σ : Type) := IndexCache α × σ

/-- What a caller of the cache gets. -/
inductive Outcome (α : Type) where
  /-- An entry, or an error of its loader or of the cache. -/
  | done (r : Except Error α)
  | waiting

/-- Runs a loader that may use the cache itself, then publishes or withdraws. -/
def build {σ : Type} (key : Key) (number : Nat)
    (load : Loading α σ → Except Error α × Loading α σ) (s : Loading α σ) :
    Except Error α × Loading α σ :=
  match load s with
  | (.error e, (c, t)) => (.error e, (c.withdraw key number, t))
  | (.ok a, (c, t)) =>
    match c.publish key number a with
    | .ok c => (.ok a, (c, t))
    | .error e => (.error e, (c, t))

/-- Gets an entry, and builds it if nobody has. -/
def getOrLoad {σ : Type} (key : Key) (load : Loading α σ → Except Error α × Loading α σ)
    (s : Loading α σ) : Outcome α × Loading α σ :=
  match s.1.enter key with
  | (.hit a, c) => (.done (.ok a), (c, s.2))
  | (.busy _, c) => (.waiting, (c, s.2))
  | (.owner number, c) =>
    let (r, s) := build key number load (c, s.2)
    (.done r, s)

/-- Several callers of one key, of whom the first one builds the entry if it is not there while
the others wait for it: all of them get the same. -/
def shared {σ : Type} (key : Key) (callers : Nat)
    (load : Loading α σ → Except Error α × Loading α σ) (s : Loading α σ) :
    List (Outcome α) × Loading α σ :=
  let (outcome, s) := getOrLoad key load s
  (List.replicate callers outcome, s)

end IndexCache

end MergeOnRead
