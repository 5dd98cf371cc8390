import MergeOnRead.Deletes.CacheCalls

/-!
# Calls on a cache one after the other

One caller makes one call after the other.  `CacheSession` makes each of them in the steps
that calls side by side take, from the first look to the end of a build.  `RecencyList` says in
one step what comes of a call: there is a list of entries, the most recently used one first,
and an entry that finds no room makes the last one go.
-/

namespace MergeOnRead

/-- A call on a cache. -/
inductive CacheCall (α : Type) where
  /-- Gets an entry.  Its loader gives an entry or an error if it is run. -/
  | get (key : Key) (given : Except Error α)
  | invalidate (key : Key)
  | clear
  | contains (key : Key)
  | size

/-- The answer to a call. -/
inductive CacheAnswer (α : Type) where
  /-- What a call for an entry gives, and how often its loader was run. -/
  | got (r : Except Error α) (loads : Nat)
  /-- The call for an entry waits for a build of another call. -/
  | waiting
  | done
  | held (b : Bool)
  | counted (n : Nat)

/-! ## Calls in steps -/

/-- A cache with one caller. -/
structure CacheSession (α : Type) where
  calls : CacheCalls α
  /-- The number of calls for entries that were made. -/
  made : Nat

namespace CacheSession

variable {α : Type}

/-- No call has been made. -/
def start (cache : IndexCache α) : CacheSession α := ⟨.start cache, 0⟩

/-- Something is done to the cache between two calls for entries. -/
def onCache (s : CacheSession α) (f : IndexCache α → IndexCache α) : CacheSession α :=
  { s with calls := { s.calls with cache := f s.calls.cache } }

/-- What a call for an entry answers when it can take no more steps. -/
def answerAt (loads : Nat) : CallPhase α → CacheAnswer α
  | .served r | .ended _ _ r => .got r loads
  | _ => .waiting

/-- Gets an entry.  The call looks for it and looks again, runs its loader if it has registered a
build, ends the build, and tells others what came out. -/
def get (s : CacheSession α) (key : Key) (given : Except Error α) :
    CacheAnswer α × CacheSession α :=
  let call := s.made
  let entered := (s.calls.advance call key).advance call key
  let loads := match entered.phase call with
    | .loading _ => 1
    | _ => 0
  let loaded := entered.step (fun _ => key) (.load call given)
  let calls := (loaded.advance call key).advance call key
  (answerAt loads (calls.phase call), ⟨calls, call + 1⟩)

/-- Makes a call. -/
def call (s : CacheSession α) : CacheCall α → CacheAnswer α × CacheSession α
  | .get key given => s.get key given
  | .invalidate key => (.done, s.onCache (·.invalidate key))
  | .clear => (.done, s.onCache (·.clear))
  | .contains key => (.held (s.calls.cache.contains key), s)
  | .size => (.counted s.calls.cache.size, s)

/-- Makes calls in order. -/
def run (s : CacheSession α) : List (CacheCall α) → List (CacheAnswer α) × CacheSession α
  | [] => ([], s)
  | c :: calls =>
    let (answer, s) := s.call c
    let (answers, s) := s.run calls
    (answer :: answers, s)

end CacheSession

/-! ## What comes of calls -/

/-- Entries by recency, the most recently used one first. -/
structure RecencyList (α : Type) where
  /-- There is room for so many entries. -/
  room : Nat
  entries : List (Key × α)

namespace RecencyList

variable {α : Type}

/-- An entry is that of a key. -/
def isOf (key : Key) (e : Key × α) : Bool := IndexCache.matching key e.1

/-- Puts an entry in front; if there are too many then, the last one goes. -/
def add (l : RecencyList α) (key : Key) (a : α) : RecencyList α :=
  let entries := (key, a) :: l.entries
  { l with entries := if l.room < entries.length then entries.dropLast else entries }

/-- Gets an entry, which goes to the front.  One that is not there is loaded. -/
def get (l : RecencyList α) (key : Key) (given : Except Error α) :
    CacheAnswer α × RecencyList α :=
  match l.entries.find? (isOf key) with
  | some e => (.got (.ok e.2) 0, { l with entries := (key, e.2) :: l.entries.eraseP (isOf key) })
  | none =>
    match given with
    | .ok a => (.got (.ok a) 1, l.add key a)
    | .error e => (.got (.error e) 1, l)

/-- Makes a call. -/
def call (l : RecencyList α) : CacheCall α → CacheAnswer α × RecencyList α
  | .get key given => l.get key given
  | .invalidate key => (.done, { l with entries := l.entries.eraseP (isOf key) })
  | .clear => (.done, { l with entries := [] })
  | .contains key => (.held (l.entries.any (isOf key)), l)
  | .size => (.counted l.entries.length, l)

/-- Makes calls in order. -/
def run (l : RecencyList α) : List (CacheCall α) → List (CacheAnswer α) × RecencyList α
  | [] => ([], l)
  | c :: calls =>
    let (answer, l) := l.call c
    let (answers, l) := l.run calls
    (answer :: answers, l)

end RecencyList

end MergeOnRead
