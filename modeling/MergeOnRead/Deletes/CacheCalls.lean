import MergeOnRead.Deletes.IndexCache

/-!
# Callers of one cache side by side

Any number of calls get entries from one cache at the same time.  A call takes several
steps, each of which happens at once: it looks for the entry, looks again and registers
a build unless there is one, and runs its loader; then it ends the build, and tells those
who wait for it what came out.  Steps of different calls come in any order, and the
loader of a call may make calls itself.
-/

namespace MergeOnRead

/-- How far a call has come. -/
inductive CallPhase (α : Type) where
  /-- It has not looked for the entry yet. -/
  | looking
  /-- It has not found the entry, and will look again. -/
  | missed
  /-- It waits for a build of another call. -/
  | waiting (build : Nat)
  /-- It has registered a build, and its loader is running. -/
  | loading (build : Nat)
  /-- Its loader has ended. -/
  | loaded (build : Nat) (given : Except Error α)
  /-- The build is not pending any more, but nobody has been told. -/
  | settled (build : Nat) (given : Except Error α)
  /-- It has ended without a build of its own. -/
  | served (r : Except Error α)
  /-- It has ended with a build of its own. -/
  | ended (build : Nat) (given r : Except Error α)

/-- The calls of one cache. -/
structure CacheCalls (α : Type) where
  cache : IndexCache α
  /-- How far each call has come. -/
  phase : Nat → CallPhase α
  /-- What came out of each build, as far as those who wait for it have been told. -/
  outcome : Nat → Option (Except Error α)

/-- What may happen next. -/
inductive CacheEvent (α : Type) where
  /-- A call takes its next step, unless it has ended or waits for something. -/
  | advance (call : Nat)
  /-- The loader of a call ends. -/
  | load (call : Nat) (given : Except Error α)
  | invalidate (key : Key)
  | clear

namespace CacheCalls

variable {α : Type}

/-- No call has been made. -/
def start (cache : IndexCache α) : CacheCalls α := ⟨cache, fun _ => .looking, fun _ => none⟩

/-- A call comes to another phase. -/
def move (s : CacheCalls α) (call : Nat) (phase : CallPhase α) : CacheCalls α :=
  { s with phase := fun c => if c = call then phase else s.phase c }

/-- Those who wait for a build are told what came out of it. -/
def tell (s : CacheCalls α) (build : Nat) (r : Except Error α) : CacheCalls α :=
  { s with outcome := fun b => if b = build then some r else s.outcome b }

/-- The next step of a call with a key. -/
def advance (s : CacheCalls α) (call : Nat) (key : Key) : CacheCalls α :=
  match s.phase call with
  | .looking =>
    match s.cache.touch key with
    | (some a, cache) => { s with cache }.move call (.served (.ok a))
    | (none, cache) => { s with cache }.move call .missed
  | .missed =>
    match s.cache.enter key with
    | (.hit a, cache) => { s with cache }.move call (.served (.ok a))
    | (.busy build, cache) => { s with cache }.move call (.waiting build)
    | (.owner build, cache) => { s with cache }.move call (.loading build)
  | .waiting build =>
    match s.outcome build with
    | none => s
    | some r => s.move call (.served r)
  | .loaded build (.ok a) =>
    match s.cache.publish key build a with
    | .ok cache => { s with cache }.move call (.settled build (.ok a))
    | .error e => s.move call (.ended build (.ok a) (.error e))
  | .loaded build (.error e) =>
    { s with cache := s.cache.withdraw key build }.move call (.settled build (.error e))
  | .settled build given => (s.tell build given).move call (.ended build given given)
  | .loading _ | .served _ | .ended _ _ _ => s

/-- One step, when each call has a key. -/
def step (key : Nat → Key) (s : CacheCalls α) : CacheEvent α → CacheCalls α
  | .advance call => s.advance call (key call)
  | .load call given =>
    match s.phase call with
    | .loading build => s.move call (.loaded build given)
    | _ => s
  | .invalidate k => { s with cache := s.cache.invalidate k }
  | .clear => { s with cache := s.cache.clear }

/-- Steps in order. -/
def run (key : Nat → Key) (s : CacheCalls α) (events : List (CacheEvent α)) : CacheCalls α :=
  events.foldl (step key) s

end CacheCalls

end MergeOnRead
