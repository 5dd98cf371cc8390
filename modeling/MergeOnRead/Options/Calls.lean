import MergeOnRead.Options.Basic

/-!
# Calls on options

Options are objects that are changed in place.  A call sets a parameter of one of them, or makes a
copy of one, which is an object of its own from then on.
-/

namespace MergeOnRead.Options

/-- A call on one of the objects, told by its number. -/
inductive Call where
  | set (object : Nat) (setting : Setting) (v : Value)
  | copy (object : Nat)

/-- Performs a call; a copy comes behind all other objects. -/
def perform (objects : List Options) : Call → List Options
  | .set n setting v => objects.modify n fun o => o.set setting v
  | .copy n => objects ++ objects[n]?.toList

/-- Performs calls one after another. -/
def run (objects : List Options) (calls : List Call) : List Options := calls.foldl perform objects

/-- The objects that hold what was set under a key, after a call on `count` objects: a copy of a
holder is a holder, and one that is set anew is none. -/
def holdersAfter (key : String) (count : Nat) (holders : List Nat) : Call → List Nat
  | .set n setting _ => if setting.key = key then holders.filter (· ≠ n) else holders
  | .copy n => if n ∈ holders then holders ++ [count] else holders

/-- The objects that hold what was set under a key, after some calls. -/
def holders (key : String) : List Options → List Nat → List Call → List Nat
  | _, held, [] => held
  | objects, held, call :: calls =>
    holders key (perform objects call) (holdersAfter key objects.length held call) calls

end MergeOnRead.Options
