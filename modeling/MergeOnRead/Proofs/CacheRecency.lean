import MergeOnRead.Deletes.RecencyList
import MergeOnRead.Proofs.CacheSafety

/-!
# A cache with one caller is a list by recency

A call for an entry takes several steps, in which it looks twice, registers a build, runs a loader,
and stores what this gives.  When one call has ended before the next one begins, nothing of this can
be seen: the answers, the runs of loaders and the entries are those of a list by recency
(`CacheSession.run_follows`).

Strategy:

* `get_of_hit`, `get_of_load` and `get_of_failure` take the steps of a call for an entry when no
  build is pending;
* `Follows` relates a cache between two calls to a list.  `Follows.call` is the step, and the run
  follows by induction.
-/

namespace MergeOnRead

open IndexCache

/-! ## Entries of different keys -/

namespace RecencyList

variable {α : Type} {l : RecencyList α} {key : Key} {a : α}

/-- Among entries of different keys at most one is that of a key. -/
theorem filter_eq_eraseP {entries : List (Key × α)}
    (h : entries.Pairwise fun e f => matching e.1 f.1 = false) (key : Key) :
    (entries.filter fun e => !matching key e.1) = entries.eraseP (isOf key) := by
  induction entries with
  | nil => rfl
  | cons e entries ih =>
      obtain ⟨hfirst, hrest⟩ := List.pairwise_cons.1 h
      by_cases he : isOf key e = true
      · have hkey : e.1 = key := eq_of_matching he
        rw [List.eraseP_cons_of_pos he, List.filter_cons_of_neg (by simpa [isOf] using he),
          List.filter_eq_self]
        intro f hf
        simp [← hkey, hfirst f hf]
      · rw [List.eraseP_cons_of_neg he, List.filter_cons_of_pos (by simpa [isOf] using he),
          ih hrest]

/-- All entries stay when none is that of a key. -/
theorem filter_eq_self {entries : List (Key × α)} (h : entries.find? (isOf key) = none) :
    (entries.filter fun e => !matching key e.1) = entries := by
  rw [List.filter_eq_self]
  intro e he
  simpa [isOf] using List.find?_eq_none.1 h e he

/-- Keeping the first entries drops the last one when there is one too many. -/
theorem entries_add (h : l.entries.length ≤ l.room) :
    (l.add key a).entries = ((key, a) :: l.entries).take l.room := by
  rw [add]
  dsimp only
  split
  · rename_i hmany
    have hroom : l.room = ((key, a) :: l.entries).length - 1 := by
      rw [List.length_cons] at hmany ⊢
      omega
    rw [List.dropLast_eq_take, hroom]
  · rename_i hfew
    rw [List.take_of_length_le (Nat.le_of_not_lt hfew)]

end RecencyList

namespace IndexCache

variable {α : Type} {c : IndexCache α} {key : Key}

/-- A caller that does not find its entry registers a build if none is pending. -/
theorem enter_of_miss (hpending : c.pending = []) (hnone : c.peek? key = none) :
    c.enter key = (.owner c.builds,
      { c with pending := [(key, c.builds)], builds := c.builds + 1 }) := by
  simp [enter, touch, hnone, hpending]

/-- Nothing is pending once the only build has ended. -/
theorem released_eq_nil {build : Nat} (h : c.pending = [(key, build)]) :
    c.released key build = [] := by
  simp [released, h]

end IndexCache

namespace CacheSession

variable {α : Type} {s : CacheSession α} {key : Key}

/-! ## The steps of one call -/

/-- No build is pending, and no call has begun that has not ended.  There is room for an entry. -/
structure Idle (s : CacheSession α) : Prop where
  room : 1 ≤ s.calls.cache.maxEntries
  pending : s.calls.cache.pending = []
  looking : ∀ c, s.made ≤ c → s.calls.phase c = .looking

/-- A call for an entry has ended, and some entries are left. -/
structure Leaves (s : CacheSession α) (entries : List (Key × α)) (t : CacheSession α) : Prop where
  bound : t.calls.cache.maxEntries = s.calls.cache.maxEntries
  entries : t.calls.cache.entries = entries
  pending : t.calls.cache.pending = []
  looking : ∀ c, t.made ≤ c → t.calls.phase c = .looking

namespace Idle

/-- Calls to come have not begun when only the call that was made has come to another phase. -/
theorem looking_of_made (hs : s.Idle) {calls : CacheCalls α}
    (hphase : ∀ c, c ≠ s.made → calls.phase c = s.calls.phase c) (c : Nat) (hc : s.made + 1 ≤ c) :
    calls.phase c = .looking := by
  rw [hphase c (by omega), hs.looking c (by omega)]

theorem get_of_hit (hs : s.Idle) {a : α} (hfound : s.calls.cache.peek? key = some a)
    (given : Except Error α) : (s.get key given).1 = .got (.ok a) 0 ∧
      s.Leaves ((key, a) :: s.calls.cache.entries.filter fun e => !matching key e.1)
        (s.get key given).2 := by
  have hphase := hs.looking s.made (Nat.le_refl _)
  have hcalls : s.calls.advance s.made key = CacheCalls.move { s.calls with
      cache := { s.calls.cache with
        entries := (key, a) :: s.calls.cache.entries.filter fun e => !matching key e.1 } }
      s.made (.served (.ok a)) := by
    simp [CacheCalls.advance, hphase, touch, hfound]
  -- The other steps find that the call has been served.
  have hget : s.get key given = (.got (.ok a) 0, ⟨s.calls.advance s.made key, s.made + 1⟩) := by
    rw [get, hcalls]
    simp [CacheCalls.advance, CacheCalls.step, CacheCalls.move, answerAt]
  rw [hget, hcalls]
  exact ⟨rfl, rfl, rfl, hs.pending, hs.looking_of_made fun c hc => if_neg hc⟩

/-- A call that does not find its entry has registered a build when it has looked twice. -/
theorem advance_of_miss (hs : s.Idle) (hnone : s.calls.cache.peek? key = none) :
    (s.calls.advance s.made key).advance s.made key = CacheCalls.move { s.calls with
      cache := { s.calls.cache with
        pending := [(key, s.calls.cache.builds)], builds := s.calls.cache.builds + 1 } }
      s.made (.loading s.calls.cache.builds) := by
  have hphase := hs.looking s.made (Nat.le_refl _)
  have hmissed : s.calls.advance s.made key = s.calls.move s.made .missed := by
    simp [CacheCalls.advance, hphase, touch, hnone]
  have hmove : (s.calls.move s.made .missed).phase s.made = .missed := if_pos rfl
  have henter := enter_of_miss hs.pending hnone
  rw [hmissed, CacheCalls.advance, hmove]
  simp only [CacheCalls.move, henter, CacheCalls.mk.injEq, true_and, and_true]
  funext c
  split <;> rfl

theorem get_of_load (hs : s.Idle) (hnone : s.calls.cache.peek? key = none) (a : α) :
    (s.get key (.ok a)).1 = .got (.ok a) 1 ∧
      s.Leaves (((key, a) :: s.calls.cache.entries.filter fun e => !matching key e.1).take
        s.calls.cache.maxEntries.toNat) (s.get key (.ok a)).2 := by
  have hroom := Int.not_lt.2 hs.room
  rw [get, hs.advance_of_miss hnone]
  simp only [CacheCalls.advance, CacheCalls.step, CacheCalls.move, CacheCalls.tell, publish,
    answerAt, if_pos, if_neg hroom]
  refine ⟨trivial, rfl, rfl, released_eq_nil rfl, hs.looking_of_made fun c hc => ?_⟩
  simp [hc]

theorem get_of_failure (hs : s.Idle) (hnone : s.calls.cache.peek? key = none) (e : Error) :
    (s.get key (.error e)).1 = .got (.error e) 1 ∧
      s.Leaves s.calls.cache.entries (s.get key (.error e)).2 := by
  rw [get, hs.advance_of_miss hnone]
  simp only [CacheCalls.advance, CacheCalls.step, CacheCalls.move, CacheCalls.tell, withdraw,
    answerAt, if_pos]
  refine ⟨trivial, rfl, rfl, released_eq_nil rfl, hs.looking_of_made fun c hc => ?_⟩
  simp [hc]

end Idle

/-! ## Between two calls -/

/-- Between two calls, a cache has the entries of a list, and nothing is pending. -/
structure Follows (s : CacheSession α) (l : RecencyList α) : Prop where
  idle : s.Idle
  room : s.calls.cache.maxEntries = l.room
  entries : s.calls.cache.entries = l.entries
  distinct : l.entries.Pairwise fun e f => matching e.1 f.1 = false
  within : l.entries.length ≤ l.room

variable {l : RecencyList α}

theorem follows_start {maxEntries : Int} {cache : IndexCache α} (hroom : 1 ≤ maxEntries)
    (h : IndexCache.make maxEntries = .ok cache) :
    (start cache).Follows ⟨maxEntries.toNat, []⟩ := by
  rw [IndexCache.make, if_neg (by omega)] at h
  cases h
  refine ⟨⟨hroom, rfl, fun _ _ => rfl⟩, ?_, rfl, .nil, Nat.zero_le _⟩
  dsimp only [start, CacheCalls.start, empty]
  omega

namespace Follows

theorem peek?_eq (h : s.Follows l) (key : Key) :
    s.calls.cache.peek? key = (l.entries.find? (RecencyList.isOf key)).map (·.2) := by
  rw [peek?, h.entries]
  rfl

/-- A session that leaves the entries of another list follows this one. -/
theorem of_leaves (h : s.Follows l) {entries : List (Key × α)} {t : CacheSession α}
    (ht : s.Leaves entries t) (hdistinct : entries.Pairwise fun e f => matching e.1 f.1 = false)
    (hwithin : entries.length ≤ l.room) : t.Follows { l with entries } where
  idle := ⟨ht.bound ▸ h.idle.room, ht.pending, ht.looking⟩
  room := ht.bound.trans h.room
  entries := ht.entries
  distinct := hdistinct
  within := hwithin

/-- Something that makes entries go leaves a list without them. -/
theorem of_sublist (h : s.Follows l) {entries : List (Key × α)}
    (hsub : entries.Sublist l.entries) :
    (s.onCache fun cache => { cache with entries }).Follows { l with entries } where
  idle := ⟨h.idle.room, h.idle.pending, h.idle.looking⟩
  room := h.room
  entries := rfl
  distinct := h.distinct.sublist hsub
  within := Nat.le_trans hsub.length_le h.within

theorem tidy (h : s.Follows l) : s.calls.cache.Tidy where
  apart e _ p hp := by
    rw [h.idle.pending] at hp
    cases hp
  distinct := h.entries ▸ h.distinct
  within := by
    rw [h.entries, h.room]
    exact_mod_cast h.within

/-- A call for an entry comes to what it comes to in the list. -/
theorem get (h : s.Follows l) (key : Key) (given : Except Error α) :
    (s.get key given).1 = (l.get key given).1 ∧
      (s.get key given).2.Follows (l.get key given).2 := by
  have hpeek := h.peek?_eq key
  cases hfind : l.entries.find? (RecencyList.isOf key) with
  | some e =>
      rw [hfind] at hpeek
      obtain ⟨hanswer, hleaves⟩ := h.idle.get_of_hit hpeek given
      have htidy := h.tidy.hit hpeek
      have hfront := RecencyList.filter_eq_eraseP h.distinct key
      rw [h.entries, hfront] at hleaves htidy
      simp only [RecencyList.get, hfind]
      have hwithin := htidy.within
      rw [h.room] at hwithin
      exact ⟨hanswer, h.of_leaves hleaves htidy.distinct (Int.ofNat_le.1 hwithin)⟩
  | none =>
      rw [hfind] at hpeek
      cases given with
      | error e =>
          obtain ⟨hanswer, hleaves⟩ := h.idle.get_of_failure hpeek e
          rw [h.entries] at hleaves
          simp only [RecencyList.get, hfind]
          exact ⟨hanswer, h.of_leaves hleaves h.distinct h.within⟩
      | ok a =>
          obtain ⟨hanswer, hleaves⟩ := h.idle.get_of_load hpeek a
          have htidy := @Tidy.publish _ _ key a h.tidy h.idle.room 0
          rw [h.entries, RecencyList.filter_eq_self hfind, h.room, Int.toNat_natCast,
            ← RecencyList.entries_add h.within] at hleaves htidy
          have hwithin := Int.ofNat_le.1 htidy.within
          simp only [RecencyList.get, hfind]
          exact ⟨hanswer, h.of_leaves hleaves htidy.distinct hwithin⟩

/-- One call comes to what it comes to in the list. -/
theorem call (h : s.Follows l) (c : CacheCall α) :
    (s.call c).1 = (l.call c).1 ∧ (s.call c).2.Follows (l.call c).2 := by
  cases c with
  | get key given => exact h.get key given
  | invalidate key =>
      have herase := RecencyList.filter_eq_eraseP h.distinct key
      have hcache : s.onCache (·.invalidate key) =
          s.onCache fun cache =>
            { cache with entries := l.entries.eraseP (RecencyList.isOf key) } := by
        rw [onCache, onCache, invalidate, h.entries, herase]
      refine ⟨rfl, ?_⟩
      rw [CacheSession.call, hcache]
      exact h.of_sublist List.eraseP_sublist
  | clear => exact ⟨rfl, h.of_sublist (List.nil_sublist _)⟩
  | contains key =>
      refine ⟨congrArg CacheAnswer.held ?_, h⟩
      rw [contains, h.peek?_eq, Option.isSome_map, Bool.eq_iff_iff, List.find?_isSome,
        List.any_eq_true]
  | size =>
      refine ⟨congrArg CacheAnswer.counted ?_, h⟩
      rw [size, h.entries]

end Follows

/-- **A cache with one caller is a list by recency.**  Whatever is called, the answers and the runs
of loaders are those of the list, and so are the entries, of which there are never too many.
Nothing is pending between two calls. -/
theorem run_follows {maxEntries : Int} {cache : IndexCache α} (hroom : 1 ≤ maxEntries)
    (hmake : IndexCache.make maxEntries = .ok cache) (calls : List (CacheCall α)) :
    ((start cache).run calls).1 = (RecencyList.run ⟨maxEntries.toNat, []⟩ calls).1 ∧
      ((start cache).run calls).2.Follows (RecencyList.run ⟨maxEntries.toNat, []⟩ calls).2 := by
  have hstart := follows_start hroom hmake
  generalize start cache = s at hstart ⊢
  generalize (⟨maxEntries.toNat, []⟩ : RecencyList α) = l at hstart ⊢
  induction calls generalizing s l with
  | nil => exact ⟨rfl, hstart⟩
  | cons c calls ih =>
      obtain ⟨hanswer, hnext⟩ := hstart.call c
      obtain ⟨hanswers, hlast⟩ := ih _ _ hnext
      exact ⟨congrArg₂ List.cons hanswer hanswers, hlast⟩

/-- The cache has room for two entries, and a third one makes that go which was used least recently;
a failure leaves all as it was. -/
def crowdedCalls : List (CacheCall Nat) :=
  let key (n : Int) := Key.atom (.number (.ofInt n))
  [.get (key 1) (.ok 10), .get (key 2) (.ok 20), .get (key 1) (.ok 11), .contains (key 2),
    .get (key 3) (.error (.raised .value)), .get (key 3) (.ok 30), .contains (key 2),
    .invalidate (key 1), .size, .get (key 1) (.ok 12), .clear, .size]

theorem run_follows_crowdedCalls :
    IndexCache.make (α := Nat) 2 = .ok ⟨2, [], [], 0⟩ ∧
      ((start ⟨2, [], [], 0⟩).run crowdedCalls).1 =
        [.got (.ok 10) 1, .got (.ok 20) 1, .got (.ok 10) 0, .held true,
          .got (.error (.raised .value)) 1, .got (.ok 30) 1, .held false, .done, .counted 1,
          .got (.ok 12) 1, .done, .counted 0] := by
  have hfollows := run_follows (show (1 : Int) ≤ 2 by decide) rfl crowdedCalls
  exact ⟨rfl, hfollows.1⟩

end CacheSession

end MergeOnRead
