import MergeOnRead.Deletes.CacheCalls
import Mathlib.Data.List.Pairwise

/-!
# Builds that are left pending

A call that builds an entry registers its build, and ends it when its loader has ended; those
who wait for the build are told afterwards.  One exit forgets both: a cache that has no room for
a single entry refuses what the loader gave, and the build stays pending for ever.
`builds_left_pending_iff` says that this is the only one.

Strategy:

* `CallPhase.build?`, `CallPhase.isPending` and `CallPhase.told?` say what a call that has come
  to a phase owes to the cache and to those who wait;
* `Sound` is the invariant: what is pending, and what was told, is exactly what the phases of
  the calls say, and every build belongs to one call;
* `Sound.of_move` is for the steps of a call that keeps its build, or has none
  (`Sound.of_idle`), and `Sound.register` for the one that begins a build;
* `Sound.step` and `sound_of_reachable` put them together.
-/

namespace MergeOnRead

/-! ## The operations of a cache -/

namespace IndexCache

variable {α : Type} {c d : IndexCache α} {key k : Key} {a : α} {build : Nat}

theorem matching_comm (k l : Key) : matching k l = matching l k := by
  rw [Bool.eq_iff_iff]
  simp only [matching, Bool.and_eq_true, beq_iff_eq]
  constructor <;> rintro ⟨rfl, h⟩ <;> exact ⟨rfl, h⟩

theorem eq_of_matching {k : Key} (h : matching key k = true) : k = key := by
  rw [matching, Bool.and_eq_true, beq_iff_eq] at h
  exact h.1.symm

theorem mem_of_peek?_eq_some {a : α} (h : c.peek? key = some a) : (key, a) ∈ c.entries := by
  obtain ⟨e, hfind, rfl⟩ := Option.map_eq_some_iff.1 h
  have hmatching := List.find?_some hfind
  rw [← eq_of_matching hmatching]
  exact List.mem_of_find?_eq_some hfind

/-- The builds of two caches are the same. -/
structure SameBuilds (c d : IndexCache α) : Prop where
  bound : d.maxEntries = c.maxEntries
  pending : d.pending = c.pending
  builds : d.builds = c.builds

theorem sameBuilds_touch (c : IndexCache α) (key : Key) : c.SameBuilds (c.touch key).2 := by
  rw [touch]
  split <;> exact ⟨rfl, rfl, rfl⟩

/-- A caller that enters finds an entry, or the build that is pending for its key, or registers a
new build as the only one of its key. -/
theorem enter_cases (c : IndexCache α) (key : Key) :
    (∃ a, c.peek? key = some a ∧ c.enter key = (.hit a, { c with
        entries := (key, a) :: c.entries.filter fun e => !matching key e.1 })) ∨
      (∃ build, c.enter key = (.busy build, c) ∧ (key, build) ∈ c.pending) ∨
      c.enter key = (.owner c.builds,
        { c with pending := (key, c.builds) :: c.pending, builds := c.builds + 1 }) ∧
        c.peek? key = none ∧ ∀ p ∈ c.pending, matching key p.1 = false := by
  rw [enter, touch]
  cases hpeek : c.peek? key with
  | some a => exact .inl ⟨a, rfl, rfl⟩
  | none =>
      cases hfind : c.pending.find? fun p => matching key p.1 with
      | some p =>
          have hkey : p.1 = key := eq_of_matching (by simpa using List.find?_some hfind)
          have hmem := List.mem_of_find?_eq_some hfind
          refine .inr (.inl ⟨p.2, by simp [hfind], ?_⟩)
          rwa [← hkey]
      | none => exact .inr (.inr ⟨by simp [hfind], rfl, by simpa using hfind⟩)

theorem mem_released {p : Key × Nat} :
    p ∈ c.released key build ↔ p ∈ c.pending ∧ matching key p.1 = false ∧ p.2 ≠ build := by
  simp [released]

end IndexCache

open IndexCache

/-! ## What a call owes -/

/-- A cache without room for an entry refuses what a loader gives it. -/
def IndexCache.refuses {α : Type} (maxEntries : Int) (given : Except Error α) : Bool :=
  maxEntries < 1 && given.isOk

namespace CallPhase

variable {α : Type}

/-- The build that a call has registered. -/
def build? : CallPhase α → Option Nat
  | .loading build | .loaded build _ | .settled build _ | .ended build _ _ => some build
  | .looking | .missed | .waiting _ | .served _ => none

/-- The call is at work on its build. -/
def isAtWork : CallPhase α → Bool
  | .loading _ | .loaded _ _ | .settled _ _ => true
  | .looking | .missed | .waiting _ | .served _ | .ended _ _ _ => false

/-- The build of the call is pending. -/
def isPending (maxEntries : Int) : CallPhase α → Bool
  | .loading _ | .loaded _ _ => true
  | .ended _ given _ => refuses maxEntries given
  | .looking | .missed | .waiting _ | .settled _ _ | .served _ => false

/-- What those who wait for the build of the call were told. -/
def told? (maxEntries : Int) : CallPhase α → Option (Except Error α)
  | .ended _ given _ => if refuses maxEntries given then none else some given
  | .looking | .missed | .waiting _ | .loading _ | .loaded _ _ | .settled _ _ | .served _ => none

/-- The call gives what its loader gave, unless that was refused. -/
def Honest (maxEntries : Int) : CallPhase α → Prop
  | .settled _ given => refuses maxEntries given = false
  | .ended _ given r =>
    r = if refuses maxEntries given then .error (.raised .value) else given
  | .looking | .missed | .waiting _ | .loading _ | .loaded _ _ | .served _ => True

end CallPhase

namespace CacheCalls

variable {α : Type} {key : Nat → Key} {maxEntries : Int} {s : CacheCalls α}

/-- What is pending, and what was told, is what the calls have come to. -/
structure Sound (key : Nat → Key) (maxEntries : Int) (s : CacheCalls α) : Prop where
  bound : s.cache.maxEntries = maxEntries
  fresh : ∀ c b, (s.phase c).build? = some b → b < s.cache.builds
  unique : ∀ c d b, (s.phase c).build? = some b → (s.phase d).build? = some b → c = d
  pending : ∀ k b, (k, b) ∈ s.cache.pending ↔
    ∃ c, (s.phase c).build? = some b ∧ key c = k ∧ (s.phase c).isPending maxEntries = true
  apart : s.cache.pending.Pairwise fun p q => matching p.1 q.1 = false
  told : ∀ b r, s.outcome b = some r ↔
    ∃ c, (s.phase c).build? = some b ∧ (s.phase c).told? maxEntries = some r
  waited : ∀ c b, s.phase c = .waiting b → ∃ d, (s.phase d).build? = some b
  honest : ∀ c, (s.phase c).Honest maxEntries

theorem sound_empty (key : Nat → Key) (maxEntries : Int) :
    Sound key maxEntries (start (.empty maxEntries) : CacheCalls α) := by
  constructor <;> simp [start, IndexCache.empty, CallPhase.build?, CallPhase.Honest]

theorem sound_start (key : Nat → Key) {cache : IndexCache α}
    (h : IndexCache.make maxEntries = .ok cache) : Sound key maxEntries (start cache) := by
  rw [IndexCache.make] at h
  split at h
  · cases h
  · cases h
    exact sound_empty key maxEntries

/-! ## One build -/

/-- The build of a call is pending, under the key of the call, as far as the call has come. -/
theorem Sound.pending_own (hs : s.Sound key maxEntries) {c b : Nat}
    (hc : (s.phase c).build? = some b) {k : Key} :
    (k, b) ∈ s.cache.pending ↔ key c = k ∧ (s.phase c).isPending maxEntries = true := by
  rw [hs.pending]
  constructor
  · rintro ⟨d, hd, hk, hpend⟩
    obtain rfl := hs.unique d c b hd hc
    exact ⟨hk, hpend⟩
  · rintro ⟨hk, hpend⟩
    exact ⟨c, hc, hk, hpend⟩

/-- Those who wait for the build of a call were told as far as the call has come. -/
theorem Sound.told_own (hs : s.Sound key maxEntries) {c b : Nat}
    (hc : (s.phase c).build? = some b) : s.outcome b = (s.phase c).told? maxEntries := by
  refine Option.ext fun r => ?_
  rw [hs.told]
  constructor
  · rintro ⟨d, hd, hr⟩
    obtain rfl := hs.unique d c b hd hc
    exact hr
  · intro hr
    exact ⟨c, hc, hr⟩

/-- No two builds are pending for matching keys. -/
theorem Sound.eq_of_matching (hs : s.Sound key maxEntries) {p q : Key × Nat}
    (hp : p ∈ s.cache.pending) (hq : q ∈ s.cache.pending) (h : matching p.1 q.1 = true) :
    p = q := by
  have : Std.Symm fun p q : Key × Nat => matching p.1 q.1 = false :=
    ⟨fun p q hpq => (matching_comm q.1 p.1).trans hpq⟩
  by_contra hne
  rw [hs.apart.forall hp hq hne] at h
  cases h

/-- The entry of a call at work is the only one that goes when its build ends. -/
theorem Sound.mem_released (hs : s.Sound key maxEntries) {c b : Nat}
    (hc : (s.phase c).build? = some b) (hpend : (s.phase c).isPending maxEntries = true)
    {k : Key} {d : Nat} :
    (k, d) ∈ s.cache.released (key c) b ↔ d ≠ b ∧ (k, d) ∈ s.cache.pending := by
  rw [IndexCache.mem_released]
  refine ⟨fun h => ⟨h.2.2, h.1⟩, fun ⟨hne, hmem⟩ => ⟨hmem, ?_, hne⟩⟩
  have hown : (key c, b) ∈ s.cache.pending := hs.pending_own hc |>.2 ⟨rfl, hpend⟩
  rw [Bool.eq_false_iff]
  intro h
  exact hne (Prod.mk.inj (hs.eq_of_matching hown hmem h)).2.symm

/-! ## Steps of a call -/

/-- A call that keeps its build, or has none, comes to another phase. -/
theorem Sound.of_move (hs : s.Sound key maxEntries) {t : CacheCalls α} {c : Nat}
    (hother : ∀ d, d ≠ c → t.phase d = s.phase d)
    (hbuild : (t.phase c).build? = (s.phase c).build?) (hhonest : (t.phase c).Honest maxEntries)
    (hwaits : ∀ b, t.phase c = .waiting b → ∃ d, (s.phase d).build? = some b)
    (hbound : t.cache.maxEntries = s.cache.maxEntries)
    (hbuilds : t.cache.builds = s.cache.builds)
    (hpending : ∀ k b, (k, b) ∈ t.cache.pending ↔
      if (s.phase c).build? = some b then key c = k ∧ (t.phase c).isPending maxEntries = true
      else (k, b) ∈ s.cache.pending)
    (hapart : t.cache.pending.Pairwise fun p q => matching p.1 q.1 = false)
    (htold : ∀ b, t.outcome b =
      if (s.phase c).build? = some b then (t.phase c).told? maxEntries else s.outcome b) :
    t.Sound key maxEntries := by
  have hsame : ∀ d, (t.phase d).build? = (s.phase d).build? := fun d => by
    by_cases hd : d = c
    · rw [hd, hbuild]
    · rw [hother d hd]
  -- The build of the call is that of no other call, and the other builds are those of others.
  have hown : ∀ {d b}, (s.phase c).build? = some b → (s.phase d).build? = some b → d = c :=
    fun hc hd => hs.unique _ _ _ hd hc
  have hstays : ∀ {d b}, (s.phase c).build? ≠ some b → (s.phase d).build? = some b →
      t.phase d = s.phase d := fun hc hd => hother _ fun hdc => hc (hdc ▸ hd)
  refine ⟨hbound.trans hs.bound, fun d b hd => hbuilds ▸ hs.fresh d b (hsame d ▸ hd),
    fun d e b hd he => hs.unique d e b (hsame d ▸ hd) (hsame e ▸ he), fun k b => ?_, hapart,
    fun b r => ?_, fun d b hd => ?_, fun d => ?_⟩
  · rw [hpending]
    split
    · rename_i hc
      refine ⟨fun ⟨hk, hpend⟩ => ⟨c, hsame c ▸ hc, hk, hpend⟩, ?_⟩
      rintro ⟨d, hd, hk, hpend⟩
      obtain rfl := hown hc (hsame d ▸ hd)
      exact ⟨hk, hpend⟩
    · rename_i hc
      rw [hs.pending]
      refine exists_congr fun d => ?_
      rw [hsame]
      exact and_congr_right fun hd => by rw [hstays hc hd]
  · rw [htold]
    split
    · rename_i hc
      refine ⟨fun hr => ⟨c, hsame c ▸ hc, hr⟩, ?_⟩
      rintro ⟨d, hd, hr⟩
      obtain rfl := hown hc (hsame d ▸ hd)
      exact hr
    · rename_i hc
      rw [hs.told]
      refine exists_congr fun d => ?_
      rw [hsame]
      exact and_congr_right fun hd => by rw [hstays hc hd]
  · simp only [hsame]
    by_cases hdc : d = c
    · exact hwaits b (hdc ▸ hd)
    · exact hs.waited d b (hother d hdc ▸ hd)
  · by_cases hdc : d = c
    · exact hdc ▸ hhonest
    · exact hother d hdc ▸ hs.honest d

/-- A call without a build stays without one. -/
theorem Sound.of_idle (hs : s.Sound key maxEntries) {cache : IndexCache α}
    (hcache : s.cache.SameBuilds cache) {c : Nat} {p : CallPhase α}
    (hc : (s.phase c).build? = none) (hp : p.build? = none)
    (hwaits : ∀ b, p = .waiting b → ∃ d, (s.phase d).build? = some b) :
    (CacheCalls.move { s with cache } c p).Sound key maxEntries := by
  have hmoved : (CacheCalls.move { s with cache } c p).phase c = p := if_pos rfl
  refine hs.of_move (c := c) (fun d hd => if_neg hd) (by rw [hmoved, hp, hc]) ?_
    (by rwa [hmoved]) hcache.bound hcache.builds (fun k b => ?_) ?_ fun b => ?_
  · rw [hmoved]
    cases p <;> trivial
  · simp [hc, CacheCalls.move, hcache.pending]
  · rw [show (CacheCalls.move { s with cache } c p).cache.pending = cache.pending from rfl,
      hcache.pending]
    exact hs.apart
  · simp [hc, CacheCalls.move]

/-- A call without a build begins one, as the only one of its key. -/
theorem Sound.register (hs : s.Sound key maxEntries) {c : Nat} (hc : (s.phase c).build? = none)
    (halone : ∀ p ∈ s.cache.pending, matching (key c) p.1 = false) :
    (CacheCalls.move { s with cache := { s.cache with
      pending := (key c, s.cache.builds) :: s.cache.pending, builds := s.cache.builds + 1 } }
      c (.loading s.cache.builds)).Sound key maxEntries := by
  generalize ht : CacheCalls.move _ c _ = t
  have hmoved : t.phase c = .loading s.cache.builds := by simp [← ht, CacheCalls.move]
  have hother : ∀ d, d ≠ c → t.phase d = s.phase d := fun d hd => by
    simp [← ht, CacheCalls.move, hd]
  -- The new build has a number of its own, and the other calls keep theirs.
  have hbuild : ∀ d b, (t.phase d).build? = some b ↔
      (d = c ∧ b = s.cache.builds) ∨ (s.phase d).build? = some b := fun d b => by
    by_cases hd : d = c
    · rw [hd, hmoved, hc]
      simp [CallPhase.build?, eq_comm]
    · simp [hother d hd, hd]
  have hnew : ∀ d, (s.phase d).build? ≠ some s.cache.builds := fun d hd => by
    have := hs.fresh d _ hd
    omega
  have hkept : ∀ d b, (s.phase d).build? = some b → t.phase d = s.phase d := fun d b hd =>
    hother d fun hdc => by simp [hdc, hc] at hd
  have hcache : t.cache.pending = (key c, s.cache.builds) :: s.cache.pending := by rw [← ht]; rfl
  refine ⟨by rw [← ht]; exact hs.bound, fun d b hd => ?_, fun d e b hd he => ?_, fun k b => ?_, ?_,
    fun b r => ?_, fun d b hd => ?_, fun d => ?_⟩
  · rw [show t.cache.builds = s.cache.builds + 1 by rw [← ht]; rfl]
    rcases (hbuild d b).1 hd with ⟨-, rfl⟩ | hd
    · omega
    · have := hs.fresh d b hd
      omega
  · rcases (hbuild d b).1 hd with ⟨rfl, rfl⟩ | hd <;> rcases (hbuild e _).1 he with ⟨hec, hb⟩ | he
    · exact hec.symm
    · exact absurd he (hnew e)
    · exact absurd (hb ▸ hd) (hnew d)
    · exact hs.unique d e b hd he
  · rw [hcache, List.mem_cons, Prod.mk.injEq]
    constructor
    · rintro (⟨rfl, rfl⟩ | hmem)
      · exact ⟨c, (hbuild c _).2 (.inl ⟨rfl, rfl⟩), rfl, by rw [hmoved]; rfl⟩
      · obtain ⟨d, hd, hk, hpend⟩ := (hs.pending k b).1 hmem
        exact ⟨d, (hbuild d b).2 (.inr hd), hk, by rwa [hkept d b hd]⟩
    · rintro ⟨d, hd, hk, hpend⟩
      rcases (hbuild d b).1 hd with ⟨rfl, rfl⟩ | hd
      · exact .inl ⟨hk.symm, rfl⟩
      · rw [hkept d b hd] at hpend
        exact .inr ((hs.pending k b).2 ⟨d, hd, hk, hpend⟩)
  · rw [hcache]
    exact List.pairwise_cons.2 ⟨halone, hs.apart⟩
  · rw [show t.outcome b = s.outcome b by rw [← ht]; rfl, hs.told]
    constructor
    · rintro ⟨d, hd, hr⟩
      exact ⟨d, (hbuild d b).2 (.inr hd), by rwa [hkept d b hd]⟩
    · rintro ⟨d, hd, hr⟩
      rcases (hbuild d b).1 hd with ⟨rfl, rfl⟩ | hd
      · simp [hmoved, CallPhase.told?] at hr
      · exact ⟨d, hd, by rwa [hkept d b hd] at hr⟩
  · have hdc : d ≠ c := fun hdc => by simp [hdc, hmoved] at hd
    obtain ⟨e, he⟩ := hs.waited d b (hother d hdc ▸ hd)
    exact ⟨e, (hbuild e b).2 (.inr he)⟩
  · by_cases hdc : d = c
    · rw [hdc, hmoved]
      trivial
    · exact hother d hdc ▸ hs.honest d

/-- A call with a build comes to another phase, without an effect on the cache: its build stays
pending, or stays settled, and what was told is what the phase says. -/
theorem Sound.of_work (hs : s.Sound key maxEntries) {c b : Nat} (p : CallPhase α)
    (cache : IndexCache α) (hc : (s.phase c).build? = some b) (hp : p.build? = some b)
    (hhonest : p.Honest maxEntries) (hbound : cache.maxEntries = s.cache.maxEntries)
    (hbuilds : cache.builds = s.cache.builds)
    (hpending : cache.pending = s.cache.pending ∧
        p.isPending maxEntries = (s.phase c).isPending maxEntries ∨
      cache.pending = s.cache.released (key c) b ∧
        (s.phase c).isPending maxEntries = true ∧ p.isPending maxEntries = false)
    {outcome : Nat → Option (Except Error α)}
    (htold : outcome b = p.told? maxEntries) (hothers : ∀ d, d ≠ b → outcome d = s.outcome d) :
    (CacheCalls.move ⟨cache, s.phase, outcome⟩ c p).Sound key maxEntries := by
  have hmoved : (CacheCalls.move ⟨cache, s.phase, outcome⟩ c p).phase c = p := if_pos rfl
  refine hs.of_move (c := c) (fun d hd => if_neg hd) (by rw [hmoved, hp, hc])
    (by rwa [hmoved]) ?_ hbound hbuilds (fun k d => ?_) ?_ fun d => ?_
  · rw [hmoved]
    rintro d rfl
    cases hp
  · rw [hmoved, hc, show (CacheCalls.move ⟨cache, s.phase, outcome⟩ c p).cache = cache from rfl]
    rcases hpending with ⟨hsame, hpend⟩ | ⟨hreleased, hpend, hsettled⟩
    · rw [hsame, hpend]
      split
      · rename_i hd
        cases hd
        exact hs.pending_own hc
      · rfl
    · rw [hreleased, hs.mem_released hc hpend, hsettled]
      split
      · rename_i hd
        cases hd
        simp
      · rename_i hd
        exact and_iff_right fun hdb => hd (by rw [hdb])
  · rcases hpending with ⟨hsame, -⟩ | ⟨hreleased, -⟩
    · exact (show cache.pending.Pairwise _ from hsame ▸ hs.apart)
    · refine (show cache.pending.Pairwise _ from hreleased ▸ ?_)
      exact hs.apart.sublist List.filter_sublist
  · rw [hmoved, hc, show (CacheCalls.move ⟨cache, s.phase, outcome⟩ c p).outcome = outcome from rfl]
    split
    · rename_i hd
      cases hd
      exact htold
    · rename_i hd
      exact hothers d fun hdb => hd (by rw [hdb])

/-- The cache changes, but not its builds. -/
theorem Sound.of_sameBuilds (hs : s.Sound key maxEntries) {cache : IndexCache α}
    (hcache : s.cache.SameBuilds cache) : Sound key maxEntries { s with cache } :=
  { hs with
    bound := hcache.bound.trans hs.bound
    fresh := fun c b hc => hcache.builds ▸ hs.fresh c b hc
    pending := fun k b => hcache.pending ▸ hs.pending k b
    apart := hcache.pending ▸ hs.apart }

/-- A call whose loader has ended ends its build, or leaves it pending when it is refused. -/
theorem Sound.of_loaded (hs : s.Sound key maxEntries) {c b : Nat} {given : Except Error α}
    (hc : s.phase c = .loaded b given) : (s.advance c (key c)).Sound key maxEntries := by
  have hbuild : (s.phase c).build? = some b := by
    rw [hc]
    rfl
  have hpend : (s.phase c).isPending maxEntries = true := by
    rw [hc]
    rfl
  have htold : s.outcome b = none := by
    rw [hs.told_own hbuild, hc]
    rfl
  have hbound := hs.bound
  rw [CacheCalls.advance, hc]
  cases given with
  | error e =>
      -- The loader has failed, and its build is withdrawn.
      have haccepts : refuses maxEntries (.error e : Except Error α) = false :=
        Bool.and_false _
      exact hs.of_work (.settled b (.error e)) (s.cache.withdraw (key c) b) hbuild rfl haccepts
        rfl rfl (.inr ⟨rfl, hpend, rfl⟩) htold fun _ _ => rfl
  | ok a =>
      by_cases hroom : s.cache.maxEntries < 1
      · have hrefuses : refuses maxEntries (.ok a : Except Error α) = true := by
          rw [hbound] at hroom
          simpa [refuses, Except.isOk, Except.toBool] using hroom
        -- The cache refuses the entry, and nothing ends the build.
        simp only [publish, if_pos hroom]
        refine hs.of_work (.ended b (.ok a) _) s.cache hbuild rfl ?_ rfl rfl (.inl ⟨rfl, ?_⟩) ?_
          fun _ _ => rfl
        · simp [CallPhase.Honest, hrefuses]
        · rw [hpend]
          exact hrefuses
        · simpa [CallPhase.told?, hrefuses] using htold
      · have haccepts : refuses maxEntries (.ok a : Except Error α) = false := by
          rw [hbound] at hroom
          simpa [refuses, Except.isOk, Except.toBool] using hroom
        simp only [publish, if_neg hroom]
        exact hs.of_work (.settled b (.ok a))
          { s.cache with entries := _, pending := s.cache.released (key c) b } hbuild rfl haccepts
          rfl rfl (.inr ⟨rfl, hpend, rfl⟩) htold fun _ _ => rfl

/-- A call takes its next step. -/
theorem Sound.advance (hs : s.Sound key maxEntries) (c : Nat) :
    (s.advance c (key c)).Sound key maxEntries := by
  cases hc : s.phase c with
  | looking =>
      have hsame := s.cache.sameBuilds_touch (key c)
      rw [CacheCalls.advance, hc]
      cases htouch : s.cache.touch (key c) with
      | mk found cache =>
          rw [htouch] at hsame
          cases found with
          | none => exact hs.of_idle hsame (by rw [hc]; rfl) rfl (by simp)
          | some a => exact hs.of_idle hsame (by rw [hc]; rfl) rfl (by simp)
  | missed =>
      have hidle : (s.phase c).build? = none := by
        rw [hc]
        rfl
      rw [CacheCalls.advance, hc]
      rcases s.cache.enter_cases (key c) with
        ⟨a, -, henter⟩ | ⟨build, henter, hmem⟩ | ⟨henter, -, halone⟩
      · have hsame : s.cache.SameBuilds { s.cache with
            entries := (key c, a) :: s.cache.entries.filter fun e => !matching (key c) e.1 } :=
          ⟨rfl, rfl, rfl⟩
        rw [henter]
        exact hs.of_idle hsame hidle rfl (by simp)
      · rw [henter]
        -- The build to wait for belongs to a call, as it is pending.
        obtain ⟨d, hd, -⟩ := (hs.pending (key c) build).1 hmem
        refine hs.of_idle ⟨rfl, rfl, rfl⟩ hidle rfl fun b hb => ?_
        cases hb
        exact ⟨d, hd⟩
      · rw [henter]
        exact hs.register hidle halone
  | waiting build =>
      rw [CacheCalls.advance, hc]
      cases hr : s.outcome build with
      | none => simpa [hr] using hs
      | some r =>
          simp only [hr]
          exact hs.of_idle ⟨rfl, rfl, rfl⟩ (by rw [hc]; rfl) rfl (by simp)
  | loaded build given => exact hs.of_loaded hc
  | settled build given =>
      have hhonest : refuses maxEntries given = false := by
        have hhonest := hs.honest c
        rwa [hc] at hhonest
      rw [CacheCalls.advance, hc]
      refine hs.of_work (.ended build given given) s.cache (by rw [hc]; rfl) rfl ?_ rfl rfl
        (.inl ⟨rfl, ?_⟩) ?_ fun d hd => if_neg hd
      · exact (if_neg (by simpa using hhonest)).symm
      · rw [hc]
        exact hhonest
      · simpa [CallPhase.told?] using hhonest
  | loading build => simpa [CacheCalls.advance, hc] using hs
  | served r => simpa [CacheCalls.advance, hc] using hs
  | ended build given r => simpa [CacheCalls.advance, hc] using hs

/-- Every step leaves a sound state. -/
theorem Sound.step (hs : s.Sound key maxEntries) (e : CacheEvent α) :
    (s.step key e).Sound key maxEntries := by
  cases e with
  | advance c => exact hs.advance c
  | load c given =>
      rw [CacheCalls.step]
      split
      · rename_i build hc
        have hbuild : (s.phase c).build? = some build := by
          rw [hc]
          rfl
        refine hs.of_work (.loaded build given) s.cache hbuild rfl trivial rfl rfl
          (.inl ⟨rfl, ?_⟩) ?_ fun _ _ => rfl
        · rw [hc]
          rfl
        · rw [hs.told_own hbuild, hc]
          rfl
      · exact hs
  | invalidate k => exact hs.of_sameBuilds ⟨rfl, rfl, rfl⟩
  | clear => exact hs.of_sameBuilds ⟨rfl, rfl, rfl⟩

theorem Sound.run (hs : s.Sound key maxEntries) (events : List (CacheEvent α)) :
    (s.run key events).Sound key maxEntries := by
  induction events generalizing s with
  | nil => exact hs
  | cons e events ih => exact ih (hs.step e)

/-! ## Reachable states -/

/-- A state that calls with these keys can come to, from an empty cache with this bound.  The bound
may be negative, though `IndexCache.make` refuses it. -/
def Reachable (key : Nat → Key) (maxEntries : Int) (s : CacheCalls α) : Prop :=
  ∃ events, s = (start (.empty maxEntries)).run key events

/-- All states of a cache that was made are among them. -/
theorem reachable_of_make {cache : IndexCache α} (h : IndexCache.make maxEntries = .ok cache)
    (events : List (CacheEvent α)) : ((start cache).run key events).Reachable key maxEntries := by
  rw [IndexCache.make] at h
  split at h
  · cases h
  · cases h
    exact ⟨events, rfl⟩

theorem sound_of_reachable (h : s.Reachable key maxEntries) : s.Sound key maxEntries := by
  obtain ⟨events, rfl⟩ := h
  exact (sound_empty key maxEntries).run events

/-- **A build is left pending exactly when its entry does not fit.**  When a call that has
registered a build ends, the build is still pending, and those who wait for it are never told, if
and only if the cache has room for no entry and the loader gave one; otherwise they are told what
the call gives.  Nobody waits for any other build that no call is at work on.  The bound may be any
number. -/
theorem builds_left_pending_iff (h : s.Reachable key maxEntries) :
    (∀ c b given r, s.phase c = .ended b given r →
      ((∃ k, (k, b) ∈ s.cache.pending) ↔ maxEntries < 1 ∧ ∃ a, given = .ok a) ∧
      (s.outcome b = none ↔ maxEntries < 1 ∧ ∃ a, given = .ok a) ∧
      ∀ told, s.outcome b = some told → told = r) ∧
    ∀ c b, s.phase c = .waiting b → s.outcome b = none →
      (∃ d, (s.phase d).build? = some b ∧ (s.phase d).isAtWork = true) ∨
        maxEntries < 1 ∧ ∃ d a r, s.phase d = .ended b (.ok a) r := by
  have hs := sound_of_reachable h
  have hrefuses : ∀ given : Except Error α,
      refuses maxEntries given = true ↔ maxEntries < 1 ∧ ∃ a, given = .ok a := fun given => by
    cases given <;> simp [refuses, Except.isOk, Except.toBool]
  constructor
  · intro c b given r hc
    have hbuild : (s.phase c).build? = some b := by
      rw [hc]
      rfl
    have hhonest := hs.honest c
    rw [← hrefuses, hs.told_own hbuild]
    simp only [hs.pending_own hbuild, hc] at hhonest ⊢
    cases hrefused : refuses maxEntries given with
    | true => simp [CallPhase.isPending, CallPhase.told?, hrefused]
    | false =>
        simp only [CallPhase.Honest, hrefused] at hhonest
        simp [CallPhase.isPending, CallPhase.told?, hrefused, hhonest]
  · intro c b hc htold
    obtain ⟨d, hd⟩ := hs.waited c b hc
    rw [hs.told_own hd] at htold
    cases hphase : s.phase d with
    | loading build => exact .inl ⟨d, hd, by rw [hphase]; rfl⟩
    | loaded build given => exact .inl ⟨d, hd, by rw [hphase]; rfl⟩
    | settled build given => exact .inl ⟨d, hd, by rw [hphase]; rfl⟩
    | ended build given r =>
        rw [hphase] at hd htold
        cases hd
        -- The call has ended without telling anybody, so that its entry was refused.
        have hrefused : refuses maxEntries given = true := by
          simpa [CallPhase.told?] using htold
        obtain ⟨hroom, a, rfl⟩ := (hrefuses given).1 hrefused
        exact .inr ⟨hroom, d, a, r, hphase⟩
    | looking | missed | waiting | served =>
        rw [hphase] at hd
        cases hd

/-- Two calls of one key, of a cache without room for an entry. -/
def refusedBuild : CacheCalls String :=
  run (fun _ => default) (start ⟨0, [], [], 0⟩)
    [.advance 0, .advance 0, .load 0 (.ok "index"), .advance 0, .advance 1, .advance 1]

/-- The first call has ended, its build is pending still, and the second call waits for it. -/
theorem refusedBuild_left_pending :
    (∃ r, refusedBuild.phase 0 = .ended 0 (.ok "index") r) ∧
      (∃ k, (k, 0) ∈ refusedBuild.cache.pending) ∧ refusedBuild.phase 1 = .waiting 0 := by
  have hreachable : refusedBuild.Reachable (fun _ => default) 0 := reachable_of_make rfl _
  have hends := (builds_left_pending_iff hreachable).1 0 0 (.ok "index") _ rfl
  exact ⟨⟨_, rfl⟩, hends.1.2 ⟨by decide, "index", rfl⟩, rfl⟩

end CacheCalls

end MergeOnRead
