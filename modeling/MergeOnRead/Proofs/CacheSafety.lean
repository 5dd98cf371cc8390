import MergeOnRead.Proofs.CacheBuilds
import Mathlib.Data.List.Induction

/-!
# What callers of one cache can rely on

Calls of one cache, each with a key, take their steps in any order, while entries are forgotten now
and then.  `CacheCalls.safe_run` says what holds at any time, as long as the cache has room for an
entry: no two loaders of one key run at the same time, and none runs while the key has an entry; an
entry is what a loader of its key gave; and a call ends with what a loader of its key gave, namely
that of its own build or of the build that it has waited for.

Strategy:

* `Moves` lists all that a step can be, with what it finds and what it leaves, and `moves_step` says
  that there is nothing else;
* `Settles` is the invariant of entries and answers, beside `Sound`, the invariant of builds: they
  have what the loaders of their keys gave.  A step needs only what is given in it
  (`Moves.settles`), and what a loader gave stays known (`Moves.gave`);
* what a call has waited for is not in the state any more when the call has ended.
  `Awaits` follows it from the time when the call waits, and `exists_waiting_of_served` goes back
  to that time.
-/

namespace MergeOnRead

open IndexCache

namespace CallPhase

variable {α : Type}

/-- What the loader of a call gave. -/
def given? : CallPhase α → Option (Except Error α)
  | .loaded _ given | .settled _ given | .ended _ given _ => some given
  | .looking | .missed | .waiting _ | .loading _ | .served _ => none

/-- The call has registered a build and has neither published nor withdrawn it. -/
def isBuilding : CallPhase α → Bool
  | .loading _ | .loaded _ _ => true
  | .looking | .missed | .waiting _ | .settled _ _ | .served _ | .ended _ _ _ => false

end CallPhase

namespace CacheCalls

variable {α : Type} {key : Nat → Key} {maxEntries : Int} {s t : CacheCalls α}

/-! ## What a step can be -/

/-- What can become of the calls in one step. -/
inductive Moves (key : Nat → Key) (s : CacheCalls α) : CacheCalls α → Prop where
  | rest : Moves key s s
  | forget {entries : List (Key × α)} (h : entries.Sublist s.cache.entries) :
      Moves key s { s with cache := { s.cache with entries } }
  | miss {c : Nat} (hc : s.phase c = .looking) : Moves key s (s.move c .missed)
  | hit {c : Nat} {a : α} (hc : s.phase c = .looking ∨ s.phase c = .missed)
      (hfound : s.cache.peek? (key c) = some a) :
      Moves key s (CacheCalls.move { s with cache := { s.cache with
        entries := (key c, a) :: s.cache.entries.filter fun e => !matching (key c) e.1 } }
        c (.served (.ok a)))
  | wait {c b : Nat} (hc : s.phase c = .missed) (hbusy : (key c, b) ∈ s.cache.pending) :
      Moves key s (s.move c (.waiting b))
  | register {c : Nat} (hc : s.phase c = .missed) (hnone : s.cache.peek? (key c) = none)
      (halone : ∀ p ∈ s.cache.pending, matching (key c) p.1 = false) :
      Moves key s (CacheCalls.move { s with cache := { s.cache with
        pending := (key c, s.cache.builds) :: s.cache.pending, builds := s.cache.builds + 1 } }
        c (.loading s.cache.builds))
  | answer {c b : Nat} {r : Except Error α} (hc : s.phase c = .waiting b)
      (hr : s.outcome b = some r) : Moves key s (s.move c (.served r))
  | load {c b : Nat} (hc : s.phase c = .loading b) (given : Except Error α) :
      Moves key s (s.move c (.loaded b given))
  | publish {c b : Nat} {a : α} (hc : s.phase c = .loaded b (.ok a)) :
      Moves key s (CacheCalls.move { s with cache := { s.cache with
        entries := ((key c, a) :: s.cache.entries.filter fun e => !matching (key c) e.1).take
          s.cache.maxEntries.toNat
        pending := s.cache.released (key c) b } } c (.settled b (.ok a)))
  | withdraw {c b : Nat} {e : Error} (hc : s.phase c = .loaded b (.error e)) :
      Moves key s (CacheCalls.move { s with cache := { s.cache with
        pending := s.cache.released (key c) b } } c (.settled b (.error e)))
  | tell {c b : Nat} {given : Except Error α} (hc : s.phase c = .settled b given) :
      Moves key s ((s.tell b given).move c (.ended b given given))

theorem moves_advance (hroom : 1 ≤ s.cache.maxEntries) (c : Nat) :
    s.Moves key (s.advance c (key c)) := by
  rw [advance]
  cases hc : s.phase c with
  | looking =>
      rw [touch]
      cases hpeek : s.cache.peek? (key c) with
      | none => exact .miss hc
      | some a => exact .hit (.inl hc) hpeek
  | missed =>
      rcases s.cache.enter_cases (key c) with
        ⟨a, hpeek, henter⟩ | ⟨b, henter, hbusy⟩ | ⟨henter, hnone, halone⟩
      · rw [henter]
        exact .hit (.inr hc) hpeek
      · rw [henter]
        exact .wait hc hbusy
      · rw [henter]
        exact .register hc hnone halone
  | waiting b =>
      cases hr : s.outcome b with
      | none => simpa [hr] using .rest
      | some r => simpa [hr] using .answer hc hr
  | loaded b given =>
      cases given with
      | ok a =>
          simp only [IndexCache.publish, if_neg (Int.not_lt.2 hroom)]
          exact .publish hc
      | error e => exact .withdraw hc
  | settled b given => exact .tell hc
  | loading b | served r | ended b given r => exact .rest

/-- Nothing else can happen while the cache has room for an entry. -/
theorem moves_step (hroom : 1 ≤ s.cache.maxEntries) (e : CacheEvent α) :
    s.Moves key (s.step key e) := by
  cases e with
  | advance c => exact moves_advance hroom c
  | load c given =>
      rw [step]
      split
      · rename_i b hc
        exact .load hc given
      · exact .rest
  | invalidate k => exact .forget List.filter_sublist
  | clear => exact .forget (List.nil_sublist _)

end CacheCalls

/-! ## Entries -/

namespace IndexCache

variable {α : Type} {c : IndexCache α} {key : Key} {a : α}

/-- No entry is being built, no key has two entries, and there are not too many of them. -/
structure Tidy (c : IndexCache α) : Prop where
  apart : ∀ e ∈ c.entries, ∀ p ∈ c.pending, matching e.1 p.1 = false
  distinct : c.entries.Pairwise fun e f => matching e.1 f.1 = false
  within : (c.entries.length : Int) ≤ c.maxEntries

theorem Tidy.forget (h : c.Tidy) {entries : List (Key × α)} (hsub : entries.Sublist c.entries) :
    Tidy { c with entries } where
  apart e he := h.apart e (hsub.subset he)
  distinct := h.distinct.sublist hsub
  within := by
    have := hsub.length_le
    have := h.within
    dsimp only
    omega

theorem Tidy.release (h : c.Tidy) (build : Nat) :
    Tidy { c with pending := c.released key build } where
  apart e he p hp := h.apart e he p (mem_released.1 hp).1
  distinct := h.distinct
  within := h.within

theorem Tidy.register (h : c.Tidy) (hnone : c.peek? key = none) : Tidy { c with
    pending := (key, c.builds) :: c.pending, builds := c.builds + 1 } where
  apart e he p hp := by
    rcases List.mem_cons.1 hp with rfl | hp
    · rw [peek?, Option.map_eq_none_iff, List.find?_eq_none] at hnone
      rw [matching_comm]
      simpa using hnone e he
    · exact h.apart e he p hp
  distinct := h.distinct
  within := h.within

/-- An entry that goes to the front leaves no other one of its key. -/
theorem Tidy.distinct_front (h : c.Tidy) (key : Key) (a : α) :
    ((key, a) :: c.entries.filter fun e => !matching key e.1).Pairwise
      fun e f => matching e.1 f.1 = false := by
  refine List.pairwise_cons.2 ⟨fun e he => ?_, h.distinct.sublist List.filter_sublist⟩
  simpa using (List.mem_filter.1 he).2

theorem Tidy.hit (h : c.Tidy) (hfound : c.peek? key = some a) : Tidy { c with
    entries := (key, a) :: c.entries.filter fun e => !matching key e.1 } where
  apart e he p hp := by
    rcases List.mem_cons.1 he with rfl | he
    · exact h.apart _ (mem_of_peek?_eq_some hfound) p hp
    · exact h.apart e (List.mem_filter.1 he).1 p hp
  distinct := h.distinct_front key a
  within := by
    -- The entry was among those that are filtered.
    obtain ⟨e, he, -⟩ := Option.map_eq_some_iff.1 hfound
    have hfewer : (c.entries.filter fun e => !matching key e.1).length < c.entries.length :=
      List.length_filter_lt_length_iff_exists.2
        ⟨e, List.mem_of_find?_eq_some he, by simpa using List.find?_some he⟩
    have := h.within
    simp only [List.length_cons]
    omega

theorem Tidy.publish (h : c.Tidy) (hroom : 1 ≤ c.maxEntries) (build : Nat) : Tidy { c with
    entries := ((key, a) :: c.entries.filter fun e => !matching key e.1).take c.maxEntries.toNat
    pending := c.released key build } where
  apart e he p hp := by
    obtain ⟨hp, hother, -⟩ := mem_released.1 hp
    rcases List.mem_cons.1 (List.mem_of_mem_take he) with rfl | he
    · exact hother
    · exact h.apart e (List.mem_filter.1 he).1 p hp
  distinct := (h.distinct_front key a).sublist (List.take_sublist ..)
  within := by
    have := List.length_take_le c.maxEntries.toNat
      ((key, a) :: c.entries.filter fun e => !matching key e.1)
    dsimp only
    omega

end IndexCache

namespace CacheCalls

variable {α : Type} {key : Nat → Key} {maxEntries : Int} {s t : CacheCalls α}

theorem Moves.tidy (h : s.Moves key t) (hroom : 1 ≤ s.cache.maxEntries) (hs : s.cache.Tidy) :
    t.cache.Tidy := by
  cases h with
  | rest | miss _ | wait _ _ | answer _ _ | load _ _ | tell _ => exact hs
  | forget hsub => exact hs.forget hsub
  | hit _ hfound => exact hs.hit hfound
  | register _ hnone _ => exact hs.register hnone
  | publish _ => exact hs.publish hroom _
  | withdraw _ => exact hs.release _

/-! ## Answers -/

/-- What a call has come to stays: its build, what its loader gave, and its answer. -/
structure Keeps (p q : CallPhase α) : Prop where
  build : ∀ b, p.build? = some b → q.build? = some b
  given : ∀ r, p.given? = some r → q.given? = some r
  served : ∀ r, p = .served r → q = .served r

namespace Keeps

variable {b : Nat} {given r : Except Error α}

theorem refl (p : CallPhase α) : Keeps p p := ⟨fun _ h => h, fun _ h => h, fun _ h => h⟩

/-- A call without a build and without an answer may come to any phase. -/
theorem of_idle {p : CallPhase α} (hbuild : p.build? = none) (hgiven : p.given? = none)
    (hserved : ∀ r, p ≠ .served r) (q : CallPhase α) : Keeps p q where
  build b h := by rw [hbuild] at h; cases h
  given r h := by rw [hgiven] at h; cases h
  served r h := absurd h (hserved r)

theorem of_looking (q : CallPhase α) : Keeps .looking q :=
  of_idle rfl rfl (fun _ h => by cases h) q

theorem of_missed (q : CallPhase α) : Keeps .missed q := of_idle rfl rfl (fun _ h => by cases h) q

theorem of_waiting (q : CallPhase α) : Keeps (.waiting b) q :=
  of_idle rfl rfl (fun _ h => by cases h) q

theorem loaded : Keeps (.loading b) (.loaded b given) :=
  ⟨fun _ h => h, fun _ h => (by cases h), fun _ h => (by cases h)⟩

theorem settled : Keeps (.loaded b given) (.settled b given) :=
  ⟨fun _ h => h, fun _ h => h, fun _ h => (by cases h)⟩

theorem ended : Keeps (.settled b given) (.ended b given r) :=
  ⟨fun _ h => h, fun _ h => h, fun _ h => (by cases h)⟩

end Keeps

/-- At most one call comes to another phase. -/
theorem Moves.exists_phase (h : s.Moves key t) :
    ∃ c q, Keeps (s.phase c) q ∧ ∀ d, t.phase d = if d = c then q else s.phase d := by
  cases h with
  | rest | forget _ =>
      refine ⟨0, s.phase 0, .refl _, fun d => ?_⟩
      split
      · rename_i hd
        rw [hd]
      · rfl
  | miss hc => exact ⟨_, _, hc ▸ .of_looking _, fun _ => rfl⟩
  | hit hc _ =>
      rcases hc with hc | hc
      · exact ⟨_, _, hc ▸ .of_looking _, fun _ => rfl⟩
      · exact ⟨_, _, hc ▸ .of_missed _, fun _ => rfl⟩
  | wait hc _ => exact ⟨_, _, hc ▸ .of_missed _, fun _ => rfl⟩
  | register hc _ _ => exact ⟨_, _, hc ▸ .of_missed _, fun _ => rfl⟩
  | answer hc _ => exact ⟨_, _, hc ▸ .of_waiting _, fun _ => rfl⟩
  | load hc _ => exact ⟨_, _, hc ▸ .loaded, fun _ => rfl⟩
  | publish hc | withdraw hc => exact ⟨_, _, hc ▸ .settled, fun _ => rfl⟩
  | tell hc => exact ⟨_, _, hc ▸ .ended, fun _ => rfl⟩

theorem Moves.keeps (h : s.Moves key t) (d : Nat) : Keeps (s.phase d) (t.phase d) := by
  obtain ⟨c, q, hkeeps, hphase⟩ := h.exists_phase
  rw [hphase]
  by_cases hd : d = c
  · simpa [hd] using hkeeps
  · simpa [hd] using .refl _

/-- A loader of a key gave something. -/
def Gave (key : Nat → Key) (s : CacheCalls α) (k : Key) (r : Except Error α) : Prop :=
  ∃ c, key c = k ∧ (s.phase c).given? = some r

theorem Moves.gave (h : s.Moves key t) {k : Key} {r : Except Error α} (hr : s.Gave key k r) :
    t.Gave key k r := by
  obtain ⟨c, hk, hc⟩ := hr
  exact ⟨c, hk, (h.keeps c).given r hc⟩

/-- What was told stays. -/
theorem Moves.told (hs : s.Sound key maxEntries) (h : s.Moves key t) {b : Nat}
    {r : Except Error α} (hr : s.outcome b = some r) : t.outcome b = some r := by
  cases h with
  | @tell c d given hc =>
      -- Nobody has been told of the build that ends.
      have hne : b ≠ d := by
        rintro rfl
        rw [hs.told_own (c := c) (by rw [hc]; rfl), hc] at hr
        cases hr
      simpa [move, CacheCalls.tell, hne] using hr
  | _ => exact hr

/-- Those who wait are told what the loader gave. -/
theorem given_of_told {p : CallPhase α} {r : Except Error α} (h : p.told? maxEntries = some r) :
    p.given? = some r := by
  cases p with
  | ended b given r' =>
      rw [CallPhase.told?] at h
      split at h
      · cases h
      · exact h
  | _ => cases h

/-- A call that waits does so for a build of its key. -/
theorem Moves.waits (hsound : s.Sound key maxEntries) (h : s.Moves key t)
    (hs : ∀ c b, s.phase c = .waiting b → ∃ d, (s.phase d).build? = some b ∧ key d = key c) :
    ∀ c b, t.phase c = .waiting b → ∃ d, (t.phase d).build? = some b ∧ key d = key c := by
  intro c b hc
  -- A call that moves to another phase than waiting is not the one in question.
  have hstays : ∀ {u : CacheCalls α} {d : Nat} {q : CallPhase α}, u.phase = s.phase →
      (u.move d q).phase c = .waiting b → q ≠ .waiting b → s.phase c = .waiting b := by
    intro u d q hphase hc hq
    rw [← hphase]
    by_cases hcd : c = d
    · exact absurd ((if_pos hcd).symm.trans hc) hq
    · exact (if_neg hcd).symm.trans hc
  have hbuild : s.phase c = .waiting b ∨ (key c, b) ∈ s.cache.pending := by
    cases h with
    | rest | forget _ => exact .inl hc
    | @wait d b' _ hbusy =>
        by_cases hcd : c = d
        · subst hcd
          cases (if_pos rfl).symm.trans hc
          exact .inr hbusy
        · exact .inl ((if_neg hcd).symm.trans hc)
    | miss _ | hit _ _ | register _ _ _ | answer _ _ | load _ _ | publish _ | withdraw _ | tell _ =>
        exact .inl (hstays rfl hc nofun)
  have howner : ∃ d, (s.phase d).build? = some b ∧ key d = key c := by
    rcases hbuild with hc | hbusy
    · exact hs c b hc
    · obtain ⟨d, hd, hkey, -⟩ := (hsound.pending (key c) b).1 hbusy
      exact ⟨d, hd, hkey⟩
  obtain ⟨d, hd, hkey⟩ := howner
  exact ⟨d, (h.keeps d).build b hd, hkey⟩

/-- Entries, what loaders gave and the answers of calls have a property for their keys, and a call
waits for a build of its key. -/
structure Settles (P : Key → Except Error α → Prop) (key : Nat → Key) (s : CacheCalls α) :
    Prop where
  entries : ∀ e ∈ s.cache.entries, P e.1 (.ok e.2)
  given : ∀ c r, (s.phase c).given? = some r → P (key c) r
  served : ∀ c r, s.phase c = .served r → P (key c) r
  waits : ∀ c b, s.phase c = .waiting b → ∃ d, (s.phase d).build? = some b ∧ key d = key c

theorem settles_start {cache : IndexCache α} (h : ∀ e ∈ cache.entries, P e.1 (.ok e.2)) :
    Settles P key (start cache) :=
  ⟨h, fun _ _ hr => (by cases hr), fun _ _ hr => (by cases hr), fun _ _ hb => (by cases hb)⟩

/-- What a step leaves has a property, if what was there has it and what was given. -/
theorem Moves.settles {P Q : Key → Except Error α → Prop} (hsound : s.Sound key maxEntries)
    (h : s.Moves key t) (hs : s.Settles P key) (hmore : ∀ k r, P k r → Q k r)
    (hgiven : ∀ c r, (t.phase c).given? = some r → Q (key c) r) : t.Settles Q key := by
  have hwaits := h.waits hsound hs.waits
  have hentries : ∀ e ∈ s.cache.entries, Q e.1 (.ok e.2) := fun e he => hmore _ _ (hs.entries e he)
  have hserved : ∀ c r, s.phase c = .served r → Q (key c) r :=
    fun c r hc => hmore _ _ (hs.served c r hc)
  -- An answer is new only if the call that moves is answered.
  have hmoved : ∀ {u : CacheCalls α} {c : Nat} {q : CallPhase α}, u.phase = s.phase →
      (∀ r, q = .served r → Q (key c) r) →
        ∀ d r, (u.move c q).phase d = .served r → Q (key d) r := by
    intro u c q hphase hq d r hd
    rw [move, hphase] at hd
    by_cases hdc : d = c
    · exact hdc ▸ hq r ((if_pos hdc).symm.trans hd)
    · exact hserved d r ((if_neg hdc).symm.trans hd)
  cases h with
  | rest => exact ⟨hentries, hgiven, hserved, hwaits⟩
  | forget hsub => exact ⟨fun e he => hentries e (hsub.subset he), hgiven, hserved, hwaits⟩
  | miss _ | wait _ _ | register _ _ _ | load _ _ | withdraw _ | tell _ =>
      exact ⟨hentries, hgiven, hmoved rfl fun _ hr => (by cases hr), hwaits⟩
  | @hit c a _ hfound =>
      have hmem := mem_of_peek?_eq_some hfound
      refine ⟨fun e he => ?_, hgiven, hmoved rfl fun r hr => ?_, hwaits⟩
      · rcases List.mem_cons.1 he with rfl | he
        · exact hentries _ hmem
        · exact hentries e (List.mem_filter.1 he).1
      · cases hr
        exact hentries _ hmem
  | @answer c b r hc hr =>
      refine ⟨hentries, hgiven, hmoved rfl fun r' hr' => ?_, hwaits⟩
      cases hr'
      -- The build that the call has waited for is that of a call which has ended.
      obtain ⟨d, hd, hkey⟩ := hs.waits c b hc
      rw [hsound.told_own hd] at hr
      exact hkey ▸ hmore _ _ (hs.given d r (given_of_told hr))
  | @publish c b a hc =>
      refine ⟨fun e he => ?_, hgiven, hmoved rfl fun _ hr => (by cases hr), hwaits⟩
      rcases List.mem_cons.1 (List.mem_of_mem_take he) with rfl | he
      · exact hmore _ _ (hs.given c _ (by rw [hc]; rfl))
      · exact hentries e (List.mem_filter.1 he).1

/-- Entries and answers are what loaders of their keys gave, and a call waits for a build of its
key. -/
structure Truthful (key : Nat → Key) (s : CacheCalls α) : Prop where
  entries : ∀ e ∈ s.cache.entries, s.Gave key e.1 (.ok e.2)
  waits : ∀ c b, s.phase c = .waiting b → ∃ d, (s.phase d).build? = some b ∧ key d = key c
  returns : ∀ c a, s.phase c = .served (.ok a) → s.Gave key (key c) (.ok a)

theorem Settles.truthful (hs : s.Settles (s.Gave key) key) : s.Truthful key :=
  ⟨hs.entries, hs.waits, fun c a hc => hs.served c (.ok a) hc⟩

/-! ## Calls that wait -/

/-- A call waits for a build, or was answered what came out of it. -/
def Awaits (s : CacheCalls α) (c b : Nat) : Prop :=
  s.phase c = .waiting b ∨ ∃ r, s.phase c = .served r ∧ s.outcome b = some r

theorem Moves.awaits (hsound : s.Sound key maxEntries) (h : s.Moves key t) {c b : Nat}
    (hc : s.Awaits c b) : t.Awaits c b := by
  rcases hc with hc | ⟨r, hc, hr⟩
  · -- A call that waits can only be answered.
    have hwaits : ∀ {d : Nat} {p q : CallPhase α}, s.phase d = p → p ≠ .waiting b →
        (if c = d then q else s.phase c) = .waiting b := by
      intro d p q hd hp
      by_cases hcd : c = d
      · exact absurd (hd.symm.trans (hcd ▸ hc)) hp
      · rw [if_neg hcd, hc]
    cases h with
    | rest | forget _ => exact .inl hc
    | @answer d b' r hd hr =>
        by_cases hcd : c = d
        · subst hcd
          obtain rfl : b = b' := by simpa [hc] using hd
          exact .inr ⟨r, if_pos rfl, hr⟩
        · exact .inl ((if_neg hcd).trans hc)
    | hit hd _ =>
        rcases hd with hd | hd
        · exact .inl (hwaits hd nofun)
        · exact .inl (hwaits hd nofun)
    | miss hd | wait hd _ | register hd _ _ | load hd _ | publish hd | withdraw hd | tell hd =>
        exact .inl (hwaits hd nofun)
  · exact .inr ⟨r, (h.keeps c).served r hc, h.told hsound hr⟩

/-- Only a call that waits is answered with an error. -/
theorem Moves.waiting_of_served (h : s.Moves key t) {c : Nat} {e : Error}
    (hc : t.phase c = .served (.error e)) :
    s.phase c = .served (.error e) ∨ ∃ b, s.phase c = .waiting b := by
  have hstays : ∀ {u : CacheCalls α} {d : Nat} {q : CallPhase α},
      (u.move d q).phase c = .served (.error e) → u.phase = s.phase → q ≠ .served (.error e) →
        s.phase c = .served (.error e) := by
    intro u d q hc hphase hq
    rw [← hphase]
    by_cases hcd : c = d
    · exact absurd ((if_pos hcd).symm.trans hc) hq
    · exact (if_neg hcd).symm.trans hc
  cases h with
  | rest | forget _ => exact .inl hc
  | @answer d b r hd _ =>
      by_cases hcd : c = d
      · exact .inr ⟨b, hcd ▸ hd⟩
      · exact .inl ((if_neg hcd).symm.trans hc)
  | miss _ | hit _ _ | wait _ _ | register _ _ _ | load _ _ | publish _ | withdraw _ | tell _ =>
      exact .inl (hstays hc rfl nofun)

/-! ## Runs -/

variable {cache : IndexCache α}

theorem run_concat (s : CacheCalls α) (events : List (CacheEvent α)) (e : CacheEvent α) :
    s.run key (events ++ [e]) = (s.run key events).step key e := by
  rw [run, List.foldl_append]
  rfl

theorem run_append (s : CacheCalls α) (before after : List (CacheEvent α)) :
    s.run key (before ++ after) = (s.run key before).run key after := by
  rw [run, List.foldl_append]
  rfl

/-- A step of a sound state, in a cache with room for an entry, is one of the moves. -/
theorem Sound.moves (hs : s.Sound key maxEntries) (hroom : 1 ≤ maxEntries) (e : CacheEvent α) :
    s.Moves key (s.step key e) :=
  moves_step (hs.bound.symm ▸ hroom) e

theorem Sound.run_induction (hs : s.Sound key maxEntries) (hroom : 1 ≤ maxEntries)
    {P : CacheCalls α → Prop} (hP : P s)
    (hstep : ∀ t u, t.Sound key maxEntries → t.Moves key u → P t → P u)
    (events : List (CacheEvent α)) : P (s.run key events) := by
  induction events generalizing s with
  | nil => exact hP
  | cons e events ih => exact ih (hs.step e) (hstep s _ hs (hs.moves hroom e) hP)

theorem tidy_run (hmake : IndexCache.make maxEntries = .ok cache) (hroom : 1 ≤ maxEntries)
    (events : List (CacheEvent α)) : ((start cache).run key events).cache.Tidy := by
  refine (sound_start key hmake).run_induction (P := fun s => s.cache.Tidy) hroom ?_
    (fun t u ht hmoves htidy => ?_) events
  · rw [IndexCache.make, if_neg (by omega)] at hmake
    cases hmake
    exact ⟨fun e he => absurd he List.not_mem_nil, .nil, by simp [start, empty]; omega⟩
  · exact hmoves.tidy (ht.bound.symm ▸ hroom) htidy

theorem truthful_run (key : Nat → Key) (hmake : IndexCache.make maxEntries = .ok cache)
    (hroom : 1 ≤ maxEntries) (events : List (CacheEvent α)) :
    ((start cache).run key events).Truthful key := by
  refine Settles.truthful ((sound_start key hmake).run_induction
    (P := fun s => s.Settles (s.Gave key) key) hroom ?_ (fun t u ht hmoves h => ?_) events)
  · rw [IndexCache.make, if_neg (by omega)] at hmake
    cases hmake
    exact settles_start fun e he => absurd he List.not_mem_nil
  · exact hmoves.settles ht h (fun k r => hmoves.gave) fun c r hr => ⟨c, rfl, hr⟩

/-- A call that was answered with an error has waited for a build at some time before. -/
theorem exists_waiting_of_served (hmake : IndexCache.make maxEntries = .ok cache)
    (hroom : 1 ≤ maxEntries) (events : List (CacheEvent α)) {c : Nat} {e : Error}
    (hc : ((start cache).run key events).phase c = .served (.error e)) :
    ∃ before after b, events = before ++ after ∧
      ((start cache).run key before).phase c = .waiting b := by
  induction events using List.reverseRecOn with
  | nil => cases hc
  | append_singleton events event ih =>
      have hsound := (sound_start key hmake).run events
      have hmoves := hsound.moves hroom event
      rw [run_concat] at hc
      rcases hmoves.waiting_of_served hc with hc | ⟨b, hc⟩
      · obtain ⟨before, after, b, rfl, hb⟩ := ih hc
        exact ⟨before, after ++ [event], b, List.append_assoc .., hb⟩
      · exact ⟨events, [event], b, rfl, hc⟩

/-! ## Safety -/

/-- A call has waited for a build at some time. -/
def Waited (key : Nat → Key) (cache : IndexCache α) (events : List (CacheEvent α)) (c b : Nat) :
    Prop :=
  ∃ before after, events = before ++ after ∧
    ((start cache).run key before).phase c = .waiting b

/-- What callers of a cache can rely on after some steps. -/
structure Safe (key : Nat → Key) (cache : IndexCache α) (events : List (CacheEvent α))
    (s : CacheCalls α) : Prop where
  /-- At most one call of a key is at its build, from its registration to its end. -/
  alone : ∀ c d, (s.phase c).isBuilding = true → (s.phase d).isBuilding = true →
    matching (key c) (key d) = true → c = d
  pending : ∀ k b, (k, b) ∈ s.cache.pending ↔
    ∃ c, key c = k ∧ (s.phase c).build? = some b ∧ (s.phase c).isBuilding = true
  registered : ∀ c d b, (s.phase c).build? = some b → (s.phase d).build? = some b → c = d
  /-- No entry is being built, no key has two entries, and there are not too many of them. -/
  tidy : s.cache.Tidy
  bound : s.cache.maxEntries = cache.maxEntries
  entries : ∀ e ∈ s.cache.entries, s.Gave key e.1 (.ok e.2)
  /-- A build that fails leaves the entries as they are. -/
  failed : ∀ c b e, s.phase c = .loaded b (.error e) →
    (s.step key (.advance c)).cache.entries = s.cache.entries
  returns : ∀ c a, s.phase c = .served (.ok a) → s.Gave key (key c) (.ok a)
  raises : ∀ c e, s.phase c = .served (.error e) → ∃ b, Waited key cache events c b
  own : ∀ c b given r, s.phase c = .ended b given r → r = given
  /-- A call that has waited waits still, or it gets what the build came to, of which there is one
  call with the same key. -/
  waited : ∀ c b, Waited key cache events c b → ∃ d, key d = key c ∧
    (s.phase d).build? = some b ∧
      (s.phase c = .waiting b ∨ ∃ r, s.phase c = .served r ∧ s.phase d = .ended b r r)
  agree : ∀ c c' b r r', Waited key cache events c b → Waited key cache events c' b →
    s.phase c = .served r → s.phase c' = .served r' → r = r'

theorem refuses_eq_false (hroom : 1 ≤ maxEntries) (given : Except Error α) :
    refuses maxEntries given = false := by
  rw [refuses, decide_eq_false (by omega), Bool.false_and]

theorem isPending_eq_isBuilding (hroom : 1 ≤ maxEntries) (p : CallPhase α) :
    p.isPending maxEntries = p.isBuilding := by
  cases p with
  | ended b given r => exact refuses_eq_false hroom given
  | _ => rfl

theorem exists_build_of_isBuilding {p : CallPhase α} (h : p.isBuilding = true) :
    ∃ b, p.build? = some b := by
  cases p with
  | loading b | loaded b _ => exact ⟨b, rfl⟩
  | _ => cases h

/-- With room for an entry, a call whose build was told has ended with what was told. -/
theorem Sound.ended_of_told (hs : s.Sound key maxEntries) (hroom : 1 ≤ maxEntries) {d b : Nat}
    {r : Except Error α} (hd : (s.phase d).build? = some b) (hr : s.outcome b = some r) :
    s.phase d = .ended b r r := by
  rw [hs.told_own hd] at hr
  have hhonest := hs.honest d
  cases hphase : s.phase d with
  | ended b' given r' =>
      rw [hphase] at hd hr hhonest
      rw [CallPhase.told?, refuses_eq_false hroom] at hr
      rw [CallPhase.Honest, refuses_eq_false hroom] at hhonest
      cases hd
      cases hr
      cases hhonest
      rfl
  | _ =>
      rw [hphase] at hr
      cases hr

/-- What a call has waited for is the build of one call of its key, which has ended when the call
was answered. -/
theorem exists_owner_of_waited (hmake : IndexCache.make maxEntries = .ok cache)
    (hroom : 1 ≤ maxEntries) {events : List (CacheEvent α)} {c b : Nat}
    (h : Waited key cache events c b) :
    ∃ d, key d = key c ∧ (((start cache).run key events).phase d).build? = some b ∧
      (((start cache).run key events).phase c = .waiting b ∨
        ∃ r, ((start cache).run key events).phase c = .served r ∧
          ((start cache).run key events).phase d = .ended b r r) := by
  obtain ⟨before, after, rfl, hc⟩ := h
  obtain ⟨d, hd, hkey⟩ := (truthful_run key hmake hroom before).waits c b hc
  have hs := (sound_start key hmake).run (before ++ after)
  rw [run_append] at hs ⊢
  obtain ⟨hawaits, hd⟩ := ((sound_start key hmake).run before).run_induction
    (P := fun s => s.Awaits c b ∧ (s.phase d).build? = some b) hroom ⟨.inl hc, hd⟩
    (fun t u ht hmoves h => ⟨hmoves.awaits ht h.1, (hmoves.keeps d).build b h.2⟩) after
  refine ⟨d, hkey, hd, hawaits.imp_right ?_⟩
  rintro ⟨r, hc, hr⟩
  exact ⟨r, hc, hs.ended_of_told hroom hd hr⟩

theorem exists_ended_of_waited (hmake : IndexCache.make maxEntries = .ok cache)
    (hroom : 1 ≤ maxEntries) {events : List (CacheEvent α)} {c b : Nat} {r : Except Error α}
    (h : Waited key cache events c b)
    (hc : ((start cache).run key events).phase c = .served r) :
    ∃ d, ((start cache).run key events).phase d = .ended b r r := by
  obtain ⟨d, -, -, hwaits | ⟨r', hr', hphase⟩⟩ := exists_owner_of_waited hmake hroom h
  · rw [hwaits] at hc
    cases hc
  · rw [hr'] at hc
    cases hc
    exact ⟨d, hphase⟩

/-- **Callers of one cache are safe**, whatever the order of their steps, as long as the cache has
room for an entry. -/
theorem safe_run (hmake : IndexCache.make maxEntries = .ok cache) (hroom : 1 ≤ maxEntries)
    (events : List (CacheEvent α)) : Safe key cache events ((start cache).run key events) := by
  have hs := (sound_start key hmake).run events
  have htruthful := truthful_run key hmake hroom events
  have hpending : ∀ k b, (k, b) ∈ ((start cache).run key events).cache.pending ↔
      ∃ c, key c = k ∧ (((start cache).run key events).phase c).build? = some b ∧
        (((start cache).run key events).phase c).isBuilding = true := by
    intro k b
    simp only [hs.pending, isPending_eq_isBuilding hroom]
    exact exists_congr fun c => and_left_comm
  exact
    { alone := fun c d hc hd hkeys => by
        obtain ⟨b, hb⟩ := exists_build_of_isBuilding hc
        obtain ⟨b', hb'⟩ := exists_build_of_isBuilding hd
        have heq := hs.eq_of_matching ((hpending _ b).2 ⟨c, rfl, hb, hc⟩)
          ((hpending _ b').2 ⟨d, rfl, hb', hd⟩) hkeys
        obtain ⟨-, rfl⟩ := Prod.mk.inj heq
        exact hs.unique c d b hb hb'
      pending := hpending
      registered := hs.unique
      tidy := tidy_run hmake hroom events
      bound := hs.bound.trans (sound_start key hmake).bound.symm
      entries := htruthful.entries
      failed := fun c b e hc => by
        rw [step, advance, hc]
        rfl
      returns := htruthful.returns
      raises := fun c e hc => by
        obtain ⟨before, after, b, hevents, hb⟩ := exists_waiting_of_served hmake hroom events hc
        exact ⟨b, before, after, hevents, hb⟩
      own := fun c b given r hc => by
        have hhonest := hs.honest c
        rw [hc, CallPhase.Honest, refuses_eq_false hroom] at hhonest
        exact hhonest
      waited := fun c b h => exists_owner_of_waited hmake hroom h
      agree := fun c c' b r r' h h' hr hr' => by
        obtain ⟨d, hd⟩ := exists_ended_of_waited hmake hroom h hr
        obtain ⟨d', hd'⟩ := exists_ended_of_waited hmake hroom h' hr'
        obtain rfl := hs.unique d d' b (by rw [hd]; rfl) (by rw [hd']; rfl)
        rw [hd] at hd'
        cases hd'
        rfl }

/-! ## A build that fails -/

/-- Three calls of one key: the first one fails, the second one waits for it, and the third one
comes later. -/
def retriedBuild : List (CacheEvent String) :=
  [.advance 0, .advance 0, .advance 1, .advance 1, .load 0 (.error .blocked), .advance 0,
    .advance 0, .advance 1, .advance 2, .advance 2, .load 2 (.ok "index"), .advance 2, .advance 2]

theorem safe_run_retriedBuild :
    IndexCache.make 1 = .ok (⟨1, [], [], 0⟩ : IndexCache String) ∧ (1 : Int) ≤ 1 ∧
      Safe (fun _ => default) ⟨1, [], [], 0⟩ retriedBuild
        ((start ⟨1, [], [], 0⟩).run (fun _ => default) retriedBuild) := by
  have hmake : IndexCache.make 1 = .ok (⟨1, [], [], 0⟩ : IndexCache String) := rfl
  exact ⟨hmake, by decide, safe_run hmake (by decide) retriedBuild⟩

/-- The second call gets the error of the first one, and the entry is that of the third one. -/
example :
    let s := (start ⟨1, [], [], 0⟩).run (fun _ => default) retriedBuild
    s.phase 1 = .served (.error .blocked) ∧ s.cache.entries = [(default, "index")] ∧
      s.cache.pending = [] := by
  exact ⟨rfl, rfl, rfl⟩

end CacheCalls

end MergeOnRead
