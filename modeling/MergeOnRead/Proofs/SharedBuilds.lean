import MergeOnRead.Proofs.CacheSafety
import MergeOnRead.Scan.ParallelRead

/-!
# Builds that are shared

Calls of one cache may begin with entries that are there already.  If all of these, and all that
loaders give, have some property for their keys, then so has every answer, whoever built it
(`CacheCalls.Settles.proceed`).  And a call goes on until it is answered, unless it waits for a
build that another call is at work on (`CacheCalls.rank_proceed`,
`CacheCalls.exists_working_of_stalls`).
-/

namespace MergeOnRead

open IndexCache

namespace CallPhase

variable {α : Type}

/-- How many steps a call takes until it is answered, and one more. -/
def rank : CallPhase α → Nat
  | .looking => 6
  | .missed => 5
  | .waiting _ | .loading _ => 4
  | .loaded _ _ => 3
  | .settled _ _ => 2
  | .served _ | .ended _ _ _ => 1

theorem rank_pos (p : CallPhase α) : 1 ≤ p.rank := by
  cases p <;> simp [rank]

theorem rank_le (p : CallPhase α) : p.rank ≤ 6 := by
  cases p <;> simp [rank]

/-- The call has begun and has no answer. -/
def isOpen : CallPhase α → Bool
  | .looking | .served _ | .ended _ _ _ => false
  | .missed | .waiting _ | .loading _ | .loaded _ _ | .settled _ _ => true

theorem isOpen_of_answer {p : CallPhase α} {r : Except Error α} (h : p.answer? = some r) :
    p.isOpen = false := by
  cases p with
  | served r' | ended b given r' => rfl
  | looking | missed | waiting b | loading b | loaded b given | settled b given => cases h

theorem isOpen_of_isAtWork {p : CallPhase α} (h : p.isAtWork = true) : p.isOpen = true := by
  cases p with
  | loading b | loaded b given | settled b given => rfl
  | looking | missed | waiting b | served r | ended b given r => cases h

end CallPhase

namespace CacheCalls

variable {α : Type} {key : Nat → Key} {maxEntries : Int} {s t : CacheCalls α} {c d : Nat}
  {given : Except Error α} {P : Key → Except Error α → Prop}

theorem sound_start_of_pending {cache : IndexCache α} (h : cache.pending = []) :
    Sound key cache.maxEntries (start cache) := by
  constructor <;> simp [start, CallPhase.build?, CallPhase.Honest, h]

/-! ## Steps of a call -/

/-- A step of a call brings it to a phase, and gives nothing new. -/
theorem exists_phase_advance (s : CacheCalls α) (c : Nat) (k : Key) :
    ∃ p, p.given? = (s.phase c).given? ∧
      ∀ d, (s.advance c k).phase d = if d = c then p else s.phase d := by
  rw [advance]
  cases hc : s.phase c with
  | looking =>
      cases s.cache.touch k with
      | mk found cache => cases found with
        | none => exact ⟨.missed, rfl, fun _ => rfl⟩
        | some a => exact ⟨.served (.ok a), rfl, fun _ => rfl⟩
  | missed =>
      cases s.cache.enter k with
      | mk found cache => cases found with
        | hit a => exact ⟨.served (.ok a), rfl, fun _ => rfl⟩
        | busy b => exact ⟨.waiting b, rfl, fun _ => rfl⟩
        | owner b => exact ⟨.loading b, rfl, fun _ => rfl⟩
  | waiting b =>
      cases hb : s.outcome b with
      | none => exact ⟨.waiting b, rfl, by simp [hb, ← hc]⟩
      | some r => exact ⟨.served r, rfl, by simp [hb, move]⟩
  | loaded b given =>
      cases given with
      | error e => exact ⟨.settled b (.error e), rfl, fun _ => rfl⟩
      | ok a =>
          cases hp : s.cache.publish k b a with
          | ok cache => exact ⟨.settled b (.ok a), rfl, by simp [hp, move]⟩
          | error e => exact ⟨.ended b (.ok a) (.error e), rfl, by simp [hp, move]⟩
  | settled b given => exact ⟨.ended b given given, rfl, fun _ => rfl⟩
  | loading b | served r | ended b given r => exact ⟨_, rfl, by simp [← hc]⟩

/-- A call that goes on takes a step of its own. -/
theorem proceed_eq (s : CacheCalls α) (key : Nat → Key) (c : Nat) (given : Except Error α) :
    (s.proceed key c given = s.advance c (key c)) ∨
      ∃ b, s.phase c = .loading b ∧ s.proceed key c given = s.move c (.loaded b given) := by
  rw [proceed]
  split
  · rename_i b hc
    refine .inr ⟨b, hc, ?_⟩
    rw [step, hc]
  · exact .inl rfl

theorem Sound.proceed (hs : s.Sound key maxEntries) :
    (s.proceed key c given).Sound key maxEntries := by
  rw [CacheCalls.proceed]
  split
  · exact hs.step _
  · exact hs.step _

theorem Sound.moves_proceed (hs : s.Sound key maxEntries) (hroom : 1 ≤ maxEntries) :
    s.Moves key (s.proceed key c given) := by
  rw [CacheCalls.proceed]
  split
  · exact hs.moves hroom _
  · exact hs.moves hroom _

theorem phase_proceed_of_ne (hd : d ≠ c) : (s.proceed key c given).phase d = s.phase d := by
  rcases s.proceed_eq key c given with h | ⟨b, hc, h⟩
  · obtain ⟨p, -, hphase⟩ := s.exists_phase_advance c (key c)
    rw [h, hphase, if_neg hd]
  · rw [h]
    exact if_neg hd

/-! ## What is given -/

/-- An answer has the property. -/
theorem Settles.answer (hs : s.Settles P key) (hsound : s.Sound key maxEntries)
    (hroom : 1 ≤ maxEntries) {r : Except Error α} (hr : (s.phase c).answer? = some r) :
    P (key c) r := by
  cases hc : s.phase c with
  | served r' =>
      rw [hc] at hr
      cases hr
      exact hs.served c r hc
  | ended b given r' =>
      rw [hc] at hr
      cases hr
      have hhonest := hsound.honest c
      rw [hc, CallPhase.Honest, refuses_eq_false hroom] at hhonest
      rw [hhonest]
      exact hs.given c given (by rw [hc]; rfl)
  | looking | missed | waiting b | loading b | loaded b given | settled b given =>
      rw [hc] at hr
      cases hr

/-- A call goes on, and its loader gives what it may give. -/
theorem Settles.proceed (hs : s.Settles P key) (hsound : s.Sound key maxEntries)
    (hroom : 1 ≤ maxEntries) (hgiven : P (key c) given) :
    (s.proceed key c given).Settles P key := by
  refine (hsound.moves_proceed hroom).settles hsound hs (fun _ _ h => h) fun d r hr => ?_
  by_cases hd : d = c
  · subst hd
    rcases s.proceed_eq key d given with h | ⟨b, hc, h⟩
    · obtain ⟨p, hgiven', hphase⟩ := s.exists_phase_advance d (key d)
      rw [h, hphase, if_pos rfl, hgiven'] at hr
      exact hs.given d r hr
    · have hloaded : (s.move d (.loaded b given)).phase d = .loaded b given := if_pos rfl
      rw [h, hloaded] at hr
      cases hr
      exact hgiven
  · rw [phase_proceed_of_ne hd] at hr
    exact hs.given d r hr

/-! ## Calls go on -/

/-- A call waits for a build, and has not been told what came out of it. -/
def Stalls (s : CacheCalls α) (c : Nat) : Prop := ∃ b, s.phase c = .waiting b ∧ s.outcome b = none

/-- A call that is not answered yet goes on, unless it stalls. -/
theorem rank_proceed (hsound : s.Sound key maxEntries) (hroom : 1 ≤ maxEntries)
    (hanswer : (s.phase c).answer? = none) (hgoes : ¬s.Stalls c) :
    ((s.proceed key c given).phase c).rank < (s.phase c).rank := by
  have hbound := hsound.bound
  rw [proceed]
  cases hc : s.phase c with
  | looking =>
      simp only [step, advance, hc]
      cases s.cache.touch (key c) with
      | mk found cache => cases found <;> simp [move, CallPhase.rank]
  | missed =>
      simp only [step, advance, hc]
      cases s.cache.enter (key c) with
      | mk found cache => cases found <;> simp [move, CallPhase.rank]
  | waiting b =>
      simp only [step, advance, hc]
      cases hb : s.outcome b with
      | none => exact absurd ⟨b, hc, hb⟩ hgoes
      | some r => simp [move, CallPhase.rank]
  | loading b => simp [step, hc, move, CallPhase.rank]
  | loaded b given' =>
      simp only [step, advance, hc]
      cases given' with
      | error e => simp [move, CallPhase.rank]
      | ok a =>
          have hfits : ¬s.cache.maxEntries < 1 := by omega
          simp [publish, hfits, move, CallPhase.rank]
  | settled b given' => simp [step, advance, hc, move, CallPhase.rank]
  | served r | ended b given' r =>
      rw [hc] at hanswer
      cases hanswer

theorem proceed_of_stalls (h : s.Stalls c) : s.proceed key c given = s := by
  obtain ⟨b, hc, hb⟩ := h
  simp only [proceed, step, advance, hc, hb]

/-- A call that stalls waits for one that is at work. -/
theorem exists_working_of_stalls (hsound : s.Sound key maxEntries) (hroom : 1 ≤ maxEntries)
    (h : s.Stalls c) : ∃ d, (s.phase d).isAtWork = true := by
  obtain ⟨b, hc, hb⟩ := h
  obtain ⟨d, hd⟩ := hsound.waited c b hc
  rw [hsound.told_own hd] at hb
  refine ⟨d, ?_⟩
  cases hphase : s.phase d with
  | loading b' | loaded b' given' | settled b' given' => rfl
  | ended b' given' r =>
      rw [hphase, CallPhase.told?, refuses_eq_false hroom] at hb
      cases hb
  | looking | missed | waiting b' | served r =>
      rw [hphase] at hd
      cases hd

end CacheCalls

end MergeOnRead
