import MergeOnRead.Deletes.PositionSet
import Mathlib.Data.List.Sort

/-!
# What is left of a range of positions

`PositionSet.survivors` walks along the members of a set and along a range of positions
at once, so that its cost does not depend on the position at which the range starts.
`survivors_eq_filter` says that it gives the positions of the range that are not in the
set, in ascending order.
-/

namespace MergeOnRead.PositionSet

/-- Of an ascending list the items from a bound on are left when the smaller ones are
dropped from its front. -/
theorem mem_dropWhile_lt_iff {qs : List Nat} (hqs : qs.Pairwise (· < ·)) {start q : Nat} :
    q ∈ qs.dropWhile (· < start) ↔ q ∈ qs ∧ start ≤ q := by
  induction qs with
  | nil => simp
  | cons r qs ih =>
      obtain ⟨hr, hrest⟩ := List.pairwise_cons.1 hqs
      by_cases hlt : r < start
      · rw [List.dropWhile_cons_of_pos (by simpa using hlt), ih hrest, List.mem_cons]
        constructor
        · rintro ⟨hq, hle⟩
          exact ⟨.inr hq, hle⟩
        · rintro ⟨rfl | hq, hle⟩
          · omega
          · exact ⟨hq, hle⟩
      · rw [List.dropWhile_cons_of_neg (by simpa using hlt)]
        refine ⟨fun hq => ⟨hq, ?_⟩, And.left⟩
        rcases List.mem_cons.1 hq with rfl | hq
        · omega
        · have := hr q hq
          omega

/-- The walk along an ascending list none of whose items lies before the range. -/
theorem absent_eq_filter {qs : List Nat} {p : Nat} (count : Nat)
    (hqs : qs.Pairwise (· < ·)) (hle : ∀ q ∈ qs, p ≤ q) :
    survivors.absent qs p count =
      (List.range' p count).filter fun r => !qs.contains r := by
  induction count generalizing qs p with
  | zero => cases qs <;> rfl
  | succ count ih =>
      rw [List.range'_succ, List.filter_cons]
      cases qs with
      | nil => simp [survivors.absent, ih List.Pairwise.nil]
      | cons q qs =>
          obtain ⟨hq, hrest⟩ := List.pairwise_cons.1 hqs
          rw [survivors.absent]
          by_cases hpq : p = q
          · -- The position is deleted, and no later one is equal to it.
            subst hpq
            rw [if_pos rfl, ih hrest fun r hr => hq r hr, if_neg (by simp)]
            refine List.filter_congr fun r hr => ?_
            have hr' : p + 1 ≤ r := (List.mem_range'_1.1 hr).1
            have hne : r ≠ p := by omega
            simp [hne]
          · have hlt : ∀ r ∈ q :: qs, p + 1 ≤ r := by
              intro r hr
              have hpr := hle r hr
              rcases List.mem_cons.1 hr with rfl | hr
              · omega
              · have := hq r hr
                have := hle q (List.mem_cons_self ..)
                omega
            have hnot : p ∉ q :: qs := fun hp => by
              have := hlt p hp
              omega
            rw [if_neg hpq, ih hqs hlt, if_pos (by simpa using hnot)]

/-- The positions of a range that are not in the set are what is left of it. -/
theorem survivors_eq_filter (s : PositionSet) (start count : Nat) :
    s.survivors start count =
      (List.range' start count).filter fun p : Nat => !s.isDeleted p := by
  have hsorted : (s.positions.dropWhile (· < start)).Pairwise (· < ·) :=
    s.ascending.sublist (List.dropWhile_sublist _)
  have hbound : ∀ q ∈ s.positions.dropWhile (· < start), start ≤ q := fun q hq =>
    ((mem_dropWhile_lt_iff s.ascending).1 hq).2
  rw [survivors, absent_eq_filter count hsorted hbound]
  refine List.filter_congr fun p hp => ?_
  have hstart : start ≤ p := (List.mem_range'_1.1 hp).1
  have hiff : p ∈ s.positions.dropWhile (· < start) ↔ s.isDeleted p = true := by
    rw [mem_dropWhile_lt_iff s.ascending, isDeleted_iff]
    simp [hstart, mem_def]
  rw [Bool.eq_iff_iff]
  simpa using not_congr hiff

end MergeOnRead.PositionSet
