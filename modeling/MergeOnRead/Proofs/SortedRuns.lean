import MergeOnRead.Proofs.SortedMerges

/-!
# Sorting orders

A list of items that have different ranks, and are compared by rank, is sorted by rank
(`Sorting.exists_sort_eq`).

Strategy:

* a run that is cut off is sorted one way or the other (`exists_splitRun`), and insertion keeps it
  sorted while it is lengthened (`exists_foldlM_insert`);
* `Waiting.Sound` says that the runs that wait are sorted and share no rank; merges of neighbours
  keep it (`exists_mergeLast`, `exists_mergeMiddle`), as does another run (`exists_push`);
* every merge of two neighbours leaves one run less, until there is one (`exists_mergeAll`).
-/

namespace MergeOnRead.Sorting

variable {ε α β : Type} [LinearOrder β] {less : Less ε α} {rank : α → β} {w : Waiting α}

theorem exists_insert {sorted : Array α} {x : α} (hranks : Ranks less rank (sorted.toList ++ [x]))
    (h : IsSortedBy rank sorted.toList) : ∃ sorted',
      insert less sorted x = .ok sorted' ∧ IsSortedBy rank sorted'.toList := by
  have hx : x ∈ sorted.toList ++ [x] := by simp
  obtain ⟨near, far, hsplit, hnear, hfar, hplace⟩ := h.exists_splitsAt (less x)
    (fun z hz => hranks.ne_of_append hz (List.mem_singleton_self x))
    (fun z hz => hranks.less_eq_false hx (List.mem_append_left _ hz))
    (fun z hz => hranks.less_eq_true hx (List.mem_append_left _ hz))
  have hsize : near.length ≤ sorted.size := by
    rw [← Array.length_toList, hsplit]
    simp
  rw [insert, (hplace _ ?_).halve_eq .forward 0 sorted.size (Nat.zero_le _) (by omega) (by simp),
    ok_bind]
  swap
  · intro i z hz
    rw [Array.getElem?_toList] at hz
    simp only [hz]
  refine ⟨_, rfl, ?_⟩
  rw [toList_insert, hsplit, List.take_left, List.drop_left]
  rw [hsplit] at h
  obtain ⟨hnearSorted, hfarSorted, hbetween⟩ := List.pairwise_append.1 h
  refine List.pairwise_append.2 ⟨hnearSorted, List.pairwise_cons.2 ⟨hfar, hfarSorted⟩, ?_⟩
  intro z hz w hw
  rcases List.mem_cons.1 hw with rfl | hw
  · exact hnear z hz
  · exact hbetween z hz w hw

theorem exists_foldlM_insert {sorted : Array α} {xs : List α}
    (hranks : Ranks less rank (sorted.toList ++ xs)) (h : IsSortedBy rank sorted.toList) :
    ∃ sorted', xs.foldlM (insert less) sorted = .ok sorted' ∧ IsSortedBy rank sorted'.toList := by
  induction xs generalizing sorted with
  | nil => exact ⟨sorted, rfl, h⟩
  | cons x xs ih =>
      have hfirst : Ranks less rank (sorted.toList ++ [x]) :=
        hranks.mono (List.Sublist.append_left (by simp) _).subperm
      obtain ⟨next, hnext, hsorted⟩ := exists_insert hfirst h
      rw [List.foldlM_cons, hnext, ok_bind]
      refine ih (hranks.mono ?_) hsorted
      have hstep := (perm_insert hnext).append_right xs
      rw [List.append_assoc] at hstep
      exact hstep.subperm

/-- A run is sorted one way or the other. -/
theorem exists_splitRun {x : α} {xs : List α} (hranks : Ranks less rank (x :: xs))
    (descending : Bool) : ∃ run rest, splitRun less descending x xs = .ok (x :: run, rest) ∧
      (descending = false → IsSortedBy rank (x :: run)) ∧
      (descending = true → IsSortedBy (fun z => OrderDual.toDual (rank z)) (x :: run)) := by
  induction xs generalizing x with
  | nil =>
      exact ⟨[], [], rfl, fun _ => List.pairwise_singleton .., fun _ => List.pairwise_singleton ..⟩
  | cons y xs ih =>
      have hne : rank x ≠ rank y := hranks.ne_of_cons (List.mem_cons_self ..)
      obtain ⟨isLess, hless, hiff⟩ := hranks.compares y (by simp) x (by simp) hne.symm
      rw [splitRun, hless, ok_bind]
      by_cases hgoes : isLess = descending
      · obtain ⟨run, rest, hsplit, hup, hdown⟩ :=
          ih (hranks.mono (List.sublist_cons_self x _).subperm)
        rw [if_pos hgoes, hsplit]
        refine ⟨y :: run, rest, rfl, fun hdir => ?_, fun hdir => ?_⟩
        · have hlt : rank x < rank y := by
            refine lt_of_le_of_ne (le_of_not_gt fun hgt => ?_) hne
            rw [hiff.2 hgt, hdir] at hgoes
            cases hgoes
          refine List.pairwise_cons.2 ⟨fun z hz => ?_, hup hdir⟩
          rcases List.mem_cons.1 hz with rfl | hz
          · exact hlt
          · exact hlt.trans ((List.pairwise_cons.1 (hup hdir)).1 z hz)
        · have hlt : rank y < rank x := hiff.1 (hgoes.trans hdir)
          refine List.pairwise_cons.2 ⟨fun z hz => ?_, hdown hdir⟩
          rcases List.mem_cons.1 hz with rfl | hz
          · exact hlt
          · have hzy : rank z < rank y := (List.pairwise_cons.1 (hdown hdir)).1 z hz
            exact hzy.trans hlt
      · rw [if_neg hgoes]
        exact ⟨[], y :: xs, rfl, fun _ => List.pairwise_singleton ..,
          fun _ => List.pairwise_singleton ..⟩

theorem exists_firstRun {xs : List α} (hranks : Ranks less rank xs) : ∃ run rest,
    firstRun less xs = .ok (run, rest) ∧ IsSortedBy rank run := by
  match xs with
  | [] => exact ⟨[], [], rfl, List.Pairwise.nil⟩
  | [x] => exact ⟨[x], [], rfl, List.pairwise_singleton ..⟩
  | x :: y :: xs =>
      have hne : rank x ≠ rank y := hranks.ne_of_cons (List.mem_cons_self ..)
      obtain ⟨descending, hless, -⟩ := hranks.compares y (by simp) x (by simp) hne.symm
      -- The first comparison only says which way the run goes, and so it belongs to the run.
      obtain ⟨run, rest, hsplit, hup, hdown⟩ := exists_splitRun hranks descending
      rw [splitRun, hless, ok_bind, if_pos rfl] at hsplit
      obtain ⟨⟨run', rest'⟩, hsplit', hsplit⟩ := bind_eq_ok_iff.1 hsplit
      cases hsplit
      rw [firstRun, hless, ok_bind, hsplit', ok_bind]
      cases descending with
      | true => exact ⟨_, _, rfl, List.pairwise_reverse.2 (hdown rfl)⟩
      | false => exact ⟨_, _, rfl, hup rfl⟩

/-- Runs that wait are sorted, and no two items have the same rank. -/
structure Waiting.Sound (less : Less ε α) (rank : α → β) (w : Waiting α) : Prop where
  ranks : Ranks less rank w.items
  sorted : ∀ r ∈ w.runs, IsSortedBy rank r.items

namespace Waiting.Sound

theorem empty {limit : Nat} : Sound less rank ⟨[], limit⟩ := ⟨⟨List.nodup_nil, nofun⟩, nofun⟩

theorem exists_mergeLast (h : w.Sound less rank) : ∃ w', mergeLast less w = .ok w' ∧
    w'.Sound less rank ∧ (2 ≤ w.runs.length → w'.runs.length + 1 = w.runs.length) := by
  obtain ⟨runs, limit⟩ := w
  match runs with
  | [] | [_] => exact ⟨_, rfl, h, by simp⟩
  | last :: middle :: rest =>
      have hpair : Ranks less rank (middle.items ++ last.items) := by
        refine h.ranks.mono ?_
        simp only [items, List.flatMap_cons, ← List.append_assoc]
        exact List.perm_append_comm.subperm.trans (List.sublist_append_left _ _).subperm
      obtain ⟨limit', merged, hmerge, hsorted⟩ :=
        exists_merge hpair (h.sorted middle (by simp)) (h.sorted last (by simp)) limit
      have hstep : mergeLast less ⟨last :: middle :: rest, limit⟩ =
          .ok ⟨⟨merged, last.depth⟩ :: rest, limit'⟩ := by
        rw [mergeLast.eq_def]
        dsimp only
        rw [hmerge]
        rfl
      refine ⟨_, hstep, ⟨h.ranks.mono (perm_mergeLast hstep).subperm, ?_⟩, by simp⟩
      intro r hr
      rcases List.mem_cons.1 hr with rfl | hr
      · exact hsorted
      · exact h.sorted r (by simp [hr])

theorem exists_mergeMiddle (h : w.Sound less rank) : ∃ w', mergeMiddle less w = .ok w' ∧
    w'.Sound less rank ∧ (2 ≤ w.runs.length → w'.runs.length + 1 = w.runs.length) := by
  obtain ⟨runs, limit⟩ := w
  match runs with
  | [] | [_] | [_, _] => exact h.exists_mergeLast
  | last :: middle :: first :: rest =>
      by_cases hshort : first.items.length < last.items.length
      · have hpair : Ranks less rank (first.items ++ middle.items) := by
          refine h.ranks.mono ?_
          simp only [items, List.flatMap_cons, ← List.append_assoc]
          refine List.perm_append_comm.subperm.trans (List.Sublist.subperm ?_)
          rw [List.append_assoc last.items]
          exact (List.sublist_append_right _ _).trans (List.sublist_append_left _ _)
        obtain ⟨limit', merged, hmerge, hsorted⟩ :=
          exists_merge hpair (h.sorted first (by simp)) (h.sorted middle (by simp)) limit
        have hstep : mergeMiddle less ⟨last :: middle :: first :: rest, limit⟩ =
            .ok ⟨last :: ⟨merged, middle.depth⟩ :: rest, limit'⟩ := by
          rw [mergeMiddle.eq_def]
          dsimp only
          rw [if_pos hshort, hmerge]
          rfl
        refine ⟨_, hstep, ⟨h.ranks.mono (perm_mergeMiddle hstep).subperm, ?_⟩, by simp⟩
        intro r hr
        simp only [List.mem_cons] at hr
        rcases hr with rfl | rfl | hr
        · exact h.sorted _ (by simp)
        · exact hsorted
        · exact h.sorted r (by simp [hr])
      · have hstep : mergeMiddle less ⟨last :: middle :: first :: rest, limit⟩ =
            mergeLast less ⟨last :: middle :: first :: rest, limit⟩ := by
          rw [mergeMiddle.eq_def]
          dsimp only
          rw [if_neg hshort]
        rw [hstep]
        exact h.exists_mergeLast

theorem exists_settle (h : w.Sound less rank) (depth fuel : Nat) : ∃ w',
    settle less depth fuel w = .ok w' ∧ w'.Sound less rank := by
  induction fuel generalizing w with
  | zero => exact ⟨w, rfl, h⟩
  | succ fuel ih =>
      rw [settle]
      split
      · split
        · obtain ⟨w', hmerge, hsound, -⟩ := h.exists_mergeLast
          rw [hmerge, ok_bind]
          exact ih hsound
        · exact ⟨w, rfl, h⟩
      · exact ⟨w, rfl, h⟩

theorem exists_push (h : w.Sound less rank) {items : List α} (hsorted : IsSortedBy rank items)
    (hranks : Ranks less rank (items ++ w.items)) (total : Nat) : ∃ w',
      push less total items w = .ok w' ∧ w'.Sound less rank := by
  have hpush : ∃ w', push less total items w = .ok w' ∧ ∀ r ∈ w'.runs, IsSortedBy rank r.items := by
    rw [push.eq_def]
    split
    · exact ⟨_, rfl, by simpa using hsorted⟩
    · dsimp only
      generalize boundaryDepth total (total + 1) _ _ = depth
      obtain ⟨w', hsettle, hsound⟩ := h.exists_settle depth w.runs.length
      rw [hsettle, ok_bind]
      split
      · exact ⟨_, rfl, by simpa using hsorted⟩
      · rename_i last rest hruns
        refine ⟨_, rfl, fun r hr => ?_⟩
        simp only [List.mem_cons] at hr
        rcases hr with rfl | rfl | hr
        · exact hsorted
        · exact hsound.sorted last (by simp [hruns])
        · exact hsound.sorted r (by simp [hruns, hr])
  obtain ⟨w', heq, hruns⟩ := hpush
  exact ⟨w', heq, hranks.mono (perm_push heq).subperm, hruns⟩

/-- Every merge of two neighbours leaves one run less, until there is one. -/
theorem exists_mergeAll (h : w.Sound less rank) {fuel : Nat} (hfuel : w.runs.length ≤ fuel) :
    ∃ ys, mergeAll less fuel w = .ok ys ∧ IsSortedBy rank ys := by
  induction fuel generalizing w with
  | zero =>
      have hruns : w.runs = [] := List.eq_nil_of_length_eq_zero (by omega)
      exact ⟨[], by rw [mergeAll, hruns]; rfl, List.Pairwise.nil⟩
  | succ fuel ih =>
      rw [mergeAll]
      split
      · exact ⟨[], rfl, List.Pairwise.nil⟩
      · rename_i run hruns
        exact ⟨run.items, rfl, h.sorted run (by simp [hruns])⟩
      · rename_i hnone hone
        have hmany : 2 ≤ w.runs.length := by
          rcases hruns : w.runs with _ | ⟨run, _ | ⟨next, rest⟩⟩
          · exact absurd hruns hnone
          · exact absurd hruns (hone run)
          · simp
        obtain ⟨w', hmerge, hsound, hless⟩ := h.exists_mergeMiddle
        rw [hmerge, ok_bind]
        exact ih hsound (by have := hless hmany; omega)

theorem exists_collect (h : w.Sound less rank) {xs : List α}
    (hranks : Ranks less rank (xs ++ w.items)) (total least fuel : Nat) : ∃ w',
      collect less total least fuel xs w = .ok w' ∧ w'.Sound less rank := by
  induction fuel generalizing xs w with
  | zero => exact ⟨w, rfl, h⟩
  | succ fuel ih =>
      cases xs with
      | nil => exact ⟨w, rfl, h⟩
      | cons x xs =>
          obtain ⟨run, rest, hrun, hsorted⟩ := exists_firstRun
            (hranks.mono (List.sublist_append_left (x :: xs) w.items).subperm)
          rw [collect.eq_def]
          dsimp only
          rw [hrun, ok_bind]
          dsimp only
          generalize least - run.length = short
          -- What is taken off the list and what is left of it are the items of the list.
          have hitems : (run ++ rest.take short ++ (rest.drop short ++ w.items)).Perm
              (x :: xs ++ w.items) := by
            rw [← List.append_assoc, List.append_assoc run, List.take_append_drop]
            exact (perm_firstRun hrun).append_right _
          have hall := hranks.mono hitems.subperm
          have hmany : Ranks less rank (run.toArray.toList ++ rest.take short) :=
            hall.mono (List.sublist_append_left _ _).subperm
          obtain ⟨lengthened, hlengthened, hlong⟩ := exists_foldlM_insert hmany hsorted
          have htaken : lengthened.toList.Perm (run ++ rest.take short) :=
            perm_foldlM_insert hlengthened
          have hcommon : (rest.drop short ++ (lengthened.toList ++ w.items)).Perm
              (x :: xs ++ w.items) := by
            refine List.Perm.trans ?_ hitems
            rw [← List.append_assoc, ← List.append_assoc]
            exact (List.perm_append_comm.trans (htaken.append_right _)).append_right _
          obtain ⟨w', hpush, hsound⟩ := h.exists_push hlong
            (hranks.mono ((List.sublist_append_right _ _).subperm.trans hcommon.subperm)) total
          rw [hlengthened, ok_bind, hpush, ok_bind]
          exact ih hsound (hranks.mono
            (((perm_push hpush).append_left _).trans hcommon).subperm)

end Waiting.Sound

/-- **Sorting orders.**  A list of items with different ranks, which are compared by rank, is
sorted by rank. -/
theorem exists_sort_eq {xs : List α} (h : Ranks less rank xs) : ∃ ys,
    sort less xs = .ok ys ∧ ys.Perm xs ∧ IsSortedBy rank ys := by
  have hsort : ∃ ys, sort less xs = .ok ys ∧ IsSortedBy rank ys := by
    rw [sort]
    split
    · rename_i hshort
      refine ⟨xs, rfl, ?_⟩
      rcases xs with _ | ⟨x, _ | ⟨y, xs⟩⟩
      · exact List.Pairwise.nil
      · exact List.pairwise_singleton ..
      · simp at hshort
    · have hitems : Ranks less rank (xs ++ Waiting.items (α := α) ⟨[], Merging.worth⟩) := by
        simpa [Waiting.items] using h
      obtain ⟨w, hcollect, hsound⟩ :=
        Waiting.Sound.empty.exists_collect hitems xs.length (leastRun xs.length xs.length false)
          xs.length
      dsimp only
      rw [hcollect, ok_bind]
      exact hsound.exists_mergeAll (Nat.le_refl _)
  obtain ⟨ys, heq, hsorted⟩ := hsort
  exact ⟨ys, heq, sort_perm heq, hsorted⟩

end MergeOnRead.Sorting
