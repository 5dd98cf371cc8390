import MergeOnRead.Proofs.Results
import MergeOnRead.Sorting.Runs
import Mathlib.Data.List.Perm.Basic

/-!
# Sorting rearranges

Whatever the order of the items says, and though it may contradict itself, a list that is sorted
holds the items it held before (`Sorting.sort_perm`).

Strategy:

* `Merging.items` are the items of a merge under way, whether merged or still to come; every way to
  take some of them rearranges these (`perm_oneByOne`, `perm_leaps`), and so does the merge to its
  end (`perm_run`);
* `Waiting.items` are the items of the runs that wait; merging two neighbours rearranges them
  (`perm_mergeLast`, `perm_mergeMiddle`), and another run adds its own (`perm_push`);
* `perm_collect`: each round takes the first run off the list, so the rounds are enough for all
  items.
-/

namespace MergeOnRead.Sorting

open scoped List

variable {ε α : Type} {less : Less ε α}

/-! ## Merges -/

namespace Merging

variable {m m' : Merging α} {direction : Direction} {limit limit' : Nat}

/-- All items, merged or still to come. -/
def items (m : Merging α) : List α := m.done ++ (m.aside ++ m.giving)

theorem perm_takeAside (count : Nat) (m : Merging α) : (m.takeAside count).items.Perm m.items := by
  have hsplit : ((m.aside.take count).reverse ++ m.aside.drop count).Perm m.aside := by
    simpa using (List.reverse_perm (m.aside.take count)).append_right (m.aside.drop count)
  calc (m.aside.take count).reverse ++ m.done ++ (m.aside.drop count ++ m.giving)
      _ ~ m.done ++ (m.aside.take count).reverse ++ (m.aside.drop count ++ m.giving) :=
        List.perm_append_comm.append_right _
      _ = m.done ++ ((m.aside.take count).reverse ++ m.aside.drop count ++ m.giving) := by simp
      _ ~ m.done ++ (m.aside ++ m.giving) := (hsplit.append_right _).append_left _

theorem perm_takeGiving (count : Nat) (m : Merging α) :
    (m.takeGiving count).items.Perm m.items := by
  have hsplit : ((m.giving.take count).reverse ++ m.giving.drop count).Perm m.giving := by
    simpa using (List.reverse_perm (m.giving.take count)).append_right (m.giving.drop count)
  calc (m.giving.take count).reverse ++ m.done ++ (m.aside ++ m.giving.drop count)
      _ ~ m.done ++ (m.giving.take count).reverse ++ (m.aside ++ m.giving.drop count) :=
        List.perm_append_comm.append_right _
      _ = m.done ++ ((m.giving.take count).reverse ++ (m.aside ++ m.giving.drop count)) := by simp
      _ ~ m.done ++ (m.aside ++ ((m.giving.take count).reverse ++ m.giving.drop count)) :=
        List.perm_append_comm_assoc _ _ _ |>.append_left _
      _ ~ m.done ++ (m.aside ++ m.giving) := (hsplit.append_left _).append_left _

theorem perm_settle (m : Merging α) : m.settle.Perm m.items := by
  refine (List.reverse_perm m.done).append ?_
  cases m.giving with
  | nil => simp
  | cons y ys => exact List.perm_append_comm

theorem perm_oneByOne {fuel asideWins givingWins : Nat}
    (h : oneByOne less limit fuel asideWins givingWins m = .ok m') : m'.items.Perm m.items := by
  induction fuel generalizing asideWins givingWins m with
  | zero =>
      cases h
      exact .refl _
  | succ fuel ih =>
      rw [oneByOne] at h
      split at h
      · obtain ⟨passes, -, h⟩ := bind_eq_ok_iff.1 h
        -- The next item of one of the two runs is taken, and the merge ends or goes on.
        cases passes with
        | true =>
            refine List.Perm.trans ?_ (perm_takeGiving 1 m)
            rw [if_pos rfl] at h
            split at h
            · cases h
              exact .refl _
            · exact ih h
        | false =>
            refine List.Perm.trans ?_ (perm_takeAside 1 m)
            rw [if_neg (by decide)] at h
            split at h
            · cases h
              exact .refl _
            · exact ih h
      · cases h
        exact .refl _

theorem perm_leapAside {count : Nat} (h : leapAside direction less m = .ok (count, m')) :
    m'.items.Perm m.items := by
  rw [leapAside] at h
  split at h
  · obtain ⟨n, -, h⟩ := bind_eq_ok_iff.1 h
    cases h
    refine List.Perm.trans ?_ (perm_takeAside count m)
    split
    · exact .refl _
    · exact perm_takeGiving 1 _
  · cases h
    exact .refl _

theorem perm_leapGiving {count : Nat} (h : leapGiving direction less m = .ok (count, m')) :
    m'.items.Perm m.items := by
  rw [leapGiving] at h
  split at h
  · obtain ⟨n, -, h⟩ := bind_eq_ok_iff.1 h
    cases h
    refine List.Perm.trans ?_ (perm_takeGiving count m)
    split
    · exact .refl _
    · exact perm_takeAside 1 _
  · cases h
    exact .refl _

theorem perm_leaps {fuel : Nat} (h : leaps direction less fuel limit m = .ok (limit', m')) :
    m'.items.Perm m.items := by
  induction fuel generalizing limit m with
  | zero =>
      cases h
      exact .refl _
  | succ fuel ih =>
      unfold leaps at h
      obtain ⟨⟨i, m₁⟩, hfirst, h⟩ := bind_eq_ok_iff.1 h
      obtain ⟨⟨j, m₂⟩, hsecond, h⟩ := bind_eq_ok_iff.1 h
      have hturn : m₂.items.Perm m.items := by
        cases direction with
        | forward => exact (perm_leapGiving hsecond).trans (perm_leapAside hfirst)
        | backward => exact (perm_leapAside hsecond).trans (perm_leapGiving hfirst)
      refine List.Perm.trans ?_ hturn
      dsimp only at h
      split at h
      · cases h
        exact .refl _
      · split at h
        · exact ih h
        · cases h
          exact .refl _

theorem perm_run {fuel : Nat} {merged : List α}
    (h : run direction less fuel limit m = .ok (limit', merged)) : merged.Perm m.items := by
  induction fuel generalizing limit m with
  | zero =>
      cases h
      exact perm_settle m
  | succ fuel ih =>
      rw [run] at h
      obtain ⟨m₁, hone, h⟩ := bind_eq_ok_iff.1 h
      refine List.Perm.trans ?_ (perm_oneByOne hone)
      split at h
      · cases h
        exact perm_settle m₁
      · obtain ⟨⟨limit₂, m₂⟩, hleaps, h⟩ := bind_eq_ok_iff.1 h
        refine List.Perm.trans ?_ (perm_leaps hleaps)
        dsimp only at h
        split at h
        · cases h
          exact perm_settle m₂
        · exact ih h

end Merging

variable {limit limit' : Nat} {left right merged : List α}

theorem perm_mergeForward (h : mergeForward less limit left right = .ok (limit', merged)) :
    merged.Perm (left ++ right) :=
  (Merging.perm_run h).trans (Merging.perm_takeGiving 1 ⟨[], left, right⟩)

theorem perm_mergeBackward (h : mergeBackward less limit left right = .ok (limit', merged)) :
    merged.Perm (left ++ right) := by
  obtain ⟨⟨limit₁, reversed⟩, hrun, h⟩ := bind_eq_ok_iff.1 h
  cases h
  calc reversed.reverse
      _ ~ reversed := List.reverse_perm _
      _ ~ right.reverse ++ left.reverse :=
        (Merging.perm_run hrun).trans (Merging.perm_takeGiving 1 ⟨[], right.reverse, left.reverse⟩)
      _ = (left ++ right).reverse := List.reverse_append.symm
      _ ~ left ++ right := List.reverse_perm _

/-- What comes before and behind the merged items stays. -/
theorem perm_within {kept count : Nat} {inner : List α}
    (h : inner.Perm (left.drop kept ++ right.take count)) :
    (left.take kept ++ inner ++ right.drop count).Perm (left ++ right) :=
  calc left.take kept ++ inner ++ right.drop count
      _ ~ left.take kept ++ (left.drop kept ++ right.take count) ++ right.drop count :=
        (h.append_left _).append_right _
      _ = left ++ right := by
        rw [← List.append_assoc, List.take_append_drop, List.append_assoc, List.take_append_drop]

theorem perm_merge (h : merge less limit left right = .ok (limit', merged)) :
    merged.Perm (left ++ right) := by
  rw [merge.eq_def] at h
  split at h
  · cases h
    simp
  · rename_i y ys
    obtain ⟨kept, -, h⟩ := bind_eq_ok_iff.1 h
    dsimp only at h
    split at h
    · cases h
      exact .refl _
    · obtain ⟨behind, -, h⟩ := bind_eq_ok_iff.1 h
      split at h
      · cases h
        exact .refl _
      · split at h
        · obtain ⟨⟨limit₁, inner⟩, hinner, h⟩ := bind_eq_ok_iff.1 h
          cases h
          exact perm_within (perm_mergeForward hinner)
        · obtain ⟨⟨limit₁, inner⟩, hinner, h⟩ := bind_eq_ok_iff.1 h
          cases h
          exact perm_within (perm_mergeBackward hinner)

/-! ## Runs -/

theorem splitRun_eq_append {descending : Bool} {x : α} {xs run rest : List α}
    (h : splitRun less descending x xs = .ok (run, rest)) : run ++ rest = x :: xs := by
  induction xs generalizing x run with
  | nil =>
      cases h
      rfl
  | cons y xs ih =>
      rw [splitRun] at h
      obtain ⟨isLess, -, h⟩ := bind_eq_ok_iff.1 h
      split at h
      · obtain ⟨⟨run', rest'⟩, hsplit, h⟩ := bind_eq_ok_iff.1 h
        cases h
        rw [List.cons_append, ih hsplit]
      · cases h
        rfl

theorem perm_firstRun {xs run rest : List α} (h : firstRun less xs = .ok (run, rest)) :
    (run ++ rest).Perm xs := by
  match xs with
  | [] | [x] =>
      cases h
      exact .refl _
  | x :: y :: xs =>
      rw [firstRun] at h
      obtain ⟨descending, -, h⟩ := bind_eq_ok_iff.1 h
      obtain ⟨⟨run', rest'⟩, hsplit, h⟩ := bind_eq_ok_iff.1 h
      cases h
      rw [← splitRun_eq_append hsplit]
      cases descending with
      | true => exact (List.reverse_perm (x :: run')).append_right _
      | false => exact .refl _

theorem ne_nil_of_firstRun {x : α} {xs run rest : List α}
    (h : firstRun less (x :: xs) = .ok (run, rest)) : run ≠ [] := by
  cases xs with
  | nil =>
      cases h
      exact List.cons_ne_nil _ _
  | cons y xs =>
      rw [firstRun] at h
      obtain ⟨descending, -, h⟩ := bind_eq_ok_iff.1 h
      obtain ⟨⟨run', rest'⟩, -, h⟩ := bind_eq_ok_iff.1 h
      cases h
      cases descending <;> simp

theorem toList_insert (sorted : Array α) (x : α) (place : Nat) :
    (sorted.extract 0 place ++ #[x] ++ sorted.extract place sorted.size).toList =
      sorted.toList.take place ++ x :: sorted.toList.drop place := by
  simp [List.take_of_length_le]

theorem perm_insert {sorted sorted' : Array α} {x : α} (h : insert less sorted x = .ok sorted') :
    sorted'.toList.Perm (sorted.toList ++ [x]) := by
  obtain ⟨place, -, h⟩ := bind_eq_ok_iff.1 h
  cases h
  rw [toList_insert]
  calc sorted.toList.take place ++ x :: sorted.toList.drop place
      _ ~ x :: (sorted.toList.take place ++ sorted.toList.drop place) := List.perm_middle
      _ = x :: sorted.toList := by rw [List.take_append_drop]
      _ ~ sorted.toList ++ [x] := (List.perm_append_singleton x _).symm

theorem perm_foldlM_insert {sorted sorted' : Array α} {xs : List α}
    (h : xs.foldlM (insert less) sorted = .ok sorted') :
    sorted'.toList.Perm (sorted.toList ++ xs) := by
  induction xs generalizing sorted with
  | nil =>
      cases h
      simp
  | cons x xs ih =>
      rw [List.foldlM_cons] at h
      obtain ⟨next, hnext, h⟩ := bind_eq_ok_iff.1 h
      have hstep := (perm_insert hnext).append_right xs
      rw [List.append_assoc] at hstep
      exact (ih h).trans hstep

/-! ## Runs that wait -/

/-- All items of the runs that wait. -/
def Waiting.items (w : Waiting α) : List α := w.runs.flatMap (·.items)

variable {w w' : Waiting α}

theorem perm_mergeLast (h : mergeLast less w = .ok w') : w'.items.Perm w.items := by
  obtain ⟨runs, limit⟩ := w
  match runs with
  | [] | [run] =>
      cases h
      exact .refl _
  | last :: middle :: rest =>
      obtain ⟨⟨limit', merged⟩, hmerge, h⟩ := bind_eq_ok_iff.1 h
      cases h
      have hpair := (perm_merge hmerge).trans List.perm_append_comm
      simpa [Waiting.items] using hpair.append_right (rest.flatMap (·.items))

theorem perm_mergeMiddle (h : mergeMiddle less w = .ok w') : w'.items.Perm w.items := by
  obtain ⟨runs, limit⟩ := w
  match runs with
  | [] | [_] | [_, _] => exact @perm_mergeLast ε α less _ _ h
  | last :: middle :: first :: rest =>
      rw [mergeMiddle] at h
      dsimp only at h
      split at h
      · obtain ⟨⟨limit', merged⟩, hmerge, h⟩ := bind_eq_ok_iff.1 h
        cases h
        have hpair := (perm_merge hmerge).trans List.perm_append_comm
        have hrest := hpair.append_right (rest.flatMap (·.items))
        simpa [Waiting.items] using hrest.append_left last.items
      · exact @perm_mergeLast ε α less _ _ h

theorem perm_settleRuns {depth fuel : Nat} (h : settle less depth fuel w = .ok w') :
    w'.items.Perm w.items := by
  induction fuel generalizing w with
  | zero =>
      cases h
      exact .refl _
  | succ fuel ih =>
      rw [settle] at h
      split at h
      · split at h
        · obtain ⟨next, hnext, h⟩ := bind_eq_ok_iff.1 h
          exact (ih h).trans (perm_mergeLast hnext)
        · cases h
          exact .refl _
      · cases h
        exact .refl _

theorem perm_push {total : Nat} {items : List α} (h : push less total items w = .ok w') :
    w'.items.Perm (items ++ w.items) := by
  rw [push.eq_def] at h
  split at h
  · rename_i hruns
    cases h
    simp [Waiting.items, hruns]
  · obtain ⟨next, hnext, h⟩ := bind_eq_ok_iff.1 h
    refine List.Perm.trans ?_ ((perm_settleRuns hnext).append_left items)
    split at h
    · rename_i hruns
      cases h
      simp [Waiting.items, hruns]
    · rename_i hruns
      cases h
      simp [Waiting.items, hruns]

theorem perm_mergeAll {fuel : Nat} {ys : List α} (h : mergeAll less fuel w = .ok ys) :
    ys.Perm w.items := by
  induction fuel generalizing w with
  | zero =>
      cases h
      exact (List.reverse_perm w.runs).flatMap_right _
  | succ fuel ih =>
      rw [mergeAll] at h
      split at h
      · rename_i hruns
        cases h
        simp [Waiting.items, hruns]
      · rename_i hruns
        cases h
        simp [Waiting.items, hruns]
      · obtain ⟨next, hnext, h⟩ := bind_eq_ok_iff.1 h
        exact (ih h).trans (perm_mergeMiddle hnext)

theorem perm_collect {total least fuel : Nat} {xs : List α} (hfuel : xs.length ≤ fuel)
    (h : collect less total least fuel xs w = .ok w') : w'.items.Perm (xs ++ w.items) := by
  induction fuel generalizing xs w with
  | zero =>
      obtain rfl := List.length_eq_zero_iff.1 (Nat.le_zero.1 hfuel)
      cases h
      exact .refl _
  | succ fuel ih =>
      cases xs with
      | nil =>
          cases h
          exact .refl _
      | cons x xs =>
          rw [collect.eq_def] at h
          obtain ⟨⟨run, rest⟩, hrun, h⟩ := bind_eq_ok_iff.1 h
          obtain ⟨lengthened, hlengthened, h⟩ := bind_eq_ok_iff.1 h
          obtain ⟨next, hnext, h⟩ := bind_eq_ok_iff.1 h
          -- The run takes items of the list, so fewer rounds are left for the others.
          have hrunPerm := perm_firstRun hrun
          have hlength := hrunPerm.length_eq
          have hpositive := List.length_pos_iff.2 (ne_nil_of_firstRun hrun)
          have hrest := ih (by simp at hlength hfuel ⊢; omega) h
          have hitems := perm_foldlM_insert hlengthened
          generalize least - run.length = short at hrest hitems
          calc w'.items
              _ ~ rest.drop short ++ next.items := hrest
              _ ~ rest.drop short ++ (lengthened.toList ++ w.items) :=
                (perm_push hnext).append_left _
              _ ~ rest.drop short ++ ((run ++ rest.take short) ++ w.items) :=
                (hitems.append_right _).append_left _
              _ ~ (run ++ rest.take short) ++ rest.drop short ++ w.items := by
                rw [← List.append_assoc]
                exact List.perm_append_comm.append_right _
              _ = run ++ rest ++ w.items := by rw [List.append_assoc run, List.take_append_drop]
              _ ~ x :: xs ++ w.items := hrunPerm.append_right _

/-- **Sorting rearranges.**  Whatever the order says, a list that is sorted by it holds the items
that it held before. -/
theorem sort_perm {xs ys : List α} (h : sort less xs = .ok ys) : ys.Perm xs := by
  rw [sort] at h
  split at h
  · cases h
    exact .refl _
  · obtain ⟨w, hcollect, h⟩ := bind_eq_ok_iff.1 h
    have hitems := perm_collect (Nat.le_refl _) hcollect
    exact (perm_mergeAll h).trans (hitems.trans (by simp [Waiting.items]))

end MergeOnRead.Sorting
