import MergeOnRead.Proofs.SortedRuns
import Mathlib.Order.Extension.Linear

/-!
# What can be sorted is a chain

An order of items can fail for some of them.  If nonetheless it sorts a list, then it tells any two
items of the list apart, though perhaps not by comparing these two: one of them comes before the
other in every order that agrees with what was compared (`Sorting.pairwise_of_sort`).

Strategy:

* an order that returns whatever another one returns sorts the lists that this one sorts, in the
  same way (`returns_sort`).  There is one lemma for each step of sorting;
* so a list that was sorted is in ascending order by every linear order that agrees with what was
  compared (`Compares.exists_pairwise`);
* two items that are not told apart could be put one way or the other by two such orders
  (`isStrictOrder_through`, `exists_linearOrder`), but they came out in one way.
-/

namespace MergeOnRead.Sorting

variable {ε α β γ : Type}

/-! ## Orders that return more -/

/-- The second result is what the first one is, unless this is an error. -/
structure Returns (x y : Except ε β) : Prop where
  of_ok : ∀ b, x = .ok b → y = .ok b

namespace Returns

theorem refl (x : Except ε β) : Returns x x := ⟨fun _ h => h⟩

theorem bind {x y : Except ε β} {f g : β → Except ε γ} (h : Returns x y)
    (hf : ∀ b, Returns (f b) (g b)) : Returns (x >>= f) (y >>= g) := by
  refine ⟨fun c hc => ?_⟩
  obtain ⟨b, hb, hc⟩ := bind_eq_ok_iff.1 hc
  rw [h.of_ok b hb]
  exact (hf b).of_ok c hc

theorem map {x y : Except ε β} (h : Returns x y) (f : β → γ) : Returns (x.map f) (y.map f) := by
  refine ⟨fun c hc => ?_⟩
  obtain ⟨b, hb, rfl⟩ := map_eq_ok_iff.1 hc
  rw [h.of_ok b hb]
  rfl

theorem ite {p : Prop} [Decidable p] {x y x' y' : Except ε β} (h : Returns x y)
    (h' : Returns x' y') : Returns (if p then x else x') (if p then y else y') := by
  split
  · exact h
  · exact h'

end Returns

/-- The second order returns whatever the first one returns. -/
def Less.Returns (less less' : Less ε α) : Prop := ∀ x y, Sorting.Returns (less x y) (less' x y)

variable {less less' : Less ε α}

section Search

variable {isFar isFar' : Nat → Except ε Bool}

theorem returns_halve (h : ∀ i, Returns (isFar i) (isFar' i)) (direction : Direction)
    (low count : Nat) :
    Returns (halve direction isFar low count) (halve direction isFar' low count) := by
  fun_induction halve direction isFar low count with
  | case1 low =>
      rw [halve.eq_def direction isFar', dif_pos rfl]
      exact .refl _
  | case2 low count hcount middle hbelow hlow e htest => exact ⟨nofun⟩
  | case3 low count hcount middle hbelow hlow htest ih =>
      have htest' := (h _).of_ok _ htest
      rw [halve.eq_def direction isFar' low count, dif_neg hcount]
      simp only [htest', middle]
      exact ih
  | case4 low count hcount middle hbelow hlow htest ih =>
      have htest' := (h _).of_ok _ htest
      rw [halve.eq_def direction isFar' low count, dif_neg hcount]
      simp only [htest', middle]
      exact ih

theorem returns_leap (h : ∀ i, Returns (isFar i) (isFar' i)) (count fuel last place : Nat) :
    Returns (leap isFar count fuel last place) (leap isFar' count fuel last place) := by
  induction fuel generalizing last place with
  | zero => exact .refl _
  | succ fuel ih =>
      rw [leap, leap]
      exact .ite (.bind (h place) fun isFar => .ite (.refl _) (ih ..)) (.refl _)

theorem returns_gallop (h : ∀ i, Returns (isFar i) (isFar' i)) (direction : Direction)
    (count : Nat) : Returns (gallop direction isFar count) (gallop direction isFar' count) := by
  rw [gallop, gallop]
  exact .ite (.refl _) (.bind (h 0) fun isFar => .ite (.refl _)
    (.bind (returns_leap h ..) fun (_, _) => returns_halve h ..))

end Search

namespace Merging

theorem returns_oneByOne (h : less.Returns less') (limit fuel asideWins givingWins : Nat)
    (m : Merging α) : Returns (oneByOne less limit fuel asideWins givingWins m)
      (oneByOne less' limit fuel asideWins givingWins m) := by
  induction fuel generalizing asideWins givingWins m with
  | zero => exact .refl _
  | succ fuel ih =>
      rw [oneByOne, oneByOne]
      split
      · exact .bind (h ..) fun passes => .ite (.ite (.refl _) (ih ..)) (.ite (.refl _) (ih ..))
      · exact .refl _

theorem returns_leapAside (h : less.Returns less') (direction : Direction) (m : Merging α) :
    Returns (leapAside direction less m) (leapAside direction less' m) := by
  rw [leapAside, leapAside]
  split
  · refine .bind (returns_gallop (fun i => ?_) ..) fun count => .refl _
    cases m.aside[i]? with
    | none => exact .refl _
    | some x => exact h ..
  · exact .refl _

theorem returns_leapGiving (h : less.Returns less') (direction : Direction) (m : Merging α) :
    Returns (leapGiving direction less m) (leapGiving direction less' m) := by
  rw [leapGiving, leapGiving]
  split
  · refine .bind (returns_gallop (fun i => ?_) ..) fun count => .refl _
    cases m.giving[i]? with
    | none => exact .refl _
    | some y => exact (h ..).map not
  · exact .refl _

theorem returns_leaps (h : less.Returns less') (direction : Direction) (fuel limit : Nat)
    (m : Merging α) :
    Returns (leaps direction less fuel limit m) (leaps direction less' fuel limit m) := by
  induction fuel generalizing limit m with
  | zero => exact .refl _
  | succ fuel ih =>
      unfold leaps
      cases direction with
      | forward =>
          exact .bind (returns_leapAside h ..) fun _ => .bind (returns_leapGiving h ..) fun _ =>
            .ite (.refl _) (.ite (ih ..) (.refl _))
      | backward =>
          exact .bind (returns_leapGiving h ..) fun _ => .bind (returns_leapAside h ..) fun _ =>
            .ite (.refl _) (.ite (ih ..) (.refl _))

theorem returns_run (h : less.Returns less') (direction : Direction) (fuel limit : Nat)
    (m : Merging α) :
    Returns (run direction less fuel limit m) (run direction less' fuel limit m) := by
  induction fuel generalizing limit m with
  | zero => exact .refl _
  | succ fuel ih =>
      rw [run, run]
      exact .bind (returns_oneByOne h ..) fun _ => .ite (.refl _)
        (.bind (returns_leaps h ..) fun _ => .ite (.refl _) (ih ..))

end Merging

theorem returns_mergeForward (h : less.Returns less') (limit : Nat) (left right : List α) :
    Returns (mergeForward less limit left right) (mergeForward less' limit left right) :=
  Merging.returns_run h ..

theorem returns_mergeBackward (h : less.Returns less') (limit : Nat) (left right : List α) :
    Returns (mergeBackward less limit left right) (mergeBackward less' limit left right) :=
  .bind (Merging.returns_run (fun y x => h x y) ..) fun _ => .refl _

theorem returns_merge (h : less.Returns less') (limit : Nat) (left right : List α) :
    Returns (merge less limit left right) (merge less' limit left right) := by
  rw [merge.eq_def, merge.eq_def]
  split
  · exact .refl _
  · rename_i y ys
    refine .bind (returns_gallop (fun i => ?_) ..) fun kept => ?_
    · cases left[i]? with
      | none => exact .refl _
      | some x => exact h ..
    · dsimp only
      split
      · exact .refl _
      · rename_i x _
        refine .bind (returns_gallop (fun i => ?_) ..) fun behind => ?_
        · cases (y :: ys).reverse[i]? with
          | none => exact .refl _
          | some y => exact h ..
        · exact .ite (.refl _) (.ite (.bind (returns_mergeForward h ..) fun _ => .refl _)
            (.bind (returns_mergeBackward h ..) fun _ => .refl _))

theorem returns_splitRun (h : less.Returns less') (descending : Bool) (x : α) (xs : List α) :
    Returns (splitRun less descending x xs) (splitRun less' descending x xs) := by
  induction xs generalizing x with
  | nil => exact .refl _
  | cons y ys ih =>
      rw [splitRun, splitRun]
      exact .bind (h ..) fun _ => .ite (.bind (ih y) fun _ => .refl _) (.refl _)

theorem returns_firstRun (h : less.Returns less') (xs : List α) :
    Returns (firstRun less xs) (firstRun less' xs) := by
  match xs with
  | [] | [_] => exact .refl _
  | x :: y :: rest =>
      exact .bind (h ..) fun _ => .bind (returns_splitRun h ..) fun _ => .refl _

theorem returns_insert (h : less.Returns less') (sorted : Array α) (x : α) :
    Returns (insert less sorted x) (insert less' sorted x) := by
  refine .bind (returns_halve (fun i => ?_) ..) fun _ => .refl _
  cases sorted[i]? with
  | none => exact .refl _
  | some y => exact h ..

theorem returns_foldlM_insert (h : less.Returns less') (xs : List α) (sorted : Array α) :
    Returns (xs.foldlM (insert less) sorted) (xs.foldlM (insert less') sorted) := by
  induction xs generalizing sorted with
  | nil => exact .refl _
  | cons x xs ih =>
      rw [List.foldlM_cons, List.foldlM_cons]
      exact .bind (returns_insert h ..) ih

theorem returns_mergeLast (h : less.Returns less') (w : Waiting α) :
    Returns (mergeLast less w) (mergeLast less' w) := by
  rw [mergeLast, mergeLast]
  split
  · exact .bind (returns_merge h ..) fun _ => .refl _
  · exact .refl _

theorem returns_mergeMiddle (h : less.Returns less') (w : Waiting α) :
    Returns (mergeMiddle less w) (mergeMiddle less' w) := by
  rw [mergeMiddle, mergeMiddle]
  split
  · exact .ite (.bind (returns_merge h ..) fun _ => .refl _) (returns_mergeLast h _)
  · exact returns_mergeLast h _

theorem returns_settle (h : less.Returns less') (depth fuel : Nat) (w : Waiting α) :
    Returns (settle less depth fuel w) (settle less' depth fuel w) := by
  induction fuel generalizing w with
  | zero => exact .refl _
  | succ fuel ih =>
      rw [settle, settle]
      split
      · exact .ite (.bind (returns_mergeLast h _) ih) (.refl _)
      · exact .refl _

theorem returns_push (h : less.Returns less') (total : Nat) (items : List α) (w : Waiting α) :
    Returns (push less total items w) (push less' total items w) := by
  rw [push.eq_def, push.eq_def]
  split
  · exact .refl _
  · exact .bind (returns_settle h ..) fun _ => .refl _

theorem returns_mergeAll (h : less.Returns less') (fuel : Nat) (w : Waiting α) :
    Returns (mergeAll less fuel w) (mergeAll less' fuel w) := by
  induction fuel generalizing w with
  | zero => exact .refl _
  | succ fuel ih =>
      rw [mergeAll, mergeAll]
      split
      · exact .refl _
      · exact .refl _
      · exact .bind (returns_mergeMiddle h _) ih

theorem returns_collect (h : less.Returns less') (total least fuel : Nat) (xs : List α)
    (w : Waiting α) :
    Returns (collect less total least fuel xs w) (collect less' total least fuel xs w) := by
  induction fuel generalizing xs w with
  | zero => exact .refl _
  | succ fuel ih =>
      cases xs with
      | nil => exact .refl _
      | cons x xs =>
          rw [collect.eq_def, collect.eq_def]
          exact .bind (returns_firstRun h _) fun _ => .bind (returns_foldlM_insert h ..) fun _ =>
            .bind (returns_push h ..) fun _ => ih ..

/-- An order that returns whatever another one returns sorts what this one sorts, in the same
way. -/
theorem returns_sort (h : less.Returns less') (xs : List α) :
    Returns (sort less xs) (sort less' xs) := by
  rw [sort, sort]
  exact .ite (.refl _) (.bind (returns_collect h ..) fun _ => returns_mergeAll h ..)

/-- The first two items of a list that was sorted have been compared. -/
theorem exists_less_of_sort {x y : α} {rest ys : List α}
    (h : sort less (x :: y :: rest) = .ok ys) : ∃ isLess, less y x = .ok isLess := by
  rw [sort, if_neg (by simp)] at h
  obtain ⟨w, h, -⟩ := bind_eq_ok_iff.1 h
  rw [List.length_cons, collect] at h
  · obtain ⟨_, h, -⟩ := bind_eq_ok_iff.1 h
    rw [firstRun] at h
    obtain ⟨isLess, h, -⟩ := bind_eq_ok_iff.1 h
    exact ⟨isLess, h⟩
  · simp

/-! ## Chains -/

variable {κ : Type} {key : α → κ} {lt : κ → κ → Prop} {xs ys : List α} {x y : α} {a b : κ}

/-- Items have different keys, and where two of them are compared the order of their keys tells
what comes out. -/
structure Compares (less : Less ε α) (key : α → κ) (lt : κ → κ → Prop) (items : List α) :
    Prop where
  distinct : (items.map key).Nodup
  tells : ∀ x ∈ items, ∀ y ∈ items, key x ≠ key y → ∀ isLess, less x y = .ok isLess →
    if isLess then lt (key x) (key y) else lt (key y) (key x)

/-- An order that returns where another one fails. -/
def completed (less : Less ε α) (otherwise : α → α → Bool) : Less ε α := fun x y =>
  match less x y with
  | .ok isLess => .ok isLess
  | .error _ => .ok (otherwise x y)

theorem returns_completed (less : Less ε α) (otherwise : α → α → Bool) :
    less.Returns (completed less otherwise) := by
  intro x y
  refine ⟨fun isLess h => ?_⟩
  rw [completed, h]

/-- An order can be extended until it is linear. -/
theorem exists_linearOrder (lt : κ → κ → Prop) [IsStrictOrder κ lt] :
    ∃ _ : LinearOrder κ, ∀ a b : κ, lt a b → a < b := by
  let := partialOrderOfSO lt
  refine ⟨(inferInstance : LinearOrder (LinearExtension κ)), fun a b hab => ?_⟩
  have hle : (toLinearExtension a : LinearExtension κ) ≤ toLinearExtension b :=
    toLinearExtension.monotone (.inr hab)
  exact lt_of_le_of_ne hle fun heq => (show a < b from hab).ne heq

/-- A list that was sorted is in ascending order by some linear order that extends a given one,
whatever order is given that agrees with what was compared. -/
theorem Compares.exists_pairwise (h : Compares less key lt xs) (hsort : sort less xs = .ok ys)
    (lt' : κ → κ → Prop) [IsStrictOrder κ lt'] (hextends : ∀ a b, lt a b → lt' a b) :
    ∃ before : κ → κ → Prop, (∀ a b, lt' a b → before a b) ∧
      (∀ a b, before a b → ¬ before b a) ∧ ys.Pairwise fun x y => before (key x) (key y) := by
  obtain ⟨_, hlinear⟩ := exists_linearOrder lt'
  -- Where nothing is compared the linear order says what comes out.
  have hranks : Ranks (completed less fun x y => decide (key x < key y)) key xs := by
    refine ⟨h.distinct, fun x hx y hy hne => ?_⟩
    cases hless : less x y with
    | error e => exact ⟨decide (key x < key y), by rw [completed, hless], by simp⟩
    | ok isLess =>
        refine ⟨isLess, by rw [completed, hless], ?_⟩
        have htells := h.tells x hx y hy hne isLess hless
        cases isLess with
        | true => exact iff_of_true rfl (hlinear _ _ (hextends _ _ htells))
        | false => exact iff_of_false Bool.false_ne_true (hlinear _ _ (hextends _ _ htells)).asymm
  obtain ⟨ys', hsort', -, hsorted⟩ := exists_sort_eq hranks
  rw [(returns_sort (returns_completed less _) xs).of_ok ys hsort, Except.ok.injEq] at hsort'
  subst hsort'
  exact ⟨fun a b => a < b, hlinear, fun a b => lt_asymm, hsorted⟩

/-- The least order that extends an order, and in which an item comes before another one. -/
def Through (lt : κ → κ → Prop) (x y a b : κ) : Prop :=
  lt a b ∨ (a = x ∨ lt a x) ∧ (b = y ∨ lt y b)

theorem isStrictOrder_through [IsStrictOrder κ lt] {x y : κ} (hne : x ≠ y) (hyx : ¬ lt y x) :
    IsStrictOrder κ (Through lt x y) := by
  have htrans : ∀ {a b c : κ}, lt a b → lt b c → lt a c := fun h h' => trans_of lt h h'
  have hback : ∀ {a : κ}, (a = x ∨ lt a x) → (a = y ∨ lt y a) → False := by
    rintro a (rfl | hax) (rfl | hya)
    · exact hne rfl
    · exact hyx hya
    · exact hyx hax
    · exact hyx (htrans hya hax)
  refine { irrefl := ?_, trans := ?_ }
  · rintro a (haa | ⟨hax, hay⟩)
    · exact irrefl_of lt a haa
    · exact hback hax hay
  · rintro a b c (hab | ⟨hax, hyb⟩) (hbc | ⟨hbx, hyc⟩)
    · exact .inl (htrans hab hbc)
    · refine .inr ⟨.inr ?_, hyc⟩
      rcases hbx with rfl | hbx
      · exact hab
      · exact htrans hab hbx
    · refine .inr ⟨hax, .inr ?_⟩
      rcases hyb with rfl | hyb
      · exact hbc
      · exact htrans hyb hbc
    · exact (hback hbx hyb).elim

/-- **What can be sorted is a chain.**  Any two items of a list that was sorted are told apart by
the order that agrees with what was compared, and the list is in ascending order. -/
theorem pairwise_of_sort [IsStrictOrder κ lt] (h : Compares less key lt xs)
    (hsort : sort less xs = .ok ys) : ys.Pairwise fun x y => lt (key x) (key y) := by
  obtain ⟨before, hbefore, hasymm, hsorted⟩ := h.exists_pairwise hsort lt fun _ _ hab => hab
  have hdistinct : ys.Pairwise fun x y => key x ≠ key y :=
    List.pairwise_map.1 (((sort_perm hsort).map key).nodup_iff.2 h.distinct)
  rw [List.pairwise_iff_getElem] at hsorted hdistinct ⊢
  intro i j hi hj hij
  by_contra hxy
  have hne := hdistinct i j hi hj hij
  have hyx : ¬ lt (key ys[j]) (key ys[i]) := fun hyx =>
    hasymm _ _ (hsorted i j hi hj hij) (hbefore _ _ hyx)
  -- Two items that are not told apart could be ranked the other way, but come as they come.
  have := isStrictOrder_through hne.symm hxy
  obtain ⟨before', hbefore', hasymm', hsorted'⟩ :=
    h.exists_pairwise hsort (Through lt (key ys[j]) (key ys[i])) fun _ _ => .inl
  rw [List.pairwise_iff_getElem] at hsorted'
  exact hasymm' _ _ (hsorted' i j hi hj hij) (hbefore' _ _ (.inr ⟨.inl rfl, .inl rfl⟩))

/-- Two items of an ascending list are told apart. -/
theorem lt_or_lt_of_pairwise {as : List κ} (h : as.Pairwise lt) (ha : a ∈ as) (hb : b ∈ as)
    (hne : a ≠ b) : lt a b ∨ lt b a := by
  have : Std.Symm fun a b => lt a b ∨ lt b a := ⟨fun _ _ => Or.symm⟩
  exact (h.imp Or.inl).forall (R := fun a b => lt a b ∨ lt b a) ha hb hne

/-- A chain can be sorted by an order that compares any two of its items. -/
theorem exists_sort_of_chain [IsStrictOrder κ lt] (hdistinct : (xs.map key).Nodup)
    (hchain : ∀ x ∈ xs, ∀ y ∈ xs, key x ≠ key y → lt (key x) (key y) ∨ lt (key y) (key x))
    (hless : ∀ x ∈ xs, ∀ y ∈ xs, lt (key x) (key y) →
      less x y = .ok true ∧ less y x = .ok false) :
    ∃ ys, sort less xs = .ok ys := by
  obtain ⟨_, hlinear⟩ := exists_linearOrder lt
  have hranks : Ranks less key xs := by
    refine ⟨hdistinct, fun x hx y hy hne => ?_⟩
    rcases hchain x hx y hy hne with hxy | hyx
    · exact ⟨true, (hless x hx y hy hxy).1, iff_of_true rfl (hlinear _ _ hxy)⟩
    · exact ⟨false, (hless y hy x hx hyx).2,
        iff_of_false Bool.false_ne_true (hlinear _ _ hyx).asymm⟩
  obtain ⟨ys, hsort, -⟩ := exists_sort_eq hranks
  exact ⟨ys, hsort⟩

end MergeOnRead.Sorting
