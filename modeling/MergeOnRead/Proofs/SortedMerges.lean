import MergeOnRead.Proofs.Sorting
import Mathlib.Order.Lattice
import Mathlib.Order.OrderDual
import Mathlib.Data.List.Pairwise

/-!
# Merging two sorted runs

Items that have different ranks, and are compared by rank, are merged by rank
(`Sorting.exists_merge`), whichever way the merge goes and whenever it leaps.  Nothing is asked of
the comparison of an item with itself: it is never made.

Strategy:

* a search among places of which the first ones are near and the others far finds the border,
  whichever places it tests (`halve_eq`, `gallop_eq`);
* `Merging.Sound` says what holds of a merge under way: what is merged is sorted and comes before
  all that is to come, and the last item that was kept aside comes behind all that give way.  Each
  way to take items keeps it (`Sound.step`, `isLeap_leaps`), and a merge that is settled leaves a
  sorted list (`Sound.settle`);
* every round of a merge takes an item, so that its rounds are enough (`Sound.exists_run`);
* a merge from the ends is one from the beginnings in the reversed order (`Ranks.dual`).
-/

namespace MergeOnRead.Sorting

variable {ε α β : Type}

/-! ## Searches -/

section Search

variable {isFar : Nat → Except ε Bool} {count place : Nat}

/-- The places before some place are not far enough, and the others are. -/
structure SplitsAt (isFar : Nat → Except ε Bool) (count place : Nat) : Prop where
  le : place ≤ count
  near : ∀ i < place, isFar i = .ok false
  far : ∀ i, place ≤ i → i < count → isFar i = .ok true

theorem SplitsAt.halve_eq (h : SplitsAt isFar count place) (direction : Direction) (low size : Nat)
    (hlow : low ≤ place) (hhigh : place ≤ low + size) (hend : low + size ≤ count) :
    halve direction isFar low size = .ok place := by
  induction size using Nat.strongRecOn generalizing low with
  | ind size ih =>
      unfold halve
      by_cases hsize : size = 0
      · have hplace : low = place := by omega
        rw [dif_pos hsize, hplace]
      · rw [dif_neg hsize]
        have hmiddle : low ≤ direction.middle low size ∧
            direction.middle low size < low + size := by
          cases direction <;> simp only [Direction.middle] <;> omega
        dsimp only
        generalize direction.middle low size = middle at hmiddle
        by_cases hnear : middle < place
        · rw [h.near middle hnear]
          exact ih _ (by omega) _ (by omega) (by omega) (by omega)
        · rw [h.far middle (by omega) (by omega)]
          exact ih _ (by omega) _ (by omega) (by omega) (by omega)

theorem SplitsAt.exists_leap (h : SplitsAt isFar count place) (fuel last next : Nat)
    (hlast : last < place) : ∃ low high,
      leap isFar count fuel last next = .ok (low, high) ∧ low < place ∧ place ≤ high ∧
        high ≤ count := by
  induction fuel generalizing last next with
  | zero => exact ⟨last, count, rfl, hlast, h.le, Nat.le_refl _⟩
  | succ fuel ih =>
      rw [leap]
      by_cases hnext : next < count
      · rw [if_pos hnext]
        by_cases hnear : next < place
        · rw [h.near next hnear]
          exact ih _ _ hnear
        · rw [h.far next (by omega) hnext]
          exact ⟨last, next, rfl, hlast, by omega, by omega⟩
      · rw [if_neg hnext]
        exact ⟨last, count, rfl, hlast, h.le, Nat.le_refl _⟩

theorem SplitsAt.gallop_eq (h : SplitsAt isFar count place) {direction : Direction} :
    gallop direction isFar count = .ok place := by
  have hle := h.le
  unfold gallop
  by_cases hcount : count = 0
  · have hplace : 0 = place := by omega
    rw [if_pos hcount, ← hplace]
  · rw [if_neg hcount]
    by_cases hplace : place = 0
    · rw [h.far 0 (by omega) (by omega), hplace]
      rfl
    · rw [h.near 0 (by omega)]
      obtain ⟨low, high, hleap, hlow, hhigh, hend⟩ :=
        h.exists_leap count 0 1 (Nat.pos_of_ne_zero hplace)
      have hfound := h.halve_eq direction (low + 1) (high - (low + 1)) (by omega) (by omega)
        (by omega)
      simpa [hleap] using hfound

/-- Items are tested in a list of which a beginning is near and the rest is far. -/
theorem splitsAt_append {near far : List α} {test : α → Except ε Bool}
    (htest : ∀ i x, (near ++ far)[i]? = some x → isFar i = test x)
    (hnear : ∀ x ∈ near, test x = .ok false) (hfar : ∀ x ∈ far, test x = .ok true) :
    SplitsAt isFar (near ++ far).length near.length := by
  refine ⟨by simp, fun i hi => ?_, fun i hi hend => ?_⟩
  · have hx : (near ++ far)[i]? = some near[i] := by
      rw [List.getElem?_append_left hi, List.getElem?_eq_getElem hi]
    rw [htest i _ hx]
    exact hnear _ (List.getElem_mem hi)
  · have hrest : i - near.length < far.length := by
      rw [List.length_append] at hend
      omega
    have hx : (near ++ far)[i]? = some far[i - near.length] := by
      rw [List.getElem?_append_right hi, List.getElem?_eq_getElem hrest]
    rw [htest i _ hx]
    exact hfar _ (List.getElem_mem hrest)

end Search

/-! ## Ranks -/

section Ranks

variable [LinearOrder β] {less : Less ε α} {rank : α → β} {xs ys : List α} {x y : α}

/-- Items have different ranks, and two of them are compared by rank. -/
structure Ranks (less : Less ε α) (rank : α → β) (items : List α) : Prop where
  distinct : (items.map rank).Nodup
  compares : ∀ x ∈ items, ∀ y ∈ items, rank x ≠ rank y →
    ∃ isLess, less x y = .ok isLess ∧ (isLess = true ↔ rank x < rank y)

/-- A list is in ascending order of ranks. -/
def IsSortedBy (rank : α → β) (xs : List α) : Prop := xs.Pairwise fun x y => rank x < rank y

namespace Ranks

theorem mono (h : Ranks less rank xs) (hsub : ys.Subperm xs) : Ranks less rank ys := by
  refine ⟨?_, fun x hx y hy => h.compares x (hsub.subset hx) y (hsub.subset hy)⟩
  obtain ⟨zs, hperm, hsublist⟩ := hsub
  exact (hperm.map rank).nodup_iff.1 (h.distinct.sublist (hsublist.map rank))

theorem less_eq_true (h : Ranks less rank xs) (hx : x ∈ xs) (hy : y ∈ xs)
    (hlt : rank x < rank y) : less x y = .ok true := by
  obtain ⟨isLess, hless, hiff⟩ := h.compares x hx y hy hlt.ne
  rw [hless, hiff.2 hlt]

theorem less_eq_false (h : Ranks less rank xs) (hx : x ∈ xs) (hy : y ∈ xs)
    (hlt : rank y < rank x) : less x y = .ok false := by
  obtain ⟨isLess, hless, hiff⟩ := h.compares x hx y hy hlt.ne'
  have hnot : isLess ≠ true := fun htrue => (hlt.trans (hiff.1 htrue)).false
  rw [hless, Bool.eq_false_iff.2 hnot]

theorem ne_of_append (h : Ranks less rank (xs ++ ys)) (hx : x ∈ xs) (hy : y ∈ ys) :
    rank x ≠ rank y := by
  have hdistinct := h.distinct
  rw [List.map_append, List.nodup_append] at hdistinct
  exact hdistinct.2.2 _ (List.mem_map_of_mem hx) _ (List.mem_map_of_mem hy)

theorem ne_of_cons (h : Ranks less rank (x :: xs)) (hy : y ∈ xs) : rank x ≠ rank y := by
  have hsplit : Ranks less rank ([x] ++ xs) := h
  exact hsplit.ne_of_append (List.mem_singleton_self x) hy

/-- The order that goes down compares items the other way round. -/
theorem dual (h : Ranks less rank xs) :
    Ranks (fun y x => less x y) (fun x => OrderDual.toDual (rank x)) xs := by
  refine ⟨h.distinct, fun x hx y hy hne => ?_⟩
  exact h.compares y hy x hx fun heq => hne (congrArg OrderDual.toDual heq.symm)

end Ranks

namespace IsSortedBy

theorem reverse (h : IsSortedBy rank xs) :
    IsSortedBy (fun x => OrderDual.toDual (rank x)) xs.reverse :=
  List.pairwise_reverse.2 h

/-- A sorted list falls into what comes before a rank that none of its items has, and what comes
behind. -/
theorem exists_append (h : IsSortedBy rank xs) {r : β} (hr : ∀ x ∈ xs, rank x ≠ r) :
    ∃ near far, xs = near ++ far ∧ (∀ x ∈ near, rank x < r) ∧ ∀ x ∈ far, r < rank x := by
  induction xs with
  | nil => exact ⟨[], [], rfl, nofun, nofun⟩
  | cons x xs ih =>
      obtain ⟨hfirst, hrest⟩ := List.pairwise_cons.1 h
      rcases lt_or_gt_of_ne (hr x (List.mem_cons_self ..)) with hlt | hgt
      · obtain ⟨near, far, heq, hnear, hfar⟩ :=
          ih hrest fun y hy => hr y (List.mem_cons_of_mem _ hy)
        exact ⟨x :: near, far, by rw [heq, List.cons_append],
          List.forall_mem_cons.2 ⟨hlt, hnear⟩, hfar⟩
      · exact ⟨[], x :: xs, rfl, nofun,
          List.forall_mem_cons.2 ⟨hgt, fun y hy => hgt.trans (hfirst y hy)⟩⟩

/-- A search in a sorted list finds the place of a rank that none of its items has. -/
theorem exists_splitsAt (h : IsSortedBy rank xs) {r : β} (test : α → Except ε Bool)
    (hr : ∀ x ∈ xs, rank x ≠ r) (hnear : ∀ x ∈ xs, rank x < r → test x = .ok false)
    (hfar : ∀ x ∈ xs, r < rank x → test x = .ok true) :
    ∃ near far, xs = near ++ far ∧ (∀ x ∈ near, rank x < r) ∧ (∀ x ∈ far, r < rank x) ∧
      ∀ isFar : Nat → Except ε Bool, (∀ i x, xs[i]? = some x → isFar i = test x) →
        SplitsAt isFar xs.length near.length := by
  obtain ⟨near, far, rfl, hbefore, hbehind⟩ := h.exists_append hr
  refine ⟨near, far, rfl, hbefore, hbehind, fun isFar htest =>
    splitsAt_append htest (fun x hx => ?_) fun x hx => ?_⟩
  · exact hnear x (List.mem_append_left _ hx) (hbefore x hx)
  · exact hfar x (List.mem_append_right _ hx) (hbehind x hx)

/-- Lists of the same items that are both sorted are the same. -/
theorem eq_of_perm (hxs : IsSortedBy rank xs) (hys : IsSortedBy rank ys) (h : xs.Perm ys) :
    xs = ys :=
  h.eq_of_pairwise (fun _ _ _ _ hxy hyx => absurd (hxy.trans hyx) (lt_irrefl _)) hxs hys

end IsSortedBy

end Ranks

/-! ## Merges -/

section Merges

variable [LinearOrder β] {before : Less ε α} {rank : α → β}

namespace Merging

variable {m : Merging α}

/-- What holds of a merge under way. -/
structure Sound (before : Less ε α) (rank : α → β) (m : Merging α) : Prop where
  ranks : Ranks before rank (m.aside ++ m.giving)
  /-- What was merged comes before what was kept aside, and both are sorted. -/
  aside : IsSortedBy rank (m.done.reverse ++ m.aside)
  giving : IsSortedBy rank (m.done.reverse ++ m.giving)
  /-- The last item that was kept aside comes last. -/
  last : ∀ x ∈ m.aside.getLast?, ∀ y ∈ m.giving, rank y < rank x

namespace Sound

theorem sorted_aside (h : m.Sound before rank) : IsSortedBy rank m.aside :=
  (List.pairwise_append.1 h.aside).2.1

theorem sorted_giving (h : m.Sound before rank) : IsSortedBy rank m.giving :=
  (List.pairwise_append.1 h.giving).2.1

theorem takeAside (h : m.Sound before rank) {count : Nat}
    (hfirst : ∀ x ∈ m.aside.take count, ∀ y ∈ m.giving, rank x < rank y) :
    (m.takeAside count).Sound before rank where
  ranks := h.ranks.mono ((List.drop_sublist count m.aside).append_right m.giving).subperm
  aside := by
    have hsplit : ((m.aside.take count).reverse ++ m.done).reverse ++ m.aside.drop count =
        m.done.reverse ++ m.aside := by simp
    rw [Merging.takeAside, hsplit]
    exact h.aside
  giving := by
    have hsplit : ((m.aside.take count).reverse ++ m.done).reverse ++ m.giving =
        m.done.reverse ++ (m.aside.take count ++ m.giving) := by simp
    rw [Merging.takeAside, hsplit]
    obtain ⟨hdone, haside, hbefore⟩ := List.pairwise_append.1 h.aside
    obtain ⟨-, hgiving, hbefore'⟩ := List.pairwise_append.1 h.giving
    refine List.pairwise_append.2 ⟨hdone,
      List.pairwise_append.2 ⟨haside.sublist (List.take_sublist ..), hgiving, hfirst⟩, ?_⟩
    intro x hx y hy
    rcases List.mem_append.1 hy with hy | hy
    · exact hbefore x hx y (List.mem_of_mem_take hy)
    · exact hbefore' x hx y hy
  last := by
    intro x hx y hy
    simp only [Merging.takeAside, List.getLast?_drop] at hx
    split at hx
    · cases hx
    · exact h.last x hx y hy

theorem takeGiving (h : m.Sound before rank) {count : Nat}
    (hfirst : ∀ y ∈ m.giving.take count, ∀ x ∈ m.aside, rank y < rank x) :
    (m.takeGiving count).Sound before rank where
  ranks := h.ranks.mono ((List.drop_sublist count m.giving).append_left m.aside).subperm
  aside := by
    have hsplit : ((m.giving.take count).reverse ++ m.done).reverse ++ m.aside =
        m.done.reverse ++ (m.giving.take count ++ m.aside) := by simp
    rw [Merging.takeGiving, hsplit]
    obtain ⟨hdone, haside, hbefore⟩ := List.pairwise_append.1 h.aside
    obtain ⟨-, hgiving, hbefore'⟩ := List.pairwise_append.1 h.giving
    refine List.pairwise_append.2 ⟨hdone,
      List.pairwise_append.2 ⟨hgiving.sublist (List.take_sublist ..), haside, hfirst⟩, ?_⟩
    intro x hx y hy
    rcases List.mem_append.1 hy with hy | hy
    · exact hbefore' x hx y (List.mem_of_mem_take hy)
    · exact hbefore x hx y hy
  giving := by
    have hsplit : ((m.giving.take count).reverse ++ m.done).reverse ++ m.giving.drop count =
        m.done.reverse ++ m.giving := by simp
    rw [Merging.takeGiving, hsplit]
    exact h.giving
  last := fun x hx y hy => h.last x hx y (List.mem_of_mem_drop hy)

theorem settle (h : m.Sound before rank) (hsettled : m.isSettled = true) :
    IsSortedBy rank m.settle := by
  rw [isSettled, Bool.or_eq_true, List.isEmpty_iff, decide_eq_true_eq] at hsettled
  rw [Merging.settle]
  by_cases hgiving : m.giving = []
  · rw [hgiving, List.isEmpty_nil, if_pos rfl]
    exact h.aside
  · rw [if_neg (by simpa using hgiving), ← List.append_assoc]
    obtain ⟨hdone, haside, hbefore⟩ := List.pairwise_append.1 h.aside
    refine List.pairwise_append.2 ⟨h.giving, haside, fun y hy x hx => ?_⟩
    rcases List.mem_append.1 hy with hy | hy
    · exact hbefore y hy x hx
    · -- At most one item was left aside, and so it is the last one.
      obtain ⟨z, hz⟩ := List.length_eq_one_iff.1
        (Nat.le_antisymm (hsettled.resolve_left hgiving) (List.length_pos_of_mem hx))
      rw [hz, List.mem_singleton] at hx
      exact h.last x (by rw [hz, hx, List.getLast?_singleton]; rfl) y hy

/-! ### Single steps -/

theorem pending_takeAside_le (count : Nat) (m : Merging α) :
    (m.takeAside count).pending ≤ m.pending := by
  simp only [pending, Merging.takeAside, List.length_drop]
  omega

theorem pending_takeGiving_le (count : Nat) (m : Merging α) :
    (m.takeGiving count).pending ≤ m.pending := by
  simp only [pending, Merging.takeGiving, List.length_drop]
  omega

theorem exists_of_isSettled_eq_false (h : m.isSettled = false) :
    ∃ x xs y ys, m.aside = x :: xs ∧ m.giving = y :: ys := by
  obtain ⟨done, aside, giving⟩ := m
  cases aside with
  | nil => simp [isSettled] at h
  | cons x xs =>
      cases giving with
      | nil => simp [isSettled] at h
      | cons y ys => exact ⟨x, xs, y, ys, rfl, rfl⟩

theorem pending_pos_of_isSettled_eq_false (h : m.isSettled = false) : 0 < m.pending := by
  obtain ⟨x, xs, y, ys, haside, -⟩ := exists_of_isSettled_eq_false h
  rw [pending, haside, List.length_cons]
  omega

/-- The first item that gives way comes first. -/
theorem takeGiving_one (h : m.Sound before rank) {y : α} {ys : List α}
    (hgiving : m.giving = y :: ys) (hfirst : ∀ x ∈ m.aside, rank y < rank x) :
    (m.takeGiving 1).Sound before rank := by
  refine h.takeGiving fun z hz x hx => ?_
  rw [hgiving, List.take_succ_cons, List.take_zero, List.mem_singleton] at hz
  rw [hz]
  exact hfirst x hx

/-- The first item that was kept aside comes first. -/
theorem takeAside_one (h : m.Sound before rank) {x : α} {xs : List α} (haside : m.aside = x :: xs)
    (hfirst : ∀ y ∈ m.giving, rank x < rank y) : (m.takeAside 1).Sound before rank := by
  refine h.takeAside fun z hz y hy => ?_
  rw [haside, List.take_succ_cons, List.take_zero, List.mem_singleton] at hz
  rw [hz]
  exact hfirst y hy

theorem lt_of_aside (h : m.Sound before rank) {x : α} {xs : List α} (haside : m.aside = x :: xs) :
    ∀ z ∈ xs, rank x < rank z := by
  have hsorted := h.sorted_aside
  rw [haside] at hsorted
  exact (List.pairwise_cons.1 hsorted).1

theorem lt_of_giving (h : m.Sound before rank) {y : α} {ys : List α}
    (hgiving : m.giving = y :: ys) : ∀ z ∈ ys, rank y < rank z := by
  have hsorted := h.sorted_giving
  rw [hgiving] at hsorted
  exact (List.pairwise_cons.1 hsorted).1

/-- Two next items are compared, and the one that comes first is taken. -/
theorem step (h : m.Sound before rank) {x y : α} {xs ys : List α} (haside : m.aside = x :: xs)
    (hgiving : m.giving = y :: ys) :
    (before y x = .ok true ∧ (m.takeGiving 1).Sound before rank ∧
      (m.takeGiving 1).pending < m.pending) ∨
    (before y x = .ok false ∧ (m.takeAside 1).Sound before rank ∧
      (m.takeAside 1).pending < m.pending) := by
  have hx : x ∈ m.aside ++ m.giving := by simp [haside]
  have hy : y ∈ m.aside ++ m.giving := by simp [hgiving]
  have hne : rank x ≠ rank y := h.ranks.ne_of_append (by simp [haside]) (by simp [hgiving])
  rcases lt_or_gt_of_ne hne with hlt | hlt
  · refine .inr ⟨h.ranks.less_eq_false hy hx hlt, h.takeAside_one haside fun z hz => ?_, ?_⟩
    · rw [hgiving] at hz
      rcases List.mem_cons.1 hz with rfl | hz
      · exact hlt
      · exact hlt.trans (h.lt_of_giving hgiving z hz)
    · simp [pending, Merging.takeAside, haside]
  · refine .inl ⟨h.ranks.less_eq_true hy hx hlt, h.takeGiving_one hgiving fun z hz => ?_, ?_⟩
    · rw [haside] at hz
      rcases List.mem_cons.1 hz with rfl | hz
      · exact hlt
      · exact hlt.trans (h.lt_of_aside haside z hz)
    · simp [pending, Merging.takeGiving, hgiving]

theorem exists_oneByOne (h : m.Sound before rank) (limit fuel asideWins givingWins : Nat) :
    ∃ m', oneByOne before limit fuel asideWins givingWins m = .ok m' ∧ m'.Sound before rank ∧
      m'.pending ≤ m.pending ∧ (0 < fuel → m'.isSettled = false → m'.pending < m.pending) := by
  induction fuel generalizing asideWins givingWins m with
  | zero => exact ⟨m, rfl, h, Nat.le_refl _, fun hfuel => absurd hfuel (Nat.lt_irrefl 0)⟩
  | succ fuel ih =>
      rw [oneByOne.eq_def]
      dsimp only
      by_cases hsettled : m.isSettled = true
      · rw [hsettled]
        exact ⟨m, rfl, h, Nat.le_refl _, fun _ hopen => absurd hsettled (Bool.eq_false_iff.1 hopen)⟩
      · rw [Bool.eq_false_iff.2 hsettled]
        obtain ⟨x, xs, y, ys, haside, hgiving⟩ :=
          exists_of_isSettled_eq_false (Bool.eq_false_iff.2 hsettled)
        rw [haside, hgiving]
        dsimp only
        rcases h.step haside hgiving with ⟨hless, hsound, hpending⟩ | ⟨hless, hsound, hpending⟩
        · rw [hless, ok_bind, if_pos rfl]
          split
          · exact ⟨_, rfl, hsound, Nat.le_of_lt hpending, fun _ _ => hpending⟩
          · obtain ⟨m', heq, hsound', hle, -⟩ := ih hsound 0 (givingWins + 1)
            exact ⟨m', heq, hsound', by omega, fun _ _ => by omega⟩
        · rw [hless, ok_bind, if_neg (by decide)]
          split
          · exact ⟨_, rfl, hsound, Nat.le_of_lt hpending, fun _ _ => hpending⟩
          · obtain ⟨m', heq, hsound', hle, -⟩ := ih hsound (asideWins + 1) 0
            exact ⟨m', heq, hsound', by omega, fun _ _ => by omega⟩

end Sound

/-! ### Leaps -/

/-- A way to take items that keeps a merge sound. -/
def IsLeap (before : Less ε α) (rank : α → β) (take : Merging α → Except ε (Nat × Merging α)) :
    Prop :=
  ∀ m : Merging α, m.Sound before rank → ∃ count m', take m = .ok (count, m') ∧
    m'.Sound before rank ∧ m'.pending ≤ m.pending

theorem isLeap_leapAside (direction : Direction) :
    IsLeap before rank (leapAside direction before) := by
  intro m h
  by_cases hsettled : m.isSettled = true
  · exact ⟨0, m, by rw [leapAside.eq_def, hsettled], h, Nat.le_refl _⟩
  · obtain ⟨x, xs, y, ys, haside, hgiving⟩ :=
      Sound.exists_of_isSettled_eq_false (Bool.eq_false_iff.2 hsettled)
    have hy : y ∈ m.giving := by simp [hgiving]
    have hy' : y ∈ m.aside ++ m.giving := List.mem_append_right _ hy
    obtain ⟨near, far, hsplit, hnear, hfar, hplace⟩ :=
      h.sorted_aside.exists_splitsAt (before y) (fun z hz => h.ranks.ne_of_append hz hy)
        (fun z hz => h.ranks.less_eq_false hy' (List.mem_append_left _ hz))
        (fun z hz => h.ranks.less_eq_true hy' (List.mem_append_left _ hz))
    have htaken : (m.takeAside near.length).Sound before rank := by
      refine h.takeAside fun z hz w hw => ?_
      rw [hsplit, List.take_left] at hz
      rw [hgiving] at hw
      rcases List.mem_cons.1 hw with rfl | hw
      · exact hnear z hz
      · exact (hnear z hz).trans (h.lt_of_giving hgiving w hw)
    have hnext : ((m.takeAside near.length).takeGiving 1).Sound before rank := by
      have hgiving' : (m.takeAside near.length).giving = y :: ys := hgiving
      refine htaken.takeGiving_one hgiving' fun z hz => ?_
      have hz' : z ∈ m.aside.drop near.length := hz
      rw [hsplit, List.drop_left] at hz'
      exact hfar z hz'
    have hle := Sound.pending_takeAside_le near.length m
    have hle' := Sound.pending_takeGiving_le 1 (m.takeAside near.length)
    rw [leapAside.eq_def, Bool.eq_false_iff.2 hsettled, hgiving]
    dsimp only
    rw [(hplace _ ?_).gallop_eq, ok_bind]
    swap
    · intro i z hz
      simp only [hz]
    split
    · exact ⟨_, _, rfl, htaken, hle⟩
    · exact ⟨_, _, rfl, hnext, Nat.le_trans hle' hle⟩

theorem isLeap_leapGiving (direction : Direction) :
    IsLeap before rank (leapGiving direction before) := by
  intro m h
  by_cases hsettled : m.isSettled = true
  · exact ⟨0, m, by rw [leapGiving.eq_def, hsettled], h, Nat.le_refl _⟩
  · obtain ⟨x, xs, y, ys, haside, hgiving⟩ :=
      Sound.exists_of_isSettled_eq_false (Bool.eq_false_iff.2 hsettled)
    have hx : x ∈ m.aside := by simp [haside]
    have hx' : x ∈ m.aside ++ m.giving := List.mem_append_left _ hx
    obtain ⟨near, far, hsplit, hnear, hfar, hplace⟩ :=
      h.sorted_giving.exists_splitsAt (fun z => (before z x).map not)
        (fun z hz => (h.ranks.ne_of_append hx hz).symm)
        (fun z hz hlt => by
          rw [h.ranks.less_eq_true (List.mem_append_right _ hz) hx' hlt]
          rfl)
        (fun z hz hlt => by
          rw [h.ranks.less_eq_false (List.mem_append_right _ hz) hx' hlt]
          rfl)
    have htaken : (m.takeGiving near.length).Sound before rank := by
      refine h.takeGiving fun z hz w hw => ?_
      rw [hsplit, List.take_left] at hz
      rw [haside] at hw
      rcases List.mem_cons.1 hw with rfl | hw
      · exact hnear z hz
      · exact (hnear z hz).trans (h.lt_of_aside haside w hw)
    have hnext : ((m.takeGiving near.length).takeAside 1).Sound before rank := by
      have haside' : (m.takeGiving near.length).aside = x :: xs := haside
      refine htaken.takeAside_one haside' fun z hz => ?_
      have hz' : z ∈ m.giving.drop near.length := hz
      rw [hsplit, List.drop_left] at hz'
      exact hfar z hz'
    have hle := Sound.pending_takeGiving_le near.length m
    have hle' := Sound.pending_takeAside_le 1 (m.takeGiving near.length)
    rw [leapGiving.eq_def, Bool.eq_false_iff.2 hsettled, haside]
    dsimp only
    rw [(hplace _ ?_).gallop_eq, ok_bind]
    swap
    · intro i z hz
      simp only [hz]
    split
    · exact ⟨_, _, rfl, htaken, hle⟩
    · exact ⟨_, _, rfl, hnext, Nat.le_trans hle' hle⟩

/-- A turn is two leaps, one in each run. -/
theorem IsLeap.turn {first second : Merging α → Except ε (Nat × Merging α)}
    (hfirst : IsLeap before rank first) (hsecond : IsLeap before rank second)
    (h : m.Sound before rank) : ∃ i m₁ j m₂, first m = .ok (i, m₁) ∧ second m₁ = .ok (j, m₂) ∧
      m₂.Sound before rank ∧ m₂.pending ≤ m.pending := by
  obtain ⟨i, m₁, hm₁, hsound₁, hle₁⟩ := hfirst m h
  obtain ⟨j, m₂, hm₂, hsound₂, hle₂⟩ := hsecond m₁ hsound₁
  exact ⟨i, m₁, j, m₂, hm₁, hm₂, hsound₂, Nat.le_trans hle₂ hle₁⟩

theorem isLeap_leaps (direction : Direction) (fuel limit : Nat) :
    IsLeap before rank (leaps direction before fuel limit) := by
  induction fuel generalizing limit with
  | zero => exact fun m h => ⟨limit, m, rfl, h, Nat.le_refl _⟩
  | succ fuel ih =>
      intro m h
      -- What comes after a turn is the same in both directions.
      have hrest : ∀ {limit i j : Nat} {m₂ : Merging α}, m₂.Sound before rank →
          m₂.pending ≤ m.pending → ∃ limit' m', (if m₂.isSettled = true then .ok (limit, m₂)
            else if worth ≤ i ∨ worth ≤ j then leaps direction before fuel limit m₂
            else .ok (limit + 1, m₂)) = .ok (limit', m') ∧ m'.Sound before rank ∧
              m'.pending ≤ m.pending := by
        intro limit i j m₂ hsound hle
        split
        · exact ⟨_, _, rfl, hsound, hle⟩
        · split
          · obtain ⟨limit', m', heq, hsound', hle'⟩ := ih limit m₂ hsound
            exact ⟨limit', m', heq, hsound', Nat.le_trans hle' hle⟩
          · exact ⟨_, _, rfl, hsound, hle⟩
      unfold leaps
      cases direction with
      | forward =>
          obtain ⟨i, m₁, j, m₂, hm₁, hm₂, hsound, hle⟩ :=
            (isLeap_leapAside .forward).turn (isLeap_leapGiving .forward) h
          dsimp only
          rw [hm₁, ok_bind]
          dsimp only
          rw [hm₂, ok_bind]
          exact hrest hsound hle
      | backward =>
          obtain ⟨i, m₁, j, m₂, hm₁, hm₂, hsound, hle⟩ :=
            (isLeap_leapGiving .backward).turn (isLeap_leapAside .backward) h
          dsimp only
          rw [hm₁, ok_bind]
          dsimp only
          rw [hm₂, ok_bind]
          exact hrest hsound hle

/-- Every round takes an item, so that the rounds are enough to merge to the end. -/
theorem Sound.exists_run (h : m.Sound before rank) (direction : Direction) (fuel limit : Nat)
    (hfuel : m.pending ≤ fuel) :
    ∃ limit' merged, run direction before fuel limit m = .ok (limit', merged) ∧
      IsSortedBy rank merged := by
  induction fuel generalizing limit m with
  | zero =>
      have hsettled : m.isSettled = true := by
        by_contra hopen
        have hpositive := Sound.pending_pos_of_isSettled_eq_false (Bool.eq_false_iff.2 hopen)
        omega
      exact ⟨limit, m.settle, rfl, h.settle hsettled⟩
  | succ fuel ih =>
      obtain ⟨m₁, hone, hsound₁, hle₁, hlt₁⟩ := h.exists_oneByOne limit m.pending 0 0
      rw [run, hone, ok_bind]
      by_cases hsettled₁ : m₁.isSettled = true
      · rw [if_pos hsettled₁]
        exact ⟨limit, m₁.settle, rfl, hsound₁.settle hsettled₁⟩
      · rw [if_neg hsettled₁]
        obtain ⟨limit₂, m₂, hleaps, hsound₂, hle₂⟩ :=
          isLeap_leaps direction m₁.pending (limit + 1) m₁ hsound₁
        rw [hleaps, ok_bind]
        dsimp only
        by_cases hsettled₂ : m₂.isSettled = true
        · rw [if_pos hsettled₂]
          exact ⟨limit₂, m₂.settle, rfl, hsound₂.settle hsettled₂⟩
        · rw [if_neg hsettled₂]
          have hpositive := Sound.pending_pos_of_isSettled_eq_false (Bool.eq_false_iff.2 hsettled₁)
          have hlt := hlt₁ (by omega) (Bool.eq_false_iff.2 hsettled₁)
          exact ih hsound₂ _ (by omega)

end Merging

variable {less : Less ε α} {left right : List α}

/-- Two runs can be merged from their beginnings when the first item of the right one comes first,
and the last item of the left one comes last. -/
theorem exists_mergeForward (hranks : Ranks less rank (left ++ right))
    (hleft : IsSortedBy rank left) (hright : IsSortedBy rank right) {x y : α} {xs ys : List α}
    (hx : left = xs ++ [x]) (hy : right = y :: ys) (hfirst : ∀ z ∈ left, rank y < rank z)
    (hlast : ∀ z ∈ right, rank z < rank x) (limit : Nat) : ∃ limit' merged,
      mergeForward less limit left right = .ok (limit', merged) ∧ IsSortedBy rank merged := by
  have hsound : Merging.Sound less rank ⟨[], left, right⟩ := by
    refine ⟨hranks, hleft, hright, fun z hz => ?_⟩
    rw [hx, List.getLast?_concat] at hz
    cases hz
    exact hlast
  exact (hsound.takeGiving_one hy hfirst).exists_run _ _ _ (Nat.le_refl _)

/-- A merge from the ends is one from the beginnings in the order that goes down. -/
theorem exists_mergeBackward (hranks : Ranks less rank (left ++ right))
    (hleft : IsSortedBy rank left) (hright : IsSortedBy rank right) {x y : α} {xs ys : List α}
    (hx : left = xs ++ [x]) (hy : right = y :: ys) (hfirst : ∀ z ∈ left, rank y < rank z)
    (hlast : ∀ z ∈ right, rank z < rank x) (limit : Nat) : ∃ limit' merged,
      mergeBackward less limit left right = .ok (limit', merged) ∧ IsSortedBy rank merged := by
  have hsound : Merging.Sound (fun y x => less x y) (fun x => OrderDual.toDual (rank x))
      ⟨[], right.reverse, left.reverse⟩ := by
    refine ⟨hranks.dual.mono ?_, hright.reverse, hleft.reverse, fun z hz w hw => ?_⟩
    · rw [← List.reverse_append]
      exact (List.reverse_perm _).subperm
    · rw [hy, List.reverse_cons, List.getLast?_concat] at hz
      cases hz
      exact hfirst w (List.mem_reverse.1 hw)
  have hlast' : left.reverse = x :: xs.reverse := by simp [hx]
  obtain ⟨limit', merged, hrun, hsorted⟩ :=
    (hsound.takeGiving_one hlast' fun z hz => hlast z (List.mem_reverse.1 hz)).exists_run
      .backward _ limit (Nat.le_refl _)
  refine ⟨limit', merged.reverse, ?_, List.pairwise_reverse.2 hsorted⟩
  rw [mergeBackward, hrun]
  rfl

/-- What comes before the merged items stays before them, and what comes behind stays behind. -/
theorem IsSortedBy.within {early inner outer late merged : List α}
    (hleft : IsSortedBy rank (early ++ inner)) (hright : IsSortedBy rank (outer ++ late))
    (hearly : ∀ x ∈ early, ∀ y ∈ outer ++ late, rank x < rank y)
    (hlate : ∀ x ∈ inner, ∀ y ∈ late, rank x < rank y) (hmerged : IsSortedBy rank merged)
    (hperm : merged.Perm (inner ++ outer)) : IsSortedBy rank (early ++ merged ++ late) := by
  obtain ⟨hearlySorted, -, hearlyInner⟩ := List.pairwise_append.1 hleft
  obtain ⟨-, hlateSorted, houterLate⟩ := List.pairwise_append.1 hright
  refine List.pairwise_append.2
    ⟨List.pairwise_append.2 ⟨hearlySorted, hmerged, ?_⟩, hlateSorted, ?_⟩
  · intro x hx y hy
    rcases List.mem_append.1 (hperm.mem_iff.1 hy) with hy | hy
    · exact hearlyInner x hx y hy
    · exact hearly x hx y (List.mem_append_left _ hy)
  · intro x hx y hy
    rcases List.mem_append.1 hx with hx | hx
    · exact hearly x hx y (List.mem_append_right _ hy)
    · rcases List.mem_append.1 (hperm.mem_iff.1 hx) with hx | hx
      · exact hlate x hx y hy
      · exact houterLate x hx y hy

theorem exists_merge (hranks : Ranks less rank (left ++ right)) (hleft : IsSortedBy rank left)
    (hright : IsSortedBy rank right) (limit : Nat) : ∃ limit' merged,
      merge less limit left right = .ok (limit', merged) ∧ IsSortedBy rank merged := by
  cases right with
  | nil => exact ⟨limit, left, rfl, hleft⟩
  | cons y ys =>
      have hy : y ∈ left ++ y :: ys := by simp
      obtain ⟨early, inner, hsplit, hearly, hinner, hplace⟩ := hleft.exists_splitsAt (less y)
        (fun z hz => hranks.ne_of_append hz (List.mem_cons_self ..))
        (fun z hz => hranks.less_eq_false hy (List.mem_append_left _ hz))
        (fun z hz => hranks.less_eq_true hy (List.mem_append_left _ hz))
      have hbefore : ∀ x ∈ early, ∀ z ∈ y :: ys, rank x < rank z := by
        intro x hx z hz
        rcases List.mem_cons.1 hz with rfl | hz
        · exact hearly x hx
        · exact (hearly x hx).trans ((List.pairwise_cons.1 hright).1 z hz)
      rw [merge.eq_def]
      dsimp only
      rw [(hplace _ ?_).gallop_eq, ok_bind]
      swap
      · intro i z hz
        simp only [hz]
      subst hsplit
      rw [List.drop_left, List.take_left]
      rcases List.eq_nil_or_concat' inner with rfl | ⟨init, x, rfl⟩
      · refine ⟨limit, _, rfl, ?_⟩
        rw [List.append_nil] at hleft ⊢
        exact List.pairwise_append.2 ⟨hleft, hright, hbefore⟩
      · have hx : x ∈ early ++ (init ++ [x]) ++ y :: ys := by simp
        obtain ⟨late, outer, hsplit', hlate, houter, hplace'⟩ :=
          hright.reverse.exists_splitsAt (fun z => less z x)
            (r := OrderDual.toDual (rank x))
            (fun z hz heq => hranks.ne_of_append (x := x) (by simp) (List.mem_reverse.1 hz)
              (OrderDual.toDual_inj.1 heq.symm))
            (fun z hz hlt => hranks.less_eq_false
              (List.mem_append_right _ (List.mem_reverse.1 hz)) hx hlt)
            (fun z hz hlt => hranks.less_eq_true
              (List.mem_append_right _ (List.mem_reverse.1 hz)) hx hlt)
        have hcut : y :: ys = outer.reverse ++ late.reverse := by
          rw [← List.reverse_append, ← hsplit', List.reverse_reverse]
        rw [List.getLast?_concat]
        dsimp only
        rw [List.length_reverse] at hplace'
        rw [(hplace' _ ?_).gallop_eq, ok_bind]
        swap
        · intro i z hz
          simp only [hz]
        have hlength : (y :: ys).length - late.length = outer.reverse.length := by
          rw [hcut]
          simp
        rw [hlength]
        rw [hcut] at hright hbefore hranks ⊢
        rw [List.take_left, List.drop_left]
        have hbehind : ∀ z ∈ init ++ [x], ∀ w ∈ late.reverse, rank z < rank w := by
          intro z hz w hw
          have hxw : rank x < rank w := hlate w (List.mem_reverse.1 hw)
          rcases List.mem_append.1 hz with hz | hz
          · have hinit := (List.pairwise_append.1 hleft).2.1
            exact ((List.pairwise_append.1 hinit).2.2 z hz x (List.mem_singleton_self x)).trans hxw
          · rwa [List.mem_singleton.1 hz]
        by_cases hempty : outer.reverse = []
        · rw [hempty] at hright hbefore ⊢
          refine ⟨limit, _, rfl, hleft.within hright hbefore hbehind
            (List.pairwise_append.1 hleft).2.1 ?_⟩
          rw [List.append_nil]
        · rw [if_neg (by simpa using hempty)]
          obtain ⟨y', outer', houter'⟩ := List.exists_cons_of_ne_nil hempty
          have hfirst : ∀ z ∈ init ++ [x], rank y' < rank z := by
            rw [houter', List.cons_append] at hcut
            cases hcut
            exact hinner
          have hlast : ∀ z ∈ outer.reverse, rank z < rank x :=
            fun z hz => houter z (List.mem_reverse.1 hz)
          have hinnerRanks : Ranks less rank (init ++ [x] ++ outer.reverse) :=
            hranks.mono ((List.sublist_append_right early _).append
              (List.sublist_append_left _ late.reverse)).subperm
          have hinnerSorted := (List.pairwise_append.1 hleft).2.1
          have houterSorted := (List.pairwise_append.1 hright).1
          split
          · obtain ⟨limit', merged, hmerge, hsorted⟩ := exists_mergeForward hinnerRanks hinnerSorted
              houterSorted rfl houter' hfirst hlast limit
            rw [hmerge, ok_bind]
            exact ⟨limit', _, rfl,
              hleft.within hright hbefore hbehind hsorted (perm_mergeForward hmerge)⟩
          · obtain ⟨limit', merged, hmerge, hsorted⟩ := exists_mergeBackward hinnerRanks
              hinnerSorted houterSorted rfl houter' hfirst hlast limit
            rw [hmerge, ok_bind]
            exact ⟨limit', _, rfl,
              hleft.within hright hbefore hbehind hsorted (perm_mergeBackward hmerge)⟩

end Merges

end MergeOnRead.Sorting
