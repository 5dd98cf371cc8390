import Mathlib.Data.List.Forall2
import Mathlib.Data.List.Nodup
import Mathlib.Data.List.Sort

/-!
# Lists

Facts about lists for which the standard library has no name: a property that each item either
brings or leaves as it is (`foldl_iff_exists`), lists without repetitions, lists that are related to
two lists in a row, and items that are picked by their numbers.
-/

namespace MergeOnRead

variable {α σ : Type}

/-- A property that an item either brings or leaves as it is holds in the end when it did at
the beginning, or when some item brings it. -/
theorem foldl_iff_exists {step : σ → α → σ} {Q : σ → Prop} {R : α → Prop}
    (hstep : ∀ s x, Q (step s x) ↔ Q s ∨ R x) (s : σ) (xs : List α) :
    Q (xs.foldl step s) ↔ Q s ∨ ∃ x ∈ xs, R x := by
  induction xs generalizing s with
  | nil => simp
  | cons x xs ih =>
      rw [List.foldl_cons, ih, hstep]
      simp [or_assoc]

/-- Repetitions are dropped item by item: what is behind an item loses those that equal it. -/
theorem eraseDups_induction [BEq α] {motive : List α → Prop} (nil : motive [])
    (cons : ∀ x xs, motive (xs.filter fun y => !y == x) → motive (x :: xs)) (xs : List α) :
    motive xs := by
  induction hn : xs.length using Nat.strongRecOn generalizing xs with
  | ind n ih =>
      cases xs with
      | nil => exact nil
      | cons x xs =>
          apply cons
          have := List.length_filter_le (fun y => !y == x) xs
          rw [List.length_cons] at hn
          exact ih _ (by omega) _ rfl

theorem nodup_eraseDups [BEq α] [LawfulBEq α] (xs : List α) : xs.eraseDups.Nodup := by
  induction xs using eraseDups_induction with
  | nil => simp
  | cons x xs ih =>
      rw [List.eraseDups_cons, List.nodup_cons]
      exact ⟨by simp, ih⟩

theorem eraseDups_sublist [BEq α] [LawfulBEq α] (xs : List α) : xs.eraseDups.Sublist xs := by
  induction xs using eraseDups_induction with
  | nil => exact List.Sublist.refl _
  | cons x xs ih =>
      rw [List.eraseDups_cons]
      exact (ih.trans List.filter_sublist).cons_cons x

theorem eraseDups_of_nodup [BEq α] [LawfulBEq α] {xs : List α} (h : xs.Nodup) :
    xs.eraseDups = xs := by
  induction xs with
  | nil => rfl
  | cons x xs ih =>
      obtain ⟨hx, hxs⟩ := List.nodup_cons.1 h
      have hkept : (xs.filter fun y => !y == x) = xs := by
        rw [List.filter_eq_self]
        intro y hy
        have hne : y ≠ x := fun hyx => hx (hyx ▸ hy)
        simpa using hne
      rw [List.eraseDups_cons, hkept, ih hxs]

theorem eraseDups_concat [BEq α] [LawfulBEq α] {xs : List α} {x : α} [Decidable (x ∈ xs)] :
    (xs ++ [x]).eraseDups = if x ∈ xs then xs.eraseDups else xs.eraseDups ++ [x] := by
  rw [List.eraseDups_append, List.removeAll]
  by_cases hx : x ∈ xs
  · rw [if_pos hx, List.filter_cons_of_neg (by simpa using hx)]
    simp
  · rw [if_neg hx, List.filter_cons_of_pos (by simpa using hx)]
    simp [List.eraseDups_cons]

/-- Where different items are sent to different ones, repetitions may be dropped before or after. -/
theorem eraseDups_filterMap {β : Type} [BEq α] [LawfulBEq α] [BEq β] [LawfulBEq β]
    {f : α → Option β} {xs : List α}
    (hf : ∀ x ∈ xs, ∀ y ∈ xs, ∀ b, f x = some b → f y = some b → x = y) :
    (xs.filterMap f).eraseDups = xs.eraseDups.filterMap f := by
  induction xs using eraseDups_induction with
  | nil => rfl
  | cons x xs ih =>
      have hrest := ih fun y hy z hz => hf y (List.mem_cons_of_mem _ (List.mem_filter.1 hy).1) z
        (List.mem_cons_of_mem _ (List.mem_filter.1 hz).1)
      rw [List.eraseDups_cons]
      cases hx : f x with
      | none =>
          have hsame : (xs.filter fun y => !y == x).filterMap f = xs.filterMap f := by
            rw [List.filterMap_filter]
            refine List.filterMap_congr fun y _ => ?_
            by_cases hyx : y = x
            · simp [hyx, hx]
            · simp [hyx]
          rw [List.filterMap_cons_none hx, List.filterMap_cons_none hx, ← hrest, hsame]
      | some b =>
          -- What equals the first result comes from what equals the first item.
          have hsame : ((xs.filterMap f).filter fun c => !c == b) =
              (xs.filter fun y => !y == x).filterMap f := by
            rw [List.filter_filterMap, List.filterMap_filter]
            refine List.filterMap_congr fun y hy => ?_
            by_cases hyx : y = x
            · simp [hyx, hx]
            · have hne : ∀ c, f y = some c → c ≠ b := by
                rintro c hc rfl
                exact hyx (hf y (List.mem_cons_of_mem _ hy) x (List.mem_cons_self ..) c hc hx)
              cases hy' : f y with
              | none => simp
              | some c => simp [hyx, hne c hy', Option.filter]
          rw [List.filterMap_cons_some hx, List.filterMap_cons_some hx, List.eraseDups_cons,
            hsame, hrest]

theorem exists_mem_of_forall₂ {β : Type} {R : α → β → Prop} {xs : List α} {ys : List β}
    (h : List.Forall₂ R xs ys) {y : β} (hy : y ∈ ys) : ∃ x ∈ xs, R x y := by
  induction h with
  | nil => cases hy
  | @cons x y' xs ys hxy hrest ih =>
      rcases List.mem_cons.1 hy with rfl | hy
      · exact ⟨x, List.mem_cons_self .., hxy⟩
      · obtain ⟨x', hx', hxy'⟩ := ih hy
        exact ⟨x', List.mem_cons_of_mem _ hx', hxy'⟩

theorem forall₂_imp_of_mem {β : Type} {R S : α → β → Prop} {xs : List α} {ys : List β}
    (h : List.Forall₂ R xs ys) (himp : ∀ x ∈ xs, ∀ y ∈ ys, R x y → S x y) :
    List.Forall₂ S xs ys := by
  induction h with
  | nil => exact .nil
  | cons hxy hrest ih =>
      refine .cons (himp _ (List.mem_cons_self ..) _ (List.mem_cons_self ..) hxy) (ih ?_)
      intro x hx y hy
      exact himp x (List.mem_cons_of_mem _ hx) y (List.mem_cons_of_mem _ hy)

theorem flatMap_ite {β : Type} (p : α → Prop) [DecidablePred p] (f : α → List β) (xs : List α) :
    (xs.flatMap fun x => if p x then f x else []) = (xs.filter fun x => p x).flatMap f := by
  induction xs with
  | nil => rfl
  | cons x xs ih =>
      rw [List.flatMap_cons, ih, List.filter_cons]
      by_cases hx : p x
      · simp [hx]
      · simp [hx]

theorem forall₂_flatMap {β γ : Type} {R : β → γ → Prop} {f : α → List β} {g : α → List γ}
    {xs : List α} (h : ∀ x ∈ xs, List.Forall₂ R (f x) (g x)) :
    List.Forall₂ R (xs.flatMap f) (xs.flatMap g) := by
  induction xs with
  | nil => exact .nil
  | cons x xs ih =>
      rw [List.flatMap_cons, List.flatMap_cons]
      exact List.rel_append (h x (List.mem_cons_self ..))
        (ih fun y hy => h y (List.mem_cons_of_mem _ hy))

theorem exists_of_forall₂_append {β : Type} {R : α → β → Prop} {xs ys : List α} {zs : List β}
    (h : List.Forall₂ R (xs ++ ys) zs) :
    ∃ as bs, List.Forall₂ R xs as ∧ List.Forall₂ R ys bs ∧ zs = as ++ bs := by
  induction xs generalizing zs with
  | nil => exact ⟨[], zs, .nil, h, rfl⟩
  | cons x xs ih =>
      obtain ⟨z, rest, hz, hrest, rfl⟩ := List.forall₂_cons_left_iff.1 h
      obtain ⟨as, bs, has, hbs, rfl⟩ := ih hrest
      exact ⟨z :: as, bs, .cons hz has, hbs, rfl⟩

theorem lookup_eq_some_iff_mem {β : Type} [BEq α] [LawfulBEq α] {xs : List (α × β)}
    (h : (xs.map (·.1)).Nodup) {a : α} {b : β} : xs.lookup a = some b ↔ (a, b) ∈ xs := by
  induction xs with
  | nil => simp
  | cons x xs ih =>
      obtain ⟨hx, hxs⟩ := List.nodup_cons.1 h
      rw [List.lookup_cons]
      by_cases hax : a = x.1
      · obtain rfl : a = x.1 := hax
        have hnone : ∀ b, (x.1, b) ∉ xs := fun b hb => hx (List.mem_map.2 ⟨_, hb, rfl⟩)
        simp [hnone, Prod.ext_iff, eq_comm]
      · rw [beq_false_of_ne hax, ih hxs]
        simp [hax, Prod.ext_iff]

/-- Items are picked in order when their numbers ascend. -/
theorem map_getD_of_ascending {β : Type} {xs : List α} {g : α → β} {numbers : List Nat}
    {p : α → Bool} {d : β} (hnumbers : numbers.Pairwise (· < ·))
    (hmem : ∀ i, i ∈ numbers ↔ ∃ hi : i < xs.length, p xs[i] = true) :
    numbers.map (fun i => (xs.map g).getD i d) = (xs.filter p).map g := by
  have hfilter : numbers = (List.range xs.length).filter fun i => (xs[i]?).any p := by
    refine hnumbers.eq_of_mem_iff (List.pairwise_lt_range.filter _) fun i => ?_
    rw [hmem, List.mem_filter, List.mem_range]
    constructor
    · rintro ⟨hi, hp⟩
      exact ⟨hi, by simpa [hi] using hp⟩
    · rintro ⟨hi, hp⟩
      exact ⟨hi, by simpa [hi] using hp⟩
  rw [hfilter]
  clear hfilter hmem hnumbers numbers
  induction xs with
  | nil => rfl
  | cons x xs ih =>
      rw [List.length_cons, List.range_succ_eq_map, List.filter_cons, List.filter_map]
      have hrest : ((List.range xs.length).filter ((fun i => ((x :: xs)[i]?).any p) ∘ Nat.succ)).map
          ((fun i => ((x :: xs).map g).getD i d) ∘ Nat.succ) = (xs.filter p).map g := ih
      by_cases hx : p x = true
      · simp [hx, ← hrest]
      · simp [hx, ← hrest]

/-- The first ones of some numbered items are those with the first numbers. -/
theorem exists_eq_map_range'_of_prefix {f : Nat → α} {xs : List α} {start count : Nat}
    (h : xs <+: (List.range' start count).map f) :
    ∃ m ≤ count, xs = (List.range' start m).map f := by
  obtain ⟨ys, hys⟩ := h
  have hlength : xs.length + ys.length = count := by
    simpa using congrArg List.length hys
  refine ⟨xs.length, by omega, ?_⟩
  rw [← hlength, ← List.range'_append_1, List.map_append] at hys
  exact List.append_inj_left hys (by simp)

end MergeOnRead
