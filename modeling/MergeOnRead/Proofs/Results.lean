import MergeOnRead.Error
import Mathlib.Data.List.Forall2

/-!
# Sequences of results

Most operations of a table may fail, and lists of them fail with the first one that
does.  This file has the facts about such lists on which the other proofs rest:

* `bind_eq_ok_iff` takes a successful computation apart at its first step;
* `mapM_eq_ok_iff` relates the items of a list to what became of them;
* `filterM_cons` and `filterM_bypass` say how the items that pass a question are found, and
  that items ruled out beforehand are not asked for;
* `Writing.bind_of_ok` and `Writing.bind_of_error` run a program that writes step by step.
-/

namespace MergeOnRead

variable {ε α β γ : Type}

/-! ## Single results -/

@[simp] theorem ok_bind (a : α) (f : α → Except ε β) : (Except.ok a >>= f) = f a := rfl

@[simp] theorem error_bind (e : ε) (f : α → Except ε β) : (Except.error e >>= f) = .error e := rfl

theorem bind_eq_ok_iff {x : Except ε α} {f : α → Except ε β} {b : β} :
    (x >>= f) = .ok b ↔ ∃ a, x = .ok a ∧ f a = .ok b := by
  cases x with
  | error e => simp
  | ok a => simp

theorem bind_eq_error_iff {x : Except ε α} {f : α → Except ε β} {e : ε} :
    (x >>= f) = .error e ↔ x = .error e ∨ ∃ a, x = .ok a ∧ f a = .error e := by
  cases x with
  | error e => simp
  | ok a => simp

theorem map_eq_ok_iff {x : Except ε α} {f : α → β} {b : β} :
    x.map f = .ok b ↔ ∃ a, x = .ok a ∧ f a = b := by
  cases x with
  | error e => simp [Except.map]
  | ok a => simp [Except.map]

theorem map_eq_error_iff {x : Except ε α} {f : α → β} {e : ε} :
    x.map f = .error e ↔ x = .error e := by
  cases x with
  | error e => simp [Except.map]
  | ok a => simp [Except.map]

theorem exists_eq_ok_of_isSome {x : Except ε α} (h : x.toOption.isSome = true) :
    ∃ a, x = .ok a := by
  cases x with
  | error e => cases h
  | ok a => exact ⟨a, rfl⟩

theorem mapError_eq_ok_iff {δ : Type} {x : Except ε α} {f : ε → δ} {a : α} :
    x.mapError f = .ok a ↔ x = .ok a := by
  cases x with
  | error e => simp [Except.mapError]
  | ok b => simp [Except.mapError]

@[simp] theorem map_self (x : Except ε α) : (x.map fun a => a) = x := by
  cases x with
  | error e => rfl
  | ok a => rfl

@[simp] theorem liftError_eq_ok_iff {wrap : ε → Error} {x : Except ε α} {a : α} :
    liftError wrap x = .ok a ↔ x = .ok a := by
  cases x with
  | error e => simp [liftError]
  | ok b => simp [liftError]

/-! ## Lists of results -/

theorem mapM_eq_ok_iff {f : α → Except ε β} {xs : List α} {ys : List β} :
    xs.mapM f = .ok ys ↔ List.Forall₂ (fun x y => f x = .ok y) xs ys := by
  induction xs generalizing ys with
  | nil =>
      rw [List.forall₂_nil_left_iff]
      exact ⟨fun h => (Except.ok.inj h).symm, fun h => by rw [h]; rfl⟩
  | cons x xs ih =>
      rw [List.mapM_cons, bind_eq_ok_iff, List.forall₂_cons_left_iff]
      constructor
      · rintro ⟨y, hy, h⟩
        obtain ⟨rest, hrest, h⟩ := bind_eq_ok_iff.1 h
        exact ⟨y, rest, hy, ih.1 hrest, (Except.ok.inj h).symm⟩
      · rintro ⟨y, rest, hy, hrest, rfl⟩
        exact ⟨y, hy, bind_eq_ok_iff.2 ⟨rest, ih.2 hrest, rfl⟩⟩

theorem mapM_eq_some_iff {f : α → Option β} {xs : List α} {ys : List β} :
    xs.mapM f = some ys ↔ List.Forall₂ (fun x y => f x = some y) xs ys := by
  induction xs generalizing ys with
  | nil => simp [eq_comm]
  | cons x xs ih =>
      rw [List.mapM_cons, List.forall₂_cons_left_iff]
      simp only [Option.bind_eq_bind, Option.bind_eq_some_iff, Option.pure_def,
        Option.some.injEq, ih]
      constructor
      · rintro ⟨y, hy, rest, hrest, rfl⟩
        exact ⟨y, rest, hy, hrest, rfl⟩
      · rintro ⟨y, rest, hy, hrest, rfl⟩
        exact ⟨y, hy, rest, hrest, rfl⟩

/-- Where every item succeeds, the list does. -/
theorem mapM_eq_ok_map {f : α → Except ε β} {g : α → β} {xs : List α}
    (h : ∀ x ∈ xs, f x = .ok (g x)) : xs.mapM f = .ok (xs.map g) := by
  rw [mapM_eq_ok_iff, List.forall₂_map_right_iff]
  exact List.forall₂_same.2 h

theorem exists_mapM_eq_ok {f : α → Except ε β} {xs : List α} (h : ∀ x ∈ xs, ∃ y, f x = .ok y) :
    ∃ ys, xs.mapM f = .ok ys := by
  induction xs with
  | nil => exact ⟨[], rfl⟩
  | cons x xs ih =>
      obtain ⟨y, hy⟩ := h x (List.mem_cons_self ..)
      obtain ⟨ys, hys⟩ := ih fun x hx => h x (List.mem_cons_of_mem _ hx)
      exact ⟨y :: ys, by rw [List.mapM_cons, hy, ok_bind, hys]; rfl⟩

theorem mapM_congr {f g : α → Except ε β} {xs : List α} (h : ∀ x ∈ xs, f x = g x) :
    xs.mapM f = xs.mapM g := by
  induction xs with
  | nil => rfl
  | cons x xs ih =>
      rw [List.mapM_cons, List.mapM_cons, h x (List.mem_cons_self ..),
        ih fun y hy => h y (List.mem_cons_of_mem _ hy)]

theorem mapM_id_map (f : α → Except ε β) (xs : List α) : (xs.map f).mapM id = xs.mapM f := by
  induction xs with
  | nil => rfl
  | cons x xs ih => rw [List.map_cons, List.mapM_cons, List.mapM_cons, ih, id_eq]

/-- The first item that fails is the one that the list fails with. -/
theorem mapM_cons_eq_error_iff {f : α → Except ε β} {x : α} {xs : List α} {e : ε} :
    (x :: xs).mapM f = .error e ↔
      f x = .error e ∨ (∃ y, f x = .ok y) ∧ xs.mapM f = .error e := by
  rw [List.mapM_cons, bind_eq_error_iff]
  simp [bind_eq_error_iff, pure, Except.pure]

/-- A list fails with an item that fails behind others that do not. -/
theorem mapM_eq_error_iff {f : α → Except ε β} {xs : List α} {e : ε} :
    xs.mapM f = .error e ↔ ∃ before x after, xs = before ++ x :: after ∧
      (∀ y ∈ before, ∃ b, f y = .ok b) ∧ f x = .error e := by
  induction xs with
  | nil =>
      constructor
      · nofun
      · rintro ⟨before, x, after, h, -⟩
        simp at h
  | cons x xs ih =>
      rw [mapM_cons_eq_error_iff, ih]
      constructor
      · rintro (hx | ⟨hx, before, y, after, rfl, hbefore, hy⟩)
        · exact ⟨[], x, xs, rfl, by simp, hx⟩
        · exact ⟨x :: before, y, after, rfl, List.forall_mem_cons.2 ⟨hx, hbefore⟩, hy⟩
      · rintro ⟨before, y, after, h, hbefore, hy⟩
        cases before with
        | nil =>
            cases h
            exact .inl hy
        | cons z before =>
            cases h
            obtain ⟨hz, hbefore⟩ := List.forall_mem_cons.1 hbefore
            exact .inr ⟨hz, before, y, after, rfl, hbefore, hy⟩

theorem length_of_mapM_eq_ok {f : α → Except ε β} {xs : List α} {ys : List β}
    (h : xs.mapM f = .ok ys) : ys.length = xs.length :=
  (mapM_eq_ok_iff.1 h).length_eq.symm

/-- Where it is known what an item becomes if it succeeds, it is known of the list. -/
theorem eq_map_of_mapM_eq_ok {f : α → Except ε β} {g : α → β} {xs : List α} {ys : List β}
    (hg : ∀ x ∈ xs, ∀ y, f x = .ok y → y = g x) (h : xs.mapM f = .ok ys) : ys = xs.map g := by
  rw [mapM_eq_ok_iff] at h
  induction h with
  | nil => rfl
  | cons hxy hrest ih =>
      rw [List.map_cons, hg _ (List.mem_cons_self ..) _ hxy,
        ih fun x hx => hg x (List.mem_cons_of_mem _ hx)]

/-- What a list became consists of what became of its items. -/
theorem mem_iff_of_mapM_eq_ok {f : α → Except ε β} {xs : List α} {ys : List β}
    (h : xs.mapM f = .ok ys) {y : β} : y ∈ ys ↔ ∃ x ∈ xs, f x = .ok y := by
  rw [mapM_eq_ok_iff] at h
  induction h with
  | nil => simp
  | cons hxy hrest ih => simp [ih, hxy, eq_comm]

/-- Every item of a list that succeeds is one that succeeds. -/
theorem exists_of_mapM_eq_ok {f : α → Except ε β} {xs : List α} {ys : List β}
    (h : xs.mapM f = .ok ys) {x : α} (hx : x ∈ xs) : ∃ y ∈ ys, f x = .ok y := by
  rw [mapM_eq_ok_iff] at h
  induction h with
  | nil => cases hx
  | @cons x' y xs ys hy hrest ih =>
      rcases List.mem_cons.1 hx with rfl | hx
      · exact ⟨y, List.mem_cons_self, hy⟩
      · obtain ⟨z, hz, hfz⟩ := ih hx
        exact ⟨z, List.mem_cons_of_mem _ hz, hfz⟩

/-- Questions that are asked by number all have an answer, or one of them is the first without. -/
theorem forall_ok_or_first_error (f : Nat → Except ε α) (n : Nat) :
    (∀ i < n, ∃ a, f i = .ok a) ∨
      ∃ k < n, (∀ i < k, ∃ a, f i = .ok a) ∧ ∃ e, f k = .error e := by
  induction n with
  | zero => exact .inl fun i hi => absurd hi (Nat.not_lt_zero i)
  | succ n ih =>
      rcases ih with hall | ⟨k, hk, hfirst⟩
      · cases hn : f n with
        | error e => exact .inr ⟨n, Nat.lt_succ_self n, hall, e, hn⟩
        | ok a =>
            refine .inl fun i hi => ?_
            rcases Nat.lt_succ_iff_lt_or_eq.1 hi with hlt | rfl
            · exact hall i hlt
            · exact ⟨a, hn⟩
      · exact .inr ⟨k, Nat.lt_succ_of_lt hk, hfirst⟩

/-! ## Items that pass a question -/

private theorem filterAuxM_append (f : α → Except ε Bool) (xs acc : List α) :
    List.filterAuxM f xs acc =
      (List.filterAuxM f xs []).map (· ++ acc) := by
  induction xs generalizing acc with
  | nil => rfl
  | cons x xs ih =>
      rw [List.filterAuxM, List.filterAuxM]
      cases f x with
      | error e => rfl
      | ok b =>
          rw [ok_bind, ok_bind, ih, ih (cond b [x] [])]
          cases List.filterAuxM f xs [] with
          | error e => rfl
          | ok kept => cases b <;> simp [Except.map]

theorem filterM_cons (f : α → Except ε Bool) (x : α) (xs : List α) :
    (x :: xs).filterM f =
      (f x >>= fun passes => (xs.filterM f).map fun rest =>
        if passes then x :: rest else rest) := by
  rw [List.filterM, List.filterAuxM]
  cases hx : f x with
  | error e => rfl
  | ok b =>
      rw [ok_bind, ok_bind, filterAuxM_append, List.filterM]
      cases List.filterAuxM f xs [] with
      | error e => rfl
      | ok kept => cases b <;> simp [Except.map, pure, Except.pure]

theorem filterM_congr {f g : α → Except ε Bool} {xs : List α} (h : ∀ x ∈ xs, f x = g x) :
    xs.filterM f = xs.filterM g := by
  induction xs with
  | nil => rfl
  | cons x xs ih =>
      rw [filterM_cons, filterM_cons, h x (List.mem_cons_self ..),
        ih fun y hy => h y (List.mem_cons_of_mem _ hy)]

/-- Where every item answers, those that answer yes are kept. -/
theorem filterM_eq_ok_filter {f : α → Except ε Bool} {p : α → Bool} {xs : List α}
    (h : ∀ x ∈ xs, f x = .ok (p x)) : xs.filterM f = .ok (xs.filter p) := by
  induction xs with
  | nil => rfl
  | cons x xs ih =>
      rw [filterM_cons, h x (List.mem_cons_self ..),
        ih fun y hy => h y (List.mem_cons_of_mem _ hy), ok_bind, List.filter_cons]
      rfl

theorem filterM_eq_error {f : α → Except ε Bool} {xs ys : List α} {x : α} {e : ε}
    (hxs : ∀ y ∈ xs, ∃ passes, f y = .ok passes) (hx : f x = .error e) :
    (xs ++ x :: ys).filterM f = .error e := by
  induction xs with
  | nil => rw [List.nil_append, filterM_cons, hx, error_bind]
  | cons y xs ih =>
      obtain ⟨passes, hpasses⟩ := hxs y (List.mem_cons_self ..)
      rw [List.cons_append, filterM_cons, hpasses, ok_bind,
        ih fun z hz => hxs z (List.mem_cons_of_mem _ hz)]
      rfl

/-- Items that are ruled out beforehand need not be asked for. -/
theorem filterM_bypass (out : α → Bool) (f : α → Except ε Bool) (xs : List α) :
    (xs.filterM fun x => if out x then .ok false else f x) =
      (xs.filter fun x => !out x).filterM f := by
  induction xs with
  | nil => rfl
  | cons x xs ih =>
      rw [filterM_cons, ih]
      cases hout : out x with
      | true => simp [hout]
      | false => simp [hout, filterM_cons]

/-- Going through the items and leaving some out is going through those that pass. -/
theorem mapM_filterMap_eq_filterM_map (f : α → Except ε Bool) (g : α → β) (xs : List α) :
    (xs.mapM fun x => (f x).map fun passes => if passes then some (g x) else none).map
      (·.filterMap id) = (xs.filterM f).map (·.map g) := by
  induction xs with
  | nil => rfl
  | cons x xs ih =>
      rw [List.mapM_cons, filterM_cons]
      let found (x : α) : Except ε (Option β) :=
        (f x).map fun passes => if passes then some (g x) else none
      change (((f x).map _ >>= fun y => xs.mapM found >>= fun ys => pure (y :: ys)).map _) = _
      cases f x with
      | error e => rfl
      | ok passes =>
          cases passes with
          | false =>
              calc ((xs.mapM found >>= fun ys => pure (none :: ys)).map (·.filterMap id))
                  _ = (xs.mapM found).map (·.filterMap id) := by cases xs.mapM found <;> rfl
                  _ = (xs.filterM f).map (·.map g) := ih
                  _ = ((xs.filterM f).map fun rest => rest).map (·.map g) := by
                    cases xs.filterM f <;> rfl
          | true =>
              calc ((xs.mapM found >>= fun ys => pure (some (g x) :: ys)).map (·.filterMap id))
                  _ = ((xs.mapM found).map (·.filterMap id)).map (g x :: ·) := by
                    cases xs.mapM found <;> rfl
                  _ = ((xs.filterM f).map (·.map g)).map (g x :: ·) := by rw [ih]
                  _ = ((xs.filterM f).map fun rest => x :: rest).map (·.map g) := by
                    cases xs.filterM f <;> rfl

theorem sublist_of_filterM_eq_ok {f : α → Except ε Bool} {xs ys : List α}
    (h : xs.filterM f = .ok ys) : ys.Sublist xs := by
  induction xs generalizing ys with
  | nil =>
      cases h
      exact List.nil_sublist _
  | cons x xs ih =>
      rw [filterM_cons, bind_eq_ok_iff] at h
      obtain ⟨b, -, h⟩ := h
      obtain ⟨rest, hrest, rfl⟩ := map_eq_ok_iff.1 h
      cases b with
      | true => exact (ih hrest).cons_cons x
      | false => exact (ih hrest).cons x

/-- Where the items that were asked answer by a property, those that have it were kept. -/
theorem eq_filter_of_filterM_eq_ok {f : α → Except ε Bool} {p : α → Bool} {xs ys : List α}
    (h : xs.filterM f = .ok ys) (hf : ∀ x ∈ xs, ∀ passes, f x = .ok passes → passes = p x) :
    ys = xs.filter p := by
  induction xs generalizing ys with
  | nil =>
      cases h
      rfl
  | cons x xs ih =>
      rw [filterM_cons, bind_eq_ok_iff] at h
      obtain ⟨passes, hpasses, h⟩ := h
      obtain ⟨rest, hrest, rfl⟩ := map_eq_ok_iff.1 h
      rw [List.filter_cons, ← hf x (List.mem_cons_self ..) passes hpasses,
        ← ih hrest fun y hy => hf y (List.mem_cons_of_mem _ hy)]

/-! ## Running a program -/

namespace Writing

variable {σ α β : Type} {s t : σ} {e : Error}

theorem bind_of_ok {x : Writing σ α} {f : α → Writing σ β} {a : α} (h : x s = (.ok a, t)) :
    (x >>= f) s = f a t := by
  simp only [bind, ExceptT.bind, ExceptT.mk, StateT.bind, h]
  rfl

theorem bind_of_error {x : Writing σ α} {f : α → Writing σ β} (h : x s = (.error e, t)) :
    (x >>= f) s = (.error e, t) := by
  simp only [bind, ExceptT.bind, ExceptT.mk, StateT.bind, h]
  rfl

theorem get_eq : (get : Writing σ σ) s = (.ok s, s) := rfl

theorem modify_eq (f : σ → σ) : (modify f : Writing σ PUnit) s = (.ok ⟨⟩, f s) := rfl

theorem lift_eq (r : Except Error α) : (liftM r : Writing σ α) s = (r, s) := by
  cases r <;> rfl

end Writing

end MergeOnRead
