import MergeOnRead.Proofs.PositionBitmaps

/-!
# Deletion vectors are sets of positions

Whatever vectors are made, changed, merged and copied, each of them holds the positions that were
deleted in it, directly or by way of another vector, and nothing else
(`VectorMemory.keepsPositions`).

The bound on positions is not visible in memory: a bitmap takes larger numbers, and a merge does not
check what it adds.  It is enough that memory is always the memory of a vector table
(`VectorTable.memory`), since the sets of a table are bounded.

Strategy:

* `VectorTable.perform_memory` is the step, from single operations to calls, and
  `VectorTable.run_memory` the run: memory and table stay together, and a call that fails changes
  neither;
* two vectors of a table never have one set between them (`VectorTable.Unshared`), so a call changes
  the vector that it names and no other (`VectorTable.get?_bind`, `VectorTable.get?_write`);
* `VectorTable.Holds.step` says what a call does to the deleted positions, `VectorTable.holds_run`
  what a run does.  A set of positions is known by its members, which turns equations between
  deleted positions into equations between vectors (`VectorMemory.get?_run_congr`).
-/

namespace MergeOnRead

/-! ## The memory of a table -/

namespace VectorTable

variable {t u : VectorTable} {name other : String} {s : PositionSet} {call : VectorCall}

/-- The memory in which each set of positions is a bitmap. -/
def memory (t : VectorTable) : VectorMemory := ⟨t.sets.map PositionSet.bitmap, t.vectors⟩

theorem get?_memory (t : VectorTable) (name : String) :
    t.memory.get? name = (t.get? name).map PositionSet.bitmap := by
  unfold VectorMemory.get? get? place? memory
  cases t.vectors.lookup name with
  | none => rfl
  | some place => exact Array.getElem?_map

theorem make_memory (t : VectorTable) (name : String) (s : PositionSet) :
    VectorMemory.make name s.bitmap t.memory = (.ok (), (t.bind name s).memory) := by
  unfold VectorMemory.make bind memory
  rw [Writing.modify_eq, Array.map_push, Array.size_map]

theorem change_memory (t : VectorTable) (name : String) (s : PositionSet) :
    VectorMemory.change name s.bitmap t.memory = (.ok (), (t.write name s).memory) := by
  unfold VectorMemory.change write place? memory
  rw [Writing.modify_eq]
  cases t.vectors.lookup name with
  | none => rfl
  | some place => simp only [Array.map_setIfInBounds]

/-! ### What a call does in a table -/

theorem perform_delete_of_none (hset : t.get? name = none) (p : Int) :
    t.perform (.delete name p) = .ok t := by
  simp [perform, hset]

theorem perform_merge_to_none (hset : t.get? name = none) :
    t.perform (.merge name other) = .ok t := by
  simp [perform, hset]

theorem perform_delete (hset : t.get? name = some s) (p : Int) :
    t.perform (.delete name p) = (s.delete p).map (t.write name) := by
  simp only [perform, delete, hset, Option.isSome_some, if_true, Option.getD_some]
  cases s.delete p <;> rfl

theorem perform_merge {more : PositionSet} (hset : t.get? name = some s)
    (hmore : t.get? other = some more) :
    t.perform (.merge name other) = .ok (t.write name (s.union more)) := by
  simp [perform, merge, hset, hmore]

theorem perform_merge_of_none (hset : t.get? name = some s) (hmore : t.get? other = none) :
    t.perform (.merge name other) = .error .notPositions := by
  simp [perform, merge, hset, hmore]

/-- A call does in memory what it does in the table. -/
theorem perform_memory (t : VectorTable) (call : VectorCall) :
    VectorMemory.perform call t.memory =
      match t.perform call with
      | .ok u => (.ok (), u.memory)
      | .error e => (.error (.position e), t.memory) := by
  cases call with
  | of name positions =>
      rw [VectorMemory.perform, perform, Bitmap.ofPositions_eq]
      cases PositionSet.ofPositions positions with
      | error e => rfl
      | ok s => exact t.make_memory name s
  | delete name p =>
      rw [VectorMemory.perform, Writing.bind_of_ok Writing.get_eq, get?_memory]
      cases hset : t.get? name with
      | none =>
          rw [perform_delete_of_none hset]
          rfl
      | some s =>
          simp only [perform_delete hset, Option.map_some, Bitmap.delete_bitmap]
          cases s.delete p with
          | error e => rfl
          | ok u => exact t.change_memory name u
  | merge name other =>
      rw [VectorMemory.perform, Writing.bind_of_ok Writing.get_eq, get?_memory]
      cases hset : t.get? name with
      | none =>
          rw [perform_merge_to_none hset]
          rfl
      | some s =>
          simp only [Option.map_some]
          rw [Writing.bind_of_ok Writing.get_eq, get?_memory]
          cases hmore : t.get? other with
          | none =>
              rw [perform_merge_of_none hset hmore]
              rfl
          | some more =>
              simp only [perform_merge hset hmore, Option.map_some, Bitmap.union_bitmap]
              exact t.change_memory name _
  | copy name as =>
      rw [VectorMemory.perform, perform, Writing.bind_of_ok Writing.get_eq, get?_memory]
      cases t.get? name with
      | none => rfl
      | some s => exact t.make_memory as s

theorem memory_empty : empty.memory = VectorMemory.empty := by
  simp [memory, empty, VectorMemory.empty]

theorem step_memory (t : VectorTable) (call : VectorCall) :
    t.memory.step call = (t.step call).memory := by
  unfold VectorMemory.step step
  rw [perform_memory]
  cases t.perform call <;> rfl

theorem run_memory (calls : List VectorCall) : VectorMemory.run calls = (run calls).memory := by
  have hfold : ∀ t : VectorTable,
      calls.foldl VectorMemory.step t.memory = (calls.foldl step t).memory := by
    induction calls with
    | nil => exact fun t => rfl
    | cons call calls ih =>
        intro t
        rw [List.foldl_cons, List.foldl_cons, step_memory]
        exact ih (t.step call)
  unfold VectorMemory.run run
  rw [← memory_empty, hfold]

/-! ## Vectors apart from each other -/

/-- Each vector has a set of its own. -/
structure Unshared (t : VectorTable) : Prop where
  lt : ∀ name place, t.place? name = some place → place < t.sets.size
  eq : ∀ name other place, t.place? name = some place → t.place? other = some place → name = other

theorem place?_bind (t : VectorTable) (name other : String) (s : PositionSet) :
    (t.bind name s).place? other = if other = name then some t.sets.size else t.place? other := by
  unfold place? bind
  rw [List.lookup_cons]
  by_cases h : other = name
  · rw [if_pos h, h, beq_self_eq_true]
  · rw [if_neg h, beq_eq_false_iff_ne.2 h]

@[simp] theorem place?_write (t : VectorTable) (name other : String) (s : PositionSet) :
    (t.write name s).place? other = t.place? other := by
  unfold write
  split <;> rfl

@[simp] theorem size_sets_write (t : VectorTable) (name : String) (s : PositionSet) :
    (t.write name s).sets.size = t.sets.size := by
  unfold write
  split
  · exact Array.size_setIfInBounds
  · rfl

theorem sets_write {place : Nat} (hplace : t.place? name = some place) (s : PositionSet) :
    (t.write name s).sets = t.sets.setIfInBounds place s := by
  unfold write
  rw [hplace]

theorem get?_of_place? {place : Nat} (hplace : t.place? name = some place) :
    t.get? name = t.sets[place]? := by
  rw [get?, hplace]
  rfl

theorem get?_eq_none (hplace : t.place? name = none) : t.get? name = none := by
  rw [get?, hplace]
  rfl

theorem get?_bind (h : t.Unshared) (name : String) (s : PositionSet) :
    (t.bind name s).get? = Function.update t.get? name (some s) := by
  funext other
  have hbind := t.place?_bind name other s
  by_cases hname : other = name
  · rw [if_pos hname] at hbind
    rw [get?_of_place? hbind, hname, Function.update_self]
    exact Array.getElem?_push_size
  · rw [if_neg hname] at hbind
    rw [Function.update_of_ne hname]
    cases hplace : t.place? other with
    | none => rw [get?_eq_none hplace, get?_eq_none (hbind.trans hplace)]
    | some place =>
        have hlt := h.lt other place hplace
        rw [get?_of_place? hplace, get?_of_place? (hbind.trans hplace),
          Array.getElem?_eq_getElem hlt]
        exact Array.getElem?_push_lt hlt

/-- What is written for one vector is read for that vector alone. -/
theorem get?_write {old : PositionSet} (h : t.Unshared) (hset : t.get? name = some old)
    (s : PositionSet) : (t.write name s).get? = Function.update t.get? name (some s) := by
  obtain ⟨place, hplace, -⟩ := Option.bind_eq_some_iff.1 hset
  funext other
  have hwrite := t.place?_write name other s
  by_cases hname : other = name
  · subst hname
    rw [get?_of_place? (hwrite.trans hplace), sets_write hplace, Function.update_self]
    exact Array.getElem?_setIfInBounds_self_of_lt (h.lt other place hplace)
  · rw [Function.update_of_ne hname]
    cases hother : t.place? other with
    | none => rw [get?_eq_none hother, get?_eq_none (hwrite.trans hother)]
    | some k =>
        have hne : place ≠ k := by
          rintro rfl
          exact hname (h.eq other name place hother hplace)
        rw [get?_of_place? hother, get?_of_place? (hwrite.trans hother), sets_write hplace]
        exact Array.getElem?_setIfInBounds_ne hne

theorem unshared_empty : empty.Unshared where
  lt _ _ hplace := by cases hplace
  eq _ _ _ hplace _ := by cases hplace

theorem unshared_bind (h : t.Unshared) (name : String) (s : PositionSet) :
    (t.bind name s).Unshared where
  lt other place hplace := by
    have hsize : (t.bind name s).sets.size = t.sets.size + 1 := Array.size_push s
    rw [place?_bind] at hplace
    split at hplace
    · cases hplace
      omega
    · have := h.lt other place hplace
      omega
  eq first second place hfirst hsecond := by
    rw [place?_bind] at hfirst hsecond
    -- The place behind all others is that of the new vector alone.
    by_cases hone : first = name
    · by_cases htwo : second = name
      · rw [hone, htwo]
      · rw [if_pos hone] at hfirst
        rw [if_neg htwo] at hsecond
        cases hfirst
        exact absurd (h.lt second _ hsecond) (Nat.lt_irrefl _)
    · rw [if_neg hone] at hfirst
      by_cases htwo : second = name
      · rw [if_pos htwo] at hsecond
        cases hsecond
        exact absurd (h.lt first _ hfirst) (Nat.lt_irrefl _)
      · rw [if_neg htwo] at hsecond
        exact h.eq first second place hfirst hsecond

theorem unshared_write (h : t.Unshared) (name : String) (s : PositionSet) :
    (t.write name s).Unshared where
  lt other place hplace := by
    rw [place?_write] at hplace
    rw [size_sets_write]
    exact h.lt other place hplace
  eq first second place hfirst hsecond := by
    rw [place?_write] at hfirst hsecond
    exact h.eq first second place hfirst hsecond

end VectorTable

/-! ## The deleted positions -/

namespace VectorCall

/-- The positions that are deleted in each vector after one more call, directly or by way of another
vector.  A vector is known once it was made. -/
def receive (deleted : String → Option (Set Int)) : VectorCall → String → Option (Set Int)
  | .of name positions =>
    if ∀ p ∈ positions, IsPosition p then
      Function.update deleted name (some {p | p ∈ positions})
    else deleted
  | .delete name p =>
    if IsPosition p then Function.update deleted name ((deleted name).map (· ∪ {p})) else deleted
  | .merge name other =>
    match deleted name, deleted other with
    | some ps, some qs => Function.update deleted name (some (ps ∪ qs))
    | _, _ => deleted
  | .copy name as =>
    match deleted name with
    | some ps => Function.update deleted as (some ps)
    | none => deleted

/-- The positions that are deleted in each vector by calls. -/
def deleted (calls : List VectorCall) : String → Option (Set Int) :=
  calls.foldl receive fun _ => none

end VectorCall

namespace VectorTable

variable {t u : VectorTable} {deleted others : String → Option (Set Int)} {name other : String}
  {s : PositionSet}

/-- The vectors have the positions that were deleted in them. -/
structure Holds (t : VectorTable) (deleted : String → Option (Set Int)) : Prop where
  unshared : t.Unshared
  toSet_eq : ∀ name, (t.get? name).map PositionSet.toSet = deleted name

namespace Holds

theorem exists_get? {ps : Set Int} (h : t.Holds deleted) (hname : deleted name = some ps) :
    ∃ s, t.get? name = some s ∧ s.toSet = ps :=
  Option.map_eq_some_iff.1 ((h.toSet_eq name).trans hname)

theorem get?_eq_none (h : t.Holds deleted) (hname : deleted name = none) : t.get? name = none :=
  Option.map_eq_none_iff.1 ((h.toSet_eq name).trans hname)

/-- Equal positions make equal vectors. -/
theorem get?_eq (h : t.Holds deleted) (h' : u.Holds others) (heq : deleted name = others other) :
    t.get? name = u.get? other := by
  apply Option.map_injective PositionSet.toSet_injective
  calc (t.get? name).map PositionSet.toSet
    _ = deleted name := h.toSet_eq name
    _ = others other := heq
    _ = (u.get? other).map PositionSet.toSet := (h'.toSet_eq other).symm

theorem of_update (h : t.Holds deleted) (hu : u.Unshared)
    (hget : u.get? = Function.update t.get? name (some s)) :
    u.Holds (Function.update deleted name (some s.toSet)) where
  unshared := hu
  toSet_eq other := by
    rw [hget]
    by_cases hname : other = name
    · rw [hname, Function.update_self, Function.update_self]
      rfl
    · rw [Function.update_of_ne hname, Function.update_of_ne hname]
      exact h.toSet_eq other

theorem bind (h : t.Holds deleted) (name : String) (s : PositionSet) :
    (t.bind name s).Holds (Function.update deleted name (some s.toSet)) :=
  h.of_update (unshared_bind h.unshared name s) (get?_bind h.unshared name s)

theorem write {old : PositionSet} (h : t.Holds deleted) (hset : t.get? name = some old)
    (s : PositionSet) : (t.write name s).Holds (Function.update deleted name (some s.toSet)) :=
  h.of_update (unshared_write h.unshared name s) (get?_write h.unshared hset s)

theorem step (h : t.Holds deleted) (call : VectorCall) :
    (t.step call).Holds (call.receive deleted) := by
  unfold VectorTable.step
  cases call with
  | of name positions =>
      rw [VectorCall.receive, perform, PositionSet.ofPositions]
      rcases PositionSet.foldlM_delete positions .empty with
        ⟨hall, s, hs, hset⟩ | ⟨hnot, e, he⟩
      · rw [if_pos hall, hs]
        rw [PositionSet.toSet_empty, Set.empty_union] at hset
        rw [← hset]
        exact h.bind name s
      · rw [if_neg hnot, he]
        exact h
  | delete name p =>
      rw [VectorCall.receive]
      cases hname : deleted name with
      | none =>
          rw [perform_delete_of_none (h.get?_eq_none hname), Option.map_none, ← hname,
            Function.update_eq_self, ite_self]
          exact h
      | some ps =>
          obtain ⟨s, hset, rfl⟩ := h.exists_get? hname
          rw [perform_delete hset, Option.map_some]
          by_cases hp : IsPosition p
          · obtain ⟨u, hdelete, hu⟩ := PositionSet.delete_of_isPosition (s := s) hp
            rw [if_pos hp, hdelete, ← hu]
            exact h.write hset u
          · obtain ⟨e, he, -⟩ := PositionSet.delete_of_not_isPosition (s := s) hp
            rw [if_neg hp, he]
            exact h
  | merge name other =>
      rw [VectorCall.receive]
      cases hname : deleted name with
      | none =>
          rw [perform_merge_to_none (h.get?_eq_none hname)]
          exact h
      | some ps =>
          obtain ⟨s, hset, rfl⟩ := h.exists_get? hname
          cases hother : deleted other with
          | none =>
              rw [perform_merge_of_none hset (h.get?_eq_none hother)]
              exact h
          | some qs =>
              obtain ⟨more, hmore, rfl⟩ := h.exists_get? hother
              rw [perform_merge hset hmore]
              simp only [← PositionSet.toSet_union]
              exact h.write hset _
  | copy name as =>
      rw [VectorCall.receive, perform]
      cases hname : deleted name with
      | none =>
          rw [h.get?_eq_none hname]
          exact h
      | some ps =>
          obtain ⟨s, hset, rfl⟩ := h.exists_get? hname
          rw [hset]
          exact h.bind as s

end Holds

theorem holds_empty : empty.Holds fun _ => none := ⟨unshared_empty, fun _ => rfl⟩

theorem holds_run (calls : List VectorCall) : (run calls).Holds (VectorCall.deleted calls) := by
  have hfold : ∀ (t : VectorTable) (deleted : String → Option (Set Int)), t.Holds deleted →
      (calls.foldl step t).Holds (calls.foldl (fun d call => call.receive d) deleted) := by
    induction calls with
    | nil => exact fun t deleted h => h
    | cons call calls ih => exact fun t deleted h => ih _ _ (h.step call)
  exact hfold empty _ holds_empty

end VectorTable

/-! ## Equations between deleted positions -/

namespace VectorCall

variable {deleted : String → Option (Set Int)} {name other third : String} {call : VectorCall}
  {calls more : List VectorCall}

theorem deleted_append (calls more : List VectorCall) :
    VectorCall.deleted (calls ++ more) = more.foldl receive (VectorCall.deleted calls) :=
  List.foldl_append

/-- A call changes the positions of its target alone. -/
theorem receive_cases (call : VectorCall) (deleted : String → Option (Set Int)) :
    call.receive deleted = deleted ∨
      ∃ ps, call.receive deleted = Function.update deleted call.target ps := by
  cases call with
  | of name positions =>
      rw [receive]
      split
      · exact .inr ⟨_, rfl⟩
      · exact .inl rfl
  | delete name p =>
      rw [receive]
      split
      · exact .inr ⟨_, rfl⟩
      · exact .inl rfl
  | merge name other =>
      rw [receive]
      split
      · exact .inr ⟨_, rfl⟩
      · exact .inl rfl
  | copy name as =>
      rw [receive]
      split
      · exact .inr ⟨_, rfl⟩
      · exact .inl rfl

theorem receive_of_ne (h : call.target ≠ name) : call.receive deleted name = deleted name := by
  rcases call.receive_cases deleted with hsame | ⟨ps, hchanged⟩
  · rw [hsame]
  · rw [hchanged, Function.update_of_ne h.symm]

theorem foldl_receive_of_ne (h : ∀ call ∈ more, call.target ≠ name) :
    more.foldl receive deleted name = deleted name := by
  induction more generalizing deleted with
  | nil => rfl
  | cons call more ih =>
      obtain ⟨hcall, hmore⟩ := List.forall_mem_cons.1 h
      rw [List.foldl_cons, ih hmore, receive_of_ne hcall]

theorem update_of_eq {ps : Option (Set Int)} (h : deleted name = ps) :
    Function.update deleted name ps = deleted := by
  rw [← h, Function.update_eq_self]

/-- Merging in one equation: where there is nothing to merge, nothing is added. -/
theorem receive_merge : (merge name other).receive deleted =
    Function.update deleted name ((deleted name).map (· ∪ (deleted other).getD ∅)) := by
  simp only [receive]
  cases hname : deleted name with
  | none => rw [Option.map_none, update_of_eq hname]
  | some ps =>
      cases deleted other with
      | none => rw [Option.map_some, Option.getD_none, Set.union_empty, update_of_eq hname]
      | some qs => rfl

theorem receive_merge_self : (merge name name).receive deleted = deleted := by
  rw [receive_merge]
  cases hname : deleted name with
  | none => rw [Option.map_none, update_of_eq hname]
  | some ps => rw [Option.map_some, Option.getD_some, Set.union_self, update_of_eq hname]

theorem receive_merge_again : (merge name other).receive ((merge name other).receive deleted) =
    (merge name other).receive deleted := by
  rw [receive_merge, receive_merge, Function.update_idem, Function.update_self]
  congr 1
  cases deleted name with
  | none => rfl
  | some ps =>
      by_cases h : other = name
      · rw [h, Function.update_self]
        simp
      · rw [Function.update_of_ne h]
        simp [Set.union_assoc]

theorem receive_merge_comm (hname : (deleted name).isSome = true)
    (hother : (deleted other).isSome = true) :
    (merge name other).receive deleted name = (merge other name).receive deleted other := by
  obtain ⟨ps, hps⟩ := Option.isSome_iff_exists.1 hname
  obtain ⟨qs, hqs⟩ := Option.isSome_iff_exists.1 hother
  rw [receive_merge, receive_merge, Function.update_self, Function.update_self, hps, hqs]
  simp [Set.union_comm]

theorem receive_merge_assoc (hother : (deleted other).isSome = true) :
    (merge name third).receive ((merge name other).receive deleted) name =
      (merge name other).receive ((merge other third).receive deleted) name := by
  obtain ⟨qs, hqs⟩ := Option.isSome_iff_exists.1 hother
  simp only [receive_merge, Function.update_self, hqs, Option.map_some, Option.getD_some]
  -- The three names may be the same ones, two by two.
  by_cases hsame : name = other
  · subst hsame
    rw [Function.update_self, hqs, Option.map_some, Option.map_some, Option.map_some]
    by_cases hthird : third = name
    · rw [hthird, Function.update_self, hqs]
      simp
    · rw [Function.update_of_ne hthird]
      simp
  · rw [Function.update_of_ne hsame]
    cases hname : deleted name with
    | none => rfl
    | some ps =>
        by_cases hthird : third = name
        · rw [hthird, Function.update_self, hname]
          refine congrArg some ?_
          calc ps ∪ qs ∪ (ps ∪ qs)
            _ = ps ∪ qs := Set.union_self _
            _ = ps ∪ ps ∪ qs := by rw [Set.union_self]
            _ = ps ∪ (qs ∪ ps) := by rw [Set.union_assoc, Set.union_comm qs]
        · rw [Function.update_of_ne hthird]
          simp [Set.union_assoc]

theorem receive_copy {ps : Set Int} (hname : deleted name = some ps) (as : String) :
    (copy name as).receive deleted = Function.update deleted as (some ps) := by
  simp only [receive, hname]

end VectorCall

namespace VectorMemory

/-- After some calls each vector has the positions that were deleted in it. -/
structure KeepsPositions (calls : List VectorCall) : Prop where
  /-- Memory has the sets of a vector table as bitmaps. -/
  stored : run calls = (VectorTable.run calls).memory
  /-- The sets of the table have what was deleted. -/
  sets (name : String) : ((VectorTable.run calls).get? name).map PositionSet.toSet =
    VectorCall.deleted calls name
  /-- No bitmap has anything but positions of rows. -/
  bounded : ∀ b ∈ (run calls).bitmaps, ∀ n ∈ b.members, n ≤ maxPosition
  /-- Each bitmap has it, too, and answers accordingly. -/
  holds (name : String) : Option.Rel Bitmap.Holds ((run calls).get? name)
    (VectorCall.deleted calls name)
  /-- What is rejected is what is not the position of a row. -/
  rejects_iff (name : String) (p : Int) (hname : ((run calls).get? name).isSome = true) :
    (∃ e, (perform (.delete name p) (run calls)).1 = .error e) ↔ p < 0 ∨ (2147483647 : Int) < p
  rejected (name : String) (p : Int) (e : Error)
    (h : (perform (.delete name p) (run calls)).1 = .error e) : e.kind = .value
  /-- A call that fails changes nothing. -/
  fails (call : VectorCall) (e : Error) (h : (perform call (run calls)).1 = .error e) :
    (perform call (run calls)).2 = run calls
  /-- A call changes no vector but its target. -/
  others (more : List VectorCall) (name : String) (h : ∀ call ∈ more, call.target ≠ name) :
    (run (calls ++ more)).get? name = (run calls).get? name
  merges (name other : String) (b c : Bitmap) (hname : (run calls).get? name = some b)
    (hother : (run calls).get? other = some c) :
    (perform (.merge name other) (run calls)).1 = .ok () ∧
      (run (calls ++ [.merge name other])).get? name = some (b.union c)
  merge_self (name : String) :
    (run (calls ++ [.merge name name])).get? = (run calls).get?
  merge_again (name other : String) :
    (run (calls ++ [.merge name other, .merge name other])).get? =
      (run (calls ++ [.merge name other])).get?
  merge_comm (name other : String) (hname : ((run calls).get? name).isSome = true)
    (hother : ((run calls).get? other).isSome = true) :
    (run (calls ++ [.merge name other])).get? name = (run (calls ++ [.merge other name])).get? other
  merge_assoc (name other third : String) (hother : ((run calls).get? other).isSome = true) :
    (run (calls ++ [.merge name other, .merge name third])).get? name =
      (run (calls ++ [.merge other third, .merge name other])).get? name
  /-- A copy keeps what it was made with, until it is changed itself. -/
  copies (name as : String) (b : Bitmap) (hname : (run calls).get? name = some b)
    (more : List VectorCall) (h : ∀ call ∈ more, call.target ≠ as) :
    (run (calls ++ .copy name as :: more)).get? as = some b
  /-- So does what was copied. -/
  copied (name as : String) (hne : as ≠ name) (more : List VectorCall)
    (h : ∀ call ∈ more, call.target ≠ name) :
    (run (calls ++ .copy name as :: more)).get? name = (run calls).get? name

theorem get?_run (calls : List VectorCall) (name : String) : (run calls).get? name =
    ((VectorTable.run calls).get? name).map PositionSet.bitmap := by
  rw [VectorTable.run_memory, VectorTable.get?_memory]

/-- Vectors with the same deleted positions have the same bitmap. -/
theorem get?_run_congr {calls others : List VectorCall} {name other : String}
    (h : VectorCall.deleted calls name = VectorCall.deleted others other) :
    (run calls).get? name = (run others).get? other := by
  rw [get?_run, get?_run,
    (VectorTable.holds_run calls).get?_eq (VectorTable.holds_run others) h]

theorem get?_run_append {calls more others : List VectorCall} {name other : String}
    (h : more.foldl VectorCall.receive (VectorCall.deleted calls) name =
      others.foldl VectorCall.receive (VectorCall.deleted calls) other) :
    (run (calls ++ more)).get? name = (run (calls ++ others)).get? other := by
  apply get?_run_congr
  rw [VectorCall.deleted_append, VectorCall.deleted_append, h]

theorem isSome_get?_run (calls : List VectorCall) (name : String) :
    ((run calls).get? name).isSome = (VectorCall.deleted calls name).isSome := by
  rw [get?_run, Option.isSome_map, ← (VectorTable.holds_run calls).toSet_eq, Option.isSome_map]

theorem holds_get?_run (calls : List VectorCall) (name : String) :
    Option.Rel Bitmap.Holds ((run calls).get? name) (VectorCall.deleted calls name) := by
  rw [get?_run, ← (VectorTable.holds_run calls).toSet_eq]
  cases (VectorTable.run calls).get? name with
  | none => exact .none
  | some s => exact .some (Bitmap.holds_bitmap s)

theorem perform_run (calls : List VectorCall) (call : VectorCall) : perform call (run calls) =
    match (VectorTable.run calls).perform call with
    | .ok t => (.ok (), t.memory)
    | .error e => (.error (.position e), run calls) := by
  rw [VectorTable.run_memory, VectorTable.perform_memory]

theorem get?_run_of_ne {calls more : List VectorCall} {name : String}
    (h : ∀ call ∈ more, call.target ≠ name) :
    (run (calls ++ more)).get? name = (run calls).get? name := by
  apply get?_run_congr
  rw [VectorCall.deleted_append, VectorCall.foldl_receive_of_ne h]

theorem get?_run_copy {calls more : List VectorCall} {name as : String}
    (hname : ((run calls).get? name).isSome = true) (h : ∀ call ∈ more, call.target ≠ as) :
    (run (calls ++ .copy name as :: more)).get? as = (run calls).get? name := by
  rw [isSome_get?_run] at hname
  obtain ⟨ps, hps⟩ := Option.isSome_iff_exists.1 hname
  apply get?_run_congr
  rw [VectorCall.deleted_append, List.foldl_cons, VectorCall.foldl_receive_of_ne h,
    VectorCall.receive_copy hps, Function.update_self, hps]

theorem exists_set {calls : List VectorCall} {name : String} {b : Bitmap}
    (hname : (run calls).get? name = some b) :
    ∃ s, (VectorTable.run calls).get? name = some s ∧ s.bitmap = b := by
  rw [get?_run] at hname
  exact Option.map_eq_some_iff.1 hname

theorem perform_delete_run {calls : List VectorCall} {name : String} {s : PositionSet}
    (hset : (VectorTable.run calls).get? name = some s) (p : Int) :
    (perform (.delete name p) (run calls)).1 =
      liftError .position ((s.delete p).map fun _ => ()) := by
  rw [perform_run, VectorTable.perform_delete hset]
  cases s.delete p <;> rfl

theorem perform_delete_eq_error_iff {calls : List VectorCall} {name : String} {b : Bitmap}
    (hname : (run calls).get? name = some b) (p : Int) :
    (∃ e, (perform (.delete name p) (run calls)).1 = .error e) ↔ ¬IsPosition p := by
  obtain ⟨s, hset, -⟩ := exists_set hname
  rw [perform_delete_run hset]
  constructor
  · rintro ⟨e, he⟩ hp
    obtain ⟨t, ht, -⟩ := PositionSet.delete_of_isPosition (s := s) hp
    rw [ht] at he
    cases he
  · intro hp
    obtain ⟨e, he, -⟩ := PositionSet.delete_of_not_isPosition (s := s) hp
    rw [he]
    exact ⟨.position e, rfl⟩

theorem kind_of_delete {calls : List VectorCall} {name : String} {p : Int} {e : Error}
    (h : (perform (.delete name p) (run calls)).1 = .error e) : e.kind = .value := by
  cases hset : (VectorTable.run calls).get? name with
  | none =>
      rw [perform_run, VectorTable.perform_delete_of_none hset] at h
      cases h
  | some s =>
      rw [perform_delete_run hset] at h
      by_cases hp : IsPosition p
      · obtain ⟨t, ht, -⟩ := PositionSet.delete_of_isPosition (s := s) hp
        rw [ht] at h
        cases h
      · obtain ⟨e', he, hkind⟩ := PositionSet.delete_of_not_isPosition (s := s) hp
        rw [he] at h
        cases h
        exact hkind

/-- A merge ends with the union of the two bitmaps. -/
theorem run_merge {calls : List VectorCall} {name other : String} {b c : Bitmap}
    (hname : (run calls).get? name = some b) (hother : (run calls).get? other = some c) :
    (perform (.merge name other) (run calls)).1 = .ok () ∧
      (run (calls ++ [.merge name other])).get? name = some (b.union c) := by
  obtain ⟨s, hset, rfl⟩ := exists_set hname
  obtain ⟨more, hmore, rfl⟩ := exists_set hother
  have hperform := VectorTable.perform_merge hset hmore
  have hrun : VectorTable.run (calls ++ [.merge name other]) =
      (VectorTable.run calls).write name (s.union more) := by
    rw [VectorTable.run, List.foldl_concat, ← VectorTable.run, VectorTable.step, hperform]
  constructor
  · rw [perform_run, hperform]
  · rw [get?_run, hrun, VectorTable.get?_write (VectorTable.holds_run calls).unshared hset,
      Function.update_self, Bitmap.union_bitmap, Option.map_some]

/-- **Deletion vectors are sets of positions**, each of them apart from the others, after any calls
on any number of vectors. -/
theorem keepsPositions (calls : List VectorCall) : KeepsPositions calls where
  stored := VectorTable.run_memory calls
  sets := (VectorTable.holds_run calls).toSet_eq
  bounded b hb n hn := by
    rw [VectorTable.run_memory] at hb
    obtain ⟨s, -, rfl⟩ := Array.mem_map.1 hb
    exact s.bounded n hn
  holds := holds_get?_run calls
  rejects_iff name p hname := by
    obtain ⟨b, hb⟩ := Option.isSome_iff_exists.1 hname
    rw [perform_delete_eq_error_iff hb, IsPosition, maxPosition]
    omega
  rejected _ _ _ h := kind_of_delete h
  fails call e h := by
    rw [perform_run] at h ⊢
    split at h
    · cases h
    · rfl
  others _ _ h := get?_run_of_ne h
  merges _ _ _ _ hname hother := run_merge hname hother
  merge_self name := by
    funext n
    apply get?_run_congr
    rw [VectorCall.deleted_append]
    exact congrFun VectorCall.receive_merge_self n
  merge_again _ _ := funext fun n => get?_run_append (congrFun VectorCall.receive_merge_again n)
  merge_comm name other hname hother := by
    rw [isSome_get?_run] at hname hother
    exact get?_run_append (VectorCall.receive_merge_comm hname hother)
  merge_assoc name other third hother := by
    rw [isSome_get?_run] at hother
    exact get?_run_append (VectorCall.receive_merge_assoc hother)
  copies name as b hname more h := by
    rw [get?_run_copy (by rw [hname]; rfl) h, hname]
  copied name as hne more h := get?_run_of_ne (List.forall_mem_cons.2 ⟨hne, h⟩)

/-- A copy and its original go apart. -/
example :
    let m := run [.of "a" [9, 3, 3], .of "b" [2, -1], .of "b" [2], .copy "a" "c", .merge "a" "b",
      .delete "c" 2147483648, .delete "c" 5]
    (m.get? "a").map (·.members) = some [2, 3, 9] ∧ (m.get? "c").map (·.members) = some [3, 5, 9] :=
  by decide

end VectorMemory

end MergeOnRead
