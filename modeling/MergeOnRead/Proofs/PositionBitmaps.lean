import MergeOnRead.Deletes.VectorMemory
import MergeOnRead.Proofs.FilterUnion
import Mathlib.Data.Set.Card

/-!
# Bitmaps of positions

Positions are checked against the greatest one, bitmaps take all numbers of 32 bits, and a union of
bitmaps checks nothing at all.  A set of positions has the bound in its type.  On the bitmap of such
a set (`PositionSet.bitmap`) each operation does what it does on the set: a position that passes the
check is a number of 32 bits, and a union leaves nothing out.

Strategy:

* a set of positions is read as a set of integers (`PositionSet.toSet`), by which it is known
  (`PositionSet.toSet_injective`);
* `delete_of_isPosition` and `delete_of_not_isPosition` say what becomes of one more position,
  `foldlM_delete` what becomes of a list;
* `Bitmap.delete_bitmap`, `Bitmap.ofPositions_eq`, `Bitmap.isDeleted_bitmap`, `Bitmap.union_bitmap`
  and `Bitmap.max_bitmap` compare the operations one by one, and so the bitmap of a set answers
  everything that can be asked of it (`Bitmap.holds_bitmap`).
-/

namespace MergeOnRead

/-- An integer is the position of a row. -/
def IsPosition (p : Int) : Prop := 0 ≤ p ∧ p ≤ maxPosition

instance (p : Int) : Decidable (IsPosition p) :=
  inferInstanceAs (Decidable (0 ≤ p ∧ p ≤ (maxPosition : Int)))

/-! ## Sets of positions -/

namespace PositionSet

variable {s t : PositionSet} {p : Int} {n : Nat}

/-- The positions of a set, among all integers. -/
def toSet (s : PositionSet) : Set Int := {p | s.isDeleted p = true}

theorem mem_toSet : p ∈ s.toSet ↔ 0 ≤ p ∧ p.toNat ∈ s := isDeleted_iff

theorem natCast_mem_toSet : (n : Int) ∈ s.toSet ↔ n ∈ s := by
  rw [mem_toSet, Int.toNat_natCast]
  exact and_iff_right (Int.natCast_nonneg n)

theorem toSet_eq_image : s.toSet = (fun n : Nat => (n : Int)) '' {n | n ∈ s} := by
  ext p
  constructor
  · intro hp
    obtain ⟨hnonneg, hmem⟩ := mem_toSet.1 hp
    exact ⟨p.toNat, hmem, Int.toNat_of_nonneg hnonneg⟩
  · rintro ⟨n, hn, rfl⟩
    exact natCast_mem_toSet.2 hn

theorem isPosition_of_mem (hp : p ∈ s.toSet) : IsPosition p := by
  obtain ⟨hnonneg, hmem⟩ := mem_toSet.1 hp
  have hle : p.toNat ≤ maxPosition := s.bounded _ hmem
  exact ⟨hnonneg, by omega⟩

@[simp] theorem toSet_empty : empty.toSet = ∅ := by
  rw [toSet_eq_image, Set.image_eq_empty]
  ext n
  exact iff_of_false List.not_mem_nil (Set.notMem_empty n)

@[simp] theorem toSet_insert {hn : n ≤ maxPosition} :
    (s.insert n hn).toSet = s.toSet ∪ {(n : Int)} := by
  ext p
  rw [Set.mem_union, Set.mem_singleton_iff, mem_toSet, mem_insert, mem_toSet]
  constructor
  · rintro ⟨hnonneg, hp | hp⟩
    · exact .inr (by omega)
    · exact .inl ⟨hnonneg, hp⟩
  · rintro (⟨hnonneg, hp⟩ | rfl)
    · exact ⟨hnonneg, .inr hp⟩
    · exact ⟨Int.natCast_nonneg n, .inl (Int.toNat_natCast n)⟩

@[simp] theorem toSet_union : (s.union t).toSet = s.toSet ∪ t.toSet := by
  ext p
  rw [Set.mem_union, mem_toSet, mem_toSet, mem_toSet, mem_union]
  exact and_or_left

theorem toSet_injective : Function.Injective toSet := by
  intro s t h
  apply ext_positions
  refine List.Pairwise.eq_of_mem_iff s.ascending t.ascending fun n => ?_
  calc n ∈ s.positions
    _ ↔ (n : Int) ∈ s.toSet := natCast_mem_toSet.symm
    _ ↔ (n : Int) ∈ t.toSet := by rw [h]
    _ ↔ n ∈ t.positions := natCast_mem_toSet

theorem nodup_positions (s : PositionSet) : s.positions.Nodup :=
  s.ascending.imp fun hlt => hlt.ne

theorem toSet_finite (s : PositionSet) : s.toSet.Finite := by
  rw [toSet_eq_image]
  exact (List.finite_toSet s.positions).image _

theorem size_eq_ncard (s : PositionSet) : s.size = s.toSet.ncard := by
  have hmembers : {n | n ∈ s} = (s.positions.toFinset : Set Nat) := by
    ext n
    exact List.mem_toFinset.symm
  calc s.size
    _ = s.positions.toFinset.card := (List.toFinset_card_of_nodup s.nodup_positions).symm
    _ = {n | n ∈ s}.ncard := by rw [hmembers, Set.ncard_coe_finset]
    _ = s.toSet.ncard := by
      rw [toSet_eq_image, Set.ncard_image_of_injective _ Nat.cast_injective]

theorem toSet_eq_empty_iff : s.toSet = ∅ ↔ s.positions = [] := by
  rw [← toSet_empty, toSet_injective.eq_iff]
  constructor
  · intro h
    rw [h]
    rfl
  · exact fun h => ext_positions h

theorem isGreatest_of_max? (h : s.max? = some n) : IsGreatest s.toSet (n : Int) := by
  obtain ⟨hmem, hgreatest⟩ := max?_eq_some_iff.1 h
  refine ⟨natCast_mem_toSet.2 hmem, fun p hp => ?_⟩
  obtain ⟨hnonneg, hp⟩ := mem_toSet.1 hp
  have hle : p.toNat ≤ n := hgreatest hp
  omega

/-! ### Adding positions -/

theorem delete_of_isPosition (hp : IsPosition p) :
    ∃ t, s.delete p = .ok t ∧ t.toSet = s.toSet ∪ {p} := by
  obtain ⟨hnonneg, hle⟩ := hp
  have hbound : p.toNat ≤ maxPosition := by omega
  refine ⟨s.insert p.toNat hbound, ?_, ?_⟩
  · unfold delete
    rw [if_neg (by omega), dif_pos hbound]
  · rw [toSet_insert, Int.toNat_of_nonneg hnonneg]

theorem delete_of_not_isPosition (hp : ¬IsPosition p) :
    ∃ e, s.delete p = .error e ∧ (Error.position e).kind = .value := by
  unfold delete
  by_cases hneg : p < 0
  · exact ⟨_, if_pos hneg, rfl⟩
  · refine ⟨.tooLarge, ?_, rfl⟩
    have hbound : ¬p.toNat ≤ maxPosition := fun hle => hp ⟨by omega, by omega⟩
    rw [if_neg hneg, dif_neg hbound]

/-- Positions are added one after the other as long as they are positions. -/
theorem foldlM_delete (positions : List Int) (s : PositionSet) :
    (∀ p ∈ positions, IsPosition p) ∧
        (∃ t, positions.foldlM delete s = .ok t ∧ t.toSet = s.toSet ∪ {p | p ∈ positions}) ∨
      ¬(∀ p ∈ positions, IsPosition p) ∧ ∃ e, positions.foldlM delete s = .error e := by
  induction positions generalizing s with
  | nil => exact .inl ⟨by simp, s, rfl, by simp⟩
  | cons p positions ih =>
      rw [List.foldlM_cons, List.forall_mem_cons]
      by_cases hp : IsPosition p
      · obtain ⟨u, hdelete, hu⟩ := delete_of_isPosition (s := s) hp
        rw [hdelete, ok_bind, and_iff_right hp]
        refine (ih u).imp_left ?_
        rintro ⟨hall, t, ht, hset⟩
        refine ⟨hall, t, ht, ?_⟩
        rw [hset, hu]
        ext q
        simp only [Set.mem_union, Set.mem_singleton_iff, Set.mem_ofPred_eq, List.mem_cons, or_assoc]
      · obtain ⟨e, he, -⟩ := delete_of_not_isPosition (s := s) hp
        rw [he]
        exact .inr ⟨fun hall => hp hall.1, e, rfl⟩

end PositionSet

/-! ## The bitmap of a set of positions -/

theorem maxPosition_lt_size : maxPosition < UInt32.size := by decide

namespace PositionSet

/-- The bitmap that has the positions of a set. -/
def bitmap (s : PositionSet) : Bitmap :=
  ⟨s.positions, s.ascending, fun n hn => (s.bounded n hn).trans_lt maxPosition_lt_size⟩

end PositionSet

namespace Bitmap

variable {p : Int} {positions : List Int}

theorem fits_of_isPosition (hp : IsPosition p) : Fits p := by
  obtain ⟨hnonneg, hle⟩ := hp
  have := maxPosition_lt_size
  exact ⟨hnonneg, by omega⟩

/-- A position that is added passes the check, and then it is a number of 32 bits. -/
theorem delete_bitmap (s : PositionSet) (p : Int) :
    s.bitmap.delete p = liftError .position ((s.delete p).map PositionSet.bitmap) := by
  unfold delete checkPosition PositionSet.delete
  by_cases hneg : p < 0
  · rw [if_pos hneg, if_pos hneg]
    rfl
  · rw [if_neg hneg, if_neg hneg]
    by_cases hbound : p.toNat ≤ maxPosition
    · have hp : IsPosition p := ⟨by omega, by omega⟩
      rw [if_neg (by omega), dif_pos hbound, ok_bind, add, dif_pos (fits_of_isPosition hp)]
      rfl
    · rw [if_pos (by omega), dif_neg hbound]
      rfl

theorem ofPositions_eq (positions : List Int) :
    ofPositions positions =
      liftError .position ((PositionSet.ofPositions positions).map PositionSet.bitmap) := by
  have hfold : ∀ s : PositionSet, positions.foldlM delete s.bitmap =
      liftError .position ((positions.foldlM PositionSet.delete s).map PositionSet.bitmap) := by
    induction positions with
    | nil => exact fun s => rfl
    | cons p positions ih =>
        intro s
        rw [List.foldlM_cons, List.foldlM_cons, delete_bitmap]
        cases s.delete p with
        | error e => rfl
        | ok t => exact ih t
  exact hfold .empty

/-- A position is looked up where it is a number of 32 bits. -/
theorem isDeleted_bitmap (s : PositionSet) (p : Int) :
    s.bitmap.isDeleted p = .ok (s.isDeleted p) := by
  unfold isDeleted
  by_cases hp : IsPosition p
  · have hguard : ¬(p < 0 ∨ (maxPosition : Int) < p) := by
      obtain ⟨hnonneg, hle⟩ := hp
      omega
    rw [if_neg hguard, contains, if_pos (fits_of_isPosition hp), PositionSet.isDeleted,
      decide_eq_true hp.1, Bool.true_and]
    rfl
  · have hguard : p < 0 ∨ (maxPosition : Int) < p := by
      unfold IsPosition at hp
      omega
    have hnot : s.isDeleted p = false :=
      Bool.eq_false_iff.2 fun hmem => hp (PositionSet.isPosition_of_mem hmem)
    rw [if_pos hguard, hnot]

/-- No position of the other set is out of range, so none is left out. -/
theorem union_bitmap (s t : PositionSet) : s.bitmap.union t.bitmap = (s.union t).bitmap := by
  have hpositions : ∀ ps : List Nat, (∀ n ∈ ps, n ≤ maxPosition) →
      ps.foldr PositionSet.insertSorted s.positions = (s.insertAll ps).positions := by
    intro ps
    induction ps with
    | nil => exact fun _ => rfl
    | cons n ps ih =>
        intro hps
        obtain ⟨hn, hps⟩ := List.forall_mem_cons.1 hps
        have hfirst : s.insertAll (n :: ps) = (s.insertAll ps).insert n hn := dif_pos hn
        rw [List.foldr_cons, ih hps, hfirst]
        rfl
  exact ext_members (hpositions t.positions t.bounded)

theorem max_bitmap (s : PositionSet) : s.bitmap.max = liftError .position s.max := by
  unfold max PositionSet.max PositionSet.max? PositionSet.bitmap
  cases s.positions.getLast? <;> rfl

/-- A bitmap that has some positions, all of which are positions of rows. -/
structure Holds (b : Bitmap) (deleted : Set Int) : Prop where
  bounded : ∀ n ∈ b.members, n ≤ maxPosition
  arePositions : ∀ p ∈ deleted, IsPosition p
  /-- There is an answer for every integer. -/
  isDeleted (p : Int) : ∃ answer, b.isDeleted p = .ok answer ∧ (answer = true ↔ p ∈ deleted)
  max : deleted.Nonempty → ∃ n : Nat, b.max = .ok n ∧ IsGreatest deleted (n : Int)
  max_empty : deleted = ∅ → b.max = .error (.position .empty)
  size : deleted.Finite ∧ b.size = deleted.ncard
  isEmpty : b.isEmpty = true ↔ deleted = ∅

theorem holds_bitmap (s : PositionSet) : s.bitmap.Holds s.toSet where
  bounded := s.bounded
  arePositions _ := PositionSet.isPosition_of_mem
  isDeleted p := ⟨_, isDeleted_bitmap s p, Iff.rfl⟩
  max hne := by
    rw [max_bitmap, PositionSet.max]
    cases hmax : s.max? with
    | some n => exact ⟨n, rfl, PositionSet.isGreatest_of_max? hmax⟩
    | none =>
        have hempty := PositionSet.toSet_eq_empty_iff.2 (List.getLast?_eq_none_iff.1 hmax)
        exact absurd hempty hne.ne_empty
  max_empty hempty := by
    have hnone : s.max? = none :=
      List.getLast?_eq_none_iff.2 (PositionSet.toSet_eq_empty_iff.1 hempty)
    rw [max_bitmap, PositionSet.max, hnone]
    rfl
  size := ⟨s.toSet_finite, s.size_eq_ncard⟩
  isEmpty := List.isEmpty_iff.trans PositionSet.toSet_eq_empty_iff.symm

end Bitmap

end MergeOnRead
