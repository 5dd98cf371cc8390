import MergeOnRead.Proofs.Results
import MergeOnRead.Schema.ColumnField
import MergeOnRead.Schema.Resolver
import Mathlib.Data.List.Nodup

/-!
# Looking up fields

Fields are looked up by id or by name, and of several the last one counts.  Where ids
differ the order does not matter: `findLast?_eq_of_unique` finds the one field there is,
and `positionOf?_eq_some_iff` the place of it.  `column_eq_ok_iff` says which fields have
columns.
-/

namespace MergeOnRead

open TableSchema

namespace TableSchema

theorem findLast?_eq_find?_reverse {α : Type} (p : α → Bool) (xs : List α) :
    findLast? p xs = xs.reverse.find? p := by
  have hfold : ∀ (found : Option α), xs.foldl (fun found x => if p x then some x else found) found =
      (xs.reverse.find? p).or found := by
    induction xs with
    | nil => intro found; rfl
    | cons x xs ih =>
        intro found
        rw [List.foldl_cons, ih, List.reverse_cons, List.find?_append]
        cases hx : p x <;> cases xs.reverse.find? p <;> simp [hx]
  rw [findLast?, hfold none, Option.or_none]

theorem of_findLast?_eq_some {α : Type} {p : α → Bool} {xs : List α} {x : α}
    (h : findLast? p xs = some x) : x ∈ xs ∧ p x = true := by
  rw [findLast?_eq_find?_reverse] at h
  exact ⟨List.mem_reverse.1 (List.mem_of_find?_eq_some h), List.find?_some h⟩

theorem findLast?_eq_none_iff {α : Type} {p : α → Bool} {xs : List α} :
    findLast? p xs = none ↔ ∀ x ∈ xs, p x = false := by
  rw [findLast?_eq_find?_reverse, List.find?_eq_none]
  simp

/-- The only item with a property is found. -/
theorem findLast?_eq_of_unique {α : Type} {p : α → Bool} {xs : List α} {x : α} (hx : x ∈ xs)
    (hp : p x = true) (hunique : ∀ y ∈ xs, p y = true → y = x) : findLast? p xs = some x := by
  cases hfound : findLast? p xs with
  | none => simp [findLast?_eq_none_iff.1 hfound x hx] at hp
  | some y =>
      obtain ⟨hy, hpy⟩ := of_findLast?_eq_some hfound
      rw [hunique y hy hpy]

/-- Where ids differ, a field is found by its id. -/
theorem findLast?_id {fields : List Field} (hids : (fields.map (·.id)).Nodup) {f : Field}
    (hf : f ∈ fields) : findLast? (fun g => g.id == f.id) fields = some f :=
  findLast?_eq_of_unique hf (by simp) fun g hg hgf =>
    List.inj_on_of_nodup_map hids hg hf (by simpa using hgf)

theorem findField?_eq_none_iff {s : TableSchema} {id : Int} :
    s.findField? id = none ↔ id ∉ s.fieldIds := by
  simp [findField?, findLast?_eq_none_iff, fieldIds]

end TableSchema

namespace Field

theorem nameOf?_self {fields : List Field} (hids : (fields.map (·.id)).Nodup) {f : Field}
    (hf : f ∈ fields) : nameOf? fields f.id = some f.name := by
  rw [nameOf?, findLast?_id hids hf]
  rfl

/-! ## Places -/

theorem of_positionOf?_eq_some {fields : List Field} {id : Int} {i : Nat}
    (h : positionOf? fields id = some i) : ∃ hi : i < fields.length, fields[i].id = id := by
  obtain ⟨⟨f, j⟩, hfound, rfl⟩ := Option.map_eq_some_iff.1 h
  obtain ⟨hmem, hid⟩ := of_findLast?_eq_some hfound
  obtain ⟨hj, hf⟩ := List.mem_zipIdx' hmem
  exact ⟨hj, hf ▸ by simpa using hid⟩

theorem positionOf?_eq_none_iff {fields : List Field} {id : Int} :
    positionOf? fields id = none ↔ id ∉ fields.map (·.id) := by
  rw [positionOf?, Option.map_eq_none_iff, findLast?_eq_none_iff]
  constructor
  · rintro h hmem
    obtain ⟨f, hf, rfl⟩ := List.mem_map.1 hmem
    obtain ⟨j, hj⟩ := List.mem_iff_getElem?.1 hf
    simpa using h _ (List.mk_mem_zipIdx_iff_getElem?.2 hj)
  · rintro h ⟨f, j⟩ hmem
    have : f.id ≠ id := fun hid => h (List.mem_map.2 ⟨f, List.fst_mem_of_mem_zipIdx hmem, hid⟩)
    simpa using this

/-- Where ids differ, the place of an id is where the field with this id stands. -/
theorem positionOf?_eq_some_iff {fields : List Field} (hids : (fields.map (·.id)).Nodup)
    {id : Int} {i : Nat} :
    positionOf? fields id = some i ↔ ∃ hi : i < fields.length, fields[i].id = id := by
  refine ⟨of_positionOf?_eq_some, ?_⟩
  rintro ⟨hi, hid⟩
  cases hpos : positionOf? fields id with
  | none =>
      exact absurd (List.mem_map.2 ⟨_, List.getElem_mem hi, hid⟩)
        (positionOf?_eq_none_iff.1 hpos)
  | some j =>
      obtain ⟨hj, hjd⟩ := of_positionOf?_eq_some hpos
      have hsame : fields[j] = fields[i] :=
        List.inj_on_of_nodup_map hids (List.getElem_mem hj) (List.getElem_mem hi) (by rw [hjd, hid])
      rw [(List.Nodup.of_map _ hids).getElem_inj_iff.1 hsame]

theorem positionsOf_eq_ok_iff {ids : List Int} {fields : List Field} {places : List Nat} :
    positionsOf ids fields = .ok places ↔
      List.Forall₂ (fun id i => positionOf? fields id = some i) ids places := by
  rw [positionsOf, mapM_eq_ok_iff]
  refine ⟨fun h => h.imp fun id i hi => ?_, fun h => h.imp fun id i hi => by rw [hi]⟩
  split at hi
  · rename_i hpos
    rw [hpos, Except.ok.inj hi]
  · cases hi

theorem lt_of_mem_positionsOf {ids : List Int} {fields : List Field} {places : List Nat}
    (h : positionsOf ids fields = .ok places) {place : Nat} (hplace : place ∈ places) :
    place < fields.length := by
  obtain ⟨i, hi, rfl⟩ := List.mem_iff_getElem.1 hplace
  have hforall := positionsOf_eq_ok_iff.1 h
  obtain ⟨hlt, -⟩ := of_positionOf?_eq_some (hforall.get (hforall.length_eq ▸ hi) hi)
  exact hlt

/-! ## Columns -/

/-- The number of digits of the id of a field. -/
def idDigits (f : Field) : Nat := (Nat.toDigits 10 f.id.natAbs).length

/-- A field has a column when its type has one and its id can be written. -/
theorem column_eq_ok_iff {f : Field} {c : ColumnField} : f.column = .ok c ↔
    ∃ type, f.type.columnType = .ok type ∧ f.idDigits ≤ Numeral.maxDigits ∧
      c = ⟨f.name, type, f.nullable, some (toString f.id)⟩ := by
  rw [column, bind_eq_ok_iff]
  refine exists_congr fun type => and_congr_right fun _ => ?_
  unfold Numeral.writeInt? idDigits
  by_cases hlong : Numeral.maxDigits < (Nat.toDigits 10 f.id.natAbs).length
  · rw [if_pos hlong]
    exact ⟨nofun, fun h => absurd h.1 (Nat.not_le.2 hlong)⟩
  · rw [if_neg hlong]
    constructor
    · intro h
      cases h
      exact ⟨Nat.not_lt.1 hlong, rfl⟩
    · rintro ⟨-, rfl⟩
      rfl

end Field

end MergeOnRead
