import MergeOnRead.Log.Evolution
import MergeOnRead.Proofs.Fields
import Mathlib.Data.List.Nodup

/-!
# How schemas grow

A schema extends another one when it has its fields at the same places, some of them nullable by
now, and behind them nullable fields with the ids that follow the highest one
(`TableSchema.Extends`).  Each change of a column extends the schema
(`extends_of_collect`), and extensions can be put together (`Extends.trans`).

Two schemas that extend a third one need not extend each other.  `keeps_iff_repeats` says
when one of them has kept the fields of the other: the fields that the other made nullable
are nullable in it, and those that the other added are the first ones that it added.
-/

namespace MergeOnRead

/-! ## Fields that become nullable -/

namespace Field

/-- The second field is the first one, or the first one made nullable. -/
def RelaxesTo (f g : Field) : Prop := g = f ∨ g = f.asOptional

theorem asOptional_of_nullable {f : Field} (h : f.nullable = true) : f.asOptional = f := by
  obtain ⟨id, name, type, description⟩ := f
  cases type <;> simp_all [asOptional, nullable, DataType.nullable, DataType.withNullable]

@[simp] theorem nullable_asOptional (f : Field) : f.asOptional.nullable = true := by
  obtain ⟨id, name, type, description⟩ := f
  cases type <;> rfl

@[simp] theorem asOptional_asOptional (f : Field) : f.asOptional.asOptional = f.asOptional :=
  asOptional_of_nullable f.nullable_asOptional

namespace RelaxesTo

variable {f g h : Field}

theorem refl (f : Field) : f.RelaxesTo f := .inl rfl

theorem trans (hfg : f.RelaxesTo g) (hgh : g.RelaxesTo h) : f.RelaxesTo h := by
  rcases hfg with rfl | rfl
  · exact hgh
  · rcases hgh with rfl | rfl
    · exact .inr rfl
    · exact .inr f.asOptional_asOptional

theorem id_eq (hfg : f.RelaxesTo g) : g.id = f.id := by rcases hfg with rfl | rfl <;> rfl

theorem asOptional_eq (hfg : f.RelaxesTo g) : g.asOptional = f.asOptional := by
  rcases hfg with rfl | rfl
  · rfl
  · exact f.asOptional_asOptional

/-- A nullable field stays as it is. -/
theorem eq_of_nullable (hfg : f.RelaxesTo g) (hf : f.nullable = true) : g = f := by
  rcases hfg with rfl | rfl
  · rfl
  · exact asOptional_of_nullable hf

/-- Two stages of one field: the one that is at least as nullable is the later one. -/
theorem of_common {base : Field} (hf : base.RelaxesTo f) (hg : base.RelaxesTo g)
    (hnullable : f.nullable = true → g.nullable = true) : f.RelaxesTo g := by
  rcases hf with rfl | rfl
  · exact hg
  · refine .inl ?_
    rw [← asOptional_of_nullable (hnullable (nullable_asOptional _)), hg.asOptional_eq]

end RelaxesTo

end Field

namespace TableSchema

/-! ## Extensions -/

/-- Ids differ, and none is above the highest one. -/
structure WellNumbered (s : TableSchema) : Prop where
  nodup : (s.fields.map (·.id)).Nodup
  le_highest : ∀ f ∈ s.fields, f.id ≤ s.highestFieldId

/-- The fields of a schema are kept, and new ones with the ids that follow stand behind them. -/
structure Extends (base s : TableSchema) : Prop where
  length_le : base.fields.length ≤ s.fields.length
  kept : ∀ i (hi : i < base.fields.length), base.fields[i].RelaxesTo s.fields[i]
  added : ∀ i (hi : i < s.fields.length), base.fields.length ≤ i →
    s.fields[i].id = base.highestFieldId + 1 + (i - base.fields.length : Nat) ∧
      s.fields[i].nullable = true
  highest : s.highestFieldId = base.highestFieldId + (s.fields.length - base.fields.length : Nat)

/-- Every field is still there. -/
def Keeps (s t : TableSchema) : Prop := ∀ f ∈ s.fields, ∃ g ∈ t.fields, f.RelaxesTo g

/-- Beyond what they have in common, a draft has what the current schema has: where this one is
nullable the draft is so as well, and what this one has added the draft has added first. -/
structure Repeats (base current draft : TableSchema) : Prop where
  relaxed : ∀ i f g, i < base.fields.length → current.fields[i]? = some f →
    draft.fields[i]? = some g → f.nullable = true → g.nullable = true
  added : current.fields.drop base.fields.length <+: draft.fields.drop base.fields.length

variable {base s t : TableSchema}

theorem WellNumbered.eq_of_id_eq (hs : s.WellNumbered) {f g : Field} (hf : f ∈ s.fields)
    (hg : g ∈ s.fields) (hid : f.id = g.id) : f = g :=
  List.inj_on_of_nodup_map hs.nodup hf hg hid

namespace Extends

theorem refl (s : TableSchema) : s.Extends s where
  length_le := Nat.le_refl _
  kept i hi := .refl _
  added i hi hle := absurd hi (Nat.not_lt_of_le hle)
  highest := by simp

theorem trans (hst : base.Extends s) (htu : s.Extends t) : base.Extends t where
  length_le := Nat.le_trans hst.length_le htu.length_le
  kept i hi := (hst.kept i hi).trans (htu.kept i (Nat.lt_of_lt_of_le hi hst.length_le))
  added i hi hle := by
    have := hst.length_le
    -- A field that is not in the base was added by one of the two extensions.
    by_cases hnew : s.fields.length ≤ i
    · obtain ⟨hid, hnullable⟩ := htu.added i hi hnew
      refine ⟨?_, hnullable⟩
      rw [hid, hst.highest]
      omega
    · have hi' : i < s.fields.length := Nat.lt_of_not_le hnew
      obtain ⟨hid, hnullable⟩ := hst.added i hi' hle
      rw [(htu.kept i hi').eq_of_nullable hnullable]
      exact ⟨hid, hnullable⟩
  highest := by
    have := hst.length_le
    have := htu.length_le
    rw [htu.highest, hst.highest]
    omega

theorem withId (hst : base.Extends s) (id : Int) : base.Extends (s.withId id) :=
  ⟨hst.length_le, hst.kept, hst.added, hst.highest⟩

/-- An extension keeps the fields. -/
theorem keeps (hst : s.Extends t) : s.Keeps t := fun f hf => by
  obtain ⟨i, hi, rfl⟩ := List.mem_iff_getElem.1 hf
  exact ⟨_, List.getElem_mem _, hst.kept i hi⟩

/-- The id of a field tells its place. -/
theorem id_getElem (hst : base.Extends s) {i : Nat} (hi : i < s.fields.length) :
    (∃ hi' : i < base.fields.length, s.fields[i].id = base.fields[i].id) ∨
      base.fields.length ≤ i ∧
        s.fields[i].id = base.highestFieldId + 1 + (i - base.fields.length : Nat) := by
  by_cases hnew : base.fields.length ≤ i
  · exact .inr ⟨hnew, (hst.added i hi hnew).1⟩
  · exact .inl ⟨Nat.lt_of_not_le hnew, (hst.kept i (Nat.lt_of_not_le hnew)).id_eq⟩

theorem wellNumbered (hst : base.Extends s) (hbase : base.WellNumbered) : s.WellNumbered where
  nodup := by
    rw [List.nodup_iff_injective_getElem]
    rintro ⟨i, hi⟩ ⟨j, hj⟩ hij
    have hi' : i < s.fields.length := by simpa using hi
    have hj' : j < s.fields.length := by simpa using hj
    simp only [List.getElem_map] at hij
    have hle : ∀ k (hk : k < base.fields.length), base.fields[k].id ≤ base.highestFieldId :=
      fun k hk => hbase.le_highest _ (List.getElem_mem hk)
    -- New ids are above the highest one, so that an old and a new field differ.
    rcases hst.id_getElem hi' with ⟨hi'', hidi⟩ | ⟨hi'', hidi⟩ <;>
      rcases hst.id_getElem hj' with ⟨hj'', hidj⟩ | ⟨hj'', hidj⟩
    · have hsame := hbase.eq_of_id_eq (List.getElem_mem hi'') (List.getElem_mem hj'') (by omega)
      simpa using (List.Nodup.of_map _ hbase.nodup).getElem_inj_iff.1 hsame
    · have := hle i hi''
      omega
    · have := hle j hj''
      omega
    · exact Fin.ext (by simp only; omega)
  le_highest f hf := by
    obtain ⟨i, hi, rfl⟩ := List.mem_iff_getElem.1 hf
    have := hst.length_le
    rw [hst.highest]
    rcases hst.id_getElem hi with ⟨hi', hid⟩ | ⟨hi', hid⟩
    · have := hbase.le_highest _ (List.getElem_mem hi')
      omega
    · omega

end Extends

/-! ## Each change extends the schema -/

theorem make_eq_ok_iff {id : Int} {fields : List Field} {keys : List String} {highest : Option Int}
    {options : List (String × Value)} :
    make id fields keys highest options = .ok s ↔
      (fields.map (·.id)).Nodup ∧
        s = ⟨id, fields, keys, highest.getD (highestOf (fields.map (·.id))), options⟩ := by
  rw [make]
  split
  · rename_i hnodup
    simp [hnodup, eq_comm]
  · rename_i hdup
    simp [hdup]

theorem extends_of_makeColumnOptional {name : String} (h : s.makeColumnOptional name = .ok t) :
    s.Extends t := by
  rw [makeColumnOptional] at h
  split at h
  · cases h
  · rename_i field hfield
    obtain ⟨-, rfl⟩ := make_eq_ok_iff.1 h
    refine ⟨by simp, fun i hi => ?_, fun i hi hle => ?_, by simp⟩
    · simp only [List.getElem_map]
      split
      · exact .inr rfl
      · exact .inl rfl
    · simp only [List.length_map] at hi
      omega

theorem extends_of_addColumn {name : String} {type : DataType}
    (h : s.addColumn name type = .ok t) : s.Extends t := by
  rw [addColumn] at h
  split at h
  · cases h
  · split at h
    · cases h
    · rename_i hnullable
      obtain ⟨-, rfl⟩ := make_eq_ok_iff.1 h
      refine ⟨by simp, fun i hi => ?_, fun i hi hle => ?_, by simp⟩
      · simp only [List.getElem_append_left hi]
        exact .refl _
      · simp only [List.length_append, List.length_singleton] at hi
        obtain rfl : i = s.fields.length := by omega
        simpa [Field.nullable] using hnullable

end TableSchema

/-- The column that a change is about is as the change wants it. -/
def ColumnChange.IsIn (fields : List Field) : ColumnChange → Prop
  | .relax name => ∃ f ∈ fields, f.name = name ∧ f.nullable = true
  | .add name type => ∃ f ∈ fields, f.name = name ∧ f.type = type ∧ f.nullable = true

/-- A change stays where all fields stay. -/
theorem ColumnChange.IsIn.of_keeps {change : ColumnChange} {s t : TableSchema}
    (h : change.IsIn s.fields) (hkeeps : s.Keeps t) : change.IsIn t.fields := by
  cases change with
  | relax name =>
      obtain ⟨f, hf, hname, hnullable⟩ := h
      obtain ⟨g, hg, hfg⟩ := hkeeps f hf
      rw [hfg.eq_of_nullable hnullable] at hg
      exact ⟨f, hg, hname, hnullable⟩
  | add name type =>
      obtain ⟨f, hf, hname, htype, hnullable⟩ := h
      obtain ⟨g, hg, hfg⟩ := hkeeps f hf
      rw [hfg.eq_of_nullable hnullable] at hg
      exact ⟨f, hg, hname, htype, hnullable⟩

namespace SchemaChange

variable {c d : SchemaChange} {change : ColumnChange}

/-- A change that is collected is one of the schema. -/
theorem schema_of_collect (h : c.collect change = .ok d) :
    d.changed = true ∧
      match change with
      | .relax name => c.schema.makeColumnOptional name = .ok d.schema
      | .add name type => c.schema.addColumn name type = .ok d.schema := by
  cases change with
  | relax name =>
      simp only [collect, makeColumnOptional] at h
      split at h
      · rename_i hschema
        cases h
        exact ⟨rfl, hschema⟩
      · cases h
  | add name type =>
      simp only [collect, addColumn] at h
      split at h
      · rename_i hschema
        cases h
        exact ⟨rfl, hschema⟩
      · cases h

theorem extends_of_collect (h : c.collect change = .ok d) : c.schema.Extends d.schema := by
  obtain ⟨-, hschema⟩ := schema_of_collect h
  cases change with
  | relax name => exact TableSchema.extends_of_makeColumnOptional hschema
  | add name type => exact TableSchema.extends_of_addColumn hschema

/-- What is collected is there. -/
theorem isIn_of_collect (h : c.collect change = .ok d) : change.IsIn d.schema.fields := by
  obtain ⟨-, hschema⟩ := schema_of_collect h
  cases change with
  | relax name =>
      simp only [TableSchema.makeColumnOptional] at hschema
      split at hschema
      · cases hschema
      · rename_i field hfield
        obtain ⟨hmem, hname⟩ := TableSchema.of_findLast?_eq_some hfield
        obtain ⟨-, hd⟩ := TableSchema.make_eq_ok_iff.1 hschema
        rw [hd]
        refine ⟨field.asOptional, List.mem_map.2 ⟨field, hmem, if_pos rfl⟩, ?_, by simp⟩
        simpa [Field.asOptional] using hname
  | add name type =>
      simp only [TableSchema.addColumn] at hschema
      split at hschema
      · cases hschema
      · split at hschema
        · cases hschema
        · rename_i hnullable
          obtain ⟨-, hd⟩ := TableSchema.make_eq_ok_iff.1 hschema
          rw [hd]
          exact ⟨_, List.mem_append_right _ (List.mem_singleton_self _), rfl, rfl,
            by simpa [Field.nullable] using hnullable⟩

end SchemaChange

/-! ## Two extensions of one schema -/

namespace TableSchema

variable {base s t : TableSchema}

/-- What one of two extensions has added first comes first in the other one as well, if that
keeps all fields. -/
theorem drop_prefix_of_keeps (hbase : base.WellNumbered) (hs : base.Extends s)
    (ht : base.Extends t) (hkeeps : s.Keeps t) :
    s.fields.drop base.fields.length <+: t.fields.drop base.fields.length := by
  -- An added field is nullable, so it is kept as it is, and its id tells its place.
  have hsame : ∀ i (hi : i < s.fields.length), base.fields.length ≤ i →
      t.fields[i]? = some s.fields[i] := by
    intro i hi hle
    obtain ⟨hid, hnullable⟩ := hs.added i hi hle
    obtain ⟨g, hg, hfg⟩ := hkeeps _ (List.getElem_mem hi)
    rw [hfg.eq_of_nullable hnullable] at hg
    obtain ⟨j, hj, hsame⟩ := List.mem_iff_getElem.1 hg
    have hidj : t.fields[j].id = s.fields[i].id := by rw [hsame]
    rcases ht.id_getElem hj with ⟨hj', hkept⟩ | ⟨hj', hadded⟩
    · have := hbase.le_highest _ (List.getElem_mem hj')
      omega
    · obtain rfl : j = i := by omega
      rw [List.getElem?_eq_getElem hj, hsame]
  rw [List.prefix_iff_getElem?]
  intro i hi
  rw [List.length_drop] at hi
  rw [List.getElem?_drop, List.getElem_drop]
  exact hsame _ (by omega) (Nat.le_add_right _ _)

/-- An extension that keeps another one repeats it. -/
theorem repeats_of_keeps (hbase : base.WellNumbered) (hs : base.Extends s) (ht : base.Extends t)
    (hkeeps : s.Keeps t) : base.Repeats s t where
  relaxed i f g hi hf hg hnullable := by
    obtain ⟨hi', rfl⟩ := List.getElem?_eq_some_iff.1 hf
    obtain ⟨hi'', rfl⟩ := List.getElem?_eq_some_iff.1 hg
    obtain ⟨g, hg, hfg⟩ := hkeeps _ (List.getElem_mem hi')
    have hid : t.fields[i].id = g.id := by
      rw [hfg.id_eq, (hs.kept i hi).id_eq, (ht.kept i hi).id_eq]
    rw [(ht.wellNumbered hbase).eq_of_id_eq (List.getElem_mem hi'') hg hid,
      hfg.eq_of_nullable hnullable]
    exact hnullable
  added := drop_prefix_of_keeps hbase hs ht hkeeps

/-- An extension that repeats another one extends it. -/
theorem extends_of_repeats (hs : base.Extends s) (ht : base.Extends t) (h : base.Repeats s t) :
    s.Extends t := by
  have hslength := hs.length_le
  have htlength := ht.length_le
  have hlength : s.fields.length ≤ t.fields.length := by
    have := h.added.length_le
    rw [List.length_drop, List.length_drop] at this
    omega
  refine ⟨hlength, fun i hi => ?_, fun i hi hle => ?_, ?_⟩
  · -- A field of the base may have become nullable; one that was added stands in both.
    by_cases hnew : base.fields.length ≤ i
    · have hsame := List.prefix_iff_getElem?.1 h.added (i - base.fields.length)
        (by rw [List.length_drop]; omega)
      rw [List.getElem?_drop, List.getElem_drop] at hsame
      obtain ⟨hi', hsame⟩ := List.getElem?_eq_some_iff.1 hsame
      simp only [Nat.add_sub_cancel' hnew] at hsame
      exact .inl hsame
    · have hi' : i < base.fields.length := Nat.lt_of_not_le hnew
      exact (hs.kept i hi').of_common (ht.kept i hi') (h.relaxed i _ _ hi'
        (List.getElem?_eq_getElem hi) (List.getElem?_eq_getElem (by omega)))
  · obtain ⟨hid, hnullable⟩ := ht.added i hi (Nat.le_trans hslength hle)
    refine ⟨?_, hnullable⟩
    rw [hid, hs.highest]
    omega
  · rw [ht.highest, hs.highest]
    omega

/-- Of two extensions of one schema, one keeps the fields of the other exactly when it repeats
it. -/
theorem keeps_iff_repeats (hbase : base.WellNumbered) (hs : base.Extends s)
    (ht : base.Extends t) : s.Keeps t ↔ base.Repeats s t :=
  ⟨repeats_of_keeps hbase hs ht, fun h => (extends_of_repeats hs ht h).keeps⟩

end TableSchema

end MergeOnRead
