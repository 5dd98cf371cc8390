import MergeOnRead.Proofs.Fields
import MergeOnRead.Scan.TaskReader
import Mathlib.Data.List.Basic

/-!
# The fields that a task reads

The fields that are asked for come from a schema, and behind them come the key fields of the deletes
that are not among them.  No id occurs twice among all of them, so that they lead to different
columns of the data file.

* `nodup_ids_of_project`: a projection without repeated names asks for no field twice;
* `readFields_eq_ok`: the fields that are read begin with those that are asked for, and contain
  every key field;
* `columnsToRead_eq_ok`: the columns that are opened are different columns of the file, and every
  field that the file has is among them.
-/

namespace MergeOnRead

/-! ## The fields that are asked for -/

namespace TableSchema

variable {s : TableSchema} {fields : List Field}

theorem fieldsNamed_eq_ok {names : List String} (h : s.fieldsNamed names = .ok fields) :
    List.Forall₂ (fun name f => s.findFieldByName? name = some f) names fields := by
  induction names generalizing fields with
  | nil =>
      cases h
      exact .nil
  | cons name names ih =>
      rw [fieldsNamed] at h
      split at h
      · rename_i f hf
        obtain ⟨rest, hrest, rfl⟩ := map_eq_ok_iff.1 h
        exact .cons hf (ih hrest)
      · cases h

/-- A projection gives all fields, or one for each of its names. -/
theorem project_cases {projection : Option (List String)} (h : s.project projection = .ok fields) :
    fields = s.fields ∨ ∃ names, projection = some names ∧ names ≠ [] ∧
      List.Forall₂ (fun name f => f ∈ s.fields ∧ f.name = name) names fields := by
  unfold project at h
  split at h
  · cases h
    exact .inl rfl
  · rename_i names
    split at h
    · cases h
      exact .inl rfl
    · rename_i hsome
      refine .inr ⟨names, rfl, fun hnil => hsome (by simp [hnil]), ?_⟩
      refine (fieldsNamed_eq_ok h).imp fun name f hf => ?_
      obtain ⟨hmem, hname⟩ := of_findLast?_eq_some hf
      exact ⟨hmem, by simpa using hname⟩

theorem mem_of_project {projection : Option (List String)} (h : s.project projection = .ok fields)
    {f : Field} (hf : f ∈ fields) : f ∈ s.fields := by
  rcases project_cases h with rfl | ⟨names, -, -, hforall⟩
  · exact hf
  · obtain ⟨i, hi, rfl⟩ := List.mem_iff_getElem.1 hf
    exact (hforall.get (hforall.length_eq ▸ hi) hi).1

theorem ne_nil_of_project {projection : Option (List String)}
    (h : s.project projection = .ok fields) (hs : s.fields ≠ []) : fields ≠ [] := by
  rcases project_cases h with rfl | ⟨names, -, hnames, hforall⟩
  · exact hs
  · intro hnil
    rw [hnil, List.forall₂_nil_right_iff] at hforall
    exact hnames hforall

/-- A projection without repeated names asks for no field twice. -/
theorem nodup_ids_of_project {projection : Option (List String)}
    (h : s.project projection = .ok fields) (hids : s.fieldIds.Nodup)
    (hnames : ∀ names ∈ projection, names.Nodup) : (fields.map (·.id)).Nodup := by
  rcases project_cases h with rfl | ⟨names, hsome, -, hforall⟩
  · exact hids
  · have hmap : fields.map (·.name) = names := by
      clear hsome h
      induction hforall with
      | nil => rfl
      | cons hf hrest ih => rw [List.map_cons, hf.2, ih]
    have hfields : fields.Nodup := by
      refine List.Nodup.of_map (·.name) ?_
      rw [hmap]
      exact hnames names hsome
    exact hfields.map_on fun f hf g hg hid =>
      List.inj_on_of_nodup_map hids (mem_of_project h hf) (mem_of_project h hg) hid

end TableSchema

namespace Scan

variable {schema fileSchema : TableSchema} {dataPath : String} {fields all : List Field}
  {ids : List Int}

/-! ## The key fields -/

/-- The fields that are read are those that are asked for and behind them fields of the schema,
with the key fields among them.  No id occurs twice when none did. -/
theorem readFields_eq_ok (h : readFields schema dataPath fields ids = .ok all) :
    (∃ hidden, all = fields ++ hidden ∧ ∀ f ∈ hidden, f ∈ schema.fields) ∧
      ((fields.map (·.id)).Nodup → (all.map (·.id)).Nodup) ∧
      ∀ id ∈ ids, id ∈ all.map (·.id) := by
  induction ids generalizing fields with
  | nil =>
      cases h
      exact ⟨⟨[], by simp⟩, fun hfields => hfields, by simp⟩
  | cons id ids ih =>
      rw [readFields] at h
      -- A key field is read behind the others unless it is there already.
      split at h
      · rename_i hpresent
        obtain ⟨⟨hidden, rfl, hhidden⟩, hnodup, hids⟩ := ih h
        refine ⟨⟨hidden, rfl, hhidden⟩, hnodup, fun i hi => ?_⟩
        rcases List.mem_cons.1 hi with rfl | hi
        · obtain ⟨f, hf, hid⟩ := List.any_eq_true.1 hpresent
          exact List.mem_map.2 ⟨f, List.mem_append_left _ hf, by simpa using hid⟩
        · exact hids i hi
      · rename_i habsent
        split at h
        · rename_i f hf
          obtain ⟨hmem, hid⟩ := TableSchema.of_findLast?_eq_some hf
          obtain ⟨⟨hidden, rfl, hhidden⟩, hnodup, hids⟩ := ih h
          refine ⟨⟨f :: hidden, by simp, ?_⟩, fun hfields => hnodup ?_, fun i hi => ?_⟩
          · intro g hg
            rcases List.mem_cons.1 hg with rfl | hg
            · exact hmem
            · exact hhidden g hg
          · -- The field is new, as no field with its id is there.
            have hnew : f.id ∉ fields.map (·.id) := by
              intro hin
              obtain ⟨g, hg, hgf⟩ := List.mem_map.1 hin
              exact habsent (List.any_eq_true.2 ⟨g, hg, by
                rw [hgf]
                exact hid⟩)
            rw [List.map_append, List.nodup_append]
            refine ⟨hfields, by simp, ?_⟩
            rintro _ hin _ hf' rfl
            rw [List.map_singleton, List.mem_singleton] at hf'
            exact hnew (hf' ▸ hin)
          · rcases List.mem_cons.1 hi with rfl | hi
            · exact List.mem_map.2 ⟨f, by simp, by simpa using hid⟩
            · exact hids i hi
        · cases h

/-! ## The columns of the file -/

/-- Different ids lead to different columns when the columns of the file have different names. -/
theorem nameOf?_injective (hnames : fileSchema.fieldNames.Nodup) {i j : Int} {name : String}
    (hi : name ∈ Field.nameOf? fileSchema.fields i)
    (hj : name ∈ Field.nameOf? fileSchema.fields j) : i = j := by
  obtain ⟨f, hf, hfn⟩ := Option.map_eq_some_iff.1 hi
  obtain ⟨g, hg, hgn⟩ := Option.map_eq_some_iff.1 hj
  obtain ⟨hfmem, hfid⟩ := TableSchema.of_findLast?_eq_some hf
  obtain ⟨hgmem, hgid⟩ := TableSchema.of_findLast?_eq_some hg
  have hsame : f = g := List.inj_on_of_nodup_map hnames hfmem hgmem (hfn.trans hgn.symm)
  subst hsame
  rw [← eq_of_beq hfid, ← eq_of_beq hgid]

theorem mem_fieldNames_of_nameOf? {i : Int} {name : String}
    (h : name ∈ Field.nameOf? fileSchema.fields i) : name ∈ fileSchema.fieldNames := by
  obtain ⟨f, hf, rfl⟩ := Option.map_eq_some_iff.1 h
  exact List.mem_map_of_mem (TableSchema.of_findLast?_eq_some hf).1

/-- A file with columns is opened with some of them, each once, and every field that the file has
is among them. -/
theorem columnsToRead_eq_ok (hfile : fileSchema.fields ≠ []) (hnames : fileSchema.fieldNames.Nodup)
    (hids : (all.map (·.id)).Nodup) :
    ∃ columns, columnsToRead fileSchema (Field.physicalNames fileSchema.fields all) = .ok columns ∧
      columns ≠ [] ∧ columns.Nodup ∧ (∀ name ∈ columns, name ∈ fileSchema.fieldNames) ∧
      ∀ f ∈ all, ∀ name ∈ Field.nameOf? fileSchema.fields f.id, name ∈ columns := by
  have hphysical : (Field.physicalNames fileSchema.fields all).filterMap id =
      (all.map (·.id)).filterMap (Field.nameOf? fileSchema.fields) := by
    rw [Field.physicalNames, List.filterMap_map, List.filterMap_map]
    rfl
  have hfound : ∀ f ∈ all, ∀ name ∈ Field.nameOf? fileSchema.fields f.id,
      name ∈ (all.map (·.id)).filterMap (Field.nameOf? fileSchema.fields) := fun f hf name hname =>
    List.mem_filterMap.2 ⟨f.id, List.mem_map_of_mem hf, hname⟩
  rw [columnsToRead, hphysical]
  cases hcolumns : (all.map (·.id)).filterMap (Field.nameOf? fileSchema.fields) with
  | nil =>
      -- The file has none of the fields; its first column is opened to count its rows.
      rw [hcolumns] at hfound
      cases hfields : fileSchema.fields with
      | nil => exact absurd hfields hfile
      | cons first rest =>
          refine ⟨[first.name], rfl, by simp, by simp, ?_, fun f hf name hname => ?_⟩
          · simp [TableSchema.fieldNames, hfields]
          · rw [← hfields] at hname
            cases hfound f hf name hname
  | cons name names =>
      refine ⟨name :: names, rfl, by simp, ?_, fun n hn => ?_, hcolumns ▸ hfound⟩
      · rw [← hcolumns]
        exact hids.filterMap fun i j n hi hj => nameOf?_injective hnames hi hj
      · rw [← hcolumns] at hn
        obtain ⟨i, -, hi⟩ := List.mem_filterMap.1 hn
        exact mem_fieldNames_of_nameOf? hi

end Scan

end MergeOnRead
