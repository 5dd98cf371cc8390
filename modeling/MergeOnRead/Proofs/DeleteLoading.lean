import MergeOnRead.Deletes.IndexCache
import MergeOnRead.Proofs.ExactValues
import MergeOnRead.Proofs.Fields
import MergeOnRead.Scan.DeleteLoading

/-!
# What the index of a delete file depends on

The index of a delete file is kept under its path, its content and the ids of its key fields
(`key_cacheKey_eq_iff`).  It is made from its format as well, and from the names and the column
types that the key fields have in the schema that it is read with; `load_eq_ok_of_sameKeys` says
that it depends on nothing else.
-/

namespace MergeOnRead

/-! ## The key of an index -/

theorem FileContent.name_injective {c d : FileContent} (h : c.name = d.name) : c = d := by
  cases c <;> cases d <;> first | rfl | simp [name] at h

theorem Value.keys_int_injective {ids ids' : List Int}
    (h : keys (ids.map Value.int) = keys (ids'.map Value.int)) : ids = ids' := by
  induction ids generalizing ids' with
  | nil =>
      cases ids' with
      | nil => rfl
      | cons id ids' => cases h
  | cons id ids ih =>
      cases ids' with
      | nil => cases h
      | cons id' ids' =>
          simp only [List.map_cons, keys, List.cons.injEq, key, Key.atom.injEq, Scalar.atom,
            Atom.number.injEq] at h
          rw [Exact.ofInt_injective h.1, ih h.2]

namespace DeleteFile

variable {f g : DeleteFile}

theorem key_cacheKey_eq_iff :
    f.cacheKey.key = g.cacheKey.key ↔
      f.path = g.path ∧ f.content = g.content ∧ f.fieldIds = g.fieldIds := by
  constructor
  · intro h
    simp only [cacheKey, Value.key, Value.keys, Scalar.atom, Key.node.injEq, List.cons.injEq,
      Key.atom.injEq, Atom.text.injEq, Atom.member.injEq, true_and, and_true] at h
    obtain ⟨hpath, ⟨-, hname⟩, hids⟩ := h
    exact ⟨hpath, FileContent.name_injective hname, Value.keys_int_injective hids⟩
  · rintro ⟨hpath, hcontent, hids⟩
    rw [cacheKey, cacheKey, hpath, hcontent, hids]

end DeleteFile

/-! ## Key columns -/

namespace Field

/-- The name and the type of the column that a field is read as. -/
def form (f : Field) : String × Except TypeError ColumnType := (f.name, f.type.columnType)

/-- The column that a field is read as. -/
def header (f : Field) : Except TypeError ColumnHeader := f.column.map fun c => ⟨c.name, c.type⟩

theorem headers_eq (fields : List Field) : headers fields = fields.mapM header := by
  induction fields with
  | nil => rfl
  | cons f fields ih =>
      rw [List.mapM_cons, ← ih, headers, headers, columns, columns, List.mapM_cons, header]
      cases f.column with
      | error e => rfl
      | ok c => cases fields.mapM column <;> rfl

/-- Two fields with one id and one form. -/
def SameColumn (f g : Field) : Prop := f.id = g.id ∧ f.form = g.form

theorem sameColumn_self (fields : List Field) : List.Forall₂ SameColumn fields fields :=
  List.forall₂_same.2 fun _ _ => ⟨rfl, rfl⟩

theorem SameColumn.header_eq {f g : Field} (h : f.SameColumn g) : f.header = g.header := by
  obtain ⟨hname, htype⟩ := Prod.mk.inj h.2
  rw [header, header, column, column, h.1, hname, htype]
  cases g.type.columnType with
  | error e => rfl
  | ok type => cases Numeral.writeInt? g.id <;> rfl

/-- Columns depend on ids and forms. -/
theorem headers_congr {fields others : List Field} (h : List.Forall₂ SameColumn fields others) :
    headers fields = headers others := by
  rw [headers_eq, headers_eq]
  induction h with
  | nil => rfl
  | cons hsame hrest ih => rw [List.mapM_cons, List.mapM_cons, hsame.header_eq, ih]

end Field

/-- The key fields of a file are columns of the same names and types in two schemas. -/
def DeleteFile.SameKeys (f : DeleteFile) (s t : TableSchema) : Prop :=
  ∀ id ∈ f.fieldIds, (s.findField? id).map Field.form = (t.findField? id).map Field.form

namespace DeleteFile

variable {f g : DeleteFile} {s t : TableSchema} {source : RowSource}

theorem keyFields_eq_ok_iff {fields : List Field} :
    f.keyFields s = .ok fields ↔
      List.Forall₂ (fun id field => s.findField? id = some field) f.fieldIds fields := by
  rw [keyFields, mapM_eq_ok_iff]
  constructor
  · refine fun h => h.imp fun id field hfield => ?_
    split at hfield
    · rename_i hfound
      rw [hfound, Except.ok.inj hfield]
    · cases hfield
  · exact fun h => h.imp fun id field hfield => by rw [hfield]

theorem exists_keyFields (h : ∀ id ∈ f.fieldIds, ∃ field, s.findField? id = some field) :
    ∃ fields, f.keyFields s = .ok fields := by
  refine exists_mapM_eq_ok fun id hid => ?_
  obtain ⟨field, hfield⟩ := h id hid
  exact ⟨field, by rw [hfield]⟩

/-- The key fields have the ids that the file names. -/
theorem map_id_of_keyFields {fields : List Field} (h : f.keyFields s = .ok fields) :
    fields.map (·.id) = f.fieldIds := by
  rw [keyFields_eq_ok_iff] at h
  generalize f.fieldIds = ids at h
  induction h with
  | nil => rfl
  | @cons id field ids fields hfield hrest ih =>
      obtain ⟨-, hid⟩ := TableSchema.of_findLast?_eq_some hfield
      rw [List.map_cons, ih, eq_of_beq hid]

theorem mem_of_keyFields {fields : List Field} (h : f.keyFields s = .ok fields) {field : Field} :
    field ∈ fields ↔ ∃ id ∈ f.fieldIds, s.findField? id = some field := by
  rw [keyFields_eq_ok_iff] at h
  generalize f.fieldIds = ids at h ⊢
  induction h with
  | nil => simp
  | cons hfield hrest ih => simp [ih, hfield, eq_comm]

/-- What is made of the key fields is made of them by their ids. -/
theorem map_of_keyFields {α : Type} {fields : List Field} (h : f.keyFields s = .ok fields)
    (make : Field → α) (d : α) :
    fields.map make = f.fieldIds.map fun id => ((s.findField? id).map make).getD d := by
  rw [keyFields_eq_ok_iff] at h
  generalize f.fieldIds = ids at h ⊢
  induction h with
  | nil => rfl
  | cons hfield hrest ih => rw [List.map_cons, List.map_cons, ih, hfield, Option.map_some,
      Option.getD_some]

/-- Different key fields have different names when all fields of the schema have. -/
theorem nodup_names_of_keyFields {fields : List Field} (h : f.keyFields s = .ok fields)
    (hids : f.fieldIds.Nodup) (hnames : s.fieldNames.Nodup) : (fields.map (·.name)).Nodup := by
  have hfields : fields.Nodup := List.Nodup.of_map (·.id) (by rwa [map_id_of_keyFields h])
  have hmem : ∀ field ∈ fields, field ∈ s.fields := by
    intro field hfield
    obtain ⟨id, -, hfound⟩ := (mem_of_keyFields h).1 hfield
    exact (TableSchema.of_findLast?_eq_some hfound).1
  refine hfields.map_on fun a ha b hb hab => ?_
  exact List.inj_on_of_nodup_map hnames (hmem a ha) (hmem b hb) hab

/-- Where a file has its key fields, it has them in every schema with the same key columns. -/
theorem SameKeys.exists_keyFields (h : f.SameKeys s t) {fields : List Field}
    (hfields : f.keyFields s = .ok fields) :
    ∃ others, f.keyFields t = .ok others ∧ List.Forall₂ Field.SameColumn fields others := by
  simp only [keyFields_eq_ok_iff] at hfields ⊢
  rw [SameKeys] at h
  generalize f.fieldIds = ids at h hfields ⊢
  induction hfields with
  | nil => exact ⟨[], .nil, .nil⟩
  | @cons id field ids fields hfield hrest ih =>
      obtain ⟨others, hothers, hcolumns⟩ := ih fun id hid => h id (List.mem_cons_of_mem _ hid)
      have hsame := h id (List.mem_cons_self ..)
      rw [hfield, Option.map_some] at hsame
      obtain ⟨other, hother, hform⟩ := Option.map_eq_some_iff.1 hsame.symm
      obtain ⟨-, hid⟩ := TableSchema.of_findLast?_eq_some hfield
      obtain ⟨-, hid'⟩ := TableSchema.of_findLast?_eq_some hother
      exact ⟨other :: others, .cons hother hothers,
        .cons ⟨(eq_of_beq hid).trans (eq_of_beq hid').symm, hform.symm⟩ hcolumns⟩

theorem openFields_congr (hpath : f.path = g.path) (hformat : f.format = g.format)
    {fields others : List Field} (hcolumns : List.Forall₂ Field.SameColumn fields others) :
    f.openFields source fields = g.openFields source others := by
  have hnames : fields.map (·.name) = others.map (·.name) := by
    rw [← List.forall₂_eq_eq_eq, List.forall₂_map_left_iff, List.forall₂_map_right_iff]
    exact hcolumns.imp fun _ _ h => congrArg Prod.fst h.2
  simp only [openFields, Field.headers_congr hcolumns, hnames, hpath, hformat]

theorem addKeys_congr (hpath : f.path = g.path) (keys : KeySet) (number : Nat) (bs : List Batch) :
    f.addKeys keys number bs = g.addKeys keys number bs := by
  induction bs generalizing keys number with
  | nil => rfl
  | cons b bs ih => simp only [addKeys, hpath, ih]

theorem report_congr (hpath : f.path = g.path) : f.report = g.report := by
  funext e
  simp only [report, hpath]

theorem loadPositions_congr (hpath : f.path = g.path) (hformat : f.format = g.format) :
    f.loadPositions source = g.loadPositions source := by
  have hposition : f.positionOf = g.positionOf := by
    funext values
    unfold positionOf
    rw [hpath]
  simp only [loadPositions, openFields_congr hpath hformat (Field.sameColumn_self _),
    report_congr hpath, hposition, hpath]

/-- **An index depends on the schema only through the columns of the key fields.** -/
theorem load_eq_ok_of_sameKeys {i : DeleteIndex} (hkey : f.cacheKey.key = g.cacheKey.key)
    (hformat : f.format = g.format) (hkeys : f.SameKeys s t) (h : f.load source s = .ok i) :
    g.load source t = .ok i := by
  obtain ⟨hpath, hcontent, hids⟩ := key_cacheKey_eq_iff.1 hkey
  have hequalities : f.loadEqualities source s = .ok i → g.loadEqualities source t = .ok i := by
    intro h
    obtain ⟨fields, hfields, h⟩ := bind_eq_ok_iff.1 h
    obtain ⟨others, hothers, hcolumns⟩ := hkeys.exists_keyFields hfields
    have hothers' : g.keyFields t = .ok others := by
      rw [keyFields_eq_ok_iff, ← hids, ← keyFields_eq_ok_iff]
      exact hothers
    rw [loadEqualities, hothers', ok_bind, ← openFields_congr hpath hformat hcolumns, ← hpath,
      ← hids, ← report_congr hpath]
    simp only [← addKeys_congr hpath]
    exact h
  rw [load] at h ⊢
  rw [← hcontent]
  cases hf : f.content with
  | positionDeletes =>
      rw [hf] at h
      rw [← loadPositions_congr hpath hformat]
      exact h
  | data => exact hequalities (by rwa [hf] at h)
  | equalityDeletes => exact hequalities (by rwa [hf] at h)

end DeleteFile

end MergeOnRead
