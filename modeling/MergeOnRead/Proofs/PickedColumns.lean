import MergeOnRead.Proofs.DeleteLoading
import MergeOnRead.Proofs.FilterParts
import MergeOnRead.Proofs.StoredRows

/-!
# Batches with picked columns

A batch may have the columns of another one in other places, some of them more than once
(`Batch.picked`).  Conforming both to their fields, and filtering them, keeps them alike, as long
as each name and each key field leads to the same column in both.

Strategy:

* `Batch.conform_eq` reads a conformed batch field by field, so that the batch of some fields is
  found in that of others (`Batch.conform_picked`);
* `DeleteFilter.Follows` is said of a filter that finds its keys where the columns of another one
  have gone; `exists_create_follows` makes one, and by `apply_picked` both drop the same rows.
-/

namespace MergeOnRead

namespace Batch

/-! ## Picking -/

section Pick

variable {α : Type} [Inhabited α] {places others : List Nat} {xs : List α}

theorem getD_pick_of_lt {i : Nat} (hi : i < places.length) (d : α) :
    (pick places xs).getD i d = xs.getD places[i] default := by
  rw [pick, List.getD_eq_getElem _ _ (by rwa [List.length_map]), List.getElem_map]

theorem pick_pick (h : ∀ i ∈ others, i < places.length) :
    pick others (pick places xs) = pick (pick others places) xs := by
  calc pick others (pick places xs)
      = others.map fun i => xs.getD (places.getD i default) default := by
        refine List.map_congr_left fun i hi => ?_
        rw [getD_pick_of_lt (h i hi), List.getD_eq_getElem _ _ (h i hi)]
    _ = pick (pick others places) xs := by
        rw [pick, pick, List.map_map]
        rfl

theorem pick_map {β : Type} [Inhabited β] {f : α → β} (h : ∀ i ∈ places, i < xs.length) :
    pick places (xs.map f) = (pick places xs).map f := by
  rw [pick, pick, List.map_map]
  refine List.map_congr_left fun i hi => ?_
  rw [Function.comp_apply, List.getD_eq_getElem _ _ (h i hi),
    List.getD_eq_getElem _ _ (by rw [List.length_map]; exact h i hi), List.getElem_map]

theorem pick_idxOf [BEq α] [LawfulBEq α] {ys : List α} (h : ∀ x ∈ xs, x ∈ ys) :
    pick (xs.map ys.idxOf) ys = xs := by
  rw [pick, List.map_map]
  refine (List.map_congr_left fun x hx => ?_).trans (List.map_id xs)
  have hlt := List.idxOf_lt_length_of_mem (h x hx)
  rw [Function.comp_apply, List.getD_eq_getElem _ _ hlt, List.getElem_idxOf hlt, id_eq]

theorem pick_range {n : Nat} (h : n ≤ xs.length) : pick (List.range n) xs = xs.take n := by
  refine List.ext_getElem (by simp [pick, h]) fun i hi hi' => ?_
  rw [pick, List.length_map, List.length_range] at hi
  simp only [pick, List.getElem_map, List.getElem_range, List.getElem_take]
  exact List.getD_eq_getElem _ _ (by omega)

theorem pick_of_range {n : Nat} (h : ∀ i ∈ places, i < n) :
    pick places (List.range n) = places := by
  refine (List.map_congr_left fun i hi => ?_).trans (List.map_id places)
  rw [List.getD_eq_getElem _ _ (by rw [List.length_range]; exact h i hi), List.getElem_range, id_eq]

/-- What becomes of some items is found in what becomes of all. -/
theorem mapM_eq_ok_pick {ε β : Type} [BEq β] [LawfulBEq β] {f : β → Except ε α} {ys zs : List β}
    (h : ys.mapM f = .ok xs) (hsub : ∀ z ∈ zs, z ∈ ys) :
    zs.mapM f = .ok (pick (zs.map ys.idxOf) xs) := by
  have hforall := mapM_eq_ok_iff.1 h
  have hfound : ∀ z ∈ zs, f z = .ok (xs.getD (ys.idxOf z) default) := by
    intro z hz
    have hlt := List.idxOf_lt_length_of_mem (hsub z hz)
    have hlt' : ys.idxOf z < xs.length := hforall.length_eq ▸ hlt
    have hone := hforall.get hlt hlt'
    rw [List.get_eq_getElem, List.get_eq_getElem, List.getElem_idxOf hlt] at hone
    rw [hone, List.getD_eq_getElem _ _ hlt']
  rw [mapM_eq_ok_map hfound, pick, List.map_map]
  rfl

theorem mapM_pick {ε β : Type} [Inhabited β] {f : β → Except ε α} {ys : List β}
    (h : ys.mapM f = .ok xs) (hplaces : ∀ p ∈ places, p < ys.length) :
    (pick places ys).mapM f = .ok (pick places xs) := by
  have hforall := mapM_eq_ok_iff.1 h
  rw [mapM_eq_ok_iff, pick, pick, List.forall₂_map_left_iff, List.forall₂_map_right_iff]
  refine List.forall₂_same.2 fun p hp => ?_
  have hlt := hplaces p hp
  have hlt' : p < xs.length := hforall.length_eq ▸ hlt
  rw [List.getD_eq_getElem _ _ hlt, List.getD_eq_getElem _ _ hlt']
  exact hforall.get hlt hlt'

end Pick

/-- The batch whose columns are those at some places. -/
def picked (b : Batch) (places : List Nat) : Batch where
  header := pick places b.header
  rows := b.rows.map (pick places)
  behind := b.behind.map (pick places)

variable {b c : Batch} {places : List Nat}

@[simp] theorem size_picked : (b.picked places).size = b.size := List.length_map ..

/-! ## Conforming -/

theorem transpose_pick {count : Nat} {columns : List (List Value)}
    (h : ∀ i ∈ places, i < columns.length) :
    transpose count (pick places columns) = (transpose count columns).map (pick places) := by
  refine List.ext_getElem (by simp) fun i hi hi' => ?_
  rw [List.length_map] at hi'
  rw [getElem_transpose hi, List.getElem_map, getElem_transpose hi', pick_map h]

/-- The column that a field gets. -/
def fieldColumn (b : Batch) (fileFields : List Field) (f : Field) : Except Error (List Value) :=
  match f.type.columnType with
  | .ok type => b.conformColumn (Field.nameOf? fileFields f.id) type
  | .error _ => .ok []

/-- Every field gets its own column. -/
theorem conform_eq {fileFields fields : List Field} {header : List ColumnHeader}
    (hheader : Field.headers fields = .ok header) :
    b.conform (Field.physicalNames fileFields fields) header =
      (fields.mapM (b.fieldColumn fileFields)).map fun columns =>
        { header, rows := transpose (if header.isEmpty then 0 else b.size) columns } := by
  have hforall := Field.headers_eq_ok hheader
  have hcolumns : ((Field.physicalNames fileFields fields).zip header).mapM
      (fun p => b.conformColumn p.1 p.2.type) = fields.mapM (b.fieldColumn fileFields) := by
    clear hheader
    induction hforall with
    | nil => rfl
    | @cons f head fields header hhead hrest ih =>
        rw [Field.physicalNames, List.map_cons, List.zip_cons_cons, List.mapM_cons, List.mapM_cons,
          ← ih, fieldColumn, hhead.2]
        rfl
  have hlength : ¬(Field.physicalNames fileFields fields).length < header.length := by
    rw [Field.physicalNames, List.length_map, hforall.length_eq]
    exact Nat.lt_irrefl _
  have hbind : b.conform (Field.physicalNames fileFields fields) header =
      ((Field.physicalNames fileFields fields).zip header).mapM
        (fun p => b.conformColumn p.1 p.2.type) >>= fun columns =>
          if (Field.physicalNames fileFields fields).length < header.length then
            .error (.raised .value)
          else .ok { header, rows := transpose (if header.isEmpty then 0 else b.size) columns } :=
    rfl
  rw [hbind, hcolumns]
  simp only [if_neg hlength]
  cases fields.mapM (b.fieldColumn fileFields) <;> rfl

/-- A conformed batch has the columns that are wanted, and a value for each in every row. -/
theorem width_of_conform {fileFields fields : List Field} {header : List ColumnHeader}
    (hheader : Field.headers fields = .ok header)
    (h : b.conform (Field.physicalNames fileFields fields) header = .ok c) :
    c.header = header ∧ ∀ row ∈ c.rows, row.length = header.length := by
  rw [conform_eq hheader] at h
  obtain ⟨columns, hcolumns, rfl⟩ := map_eq_ok_iff.1 h
  refine ⟨rfl, fun row hrow => ?_⟩
  obtain ⟨i, hi, rfl⟩ := List.mem_iff_getElem.1 hrow
  rw [getElem_transpose hi, List.length_map, ← (Field.headers_eq_ok hheader).length_eq,
    (mapM_eq_ok_iff.1 hcolumns).length_eq]

/-- A batch has as many rows as another one, and the same under some names. -/
structure Agrees (names : List String) (b c : Batch) : Prop where
  size : c.size = b.size
  column : ∀ name ∈ names, ∀ type,
    c.conformColumn (some name) type = b.conformColumn (some name) type

theorem Agrees.refl (names : List String) (b : Batch) : Agrees names b b := ⟨rfl, fun _ _ _ => rfl⟩

theorem Agrees.fieldColumn_eq {names : List String} (h : Agrees names b c) {fileFields : List Field}
    {f : Field} (hf : ∀ name ∈ Field.nameOf? fileFields f.id, name ∈ names) :
    c.fieldColumn fileFields f = b.fieldColumn fileFields f := by
  rw [fieldColumn, fieldColumn]
  cases f.type.columnType with
  | error e => rfl
  | ok type =>
      cases hname : Field.nameOf? fileFields f.id with
      | none =>
          change Except.ok (List.replicate c.size _) = Except.ok (List.replicate b.size _)
          rw [h.size]
      | some name => exact h.column name (hf name hname) type

end Batch

theorem Field.headers_pick {all fields : List Field} {header : List ColumnHeader}
    (h : headers all = .ok header) (hsub : ∀ f ∈ fields, f ∈ all) :
    headers fields = .ok (Batch.pick (fields.map all.idxOf) header) := by
  rw [headers_eq] at h ⊢
  exact Batch.mapM_eq_ok_pick h hsub

namespace Batch

variable {b c d : Batch} {places : List Nat}

/-- The batch of some fields is found in that of others, where each column is the same. -/
theorem conform_picked {names : List String} {fileFields all fields : List Field}
    {header : List ColumnHeader} (hagrees : Agrees names b c)
    (hheader : Field.headers all = .ok header) (hsub : ∀ f ∈ fields, f ∈ all)
    (hempty : fields = [] → all = [])
    (hnames : ∀ f ∈ fields, ∀ name ∈ Field.nameOf? fileFields f.id, name ∈ names)
    (h : b.conform (Field.physicalNames fileFields all) header = .ok d) :
    c.conform (Field.physicalNames fileFields fields) (pick (fields.map all.idxOf) header) =
      .ok (d.picked (fields.map all.idxOf)) := by
  rw [conform_eq hheader] at h
  obtain ⟨columns, hcolumns, rfl⟩ := map_eq_ok_iff.1 h
  have hlength := (mapM_eq_ok_iff.1 hcolumns).length_eq
  have hplaces : ∀ i ∈ fields.map all.idxOf, i < columns.length := by
    intro i hi
    obtain ⟨f, hf, rfl⟩ := List.mem_map.1 hi
    exact hlength ▸ List.idxOf_lt_length_of_mem (hsub f hf)
  have hsame : fields.mapM (c.fieldColumn fileFields) =
      .ok (pick (fields.map all.idxOf) columns) := by
    rw [← mapM_eq_ok_pick hcolumns hsub]
    refine mapM_congr fun f hf => ?_
    exact hagrees.fieldColumn_eq (hnames f hf)
  have hcount : (pick (fields.map all.idxOf) header).isEmpty = header.isEmpty := by
    have hheaderlength := (Field.headers_eq_ok hheader).length_eq
    rw [Bool.eq_iff_iff, List.isEmpty_iff_length_eq_zero, List.isEmpty_iff_length_eq_zero, pick,
      List.length_map, List.length_map, ← hheaderlength, List.length_eq_zero_iff,
      List.length_eq_zero_iff]
    constructor
    · exact hempty
    · rintro rfl
      exact List.eq_nil_iff_forall_not_mem.2 fun f hf => by cases hsub f hf
  rw [conform_eq (Field.headers_pick hheader hsub), hsame]
  simp only [Except.map, picked, hcount, hagrees.size, transpose_pick hplaces, List.map_nil]

/-! ## Some of the rows -/

theorem keepFrom_map {φ : List Value → List Value} {i : Nat} {numbers : List Nat}
    {rows : List (List Value)} :
    keep.keepFrom i numbers (rows.map φ) = (keep.keepFrom i numbers rows).map φ := by
  induction rows generalizing i numbers with
  | nil => cases numbers <;> rfl
  | cons row rows ih =>
      cases numbers with
      | nil => rfl
      | cons n numbers =>
          rw [List.map_cons, keep.keepFrom, keep.keepFrom, ih, ih]
          split <;> rfl

theorem keep_picked (b : Batch) (places numbers : List Nat) :
    (b.picked places).keep numbers = (b.keep numbers).picked places := by
  simp only [keep, picked, keepFrom_map, List.map_nil]

/-! ## Records of some columns -/

/-- Different columns have different names. -/
theorem nodup_names_pick {header : List ColumnHeader} (hnames : (header.map (·.name)).Nodup)
    (hplaces : places.Nodup) (hlt : ∀ place ∈ places, place < header.length) :
    ((pick places header).map (·.name)).Nodup := by
  rw [pick, List.map_map]
  refine hplaces.map_on fun i hi j hj hij => ?_
  rw [Function.comp_apply, Function.comp_apply, List.getD_eq_getElem _ _ (hlt i hi),
    List.getD_eq_getElem _ _ (hlt j hj)] at hij
  have hi' : i < (header.map (·.name)).length := by rw [List.length_map]; exact hlt i hi
  have hj' : j < (header.map (·.name)).length := by rw [List.length_map]; exact hlt j hj
  have hsame : (header.map (·.name))[i] = (header.map (·.name))[j] := by
    rw [List.getElem_map, List.getElem_map, hij]
  exact hnames.getElem_inj_iff.1 hsame

/-- The records of some columns are those of the whole rows, restricted to these columns. -/
theorem decoded_pick {header : List ColumnHeader} {rows : List (List Value)}
    (hnames : Batch.recordNames
      { header := pick places header, rows := rows.map (pick places) } |>.Nodup)
    (hne : places ≠ []) (hwidth : ∀ row ∈ rows, row.length = header.length)
    (hlt : ∀ place ∈ places, place < header.length) :
    ({ header := pick places header, rows := rows.map (pick places) } : Batch).decoded =
      .ok (rows.map fun row => pick places (recordOf header row)) := by
  rw [decoded_eq_ok hnames (by simpa [pick] using hne), List.map_map]
  exact congrArg _ (List.map_congr_left fun row hrow => recordOf_pick (hwidth row hrow) hlt)

end Batch

/-! ## Filtering -/

namespace DeleteFilter

variable {f g : DeleteFilter} {places : List Nat} {b c : Batch} {start : Int}

/-- A filter finds its keys where the columns of another one have gone. -/
structure Follows (places : List Nat) (f g : DeleteFilter) : Prop where
  positions : g.positions = f.positions
  groups : List.Forall₂ (fun x y => y.keys = x.keys ∧
    List.Forall₂ (fun p q => places[q]? = some p) x.places y.places) f.groups g.groups
  apart : ∀ q ∈ g.keyColumns, ∀ r ∈ g.keyColumns, places[q]? = places[r]? → q = r

theorem keyDeleted_congr {columns others : List Nat} {record other : List Value}
    {groups groups' : List EqualityGroup}
    (h : List.Forall₂ (fun x y => y.keys = x.keys ∧
      List.Forall₂ (fun p q => other.getD (others.idxOf q) .null =
        record.getD (columns.idxOf p) .null) x.places y.places) groups groups') :
    keyDeleted others other groups' = keyDeleted columns record groups := by
  induction h with
  | nil => rfl
  | @cons x y groups groups' hxy hrest ih =>
      have hvalues : (x.places.map fun p => record.getD (columns.idxOf p) .null) =
          y.places.map fun q => other.getD (others.idxOf q) .null := by
        rw [← List.forall₂_eq_eq_eq, List.forall₂_map_left_iff, List.forall₂_map_right_iff]
        exact hxy.2.imp fun p q hpq => hpq.symm
      simp only [keyDeleted, hvalues, ih, EqualityGroup.deletes, hxy.1]

/-- Only what the groups make of records matters. -/
theorem keepLive_congr {columns others : List Nat} {groups groups' : List EqualityGroup}
    {rows : List (List Value)} {record other : List Value → List Value}
    (h : ∀ row ∈ rows, keyDeleted others (other row) groups' =
      keyDeleted columns (record row) groups) (numbers : List Nat) :
    keepLive others groups' (rows.map other).toArray numbers =
      keepLive columns groups (rows.map record).toArray numbers := by
  induction numbers with
  | nil => rfl
  | cons i numbers ih =>
      by_cases hi : i < rows.length
      · simp only [keepLive, List.getElem?_toArray, List.getElem?_map, List.getElem?_eq_getElem hi,
          Option.map_some, h _ (List.getElem_mem hi), ih]
      · simp only [keepLive, List.getElem?_toArray, List.getElem?_map,
          List.getElem?_eq_none (Nat.le_of_not_lt hi), Option.map_none]

namespace Follows

variable (h : Follows places f g)
include h

/-- A key column comes from one of the key columns of the other filter. -/
theorem exists_mem_keyColumns {q : Nat} (hq : q ∈ g.keyColumns) :
    ∃ p ∈ f.keyColumns, places[q]? = some p := by
  obtain ⟨y, hy, hq⟩ := mem_keyColumns.1 hq
  obtain ⟨x, hx, -, hplaces⟩ := exists_mem_of_forall₂ h.groups hy
  obtain ⟨p, hp, hpq⟩ := exists_mem_of_forall₂ hplaces hq
  exact ⟨p, mem_keyColumns.2 ⟨x, hx, hp⟩, hpq⟩

/-- A key column has gone to one of the key columns. -/
theorem exists_mem_keyColumns' {p : Nat} (hp : p ∈ f.keyColumns) :
    ∃ q ∈ g.keyColumns, places[q]? = some p := by
  obtain ⟨x, hx, hp⟩ := mem_keyColumns.1 hp
  obtain ⟨y, hy, -, hplaces⟩ := exists_mem_of_forall₂ h.groups.flip hx
  obtain ⟨q, hq, hpq⟩ := exists_mem_of_forall₂ hplaces.flip hp
  exact ⟨q, mem_keyColumns.2 ⟨y, hy, hq⟩, hpq⟩

theorem isEmpty_groups : g.groups.isEmpty = f.groups.isEmpty := by
  rw [Bool.eq_iff_iff, List.isEmpty_iff_length_eq_zero, List.isEmpty_iff_length_eq_zero,
    h.groups.length_eq]

theorem hasDeletes_eq : g.hasDeletes = f.hasDeletes := by
  rw [hasDeletes, hasDeletes, h.positions, h.isEmpty_groups]

/-- The values of the key columns make the same keys. -/
theorem keyDeleted_eq {record : List Value} :
    keyDeleted g.keyColumns (Batch.pick g.keyColumns (Batch.pick places record)) g.groups =
      keyDeleted f.keyColumns (Batch.pick f.keyColumns record) f.groups := by
  refine keyDeleted_congr (forall₂_imp_of_mem h.groups ?_)
  rintro x hx y hy ⟨hkeys, hplaces⟩
  refine ⟨hkeys, forall₂_imp_of_mem hplaces fun p hp q hq hpq => ?_⟩
  obtain ⟨hlt, rfl⟩ := List.getElem?_eq_some_iff.1 hpq
  rw [Batch.getD_pick (mem_keyColumns.2 ⟨y, hy, hq⟩),
    Batch.getD_pick (mem_keyColumns.2 ⟨x, hx, hp⟩),
    Batch.getD_pick_of_lt hlt]

theorem lt_of_mem_keyColumns {q : Nat} (hq : q ∈ g.keyColumns) : q < places.length := by
  obtain ⟨p, -, hp⟩ := h.exists_mem_keyColumns hq
  exact (List.getElem?_eq_some_iff.1 hp).1

theorem nodup_pick_keyColumns : (Batch.pick g.keyColumns places).Nodup := by
  have hlt := fun q (hq : q ∈ g.keyColumns) => h.lt_of_mem_keyColumns hq
  refine g.nodup_keyColumns.map_on fun q hq r hr hqr => h.apart q hq r hr ?_
  rw [List.getD_eq_getElem _ _ (hlt q hq), List.getD_eq_getElem _ _ (hlt r hr)] at hqr
  rw [List.getElem?_eq_getElem (hlt q hq), List.getElem?_eq_getElem (hlt r hr), hqr]

omit h in
/-- There are key columns where keys are asked for. -/
theorem keyColumns_ne_nil_of_keepLive {records : List (List Value)} {kept live : List Nat}
    {rows : List (List Value)} (hsome : ¬(f.groups.isEmpty || kept.isEmpty) = true)
    (hdecoded : ({ header := Batch.pick f.keyColumns b.header, rows } : Batch).decoded =
      .ok records)
    (hlive : keepLive f.keyColumns f.groups records.toArray kept = .ok live) :
    f.keyColumns ≠ [] := by
  intro hnil
  -- Without columns a batch has no records, but the rows that are kept are looked up among them.
  have hnone : records = [] := by
    rw [Batch.decoded, if_pos (Batch.nodup_recordNames_of_decoded hdecoded), hnil] at hdecoded
    exact (Except.ok.inj hdecoded).symm
  cases kept with
  | nil => simp at hsome
  | cons i kept => simp [keepLive, hnone] at hlive

theorem decoded_picked (hne : f.keyColumns ≠ []) (hnames : b.names.Nodup)
    (hnamed : ∀ c ∈ b.header, c.name ≠ "") (hwidth : ∀ row ∈ b.rows, row.length = b.header.length)
    (hplaces : ∀ p ∈ places, p < b.header.length) :
    ({ header := Batch.pick g.keyColumns (b.picked places).header,
       rows := (b.picked places).rows.map (Batch.pick g.keyColumns) } : Batch).decoded =
      .ok (b.rows.map fun row =>
        Batch.pick g.keyColumns (Batch.pick places (Batch.recordOf b.header row))) := by
  have hlt := fun q (hq : q ∈ g.keyColumns) => h.lt_of_mem_keyColumns hq
  have hwide : (b.picked places).header.length = places.length := List.length_map ..
  have hne' : g.keyColumns ≠ [] := by
    obtain ⟨p, hp⟩ := List.exists_mem_of_ne_nil _ hne
    obtain ⟨q, hq, -⟩ := h.exists_mem_keyColumns' hp
    exact List.ne_nil_of_mem hq
  have hpicked : ∀ p ∈ Batch.pick g.keyColumns places, p < b.header.length := by
    intro p hp
    obtain ⟨q, hq, rfl⟩ := List.mem_map.1 hp
    rw [List.getD_eq_getElem _ _ (hlt q hq)]
    exact hplaces _ (List.getElem_mem _)
  have hheader : Batch.pick g.keyColumns (b.picked places).header =
      Batch.pick (Batch.pick g.keyColumns places) b.header := Batch.pick_pick hlt
  -- Different key columns come from different columns, so that they have different names.
  have hdistinct : ((Batch.pick g.keyColumns (b.picked places).header).map (·.name)).Nodup := by
    rw [hheader]
    exact Batch.nodup_names_pick hnames h.nodup_pick_keyColumns hpicked
  have hnamed' : ∀ c ∈ Batch.pick g.keyColumns (b.picked places).header, c.name ≠ "" := by
    intro c hc
    rw [hheader] at hc
    obtain ⟨p, hp, rfl⟩ := List.mem_map.1 hc
    rw [List.getD_eq_getElem _ _ (hpicked p hp)]
    exact hnamed _ (List.getElem_mem _)
  have hwidth' : ∀ row ∈ (b.picked places).rows, row.length = (b.picked places).header.length := by
    intro row hrow
    obtain ⟨stored, -, rfl⟩ := List.mem_map.1 hrow
    rw [hwide, Batch.pick, List.length_map]
  rw [Batch.decoded_pick (by rw [Batch.recordNames_of_named hnamed']; exact hdistinct) hne' hwidth'
    (hwide ▸ hlt), Batch.picked, List.map_map]
  refine congrArg _ (List.map_congr_left fun row hrow => ?_)
  rw [Function.comp_apply, Batch.recordOf_pick (hwidth row hrow) hplaces]

theorem areDated_picked {rows : List (List Value)} {record : List Value → List Value}
    (hdated : Batch.areDated (rows.map fun row => Batch.pick f.keyColumns (record row)) = true) :
    Batch.areDated (rows.map fun row =>
      Batch.pick g.keyColumns (Batch.pick places (record row))) = true := by
  rw [Batch.areDated, List.all_map, List.all_eq_true] at hdated ⊢
  intro row hrow
  rw [Function.comp_apply, List.all_eq_true]
  intro v hv
  obtain ⟨q, hq, rfl⟩ := List.mem_map.1 hv
  obtain ⟨p, hp, hpq⟩ := h.exists_mem_keyColumns hq
  obtain ⟨hlt, rfl⟩ := List.getElem?_eq_some_iff.1 hpq
  rw [Batch.getD_pick_of_lt hlt]
  exact List.all_eq_true.1 (hdated row hrow) _ (List.mem_map_of_mem hp)

/-- The same rows survive in a batch and in what was picked from it. -/
theorem survivingRows_picked (hnames : b.names.Nodup) (hnamed : ∀ c ∈ b.header, c.name ≠ "")
    (hwidth : ∀ row ∈ b.rows, row.length = b.header.length) (hmax : places.length ≤ maxIndex)
    (hmax' : b.header.length ≤ maxIndex) (hplaces : ∀ p ∈ places, p < b.header.length)
    {live : List Nat} (hlive : f.survivingRows b start = .ok live) :
    g.survivingRows (b.picked places) start = .ok live := by
  obtain ⟨kept, hkept, hlive⟩ := bind_eq_ok_iff.1 hlive
  have hkept' : g.undeletedPositions start (b.picked places).size = .ok kept := by
    rwa [undeletedPositions, h.positions, Batch.size_picked, ← undeletedPositions]
  rw [survivingRows, hkept', ok_bind, h.isEmpty_groups]
  split at hlive
  · rename_i hnone
    rw [if_pos hnone]
    exact hlive
  · rename_i hsome
    rw [if_neg hsome]
    -- The key columns are selected in both batches, and have the same values there.
    have hlt : ∀ p ∈ f.keyColumns, p < b.header.length := by
      intro p hp
      obtain ⟨q, -, hq⟩ := h.exists_mem_keyColumns' hp
      exact hplaces p (List.mem_of_getElem? hq)
    have hlt' := fun q (hq : q ∈ g.keyColumns) => h.lt_of_mem_keyColumns hq
    have hwide : (b.picked places).header.length = places.length := List.length_map ..
    rw [Batch.select_eq_ok hlt hmax', ok_bind] at hlive
    rw [Batch.select_eq_ok (hwide ▸ hlt') (hwide ▸ hmax), ok_bind]
    obtain ⟨records, hrecords, hlive⟩ := bind_eq_ok_iff.1 hlive
    obtain ⟨hdecoded, hdated⟩ := Batch.records_eq_ok_iff.1 hrecords
    have hne := keyColumns_ne_nil_of_keepLive hsome hdecoded hlive
    rw [Batch.decoded_pick (Batch.nodup_recordNames_of_decoded hdecoded) hne hwidth hlt] at hdecoded
    cases hdecoded
    have hrecords' := Batch.records_eq_ok_iff.2
      ⟨h.decoded_picked hne hnames hnamed hwidth hplaces, h.areDated_picked hdated⟩
    rw [hrecords', ok_bind, keepLive_congr fun row _ => h.keyDeleted_eq]
    exact hlive

/-- Filtering keeps alike what was picked. -/
theorem apply_picked (hnames : b.names.Nodup) (hnamed : ∀ c ∈ b.header, c.name ≠ "")
    (hwidth : ∀ row ∈ b.rows, row.length = b.header.length) (hmax : places.length ≤ maxIndex)
    (hmax' : b.header.length ≤ maxIndex) (hplaces : ∀ p ∈ places, p < b.header.length)
    (happly : f.apply b start = .ok c) :
    c.header = b.header ∧ g.apply (b.picked places) start = .ok (c.picked places) := by
  rw [DeleteFilter.apply] at happly ⊢
  rw [h.hasDeletes_eq, Batch.size_picked]
  split at happly
  · rename_i hidle
    cases happly
    exact ⟨rfl, by rw [if_pos hidle]⟩
  · rename_i hbusy
    obtain ⟨live, hlive, happly⟩ := bind_eq_ok_iff.1 happly
    have hsame := h.survivingRows_picked hnames hnamed hwidth hmax hmax' hplaces hlive
    rw [if_neg hbusy, hsame, ok_bind]
    -- A batch that loses no row is handed on as it is.
    by_cases hall : live.length = b.size
    · rw [if_pos hall] at happly ⊢
      cases happly
      exact ⟨rfl, rfl⟩
    · rw [if_neg hall] at happly ⊢
      cases happly
      exact ⟨rfl, by rw [Batch.keep_picked]⟩

end Follows

/-! ## Finding the key columns -/

end DeleteFilter

namespace Field

variable {all fields : List Field}

/-- A field is found where it has gone. -/
theorem exists_positionOf? (hids : (all.map (·.id)).Nodup) (hsub : ∀ f ∈ fields, f ∈ all)
    (hsup : ∀ f ∈ all, f ∈ fields) {id : Int} {p : Nat} (h : positionOf? all id = some p) :
    ∃ q, positionOf? fields id = some q ∧ (fields.map all.idxOf)[q]? = some p := by
  obtain ⟨hp, hid⟩ := of_positionOf?_eq_some h
  cases hfound : positionOf? fields id with
  | none =>
      exact absurd (List.mem_map.2 ⟨_, hsup _ (List.getElem_mem hp), hid⟩)
        (positionOf?_eq_none_iff.1 hfound)
  | some q =>
      obtain ⟨hq, hqid⟩ := of_positionOf?_eq_some hfound
      have hsame : fields[q] = all[p] := List.inj_on_of_nodup_map hids
        (hsub _ (List.getElem_mem hq)) (List.getElem_mem hp) (hqid.trans hid.symm)
      refine ⟨q, rfl, ?_⟩
      rw [List.getElem?_map, List.getElem?_eq_getElem hq, Option.map_some, hsame,
        (List.Nodup.of_map _ hids).idxOf_getElem p hp]

theorem exists_positionsOf (hids : (all.map (·.id)).Nodup) (hsub : ∀ f ∈ fields, f ∈ all)
    (hsup : ∀ f ∈ all, f ∈ fields) {ids : List Int} {ps : List Nat}
    (h : positionsOf ids all = .ok ps) :
    ∃ qs, positionsOf ids fields = .ok qs ∧
      List.Forall₂ (fun p q => (fields.map all.idxOf)[q]? = some p) ps qs := by
  simp only [positionsOf_eq_ok_iff] at h ⊢
  induction h with
  | nil => exact ⟨[], .nil, .nil⟩
  | cons hp hrest ih =>
      obtain ⟨q, hq, hpq⟩ := exists_positionOf? hids hsub hsup hp
      obtain ⟨qs, hqs, hpqs⟩ := ih
      exact ⟨q :: qs, .cons hq hqs, .cons hpq hpqs⟩

/-- Of the fields that are the same only one is found. -/
theorem positionOf?_apart (hsub : ∀ f ∈ fields, f ∈ all) {id id' : Int} {q r : Nat}
    (hq : positionOf? fields id = some q) (hr : positionOf? fields id' = some r)
    (hsame : (fields.map all.idxOf)[q]? = (fields.map all.idxOf)[r]?) : q = r := by
  obtain ⟨hq', hid⟩ := of_positionOf?_eq_some hq
  obtain ⟨hr', hid'⟩ := of_positionOf?_eq_some hr
  rw [List.getElem?_map, List.getElem?_map, List.getElem?_eq_getElem hq',
    List.getElem?_eq_getElem hr', Option.map_some, Option.map_some, Option.some.injEq,
    List.idxOf_inj (hsub _ (List.getElem_mem hq'))] at hsame
  rw [← hid, hsame, hid'] at hq
  exact Option.some.inj (hq.symm.trans hr)

end Field

namespace DeleteFilter

/-- A filter for other fields finds its keys where their columns have gone. -/
theorem exists_create_follows {f : DeleteFilter} {file : DataFile} {indexes : List DeleteIndex}
    {all fields : List Field} {check : Bool} (hids : (all.map (·.id)).Nodup)
    (hsub : ∀ f ∈ fields, f ∈ all) (hsup : ∀ f ∈ all, f ∈ fields)
    (h : create file indexes all check = .ok f) :
    ∃ g, create file indexes fields check = .ok g ∧ Follows (fields.map all.idxOf) f g := by
  obtain ⟨groups, hgroups, rfl⟩ := create_eq_ok h
  obtain ⟨groups', hgroups', hsame⟩ : ∃ groups',
      (groupKeys indexes).mapM (resolve file fields) = .ok groups' ∧
        List.Forall₂ (fun x y => y.keys = x.keys ∧ List.Forall₂ (fun p q =>
          (fields.map all.idxOf)[q]? = some p) x.places y.places) groups groups' := by
    simp only [mapM_eq_ok_iff] at hgroups ⊢
    clear h
    generalize groupKeys indexes = keys at hgroups ⊢
    induction hgroups with
    | nil => exact ⟨[], .nil, .nil⟩
    | @cons group x _ _ hx hrest ih =>
        obtain ⟨groups', hgroups', hsame⟩ := ih
        obtain ⟨hfieldIds, hkeys, hplaces⟩ := resolve_eq_ok_iff.1 hx
        obtain ⟨qs, hqs, hpqs⟩ := Field.exists_positionsOf hids hsub hsup hplaces
        exact ⟨⟨group.1, group.2, qs⟩ :: groups',
          .cons (resolve_eq_ok_iff.2 ⟨rfl, rfl, hqs⟩) hgroups', .cons ⟨hkeys.symm, hpqs⟩ hsame⟩
  have hcreate : create file indexes fields check =
      .ok ⟨file, fields, mergePositions file.path indexes, groups'⟩ := by
    simp only [create] at h ⊢
    split at h
    · cases h
    · rw [hgroups', ok_bind]
  refine ⟨_, hcreate, rfl, hsame, fun q hq r hr hqr => ?_⟩
  have hfound : ∀ q ∈ (⟨file, fields, mergePositions file.path indexes, groups'⟩ :
      DeleteFilter).keyColumns, ∃ id, Field.positionOf? fields id = some q := by
    intro q hq
    obtain ⟨y, hy, hq⟩ := mem_keyColumns.1 hq
    obtain ⟨-, hplaces⟩ := (mem_groups_iff hcreate).1 hy
    obtain ⟨id, -, hid⟩ := exists_mem_of_forall₂ (Field.positionsOf_eq_ok_iff.1 hplaces) hq
    exact ⟨id, hid⟩
  obtain ⟨id, hid⟩ := hfound q hq
  obtain ⟨id', hid'⟩ := hfound r hr
  exact Field.positionOf?_apart hsub hid hid' hqr

end DeleteFilter

end MergeOnRead
