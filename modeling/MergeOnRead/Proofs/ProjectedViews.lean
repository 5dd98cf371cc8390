import MergeOnRead.Proofs.Fields
import MergeOnRead.Proofs.Rows

/-!
# Views that read fields by id

A row of some fields can be viewed through other fields: each of these shows the value that the row
has for the field of the same id, and null where there is none.  Views lie on top of each other in
towers of any height, over rows of any kind.

Strategy:

* a field is looked up in three ways, which go back to one place (`positionsOf_singleton`,
  `nameOf?_eq_map_positionOf?`, `getElem?_indexMapping`);
* a view asks for nulls in a way of its own (`Row.isNullAt`), and comes to what its values are
  (`isNullAt_eq`, by recursion on the views);
* `get_viewed` reads one view, and `get_viewed_viewed` two: what the lower one lacks is absorbed
  before the row is asked, so that the index of nothing is never counted from the end;
* `get_tower` goes up the tower by induction, and takes off the lowest view each time.
-/

namespace MergeOnRead

/-! ## One place behind three lookups -/

namespace Field

variable {fields target source : List Field} {id : Int} {i : Nat} {f : Field}

theorem positionsOf_singleton (fields : List Field) (id : Int) :
    positionsOf [id] fields =
      match positionOf? fields id with
      | some i => .ok [i]
      | none => .error id := by
  unfold positionsOf
  rw [List.mapM_cons]
  cases positionOf? fields id with
  | none => rfl
  | some i => rfl

/-- The field that is found by its id stands at the place that is found by its id. -/
theorem nameOf?_eq_map_positionOf? (fields : List Field) (id : Int) :
    nameOf? fields id =
      (positionOf? fields id).bind fun i => (fields[i]?).map (·.name) := by
  have hplaces : positionOf? fields id =
      (TableSchema.findLast? (fun entry => entry.1.id == id) fields.zipIdx).map (·.2) := rfl
  unfold nameOf?
  rw [hplaces]
  have hfound : TableSchema.findLast? (fun f => f.id == id) fields =
      (TableSchema.findLast? (fun entry => entry.1.id == id) fields.zipIdx).map (·.1) := by
    simp only [TableSchema.findLast?_eq_find?_reverse]
    have hfields : fields.reverse = fields.zipIdx.reverse.map (·.1) := by
      rw [List.map_reverse, List.zipIdx_map_fst]
    conv_lhs => rw [hfields, List.find?_map]
    rfl
  rw [hfound]
  cases hplace : TableSchema.findLast? (fun entry => entry.1.id == id) fields.zipIdx with
  | none => rfl
  | some p =>
      obtain ⟨hmem, -⟩ := TableSchema.of_findLast?_eq_some hplace
      obtain ⟨hi, hf⟩ := List.mem_zipIdx' hmem
      simp [hf, hi]

theorem getElem?_indexMapping (h : target[i]? = some f) :
    (indexMapping target source)[i]? =
      some (match positionOf? source f.id with
        | some j => (j : Int)
        | none => -1) := by
  unfold indexMapping
  rw [List.getElem?_map, h]
  rfl

/-- The lookups by id agree on a field: it has no index, no place and no name, or the index is the
place, and the field there has the name. -/
structure LooksUp (source target : List Field) (k : Nat) (id : Int) : Prop where
  missing_iff : (indexMapping target source)[k]? = some (-1) ↔ positionsOf [id] source = .error id
  unnamed_iff : (indexMapping target source)[k]? = some (-1) ↔ nameOf? source id = none
  found : (indexMapping target source)[k]? ≠ some (-1) → ∃ (i : Nat) (g : Field),
    (indexMapping target source)[k]? = some (i : Int) ∧ positionsOf [id] source = .ok [i] ∧
      source[i]? = some g ∧ g.id = id ∧ nameOf? source id = some g.name

theorem looksUp (hf : target[i]? = some f) : LooksUp source target i f.id := by
  have hindex : (indexMapping target source)[i]? = _ := getElem?_indexMapping hf
  have hplaces := positionsOf_singleton source f.id
  have hname := nameOf?_eq_map_positionOf? source f.id
  cases hplace : positionOf? source f.id with
  | none =>
      rw [hplace] at hindex hplaces hname
      exact ⟨by simp [hindex, hplaces], by simp [hindex, hname], fun h => absurd hindex h⟩
  | some j =>
      obtain ⟨hj, hid⟩ := of_positionOf?_eq_some hplace
      rw [hplace] at hindex hplaces hname
      have hname' : nameOf? source f.id = some source[j].name := by simp [hname, hj]
      have hne : (j : Int) ≠ -1 := by omega
      refine ⟨by simp [hindex, hplaces, hne], by simp [hindex, hname', hne], fun _ => ?_⟩
      exact ⟨j, source[j], hindex, hplaces, List.getElem?_eq_getElem hj, hid, hname'⟩

end Field

theorem Value.isNull_iff {v : Value} : v.isNull = true ↔ v = .null := by
  constructor
  · intro h
    unfold isNull at h
    split at h
    · rfl
    · cases h
  · rintro rfl
    rfl

namespace Row

variable {r : Row} {source middle target : List Field} {layers : List (List Field)}
  {position : Int} {f : Field}

/-! ## Nulls -/

/-- A view that is asked for nulls answers as its values say. -/
theorem isNullAt_eq : ∀ (r : Row) (position : Int),
    r.isNullAt position = (r.get position).map Value.isNull
  | .plain _ _, _ => rfl
  | .window _ _ _, _ => rfl
  | .bare _, _ => rfl
  | .view mapping none, position => by
      unfold isNullAt get
      cases itemAt .outsideList mapping position with
      | error e => rfl
      | ok index =>
          simp only [ok_bind]
          split <;> rfl
  | .view mapping (some r), position => by
      unfold isNullAt get
      cases itemAt .outsideList mapping position with
      | error e => rfl
      | ok index =>
          simp only [ok_bind]
          split
          · rfl
          · exact isNullAt_eq r index

/-! ## One view -/

theorem itemAt_eq_ok {α : Type} {outside : RowError} {xs : List α} {x : α}
    (hmax : xs.length ≤ maxIndex) (h : itemAt? xs position = some x) :
    itemAt outside xs position = .ok x := by
  have hindex : isIndex position = true := by
    unfold itemAt? at h
    simp only [isIndex, Bool.and_eq_true, decide_eq_true_eq]
    split at h
    · have := (List.getElem?_eq_some_iff.1 h).1
      omega
    · split at h
      · omega
      · cases h
  unfold itemAt
  rw [if_pos hindex, h]

theorem itemAt?_map {α β : Type} (g : α → β) (xs : List α) (position : Int) :
    itemAt? (xs.map g) position = (itemAt? xs position).map g := by
  unfold itemAt?
  rw [List.length_map]
  split
  · exact List.getElem?_map ..
  · split
    · exact List.getElem?_map ..
    · rfl

/-- A row of some fields as it is seen through others. -/
def viewed (r : Row) (source target : List Field) : Row :=
  .view (Field.indexMapping target source) (some r)

/-- A view shows what the row has at the place of the field, and null where there is no place. -/
theorem get_viewed (hmax : target.length ≤ maxIndex) (hf : itemAt? target position = some f) :
    (r.viewed source target).get position =
      match Field.positionOf? source f.id with
      | some i => r.get i
      | none => .ok .null := by
  have hindex : itemAt .outsideList (Field.indexMapping target source) position =
      .ok (match Field.positionOf? source f.id with
        | some i => (i : Int)
        | none => -1) := by
    refine itemAt_eq_ok ?_ ?_
    · rwa [Field.indexMapping, List.length_map]
    · rw [Field.indexMapping, itemAt?_map, hf]
      rfl
  rw [viewed, get, hindex, ok_bind]
  cases Field.positionOf? source f.id with
  | none => rfl
  | some i =>
      simp only
      rw [if_neg (by omega)]

theorem get_viewed_of_missing (hmax : target.length ≤ maxIndex)
    (hf : itemAt? target position = some f) (hid : f.id ∉ source.map (·.id)) :
    (r.viewed source target).get position = .ok .null := by
  rw [get_viewed hmax hf, Field.positionOf?_eq_none_iff.2 hid]

theorem get_viewed_of_getElem (hids : (source.map (·.id)).Nodup) (hmax : target.length ≤ maxIndex)
    (hf : itemAt? target position = some f) {i : Nat} {g : Field} (hg : source[i]? = some g)
    (hid : g.id = f.id) : (r.viewed source target).get position = r.get i := by
  obtain ⟨hi, rfl⟩ := List.getElem?_eq_some_iff.1 hg
  have hplace : Field.positionOf? source f.id = some i :=
    (Field.positionOf?_eq_some_iff hids).2 ⟨hi, hid⟩
  rw [get_viewed hmax hf, hplace]

/-! ## Views on views -/

/-- Through two views a field is seen as through the upper one alone, unless the lower one lacks
it. -/
theorem get_viewed_viewed (hmiddle : middle.length ≤ maxIndex) (htarget : target.length ≤ maxIndex)
    (hf : itemAt? target position = some f) :
    ((r.viewed source middle).viewed middle target).get position =
      if f.id ∈ middle.map (·.id) then (r.viewed source target).get position else .ok .null := by
  by_cases hid : f.id ∈ middle.map (·.id)
  · rw [if_pos hid]
    cases hplace : Field.positionOf? middle f.id with
    | none => exact absurd hid (Field.positionOf?_eq_none_iff.1 hplace)
    | some j =>
        obtain ⟨hj, hjd⟩ := Field.of_positionOf?_eq_some hplace
        have hg : itemAt? middle (j : Int) = some middle[j] := by
          unfold itemAt?
          rw [if_pos (Int.natCast_nonneg j)]
          simp [hj]
        rw [get_viewed htarget hf, get_viewed htarget hf, hplace]
        simp only
        rw [get_viewed hmiddle hg, hjd]
  · rw [if_neg hid]
    exact get_viewed_of_missing htarget hf hid

/-- A row of some fields under views through other fields, the lowest view first. -/
def tower (r : Row) (source : List Field) : List (List Field) → Row
  | [] => r
  | target :: layers => (r.viewed source target).tower target layers

/-- On top of a tower a field is seen as in one view, unless a layer in between lacks it. -/
theorem get_tower (hlayers : ∀ layer ∈ layers, layer.length ≤ maxIndex)
    (htarget : target.length ≤ maxIndex) (hf : itemAt? target position = some f) :
    (r.tower source (layers ++ [target])).get position =
      if ∀ layer ∈ layers, f.id ∈ layer.map (·.id) then (r.viewed source target).get position
      else .ok .null := by
  induction layers generalizing r source with
  | nil =>
      rw [if_pos (by simp)]
      rfl
  | cons middle layers ih =>
      obtain ⟨hmiddle, hlayers⟩ := List.forall_mem_cons.1 hlayers
      have hrest : (r.tower source (middle :: layers ++ [target])).get position =
          if ∀ layer ∈ layers, f.id ∈ layer.map (·.id)
          then ((r.viewed source middle).viewed middle target).get position
          else .ok .null := ih hlayers
      rw [hrest, get_viewed_viewed hmiddle htarget hf]
      by_cases hall : ∀ layer ∈ layers, f.id ∈ layer.map (·.id)
      · rw [if_pos hall]
        refine if_congr ?_ rfl rfl
        rw [List.forall_mem_cons]
        exact (and_iff_left hall).symm
      · rw [if_neg hall, if_neg fun h => hall (List.forall_mem_cons.1 h).2]

/-! ## Rows of fields -/

/-- A row has a value for each of some fields, in their order. -/
structure IsRowOf (r : Row) (fields : List Field) : Prop where
  arity_eq : r.arity = fields.length
  exists_get : ∀ i < fields.length, ∃ v, r.get (i : Nat) = .ok v

theorem isRowOf_window {fields : List Field} {values : List Value} {offset : Nat}
    (hend : offset + fields.length ≤ values.length) (hmax : values.length ≤ maxIndex) :
    (window (some values) offset fields.length).IsRowOf fields where
  arity_eq := rfl
  exists_get i hi := by
    refine ⟨values[offset + i], ?_⟩
    unfold get
    rw [if_neg (by omega), ← Int.natCast_add]
    exact itemAt_of_lt (by omega) hmax

/-- A view of a row of fields is a row of the fields that it is viewed through. -/
theorem IsRowOf.viewed (h : r.IsRowOf source) (hmax : target.length ≤ maxIndex) :
    (r.viewed source target).IsRowOf target where
  arity_eq := by simp [Row.viewed, arity, Field.indexMapping]
  exists_get i hi := by
    have hf : itemAt? target (i : Int) = some target[i] := by
      unfold itemAt?
      rw [if_pos (Int.natCast_nonneg i)]
      simp [hi]
    rw [get_viewed hmax hf]
    cases hplace : Field.positionOf? source target[i].id with
    | none => exact ⟨.null, rfl⟩
    | some j => exact h.exists_get j (Field.of_positionOf?_eq_some hplace).1

/-- A row of some fields is read by field id through whatever it is viewed. -/
structure ReadsById (r : Row) (source : List Field) : Prop where
  looksUp : ∀ (target : List Field) k f, target[k]? = some f → Field.LooksUp source target k f.id
  /-- A view holds the value of the field with the same id. -/
  holds : ∀ target : List Field, target.length ≤ maxIndex → ∀ position f,
    itemAt? target position = some f → ∀ (i : Nat) g, source[i]? = some g → g.id = f.id →
      ∃ v, r.get i = .ok v ∧ (r.viewed source target).get position = .ok v
  lacks : ∀ target : List Field, target.length ≤ maxIndex → ∀ position f,
    itemAt? target position = some f → f.id ∉ source.map (·.id) →
      (r.viewed source target).get position = .ok .null
  /-- Views on top of each other show what the upmost shows of the row, if all have the field. -/
  tower_eq : ∀ (layers : List (List Field)) (target : List Field),
    (∀ layer ∈ target :: layers, layer.length ≤ maxIndex) → ∀ position f,
      itemAt? target position = some f →
        (r.tower source (layers ++ [target])).get position =
          if ∀ layer ∈ layers, f.id ∈ layer.map (·.id)
          then (r.viewed source target).get position else .ok .null
  /-- A field is asked for null as its value says, on any tower. -/
  isNullAt_iff : ∀ (layers : List (List Field)) (target : List Field),
    (∀ layer ∈ target :: layers, layer.length ≤ maxIndex) → ∀ position f,
      itemAt? target position = some f →
        ∃ isNull, (r.tower source (layers ++ [target])).isNullAt position = .ok isNull ∧
          (isNull = true ↔ (r.tower source (layers ++ [target])).get position = .ok .null)

/-- A row of fields with different ids is read by id, through views of any height. -/
theorem readsById (hids : (source.map (·.id)).Nodup) (hr : r.IsRowOf source) :
    r.ReadsById source where
  looksUp _ _ _ hf := Field.looksUp hf
  holds target hmax position f hf i g hg hid := by
    obtain ⟨v, hv⟩ := hr.exists_get i (List.getElem?_eq_some_iff.1 hg).1
    refine ⟨v, hv, ?_⟩
    rw [get_viewed_of_getElem hids hmax hf hg hid, hv]
  lacks _ hmax _ _ hf hid := get_viewed_of_missing hmax hf hid
  tower_eq layers target hmax position f hf := by
    obtain ⟨htarget, hlayers⟩ := List.forall_mem_cons.1 hmax
    exact get_tower hlayers htarget hf
  isNullAt_iff layers target hmax position f hf := by
    obtain ⟨htarget, hlayers⟩ := List.forall_mem_cons.1 hmax
    have hvalue : ∃ v, (r.tower source (layers ++ [target])).get position = .ok v := by
      rw [get_tower hlayers htarget hf]
      split
      · rw [get_viewed htarget hf]
        split
        · rename_i i hplace
          exact hr.exists_get i (Field.of_positionOf?_eq_some hplace).1
        · exact ⟨.null, rfl⟩
      · exact ⟨.null, rfl⟩
    obtain ⟨v, hv⟩ := hvalue
    refine ⟨v.isNull, ?_, ?_⟩
    · rw [isNullAt_eq, hv]
      rfl
    · rw [hv, Except.ok.injEq]
      exact Value.isNull_iff

/-! ## A window under two views -/

/-- Two fields, with the ids 1 and 2. -/
def keptFields : List Field :=
  [⟨1, "a", .atomic "INT" true, none⟩, ⟨2, "b", .atomic "INT" true, none⟩]

/-- The second of them under another name, and one that was added later. -/
def grownFields : List Field :=
  [⟨3, "c", .atomic "INT" true, none⟩, ⟨2, "d", .atomic "INT" true, none⟩]

/-- The last two items of a tuple of three. -/
def windowRow : Row := .window (some [.int 5, .int 6, .int 7]) 1 2

theorem readsById_windowRow :
    (keptFields.map (·.id)).Nodup ∧ windowRow.IsRowOf keptFields ∧
      windowRow.ReadsById keptFields ∧
      (windowRow.tower keptFields [grownFields, keptFields]).toList = .ok [.null, .int 7] := by
  have hrow : windowRow.IsRowOf keptFields :=
    @isRowOf_window keptFields [.int 5, .int 6, .int 7] 1 (by decide) (by decide)
  exact ⟨by decide, hrow, readsById (by decide) hrow, by decide⟩

end Row

end MergeOnRead
