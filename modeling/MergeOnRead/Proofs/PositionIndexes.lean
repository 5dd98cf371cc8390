import MergeOnRead.Proofs.ConformedStreams
import MergeOnRead.Proofs.ConvertedScalars
import MergeOnRead.Scan.DeleteLoading
import Mathlib.Data.Finset.Card
import Mathlib.Data.Finset.Image

/-!
# The positions of a file of deletes

An index of deletes by position is the relation between paths and positions that the rows of its
file spell out, whatever their order and the batches they come in.  A row that cannot be used is the
error instead (`StoresPositions.load_isRelationOf`).

Strategy:

* `PositionDelete` is a row as it counts here, and `PositionDelete.mapM_positionOf` says that rows
  are used or refused one by one;
* `isRelationOf_groupPositions`: pairs that are grouped by their paths are the relation of the rows,
  as every pair is in one group and is counted there once (`size_groupPositions`);
* `StoredRows.Holds.rows_deletes` says which deletes a batch consists of, and
  `StoresPositions.load_eq` goes over the batches.
-/

namespace MergeOnRead

/-! ## Rows that delete by position -/

/-- What a row deletes: a position in a data file, either of which may be missing. -/
structure PositionDelete where
  path : Option String
  position : Option Int
  deriving DecidableEq, Repr

namespace PositionDelete

/-- Why a row cannot be used: something is missing, or its position is out of range. -/
def fault? : PositionDelete → Option ScanCause
  | ⟨some path, some position⟩ =>
    if position < 0 then some (.negativeDelete position path)
    else if (maxPosition : Int) < position then some (.deleteTooFar position path)
    else none
  | _ => some .nullDelete

/-- The row as it is read. -/
def values (d : PositionDelete) : List Value :=
  [d.path.elim .null .text, d.position.elim .null .int]

/-- The path and the position of a row that can be used. -/
def pair (d : PositionDelete) : String × Nat := (d.path.getD "", (d.position.getD 0).toNat)

/-- A row can be used when it names a path and a position in range. -/
theorem fault?_eq_none_iff {d : PositionDelete} :
    d.fault? = none ↔ ∃ path, ∃ n : Nat, n ≤ maxPosition ∧ d = ⟨some path, some n⟩ := by
  obtain ⟨path, position⟩ := d
  cases path with
  | none => simp [fault?]
  | some path =>
      cases position with
      | none => simp [fault?]
      | some position =>
          rw [fault?]
          constructor
          · intro h
            split at h
            · cases h
            · split at h
              · cases h
              · exact ⟨path, position.toNat, by omega, by simp; omega⟩
          · rintro ⟨path', n, hn, hd⟩
            simp only [mk.injEq, Option.some.injEq] at hd
            rw [if_neg (by omega), if_neg (by omega)]

/-- A row that cannot be used is an error of corruption. -/
theorem kind_of_fault {d : PositionDelete} {cause : ScanCause} (h : d.fault? = some cause) :
    cause.kind = .dataCorruption := by
  unfold fault? at h
  split at h
  · split at h
    · cases h
      rfl
    · split at h
      · cases h
        rfl
      · cases h
  · cases h
    rfl

/-- Rows are used or refused one by one. -/
theorem positionOf_values (f : DeleteFile) (d : PositionDelete) :
    f.positionOf d.values =
      match d.fault? with
      | some cause => .error (.scan cause (some f.path))
      | none => .ok d.pair := by
  obtain ⟨path, position⟩ := d
  cases path with
  | none => cases position <;> rfl
  | some path =>
      cases position with
      | none => rfl
      | some position =>
          simp only [fault?, values, Option.elim_some, DeleteFile.positionOf]
          split
          · rfl
          · split <;> rfl

/-- The first row that cannot be used is the error, if there is one. -/
theorem mapM_positionOf (f : DeleteFile) (deletes : List PositionDelete) :
    (deletes.map values).mapM f.positionOf =
      match deletes.findSome? fault? with
      | some cause => .error (.scan cause (some f.path))
      | none => .ok (deletes.map pair) := by
  induction deletes with
  | nil => rfl
  | cons d deletes ih =>
      rw [List.map_cons, List.mapM_cons, positionOf_values, ih, List.findSome?_cons]
      cases d.fault? with
      | some cause => rfl
      | none =>
          rw [ok_bind]
          cases deletes.findSome? fault? <;> rfl

end PositionDelete

/-! ## The index of some pairs -/

theorem PositionSet.ext_mem {s t : PositionSet} (h : ∀ p, p ∈ s ↔ p ∈ t) : s = t :=
  PositionSet.ext_positions (s.ascending.eq_of_mem_iff t.ascending h)

namespace DeleteFile

variable {pairs : List (String × Nat)}

/-- The positions of a path are those that it is paired with. -/
theorem mem_groupPositions {path : String} {set : PositionSet}
    (hrange : ∀ pair ∈ pairs, pair.2 ≤ maxPosition) :
    (path, set) ∈ groupPositions pairs ↔
      path ∈ pairs.map (·.1) ∧ ∀ n, n ∈ set ↔ (path, n) ∈ pairs := by
  have hmembers : ∀ n, n ∈ PositionSet.empty.insertAll
      (((pairs.filter fun p => p.1 == path).map (·.2)).mergeSort (· ≤ ·)) ↔ (path, n) ∈ pairs := by
    intro n
    have hnone : n ∉ PositionSet.empty := nofun
    simp only [PositionSet.mem_insertAll, hnone, or_false, List.mem_mergeSort, List.mem_map,
      List.mem_filter, beq_iff_eq]
    constructor
    · rintro ⟨⟨pair, ⟨hpair, rfl⟩, rfl⟩, -⟩
      exact hpair
    · intro h
      exact ⟨⟨(path, n), ⟨h, rfl⟩, rfl⟩, hrange _ h⟩
  simp only [groupPositions, List.mem_map, List.mem_eraseDups, Prod.mk.injEq]
  constructor
  · rintro ⟨path', hpath, rfl, rfl⟩
    exact ⟨hpath, hmembers⟩
  · rintro ⟨hpath, hset⟩
    exact ⟨path, hpath, rfl, PositionSet.ext_mem fun n => (hmembers n).trans (hset n).symm⟩

theorem map_fst_groupPositions :
    (groupPositions pairs).map (·.1) = (pairs.map (·.1)).eraseDups := by
  simp [groupPositions, Function.comp_def]

theorem nodup_groupPositions : ((groupPositions pairs).map (·.1)).Nodup := by
  rw [map_fst_groupPositions]
  exact nodup_eraseDups _

/-- A path is found with the positions that it is paired with, if there are any. -/
theorem lookup_groupPositions {path : String} {set : PositionSet}
    (hrange : ∀ pair ∈ pairs, pair.2 ≤ maxPosition) :
    (groupPositions pairs).lookup path = some set ↔
      path ∈ pairs.map (·.1) ∧ ∀ n, n ∈ set ↔ (path, n) ∈ pairs := by
  rw [lookup_eq_some_iff_mem nodup_groupPositions, mem_groupPositions hrange]

/-- Every pair is counted once. -/
theorem size_groupPositions (hrange : ∀ pair ∈ pairs, pair.2 ≤ maxPosition) :
    ((groupPositions pairs).map fun g => g.2.size).foldl (· + ·) 0 = pairs.toFinset.card := by
  let spread (g : String × PositionSet) : List (String × Nat) := g.2.positions.map fun n => (g.1, n)
  have hmem : ∀ pair, pair ∈ (groupPositions pairs).flatMap spread ↔ pair ∈ pairs := by
    rintro ⟨path, n⟩
    simp only [spread, List.mem_flatMap, List.mem_map, Prod.mk.injEq, Prod.exists]
    constructor
    · rintro ⟨path', set, hgroup, n', hn', rfl, rfl⟩
      exact (((mem_groupPositions hrange).1 hgroup).2 n').1 hn'
    · intro h
      have hpath : path ∈ (groupPositions pairs).map (·.1) := by
        rw [map_fst_groupPositions, List.mem_eraseDups]
        exact List.mem_map_of_mem h
      obtain ⟨⟨path', set⟩, hgroup, rfl⟩ := List.mem_map.1 hpath
      exact ⟨path', set, hgroup, n, (((mem_groupPositions hrange).1 hgroup).2 n).2 h, rfl, rfl⟩
  have hnodup : ((groupPositions pairs).flatMap spread).Nodup := by
    rw [List.nodup_flatMap]
    refine ⟨fun g _ => ?_, ?_⟩
    · exact (g.2.ascending.imp Nat.ne_of_lt).map _ fun m n hmn h => hmn (Prod.mk.inj h).2
    · refine (List.pairwise_map.1 nodup_groupPositions).imp fun {g g'} hne => ?_
      rintro ⟨path, n⟩ hg hg'
      obtain ⟨_, -, hpath⟩ := List.mem_map.1 hg
      obtain ⟨_, -, hpath'⟩ := List.mem_map.1 hg'
      exact hne ((Prod.mk.inj hpath).1.trans (Prod.mk.inj hpath').1.symm)
  calc ((groupPositions pairs).map fun g => g.2.size).foldl (· + ·) 0
      = ((groupPositions pairs).flatMap spread).length := by
        simp [← List.sum_eq_foldl, spread, List.length_flatMap, PositionSet.size]
    _ = ((groupPositions pairs).flatMap spread).toFinset.card :=
        (List.toFinset_card_of_nodup hnodup).symm
    _ = pairs.toFinset.card := by
        congr 1
        ext pair
        rw [List.mem_toFinset, hmem, List.mem_toFinset]

end DeleteFile

/-- An index is the relation between paths and positions that some rows spell out: it has a vector
for the paths that occur, each with the positions that the path is paired with, and counts every
pair once. -/
structure DeleteIndex.IsRelationOf (index : DeleteIndex) (deletes : List PositionDelete) :
    Prop where
  distinct : (index.vectors.map (·.1)).Nodup
  vector?_eq_some_iff : ∀ path set, index.vector? path = some set ↔
    (∃ d ∈ deletes, d.path = some path) ∧ ∀ n : Nat, n ∈ set ↔ ⟨some path, some n⟩ ∈ deletes
  cardinality : index.cardinality = deletes.toFinset.card

namespace PositionDelete

variable {deletes : List PositionDelete}

/-- The rows are told apart by their pairs, if they can be used. -/
theorem mem_map_pair (h : ∀ d ∈ deletes, d.fault? = none) {path : String} {n : Nat} :
    (path, n) ∈ deletes.map pair ↔ ⟨some path, some n⟩ ∈ deletes := by
  rw [List.mem_map]
  constructor
  · rintro ⟨d, hd, hpair⟩
    obtain ⟨path', n', -, rfl⟩ := fault?_eq_none_iff.1 (h d hd)
    cases hpair
    exact hd
  · exact fun hd => ⟨_, hd, rfl⟩

theorem injOn_pair (h : ∀ d ∈ deletes, d.fault? = none) :
    Set.InjOn pair (deletes.toFinset : Set PositionDelete) := by
  intro d hd e he hsame
  obtain ⟨path, n, -, rfl⟩ := fault?_eq_none_iff.1 (h d (by simpa using hd))
  obtain ⟨path', n', -, rfl⟩ := fault?_eq_none_iff.1 (h e (by simpa using he))
  cases hsame
  rfl

/-- The pairs of rows that can all be used make the relation of the rows. -/
theorem isRelationOf_groupPositions (h : ∀ d ∈ deletes, d.fault? = none) (file : String) :
    (DeleteIndex.positions file
      (DeleteFile.groupPositions (deletes.map pair))).IsRelationOf deletes := by
  have hrange : ∀ pair ∈ deletes.map PositionDelete.pair, pair.2 ≤ maxPosition := by
    intro pair hpair
    obtain ⟨d, hd, rfl⟩ := List.mem_map.1 hpair
    obtain ⟨path, n, hn, rfl⟩ := fault?_eq_none_iff.1 (h d hd)
    exact hn
  refine ⟨DeleteFile.nodup_groupPositions, fun path set => ?_, ?_⟩
  · rw [DeleteIndex.vector?, DeleteFile.lookup_groupPositions hrange]
    refine and_congr ?_ (forall_congr' fun n => by rw [mem_map_pair h])
    rw [List.map_map, List.mem_map]
    refine exists_congr fun d => and_congr_right fun hd => ?_
    obtain ⟨path', n, -, rfl⟩ := fault?_eq_none_iff.1 (h d hd)
    simp [pair]
  · have himage : (deletes.map pair).toFinset = deletes.toFinset.image pair := by
      ext
      simp
    rw [DeleteIndex.cardinality, DeleteFile.size_groupPositions hrange, himage,
      Finset.card_image_of_injOn (injOn_pair h)]

end PositionDelete

/-- Indexes of the same rows, in whatever order and however often, give the same answers. -/
theorem DeleteIndex.IsRelationOf.congr {index index' : DeleteIndex}
    {deletes deletes' : List PositionDelete} (h : index.IsRelationOf deletes)
    (h' : index'.IsRelationOf deletes') (hsame : ∀ d, d ∈ deletes ↔ d ∈ deletes') :
    (∀ path, index.vector? path = index'.vector? path) ∧
      index.cardinality = index'.cardinality := by
  refine ⟨fun path => Option.ext fun set => ?_, ?_⟩
  · rw [h.vector?_eq_some_iff, h'.vector?_eq_some_iff]
    simp only [hsame]
  · rw [h.cardinality, h'.cardinality, List.toFinset.ext hsame]

/-! ## The rows of a file -/

namespace DeleteFile

/-- The fields of a file of deletes by position. -/
def positionFields : List Field := [pathField, positionField]

/-- The columns that they are read into. -/
def positionHeader : List ColumnHeader :=
  [⟨"file_path", .flat (.text false)⟩, ⟨"pos", .flat (.int .w64)⟩]

theorem headers_positionFields : Field.headers positionFields = .ok positionHeader := rfl

theorem physicalNames_positionFields :
    Field.physicalNames positionFields positionFields = [some "file_path", some "pos"] := rfl

end DeleteFile

namespace StoredRows

/-- The delete that a row of a file stands for, once its columns are converted to texts and to
integers. -/
def positionDelete (s : StoredRows) (p : Nat) : PositionDelete where
  path :=
    match (s.type p "file_path").convert (.flat (.text false)) (s.value p "file_path") with
    | .text path => some path
    | _ => none
  position :=
    match (s.type p "pos").convert (.flat (.int .w64)) (s.value p "pos") with
    | .int position => some position
    | _ => none

/-- The deletes of a file, in the order of its rows. -/
def positionDeletes (s : StoredRows) : List PositionDelete :=
  (List.range s.count).map s.positionDelete

/-- The values of a column fit its type. -/
def Fits (s : StoredRows) (name : String) : Prop :=
  ∀ p < s.count, (s.type p name).take (s.value p name) = .ok (s.value p name)

variable {s : StoredRows} {columns : List String} {position : Nat} {b c : Batch}
  {stream : BatchStream}

/-- What the columns of a row are converted to are the values of its delete. -/
theorem values_positionDelete (hpaths : s.Fits "file_path") (hpositions : s.Fits "pos") {p : Nat}
    (hp : p < s.count) {v w : Value}
    (hv : (s.type p "file_path").convertAll (.flat (.text false)) [s.value p "file_path"] = .ok [v])
    (hw : (s.type p "pos").convertAll (.flat (.int .w64)) [s.value p "pos"] = .ok [w]) :
    (s.positionDelete p).values = [v, w] := by
  simp only [positionDelete, PositionDelete.values, ColumnType.convert, hv, hw]
  rcases ColumnType.null_or_text_of_convertAll (hpaths p hp) hv with rfl | ⟨t, rfl⟩ <;>
    rcases ColumnType.null_or_int_of_convertAll (hpositions p hp) hw with rfl | ⟨n, rfl⟩ <;> rfl

/-- A batch that is conformed consists of the deletes of its rows. -/
theorem Holds.rows_deletes (hb : s.Holds columns position b) (hnodup : columns.Nodup)
    (hpath : "file_path" ∈ columns) (hposition : "pos" ∈ columns)
    (hpaths : s.Fits "file_path") (hpositions : s.Fits "pos")
    (hend : position + b.size ≤ s.count)
    (hconform : b.conform [some "file_path", some "pos"] DeleteFile.positionHeader = .ok c) :
    c.rows = (List.range b.size).map fun i => (s.positionDelete (position + i)).values := by
  obtain ⟨found, hfound, -, hsize, hrows⟩ :=
    Batch.conform_eq_ok (by simp [DeleteFile.positionHeader]) hconform
  obtain ⟨paths, rest, hpathsIn, hrest, rfl⟩ := List.forall₂_cons_left_iff.1 hfound
  obtain ⟨positions, more, hpositionsIn, hnone, rfl⟩ := List.forall₂_cons_left_iff.1 hrest
  obtain rfl := List.forall₂_nil_left_iff.1 hnone
  rw [← Batch.map_range_getD c.rows, show c.rows.length = b.size from hsize]
  refine List.map_congr_left fun i hi => ?_
  have hi' : i < b.size := List.mem_range.1 hi
  rw [hrows i hi']
  exact (values_positionDelete hpaths hpositions (by omega)
    (hb.convertAll_eq_ok hnodup hpath hpathsIn hi')
    (hb.convertAll_eq_ok hnodup hposition hpositionsIn hi')).symm

end StoredRows

/-! ## Loading -/

namespace DeleteFile

variable {f g : DeleteFile} {source source' : RowSource} {stored stored' : StoredRows}

/-- A source delivers the rows of a file of deletes by position, in whatever batches and with
whatever other columns.  The columns of paths and positions can be converted to texts and integers
of 64 bits. -/
structure StoresPositions (f : DeleteFile) (source : RowSource) (stored : StoredRows) : Prop where
  content : f.content = .positionDeletes
  paths : stored.Fits "file_path"
  positions : stored.Fits "pos"
  opens : ∃ columns stream, source f.path f.format ["file_path", "pos"] = .ok stream ∧
    columns.Nodup ∧ "file_path" ∈ columns ∧ "pos" ∈ columns ∧ stored.Delivers columns 0 stream ∧
      ∀ b, .ok b ∈ stream → b.Castable positionFields positionFields

/-- What is visited in every batch is visited in one go. -/
theorem throughBatches_mapM {α : Type} (bs : List Batch) (make : List Value → Except Error α) :
    throughBatches (bs, none) (fun b => b.rows.mapM make) = (bs.flatMap (·.rows)).mapM make := by
  have hflat : (bs.mapM fun b : Batch => b.rows.mapM make).map List.flatten =
      (bs.flatMap (·.rows)).mapM make := by
    induction bs with
    | nil => rfl
    | cons b bs ih =>
        rw [List.mapM_cons, List.flatMap_cons, List.mapM_append, ← ih]
        cases b.rows.mapM make with
        | error e => rfl
        | ok items => cases bs.mapM fun b : Batch => b.rows.mapM make <;> rfl
  rw [← hflat, throughBatches]
  cases bs.mapM fun b : Batch => b.rows.mapM make <;> rfl

/-- Loading fails with the first row that cannot be used, and groups the pairs of the rows when
there is none. -/
theorem StoresPositions.load_eq (h : f.StoresPositions source stored) (schema : TableSchema) :
    f.load source schema =
      match stored.positionDeletes.findSome? PositionDelete.fault? with
      | some cause => .error (.scan cause (some f.path))
      | none =>
        .ok (.positions f.path
          (groupPositions (stored.positionDeletes.map PositionDelete.pair))) := by
  obtain ⟨columns, stream, hopen, hnodup, hpath, hposition, hstream, hcasts⟩ := h.opens
  have hreader : f.openFields source [pathField, positionField] =
      .ok (.conformed [some "file_path", some "pos"] positionHeader (.stream stream 0)) := by
    rw [openFields, show [pathField, positionField].map (·.name) = ["file_path", "pos"] from rfl,
      hopen]
    rfl
  have hfound : ∀ f ∈ positionFields, ∀ name ∈ Field.nameOf? positionFields f.id,
      name ∈ columns := by
    simp [positionFields, pathField, positionField, Field.nameOf?, TableSchema.findLast?, hpath,
      hposition]
  obtain ⟨bs, hbs⟩ := hstream.exists_conformed hnodup hfound headers_positionFields hcasts
  rw [physicalNames_positionFields] at hbs
  have hbatches : (Reader.conformed [some "file_path", some "pos"] positionHeader
      (.stream stream 0)).batches = (bs, none) := Reader.batches_conformed_iff.2 hbs
  have hrows : bs.flatMap (·.rows) = stored.positionDeletes.map PositionDelete.values := by
    rw [hstream.flatMap_eq (g := fun p => (stored.positionDelete p).values) hbs
      fun _ _ _ hb hend hconform =>
        hb.rows_deletes hnodup hpath hposition h.paths h.positions hend hconform,
      StoredRows.positionDeletes, List.map_map, Nat.sub_zero, List.range_eq_range']
    rfl
  rw [load, h.content]
  change f.loadPositions source = _
  rw [loadPositions, hreader, ok_bind]
  simp only [hbatches, Option.map_none, throughBatches_mapM, hrows, PositionDelete.mapM_positionOf]
  cases stored.positionDeletes.findSome? PositionDelete.fault? <;> rfl

end DeleteFile

/-! ## Files that hold some deletes -/

namespace PositionDelete

/-- Deletes as the rows of a file. -/
def stored (deletes : List PositionDelete) : StoredRows :=
  .ofRows (fun name => .flat (if name = "file_path" then .text false else .int .w64))
    (deletes.map fun d name =>
      if name = "file_path" then d.path.elim .null .text else d.position.elim .null .int)

variable {deletes : List PositionDelete}

theorem value_path {p : Nat} (hp : p < deletes.length) :
    (stored deletes).value p "file_path" = deletes[p].path.elim .null .text := by
  simp [stored, StoredRows.ofRows, hp]

theorem value_pos {p : Nat} (hp : p < deletes.length) :
    (stored deletes).value p "pos" = deletes[p].position.elim .null .int := by
  simp [stored, StoredRows.ofRows, hp]

theorem count_stored : (stored deletes).count = deletes.length := List.length_map ..

theorem positionDeletes_stored : (stored deletes).positionDeletes = deletes := by
  refine List.ext_getElem (by simp [StoredRows.positionDeletes, count_stored]) fun p h₁ h₂ => ?_
  have hpath : (stored deletes).type p "file_path" = .flat (.text false) := rfl
  have hposition : (stored deletes).type p "pos" = .flat (.int .w64) := rfl
  simp only [StoredRows.positionDeletes, List.getElem_map, List.getElem_range,
    StoredRows.positionDelete, hpath, hposition, ColumnType.convert, ColumnType.convertAll_self,
    value_path h₂, value_pos h₂]
  obtain ⟨path, position⟩ := deletes[p]
  cases path <;> cases position <;> rfl

/-- They can be stored in batches of any sizes. -/
theorem storesPositions {f : DeleteFile} (hcontent : f.content = .positionDeletes)
    (hrange : ∀ d ∈ deletes, ∀ n ∈ d.position, IntWidth.w64.holds n = true) {counts : List Nat}
    (hcounts : counts.foldl (· + ·) 0 = deletes.length) :
    f.StoresPositions ((stored deletes).source counts) (stored deletes) where
  content := hcontent
  paths p hp := by
    rw [count_stored] at hp
    rw [value_path hp]
    cases deletes[p].path with
    | none => exact ColumnType.take_null _
    | some path => simp [stored, StoredRows.ofRows, ColumnType.take, FlatType.take, Except.map]
  positions p hp := by
    rw [count_stored] at hp
    rw [value_pos hp]
    cases hposition : deletes[p].position with
    | none => exact ColumnType.take_null _
    | some n =>
        have hn := hrange _ (List.getElem_mem hp) n hposition
        simp [stored, StoredRows.ofRows, ColumnType.take, FlatType.take, Scalar.takeInt,
          Scalar.wholeOf, Scalar.wholePart, Except.map, hn]
  opens := by
    refine ⟨["file_path", "pos"], _, rfl, by simp, by simp, by simp,
      StoredRows.delivers_divided (fun p => rfl) (hcounts.trans count_stored.symm), fun b hb =>
        StoredRows.castable_of_mem_divided (fun f hf name hfound p => ?_) hb⟩
    rcases List.mem_cons.1 hf with rfl | hf
    · cases hfound
      rfl
    · cases List.mem_singleton.1 hf
      cases hfound
      rfl

end PositionDelete

/-! ## The index of a file -/

namespace DeleteFile

variable {f : DeleteFile} {source : RowSource} {stored : StoredRows}

/-- Rows that can all be used are loaded as their relation. -/
theorem StoresPositions.exists_isRelationOf (h : f.StoresPositions source stored)
    (schema : TableSchema) (husable : ∀ d ∈ stored.positionDeletes, d.fault? = none) :
    ∃ index, f.load source schema = .ok index ∧ index.path = f.path ∧
      index.IsRelationOf stored.positionDeletes := by
  refine ⟨_, ?_, rfl, PositionDelete.isRelationOf_groupPositions husable f.path⟩
  rw [h.load_eq, List.findSome?_eq_none_iff.2 husable]

/-- **The index of a file of deletes by position is the relation in the file.**  Loading fails
exactly with the first row, in the order of the file, that cannot be used; and this is an error of
corruption that names the file.  Otherwise the index has the paths that occur, each with the
positions that it is paired with, and counts the different pairs.  Another file with the same rows,
in any order and batches and however often, has an index with the same answers. -/
theorem StoresPositions.load_isRelationOf (h : f.StoresPositions source stored)
    (schema : TableSchema) :
    (∀ e, f.load source schema = .error e ↔
      ∃ cause ∈ stored.positionDeletes.findSome? PositionDelete.fault?,
        e = .scan cause (some f.path) ∧ e.kind = .dataCorruption) ∧
    ((∀ d ∈ stored.positionDeletes, d.fault? = none) → ∃ index, f.load source schema = .ok index ∧
      index.path = f.path ∧ index.IsRelationOf stored.positionDeletes) ∧
    (∀ {g : DeleteFile} {source' : RowSource} {stored' : StoredRows} {index : DeleteIndex}
      (schema' : TableSchema), g.StoresPositions source' stored' →
        (∀ d, d ∈ stored.positionDeletes ↔ d ∈ stored'.positionDeletes) →
          f.load source schema = .ok index → ∃ index', g.load source' schema' = .ok index' ∧
            (∀ path, index'.vector? path = index.vector? path) ∧
            index'.cardinality = index.cardinality) := by
  refine ⟨fun e => ?_, h.exists_isRelationOf schema,
    fun {g source' stored' index} schema' h' hsame hload => ?_⟩
  · rw [h.load_eq]
    cases hfault : stored.positionDeletes.findSome? PositionDelete.fault? with
    | none => simp
    | some cause =>
        obtain ⟨d, -, hd⟩ := List.exists_of_findSome?_eq_some hfault
        simp only [Except.error.injEq, Option.mem_some_iff, exists_eq_left']
        constructor
        · rintro rfl
          exact ⟨rfl, PositionDelete.kind_of_fault hd⟩
        · rintro ⟨rfl, -⟩
          rfl
  · have husable : ∀ d ∈ stored.positionDeletes, d.fault? = none := by
      rw [← List.findSome?_eq_none_iff]
      rw [h.load_eq] at hload
      split at hload
      · cases hload
      · assumption
    obtain ⟨index₁, hload₁, -, hindex⟩ := h.exists_isRelationOf schema husable
    obtain ⟨index', hload', -, hindex'⟩ := h'.exists_isRelationOf schema' fun d hd =>
      husable d ((hsame d).2 hd)
    obtain rfl := Except.ok.inj (hload.symm.trans hload₁)
    exact ⟨index', hload', hindex'.congr hindex fun d => (hsame d).symm⟩

/-- A file of deletes by position. -/
def repeatedPositions : DeleteFile where
  path := "deletes"
  format := "parquet"
  partition := []
  content := .positionDeletes
  recordCount := 3

/-- A schema, on which deletes by position do not depend. -/
def noSchema : TableSchema := ⟨0, [], [], 0, []⟩

/-- Three rows, of which two are the same. -/
def repeatedRows : List PositionDelete :=
  [⟨some "a", some 3⟩, ⟨some "b", some 0⟩, ⟨some "a", some 3⟩]

theorem load_repeatedRows :
    (∃ index, repeatedPositions.load ((PositionDelete.stored repeatedRows).source [1, 0, 2])
          noSchema = .ok index ∧
        index.IsRelationOf repeatedRows ∧ index.cardinality = 2 ∧
      ∃ index', repeatedPositions.load
          ((PositionDelete.stored (repeatedRows.take 2).reverse).source [2]) noSchema = .ok index' ∧
        (∀ path, index'.vector? path = index.vector? path) ∧ index'.cardinality = 2) ∧
    repeatedPositions.load ((PositionDelete.stored
      [⟨some "a", some 3⟩, ⟨none, some (-1)⟩, ⟨some "a", some (-1)⟩]).source [2, 1]) noSchema =
        .error (.scan .nullDelete (some "deletes")) := by
  have h : repeatedPositions.StoresPositions ((PositionDelete.stored repeatedRows).source [1, 0, 2])
      (PositionDelete.stored repeatedRows) := PositionDelete.storesPositions rfl (by decide) rfl
  have h' : repeatedPositions.StoresPositions
      ((PositionDelete.stored (repeatedRows.take 2).reverse).source [2])
      (PositionDelete.stored (repeatedRows.take 2).reverse) :=
    PositionDelete.storesPositions rfl (by decide) rfl
  have hfaulty : repeatedPositions.StoresPositions ((PositionDelete.stored
        [⟨some "a", some 3⟩, ⟨none, some (-1)⟩, ⟨some "a", some (-1)⟩]).source [2, 1])
      (PositionDelete.stored [⟨some "a", some 3⟩, ⟨none, some (-1)⟩, ⟨some "a", some (-1)⟩]) :=
    PositionDelete.storesPositions rfl (by decide) rfl
  obtain ⟨-, hindex, hsame⟩ := h.load_isRelationOf noSchema
  rw [PositionDelete.positionDeletes_stored] at hindex hsame
  obtain ⟨index, hload, -, hrelation⟩ := hindex (by decide)
  have hcard : index.cardinality = 2 := by
    rw [hrelation.cardinality]
    rfl
  obtain ⟨index', hload', hvectors, hcard'⟩ := hsame noSchema h' (by
    rw [PositionDelete.positionDeletes_stored]
    intro d
    simp [repeatedRows, or_comm]) hload
  refine ⟨⟨index, hload, hrelation, hcard, index', hload', hvectors, hcard'.trans hcard⟩, ?_⟩
  refine ((hfaulty.load_isRelationOf noSchema).1 _).2 ⟨.nullDelete, ?_, rfl, rfl⟩
  rw [PositionDelete.positionDeletes_stored]
  rfl

end DeleteFile

end MergeOnRead
