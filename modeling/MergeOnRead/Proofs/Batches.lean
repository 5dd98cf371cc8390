import MergeOnRead.Proofs.Results
import MergeOnRead.Read.RecordIterator
import Mathlib.Data.List.GetD
import Mathlib.Data.List.Nodup

/-!
# Batches and their records

What the operations of a batch do to its rows, and how its records are handed out.

* `keep_rows`: keeping some row numbers gives the rows with these numbers;
* `select_eq_ok`: selecting columns that exist picks them out of every row;
* `decodesByColumn_of_named`: the records of some columns of a batch are the records of the
  batch, restricted to these columns, when all columns have names;
* `drainFrom_eq`: draining an iterator passes every record through the stages, at its own
  position;
* `flatten_chunks`: the pieces of a list are the list again, and only the last of them may be
  shorter than the others (`length_of_mem_dropLast_chunks`).
-/

namespace MergeOnRead

section Pieces

variable {α : Type}

/-! ## Pieces of a list -/

theorem cut_of_ne_nil (size count : Nat) {items : List α} (h : items ≠ []) :
    chunks.cut size (count + 1) items =
      items.take (max 1 size) :: chunks.cut size count (items.drop (max 1 size)) := by
  cases items with
  | nil => exact absurd rfl h
  | cons x xs => rfl

/-- More pieces than there can be make no difference. -/
theorem cut_eq_cut (size : Nat) {count count' : Nat} {items : List α}
    (hcount : items.length ≤ count) (hcount' : items.length ≤ count') :
    chunks.cut size count items = chunks.cut size count' items := by
  induction count generalizing count' items with
  | zero =>
      obtain rfl := List.length_eq_zero_iff.1 (Nat.le_zero.1 hcount)
      cases count' <;> rfl
  | succ count ih =>
      by_cases h : items = []
      · subst h
        cases count' <;> rfl
      · have hpositive := List.length_pos_iff.2 h
        have hrest := List.length_drop (i := max 1 size) (l := items)
        obtain ⟨count', rfl⟩ : ∃ n, count' = n + 1 := Nat.exists_eq_succ_of_ne_zero (by omega)
        have hsame : chunks.cut size count (items.drop (max 1 size)) =
            chunks.cut size count' (items.drop (max 1 size)) := ih (by omega) (by omega)
        rw [cut_of_ne_nil size count h, cut_of_ne_nil size count' h, hsame]

/-- The first piece, and the pieces of what is behind it. -/
theorem chunks_of_ne_nil (size : Nat) {items : List α} (h : items ≠ []) :
    chunks size items = items.take (max 1 size) :: chunks size (items.drop (max 1 size)) := by
  have hpositive := List.length_pos_iff.2 h
  have hrest := List.length_drop (i := max 1 size) (l := items)
  obtain ⟨count, hcount⟩ : ∃ n, items.length = n + 1 :=
    Nat.exists_eq_succ_of_ne_zero (by omega)
  rw [chunks, hcount, cut_of_ne_nil size count h, chunks]
  congr 1
  exact cut_eq_cut size (by omega) (Nat.le_refl _)

/-- A property of lists holds when it follows from what is behind the first piece. -/
theorem chunks_induction (size : Nat) {motive : List α → Prop} (nil : motive [])
    (cons : ∀ items, items ≠ [] → motive (items.drop (max 1 size)) → motive items)
    (items : List α) : motive items := by
  induction hn : items.length using Nat.strongRecOn generalizing items with
  | ind n ih =>
      by_cases h : items = []
      · subst h
        exact nil
      · have hpositive := List.length_pos_iff.2 h
        refine cons items h (ih _ ?_ _ rfl)
        rw [List.length_drop]
        omega

/-- A size below one counts as one. -/
theorem chunks_max_one (size : Nat) (items : List α) :
    chunks (max 1 size) items = chunks size items := by
  have hmax : max 1 (max 1 size) = max 1 size := by omega
  induction items using chunks_induction size with
  | nil => rfl
  | cons items h ih =>
      rw [chunks_of_ne_nil _ h, chunks_of_ne_nil _ h, hmax, ih]

theorem flatten_chunks (size : Nat) (items : List α) :
    (chunks size items).flatten = items := by
  induction items using chunks_induction size with
  | nil => rfl
  | cons items h ih =>
      rw [chunks_of_ne_nil size h, List.flatten_cons, ih, List.take_append_drop]

theorem ne_nil_of_mem_chunks {size : Nat} {items piece : List α} (h : piece ∈ chunks size items) :
    piece ≠ [] := by
  induction items using chunks_induction size with
  | nil => cases h
  | cons items hne ih =>
      rw [chunks_of_ne_nil size hne] at h
      rcases List.mem_cons.1 h with rfl | h
      · have hpositive := List.length_pos_iff.2 hne
        rw [← List.length_pos_iff, List.length_take]
        omega
      · exact ih h

/-- Only the last piece may be shorter than the others. -/
theorem length_of_mem_dropLast_chunks {size : Nat} {items piece : List α}
    (h : piece ∈ (chunks size items).dropLast) : piece.length = max 1 size := by
  induction items using chunks_induction size with
  | nil => cases h
  | cons items hne ih =>
      rw [chunks_of_ne_nil size hne] at h
      by_cases hlast : items.drop (max 1 size) = []
      · rw [hlast] at h
        cases h
      · have hbehind : chunks size (items.drop (max 1 size)) ≠ [] := by
          rw [chunks_of_ne_nil size hlast]
          exact List.cons_ne_nil _ _
        rw [List.dropLast_cons_of_ne_nil hbehind] at h
        rcases List.mem_cons.1 h with rfl | h
        · have hpositive := List.length_pos_iff.2 hlast
          rw [List.length_drop] at hpositive
          rw [List.length_take]
          omega
        · exact ih h

theorem length_le_of_mem_chunks {size : Nat} {items piece : List α}
    (h : piece ∈ chunks size items) : piece.length ≤ max 1 size := by
  induction items using chunks_induction size with
  | nil => cases h
  | cons items hne ih =>
      rw [chunks_of_ne_nil size hne] at h
      rcases List.mem_cons.1 h with rfl | h
      · exact List.length_take_le _ _
      · exact ih h

end Pieces

namespace Batch

/-! ## Some of the rows -/

theorem keepFrom_eq_map {i : Nat} {numbers : List Nat} {rows : List (List Value)}
    (hsorted : numbers.Pairwise (· < ·)) (hfrom : ∀ n ∈ numbers, i ≤ n)
    (hto : ∀ n ∈ numbers, n < i + rows.length) :
    keep.keepFrom i numbers rows = numbers.map fun n => rows.getD (n - i) [] := by
  induction rows generalizing i numbers with
  | nil =>
      cases numbers with
      | nil => rfl
      | cons n ns =>
          have := hfrom n (List.mem_cons_self ..)
          have := hto n (List.mem_cons_self ..)
          simp only [List.length_nil] at this
          omega
  | cons row rows ih =>
      cases numbers with
      | nil => rfl
      | cons n ns =>
          obtain ⟨hn, hns⟩ := List.pairwise_cons.1 hsorted
          have hlater : ∀ m ∈ ns, i + 1 ≤ m := fun m hm => by
            have := hn m hm
            have := hfrom n (List.mem_cons_self ..)
            omega
          have hbound : ∀ m ∈ n :: ns, m < i + 1 + rows.length := fun m hm => by
            have := hto m hm
            simp only [List.length_cons] at this
            omega
          -- The row in front is kept when its number comes next.
          rw [keep.keepFrom]
          split
          · rename_i hni
            subst hni
            rw [ih hns hlater fun m hm => hbound m (List.mem_cons_of_mem _ hm), List.map_cons,
              Nat.sub_self, List.getD_cons_zero]
            refine congrArg _ (List.map_congr_left fun m hm => ?_)
            have := hlater m hm
            rw [show m - n = m - (n + 1) + 1 by omega, List.getD_cons_succ]
          · rename_i hni
            have hfirst : ∀ m ∈ n :: ns, i + 1 ≤ m := fun m hm => by
              have := hfrom n (List.mem_cons_self ..)
              rcases List.mem_cons.1 hm with rfl | hm
              · omega
              · exact hlater m hm
            rw [ih hsorted hfirst hbound]
            refine List.map_congr_left fun m hm => ?_
            have := hfirst m hm
            rw [show m - i = m - (i + 1) + 1 by omega, List.getD_cons_succ]

/-- The rows with some numbers, in ascending order. -/
theorem keep_rows {b : Batch} {numbers : List Nat} (hsorted : numbers.Pairwise (· < ·))
    (hlt : ∀ n ∈ numbers, n < b.size) :
    (b.keep numbers).rows = numbers.map fun n => b.rows.getD n [] := by
  rw [keep, keepFrom_eq_map hsorted (fun n _ => Nat.zero_le n) fun n hn => by
    rw [Nat.zero_add]
    exact hlt n hn]
  rfl

/-- All rows are the rows with all numbers. -/
theorem map_range_getD (rows : List (List Value)) :
    ((List.range rows.length).map fun n => rows.getD n []) = rows := by
  refine List.ext_getElem (by simp) fun n h₁ h₂ => ?_
  simp [List.getD_eq_getElem?_getD, List.getElem?_eq_getElem h₂]

/-! ## Some of the columns -/

/-- A picked item is found where its place is listed. -/
theorem getD_pick {α : Type} [Inhabited α] {places : List Nat} {xs : List α} {place : Nat}
    (hplace : place ∈ places) (d : α) :
    (pick places xs).getD (places.idxOf place) d = xs.getD place default := by
  have hlt := List.idxOf_lt_length_of_mem hplace
  rw [pick, List.getD_eq_getElem?_getD, List.getElem?_map, List.getElem?_eq_getElem hlt,
    List.getElem_idxOf hlt]
  rfl

theorem resolveIndex_of_lt {b : Batch} {place : Nat} (hlt : place < b.header.length)
    (hmax : b.header.length ≤ maxIndex) : b.resolveIndex (place : Int) = .ok place := by
  have hindex : isIndex (place : Int) = true := by
    simp only [isIndex, Bool.and_eq_true, decide_eq_true_eq]
    omega
  have hfound : b.resolveIndex? (place : Int) = some place := by
    simp [resolveIndex?, hlt]
  rw [resolveIndex, if_pos hindex, hfound]

/-- Columns that exist can be selected. -/
theorem select_eq_ok {b : Batch} {places : List Nat}
    (hlt : ∀ place ∈ places, place < b.header.length) (hmax : b.header.length ≤ maxIndex) :
    b.select (places.map fun (i : Nat) => (i : Int)) =
      .ok { header := pick places b.header, rows := b.rows.map (pick places) } := by
  have hplaces : (places.map fun (i : Nat) => (i : Int)).mapM b.resolveIndex = .ok places := by
    rw [mapM_eq_ok_iff, List.forall₂_map_left_iff]
    exact List.forall₂_same.2 fun place hplace => resolveIndex_of_lt (hlt place hplace) hmax
  rw [select, hplaces]
  rfl

/-! ## Records -/

/-- The record of a row: its values as they are handed out. -/
def recordOf (header : List ColumnHeader) (row : List Value) : List Value :=
  (header.zip row).map fun (h, v) => h.type.decode v

theorem length_recordOf {header : List ColumnHeader} {row : List Value}
    (hwidth : row.length = header.length) : (recordOf header row).length = header.length := by
  simp [recordOf, hwidth]

theorem getD_recordOf {header : List ColumnHeader} {row : List Value} {i : Nat}
    (hwidth : row.length = header.length) (hi : i < header.length) :
    (recordOf header row).getD i default =
      (header.getD i default).type.decode (row.getD i default) := by
  have hrow : i < row.length := hwidth ▸ hi
  have hrecord : i < (recordOf header row).length := (length_recordOf hwidth).symm ▸ hi
  rw [List.getD_eq_getElem _ _ hrecord, List.getD_eq_getElem _ _ hi,
    List.getD_eq_getElem _ _ hrow]
  simp [recordOf]

theorem records_eq_ok_iff {b : Batch} {records : List (List Value)} :
    b.records = .ok records ↔
      b.decoded = .ok records ∧ areDated records = true := by
  rw [Batch.records, bind_eq_ok_iff]
  constructor
  · rintro ⟨rows, hrows, h⟩
    split at h
    · rename_i hdated
      cases h
      exact ⟨hrows, hdated⟩
    · cases h
  · rintro ⟨hrows, hdated⟩
    exact ⟨records, hrows, by rw [if_pos hdated]⟩

theorem decoded_eq_ok {b : Batch} (hnames : b.recordNames.Nodup) (hheader : b.header ≠ []) :
    b.decoded = .ok (b.rows.map (recordOf b.header)) := by
  rw [decoded, if_pos hnames, if_neg (by simpa using hheader)]
  rfl

/-- A batch with records has different names for its columns. -/
theorem nodup_recordNames_of_decoded {b : Batch} {records : List (List Value)}
    (h : b.decoded = .ok records) : b.recordNames.Nodup := by
  by_contra hdup
  rw [decoded, if_neg hdup] at h
  cases h

/-- Columns that have names keep them in the records. -/
theorem recordNames_of_named {b : Batch} (hnamed : ∀ c ∈ b.header, c.name ≠ "") :
    b.recordNames = b.names := by
  have hmap : b.recordNames = b.names.zipIdx.map Prod.fst := by
    refine List.map_congr_left fun (name, place) hmem => ?_
    obtain ⟨c, hc, hname⟩ := List.mem_map.1 (List.fst_mem_of_mem_zipIdx hmem)
    have hne : name ≠ "" := fun h => hnamed c hc (hname.trans h)
    simp [hne]
  rw [hmap, List.zipIdx_map_fst]

/-- Decoding a column does not depend on the other columns of the batch: the records of some of
the columns are the records of the batch, restricted to these columns. -/
def DecodesByColumn (b : Batch) : Prop :=
  ∀ (records : List (List Value)) (places : List Nat) (c : Batch), b.records = .ok records →
    places ≠ [] → places.Nodup → (∀ place ∈ places, place < b.header.length) →
      b.select (places.map fun (i : Nat) => (i : Int)) = .ok c →
        c.records = .ok (records.map (pick places))

theorem recordOf_pick {header : List ColumnHeader} {row : List Value} {places : List Nat}
    (hwidth : row.length = header.length) (hlt : ∀ place ∈ places, place < header.length) :
    recordOf (pick places header) (pick places row) = pick places (recordOf header row) := by
  rw [recordOf, pick, pick, List.zip_map', List.map_map, pick]
  exact List.map_congr_left fun place hplace => (getD_recordOf hwidth (hlt place hplace)).symm

theorem areDated_map_pick {records : List (List Value)} {places : List Nat}
    (hdated : areDated records = true)
    (hlt : ∀ record ∈ records, ∀ place ∈ places, place < record.length) :
    areDated (records.map (pick places)) = true := by
  rw [areDated, List.all_eq_true] at hdated ⊢
  intro picked hpicked
  obtain ⟨record, hrecord, rfl⟩ := List.mem_map.1 hpicked
  rw [List.all_eq_true]
  intro v hv
  obtain ⟨place, hplace, rfl⟩ := List.mem_map.1 hv
  rw [List.getD_eq_getElem _ _ (hlt record hrecord place hplace)]
  exact List.all_eq_true.1 (hdated record hrecord) _ (List.getElem_mem _)

/-- Columns that are selected have records when their names in records are different ones. -/
theorem records_of_select {b c : Batch} {records : List (List Value)} {places : List Nat}
    (hrecords : b.records = .ok records) (hne : places ≠ [])
    (hwidth : ∀ row ∈ b.rows, row.length = b.header.length) (hmax : b.header.length ≤ maxIndex)
    (hlt : ∀ place ∈ places, place < b.header.length)
    (hselect : b.select (places.map fun (i : Nat) => (i : Int)) = .ok c)
    (hnames : c.recordNames.Nodup) : c.records = .ok (records.map (pick places)) := by
  obtain ⟨hdecoded, hdated⟩ := records_eq_ok_iff.1 hrecords
  have hheader : b.header ≠ [] := by
    obtain ⟨place, hplace⟩ := List.exists_mem_of_ne_nil places hne
    exact List.ne_nil_of_length_pos (Nat.zero_lt_of_lt (hlt place hplace))
  rw [decoded_eq_ok (nodup_recordNames_of_decoded hdecoded) hheader] at hdecoded
  cases hdecoded
  rw [select_eq_ok hlt hmax] at hselect
  cases hselect
  refine records_eq_ok_iff.2 ⟨?_, ?_⟩
  · rw [decoded_eq_ok hnames (by simpa [pick] using hne), List.map_map, List.map_map]
    exact congrArg _ (List.map_congr_left fun row hrow => recordOf_pick (hwidth row hrow) hlt)
  · exact areDated_map_pick hdated fun row hrow place hplace => by
      obtain ⟨stored, hstored, rfl⟩ := List.mem_map.1 hrow
      rw [length_recordOf (hwidth stored hstored)]
      exact hlt place hplace

/-- A batch decodes column by column when all its columns have names: only a column without
one is decoded under a name that depends on its place. -/
theorem decodesByColumn_of_named {b : Batch} (hnamed : ∀ c ∈ b.header, c.name ≠ "")
    (hwidth : ∀ row ∈ b.rows, row.length = b.header.length) (hmax : b.header.length ≤ maxIndex) :
    b.DecodesByColumn := by
  intro records places c hrecords hne hnodup hlt hselect
  refine records_of_select hrecords hne hwidth hmax hlt hselect ?_
  have hnames := nodup_recordNames_of_decoded (records_eq_ok_iff.1 hrecords).1
  rw [select_eq_ok hlt hmax] at hselect
  cases hselect
  -- The selected columns keep their names, which are different ones of different columns.
  have hnamed' : ∀ c ∈ pick places b.header, c.name ≠ "" := fun c hc => by
    obtain ⟨i, hi, rfl⟩ := List.mem_map.1 hc
    rw [List.getD_eq_getElem _ _ (hlt i hi)]
    exact hnamed _ (List.getElem_mem _)
  have hnames' : (pick places b.header).map (·.name) = places.map fun i => b.names.getD i "" := by
    rw [pick, List.map_map]
    refine List.map_congr_left fun i hi => ?_
    simp [names, List.getD_eq_getElem?_getD, hlt i hi]
  rw [recordNames_of_named hnamed] at hnames
  rw [recordNames_of_named hnamed']
  change ((pick places b.header).map (·.name)).Nodup
  rw [hnames']
  refine hnodup.map_on fun i hi j hj hij => ?_
  have hi' : i < b.names.length := by simpa [names] using hlt i hi
  have hj' : j < b.names.length := by simpa [names] using hlt j hj
  rw [List.getD_eq_getElem _ _ hi', List.getD_eq_getElem _ _ hj'] at hij
  exact hnames.getElem_inj_iff.1 hij

end Batch

/-! ## Iterators -/

namespace RecordIterator

/-- When every record passes the stages at its own position, draining gives what they let
through. -/
theorem drainFrom_eq {width : Nat} {stages : List Stage} {p : Int}
    {records : List (List Value)} (out : Nat → Option Row)
    (hpass : ∀ i (hi : i < records.length),
      pass (some (p + 1 + i)) stages (rowOf width records[i]) = .ok (out i)) :
    (drainFrom width stages .ok (some p) records).1 =
      ((List.range records.length).filterMap fun (i : Nat) =>
        (out i).map fun r => (some (p + 1 + i), r), none) := by
  induction records generalizing p out with
  | nil => rfl
  | cons record records ih =>
      have hfirst : pass (some (p + 1)) stages (rowOf width record) = .ok (out 0) := by
        simpa using hpass 0 (Nat.zero_lt_succ _)
      -- The records behind the first one come one position later.
      have hrest := ih (p := p + 1) (fun i => out (i + 1)) fun i hi => by
        have := hpass (i + 1) (Nat.succ_lt_succ hi)
        rw [List.getElem_cons_succ] at this
        rw [← this]
        congr 2
        omega
      have hshift : ((List.range records.length).filterMap fun (i : Nat) =>
          (out (i + 1)).map fun r => (some (p + 1 + 1 + (i : Int)), r)) =
          ((List.range records.length).map (· + 1)).filterMap fun (i : Nat) =>
            (out i).map fun r => (some (p + 1 + (i : Int)), r) := by
        rw [List.filterMap_map]
        refine List.filterMap_congr fun i _ => ?_
        have hpos : p + 1 + 1 + (i : Int) = p + 1 + ((i + 1 : Nat) : Int) := by omega
        simp only [Function.comp_apply, hpos]
      rw [List.length_cons, List.range_succ_eq_map, List.filterMap_cons]
      rw [drainFrom, show following (some p) = some (p + 1) from rfl, hfirst]
      cases hout : out 0 with
      | none => simp only [hrest, hshift, Option.map_none]
      | some r => simp [hrest, hshift]

/-- Behind records that are drained to the end, draining goes on. -/
theorem drainFrom_append {width : Nat} {stages : List Stage} {p : Int}
    {records more : List (List Value)} {items : List (Option Int × Row)}
    (h : (drainFrom width stages .ok (some p) records).1 = (items, none)) :
    (drainFrom width stages .ok (some p) (records ++ more)).1 =
      (items ++ (drainFrom width stages .ok (some (p + records.length)) more).1.1,
        (drainFrom width stages .ok (some (p + records.length)) more).1.2) := by
  induction records generalizing p items with
  | nil =>
      cases h
      simp
  | cons record records ih =>
      have hbehind : p + ((record :: records).length : Int) = p + 1 + (records.length : Int) := by
        rw [List.length_cons]
        omega
      rw [hbehind, List.cons_append, drainFrom]
      rw [drainFrom] at h
      simp only [show following (some p) = some (p + 1) from rfl] at h ⊢
      cases hpass : pass (some (p + 1)) stages (rowOf width record) with
      | error e => simp [hpass] at h
      | ok out =>
          cases out with
          | none =>
              simp only [hpass] at h ⊢
              exact ih h
          | some r =>
              simp only [hpass, Prod.mk.injEq] at h ⊢
              obtain ⟨rfl, hrest⟩ := h
              simp [ih (Prod.ext rfl hrest)]

/-- Nothing happens to rows that pass no stages. -/
theorem drainFrom_nil (width : Nat) (p : Int) (records : List (List Value)) :
    (drainFrom width [] .ok (some p) records).1 =
      ((List.range records.length).map fun (i : Nat) =>
        (some (p + 1 + i), rowOf width (records.getD i [])), none) := by
  rw [drainFrom_eq fun i => some (rowOf width (records.getD i []))]
  · simp [List.filterMap_eq_map']
  · intro i hi
    rw [List.getD_eq_getElem _ _ hi]
    rfl

/-- Draining comes to the end when the records pass without an error, and none is behind them. -/
theorem drain_eq_iff {it : RecordIterator} {rows : List (Option Int × Row)} :
    (it.drain .ok).1 = (rows, none) ↔
      it.failure = none ∧ (drainFrom it.width it.stages .ok it.position it.pending).1 =
        (rows, none) := by
  obtain ⟨⟨items, failure⟩, last, pending, hfrom⟩ :
      ∃ s : List (Option Int × Row) × Option Error, ∃ last pending,
        drainFrom it.width it.stages .ok it.position it.pending = (s, last, pending) :=
    ⟨_, _, _, rfl⟩
  rw [drain, hfrom]
  cases failure with
  | some e => simp
  | none => simp [and_comm]

theorem drain_eq_error {it : RecordIterator} {items : List (Option Int × Row)}
    {e : Error} (h : (drainFrom it.width it.stages .ok it.position it.pending).1 =
      (items, some e)) : (it.drain .ok).1 = (items, some e) := by
  unfold drain
  revert h
  obtain ⟨⟨found, failure⟩, position, pending⟩ :=
    drainFrom it.width it.stages Except.ok it.position it.pending
  rintro ⟨⟩
  rfl

end RecordIterator

namespace Batch

/-- An iterator without an error behind its records has all records of its batch. -/
theorem records_of_iterate {b : Batch} {start : Option Int} {it : RecordIterator}
    (hiter : b.iterate start = .ok it) (hfailure : it.failure = none) :
    b.records = .ok it.pending := by
  obtain ⟨⟨handed, failure⟩, hblocks, hit⟩ := bind_eq_ok_iff.1 hiter
  cases hit
  cases hfailure
  obtain ⟨decoded, hdecoded, hblocks⟩ := bind_eq_ok_iff.1 hblocks
  split at hblocks
  · rename_i hdated
    cases hblocks
    exact records_eq_ok_iff.2 ⟨hdecoded, hdated⟩
  · cases hblocks

/-- A batch with records has an iterator over all of them. -/
theorem iterate_of_records {b : Batch} {records : List (List Value)} (h : b.records = .ok records)
    (start : Option Int) :
    b.iterate start = .ok ⟨b.header.length, records, none, start.map (· - 1), []⟩ := by
  obtain ⟨hdecoded, hdated⟩ := records_eq_ok_iff.1 h
  rw [iterate, recordBlocks, hdecoded, ok_bind, if_pos hdated]
  rfl

/-- The records of a batch whose iterator comes to its end. -/
theorem records_of_drain_iterate {b : Batch} {start : Int} {it : RecordIterator}
    {rows : List (Option Int × Row)} (hiter : b.iterate (some start) = .ok it)
    (hdrain : (it.drain .ok).1 = (rows, none)) :
    ∃ records, b.records = .ok records ∧
      rows = (List.range records.length).map fun (i : Nat) =>
        (some (start + i), RecordIterator.rowOf b.header.length (records.getD i [])) := by
  obtain ⟨hfailure, hrows⟩ := RecordIterator.drain_eq_iff.1 hdrain
  have hrecords := records_of_iterate hiter hfailure
  obtain ⟨⟨handed, failure⟩, -, hit⟩ := bind_eq_ok_iff.1 hiter
  cases hit
  rw [Option.map_some, RecordIterator.drainFrom_nil, Int.sub_add_cancel, Prod.mk.injEq] at hrows
  exact ⟨handed, hrecords, hrows.1.symm⟩

/-- Every record has a value for each column. -/
theorem length_of_mem_records {b : Batch} {records : List (List Value)}
    (hrecords : b.records = .ok records) (hwidth : ∀ row ∈ b.rows, row.length = b.header.length)
    {record : List Value} (hrecord : record ∈ records) : record.length = b.header.length := by
  have hdecoded := (records_eq_ok_iff.1 hrecords).1
  by_cases hheader : b.header = []
  · rw [decoded, if_pos (nodup_recordNames_of_decoded hdecoded), if_pos (by simp [hheader])]
      at hdecoded
    cases hdecoded
    cases hrecord
  · rw [decoded_eq_ok (nodup_recordNames_of_decoded hdecoded) hheader] at hdecoded
    cases hdecoded
    obtain ⟨row, hrow, rfl⟩ := List.mem_map.1 hrecord
    exact length_recordOf (hwidth row hrow)

end Batch

end MergeOnRead
