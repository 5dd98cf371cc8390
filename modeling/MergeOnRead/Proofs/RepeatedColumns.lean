import MergeOnRead.Proofs.PickedColumns
import MergeOnRead.Proofs.ReadableTask
import Mathlib.Data.List.Perm.Subperm

/-!
# Columns that are asked for more than once

When a reader is asked for fields again, its source is asked for columns again.  Where the batches
of the source agree with those that have every column once (`Batch.Agrees`), the reader gives the
same rows, each with its values for the fields that are asked for (`Repeats.exists_reads`).

Strategy:

* `batchesWithin_reader_iff`: reading a stream to the end is one step for each of its batches, which
  is conformed and then finished;
* `Repeats.finish_picked`: one step gives the rows of the other reader with their columns picked,
  the key columns being dropped from both;
* `Batch.agrees_picked`: a name that two columns have leads to the last column of the batch, so
  batches agree as long as that is the one which is repeated.
-/

namespace MergeOnRead

/-! ## The layers of a reader -/

/-- What the reader of a task does to the batches of a stream. -/
structure Scan.Layers where
  filter : DeleteFilter
  path : String
  names : List (Option String)
  header : List ColumnHeader
  /-- The number of fields that are asked for. -/
  asked : Nat
  /-- The number of fields that are read. -/
  total : Nat

namespace Scan.Layers

variable (l : Layers) (position : Nat) (r : Except Error Batch) (rest : BatchStream)

/-- The layers that count rows, below the others. -/
def counted (stream : BatchStream) : Reader :=
  .tracked position (.reported l.path (.conformed l.names l.header (.stream stream 0)))

/-- The reader that has read some rows, with what the stream has left. -/
def reader (stream : BatchStream) : Reader :=
  keepLeading l.asked l.total (dropDeleted l.filter (l.counted position stream))

/-- What the stream hands out, with the columns that are wanted. -/
def conformed : Except Error Batch :=
  (r >>= fun b => b.conform l.names l.header).mapError (BatchStream.report l.path)

/-- What becomes of a conformed batch whose first row has a position. -/
def finish (c : Batch) (position : Int) : Except Error Batch := do
  let kept ← l.filter.apply c position
  if l.total = l.asked then .ok kept
  else kept.select ((List.range l.asked).map fun (i : Nat) => (i : Int))

theorem readBatch_counted :
    (l.counted position (r :: rest)).readBatch =
      match l.conformed r with
      | .ok c => (.ok (some c), l.counted (position + c.size) rest)
      | .error e => (.error e, l.counted position rest) := by
  cases r with
  | error e => rfl
  | ok b =>
      simp only [counted, conformed, Reader.readBatch, ok_bind, Except.map]
      cases b.conform l.names l.header <;> rfl

theorem readBatch_dropDeleted :
    (dropDeleted l.filter (l.counted position (r :: rest))).readBatch =
      match l.conformed r with
      | .ok c => ((l.filter.apply c position).map some,
          dropDeleted l.filter (l.counted (position + c.size) rest))
      | .error e => (.error e, dropDeleted l.filter (l.counted position rest)) := by
  simp only [dropDeleted]
  cases hdeletes : l.filter.hasDeletes with
  | false =>
      -- A filter that deletes nothing leaves batches as they are.
      simp only [Bool.false_eq_true, if_false, readBatch_counted]
      cases l.conformed r with
      | error e => rfl
      | ok c => simp [DeleteFilter.apply, hdeletes, Except.map]
  | true =>
      simp only [if_true, Reader.readBatch, readBatch_counted]
      cases l.conformed r with
      | error e => rfl
      | ok c =>
          have hstart : ((position + c.size : Nat) : Int) - c.size = position := by omega
          simp only [counted, Reader.batchPosition, ok_bind, hstart]

theorem readBatch_reader :
    (l.reader position (r :: rest)).readBatch =
      match l.conformed r with
      | .ok c => ((l.finish c position).map some, l.reader (position + c.size) rest)
      | .error e => (.error e, l.reader position rest) := by
  have hread := l.readBatch_dropDeleted position r rest
  simp only [reader, keepLeading, finish]
  by_cases hall : l.total = l.asked
  · simp only [if_pos hall]
    refine hread.trans ?_
    cases l.conformed r with
    | error e => rfl
    | ok c => cases hkept : l.filter.apply c position <;> simp [Except.map, hkept]
  · simp only [if_neg hall, Reader.readBatch, hread]
    cases l.conformed r with
    | error e => rfl
    | ok c => cases hkept : l.filter.apply c position <;> simp [Except.map, hkept]

theorem remaining_reader (stream : BatchStream) :
    (l.reader position stream).remaining = stream.length := by
  rw [reader, keepLeading, dropDeleted]
  split <;> split <;> rfl

/-- Reading on from a position gives some batches, and no error. -/
inductive Reads : Nat → BatchStream → List Batch → Prop where
  | done {position : Nat} : Reads position [] []
  | more {position : Nat} {b c d : Batch} {rest : BatchStream} {ds : List Batch} :
      b.conform l.names l.header = .ok c → l.finish c position = .ok d →
        Reads (position + c.size) rest ds → Reads position (.ok b :: rest) (d :: ds)

variable {l position}

theorem conformed_eq_ok_iff {c : Batch} :
    l.conformed r = .ok c ↔ ∃ b, r = .ok b ∧ b.conform l.names l.header = .ok c := by
  rw [conformed, mapError_eq_ok_iff, bind_eq_ok_iff]

theorem batchesWithin_reader_iff {stream : BatchStream} {ds : List Batch} :
    (l.reader position stream).batchesWithin stream.length = (ds, none) ↔
      l.Reads position stream ds := by
  induction stream generalizing position ds with
  | nil =>
      constructor
      · intro h
        cases h
        exact .done
      · intro h
        cases h
        rfl
  | cons r rest ih =>
      rw [List.length_cons, Reader.batchesWithin, readBatch_reader]
      cases hc : l.conformed r with
      | error e =>
          -- A batch that cannot be conformed ends the reading with an error.
          constructor
          · exact fun h => by cases h
          · intro h
            cases h with
            | more hconform hfinish hrest =>
                rw [(conformed_eq_ok_iff _).2 ⟨_, rfl, hconform⟩] at hc
                cases hc
      | ok c =>
          obtain ⟨b, rfl, hconform⟩ := (conformed_eq_ok_iff _).1 hc
          cases hd : l.finish c position with
          | error e =>
              simp only [hd, Except.map]
              constructor
              · exact fun h => by cases h
              · intro h
                cases h with
                | more hconform' hfinish hrest =>
                    cases hconform.symm.trans hconform'
                    rw [hd] at hfinish
                    cases hfinish
          | ok d =>
              simp only [hd, Except.map]
              constructor
              · intro h
                cases hmore : (l.reader (position + c.size) rest).batchesWithin rest.length with
                | mk more failure =>
                    rw [hmore] at h
                    cases h
                    exact .more hconform hd (ih.1 hmore)
              · intro h
                cases h with
                | more hconform' hfinish hrest =>
                    cases hconform.symm.trans hconform'
                    cases hd.symm.trans hfinish
                    rw [ih.2 hrest]

/-! ## Reading fields again -/

/-- Some layers read the fields that others read once, perhaps more than once, and behind them the
same hidden ones. -/
structure Repeats (l m : Layers) (once again hidden fileFields : List Field)
    (columns : List String) : Prop where
  sub : ∀ f ∈ again, f ∈ once
  sup : ∀ f ∈ once, f ∈ again
  ids : ((once ++ hidden).map (·.id)).Nodup
  distinct : ((once ++ hidden).map (·.name)).Nodup
  named : ∀ f ∈ once ++ hidden, f.name ≠ ""
  addressable : (again ++ hidden).length ≤ maxIndex
  asked : l.asked = once.length ∧ m.asked = again.length
  total : l.total = (once ++ hidden).length ∧ m.total = (again ++ hidden).length
  names : l.names = Field.physicalNames fileFields (once ++ hidden) ∧
    m.names = Field.physicalNames fileFields (again ++ hidden)
  header : Field.headers (once ++ hidden) = .ok l.header ∧
    Field.headers (again ++ hidden) = .ok m.header
  filter : DeleteFilter.Follows ((again ++ hidden).map (once ++ hidden).idxOf) l.filter m.filter
  found : ∀ f ∈ again ++ hidden, ∀ name ∈ Field.nameOf? fileFields f.id, name ∈ columns

namespace Repeats

variable {m : Layers} {once again hidden fileFields : List Field} {columns : List String}
  (h : Repeats l m once again hidden fileFields columns)
include h

theorem mem_all {f : Field} (hf : f ∈ again ++ hidden) : f ∈ once ++ hidden := by
  rcases List.mem_append.1 hf with hf | hf
  · exact List.mem_append_left _ (h.sub f hf)
  · exact List.mem_append_right _ hf

/-- The fields that are asked for are found among themselves. -/
theorem places_eq : (again ++ hidden).map (once ++ hidden).idxOf =
    again.map once.idxOf ++ hidden.map (once ++ hidden).idxOf := by
  rw [List.map_append]
  refine congrArg (· ++ _) (List.map_congr_left fun f hf => ?_)
  exact List.idxOf_append_of_mem (h.sub f hf)

theorem eq_nil_of_eq_nil (hnil : again ++ hidden = []) : once ++ hidden = [] := by
  obtain ⟨rfl, rfl⟩ := List.append_eq_nil_iff.1 hnil
  rw [List.append_nil, List.eq_nil_iff_forall_not_mem]
  intro f hf
  cases h.sup f hf

theorem length_once_le : once.length ≤ again.length := by
  have hids := h.ids
  rw [List.map_append] at hids
  have hnodup : once.Nodup := .of_map _ hids.of_append_left
  exact (List.subperm_of_subset hnodup h.sup).length_le

/-- The places of columns exist. -/
theorem lt_of_mem_places {p : Nat} (hp : p ∈ (again ++ hidden).map (once ++ hidden).idxOf) :
    p < l.header.length := by
  obtain ⟨f, hf, rfl⟩ := List.mem_map.1 hp
  rw [← (Field.headers_eq_ok h.header.1).length_eq]
  exact List.idxOf_lt_length_of_mem (h.mem_all hf)

theorem length_header_le : l.header.length ≤ maxIndex := by
  have := h.length_once_le
  have := h.addressable
  rw [← (Field.headers_eq_ok h.header.1).length_eq]
  simp only [List.length_append] at *
  omega

/-- The leading values of a row are those of the leading values of the other one. -/
theorem pick_leading (row : List Value) :
    Batch.pick (List.range again.length)
        (Batch.pick ((again ++ hidden).map (once ++ hidden).idxOf) row) =
      Batch.pick (again.map once.idxOf) (Batch.pick (List.range once.length) row) := by
  have hlt : ∀ i ∈ again.map once.idxOf, i < once.length := by
    intro i hi
    obtain ⟨f, hf, rfl⟩ := List.mem_map.1 hi
    exact List.idxOf_lt_length_of_mem (h.sub f hf)
  have hleading : Batch.pick (List.range again.length)
      ((again ++ hidden).map (once ++ hidden).idxOf) = again.map once.idxOf := by
    rw [Batch.pick_range (by simp), h.places_eq, List.take_left' (List.length_map ..)]
  rw [Batch.pick_pick (by simp; omega), hleading, Batch.pick_pick (by simpa using hlt),
    Batch.pick_of_range hlt]

/-- Filtering keeps alike what was picked. -/
theorem apply_picked {c kept : Batch} (hheader : c.header = l.header)
    (hwidth : ∀ row ∈ c.rows, row.length = l.header.length)
    (hkept : l.filter.apply c position = .ok kept) :
    kept.header = l.header ∧
      m.filter.apply (c.picked ((again ++ hidden).map (once ++ hidden).idxOf)) position =
        .ok (kept.picked ((again ++ hidden).map (once ++ hidden).idxOf)) := by
  have hforall := Field.headers_eq_ok h.header.1
  have hnames : c.names = (once ++ hidden).map (·.name) := by
    rw [Batch.names, hheader, ← List.forall₂_eq_eq_eq, List.forall₂_map_left_iff,
      List.forall₂_map_right_iff]
    exact hforall.flip.imp fun _ _ hname => hname.1
  have hnamed : ∀ head ∈ c.header, head.name ≠ "" := by
    intro head hhead
    obtain ⟨f, hf, hname, -⟩ := exists_mem_of_forall₂ hforall (hheader ▸ hhead)
    exact hname ▸ h.named f hf
  have hshort := h.length_header_le
  rw [← hheader] at hwidth hshort ⊢
  exact h.filter.apply_picked (hnames ▸ h.distinct) hnamed hwidth
    (by rw [List.length_map]; exact h.addressable) hshort
    (fun p hp => hheader ▸ h.lt_of_mem_places hp) hkept

/-- The leading columns are alike as well. -/
theorem finish_picked {c d : Batch} (hheader : c.header = l.header)
    (hwidth : ∀ row ∈ c.rows, row.length = l.header.length)
    (hfinish : l.finish c position = .ok d) :
    ∃ e, m.finish (c.picked ((again ++ hidden).map (once ++ hidden).idxOf)) position = .ok e ∧
      e.rows = d.rows.map (Batch.pick (again.map once.idxOf)) := by
  obtain ⟨kept, hkept, hfinish⟩ := bind_eq_ok_iff.1 hfinish
  obtain ⟨hsame, hkept'⟩ := h.apply_picked hheader hwidth hkept
  rw [finish, hkept', ok_bind, h.total.2, h.asked.2]
  rw [h.total.1, h.asked.1] at hfinish
  have hplaces := h.places_eq
  by_cases hnone : hidden = []
  · -- All fields are asked for.
    subst hnone
    simp only [List.append_nil, if_true, Except.ok.injEq] at hfinish hplaces ⊢
    subst hfinish
    exact ⟨_, rfl, rfl⟩
  · -- Hidden fields are projected away.
    have hmore : ∀ {xs : List Field}, ¬(xs ++ hidden).length = xs.length := by
      intro xs
      have := List.length_pos_iff.2 hnone
      rw [List.length_append]
      omega
    rw [if_neg hmore] at hfinish ⊢
    have hselect : ∀ n ∈ List.range once.length, n < kept.header.length := by
      intro n hn
      rw [List.mem_range] at hn
      rw [hsame, ← (Field.headers_eq_ok h.header.1).length_eq, List.length_append]
      omega
    have hselect' : ∀ n ∈ List.range again.length,
        n < (kept.picked ((again ++ hidden).map (once ++ hidden).idxOf)).header.length := by
      intro n hn
      rw [List.mem_range] at hn
      rw [Batch.picked, Batch.pick, List.length_map, List.length_map, List.length_append]
      omega
    have hshort : (kept.picked ((again ++ hidden).map (once ++ hidden).idxOf)).header.length ≤
        maxIndex := by
      rw [Batch.picked, Batch.pick, List.length_map, List.length_map]
      exact h.addressable
    rw [Batch.select_eq_ok hselect (hsame ▸ h.length_header_le)] at hfinish
    rw [Batch.select_eq_ok hselect' hshort]
    cases hfinish
    refine ⟨_, rfl, ?_⟩
    simp only [Batch.picked, List.map_map]
    exact List.map_congr_left fun row _ => h.pick_leading row

/-- Reading on, both give the same rows, with the same values for every field. -/
theorem exists_reads {position : Nat} {stream stream' : BatchStream} {ds : List Batch}
    (hstream : List.Forall₂ (fun r r' => ∀ b, r = .ok b → ∃ c, r' = .ok c ∧ b.Agrees columns c)
      stream stream') (hreads : l.Reads position stream ds) :
    ∃ es, m.Reads position stream' es ∧
      es.flatMap (·.rows) = (ds.flatMap (·.rows)).map (Batch.pick (again.map once.idxOf)) := by
  induction hreads generalizing stream' with
  | done =>
      cases hstream
      exact ⟨[], .done, rfl⟩
  | @more position b c d rest ds hconform hfinish hrest ih =>
      obtain ⟨r', rest', hr', hrest', rfl⟩ := List.forall₂_cons_left_iff.1 hstream
      obtain ⟨b', rfl, hagrees⟩ := hr' b rfl
      rw [h.names.1] at hconform
      obtain ⟨hheader, hwidth⟩ := Batch.width_of_conform h.header.1 hconform
      have hpicked := Batch.conform_picked hagrees h.header.1 (fun f hf => h.mem_all hf)
        h.eq_nil_of_eq_nil h.found hconform
      have hheader' :
          m.header = Batch.pick ((again ++ hidden).map (once ++ hidden).idxOf) l.header :=
        Except.ok.inj (h.header.2.symm.trans
          (Field.headers_pick h.header.1 fun f hf => h.mem_all hf))
      rw [← hheader', ← h.names.2] at hpicked
      obtain ⟨e, he, hrows⟩ := h.finish_picked hheader hwidth hfinish
      obtain ⟨es, hes, hmore⟩ := ih hrest'
      refine ⟨e :: es, .more hpicked he (by rwa [Batch.size_picked]), ?_⟩
      rw [List.flatMap_cons, List.flatMap_cons, List.map_append, hrows, hmore]

end Repeats

end Scan.Layers

/-! ## Opening columns again -/

/-- Of the columns, only the last one is there more than once. -/
def LastRepeated (columns : List String) : Prop :=
  ∀ name, 1 < columns.count name → columns.getLast? = some name

/-- A source that is asked for columns more than once hands them out as often. -/
def RowSource.Repeats (source : RowSource) (path format : String) (columns : List String) : Prop :=
  ∀ stream, source path format columns.eraseDups = .ok stream →
    ∃ stream', source path format columns = .ok stream' ∧
      List.Forall₂ (fun r r' => ∀ b, r = .ok b → b.names = columns.eraseDups ∧
        r' = .ok (b.picked (columns.map columns.eraseDups.idxOf))) stream stream'

namespace Batch

variable {b c : Batch} {columns : List String} {name : String}

/-- A name that is there more than once is taken for that of the last column. -/
theorem resolveIndex?_of_repeated (hb : b.names = columns) (hmore : 1 < columns.count name) :
    b.resolveIndex? (b.indexOf name) = some (columns.length - 1) := by
  subst hb
  have hlength : b.header.length = b.names.length := (List.length_map ..).symm
  have hle : b.names.count name ≤ b.names.length := List.count_le_length
  rw [indexOf, if_neg (by omega), resolveIndex?]
  simp only [hlength]
  rw [if_neg (by omega), if_pos (by omega)]
  congr 1
  omega

/-- A name leads to a column of this name, also where the last column is there more than once. -/
theorem exists_resolveIndex? (hb : b.names = columns) (hlast : LastRepeated columns)
    (hname : name ∈ columns) :
    ∃ q, ∃ hq : q < columns.length, columns[q] = name ∧
      b.resolveIndex? (b.indexOf name) = some q := by
  have hlt : columns.idxOf name < columns.length := List.idxOf_lt_length_of_mem hname
  by_cases hone : columns.count name = 1
  · refine ⟨columns.idxOf name, hlt, List.getElem_idxOf hlt, ?_⟩
    have hlength : b.header.length = columns.length := by rw [← hb, names, List.length_map]
    rw [indexOf, hb, if_pos hone, resolveIndex?]
    simp [hlength, hlt]
  · have hmore : 1 < columns.count name := by
      have := List.count_pos_iff.2 hname
      omega
    have hfinal := hlast name hmore
    rw [List.getLast?_eq_getElem?, List.getElem?_eq_some_iff] at hfinal
    obtain ⟨hq, hq'⟩ := hfinal
    exact ⟨columns.length - 1, hq, hq', resolveIndex?_of_repeated hb hmore⟩

theorem convertHeld_picked {places : List Nat} {q : Nat} (hq : q < places.length)
    (type : ColumnType) :
    (b.picked places).convertHeld q type = b.convertHeld places[q] type := by
  have hvalues : ∀ rows : List (List Value),
      ((rows.map (pick places)).map fun row => row.getD q .null) =
        rows.map fun row => row.getD places[q] .null := by
    intro rows
    rw [List.map_map]
    exact List.map_congr_left fun row _ => getD_pick_of_lt hq _
  simp only [convertHeld, picked, getD_pick_of_lt hq, ← List.map_append, ← apply_ite (List.map _),
    hvalues]

theorem names_picked (hb : b.names = columns.eraseDups) :
    (b.picked (columns.map columns.eraseDups.idxOf)).names = columns := by
  have hmem : ∀ name ∈ columns, name ∈ columns.eraseDups := fun name => List.mem_eraseDups.2
  have hplaces : ∀ p ∈ columns.map columns.eraseDups.idxOf, p < b.header.length := by
    intro p hp
    obtain ⟨name, hname, rfl⟩ := List.mem_map.1 hp
    have hlength : b.header.length = columns.eraseDups.length := by
      rw [← hb, names, List.length_map]
    exact hlength ▸ List.idxOf_lt_length_of_mem (hmem name hname)
  have hpicked : (b.picked (columns.map columns.eraseDups.idxOf)).names =
      pick (columns.map columns.eraseDups.idxOf) b.names := (pick_map hplaces).symm
  rw [hpicked, hb, pick_idxOf hmem]

/-- A batch in which the last column is repeated agrees with the one that has it once. -/
theorem agrees_picked (hb : b.names = columns.eraseDups) (hlast : LastRepeated columns) :
    Agrees columns b (b.picked (columns.map columns.eraseDups.idxOf)) := by
  refine ⟨size_picked, fun name hname type => ?_⟩
  obtain ⟨q, hq, hqname, hresolve⟩ := exists_resolveIndex? (names_picked hb) hlast hname
  have hq' : q < (columns.map columns.eraseDups.idxOf).length := by rwa [List.length_map]
  have hnodup : b.names.Nodup := hb ▸ nodup_eraseDups columns
  have hmem : name ∈ b.names := hb ▸ List.mem_eraseDups.2 hname
  simp only [conformColumn, hresolve, resolveIndex?_indexOf hnodup hmem, convertHeld_picked hq',
    List.getElem_map, hqname, hb, size_picked]

end Batch

end MergeOnRead
