import MergeOnRead.Log.Ingestion
import MergeOnRead.Proofs.Results
import Mathlib.Data.List.Induction
import Mathlib.Data.List.Nodup
import Mathlib.Data.List.Pairwise

/-!
# The snapshots of a log are its commits

However the steps of file changes and the commits of schemas come one after the other, the
snapshots are numbered from 1 on, each follows the one before it, and has its files and behind
them those of the one change that was committed with its number (`TableLog.IsLogOf`).
`isLogOf_commits` says so of every state that a table can come to.

Strategy:

* `step_cases` says what a step can do: nothing that concerns the log, or it adds a schema, or it
  adds the snapshot of a change that was not committed before;
* `Written` relates the snapshots to the commits, both from the latest one back, and
  `Written.exists_follows` finds the snapshot with a number in them;
* `Sound` is the invariant, with one lemma for each case of a step (`Sound.of_same_log`,
  `Sound.addSchema`, `Sound.addSnapshot`), and `sound_commits` is the induction over the steps.
-/

namespace MergeOnRead

namespace TableLog

/-- The data files of the snapshot with a number; before the first one there are none. -/
def dataFilesAt (log : TableLog) (id : Int) : List DataFile :=
  match log.snapshot id with
  | .ok s => s.dataFiles
  | .error _ => []

/-- The delete files of the snapshot with a number. -/
def deleteFilesAt (log : TableLog) (id : Int) : List DeleteFile :=
  match log.snapshot id with
  | .ok s => s.deleteFiles
  | .error _ => []

/-- The snapshot with a number is what a commit added to the one before it. -/
structure Records (log : TableLog) (k : Nat) (c : FileCommit) (s : Snapshot) : Prop where
  found : log.snapshot k = .ok s
  id : s.id = k
  sequence : s.sequence = k
  kind : s.kind = c.change.kind
  parent : s.parentId = if k = 1 then none else some ((k : Int) - 1)
  schema : log.schemaById s.schemaId = .ok c.schema
  data : s.dataFiles = log.dataFilesAt (k - 1) ++ c.change.data.map (·.committed k k)
  deletes : s.deleteFiles = log.deleteFilesAt (k - 1) ++ c.change.deletes.map (·.committed k k)
  resolves : ∀ f ∈ s.dataFiles, ∃ t, log.schemaById f.schemaId = .ok t

end TableLog

/-! ## What a step can do -/

/-- A change that is committed was not committed before, and the log does not refuse it. -/
theorem FileChange.commit_eq_ok {c d : FileChange} {log log' : TableLog} {s : Snapshot}
    (h : c.commit log = .ok (s, d, log')) :
    c.committed = none ∧ log.refusal? c.data c.deletes = none ∧
      s = log.nextSnapshot c.kind c.data c.deletes ∧ d = { c with committed := some s } ∧
      log' = { log with snapshots := s :: log.snapshots } := by
  rw [commit] at h
  split at h
  · cases h
  · rename_i hopen
    obtain ⟨⟨s', log''⟩, hcommit, h⟩ := bind_eq_ok_iff.1 h
    cases h
    rw [TableLog.commitFiles] at hcommit
    split at hcommit
    · cases hcommit
    · rename_i haccepted
      cases hcommit
      exact ⟨hopen, haccepted, rfl, rfl, rfl⟩

/-- Every key field of a delete file is in a schema. -/
def DeleteFile.KeyedBy (f : DeleteFile) (schema : TableSchema) : Prop :=
  ∀ id ∈ f.fieldIds, (schema.findField? id).isSome

/-- A log accepts data files of schemas in it, and delete files with key fields of the current
schema. -/
theorem TableLog.refusal?_eq_none_iff {log : TableLog} {data : List DataFile}
    {deletes : List DeleteFile} :
    log.refusal? data deletes = none ↔
      (∀ f ∈ data, log.hasSchema f.schemaId = true) ∧ ∀ f ∈ deletes, f.KeyedBy log.schema := by
  have hdata : (data.find? fun f => !log.hasSchema f.schemaId) = none ↔
      ∀ f ∈ data, log.hasSchema f.schemaId = true := by
    simp [List.find?_eq_none]
  rw [refusal?, ← hdata]
  cases data.find? fun f => !log.hasSchema f.schemaId with
  | some f => simp
  | none => simp [DeleteFile.KeyedBy, Option.isSome_iff_ne_none]

namespace Ingestion

variable {w : Ingestion} {e : FileStep}

/-- The change with a number has been committed. -/
def isCommitted (w : Ingestion) (number : Nat) : Bool :=
  ((w.changes[number]?).bind (·.committed)).isSome

theorem isCommitted_append (log : TableLog) (changes : List FileChange) {c : FileChange}
    (hc : c.committed = none) (n : Nat) :
    isCommitted ⟨log, changes ++ [c]⟩ n = isCommitted ⟨log, changes⟩ n := by
  simp only [isCommitted]
  rcases Nat.lt_trichotomy n changes.length with hn | rfl | hn
  · rw [List.getElem?_append_left hn]
  · simp [hc]
  · rw [List.getElem?_eq_none (by simp; omega), List.getElem?_eq_none (by omega)]

theorem isCommitted_modify (log : TableLog) (changes : List FileChange) (number : Nat)
    {f : FileChange → FileChange} (hf : ∀ c, (f c).committed = c.committed) (n : Nat) :
    isCommitted ⟨log, changes.modify number f⟩ n = isCommitted ⟨log, changes⟩ n := by
  simp only [isCommitted, List.getElem?_modify]
  cases changes[n]? with
  | none => rfl
  | some c =>
      by_cases hn : number = n
      · simp [hn, hf]
      · simp [hn]

/-- A step leaves the log and the committed changes as they are, or adds a schema, or commits a
change. -/
theorem step_cases (w : Ingestion) (e : FileStep) :
    (w.commit? e = none ∧ (w.step e).log = w.log ∧
        ∀ n, (w.step e).isCommitted n = w.isCommitted n) ∨
      (∃ schema, schema.id = w.log.schema.id + 1 ∧ w.commit? e = none ∧
        w.step e = { w with log := { w.log with schema, olderSchemas := w.log.schemas } }) ∨
      ∃ number c s, w.changes[number]? = some c ∧ c.committed = none ∧
        w.log.refusal? c.data c.deletes = none ∧
        s = w.log.nextSnapshot c.kind c.data c.deletes ∧
        w.commit? e = some ⟨number, c, w.log.schema⟩ ∧
        w.step e = ⟨{ w.log with snapshots := s :: w.log.snapshots },
          w.changes.set number { c with committed := some s }⟩ := by
  cases e with
  | begin kind => exact .inl ⟨rfl, rfl, isCommitted_append w.log w.changes rfl⟩
  | addData number file =>
      exact .inl ⟨rfl, rfl, isCommitted_modify w.log w.changes number fun _ => rfl⟩
  | addDeletes number file =>
      exact .inl ⟨rfl, rfl, isCommitted_modify w.log w.changes number fun _ => rfl⟩
  | commit number =>
      cases hchange : w.changes[number]? with
      | none => exact .inl (by simp [commit?, step, hchange])
      | some c =>
          cases hcommit : c.commit w.log with
          | error err => exact .inl (by simp [commit?, step, hchange, hcommit])
          | ok result =>
              obtain ⟨s, d, log⟩ := result
              obtain ⟨hopen, haccepted, hs, rfl, rfl⟩ := FileChange.commit_eq_ok hcommit
              refine .inr (.inr ⟨number, c, s, hchange, hopen, haccepted, hs, ?_, ?_⟩)
              · simp [commit?, hchange, hcommit]
              · simp [step, hchange, hcommit]
  | commitSchema schema =>
      by_cases hnext : schema.id = w.log.schema.id + 1
      · exact .inr (.inl ⟨schema, hnext, rfl, by simp [step, TableLog.commitSchema, hnext]⟩)
      · exact .inl (by simp [commit?, step, TableLog.commitSchema, hnext])

end Ingestion

/-! ## Snapshots and commits, from the latest one back -/

/-- A snapshot is what a commit adds to the one before it. -/
structure Snapshot.Follows (s : Snapshot) (parent? : Option Snapshot) (k : Nat) (c : FileCommit) :
    Prop where
  id : s.id = k
  sequence : s.sequence = k
  schemaId : s.schemaId = c.schema.id
  kind : s.kind = c.change.kind
  parent : s.parentId = parent?.map (·.id)
  data : s.dataFiles =
    (parent?.map (·.dataFiles)).getD [] ++ c.change.data.map (·.committed k k)
  deletes : s.deleteFiles =
    (parent?.map (·.deleteFiles)).getD [] ++ c.change.deletes.map (·.committed k k)

/-- Snapshots are what commits have added to no snapshot, the latest one first in both lists. -/
inductive Written : List Snapshot → List FileCommit → Prop where
  | nil : Written [] []
  | cons {ss cs s c} (before : Written ss cs) (follows : s.Follows ss.head? (cs.length + 1) c) :
      Written (s :: ss) (c :: cs)

namespace Written

variable {ss : List Snapshot} {cs : List FileCommit}

theorem map_id (h : Written ss cs) :
    ss.reverse.map (·.id) = (List.range' 1 cs.length).map fun k : Nat => (k : Int) := by
  induction h with
  | nil => rfl
  | cons before follows ih =>
      rw [List.reverse_cons, List.map_append, ih, List.length_cons, List.range'_concat]
      simp [follows.id, Nat.add_comm]

/-- The latest snapshot has the number of commits. -/
theorem head?_cases (h : Written ss cs) :
    (ss.head? = none ∧ cs = []) ∨
      ∃ s, ss.head? = some s ∧ s.id = cs.length ∧ s.sequence = cs.length := by
  cases h with
  | nil => exact .inl ⟨rfl, rfl⟩
  | cons before follows => exact .inr ⟨_, rfl, follows.id, follows.sequence⟩

theorem find?_length (h : Written ss cs) :
    (ss.find? fun s => s.id == (cs.length : Int)) = ss.head? := by
  cases h with
  | nil => rfl
  | cons before follows => simp [follows.id]

/-- A snapshot has the number of a commit. -/
theorem exists_id_eq (h : Written ss cs) {s : Snapshot} (hs : s ∈ ss) :
    ∃ k < cs.length, s.id = ((k + 1 : Nat) : Int) := by
  have hid : s.id ∈ ss.reverse.map (·.id) := List.mem_map_of_mem (List.mem_reverse.2 hs)
  rw [h.map_id, List.mem_map] at hid
  obtain ⟨n, hn, hid⟩ := hid
  have hn := List.mem_range'_1.1 hn
  exact ⟨n - 1, by omega, by omega⟩

theorem find?_zero (h : Written ss cs) : (ss.find? fun s => s.id == 0) = none := by
  rw [List.find?_eq_none]
  intro s hs
  obtain ⟨k, -, hid⟩ := h.exists_id_eq hs
  simp only [beq_iff_eq, hid]
  omega

/-- The snapshot of a commit is found by its number, and so is the one it follows. -/
theorem exists_follows (h : Written ss cs) {k : Nat} {c : FileCommit}
    (hc : cs.reverse[k]? = some c) :
    ∃ s, (ss.find? fun s => s.id == ((k + 1 : Nat) : Int)) = some s ∧
      s.Follows (ss.find? fun s => s.id == (k : Int)) (k + 1) c := by
  induction h generalizing k c with
  | nil => simp at hc
  | @cons ss cs s d before follows ih =>
      -- The numbers up to `k + 1` are found behind the latest snapshot, unless it has the last one.
      have hskip : ∀ j : Nat, j ≤ cs.length →
          ((s :: ss).find? fun s => s.id == (j : Int)) = ss.find? fun s => s.id == (j : Int) := by
        intro j hj
        have hne : s.id ≠ (j : Int) := by
          rw [follows.id]
          omega
        exact List.find?_cons_of_neg (by simpa using hne)
      rw [List.reverse_cons] at hc
      rcases Nat.lt_trichotomy k cs.length with hk | rfl | hk
      · rw [List.getElem?_append_left (by simpa using hk)] at hc
        rw [hskip k (Nat.le_of_lt hk), hskip (k + 1) hk]
        exact ih hc
      · obtain rfl : d = c := by simpa using hc
        refine ⟨s, List.find?_cons_of_pos (by simp [follows.id]), ?_⟩
        rw [hskip _ (Nat.le_refl _), before.find?_length]
        exact follows
      · rw [List.getElem?_eq_none (by simp; omega)] at hc
        cases hc

/-- The snapshot that a snapshot follows has the number before. -/
theorem find?_map_id (h : Written ss cs) {k : Nat} (hk : k ≤ cs.length) :
    (ss.find? fun s => s.id == (k : Int)).map (·.id) = if k = 0 then none else some (k : Int) := by
  cases k with
  | zero => simpa using h.find?_zero
  | succ k =>
      have hlt : k < cs.reverse.length := by rwa [List.length_reverse]
      obtain ⟨s, hfind, hfollows⟩ := h.exists_follows (List.getElem?_eq_getElem hlt)
      rw [hfind, Option.map_some, hfollows.id, if_neg (Nat.succ_ne_zero k)]

end Written

/-- The next snapshot follows the latest one. -/
theorem TableLog.follows_nextSnapshot {log : TableLog} {cs : List FileCommit}
    (h : Written log.snapshots cs) (number : Nat) (c : FileChange) :
    (log.nextSnapshot c.kind c.data c.deletes).Follows log.snapshots.head? (cs.length + 1)
      ⟨number, c, log.schema⟩ := by
  have hcurrent : log.current? = log.snapshots.head? := rfl
  obtain ⟨hnone, rfl⟩ | ⟨s, hsome, hid, hsequence⟩ := h.head?_cases
  · constructor <;> simp [nextSnapshot, hcurrent, hnone]
  · constructor <;> simp [nextSnapshot, hcurrent, hsome, hid, hsequence]

/-! ## The invariant -/

namespace TableLog

variable {log : TableLog}

/-- Schemas that are numbered differently are found by their numbers. -/
theorem schemaById_of_mem (h : log.schemas.Pairwise fun s t => t.id < s.id) {t : TableSchema}
    (ht : t ∈ log.schemas) : log.schemaById t.id = .ok t := by
  have hnodup : (log.schemas.map (·.id)).Nodup :=
    List.pairwise_map.2 (h.imp fun hlt => Int.ne_of_gt hlt)
  rw [schemaById]
  cases hfind : log.schemas.find? fun s => s.id == t.id with
  | none => exact absurd (List.find?_eq_none.1 hfind t ht) (by simp)
  | some s =>
      have hid : s.id = t.id := by simpa using List.find?_some hfind
      rw [List.inj_on_of_nodup_map hnodup (List.mem_of_find?_eq_some hfind) ht hid]

theorem exists_schemaById_iff {id : Int} :
    (∃ t, log.schemaById id = .ok t) ↔ log.hasSchema id = true := by
  rw [hasSchema, ← List.isSome_find?, schemaById]
  cases log.schemas.find? fun s => s.id == id <;> simp

/-- A schema that is added has the highest number. -/
theorem pairwise_schemas_addSchema (h : log.schemas.Pairwise fun s t => t.id < s.id)
    {schema : TableSchema} (hnext : schema.id = log.schema.id + 1) :
    (schema :: log.schemas).Pairwise fun s t => t.id < s.id := by
  refine List.pairwise_cons.2 ⟨fun t ht => ?_, h⟩
  rcases List.mem_cons.1 ht with rfl | ht
  · omega
  · have := (List.pairwise_cons.1 h).1 t ht
    omega

end TableLog

namespace Ingestion

variable {w : Ingestion} {cs : List FileCommit}

/-- The snapshots are what the commits have written, and what they refer to is there. -/
structure Sound (w : Ingestion) (cs : List FileCommit) : Prop where
  written : Written w.log.snapshots cs.reverse
  numbered : w.log.schemas.Pairwise fun s t => t.id < s.id
  schemas : ∀ c ∈ cs, c.schema ∈ w.log.schemas
  resolves : ∀ s ∈ w.log.snapshots, ∀ f ∈ s.dataFiles, w.log.hasSchema f.schemaId = true
  once : (cs.map (·.number)).Nodup
  committed : ∀ n, w.isCommitted n = true ↔ n ∈ cs.map (·.number)

theorem sound_start (schema : TableSchema) : (start schema).Sound [] where
  written := .nil
  numbered := List.pairwise_singleton ..
  schemas c hc := by cases hc
  resolves s hs := by cases hs
  once := List.nodup_nil
  committed n := by simp [isCommitted, start]

theorem Sound.of_same_log (hw : w.Sound cs) {w' : Ingestion} (hlog : w'.log = w.log)
    (hcommitted : ∀ n, w'.isCommitted n = w.isCommitted n) : w'.Sound cs := by
  obtain ⟨hwritten, hnumbered, hschemas, hresolves, honce, hdone⟩ := hw
  rw [← hlog] at hwritten hnumbered hschemas hresolves
  exact ⟨hwritten, hnumbered, hschemas, hresolves, honce, fun n => by rw [hcommitted, hdone]⟩

theorem Sound.addSchema (hw : w.Sound cs) {schema : TableSchema}
    (hnext : schema.id = w.log.schema.id + 1) :
    Sound { w with log := { w.log with schema, olderSchemas := w.log.schemas } } cs where
  written := hw.written
  numbered := TableLog.pairwise_schemas_addSchema hw.numbered hnext
  schemas c hc := List.mem_cons_of_mem _ (hw.schemas c hc)
  resolves s hs f hf := by
    obtain ⟨t, ht, hid⟩ := List.any_eq_true.1 (hw.resolves s hs f hf)
    exact List.any_eq_true.2 ⟨t, List.mem_cons_of_mem _ ht, hid⟩
  once := hw.once
  committed := hw.committed

/-- The files of the next snapshot have schemas when those that are added have. -/
theorem Sound.resolves_nextSnapshot (hw : w.Sound cs) {c : FileChange}
    (haccepted : w.log.refusal? c.data c.deletes = none) :
    ∀ f ∈ (w.log.nextSnapshot c.kind c.data c.deletes).dataFiles,
      w.log.hasSchema f.schemaId = true := by
  intro f hf
  rcases List.mem_append.1 hf with hf | hf
  · -- A file of the latest snapshot.
    cases hcurrent : w.log.current? with
    | none => simp [hcurrent] at hf
    | some s =>
        rw [hcurrent] at hf
        exact hw.resolves s (List.mem_of_head? hcurrent) f hf
  · obtain ⟨g, hg, rfl⟩ := List.mem_map.1 hf
    exact (TableLog.refusal?_eq_none_iff.1 haccepted).1 g hg

theorem Sound.addSnapshot (hw : w.Sound cs) {number : Nat} {c : FileChange} {s : Snapshot}
    (hchange : w.changes[number]? = some c) (hopen : c.committed = none)
    (haccepted : w.log.refusal? c.data c.deletes = none)
    (hs : s = w.log.nextSnapshot c.kind c.data c.deletes) :
    Sound ⟨{ w.log with snapshots := s :: w.log.snapshots },
      w.changes.set number { c with committed := some s }⟩
      (cs ++ [⟨number, c, w.log.schema⟩]) where
  written := by
    rw [List.reverse_append, hs]
    exact .cons hw.written (TableLog.follows_nextSnapshot hw.written number c)
  numbered := hw.numbered
  schemas d hd := by
    rcases List.mem_append.1 hd with hd | hd
    · exact hw.schemas d hd
    · rw [List.mem_singleton.1 hd]
      exact List.mem_cons_self ..
  resolves t ht := by
    rcases List.mem_cons.1 ht with rfl | ht
    · rw [hs]
      exact hw.resolves_nextSnapshot haccepted
    · exact hw.resolves t ht
  once := by
    have hnew : number ∉ cs.map (·.number) := by
      rw [← hw.committed, isCommitted, hchange]
      simp [hopen]
    rw [List.map_append]
    exact List.nodup_append.2 ⟨hw.once, List.nodup_singleton _, by
      rintro n hn m hm rfl
      exact hnew (by simpa [List.mem_singleton.1 hm] using hn)⟩
  committed n := by
    rw [List.map_append, List.mem_append, ← hw.committed]
    by_cases hn : n = number
    · subst hn
      have hlt : n < w.changes.length := (List.getElem?_eq_some_iff.1 hchange).1
      simp [isCommitted, hlt]
    · simp [isCommitted, List.getElem?_set_ne (Ne.symm hn), hn]

/-! ## The run -/

theorem run_concat (w : Ingestion) (steps : List FileStep) (e : FileStep) :
    w.run (steps ++ [e]) = (w.run steps).step e := by
  rw [run, List.foldl_append]
  rfl

theorem commits_concat (w : Ingestion) (steps : List FileStep) (e : FileStep) :
    w.commits (steps ++ [e]) = w.commits steps ++ ((w.run steps).commit? e).toList := by
  induction steps generalizing w with
  | nil => simp [commits, run]
  | cons d steps ih =>
      rw [List.cons_append, commits, ih, commits, List.append_assoc]
      rfl

theorem sound_commits (schema : TableSchema) (steps : List FileStep) :
    ((start schema).run steps).Sound ((start schema).commits steps) := by
  induction steps using List.reverseRecOn with
  | nil => exact sound_start schema
  | append_singleton steps e ih =>
      rw [run_concat, commits_concat]
      obtain ⟨hnone, hlog, hcommitted⟩ | ⟨t, hnext, hnone, hstep⟩ |
        ⟨number, c, s, hchange, hopen, haccepted, hs, hsome, hstep⟩ :=
          ((start schema).run steps).step_cases e
      · rw [hnone, Option.toList_none, List.append_nil]
        exact ih.of_same_log hlog hcommitted
      · rw [hnone, hstep, Option.toList_none, List.append_nil]
        exact ih.addSchema hnext
      · rw [hsome, hstep]
        exact ih.addSnapshot hchange hopen haccepted hs

end Ingestion

/-! ## The log of a run -/

namespace TableLog

variable {log : TableLog}

theorem snapshot_eq_ok_iff {id : Int} {s : Snapshot} :
    log.snapshot id = .ok s ↔ (log.snapshots.find? fun s => s.id == id) = some s := by
  rw [snapshot]
  cases log.snapshots.find? fun s => s.id == id <;> simp

theorem dataFilesAt_eq (log : TableLog) (id : Int) :
    log.dataFilesAt id =
      ((log.snapshots.find? fun s => s.id == id).map (·.dataFiles)).getD [] := by
  rw [dataFilesAt, snapshot]
  cases log.snapshots.find? fun s => s.id == id <;> rfl

theorem deleteFilesAt_eq (log : TableLog) (id : Int) :
    log.deleteFilesAt id =
      ((log.snapshots.find? fun s => s.id == id).map (·.deleteFiles)).getD [] := by
  rw [deleteFilesAt, snapshot]
  cases log.snapshots.find? fun s => s.id == id <;> rfl

end TableLog

/-- The snapshot of a commit in a sound state. -/
theorem Ingestion.Sound.exists_records {w : Ingestion} {cs : List FileCommit} (hw : w.Sound cs)
    {k : Nat} {c : FileCommit} (hc : cs[k]? = some c) : ∃ s, w.log.Records (k + 1) c s := by
  obtain ⟨s, hfind, hfollows⟩ := hw.written.exists_follows (by rwa [List.reverse_reverse])
  refine ⟨s, TableLog.snapshot_eq_ok_iff.2 hfind, hfollows.id, hfollows.sequence, hfollows.kind,
    ?_, ?_, ?_, ?_, fun f hf => ?_⟩
  · have hlt : k < cs.length := (List.getElem?_eq_some_iff.1 hc).1
    rw [hfollows.parent, hw.written.find?_map_id (by rw [List.length_reverse]; omega)]
    simp
  · rw [hfollows.schemaId]
    exact TableLog.schemaById_of_mem hw.numbered (hw.schemas c (List.mem_of_getElem? hc))
  · rw [hfollows.data, TableLog.dataFilesAt_eq]
    simp
  · rw [hfollows.deletes, TableLog.deleteFilesAt_eq]
    simp
  · exact TableLog.exists_schemaById_iff.2 (hw.resolves s (List.mem_of_find?_eq_some hfind) f hf)

/-- A snapshot that is found is the snapshot of a commit. -/
theorem Ingestion.Sound.exists_commit {w : Ingestion} {cs : List FileCommit} (hw : w.Sound cs)
    {id : Int} {s : Snapshot} (hs : w.log.snapshot id = .ok s) :
    ∃ k c, cs[k]? = some c ∧ id = ((k + 1 : Nat) : Int) ∧ w.log.Records (k + 1) c s := by
  have hfind := TableLog.snapshot_eq_ok_iff.1 hs
  have hid : s.id = id := by simpa using List.find?_some hfind
  obtain ⟨k, hk, hnumber⟩ := hw.written.exists_id_eq (List.mem_of_find?_eq_some hfind)
  rw [List.length_reverse] at hk
  obtain ⟨s', hrecords⟩ := hw.exists_records (List.getElem?_eq_getElem hk)
  have hsame : w.log.snapshot id = .ok s' := by
    rw [← hid, hnumber]
    exact hrecords.found
  obtain rfl : s = s' := Except.ok.inj (hs.symm.trans hsame)
  exact ⟨k, cs[k], List.getElem?_eq_getElem hk, by rw [← hid, hnumber], hrecords⟩

-- The second change is committed first, and cannot be committed once more.
example (schema : TableSchema) :
    ((Ingestion.start schema).commits
      [.begin .append, .begin .rowDelta, .commit 1, .commit 1, .commit 0]).map (·.number) =
        [1, 0] := rfl

end MergeOnRead
