import MergeOnRead.Proofs.CanonicalKeys
import MergeOnRead.Proofs.LoadedKeys
import MergeOnRead.Proofs.RowEquality
import MergeOnRead.Proofs.SnapshotLog
import MergeOnRead.Scan.Plan

/-!
# The deletes of a task

A plan finds the delete files of a partition in a dictionary, by the hash of its row and then by
comparing rows.  `Ingestion.plan_eq_appliedDeletes` says that, whatever the hashes are, this is what
comparing each data file with each delete file would give: a task carries the delete files of the
snapshot whose partition is equal to that of the data file, as rows are equal, and whose sequence
number is not refused.  Since commits stamp their files, these are by default the deletes of all
commits from that of the data file on.

Strategy:

* `IsPartition`: the key of a partition has a hash and is equal to itself, so that comparing
  partitions returns (`samePartition_eq`) and `RowBuckets.get_ofItems` applies to their rows;
* `Plan.exists_buckets` numbers these rows through both kinds of files (`Snapshot.partitionRow`),
  and `Plan.tasksWith_eq` goes through the data files, those that are read and those that are not;
* `Ingestion.Sound.files_eq` takes the files of a snapshot apart into those of its commits, whose
  numbers are the sequence numbers that `Snapshot.deletesFor` compares.
-/

namespace MergeOnRead

/-! ## Partitions -/

/-- A partition has a key that can be kept in a set.  Its decimals are numbers, and no key of a
dictionary in it holds a NaN. -/
structure IsPartition (p : List Value) : Prop where
  keyed : ∃ key, (Row.ofValues p).key = .ok key ∧ Value.areHashable key = true
  regular : Value.areRegular p = true

/-- Whether partitions are equal as rows. -/
def equalPartitions (p q : List Value) : Bool := (samePartition p q).toOption == some true

/-- The keys of the canonical values of a partition. -/
def partitionKeys (p : List Value) : Except RowError (List Key) :=
  (Row.ofValues p).key.map Value.keys

/-- Which of two rows is which does not matter for their equality, as long as they are two. -/
theorem RowObject.equal_of_ne {i j : Nat} (hij : i ≠ j) (p q : List Value) :
    RowObject.equal ⟨i, .ofValues p⟩ ⟨j, .ofValues q⟩ = samePartition p q := by
  have hserials : (i == j) = false := beq_false_of_ne hij
  rw [samePartition, RowObject.equal, RowObject.equal]
  simp only [hserials]
  rfl

namespace IsPartition

variable {p q : List Value}

/-- The keys of a partition are equal to themselves. -/
theorem exists_key (h : IsPartition p) : ∃ key, (Row.ofValues p).HasHashableKey key ∧
    Key.areSettled (Value.keys key) = true := by
  obtain ⟨key, hkey, hhashable⟩ := h.keyed
  have hvalues := (Row.setKey_ofValues_iff ⟨key, hkey⟩).1 hkey
  exact ⟨key, ⟨rfl, hkey, hhashable⟩, Row.areSettled_canonicalValues h.regular hvalues⟩

/-- Comparing partitions does not fail, and comes to comparing their keys. -/
theorem samePartition_eq (hp : IsPartition p) (hq : IsPartition q) :
    samePartition p q = .ok (equalPartitions p q) ∧
      (equalPartitions p q = true ↔ partitionKeys p = partitionKeys q) := by
  obtain ⟨key, hkey, hsettled⟩ := hp.exists_key
  obtain ⟨other, hother, -⟩ := hq.exists_key
  let rows : Nat → Row := fun n => if n = 0 then .ofValues p else .ofValues q
  obtain ⟨hequal, hiff⟩ := @RowObject.equal_eq rows 0 1 key other hkey hother
  refine ⟨hequal, hiff.trans ?_⟩
  rw [partitionKeys, partitionKeys, hkey.key_eq, hother.key_eq]
  constructor
  · rintro (h | ⟨-, hagree⟩)
    · cases h
    · exact congrArg Except.ok hagree.1
  · exact fun h => .inr ⟨.inl rfl, Except.ok.inj h, hsettled⟩

end IsPartition

/-! ## Buckets of partitions -/

namespace Snapshot

/-- The delete files of a snapshot that apply to a data file: those of an equal partition whose
sequence number is in the given order with that of the data file.  Files of a snapshot have sequence
numbers. -/
def deletesFor (s : Snapshot) (order : Plan.SequenceOrder) (file : DataFile) : List DeleteFile :=
  s.deleteFiles.filter fun d =>
    equalPartitions d.partition file.partition &&
      match d.sequence, file.sequence with
      | some delete, some data => order delete data
      | _, _ => false

/-- The rows of the partitions of a snapshot, by their numbers. -/
def partitionRow (s : Snapshot) (n : Nat) : Row :=
  .ofValues ((s.deleteFiles.map (·.partition) ++ s.dataFiles.map (·.partition)).getD n [])

/-- The files of a snapshot have partitions that can be planned. -/
structure HasPartitions (s : Snapshot) : Prop where
  data : ∀ f ∈ s.dataFiles, IsPartition f.partition
  deletes : ∀ d ∈ s.deleteFiles, IsPartition d.partition

/-- The files of a snapshot have sequence numbers. -/
structure IsStamped (s : Snapshot) : Prop where
  data : ∀ f ∈ s.dataFiles, ∃ n, f.sequence = some n
  deletes : ∀ d ∈ s.deleteFiles, ∃ n, d.sequence = some n

variable {s : Snapshot} {i : Nat}

theorem partitionRow_of_delete {d : DeleteFile} (h : (d, i) ∈ s.deleteFiles.zipIdx) :
    s.partitionRow i = .ofValues d.partition := by
  have hplace : s.deleteFiles[i]? = some d := List.mem_zipIdx_iff_getElem?.1 h
  have hlt : i < (s.deleteFiles.map (·.partition)).length := by
    rw [List.length_map]
    exact (List.getElem?_eq_some_iff.1 hplace).1
  rw [partitionRow, List.getD_eq_getElem?_getD, List.getElem?_append_left hlt, List.getElem?_map,
    hplace]
  rfl

theorem partitionRow_of_data {f : DataFile}
    (h : (f, i) ∈ s.dataFiles.zipIdx s.deleteFiles.length) :
    s.partitionRow i = .ofValues f.partition := by
  obtain ⟨hle, hplace⟩ := List.mk_mem_zipIdx_iff_le_and_getElem?_sub.1 h
  rw [partitionRow, List.getD_eq_getElem?_getD,
    List.getElem?_append_right (by rwa [List.length_map]), List.length_map, List.getElem?_map,
    hplace]
  rfl

theorem HasPartitions.isComparable (h : s.HasPartitions) (n : Nat) :
    (s.partitionRow n).IsComparable := by
  rw [partitionRow, List.getD_eq_getElem?_getD]
  cases hplace : (s.deleteFiles.map (·.partition) ++ s.dataFiles.map (·.partition))[n]? with
  | none => exact ⟨[], rfl, rfl, rfl⟩
  | some p =>
      have hpartition : IsPartition p := by
        rcases List.mem_append.1 (List.mem_of_getElem? hplace) with hp | hp
        · obtain ⟨d, hd, rfl⟩ := List.mem_map.1 hp
          exact h.deletes d hd
        · obtain ⟨f, hf, rfl⟩ := List.mem_map.1 hp
          exact h.data f hf
      obtain ⟨key, hkey, -⟩ := hpartition.exists_key
      exact ⟨key, hkey⟩

end Snapshot

namespace Plan

variable {admits : Option PartitionFilter} {order : SequenceOrder} {s : Snapshot} {hasher : Hasher}
  {identity : Nat → Hash}

/-- **The delete files of a partition are found**, whatever the hashes are: those of all equal
partitions, in their order. -/
theorem exists_buckets (h : s.HasPartitions) (hasher : Hasher) (identity : Nat → Hash) :
    ∃ deletes, buckets hasher identity s.deleteFiles = .ok deletes ∧
      ∀ f ∈ s.dataFiles.zipIdx s.deleteFiles.length,
        deletes.get hasher identity ⟨f.2, .ofValues f.1.partition⟩ =
          .ok (s.deleteFiles.filter fun d => equalPartitions d.partition f.1.partition) := by
  have hdeletes : ∀ d ∈ s.deleteFiles.zipIdx,
      (⟨d.2, .ofValues d.1.partition⟩ : RowObject) = RowObject.nth s.partitionRow d.2 := by
    intro d hd
    rw [RowObject.nth, Snapshot.partitionRow_of_delete hd]
  have hitems : ∀ p ∈ s.deleteFiles.zipIdx.map
      fun d => ((⟨d.2, .ofValues d.1.partition⟩ : RowObject), d.1),
      RowObject.IsPlainOf s.partitionRow p.1 :=
    List.forall_mem_map.2 fun d hd => ⟨⟨d.2, hdeletes d hd⟩, rfl⟩
  obtain ⟨deletes, hmake, -, hget⟩ :=
    RowBuckets.get_ofItems h.isComparable _ hitems hasher identity
  refine ⟨deletes, hmake, fun f hf => ?_⟩
  have hrow : RowObject.IsPlainOf s.partitionRow ⟨f.2, .ofValues f.1.partition⟩ := by
    refine ⟨⟨f.2, ?_⟩, rfl⟩
    rw [RowObject.nth, Snapshot.partitionRow_of_data hf]
  rw [hget _ hrow, Except.ok.injEq]
  -- The numbers of data files are behind those of delete files.
  have hequal : ∀ d ∈ s.deleteFiles.zipIdx,
      RowObject.isEqual ⟨d.2, .ofValues d.1.partition⟩ ⟨f.2, .ofValues f.1.partition⟩ =
        equalPartitions d.1.partition f.1.partition := by
    intro d hd
    have hlt : d.2 < s.deleteFiles.length := List.snd_lt_of_mem_zipIdx hd
    have hle : s.deleteFiles.length ≤ f.2 := List.le_snd_of_mem_zipIdx hf
    rw [RowObject.isEqual, RowObject.equal_of_ne (by omega), equalPartitions]
  calc
    _ = (s.deleteFiles.zipIdx.filter fun d =>
          equalPartitions d.1.partition f.1.partition).map (·.1) := by
        rw [List.filter_map, List.map_map, ← List.filter_congr hequal]
        rfl
    _ = (s.deleteFiles.zipIdx.map (·.1)).filter fun d =>
          equalPartitions d.partition f.1.partition := by
        rw [List.filter_map]
        rfl
    _ = _ := by rw [List.zipIdx_map_fst]

/-! ## Tasks -/

/-- Whether a data file is read. -/
def admitted (admits : Option PartitionFilter) (file : DataFile) : Except RowError Bool :=
  match admits with
  | some admits => admits file.partitionRow
  | none => .ok true

theorem task?_eq (hasher : Hasher) (identity : Nat → Hash) (admits : Option PartitionFilter)
    (order : SequenceOrder) (deletes : RowBuckets DeleteFile) (file : DataFile) (serial : Nat) :
    task? hasher identity admits order deletes file serial =
      (admitted admits file >>= fun isRead =>
        if isRead then
          (deletes.get hasher identity ⟨serial, .ofValues file.partition⟩).map fun candidates =>
            some ⟨file, candidates.filter (applies order file)⟩
        else .ok none) := by
  cases admits <;> rfl

theorem makeWith_of_snapshot {log : TableLog} {id : Int} (h : log.snapshot id = .ok s)
    (hasher : Hasher) (identity : Nat → Hash) (admits : Option PartitionFilter)
    (order : SequenceOrder) :
    makeWith hasher identity log (some id) admits order =
      (liftError .row (tasksWith hasher identity s admits order)).map
        fun tasks => ⟨tasks, some s⟩ := by
  rw [makeWith, h]
  change (liftError .row (tasksWith hasher identity s admits order) >>= fun tasks =>
    .ok (Plan.mk tasks (some s))) = _
  cases tasksWith hasher identity s admits order <;> rfl

theorem make_of_snapshot {log : TableLog} {id : Int} (h : log.snapshot id = .ok s)
    (admits : Option PartitionFilter) (order : SequenceOrder) :
    make log (some id) admits order =
      (liftError .row (tasksOf s admits order)).map fun tasks => ⟨tasks, some s⟩ :=
  makeWith_of_snapshot h _ _ admits order

/-- A delete file applies as the order of the sequence numbers says. -/
theorem filter_applies (h : s.IsStamped) (order : SequenceOrder) {f : DataFile}
    (hf : f ∈ s.dataFiles) :
    (s.deleteFiles.filter fun d => equalPartitions d.partition f.partition).filter
      (applies order f) = s.deletesFor order f := by
  obtain ⟨n, hn⟩ := h.data f hf
  rw [List.filter_filter, Snapshot.deletesFor]
  refine List.filter_congr fun d hd => ?_
  obtain ⟨m, hm⟩ := h.deletes d hd
  rw [Bool.and_comm, applies, hm, hn]
  rfl

theorem tasksWith_eq (h : s.HasPartitions) (hstamped : s.IsStamped) (hasher : Hasher)
    (identity : Nat → Hash) :
    tasksWith hasher identity s admits order =
      (s.dataFiles.filterM (admitted admits)).map fun files =>
        files.map fun f => ⟨f, s.deletesFor order f⟩ := by
  obtain ⟨deletes, hmake, hget⟩ := exists_buckets h hasher identity
  have htask : ∀ f ∈ s.dataFiles.zipIdx s.deleteFiles.length,
      task? hasher identity admits order deletes f.1 f.2 =
        (admitted admits f.1).map fun isRead =>
          if isRead then some ⟨f.1, s.deletesFor order f.1⟩ else none := by
    intro f hf
    rw [task?_eq, hget f hf]
    cases admitted admits f.1 with
    | error e => rfl
    | ok isRead =>
        cases isRead with
        | false => rfl
        | true =>
            rw [ok_bind, if_pos rfl, Except.map,
              filter_applies hstamped order (List.fst_mem_of_mem_zipIdx hf)]
            rfl
  have hfiles : (s.dataFiles.zipIdx s.deleteFiles.length).map Prod.fst = s.dataFiles :=
    List.zipIdx_map_fst ..
  rw [tasksWith, hmake, ok_bind, mapM_congr htask]
  conv_rhs => rw [← hfiles, ← mapM_filterMap_eq_filterM_map, List.mapM_map]
  rfl

end Plan

/-! ## The files of a snapshot -/

namespace FileCommit

/-- The data files of a commit, with its number. -/
def stampedData (c : FileCommit) (number : Nat) : List DataFile :=
  c.change.data.map (·.committed number number)

/-- The delete files of a commit, with its number. -/
def stampedDeletes (c : FileCommit) (number : Nat) : List DeleteFile :=
  c.change.deletes.map (·.committed number number)

theorem sequence_of_stampedData {c : FileCommit} {number : Nat} {f : DataFile}
    (h : f ∈ c.stampedData number) : f.sequence = some (number : Int) := by
  obtain ⟨_, -, rfl⟩ := List.mem_map.1 h
  rfl

theorem sequence_of_stampedDeletes {c : FileCommit} {number : Nat} {d : DeleteFile}
    (h : d ∈ c.stampedDeletes number) : d.sequence = some (number : Int) := by
  obtain ⟨_, -, rfl⟩ := List.mem_map.1 h
  rfl

end FileCommit

/-- The first commits with their numbers. -/
def Ingestion.firstCommits (cs : List FileCommit) (count : Nat) : List (FileCommit × Nat) :=
  (cs.take count).zipIdx 1

/-- The files of a snapshot are those of the commits up to its own. -/
theorem Ingestion.Sound.files_eq {w : Ingestion} {cs : List FileCommit} (hw : w.Sound cs) {k : Nat}
    (hk : k ≤ cs.length) :
    w.log.dataFilesAt k = (firstCommits cs k).flatMap (fun c => c.1.stampedData c.2) ∧
      w.log.deleteFilesAt k = (firstCommits cs k).flatMap fun c => c.1.stampedDeletes c.2 := by
  induction k with
  | zero =>
      have hnone := hw.written.find?_zero
      simp [TableLog.dataFilesAt_eq, TableLog.deleteFilesAt_eq, hnone, firstCommits]
  | succ k ih =>
      have hc := List.getElem?_eq_getElem hk
      obtain ⟨s, hs⟩ := hw.exists_records hc
      obtain ⟨hdata, hdeletes⟩ := ih (Nat.le_of_succ_le hk)
      have hbefore : ((k + 1 : Nat) : Int) - 1 = k := by omega
      have hfirst : firstCommits cs (k + 1) = firstCommits cs k ++ [(cs[k], k + 1)] := by
        rw [firstCommits, List.take_succ_eq_append_getElem hk, List.zipIdx_append,
          List.length_take_of_le (Nat.le_of_succ_le hk), Nat.add_comm 1 k]
        rfl
      rw [TableLog.dataFilesAt, TableLog.deleteFilesAt, hs.found, hfirst, List.flatMap_append,
        List.flatMap_append, ← hdata, ← hdeletes, ← hbefore]
      simp [hs.data, hs.deletes, FileCommit.stampedData, FileCommit.stampedDeletes]

namespace Snapshot

variable {s : Snapshot} {commits : List (FileCommit × Nat)}

theorem isStamped_of_commits (hdata : s.dataFiles = commits.flatMap fun c => c.1.stampedData c.2)
    (hdeletes : s.deleteFiles = commits.flatMap fun c => c.1.stampedDeletes c.2) :
    s.IsStamped where
  data f hf := by
    rw [hdata] at hf
    obtain ⟨c, -, hf⟩ := List.mem_flatMap.1 hf
    exact ⟨c.2, FileCommit.sequence_of_stampedData hf⟩
  deletes d hd := by
    rw [hdeletes] at hd
    obtain ⟨c, -, hd⟩ := List.mem_flatMap.1 hd
    exact ⟨c.2, FileCommit.sequence_of_stampedDeletes hd⟩

/-- Delete files apply by default to the data files of their own commit and of those before it. -/
theorem deletesFor_notOlder (hdeletes : s.deleteFiles = commits.flatMap fun c =>
    c.1.stampedDeletes c.2) (f : DataFile) (i : Nat) :
    s.deletesFor Plan.notOlder (f.committed i i) =
      (commits.filter fun c => i ≤ c.2).flatMap fun c =>
        (c.1.stampedDeletes c.2).filter fun d => equalPartitions d.partition f.partition := by
  rw [deletesFor, hdeletes, List.filter_flatMap, ← flatMap_ite]
  refine List.flatMap_congr fun c _ => ?_
  have horder : ∀ d ∈ c.1.stampedDeletes c.2,
      (equalPartitions d.partition (f.committed i i).partition &&
        match d.sequence, (f.committed i i).sequence with
        | some delete, some data => Plan.notOlder delete data
        | _, _ => false) = (equalPartitions d.partition f.partition && decide (i ≤ c.2)) := by
    intro d hd
    rw [FileCommit.sequence_of_stampedDeletes hd]
    simp [DataFile.committed, Plan.notOlder]
  rw [List.filter_congr horder]
  by_cases hi : i ≤ c.2
  · simp [hi]
  · simp [hi]

end Snapshot

/-! ## Plans of a history -/

/-- A snapshot is planned by comparing its data files with its delete files: one task for each data
file that is read, with the delete files that apply to it.  The files are those of some commits. -/
structure TableLog.PlansAs (log : TableLog) (id : Int) (s : Snapshot)
    (commits : List (FileCommit × Nat)) : Prop where
  data : s.dataFiles = commits.flatMap fun c => c.1.stampedData c.2
  deletes : s.deleteFiles = commits.flatMap fun c => c.1.stampedDeletes c.2
  /-- The hashes by which partitions are found may be any. -/
  tasks : ∀ hasher identity admits order,
    Plan.makeWith hasher identity log (some id) admits order =
      (liftError .row (s.dataFiles.filterM (Plan.admitted admits))).map fun files =>
        ⟨files.map fun f => ⟨f, s.deletesFor order f⟩, some s⟩
  /-- Comparing partitions does not fail, and they are equal when their canonical keys are. -/
  partitions : ∀ f ∈ s.dataFiles, ∀ d ∈ s.deleteFiles,
    samePartition d.partition f.partition = .ok (equalPartitions d.partition f.partition) ∧
      (equalPartitions d.partition f.partition = true ↔
        partitionKeys d.partition = partitionKeys f.partition)
  /-- By default the delete files of the same commit and of later ones apply. -/
  byDefault : ∀ (f : DataFile) (i : Nat), s.deletesFor Plan.notOlder (f.committed i i) =
    (commits.filter fun c => i ≤ c.2).flatMap fun c =>
      (c.1.stampedDeletes c.2).filter fun d => equalPartitions d.partition f.partition

/-- **A plan associates exactly the deletes that apply.**  Whatever was committed before, a plan of
a snapshot has one task for each data file whose partition is read, in the order of the commits, and
its deletes are those of an equal partition whose sequence number is not refused, in the order of
the commits; they do not depend on which partitions are read, nor on the hashes of their rows.  By
default these are the deletes of the commits from that of the data file up to that of the
snapshot. -/
theorem Ingestion.plan_eq_appliedDeletes (schema : TableSchema) (steps : List FileStep) {id : Int}
    {s : Snapshot} (hs : ((start schema).run steps).log.snapshot id = .ok s)
    (hpartitions : s.HasPartitions) :
    ∃ count ≤ ((start schema).commits steps).length, id = (count : Int) ∧
      ((start schema).run steps).log.PlansAs id s
        (firstCommits ((start schema).commits steps) count) := by
  have hsound := sound_commits schema steps
  obtain ⟨k, c, hc, rfl, hrecords⟩ := hsound.exists_commit hs
  have hcount : k + 1 ≤ ((start schema).commits steps).length :=
    (List.getElem?_eq_some_iff.1 hc).1
  obtain ⟨hdata, hdeletes⟩ := hsound.files_eq hcount
  simp only [TableLog.dataFilesAt, hs] at hdata
  simp only [TableLog.deleteFilesAt, hs] at hdeletes
  have hstamped := Snapshot.isStamped_of_commits hdata hdeletes
  refine ⟨k + 1, hcount, rfl, hdata, hdeletes, fun hasher identity admits order => ?_,
    fun f hf d hd => (hpartitions.deletes d hd).samePartition_eq (hpartitions.data f hf),
    Snapshot.deletesFor_notOlder hdeletes⟩
  rw [Plan.makeWith_of_snapshot hs, Plan.tasksWith_eq hpartitions hstamped]
  cases s.dataFiles.filterM (Plan.admitted admits) with
  | error e => rfl
  | ok files => rfl

/-! ## Two commits -/

namespace Ingestion

/-- A file of rows of a partition. -/
def rowsOf (path : String) (partition : List Value) : DataFile :=
  ⟨path, "parquet", partition, 1, 0, 0, none, none⟩

/-- A file of deletes by position in a partition. -/
def deletesOf (path : String) (partition : List Value) : DeleteFile :=
  ⟨path, "parquet", partition, .positionDeletes, 1, 0, [], none, none⟩

/-- A partition of a null and a NaN, and another one. -/
def gapPartition (nan : Binary64) : List Value := [.null, .float nan]

/-- Two commits, each of rows and deletes; the NaNs have different signs. -/
def gapSteps : List FileStep :=
  [.begin .rowDelta, .addData 0 (rowsOf "a" (gapPartition .nan)),
    .addDeletes 0 (deletesOf "p" (gapPartition ⟨0xFFF8000000000000⟩)), .commit 0,
    .begin .rowDelta, .addData 1 (rowsOf "b" (gapPartition .nan)),
    .addDeletes 1 (deletesOf "q" [.null, .int 1]),
    .addDeletes 1 (deletesOf "r" (gapPartition .nan)), .commit 1]

/-- Partitions with any NaN are planned so. -/
theorem plan_eq_appliedDeletes_gapSteps :
    ∃ s, ((start ⟨0, [], [], 0, []⟩).run gapSteps).log.snapshot 2 = .ok s ∧ s.HasPartitions ∧
      ∃ count ≤ ((start ⟨0, [], [], 0, []⟩).commits gapSteps).length, (2 : Int) = (count : Int) ∧
        ((start ⟨0, [], [], 0, []⟩).run gapSteps).log.PlansAs 2 s
          (firstCommits ((start ⟨0, [], [], 0, []⟩).commits gapSteps) count) := by
  have hgap : IsPartition (gapPartition .nan) := ⟨⟨_, rfl, rfl⟩, rfl⟩
  have hdata : ∀ f ∈ [(rowsOf "a" (gapPartition .nan)).committed 1 1,
      (rowsOf "b" (gapPartition .nan)).committed 2 2], IsPartition f.partition := by
    intro f hf
    simp only [List.mem_cons, List.not_mem_nil, or_false] at hf
    rcases hf with rfl | rfl
    · exact hgap
    · exact hgap
  have hdeletes : ∀ d ∈ [(deletesOf "p" (gapPartition ⟨0xFFF8000000000000⟩)).committed 1 1,
      (deletesOf "q" [.null, .int 1]).committed 2 2,
      (deletesOf "r" (gapPartition .nan)).committed 2 2], IsPartition d.partition := by
    intro d hd
    simp only [List.mem_cons, List.not_mem_nil, or_false] at hd
    rcases hd with rfl | rfl | rfl
    · exact ⟨⟨_, rfl, rfl⟩, rfl⟩
    · exact ⟨⟨_, rfl, rfl⟩, rfl⟩
    · exact hgap
  exact ⟨_, rfl, ⟨hdata, hdeletes⟩, plan_eq_appliedDeletes _ gapSteps rfl ⟨hdata, hdeletes⟩⟩

-- The deletes `p` are too old for the file `b`, and the deletes `q` are of another partition.
example :
    (Plan.make ((start ⟨0, [], [], 0, []⟩).run gapSteps).log none none Plan.notOlder).map
      (fun plan => plan.tasks.map fun t => (t.file.path, t.deletes.map (·.path))) =
        .ok [("a", ["p", "r"]), ("b", ["r"])] := by
  rfl

end Ingestion

end MergeOnRead
