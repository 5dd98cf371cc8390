import MergeOnRead.Proofs.CacheBuilds
import MergeOnRead.Proofs.DeleteLoading
import MergeOnRead.Scan.OpenTable

/-!
# When kept indexes change nothing

A table that keeps the indexes of its delete files answers as one that loads them anew each time,
as long as no index is used with a schema that has the key fields under other names or types than
the schema it was loaded with (`answer_eq_of_sameKeys`).  The key that an index is kept under does
not tell the two apart.

Strategy:

* `IndexCache.getOrLoad_cases` is the specification of a call of the cache while nothing is
  pending: the entry of the key is handed out, or the loader is run and what it gives is kept;
* `Simulates` compares a computation over a cache with one that keeps nothing, and goes through
  all that a scan is made of (`Simulates.bind` and the lemmas after it);
* `Filled` is the invariant of the cache: every entry was loaded for one of the reads so far.
  `simulates_loadIndex` is the step that may go wrong, the others only pass it on;
* `Twins.run` is the induction over the steps.
-/

namespace MergeOnRead

/-! ## Calls of the cache -/

namespace IndexCache

variable {α : Type} {c : IndexCache α} {key : Key}

/-- While nothing is pending, a call hands out the entry of its key, or what its loader gives, and
keeps that. -/
theorem getOrLoad_cases (key : Key) (hpending : c.pending = []) (hmax : 1 ≤ c.maxEntries)
    (given : Except Error α) :
    ∃ r d, getOrLoad key (fun s => (given, s)) (c, ()) = (.done r, (d, ())) ∧
      d.pending = [] ∧ d.maxEntries = c.maxEntries ∧
      ((∃ a, r = .ok a ∧ (key, a) ∈ c.entries ∧ d.entries ⊆ c.entries) ∨
        (r = given ∧ ∀ e ∈ d.entries, e ∈ c.entries ∨ ∃ a, given = .ok a ∧ e = (key, a))) := by
  cases hpeek : c.peek? key with
  | some a =>
      -- The entry only becomes the most recent one.
      have hmem := mem_of_peek?_eq_some hpeek
      refine ⟨.ok a, { c with entries := (key, a) :: c.entries.filter fun e => !matching key e.1 },
        ?_, hpending, rfl, .inl ⟨a, rfl, hmem, ?_⟩⟩
      · simp [getOrLoad, enter, touch, hpeek]
      · exact List.cons_subset.2 ⟨hmem, List.filter_subset_self ..⟩
  | none =>
      -- Nobody else builds, so the call owns the build.
      have henter : c.enter key =
          (.owner c.builds, { c with pending := [(key, c.builds)], builds := c.builds + 1 }) := by
        simp [enter, touch, hpeek, hpending]
      cases given with
      | error err =>
          refine ⟨.error err, { c with pending := [], builds := c.builds + 1 }, ?_, rfl, rfl,
            .inr ⟨rfl, fun e he => .inl he⟩⟩
          simp [getOrLoad, henter, build, withdraw, released]
      | ok a =>
          refine ⟨.ok a, ⟨c.maxEntries,
            ((key, a) :: c.entries.filter fun e => !matching key e.1).take c.maxEntries.toNat, [],
            c.builds + 1⟩, ?_, rfl, rfl, .inr ⟨rfl, fun e he => ?_⟩⟩
          · simp [getOrLoad, henter, build, publish, released, Int.not_lt.2 hmax]
          · rcases List.mem_cons.1 (List.mem_of_mem_take he) with rfl | he
            · exact .inr ⟨a, rfl, rfl⟩
            · exact .inl (List.mem_filter.1 he).1

end IndexCache

/-! ## Computations with and without a cache -/

/-- A computation over a cache keeps an invariant, and one without a cache keeps nothing; both give
the same, provided that `same` holds. -/
def Simulates {α : Type} (Invariant : IndexCache DeleteIndex → Prop) (same : Prop)
    (x y : StateM KeptIndexes α) : Prop :=
  ∀ c, Invariant c → ∃ a d b, x.run (some c) = (a, some d) ∧ Invariant d ∧
    y.run none = (b, none) ∧ (same → b = a)

namespace Simulates

variable {α β : Type} {Invariant : IndexCache DeleteIndex → Prop} {same : Prop}

theorem pure (a : α) : Simulates Invariant same (Pure.pure a) (Pure.pure a) :=
  fun c hc => ⟨a, c, a, rfl, hc, rfl, fun _ => rfl⟩

theorem bind {x y : StateM KeptIndexes α} {f g : α → StateM KeptIndexes β}
    (hxy : Simulates Invariant same x y) (hfg : ∀ a, Simulates Invariant same (f a) (g a)) :
    Simulates Invariant same (x >>= f) (y >>= g) := by
  intro c hc
  obtain ⟨a, d, b, hx, hd, hy, hab⟩ := hxy c hc
  obtain ⟨a', d', b₀, hf, hd', hg₀, hsame₀⟩ := hfg a d hd
  -- What follows without a cache starts from what was given there.
  obtain ⟨-, -, b', -, -, hg, -⟩ := hfg b d hd
  refine ⟨a', d', b', ?_, hd', ?_, fun hsame => ?_⟩
  · rw [StateT.run_bind, hx]
    exact hf
  · rw [StateT.run_bind, hy]
    exact hg
  · rw [hab hsame, hg₀] at hg
    cases hg
    exact hsame₀ hsame

/-- A step of a scan that fails ends it. -/
theorem bindScanning {x y : Scanning α} {f g : α → Scanning β}
    (hxy : Simulates Invariant same x.run y.run)
    (hfg : ∀ a, Simulates Invariant same (f a).run (g a).run) :
    Simulates Invariant same (x >>= f).run (y >>= g).run := by
  rw [ExceptT.run_bind, ExceptT.run_bind]
  refine hxy.bind fun r => ?_
  cases r with
  | error e => exact pure _
  | ok a => exact hfg a

theorem result (r : Except Error α) :
    Simulates Invariant same (ExceptT.mk (Pure.pure r) : Scanning α).run
      (ExceptT.mk (Pure.pure r) : Scanning α).run :=
  pure r

theorem lift {x y : StateM KeptIndexes α} (hxy : Simulates Invariant same x y) :
    Simulates Invariant same (ExceptT.lift x : Scanning α).run
      (ExceptT.lift y : Scanning α).run := by
  rw [ExceptT.run_lift, ExceptT.run_lift]
  exact hxy.bind fun a => pure _

theorem mapM {f g : α → StateM KeptIndexes β} {xs : List α}
    (hfg : ∀ x ∈ xs, Simulates Invariant same (f x) (g x)) :
    Simulates Invariant same (xs.mapM f) (xs.mapM g) := by
  induction xs with
  | nil => exact pure _
  | cons x xs ih =>
      rw [List.mapM_cons, List.mapM_cons]
      refine (hfg x (List.mem_cons_self ..)).bind fun y => ?_
      refine (ih fun x hx => hfg x (List.mem_cons_of_mem _ hx)).bind fun ys => ?_
      exact pure _

theorem mapMScanning {f g : α → Scanning β} {xs : List α}
    (hfg : ∀ x ∈ xs, Simulates Invariant same (f x).run (g x).run) :
    Simulates Invariant same (xs.mapM f).run (xs.mapM g).run := by
  induction xs with
  | nil => exact result (.ok [])
  | cons x xs ih =>
      rw [List.mapM_cons, List.mapM_cons]
      refine (hfg x (List.mem_cons_self ..)).bindScanning fun y => ?_
      refine (ih fun x hx => hfg x (List.mem_cons_of_mem _ hx)).bindScanning fun ys => ?_
      exact result (.ok (y :: ys))

end Simulates

/-! ## Scans -/

/-- Files that are read with some schemas. -/
abbrev Reads := List (TableSchema × DeleteFile)

/-- Every entry of a cache was loaded for one of some reads, and nothing is pending. -/
structure Filled (source : RowSource) (reads : Reads) (c : IndexCache DeleteIndex) : Prop where
  pending : c.pending = []
  bound : 1 ≤ c.maxEntries
  loaded : ∀ e ∈ c.entries, ∃ p ∈ reads, p.2.cacheKey.key = e.1 ∧ p.2.load source p.1 = .ok e.2

/-- What was loaded for a read under the key of a file is what the file gives. -/
def Settled (source : RowSource) (reads : Reads) (q : TableSchema × DeleteFile) : Prop :=
  ∀ p ∈ reads, p.2.cacheKey.key = q.2.cacheKey.key →
    ∀ i, p.2.load source p.1 = .ok i → q.2.load source q.1 = .ok i

/-- The tables differ in whether they keep indexes. -/
structure Table.SameButCache (t u : Table) : Prop where
  log : u.log = t.log
  source : u.source = t.source
  checksBounds : u.checksBounds = t.checksBounds
  parallelism : u.parallelism = t.parallelism

namespace Table

variable {t u : Table} {reads : Reads} {same : Prop} {schema : TableSchema}

/-- The delete files of a read are known, and settled if `same` holds. -/
def Knows (t : Table) (reads : Reads) (same : Prop) (q : TableSchema × DeleteFile) : Prop :=
  q ∈ reads ∧ (same → Settled t.source reads q)

/-- While nothing is pending and there is room for an entry, nobody waits: the index of a file is
one that is kept, or what the file gives. -/
theorem loadIndex_run (schema : TableSchema) (f : DeleteFile) {c : IndexCache DeleteIndex}
    (hpending : c.pending = []) (hbound : 1 ≤ c.maxEntries) :
    ∃ r d, (t.loadIndex schema f).run (some c) = (r, some d) ∧ d.pending = [] ∧
      d.maxEntries = c.maxEntries ∧
      ((∃ i, r = .ok i ∧ (f.cacheKey.key, i) ∈ c.entries ∧ d.entries ⊆ c.entries) ∨
        (r = f.load t.source schema ∧ ∀ e ∈ d.entries, e ∈ c.entries ∨
          ∃ i, f.load t.source schema = .ok i ∧ e = (f.cacheKey.key, i))) := by
  obtain ⟨r, d, hcall, hrest⟩ :=
    IndexCache.getOrLoad_cases f.cacheKey.key hpending hbound (f.load t.source schema)
  refine ⟨r, d, ?_, hrest⟩
  change t.loadIndex schema f (some c) = _
  simp only [loadIndex, hcall]

/-- A settled file is found in the cache as it would be loaded. -/
theorem simulates_loadIndex (htu : t.SameButCache u) {f : DeleteFile}
    (hf : t.Knows reads same (schema, f)) :
    Simulates (Filled t.source reads) same (t.loadIndex schema f).run
      (u.loadIndex schema f).run := by
  intro c hc
  obtain ⟨hmem, hsettled⟩ := hf
  obtain ⟨r, d, hrun, hpending, hbound, hcases⟩ :=
    loadIndex_run (t := t) schema f hc.pending hc.bound
  have hfresh : (u.loadIndex schema f).run.run none = (f.load t.source schema, none) := by
    rw [← htu.source]
    rfl
  rcases hcases with ⟨a, rfl, ha, hentries⟩ | ⟨rfl, hentries⟩
  · -- The entry was loaded for a read with the same key.
    obtain ⟨p, hp, hkey, hload⟩ := hc.loaded _ ha
    refine ⟨_, d, _, hrun, ⟨hpending, hbound ▸ hc.bound, fun e he => hc.loaded e (hentries he)⟩,
      hfresh, fun hsame => ?_⟩
    rw [hsettled hsame p hp hkey a hload]
  · -- The file was loaded for this read, with or without a cache.
    refine ⟨_, d, _, hrun, ⟨hpending, hbound ▸ hc.bound, fun e he => ?_⟩, hfresh, fun _ => rfl⟩
    rcases hentries e he with he | ⟨a, ha, rfl⟩
    · exact hc.loaded e he
    · exact ⟨_, hmem, rfl, ha⟩

theorem simulates_loadIndexes (htu : t.SameButCache u) {deletes : List DeleteFile}
    (hdeletes : ∀ f ∈ deletes, t.Knows reads same (schema, f)) :
    Simulates (Filled t.source reads) same (t.loadIndexes schema deletes).run
      (u.loadIndexes schema deletes).run :=
  .mapMScanning fun f hf => simulates_loadIndex htu (hdeletes f hf)

section Tasks

variable {fields : List Field} {task : ScanTask} {tasks : List ScanTask}

theorem SameButCache.readerOver_eq (htu : t.SameButCache u) (schema : TableSchema)
    (fields : List Field) (file : DataFile) (indexes : List DeleteIndex) :
    u.readerOver schema fields file indexes = t.readerOver schema fields file indexes := by
  simp only [readerOver, htu.log, htu.source, htu.checksBounds]

theorem simulates_taskReader (htu : t.SameButCache u)
    (htask : ∀ f ∈ task.deletes, t.Knows reads same (schema, f)) :
    Simulates (Filled t.source reads) same (t.taskReader schema fields task).run
      (u.taskReader schema fields task).run := by
  refine (simulates_loadIndexes htu htask).bindScanning fun indexes => ?_
  rw [htu.readerOver_eq]
  exact .result _

theorem simulates_readTask (htu : t.SameButCache u)
    (htask : ∀ f ∈ task.deletes, t.Knows reads same (schema, f)) :
    Simulates (Filled t.source reads) same (t.readTask schema fields task).run
      (u.readTask schema fields task).run :=
  (simulates_taskReader htu htask).bindScanning fun _ => .result _

theorem simulates_readInOrder {α : Type} (htu : t.SameButCache u)
    (read : Reader → List α × Option Error)
    (htasks : ∀ task ∈ tasks, ∀ f ∈ task.deletes, t.Knows reads same (schema, f)) :
    Simulates (Filled t.source reads) same (t.readInOrder schema fields read tasks)
      (u.readInOrder schema fields read tasks) := by
  induction tasks with
  | nil => exact .pure _
  | cons task tasks ih =>
      refine (simulates_taskReader htu (htasks task (List.mem_cons_self ..))).bind fun r => ?_
      cases r with
      | error e => exact .pure _
      | ok reader =>
          -- What the reader gives decides whether the tasks behind it are read.
          simp only
          split
          · exact .pure _
          · refine (ih fun task htask => htasks task (List.mem_cons_of_mem _ htask)).bind ?_
            exact fun _ => .pure _

theorem simulates_readAll (htu : t.SameButCache u)
    (htasks : ∀ task ∈ tasks, ∀ f ∈ task.deletes, t.Knows reads same (schema, f)) :
    Simulates (Filled t.source reads) same (t.readAll schema fields tasks).run
      (u.readAll schema fields tasks).run := by
  have htask : ∀ task ∈ tasks, Simulates (Filled t.source reads) same
      (t.readTask schema fields task).run (u.readTask schema fields task).run :=
    fun task hmem => simulates_readTask htu (htasks task hmem)
  rw [readAll, readAll, htu.parallelism]
  refine (Simulates.result _).bindScanning fun workers => ?_
  split
  · exact (Simulates.mapMScanning htask).bindScanning fun _ => .result (.ok _)
  · refine (Simulates.mapM htask).lift.bindScanning fun results => ?_
    exact (Simulates.result _).bindScanning fun _ => .result (.ok _)

theorem simulates_readTable (htu : t.SameButCache u)
    (htasks : ∀ task ∈ tasks, ∀ f ∈ task.deletes, t.Knows reads same (schema, f)) :
    Simulates (Filled t.source reads) same (t.readTable schema fields tasks).run
      (u.readTable schema fields tasks).run := by
  refine (simulates_readAll htu htasks).bindScanning fun bs => ?_
  exact (Simulates.result _).bindScanning fun _ => .result (.ok _)

end Tasks

/-! ## Whole scans -/

/-- The delete files of the tasks of a scan are those that it reads. -/
theorem knows_of_deleteReads {snapshotId : Option Int} {plan : Plan}
    (hplan : Plan.make t.log snapshotId none Plan.notOlder = .ok plan)
    (hschema : t.log.schemaAt snapshotId = .ok schema)
    (hreads : ∀ q ∈ t.log.deleteReads snapshotId, t.Knows reads same q) :
    ∀ task ∈ plan.tasks, ∀ f ∈ task.deletes, t.Knows reads same (schema, f) := by
  intro task htask f hf
  refine hreads _ ?_
  rw [TableLog.deleteReads, hplan, hschema]
  exact List.mem_flatMap.2 ⟨task, htask, List.mem_map_of_mem hf⟩

/-- What is done with a plan and the fields of a scan may rely on the delete files of the plan. -/
theorem simulates_planned {α : Type} (htu : t.SameButCache u) {snapshotId : Option Int}
    (hreads : ∀ q ∈ t.log.deleteReads snapshotId, t.Knows reads same q)
    (names : Option (List String)) {f g : TableSchema → List Field → List ScanTask → Scanning α}
    (hfg : ∀ schema fields tasks,
      (∀ task ∈ tasks, ∀ f ∈ task.deletes, t.Knows reads same (schema, f)) →
        Simulates (Filled t.source reads) same (f schema fields tasks).run
          (g schema fields tasks).run) :
    Simulates (Filled t.source reads) same
      (do
        let plan ← ExceptT.mk (pure (Plan.make t.log snapshotId none Plan.notOlder))
        let (schema, fields) ← ExceptT.mk (pure (t.selection snapshotId names))
        f schema fields plan.tasks : Scanning α).run
      (do
        let plan ← ExceptT.mk (pure (Plan.make u.log snapshotId none Plan.notOlder))
        let (schema, fields) ← ExceptT.mk (pure (u.selection snapshotId names))
        g schema fields plan.tasks : Scanning α).run := by
  have hselection : u.selection snapshotId names = t.selection snapshotId names := by
    rw [selection, selection, htu.log]
  rw [htu.log, hselection]
  cases hplan : Plan.make t.log snapshotId none Plan.notOlder with
  | error e => exact .pure (Except.error e)
  | ok plan =>
      cases hselected : t.selection snapshotId names with
      | error e => exact .pure (Except.error e)
      | ok selected =>
          obtain ⟨schema, hschema, h⟩ := bind_eq_ok_iff.1 hselected
          obtain ⟨fields, -, h⟩ := bind_eq_ok_iff.1 h
          cases h
          exact hfg schema fields plan.tasks (knows_of_deleteReads hplan hschema hreads)

theorem simulates_scan (htu : t.SameButCache u) {snapshotId : Option Int}
    (hreads : ∀ q ∈ t.log.deleteReads snapshotId, t.Knows reads same q)
    (names : Option (List String)) :
    Simulates (Filled t.source reads) same (t.scan snapshotId names).run
      (u.scan snapshotId names).run :=
  simulates_planned (f := fun schema fields tasks => ExceptT.lift (t.rows schema fields tasks))
    (g := fun schema fields tasks => ExceptT.lift (u.rows schema fields tasks)) htu hreads names
    fun _ _ _ htasks => (simulates_readInOrder htu Reader.rows htasks).lift

theorem simulates_collect (htu : t.SameButCache u) {snapshotId : Option Int}
    (hreads : ∀ q ∈ t.log.deleteReads snapshotId, t.Knows reads same q)
    (names : Option (List String)) :
    Simulates (Filled t.source reads) same (t.collect snapshotId names).run
      (u.collect snapshotId names).run :=
  simulates_planned htu hreads names fun _ _ _ htasks => simulates_readTable htu htasks

end Table

/-! ## Steps -/

namespace OpenTable

variable {a b : OpenTable} {reads : Reads}

/-- Of two tables in use, one keeps indexes that were loaded for some reads, and the other one keeps
none. -/
structure Twins (reads : Reads) (a b : OpenTable) : Prop where
  tables : a.table.SameButCache b.table
  kept : ∃ c, a.kept = some c ∧ Filled a.table.source reads c
  fresh : b.kept = none

theorem Twins.commit (h : Twins reads a b) (r : Except Error TableLog) :
    (b.commit r).1 = (a.commit r).1 ∧ Twins reads (a.commit r).2 (b.commit r).2 := by
  cases r with
  | error e => exact ⟨rfl, h⟩
  | ok log =>
      have hsame : ∀ t u : Table, t.SameButCache u →
          Table.SameButCache { t with log } { u with log } :=
        fun t u h => ⟨rfl, h.source, h.checksBounds, h.parallelism⟩
      exact ⟨rfl, hsame _ _ h.tables, h.kept, h.fresh⟩

/-- A scan of twins leaves twins, and gives the same for both if it agrees with loading anew. -/
theorem Twins.scan {α : Type} (h : Twins reads a b) {same : Prop} {x y : StateM KeptIndexes α}
    (hxy : Simulates (Filled a.table.source reads) same x y) :
    Twins reads { a with kept := (x.run a.kept).2 } { b with kept := (y.run b.kept).2 } ∧
      (same → (y.run b.kept).1 = (x.run a.kept).1) := by
  obtain ⟨c, hkept, hc⟩ := h.kept
  obtain ⟨r, d, r', hx, hd, hy, hsame⟩ := hxy c hc
  rw [hkept, h.fresh, hx, hy]
  exact ⟨⟨h.tables, ⟨d, rfl, hd⟩, rfl⟩, hsame⟩

/-- A step leaves twins, and gets the same answer from both if what it reads is settled. -/
theorem Twins.take (h : Twins reads a b) (e : TableStep) (hreads : ∀ q ∈ a.reads e, q ∈ reads) :
    Twins reads (a.take e).2 (b.take e).2 ∧
      ((∀ q ∈ a.reads e, Settled a.table.source reads q) → b.answer e = a.answer e) := by
  have hlog := h.tables.log
  cases e with
  | commitFiles kind data deletes =>
      obtain ⟨hanswer, htwins⟩ :=
        h.commit ((a.table.log.commitFiles kind data deletes).map (·.2))
      simp only [OpenTable.take, answer, hlog]
      exact ⟨htwins, fun _ => hanswer⟩
  | commitSchema schema =>
      obtain ⟨hanswer, htwins⟩ := h.commit (a.table.log.commitSchema schema)
      simp only [OpenTable.take, answer, hlog]
      exact ⟨htwins, fun _ => hanswer⟩
  | scan snapshotId names =>
      have hknown : ∀ q ∈ a.table.log.deleteReads snapshotId, a.table.Knows reads
          (∀ q ∈ a.reads (.scan snapshotId names), Settled a.table.source reads q) q :=
        fun q hq => ⟨hreads q hq, fun hsettled => hsettled q hq⟩
      obtain ⟨htwins, hsame⟩ := h.scan (Table.simulates_scan h.tables hknown names)
      exact ⟨htwins, fun hsettled => congrArg TableAnswer.rows (hsame hsettled)⟩
  | collect snapshotId names =>
      have hknown : ∀ q ∈ a.table.log.deleteReads snapshotId, a.table.Knows reads
          (∀ q ∈ a.reads (.collect snapshotId names), Settled a.table.source reads q) q :=
        fun q hq => ⟨hreads q hq, fun hsettled => hsettled q hq⟩
      obtain ⟨htwins, hsame⟩ := h.scan (Table.simulates_collect h.tables hknown names)
      exact ⟨htwins, fun hsettled => congrArg TableAnswer.table (hsame hsettled)⟩

/-- Twins stay twins, whatever is done with both. -/
theorem Twins.run (h : Twins reads a b) (steps : List TableStep)
    (hreads : ∀ q ∈ a.allReads steps, q ∈ reads) : Twins reads (a.run steps) (b.run steps) := by
  induction steps generalizing a b with
  | nil => exact h
  | cons e steps ih =>
      obtain ⟨htwins, -⟩ := h.take e fun q hq => hreads q (List.mem_append_left _ hq)
      exact ih htwins fun q hq => hreads q (List.mem_append_right _ hq)

/-! ## Opening two tables -/

/-- A table that is opened with a cache, and one that is opened without. -/
theorem twins_make {t u : Table} (htu : t.SameButCache u) {maxEntries : Int}
    (hon : t.options.flag Options.cacheEnabled = .ok true)
    (hmax : t.options.number Options.cacheMaxEntries = .ok maxEntries) (hroom : 1 ≤ maxEntries)
    (hoff : u.options.flag Options.cacheEnabled = .ok false) :
    ∃ a b, make t = .ok a ∧ make u = .ok b ∧ ∀ reads, Twins reads a b := by
  have hkeeps : Table.keepNothingYet t.options = .ok (some ⟨maxEntries, [], [], 0⟩) := by
    have hnonneg : ¬maxEntries < 0 := by omega
    simp [Table.keepNothingYet, hon, hmax, liftError, IndexCache.make, IndexCache.empty, hnonneg,
      Except.map]
  have hkeepsNone : Table.keepNothingYet u.options = .ok none := by
    simp [Table.keepNothingYet, hoff, liftError]
  refine ⟨⟨t, some ⟨maxEntries, [], [], 0⟩⟩, ⟨u, none⟩, ?_, ?_, fun reads => ?_⟩
  · rw [make, hkeeps]
    rfl
  · rw [make, hkeepsNone]
    rfl
  · exact ⟨htu, ⟨_, rfl, ⟨rfl, hroom, fun e he => by cases he⟩⟩, rfl⟩

theorem allReads_concat (a : OpenTable) (steps : List TableStep) (e : TableStep) :
    a.allReads (steps ++ [e]) = a.allReads steps ++ (a.run steps).reads e := by
  induction steps generalizing a with
  | nil => simp [allReads, run]
  | cons d steps ih =>
      rw [List.cons_append, allReads, ih, allReads, List.append_assoc]
      rfl

/-- **A table that keeps indexes answers as one that does not**, as long as no index that is
needed was loaded with a schema in which its key fields had other names or column types.  Files and
schemas may have been committed before, and snapshots scanned, in any order. -/
theorem answer_eq_of_sameKeys {t u : Table} (htu : t.SameButCache u) {maxEntries : Int}
    (hon : t.options.flag Options.cacheEnabled = .ok true)
    (hmax : t.options.number Options.cacheMaxEntries = .ok maxEntries) (hroom : 1 ≤ maxEntries)
    (hoff : u.options.flag Options.cacheEnabled = .ok false) :
    ∃ a b, make t = .ok a ∧ make u = .ok b ∧ ∀ before e,
      (∀ q ∈ (a.run before).reads e, ∀ p ∈ a.allReads (before ++ [e]),
        p.2.cacheKey = q.2.cacheKey → p.2.format = q.2.format ∧ p.2.SameKeys p.1 q.1) →
      (a.run before).answer e = (b.run before).answer e := by
  obtain ⟨a, b, ha, hb, htwins⟩ := twins_make htu hon hmax hroom hoff
  refine ⟨a, b, ha, hb, fun before e hkeys => ?_⟩
  have hrun := (htwins (a.allReads (before ++ [e]))).run before fun q hq => by
    rw [allReads_concat]
    exact List.mem_append_left _ hq
  obtain ⟨-, hanswer⟩ := hrun.take e fun q hq => by
    rw [allReads_concat]
    exact List.mem_append_right _ hq
  refine (hanswer fun q hq p hp hkey i hload => ?_).symm
  have hcacheKey : p.2.cacheKey = q.2.cacheKey := by
    obtain ⟨hpath, hcontent, hids⟩ := DeleteFile.key_cacheKey_eq_iff.1 hkey
    rw [DeleteFile.cacheKey, DeleteFile.cacheKey, hpath, hcontent, hids]
  obtain ⟨hformat, hsame⟩ := hkeys q hq p hp hcacheKey
  exact DeleteFile.load_eq_ok_of_sameKeys hkey hformat hsame hload

/-! ## A column is renamed or retyped -/

/-- A schema with a column `a` of some type and another column. -/
def pairSchema (id : Int) (type other : String) : TableSchema :=
  ⟨id, [⟨1, "a", .atomic type true, none⟩, ⟨2, other, .atomic "INT" true, none⟩], [], 2, []⟩

/-- A table whose files hold a row of ones. -/
def onesTable (cacheEnabled : Bool) : Table where
  log := .start (pairSchema 0 "INT" "b")
  options := .ofList [(Options.cacheEnabled.key, .bool cacheEnabled)]
  source _ _ names := .ok [.ok
    { header := names.map fun name => ⟨name, .flat (.int .w32)⟩
      rows := [names.map fun _ => .int 1] }]

def onesDeletes : DeleteFile :=
  ⟨"e.parquet", "parquet", [], .equalityDeletes, 1, 0, [1], none, none⟩

/-- A row is written and deleted by its column `a`, the table is scanned, and it gets another
schema. -/
def onesSteps (next : TableSchema) : List TableStep :=
  [.commitFiles .rowDelta [⟨"d.parquet", "parquet", [], 1, 0, 0, none, none⟩] [onesDeletes],
    .scan none none, .commitSchema next]

/-- Another name of the other column changes nothing. -/
theorem answer_eq_ones_renamed :
    ∃ a b, make (onesTable true) = .ok a ∧ make (onesTable false) = .ok b ∧
      (a.run (onesSteps (pairSchema 1 "INT" "c"))).answer (.scan none none) =
        (b.run (onesSteps (pairSchema 1 "INT" "c"))).answer (.scan none none) := by
  obtain ⟨a, b, ha, hb, hanswer⟩ := answer_eq_of_sameKeys (t := onesTable true)
    (u := onesTable false) ⟨rfl, rfl, rfl, rfl⟩ rfl rfl (by decide) rfl
  refine ⟨a, b, ha, hb, hanswer _ _ fun q hq p hp _ => ?_⟩
  cases ha
  replace hq : q ∈ [(pairSchema 1 "INT" "c", onesDeletes.committed 1 1)] := hq
  replace hp : p ∈ [(pairSchema 0 "INT" "b", onesDeletes.committed 1 1),
    (pairSchema 1 "INT" "c", onesDeletes.committed 1 1)] := hp
  obtain rfl := List.mem_singleton.1 hq
  have hkey : ∀ id ∈ (onesDeletes.committed 1 1).fieldIds, id = 1 := fun id hid =>
    List.mem_singleton.1 hid
  simp only [List.mem_cons, List.not_mem_nil, or_false] at hp
  rcases hp with rfl | rfl
  · exact ⟨rfl, fun id hid => by rw [hkey id hid]; rfl⟩
  · exact ⟨rfl, fun id hid => rfl⟩

/-- Another type of the column `a` does: the index holds a number, and the row has a text by
now. -/
example :
    (make (onesTable true)).map (fun a =>
        (a.run (onesSteps (pairSchema 1 "STRING" "b"))).answer (.scan none (some ["a"]))) =
      .ok (.rows (.ok ([.window (some [.text "1"]) 0 1], none))) ∧
    (make (onesTable false)).map (fun b =>
        (b.run (onesSteps (pairSchema 1 "STRING" "b"))).answer (.scan none (some ["a"]))) =
      .ok (.rows (.ok ([], none))) := by
  exact ⟨rfl, rfl⟩

end OpenTable

end MergeOnRead
