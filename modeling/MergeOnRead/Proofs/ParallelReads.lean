import Mathlib.Algebra.Order.BigOperators.Group.Finset
import MergeOnRead.Proofs.ParallelSteps

/-!
# Reading several tasks at a time

Several workers read what one worker reads, whatever the order of their steps
(`Table.readsInAnyOrder`), if delete files that share a key of the cache come in one format; if not,
the order matters (`Table.not_readsInAnyOrder_mixedTasks`).  That nothing else comes out is said by
the invariant of the steps (`ReadJob.Sane.eq_of_result`).  That something comes out takes more:
tasks wait for one another when they need the same delete file.

## Strategy

* `work` bounds the steps that are left.  A step that changes something lowers it
  (`Moves.work_lt`), so such steps come to an end;
* as long as the read has not ended, there is a step that changes something (`exists_moves`).  If a
  task waits for an index, another one is at work on it, and that task is running;
* the first task of the queue can begin when no task is running, since there is a worker;
* a round has all steps that can change something, so rounds come to an end as well
  (`exists_finish`), and what comes out of them comes out of their steps (`exists_run_of_finish`).
  How many batches a data file has is not known beforehand, so an open reader must not count when
  rounds are bounded (`roundWork`); it is read to the end in one turn (`turn_cases`).
-/

namespace MergeOnRead

/-! ## Work -/

/-- A sum of the first numbers is lower when one of them is, and the others stay. -/
theorem sum_range_lt {f g : Nat → Nat} {n k : Nat} (hk : k < n) (hlt : f k < g k)
    (h : ∀ i < n, i ≠ k → f i = g i) : ∑ i ∈ Finset.range n, f i < ∑ i ∈ Finset.range n, g i := by
  refine Finset.sum_lt_sum (fun i hi => ?_) ⟨k, Finset.mem_range.2 hk, hlt⟩
  by_cases hik : i = k
  · rw [hik]
    exact hlt.le
  · exact (h i (Finset.mem_range.1 hi) hik).le

namespace TaskPhase

variable {left : Reader → Nat} {files batches : Nat} {rank : Nat → Nat} {is : List DeleteIndex}

/-- A bound for the steps that a task has left, if it has so many files and opens a reader with so
many batches, and if the calls of its files take so many steps.  It is up to `left` how many steps
an open reader counts for. -/
def work (left : Reader → Nat) (files batches : Nat) (rank : Nat → Nat) : TaskPhase → Nat
  | .queued => 6 * files + batches + 8
  | .loading is => 6 * (files - is.length) + rank is.length + batches + 1
  | .reading reader _ => left reader + 1
  | .ended _ | .cancelled => 0

theorem work_afterLoad_lt (hlt : is.length < files) (hrank : ∀ i, 1 ≤ rank i ∧ rank i ≤ 6)
    (r : Except Error DeleteIndex) :
    (afterLoad is r).work left files batches rank <
      (loading is).work left files batches rank := by
  have hpos := (hrank is.length).1
  cases r with
  | error e =>
      simp only [afterLoad, work]
      omega
  | ok i =>
      have hle := (hrank (is.length + 1)).2
      simp only [afterLoad, work, List.length_append, List.length_singleton]
      omega

/-- Reading either ends, or has one batch less to go. -/
theorem afterRead_cases (reader : Reader) (bs : List Batch) :
    (∃ r, afterRead reader bs = .ended r) ∨
      ∃ rest more, afterRead reader bs = .reading rest more ∧
        reader.remaining = rest.remaining + 1 := by
  rw [afterRead]
  have hremaining := reader.remaining_readBatch
  split
  · exact .inl ⟨_, rfl⟩
  · exact .inl ⟨_, rfl⟩
  · rename_i b rest hbatch
    rw [hbatch] at hremaining
    have hmore : reader.remaining ≠ 0 := by
      intro hend
      have := Reader.readBatch_of_remaining_eq_zero hend
      rw [hbatch] at this
      cases this
    replace hremaining : rest.remaining = reader.remaining - 1 := hremaining
    exact .inr ⟨rest, _, rfl, by omega⟩

end TaskPhase

namespace ReadJob

variable {j : ReadJob} {s s' : ParallelRead} {k : Nat} {task : ScanTask} {is : List DeleteIndex}
  {f : DeleteFile} {files : List DeleteFile} {calls : CacheCalls DeleteIndex}

/-- What the reader counts for that a task opens alone. -/
def batchCount (left : Reader → Nat) (j : ReadJob) (task : ScanTask) : Nat :=
  match j.table.readerAnew j.schema j.fields task with
  | .ok reader => left reader
  | .error _ => 0

/-- A bound for the steps of the call of a file. -/
def callRank (j : ReadJob) (calls : Option (CacheCalls DeleteIndex)) (k file : Nat) : Nat :=
  match calls with
  | some calls => (calls.phase (j.call k file)).rank
  | none => 1

theorem callRank_bounds (calls : Option (CacheCalls DeleteIndex)) (k file : Nat) :
    1 ≤ j.callRank calls k file ∧ j.callRank calls k file ≤ 6 := by
  cases calls with
  | none => exact ⟨Nat.le_refl 1, Nat.le_add_left 1 5⟩
  | some calls => exact ⟨CallPhase.rank_pos _, CallPhase.rank_le _⟩

/-- A bound for the steps that a task has left. -/
def taskWork (left : Reader → Nat) (j : ReadJob) (s : ParallelRead) (k : Nat) : Nat :=
  match j.tasks[k]? with
  | some task =>
    (s.phase k).work left task.deletes.length (j.batchCount left task) (j.callRank s.calls k)
  | none => 0

/-- A bound for the steps that are left. -/
def work (left : Reader → Nat) (j : ReadJob) (s : ParallelRead) : Nat :=
  ∑ k ∈ Finset.range j.tasks.length, j.taskWork left s k +
    (j.tasks.length - s.collected.length) + if s.result.isNone then 1 else 0

theorem taskWork_eq (htask : j.tasks[k]? = some task) : j.taskWork left s k =
    (s.phase k).work left task.deletes.length (j.batchCount left task)
      (j.callRank s.calls k) := by
  rw [taskWork, htask]

/-- A task that comes to a phase with less work lowers the work. -/
theorem work_move_lt {p : TaskPhase} (htask : j.tasks[k]? = some task)
    (h : p.work left task.deletes.length (j.batchCount left task) (j.callRank s.calls k) <
      (s.phase k).work left task.deletes.length (j.batchCount left task)
        (j.callRank s.calls k)) :
    j.work left (s.move k p) < j.work left s := by
  have hk : k < j.tasks.length := (List.getElem?_eq_some_iff.1 htask).1
  have hlt : j.taskWork left (s.move k p) k < j.taskWork left s k := by
    rw [taskWork_eq htask, taskWork_eq htask, phase_move_self]
    exact h
  have hsum := sum_range_lt hk hlt fun i _ hi => by
    rw [taskWork, taskWork, phase_move_of_ne hi]
    rfl
  unfold work
  change ∑ i ∈ Finset.range j.tasks.length, j.taskWork left (s.move k p) i +
    (_ - s.collected.length) + (if s.result.isNone = true then 1 else 0) < _
  omega

/-- A call that goes on lowers the work. -/
theorem work_call_lt (hgets : j.Gets s.phase k is f) (hcalls : s.calls = some calls)
    {given : Except Error DeleteIndex}
    (h : ((calls.proceed j.key (j.call k is.length) given).phase (j.call k is.length)).rank <
      (calls.phase (j.call k is.length)).rank) :
    j.work left { s with calls := some (calls.proceed j.key (j.call k is.length) given) } <
      j.work left s := by
  obtain ⟨task, htask, hf⟩ := hgets.task
  have hlt : j.taskWork left { s with
      calls := some (calls.proceed j.key (j.call k is.length) given) } k <
        j.taskWork left s k := by
    rw [taskWork_eq htask, taskWork_eq htask, hgets.phase, hcalls]
    simp only [TaskPhase.work, callRank]
    omega
  have hsum := sum_range_lt hgets.lt hlt fun i hi hik => by
    -- The calls of another task have other numbers.
    have hother : ∀ file, j.call i file ≠ j.call k is.length := by
      intro file hcall
      have hmod := congrArg (· % j.tasks.length) hcall
      exact hik (by simpa only [call_mod hi, call_mod hgets.lt] using hmod)
    have hrank : j.callRank (some (calls.proceed j.key (j.call k is.length) given)) i =
        j.callRank (some calls) i := by
      funext file
      rw [callRank, callRank, CacheCalls.phase_proceed_of_ne (hother file)]
    rw [taskWork, taskWork, hcalls, hrank]
  simp only [work]
  omega

/-- A step that changes something leaves fewer steps, if it does where a batch is read. -/
theorem Moves.work_lt_of_read (h : j.Moves s s') (hs : j.Sane files s)
    (hread : ∀ k reader bs, s.phase k = .reading reader bs →
      s' = s.move k (.afterRead reader bs) → ∀ files batches rank,
        (TaskPhase.afterRead reader bs).work left files batches rank < left reader + 1) :
    j.work left s' < j.work left s := by
  have hwithin := hs.within
  cases h with
  | @begin k task htask hk =>
      refine work_move_lt htask ?_
      have hrank := (j.callRank_bounds s.calls k 0).2
      rw [hk]
      simp only [TaskPhase.work, List.length_nil]
      omega
  | load hgets _ | answer hgets _ _ =>
      obtain ⟨task, htask, hf⟩ := hgets.task
      refine work_move_lt htask ?_
      rw [hgets.phase]
      exact TaskPhase.work_afterLoad_lt (List.getElem?_eq_some_iff.1 hf).1
        (fun i => callRank_bounds _ _ i) _
  | call hgets hcalls hanswer hgoes =>
      obtain ⟨maxEntries, hroom, hsound⟩ := (hs.shares _ hcalls).sound
      exact work_call_lt hgets hcalls (CacheCalls.rank_proceed hsound hroom hanswer hgoes)
  | @opened k task is htask hk hend =>
      refine work_move_lt htask ?_
      have hfits := hs.fits k task htask
      have hrank := (j.callRank_bounds s.calls k is.length).1
      rw [hk] at hfits
      have hreader := hfits.readerAnew_eq hend
      rw [hk]
      cases hopened : j.table.readerOver j.schema j.fields task.file is with
      | error e =>
          simp only [TaskPhase.afterOpen, TaskPhase.work]
          omega
      | ok reader =>
          simp only [TaskPhase.afterOpen, TaskPhase.work, batchCount, hreader, hopened]
          omega
  | read htask hk =>
      refine work_move_lt htask ?_
      rw [hk]
      exact hread _ _ _ hk rfl _ _ _
  | collect hnone hmore hk =>
      change ∑ k ∈ Finset.range j.tasks.length, j.taskWork left s k +
        (j.tasks.length - (s.collected ++ [_]).length) +
          (if s.result.isNone = true then 1 else 0) < _
      rw [work, List.length_append, List.length_singleton]
      omega
  | fail hnone _ _ | finish hnone _ =>
      rw [work, work, hnone]
      exact Nat.lt_succ_self _
  | cancel _ htask hk =>
      refine work_move_lt htask ?_
      rw [hk]
      exact Nat.succ_pos _

/-- **A step that changes something leaves fewer steps.** -/
theorem Moves.work_lt (h : j.Moves s s') (hs : j.Sane files s) :
    j.work Reader.remaining s' < j.work Reader.remaining s := by
  refine h.work_lt_of_read hs fun k reader bs _ _ files batches rank => ?_
  rcases TaskPhase.afterRead_cases reader bs with ⟨r, hend⟩ | ⟨rest, more, hmore, hremaining⟩
  · rw [hend]
    exact Nat.succ_pos _
  · rw [hmore, hremaining]
    exact Nat.lt_succ_self _

/-! ## Going on -/

/-- While a task is running, something can happen. -/
theorem exists_moves_of_running (hs : j.Sane files s) (htask : j.tasks[k]? = some task)
    (hrunning : (s.phase k).isRunning = true) : ∃ e, j.Moves s (j.step s e) := by
  rcases moves_advance htask hrunning with h | ⟨-, is, calls, hk, hcalls, hstalls⟩
  · exact ⟨.advance k, h⟩
  · -- The task waits for an index that another one is at work on.
    obtain ⟨maxEntries, hroom, hsound⟩ := (hs.shares calls hcalls).sound
    obtain ⟨d, hd⟩ := CacheCalls.exists_working_of_stalls hsound hroom hstalls
    obtain ⟨k', is', f, hgets, rfl⟩ := hs.owned calls hcalls d (CallPhase.isOpen_of_isAtWork hd)
    obtain ⟨task', htask', -⟩ := hgets.task
    have hrunning' : (s.phase k').isRunning = true := by
      rw [hgets.phase]
      rfl
    rcases moves_advance htask' hrunning' with h | ⟨-, is'', calls', hk', hcalls', b, hwaits, -⟩
    · exact ⟨.advance k', h⟩
    · obtain rfl := hgets.eq_of_phase hk'
      cases hcalls.symm.trans hcalls'
      rw [hwaits] at hd
      cases hd

/-- When no task is running, there is a worker for the first task of the queue. -/
theorem moves_begin (hworkers : 1 ≤ j.workers) (hfirst : j.first? s = some k)
    (hidle : ∀ i < j.tasks.length, (s.phase i).isRunning = false) : j.Moves s (j.begin s) := by
  have hmem : k ∈ List.range j.tasks.length := List.mem_of_find?_eq_some hfirst
  have hqueued := List.find?_some (p := fun k => (s.phase k).isQueued) hfirst
  have hnobody : j.running s = 0 := by
    rw [running, List.length_eq_zero_iff, List.filter_eq_nil_iff]
    intro i hi
    rw [hidle i (List.mem_range.1 hi)]
    decide
  have hfree : (j.running s : Int) < j.workers := by omega
  rw [begin, hfirst]
  simp only [if_pos hfree]
  exact .begin (List.getElem?_eq_getElem (List.mem_range.1 hmem)) (eq_queued_of_isQueued hqueued)

/-- When all tasks have ended or were given up, the next result is there. -/
theorem moves_collect (hs : j.Sane files s) (hnone : s.result = none)
    (hidle : ∀ i < j.tasks.length, (s.phase i).isRunning = false)
    (hover : ∀ i < j.tasks.length, (s.phase i).isQueued = false) : j.Moves s (j.collect s) := by
  by_cases hall : s.collected.length = j.tasks.length
  · simpa [collect, hnone, hall] using Moves.finish hnone hall
  · have hlt := Nat.lt_of_le_of_ne hs.within hall
    have hidle := hidle _ hlt
    have hover := hover _ hlt
    cases hk : s.phase s.collected.length with
    | ended r =>
        cases r with
        | ok bs => simpa [collect, hnone, hall, hk] using Moves.collect hnone hall hk
        | error e => simpa [collect, hnone, hall, hk] using Moves.fail hnone hall hk
    | cancelled =>
        obtain ⟨e, he⟩ := hs.cancelled _ hk
        cases hnone.symm.trans he
    | queued =>
        rw [hk] at hover
        cases hover
    | loading is | reading reader bs =>
        rw [hk] at hidle
        cases hidle

/-- As long as the read has not ended, something can happen. -/
theorem exists_moves (hs : j.Sane files s) (hworkers : 1 ≤ j.workers)
    (hopen : j.outcome? s = none) : ∃ e, j.Moves s (j.step s e) := by
  by_cases hrunning : ∃ k < j.tasks.length, (s.phase k).isRunning = true
  · obtain ⟨k, hk, hrunning⟩ := hrunning
    exact exists_moves_of_running hs (List.getElem?_eq_getElem hk) hrunning
  have hidle : ∀ k < j.tasks.length, (s.phase k).isRunning = false := by
    simpa using hrunning
  cases hfirst : j.first? s with
  | some k => exact ⟨.begin, moves_begin hworkers hfirst hidle⟩
  | none =>
      have hover : ∀ k < j.tasks.length, (s.phase k).isQueued = false := by
        intro k hk
        simpa using List.find?_eq_none.1 hfirst k (List.mem_range.2 hk)
      refine ⟨.collect, moves_collect hs ?_ hidle hover⟩
      rw [outcome?, if_pos] at hopen
      · exact hopen
      · rw [List.all_eq_true]
        intro k hk
        rw [hover k (List.mem_range.1 hk), hidle k (List.mem_range.1 hk)]
        rfl

/-- Every read can come to its end. -/
theorem exists_outcome (hs : j.Sane files s)
    (hfiles : ∀ task ∈ j.tasks, ∀ f ∈ task.deletes, f ∈ files) (hworkers : 1 ≤ j.workers) :
    ∃ events r, j.outcome? (j.run s events) = some r := by
  induction hwork : j.work Reader.remaining s using Nat.strongRecOn generalizing s with
  | _ n ih =>
      cases hopen : j.outcome? s with
      | some r => exact ⟨[], r, hopen⟩
      | none =>
          obtain ⟨e, hmoves⟩ := exists_moves hs hworkers hopen
          have hlt := hmoves.work_lt hs
          obtain ⟨events, r, hr⟩ := ih _ (hwork ▸ hlt) (hmoves.sane hs hfiles) rfl
          exact ⟨e :: events, r, hr⟩

/-- Each of some steps changes something. -/
def ChangesEach (j : ReadJob) : ParallelRead → List ReadEvent → Prop
  | _, [] => True
  | s, e :: events => j.step s e ≠ s ∧ ChangesEach j (j.step s e) events

/-- There are no more such steps than there is work. -/
theorem length_le_work (hs : j.Sane files s)
    (hfiles : ∀ task ∈ j.tasks, ∀ f ∈ task.deletes, f ∈ files) {events : List ReadEvent}
    (hevents : j.ChangesEach s events) : events.length ≤ j.work Reader.remaining s := by
  induction events generalizing s with
  | nil => exact Nat.zero_le _
  | cons e events ih =>
      obtain ⟨hchanges, hmore⟩ := hevents
      have hmoves := (j.step_cases s e).resolve_left hchanges
      have hlt := hmoves.work_lt hs
      have hrest := ih (hmoves.sane hs hfiles) hmore
      simp only [List.length_cons]
      omega

/-- Only so many steps can change something, and wherever a read has come to, it can go on to its
end. -/
structure Ends (j : ReadJob) (kept : KeptIndexes) : Prop where
  bounded : ∃ bound, ∀ events, j.ChangesEach (.start kept) events → events.length ≤ bound
  completes : ∀ events, ∃ more r, j.outcome? (j.run (.start kept) (events ++ more)) = some r

theorem ends {kept : KeptIndexes} (hsteady : j.table.Steady j.schema files kept)
    (hfiles : ∀ task ∈ j.tasks, ∀ f ∈ task.deletes, f ∈ files) (hworkers : 1 ≤ j.workers) :
    j.Ends kept where
  bounded :=
    ⟨j.work Reader.remaining (.start kept), fun _ => length_le_work (sane_start hsteady) hfiles⟩
  completes events := by
    have hs := (sane_start hsteady).run hfiles events
    obtain ⟨more, r, hr⟩ := exists_outcome hs hfiles hworkers
    refine ⟨more, r, ?_⟩
    rw [run, List.foldl_append]
    exact hr

/-- What comes out is what the tasks give alone, in their order. -/
theorem exists_run_iff {kept : KeptIndexes} (hsteady : j.table.Steady j.schema files kept)
    (hfiles : ∀ task ∈ j.tasks, ∀ f ∈ task.deletes, f ∈ files) (hworkers : 1 ≤ j.workers)
    {r : Except Error (List Batch)} :
    (∃ events, j.outcome? (j.run (.start kept) events) = some r) ↔
      r = (j.tasks.mapM (j.table.readAnew j.schema j.fields)).map List.flatten := by
  have hunique : ∀ events r, j.outcome? (j.run (.start kept) events) = some r →
      r = (j.tasks.mapM (j.table.readAnew j.schema j.fields)).map List.flatten := by
    intro events r hr
    unfold outcome? at hr
    split at hr
    · exact ((sane_start hsteady).run hfiles events).eq_of_result hr
    · cases hr
  constructor
  · rintro ⟨events, hr⟩
    exact hunique events r hr
  · intro hr
    obtain ⟨events, r', hr'⟩ := (ends hsteady hfiles hworkers).completes []
    rw [hr, ← hunique _ r' hr']
    exact ⟨events, hr'⟩

/-! ## Rounds -/

theorem Moves.ne (h : j.Moves s s') (hs : j.Sane files s) : s' ≠ s := by
  rintro rfl
  exact Nat.lt_irrefl _ (h.work_lt hs)

/-- A round has all steps that can change something. -/
theorem mem_roundEvents_of_ne {e : ReadEvent} (h : j.step s e ≠ s) : e ∈ j.roundEvents := by
  cases e with
  | begin =>
      have hsome : j.tasks ≠ [] := by
        intro hnone
        refine h ?_
        rw [step, begin, first?, hnone]
        rfl
      simpa [roundEvents] using hsome
  | advance k =>
      have hk : k < j.tasks.length := by
        refine Nat.lt_of_not_le fun hle => h ?_
        rw [step, advance, List.getElem?_eq_none hle]
      simp [roundEvents, hk]
  | collect => simp [roundEvents]
  | cancel k =>
      have hk : k < j.tasks.length := by
        refine Nat.lt_of_not_le fun hle => h ?_
        rw [step, cancel, if_neg fun hlt => Nat.not_lt.2 hle hlt.1]
        split <;> rfl
      simp [roundEvents, hk]

/-- A step that changes nothing once never will. -/
theorem run_replicate_of_step_eq {e : ReadEvent} (h : j.step s e = s) (count : Nat) :
    j.run s (List.replicate count e) = s := by
  induction count with
  | zero => rfl
  | succ count ih => rwa [List.replicate_succ, run, List.foldl_cons, h]

theorem step_advance_of_reading (htask : j.tasks[k]? = some task) {reader : Reader}
    {bs : List Batch} (hk : s.phase k = .reading reader bs) :
    j.step s (.advance k) = s.move k (.afterRead reader bs) := by
  rw [step, advance, htask, hk]

theorem move_move (s : ParallelRead) (k : Nat) (p q : TaskPhase) :
    (s.move k p).move k q = s.move k q := by
  simp only [ParallelRead.move, ParallelRead.mk.injEq, true_and, and_true]
  funext i
  split <;> rfl

/-- A task whose data file is open reads to the end. -/
theorem exists_run_replicate_advance (htask : j.tasks[k]? = some task) {reader : Reader}
    {bs : List Batch} (hk : s.phase k = .reading reader bs) :
    ∃ r, j.run s (List.replicate (reader.remaining + 1) (.advance k)) = s.move k (.ended r) := by
  induction hcount : reader.remaining generalizing s reader bs with
  | zero =>
      rcases TaskPhase.afterRead_cases reader bs with ⟨r, hend⟩ | ⟨rest, more, -, hremaining⟩
      · refine ⟨r, ?_⟩
        rw [List.replicate_one, run, List.foldl_cons, step_advance_of_reading htask hk, hend]
        rfl
      · omega
  | succ count ih =>
      rw [List.replicate_succ, run, List.foldl_cons, step_advance_of_reading htask hk]
      rcases TaskPhase.afterRead_cases reader bs with ⟨r, hend⟩ | ⟨rest, more, hmore, hremaining⟩
      · refine ⟨r, ?_⟩
        rw [hend]
        have hstays : j.step (s.move k (.ended r)) (.advance k) = s.move k (.ended r) := by
          refine advance_of_not_running ?_
          rw [phase_move_self]
          rfl
        exact run_replicate_of_step_eq hstays _
      · obtain ⟨r, hr⟩ := ih (s := s.move k (.reading rest more)) phase_move_self (by omega)
        rw [hmore]
        exact ⟨r, hr.trans (move_move ..)⟩

/-- Steps other than its own leave a task that has opened its data file where it is. -/
theorem phase_step_of_reading {e : ReadEvent} {reader : Reader} {bs : List Batch}
    (hk : s.phase k = .reading reader bs) (he : e ≠ .advance k) :
    (j.step s e).phase k = s.phase k := by
  have hmoved : ∀ {i p}, (s.phase i).isQueued = true → (s.move i p).phase k = s.phase k := by
    intro i p hi
    refine phase_move_of_ne ?_
    rintro rfl
    rw [hk] at hi
    cases hi
  cases e with
  | begin =>
      rw [step, begin]
      cases hfirst : j.first? s with
      | none => rfl
      | some i =>
          have hqueued := List.find?_some (p := fun k => (s.phase k).isQueued) hfirst
          simp only
          split
          · exact hmoved hqueued
          · rfl
  | advance i =>
      have hne : k ≠ i := by
        rintro rfl
        exact he rfl
      rw [step, advance]
      split
      · split
        · rw [getIndex]
          cases s.calls with
          | none => exact phase_move_of_ne hne
          | some calls =>
              simp only
              split
              · exact phase_move_of_ne hne
              · rfl
        · exact phase_move_of_ne hne
      · exact phase_move_of_ne hne
      · rfl
  | collect =>
      rw [step, collect]
      split
      · rfl
      · split
        · rfl
        · split <;> rfl
  | cancel i =>
      rw [step, cancel]
      split
      · split
        · rename_i hi
          exact hmoved hi.2
        · rfl
      · rfl
      · rfl

/-- What is left when open readers do not count. -/
abbrev roundWork (j : ReadJob) (s : ParallelRead) : Nat := j.work (fun _ => 0) s

/-- A turn lowers what is left, unless the step changes nothing. -/
theorem turn_cases (hs : j.Sane files s) (e : ReadEvent) :
    (j.step s e = s ∧ j.turn s e = s) ∨ j.roundWork (j.turn s e) < j.roundWork s := by
  by_cases hopen : ∃ k reader bs, e = .advance k ∧ s.phase k = .reading reader bs
  · obtain ⟨k, reader, bs, rfl, hk⟩ := hopen
    have hturn : j.turn s (.advance k) =
        j.run s (List.replicate (reader.remaining + 1) (.advance k)) := by
      rw [turn]
      simp only [hk]
    cases htask : j.tasks[k]? with
    | none =>
        have hstep : j.step s (.advance k) = s := by
          rw [step, advance, htask]
        exact .inl ⟨hstep, hturn.trans (run_replicate_of_step_eq hstep _)⟩
    | some task =>
        right
        obtain ⟨r, hr⟩ := exists_run_replicate_advance htask hk
        rw [hturn, hr]
        refine work_move_lt htask ?_
        rw [hk]
        exact Nat.succ_pos _
  · have hturn : j.turn s e = j.step s e := by
      cases e with
      | advance k =>
          rw [turn]
          cases hk : s.phase k with
          | reading reader bs => exact absurd ⟨k, reader, bs, rfl, hk⟩ hopen
          | queued | cancelled | loading is | ended r => rfl
      | begin | collect | cancel k => rfl
    rw [hturn]
    rcases j.step_cases s e with hsame | hmoves
    · exact .inl ⟨hsame, hsame⟩
    right
    refine hmoves.work_lt_of_read hs fun k reader bs hk hread files batches rank => ?_
    -- Nobody else reads a batch of a task.
    have hphase : (j.step s e).phase k = s.phase k :=
      phase_step_of_reading hk fun he => hopen ⟨k, reader, bs, he, hk⟩
    rw [hread, phase_move_self, hk] at hphase
    rcases TaskPhase.afterRead_cases reader bs with ⟨r, hend⟩ | ⟨rest, more, hmore, hremaining⟩
    · rw [hend] at hphase
      cases hphase
    · rw [hmore] at hphase
      cases hphase
      omega

/-- A turn consists of steps. -/
theorem exists_run_turn (j : ReadJob) (s : ParallelRead) (e : ReadEvent) :
    ∃ events, j.turn s e = j.run s events := by
  cases e with
  | advance k =>
      rw [turn]
      cases s.phase k with
      | reading reader bs => exact ⟨_, rfl⟩
      | queued | cancelled | loading is | ended r => exact ⟨[.advance k], rfl⟩
  | begin => exact ⟨[.begin], rfl⟩
  | collect => exact ⟨[.collect], rfl⟩
  | cancel k => exact ⟨[.cancel k], rfl⟩

theorem exists_run_turns (j : ReadJob) (s : ParallelRead) (turns : List ReadEvent) :
    ∃ events, turns.foldl j.turn s = j.run s events := by
  induction turns generalizing s with
  | nil => exact ⟨[], rfl⟩
  | cons e turns ih =>
      obtain ⟨first, hfirst⟩ := j.exists_run_turn s e
      obtain ⟨more, hmore⟩ := ih (j.turn s e)
      refine ⟨first ++ more, ?_⟩
      rw [List.foldl_cons, hmore, hfirst]
      exact List.foldl_append.symm

theorem exists_run_round (j : ReadJob) (s : ParallelRead) : ∃ events, j.round s = j.run s events :=
  j.exists_run_turns s j.roundEvents

theorem roundWork_turns_le (hs : j.Sane files s)
    (hfiles : ∀ task ∈ j.tasks, ∀ f ∈ task.deletes, f ∈ files) (turns : List ReadEvent) :
    j.roundWork (turns.foldl j.turn s) ≤ j.roundWork s := by
  induction turns generalizing s with
  | nil => exact Nat.le_refl _
  | cons e turns ih =>
      obtain ⟨events, hevents⟩ := j.exists_run_turn s e
      have hrest := ih (hevents ▸ hs.run hfiles events)
      rw [List.foldl_cons]
      rcases turn_cases hs e with ⟨-, hsame⟩ | hlt
      · rwa [hsame] at hrest ⊢
      · exact hrest.trans hlt.le

/-- If some of the steps would change something, then their turns do. -/
theorem roundWork_turns_lt (hs : j.Sane files s)
    (hfiles : ∀ task ∈ j.tasks, ∀ f ∈ task.deletes, f ∈ files) {turns : List ReadEvent}
    {e : ReadEvent} (he : e ∈ turns) (h : j.step s e ≠ s) :
    j.roundWork (turns.foldl j.turn s) < j.roundWork s := by
  induction turns with
  | nil => cases he
  | cons e' turns ih =>
      rw [List.foldl_cons]
      rcases turn_cases hs e' with ⟨hstep, hsame⟩ | hlt
      · rcases List.mem_cons.1 he with rfl | he
        · exact absurd hstep h
        · rw [hsame]
          exact ih he
      · obtain ⟨events, hevents⟩ := j.exists_run_turn s e'
        exact (roundWork_turns_le (hevents ▸ hs.run hfiles events) hfiles turns).trans_lt hlt

/-- What comes out of rounds comes out of their steps. -/
theorem exists_run_of_finish {rounds : Nat} {p : Except Error (List Batch) × ParallelRead}
    (h : j.finish rounds s = some p) :
    ∃ events, p.2 = j.run s events ∧ j.outcome? (j.run s events) = some p.1 := by
  induction rounds generalizing s with
  | zero => cases h
  | succ rounds ih =>
      rw [finish] at h
      cases hopen : j.outcome? s with
      | some r =>
          rw [hopen] at h
          cases h
          exact ⟨[], rfl, hopen⟩
      | none =>
          rw [hopen] at h
          obtain ⟨first, hfirst⟩ := j.exists_run_round s
          obtain ⟨events, hlast, hr⟩ := ih h
          have hrun : j.run (j.round s) events = j.run s (first ++ events) := by
            rw [hfirst]
            exact List.foldl_append.symm
          exact ⟨first ++ events, hlast.trans hrun, hrun ▸ hr⟩

/-- **Rounds come to an end.** -/
theorem exists_finish (hs : j.Sane files s)
    (hfiles : ∀ task ∈ j.tasks, ∀ f ∈ task.deletes, f ∈ files) (hworkers : 1 ≤ j.workers)
    {rounds : Nat} (hrounds : j.roundWork s < rounds) : ∃ p, j.finish rounds s = some p := by
  induction rounds generalizing s with
  | zero => omega
  | succ rounds ih =>
      rw [finish]
      cases hopen : j.outcome? s with
      | some r => exact ⟨_, rfl⟩
      | none =>
          obtain ⟨e, hmoves⟩ := exists_moves hs hworkers hopen
          have hlt := roundWork_turns_lt hs hfiles (mem_roundEvents_of_ne (hmoves.ne hs))
            (hmoves.ne hs)
          obtain ⟨first, hfirst⟩ := j.exists_run_round s
          have hnext : j.Sane files (j.round s) := hfirst ▸ hs.run hfiles first
          exact ih hnext (Nat.lt_of_lt_of_le hlt (Nat.lt_succ_iff.1 hrounds))

/-- There are rounds enough. -/
theorem roundWork_start_lt (j : ReadJob) (kept : KeptIndexes) :
    j.roundWork (.start kept) < j.rounds := by
  have hopen : ∀ task, j.batchCount (fun _ => 0) task = 0 := by
    intro task
    unfold batchCount
    split <;> rfl
  have hqueued : ∀ k, j.taskWork (fun _ => 0) (.start kept) k =
      (j.tasks[k]?.map fun task => 6 * task.deletes.length + 8).getD 0 := by
    intro k
    rw [taskWork]
    cases j.tasks[k]? with
    | none => rfl
    | some task =>
        change 6 * task.deletes.length + j.batchCount (fun _ => 0) task + 8 = _
        rw [hopen]
        rfl
  have hsum : ∀ tasks : List ScanTask,
      ∑ k ∈ Finset.range tasks.length,
        (tasks[k]?.map fun task => 6 * task.deletes.length + 8).getD 0 =
          6 * (tasks.flatMap (·.deletes)).length + 8 * tasks.length := by
    intro tasks
    induction tasks using List.reverseRecOn with
    | nil => rfl
    | append_singleton tasks task ih =>
        have hbefore : ∀ k ∈ Finset.range tasks.length,
            ((tasks ++ [task])[k]?.map fun task => 6 * task.deletes.length + 8).getD 0 =
              (tasks[k]?.map fun task => 6 * task.deletes.length + 8).getD 0 := by
          intro k hk
          rw [List.getElem?_append_left (Finset.mem_range.1 hk)]
        rw [List.length_append, List.length_singleton, Finset.sum_range_succ,
          Finset.sum_congr rfl hbefore, ih]
        simp
        omega
  have htasks : ∑ k ∈ Finset.range j.tasks.length, j.taskWork (fun _ => 0) (.start kept) k =
      6 * (j.tasks.flatMap (·.deletes)).length + 8 * j.tasks.length := by
    rw [Finset.sum_congr rfl fun k _ => hqueued k]
    exact hsum j.tasks
  unfold roundWork work rounds
  change _ + (j.tasks.length - 0) + 1 < _
  omega

end ReadJob

/-! ## Tables -/

namespace Table

variable {t u : Table} {schema : TableSchema} {fields : List Field} {tasks : List ScanTask}
  {kept : KeptIndexes} {files : List DeleteFile} {workers n : Int}

/-- The columns and rows of the batches of all tasks, if none fails. -/
def tableOf (fields : List Field) (r : Except Error (List Batch)) :
    Except Error (List ColumnField × List (List Value)) := do
  let bs ← r
  let columns ← columnsOf fields
  .ok (columns, bs.flatMap (·.rows))

/-- The columns are found when the batches are there. -/
theorem run_bind_columns {x : Scanning (List Batch)} :
    ((do
      let bs ← x
      let columns ← ExceptT.mk (pure (columnsOf fields))
      pure (columns, bs.flatMap (·.rows)) : Scanning _).run kept).1 =
        tableOf fields (x.run kept).1 := by
  obtain ⟨r, last, hread⟩ : ∃ r last, x.run kept = (r, last) := ⟨_, _, rfl⟩
  rw [hread]
  cases r with
  | error e => rw [Scanning.run_bind_of_error hread]; rfl
  | ok bs =>
      rw [Scanning.run_bind_of_ok hread, tableOf, ok_bind]
      cases columnsOf fields with
      | error e =>
          rw [Scanning.run_bind_of_error (Scanning.run_result_eq_error_iff.2 ⟨rfl, rfl⟩)]
          rfl
      | ok columns =>
          rw [Scanning.run_bind_of_ok (Scanning.run_result_eq_ok_iff.2 ⟨rfl, rfl⟩)]
          rfl

theorem readTable_run : ((t.readTable schema fields tasks).run kept).1 =
    tableOf fields ((t.readAll schema fields tasks).run kept).1 :=
  run_bind_columns

theorem mayRead_iff (hworkers : t.parallelism = .ok workers) (hroom : 1 ≤ workers)
    (hsteady : t.Steady schema files kept)
    (hfiles : ∀ task ∈ tasks, ∀ f ∈ task.deletes, f ∈ files) {r : Except Error (List Batch)} :
    t.MayRead schema fields tasks kept r ↔
      r = (tasks.mapM (t.readAnew schema fields)).map List.flatten := by
  simp only [MayRead, hworkers]
  split
  · rename_i hfew
    rw [← readAll_run_eq hworkers hsteady hfiles, readAll_run hworkers, if_pos hfew]
  · exact ReadJob.exists_run_iff (j := ⟨t, schema, fields, tasks, workers⟩) hsteady hfiles hroom

theorem readInRounds_run (hworkers : t.parallelism = .ok workers) :
    (t.readInRounds schema fields tasks).run kept =
      if workers = 1 ∨ tasks.length ≤ 1 then (t.readAll schema fields tasks).run kept
      else ReadJob.finishAll ⟨t, schema, fields, tasks, workers⟩ kept := by
  rw [readInRounds, Scanning.run_bind_of_ok (Scanning.run_result_eq_ok_iff.2 ⟨hworkers, rfl⟩)]
  split <;> rfl

/-- What is read in rounds may be read, unless a task waits for ever. -/
theorem mayRead_readInRounds {r : Except Error (List Batch)}
    (h : ((t.readInRounds schema fields tasks).run kept).1 = r) (hends : r ≠ .error .blocked) :
    t.MayRead schema fields tasks kept r := by
  unfold MayRead
  cases hworkers : t.parallelism with
  | error e =>
      rw [readInRounds,
        Scanning.run_bind_of_error (Scanning.run_result_eq_error_iff.2 ⟨hworkers, rfl⟩)] at h
      exact h.symm
  | ok workers =>
      rw [readInRounds_run hworkers] at h
      dsimp only
      split at h
      · rename_i hfew
        rw [if_pos hfew, ← h, readAll_run hworkers, if_pos hfew]
      · rename_i hmany
        rw [if_neg hmany]
        rw [ReadJob.finishAll] at h
        cases hfinish : ReadJob.finish ⟨t, schema, fields, tasks, workers⟩ _ (.start kept) with
        | none =>
            rw [hfinish] at h
            exact absurd h.symm hends
        | some p =>
            rw [hfinish] at h
            obtain ⟨events, -, hr⟩ := ReadJob.exists_run_of_finish hfinish
            exact ⟨events, h ▸ hr⟩

/-- A table is read as another one, but one task at a time. -/
structure OneByOne (t u : Table) : Prop where
  log : u.log = t.log
  source : u.source = t.source
  checksBounds : u.checksBounds = t.checksBounds
  parallelism : u.parallelism = .ok 1

/-- Tasks give the same in any order of their steps as one after another. -/
structure ReadsInAnyOrder (t u : Table) (schema : TableSchema) (fields : List Field)
    (tasks : List ScanTask) (kept : KeptIndexes) : Prop where
  batches : ∀ r, t.MayRead schema fields tasks kept r ↔
    r = ((u.readAll schema fields tasks).run kept).1
  table : ∀ r, t.MayRead schema fields tasks kept r →
    tableOf fields r = ((u.readTable schema fields tasks).run kept).1
  /-- The batches are those of each task alone, in the order of the tasks. -/
  alone : ((u.readAll schema fields tasks).run kept).1 =
    (tasks.mapM fun task => ((t.readTask schema fields task).run none).1).map List.flatten
  /-- An error is that of the first task that fails. -/
  failed : ∀ e, ((u.readAll schema fields tasks).run kept).1 = .error e ↔
    ∃ before task after, tasks = before ++ task :: after ∧
      (∀ other ∈ before, ∃ bs, ((t.readTask schema fields other).run none).1 = .ok bs) ∧
      ((t.readTask schema fields task).run none).1 = .error e
  /-- So it is in rounds, and when each task begins behind the end of the one before it. -/
  together : ((t.readTogether schema fields tasks).run kept).1 =
      ((u.readTable schema fields tasks).run kept).1 ∧
    ((t.readTable schema fields tasks).run kept).1 = ((u.readTable schema fields tasks).run kept).1
  ends : ∀ workers, t.parallelism = .ok workers →
    (⟨t, schema, fields, tasks, workers⟩ : ReadJob).Ends kept

theorem readTogether_run : ((t.readTogether schema fields tasks).run kept).1 =
    tableOf fields ((t.readInRounds schema fields tasks).run kept).1 :=
  run_bind_columns

/-- Several workers that take turns read what one of them reads. -/
theorem readInRounds_run_eq (hworkers : t.parallelism = .ok workers) (hroom : 1 ≤ workers)
    (hsteady : t.Steady schema files kept)
    (hfiles : ∀ task ∈ tasks, ∀ f ∈ task.deletes, f ∈ files) :
    ((t.readInRounds schema fields tasks).run kept).1 =
      (tasks.mapM (t.readAnew schema fields)).map List.flatten := by
  rw [readInRounds_run hworkers]
  split
  · exact readAll_run_eq hworkers hsteady hfiles
  · obtain ⟨p, hfinish⟩ := ReadJob.exists_finish (j := ⟨t, schema, fields, tasks, workers⟩)
      (ReadJob.sane_start hsteady) hfiles hroom (ReadJob.roundWork_start_lt _ kept)
    obtain ⟨events, -, hr⟩ := ReadJob.exists_run_of_finish hfinish
    have hp := (ReadJob.exists_run_iff (j := ⟨t, schema, fields, tasks, workers⟩) hsteady hfiles
      hroom).1 ⟨events, hr⟩
    rw [ReadJob.finishAll, hfinish]
    exact hp

/-- **Several tasks at a time are read as one after another.**  With any number of workers, and
whatever the order of the steps of the tasks and of their calls of the cache, all tasks together
give what is read of one task after another: their batches in the order of the tasks, or the error
of the first of them that fails.  Indexes that are kept were loaded with the same schema, and delete
files that share a key of the cache come in one format. -/
theorem readsInAnyOrder (hworkers : t.options.number Options.scanParallelism = .ok n)
    (honce : t.OneByOne u)
    (hkept : ∀ c ∈ kept, KeysFixFormats files ∧ Filled t.source (files.map fun f => (schema, f)) c)
    (hfiles : ∀ task ∈ tasks, ∀ f ∈ task.deletes, f ∈ files) :
    t.ReadsInAnyOrder u schema fields tasks kept := by
  have hsteady : t.Steady schema files kept := hkept
  have hparallel : t.parallelism = .ok (max 1 n) := by
    rw [parallelism, hworkers]
    rfl
  have hroom : 1 ≤ max 1 n := Int.le_max_left 1 n
  have hsteady' : u.Steady schema files kept := by
    rw [Steady, honce.source]
    exact hsteady
  have halone : ((u.readAll schema fields tasks).run kept).1 =
      (tasks.mapM (t.readAnew schema fields)).map List.flatten := by
    rw [readAll_run_eq honce.parallelism hsteady' hfiles,
      readAnew_congr honce.log honce.source honce.checksBounds]
  have hbatches : ∀ r, t.MayRead schema fields tasks kept r ↔
      r = ((u.readAll schema fields tasks).run kept).1 := by
    intro r
    rw [halone]
    exact mayRead_iff hparallel hroom hsteady hfiles
  refine ⟨hbatches, fun r hr => ?_, ?_, fun e => ?_, ⟨?_, ?_⟩, fun workers h => ?_⟩
  · rw [readTable_run, (hbatches r).1 hr]
  · simp only [halone, readTask_run_none]
  · simp only [halone, readTask_run_none]
    rw [map_eq_error_iff, mapM_eq_error_iff]
  · rw [readTogether_run, readTable_run, halone,
      readInRounds_run_eq hparallel hroom hsteady hfiles]
  · rw [readTable_run, readTable_run, halone, readAll_run_eq hparallel hsteady hfiles]
  · cases hparallel.symm.trans h
    exact ReadJob.ends (j := ⟨t, schema, fields, tasks, _⟩) hsteady hfiles hroom

/-! ## Two tasks that share their delete files -/

/-- A table whose tasks are read by some workers. -/
def noteTableWith (workers : Int) : Table :=
  { noteTable [columnA, columnB] [renamedA, columnB, columnC] with
    options := .ofList [(Options.scanParallelism.key, .int workers)] }

/-- There is room for one index only, so that the tasks may drop what the other one needs. -/
theorem readsInAnyOrder_noteTableWith :
    let t := noteTableWith 2
    let u := noteTableWith 1
    let kept : KeptIndexes := some ⟨1, [], [], 0⟩
    t.options.number Options.scanParallelism = .ok 2 ∧ t.OneByOne u ∧
      (∀ c ∈ kept, KeysFixFormats noteDeletes ∧
        Filled t.source (noteDeletes.map fun f => (t.log.schema, f)) c) ∧
      (∀ task ∈ noteTasks, ∀ f ∈ task.deletes, f ∈ noteDeletes) ∧
      t.ReadsInAnyOrder u t.log.schema [columnC, renamedA] noteTasks kept ∧
      ∀ r, t.MayRead t.log.schema [columnC, renamedA] noteTasks kept r →
        (tableOf [columnC, renamedA] r).toOption.map (·.2) =
          some [[.null, .int 3], [.null, .int 5]] := by
  intro t u kept
  have hworkers : t.options.number Options.scanParallelism = .ok 2 := rfl
  have honce : t.OneByOne u := ⟨rfl, rfl, rfl, rfl⟩
  have hkept : ∀ c ∈ kept, KeysFixFormats noteDeletes ∧
      Filled t.source (noteDeletes.map fun f => (t.log.schema, f)) c := by
    intro c hc
    obtain rfl := Option.some.inj hc
    refine ⟨?_, ⟨rfl, by decide, by simp⟩⟩
    simp [KeysFixFormats, noteDeletes, notePositions, noteKeys]
  have hfiles : ∀ task ∈ noteTasks, ∀ f ∈ task.deletes, f ∈ noteDeletes := by
    simp [noteTasks]
  have hreads : t.ReadsInAnyOrder u t.log.schema [columnC, renamedA] noteTasks kept :=
    readsInAnyOrder hworkers honce hkept hfiles
  refine ⟨hworkers, honce, hkept, hfiles, hreads, fun r hr => ?_⟩
  rw [hreads.table r hr]
  decide +kernel

/-- The second task waits for an index that the first one is at work on, and its call is answered
when the first one has ended its build. -/
example :
    let t := noteTableWith 2
    let j : ReadJob := ⟨t, t.log.schema, [columnC, renamedA], noteTasks, 2⟩
    let begun := j.run (.start (some ⟨1, [], [], 0⟩))
      [.begin, .begin, .advance 0, .advance 0, .advance 1, .advance 1]
    let served := j.run begun [.advance 0, .advance 0, .advance 0, .advance 1]
    begun.calls.map (fun calls => calls.phase (j.call 1 0)) = some (.waiting 0) ∧
      served.calls.bind (fun calls => (calls.phase (j.call 1 0)).answer?) =
        some (notePositions.load t.source t.log.schema) := by
  exact ⟨rfl, rfl⟩

/-- The delete file `e` can only be read as an avro file. -/
def avroTableWith (workers : Int) : Table :=
  let t := noteTableWith workers
  { t with
    source path format columns :=
      if path = "e" ∧ format ≠ "avro" then
        .error (.scan (.undecodableFile format .undecodable) (some path))
      else t.source path format columns }

/-- Two tasks that name the delete file `e` in two formats. -/
def mixedTasks : List ScanTask :=
  [⟨noteFile "d2" 2, [notePositions, { noteKeys with format := "avro" }]⟩,
    ⟨noteFile "d1" 3, [noteKeys]⟩]

/-- The second task ends before the first one takes a step. -/
def secondFirst : List ReadEvent :=
  [.begin, .begin] ++ List.replicate 6 (.advance 1) ++ List.replicate 17 (.advance 0) ++
    [.collect, .collect]

/-- **Formats must be fixed by keys.**  One task after another, the second one is served with the
index that the first one has loaded; when it is faster, it fails. -/
theorem not_readsInAnyOrder_mixedTasks :
    let t := avroTableWith 2
    let u := avroTableWith 1
    let kept : KeptIndexes := some ⟨2, [], [], 0⟩
    t.options.number Options.scanParallelism = .ok 2 ∧ t.OneByOne u ∧
      (∀ c ∈ kept, Filled t.source [] c) ∧
      ((u.readTable t.log.schema [columnC, renamedA] mixedTasks).run kept).1.toOption.map (·.2) =
        some [[.null, .int 5], [.null, .int 1], [.null, .int 3]] ∧
      (∃ e, t.MayRead t.log.schema [columnC, renamedA] mixedTasks kept (.error e)) ∧
      ¬t.ReadsInAnyOrder u t.log.schema [columnC, renamedA] mixedTasks kept := by
  intro t u kept
  have hfilled : ∀ c ∈ kept, Filled t.source [] c := by
    intro c hc
    obtain rfl := Option.some.inj hc
    exact ⟨rfl, by decide, by simp⟩
  have hread : ((u.readTable t.log.schema [columnC, renamedA] mixedTasks).run
      kept).1.toOption.map (·.2) =
        some [[.null, .int 5], [.null, .int 1], [.null, .int 3]] := by
    decide +kernel
  have hfails : ∃ e, t.MayRead t.log.schema [columnC, renamedA] mixedTasks kept (.error e) := by
    let j : ReadJob := ⟨t, t.log.schema, [columnC, renamedA], mixedTasks, 2⟩
    have hends : (j.outcome? (j.run (.start kept) secondFirst)).map (·.toOption.isNone) =
        some true := by
      decide +kernel
    obtain ⟨r, hr, hnone⟩ := Option.map_eq_some_iff.1 hends
    cases r with
    | ok bs => cases hnone
    | error e => exact ⟨e, secondFirst, hr⟩
  refine ⟨rfl, ⟨rfl, rfl, rfl, rfl⟩, hfilled, hread, hfails, fun hreads => ?_⟩
  obtain ⟨e, he⟩ := hfails
  rw [← hreads.table _ he] at hread
  cases hread

end Table

end MergeOnRead
