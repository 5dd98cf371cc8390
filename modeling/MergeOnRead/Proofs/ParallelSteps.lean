import MergeOnRead.Proofs.SharedBuilds
import MergeOnRead.Proofs.TasksAlone

/-!
# Steps of tasks side by side

Tasks that are read at the same time share nothing but the cache of their indexes.  So what a task
has come to is what it comes to alone (`TaskPhase.Fits`), provided that every answer of the cache is
what the loader of its key gives.

## Strategy

* `Moves` lists what a step can be, with what it finds and what it leaves, and `step_cases` says
  that there is nothing else;
* `Sane` is the invariant.  Most steps bring one task to another phase, and for these it is enough
  to look at that task (`Sane.of_move`);
* a call of the cache that has begun and has no answer yet is that of a task which is about to get
  an index (`Sane.owned`), so a task that goes on leaves no call behind.
-/

namespace MergeOnRead

/-! ## Steps of one task -/

namespace TaskPhase

variable {t : Table} {schema : TableSchema} {fields : List Field} {task : ScanTask}
  {is : List DeleteIndex} {reader : Reader} {bs : List Batch}

/-- What a task has got, together with what is left, is what it gets alone. -/
def Fits (t : Table) (schema : TableSchema) (fields : List Field) (task : ScanTask) :
    TaskPhase → Prop
  | .queued | .cancelled => True
  | .loading is =>
    ((task.deletes.drop is.length).mapM (DeleteFile.load · t.source schema)).map (is ++ ·) =
      task.deletes.mapM (DeleteFile.load · t.source schema)
  | .reading reader bs => (Table.drained reader).map (bs ++ ·) = t.readAnew schema fields task
  | .ended r => r = t.readAnew schema fields task

theorem fits_loading_nil : (loading []).Fits t schema fields task :=
  map_self _

theorem Fits.afterLoad (h : (loading is).Fits t schema fields task) {f : DeleteFile}
    (hf : task.deletes[is.length]? = some f) :
    (afterLoad is (f.load t.source schema)).Fits t schema fields task := by
  obtain ⟨hlt, rfl⟩ := List.getElem?_eq_some_iff.1 hf
  rw [Fits, List.drop_eq_getElem_cons hlt, List.mapM_cons] at h
  cases hload : task.deletes[is.length].load t.source schema with
  | error e =>
      rw [hload] at h
      change .error e = t.readAnew schema fields task
      rw [Table.readAnew, Table.readerAnew, ← h]
      rfl
  | ok i =>
      rw [hload, ok_bind] at h
      rw [TaskPhase.afterLoad, Fits, ← h, List.length_append, List.length_singleton]
      cases (task.deletes.drop (is.length + 1)).mapM (DeleteFile.load · t.source schema) with
      | error e => rfl
      | ok more => simp [Except.map, pure, Except.pure]

/-- A task that has all its indexes opens the reader that it opens alone. -/
theorem Fits.readerAnew_eq (h : (loading is).Fits t schema fields task)
    (hend : task.deletes[is.length]? = none) :
    t.readerAnew schema fields task = t.readerOver schema fields task.file is := by
  rw [Fits, List.drop_eq_nil_of_le (List.getElem?_eq_none_iff.1 hend)] at h
  have hall : task.deletes.mapM (DeleteFile.load · t.source schema) = .ok is := by
    rw [← h]
    simp [Except.map, pure, Except.pure]
  rw [Table.readerAnew, hall, ok_bind]

theorem Fits.afterOpen (h : (loading is).Fits t schema fields task)
    (hend : task.deletes[is.length]? = none) :
    (afterOpen (t.readerOver schema fields task.file is)).Fits t schema fields task := by
  have hreader := h.readerAnew_eq hend
  cases hopened : t.readerOver schema fields task.file is with
  | error e =>
      change .error e = t.readAnew schema fields task
      rw [Table.readAnew, hreader, hopened, error_bind]
  | ok reader =>
      rw [TaskPhase.afterOpen, Fits, Table.readAnew, hreader, hopened, ok_bind]
      exact map_self _

theorem Fits.afterRead (h : (reading reader bs).Fits t schema fields task) :
    (afterRead reader bs).Fits t schema fields task := by
  rw [Fits, Table.drained_eq] at h
  rw [TaskPhase.afterRead]
  cases hbatch : reader.readBatch with
  | mk found rest =>
      rw [hbatch] at h
      rcases found with e | _ | b
      · exact h
      · rw [Fits, ← h]
        simp [Except.map]
      · dsimp only at h
        rw [Fits, ← h]
        cases Table.drained rest with
        | error e => rfl
        | ok more => simp [Except.map]

theorem afterLoad_ne_cancelled (is : List DeleteIndex) (r : Except Error DeleteIndex) :
    afterLoad is r ≠ .cancelled := by
  cases r <;> nofun

theorem afterOpen_ne_cancelled (r : Except Error Reader) : afterOpen r ≠ .cancelled := by
  cases r <;> nofun

theorem afterRead_ne_cancelled (reader : Reader) (bs : List Batch) :
    afterRead reader bs ≠ .cancelled := by
  rw [afterRead]
  split <;> nofun

end TaskPhase

/-! ## What a step can be -/

namespace ReadJob

variable {j : ReadJob} {s s' : ParallelRead} {k : Nat} {task : ScanTask} {is : List DeleteIndex}
  {f : DeleteFile} {files : List DeleteFile} {calls : CacheCalls DeleteIndex}

/-- A task is about to get the index of its next delete file. -/
structure Gets (j : ReadJob) (phase : Nat → TaskPhase) (k : Nat) (is : List DeleteIndex)
    (f : DeleteFile) : Prop where
  task : ∃ task, j.tasks[k]? = some task ∧ task.deletes[is.length]? = some f
  phase : phase k = .loading is

/-- What can happen in a step that changes something. -/
inductive Moves (j : ReadJob) (s : ParallelRead) : ParallelRead → Prop where
  | begin {k : Nat} {task : ScanTask} (htask : j.tasks[k]? = some task)
      (hk : s.phase k = .queued) : Moves j s (s.move k (.loading []))
  | load {k : Nat} {is : List DeleteIndex} {f : DeleteFile} (hgets : j.Gets s.phase k is f)
      (hcalls : s.calls = none) :
      Moves j s (s.move k (.afterLoad is (f.load j.table.source j.schema)))
  | answer {k : Nat} {is : List DeleteIndex} {f : DeleteFile} {calls : CacheCalls DeleteIndex}
      {r : Except Error DeleteIndex} (hgets : j.Gets s.phase k is f) (hcalls : s.calls = some calls)
      (hr : (calls.phase (j.call k is.length)).answer? = some r) :
      Moves j s (s.move k (.afterLoad is r))
  | call {k : Nat} {is : List DeleteIndex} {f : DeleteFile} {calls : CacheCalls DeleteIndex}
      (hgets : j.Gets s.phase k is f) (hcalls : s.calls = some calls)
      (hanswer : (calls.phase (j.call k is.length)).answer? = none)
      (hgoes : ¬calls.Stalls (j.call k is.length)) :
      Moves j s { s with calls := some (calls.proceed j.key (j.call k is.length)
        (f.load j.table.source j.schema)) }
  | opened {k : Nat} {task : ScanTask} {is : List DeleteIndex} (htask : j.tasks[k]? = some task)
      (hk : s.phase k = .loading is) (hend : task.deletes[is.length]? = none) :
      Moves j s (s.move k (.afterOpen (j.table.readerOver j.schema j.fields task.file is)))
  | read {k : Nat} {task : ScanTask} {reader : Reader} {bs : List Batch}
      (htask : j.tasks[k]? = some task) (hk : s.phase k = .reading reader bs) :
      Moves j s (s.move k (.afterRead reader bs))
  | collect {bs : List Batch} (hnone : s.result = none)
      (hmore : s.collected.length ≠ j.tasks.length)
      (hk : s.phase s.collected.length = .ended (.ok bs)) :
      Moves j s { s with collected := s.collected ++ [bs] }
  | fail {e : Error} (hnone : s.result = none) (hmore : s.collected.length ≠ j.tasks.length)
      (hk : s.phase s.collected.length = .ended (.error e)) :
      Moves j s { s with result := some (.error e) }
  | finish (hnone : s.result = none) (hall : s.collected.length = j.tasks.length) :
      Moves j s { s with result := some (.ok s.collected.flatten) }
  | cancel {k : Nat} {task : ScanTask} {e : Error} (hresult : s.result = some (.error e))
      (htask : j.tasks[k]? = some task) (hk : s.phase k = .queued) :
      Moves j s (s.move k .cancelled)

/-- A task that is running goes on, unless its call stalls. -/
theorem moves_advance (htask : j.tasks[k]? = some task)
    (hrunning : (s.phase k).isRunning = true) :
    j.Moves s (j.advance s k) ∨ (j.advance s k = s ∧ ∃ is calls, s.phase k = .loading is ∧
      s.calls = some calls ∧ calls.Stalls (j.call k is.length)) := by
  rw [advance, htask]
  cases hk : s.phase k with
  | loading is =>
      cases hf : task.deletes[is.length]? with
      | none =>
          simp only [hf]
          exact .inl (.opened htask hk hf)
      | some f =>
          have hgets : j.Gets s.phase k is f := ⟨⟨task, htask, hf⟩, hk⟩
          simp only [hf, getIndex]
          cases hcalls : s.calls with
          | none => exact .inl (.load hgets hcalls)
          | some calls =>
              simp only
              cases hanswer : (calls.phase (j.call k is.length)).answer? with
              | some r => exact .inl (.answer hgets hcalls hanswer)
              | none =>
                  by_cases hstalls : calls.Stalls (j.call k is.length)
                  · right
                    refine ⟨?_, is, calls, rfl, rfl, hstalls⟩
                    simp only [CacheCalls.proceed_of_stalls hstalls, ← hcalls]
                  · exact .inl (.call hgets hcalls hanswer hstalls)
  | reading reader bs => exact .inl (.read htask hk)
  | queued | cancelled | ended r =>
      rw [hk] at hrunning
      cases hrunning

theorem advance_of_not_running (h : (s.phase k).isRunning = false) : j.advance s k = s := by
  rw [advance]
  cases j.tasks[k]? with
  | none => rfl
  | some task =>
      cases hk : s.phase k with
      | loading is | reading reader bs =>
          rw [hk] at h
          cases h
      | queued | cancelled | ended r => rfl

theorem eq_queued_of_isQueued {p : TaskPhase} (h : p.isQueued = true) : p = .queued := by
  cases p <;> first | rfl | cases h

/-- A step that changes something is one of the moves. -/
theorem step_cases (j : ReadJob) (s : ParallelRead) (e : ReadEvent) :
    j.step s e = s ∨ j.Moves s (j.step s e) := by
  cases e with
  | begin =>
      rw [step, begin]
      cases hfirst : j.first? s with
      | none => exact .inl rfl
      | some k =>
          simp only
          split
          · have hmem : k ∈ List.range j.tasks.length := List.mem_of_find?_eq_some hfirst
            have htask := List.getElem?_eq_getElem (List.mem_range.1 hmem)
            have hqueued := List.find?_some (p := fun k => (s.phase k).isQueued) hfirst
            exact .inr (.begin htask (eq_queued_of_isQueued hqueued))
          · exact .inl rfl
  | advance k =>
      rw [step]
      cases hrunning : (s.phase k).isRunning with
      | false => exact .inl (advance_of_not_running hrunning)
      | true =>
          cases htask : j.tasks[k]? with
          | none =>
              left
              rw [advance, htask]
          | some task =>
              rcases moves_advance htask hrunning with hmoves | ⟨hsame, -⟩
              · exact .inr hmoves
              · exact .inl hsame
  | collect =>
      rw [step, collect]
      split
      · exact .inl rfl
      · rename_i hnone
        replace hnone : s.result = none := by simpa using hnone
        split
        · rename_i hall
          exact .inr (.finish hnone hall)
        · rename_i hmore
          cases hk : s.phase s.collected.length with
          | ended r =>
              cases r with
              | ok bs => exact .inr (.collect hnone hmore hk)
              | error e => exact .inr (.fail hnone hmore hk)
          | queued | cancelled | loading is | reading reader bs => exact .inl rfl
  | cancel k =>
      rw [step, cancel]
      split
      · rename_i e hresult
        split
        · rename_i hk
          have htask := List.getElem?_eq_getElem hk.1
          exact .inr (.cancel hresult htask (eq_queued_of_isQueued hk.2))
        · exact .inl rfl
      · exact .inl rfl
      · exact .inl rfl

/-! ## The cache -/

/-- What the loader of a key gives. -/
def Gives (j : ReadJob) (files : List DeleteFile) (key : Key) (r : Except Error DeleteIndex) :
    Prop :=
  ∃ f ∈ files, f.cacheKey.key = key ∧ f.load j.table.source j.schema = r

/-- What is known of the calls of the cache. -/
structure Shares (j : ReadJob) (files : List DeleteFile) (calls : CacheCalls DeleteIndex) :
    Prop where
  formats : Table.KeysFixFormats files
  sound : ∃ maxEntries : Int, 1 ≤ maxEntries ∧ calls.Sound j.key maxEntries
  settles : calls.Settles (j.Gives files) j.key

theorem call_mod (hk : k < j.tasks.length) (file : Nat) : j.call k file % j.tasks.length = k := by
  rw [call, Nat.mul_comm, Nat.mul_add_mod, Nat.mod_eq_of_lt hk]

theorem Gets.lt (h : j.Gets s.phase k is f) : k < j.tasks.length := by
  obtain ⟨task, htask, -⟩ := h.task
  exact (List.getElem?_eq_some_iff.1 htask).1

theorem Gets.key (h : j.Gets s.phase k is f) : j.key (j.call k is.length) = f.cacheKey.key := by
  obtain ⟨task, htask, hf⟩ := h.task
  have hfile : j.call k is.length / j.tasks.length = is.length := by
    rw [call, Nat.mul_comm, Nat.mul_add_div (Nat.zero_lt_of_lt h.lt), Nat.div_eq_of_lt h.lt]
    rfl
  rw [ReadJob.key, fileOf?, call_mod h.lt, hfile, htask, Option.bind_some, hf]
  rfl

theorem Gets.mem (h : j.Gets s.phase k is f)
    (hfiles : ∀ task ∈ j.tasks, ∀ f ∈ task.deletes, f ∈ files) : f ∈ files := by
  obtain ⟨task, htask, hf⟩ := h.task
  exact hfiles task (List.mem_of_getElem? htask) f (List.mem_of_getElem? hf)

/-- An answer is what the file gives anew. -/
theorem Shares.answer (h : j.Shares files calls) (hgets : j.Gets s.phase k is f) (hf : f ∈ files)
    {r : Except Error DeleteIndex} (hr : (calls.phase (j.call k is.length)).answer? = some r) :
    r = f.load j.table.source j.schema := by
  obtain ⟨maxEntries, hroom, hsound⟩ := h.sound
  obtain ⟨g, hg, hkey, rfl⟩ := h.settles.answer hsound hroom hr
  exact h.formats.load_eq hg hf (hkey.trans hgets.key)

theorem Shares.proceed (h : j.Shares files calls) (hgets : j.Gets s.phase k is f) (hf : f ∈ files) :
    j.Shares files (calls.proceed j.key (j.call k is.length)
      (f.load j.table.source j.schema)) := by
  obtain ⟨maxEntries, hroom, hsound⟩ := h.sound
  exact ⟨h.formats, ⟨maxEntries, hroom, hsound.proceed⟩,
    h.settles.proceed hsound hroom ⟨f, hf, hgets.key.symm, rfl⟩⟩

/-! ## The invariant -/

/-- Every task has come to what it comes to alone. -/
structure Sane (j : ReadJob) (files : List DeleteFile) (s : ParallelRead) : Prop where
  fits : ∀ k task, j.tasks[k]? = some task → (s.phase k).Fits j.table j.schema j.fields task
  shares : ∀ calls ∈ s.calls, j.Shares files calls
  /-- A call that has no answer yet is that of a task which is about to get an index. -/
  owned : ∀ calls ∈ s.calls, ∀ c, (calls.phase c).isOpen = true →
    ∃ k is f, j.Gets s.phase k is f ∧ c = j.call k is.length
  collected : ∀ k bs, s.collected[k]? = some bs → s.phase k = .ended (.ok bs)
  within : s.collected.length ≤ j.tasks.length
  read : ∀ bs, s.result = some (.ok bs) →
    s.collected.length = j.tasks.length ∧ bs = s.collected.flatten
  failed : ∀ e, s.result = some (.error e) →
    s.collected.length < j.tasks.length ∧ s.phase s.collected.length = .ended (.error e)
  cancelled : ∀ k, s.phase k = .cancelled → ∃ e, s.result = some (.error e)

theorem sane_start {kept : KeptIndexes} (hsteady : j.table.Steady j.schema files kept) :
    j.Sane files (.start kept) := by
  have hcalls : ∀ calls ∈ (ParallelRead.start kept).calls,
      ∃ c ∈ kept, calls = CacheCalls.start c := by
    intro calls hcalls
    obtain ⟨c, hc, rfl⟩ := Option.map_eq_some_iff.1 hcalls
    exact ⟨c, hc, rfl⟩
  refine ⟨fun k task _ => trivial, fun calls h => ?_, fun calls h c hc => ?_, nofun,
    Nat.zero_le _, fun _ h => (by cases h), fun _ h => (by cases h), nofun⟩
  · obtain ⟨c, hc, rfl⟩ := hcalls calls h
    obtain ⟨hformats, hfilled⟩ := hsteady c hc
    refine ⟨hformats, ⟨c.maxEntries, hfilled.bound,
      CacheCalls.sound_start_of_pending hfilled.pending⟩, CacheCalls.settles_start fun e he => ?_⟩
    obtain ⟨p, hp, hkey, hload⟩ := hfilled.loaded e he
    obtain ⟨f, hf, rfl⟩ := List.mem_map.1 hp
    exact ⟨f, hf, hkey, hload⟩
  · obtain ⟨c, hc, rfl⟩ := hcalls calls h
    cases hc

theorem phase_move_of_ne {k' : Nat} {p : TaskPhase} (h : k' ≠ k) :
    (s.move k p).phase k' = s.phase k' := if_neg h

theorem phase_move_self {p : TaskPhase} : (s.move k p).phase k = p := if_pos rfl

/-- A task that has not ended may come to another phase that fits, unless it leaves a call
behind. -/
theorem Sane.of_move (hs : j.Sane files s) {p : TaskPhase} (htask : j.tasks[k]? = some task)
    (hlive : ((s.phase k).isQueued || (s.phase k).isRunning) = true)
    (hidle : ∀ calls ∈ s.calls, ∀ is f, j.Gets s.phase k is f →
      (calls.phase (j.call k is.length)).isOpen = false)
    (hfits : p.Fits j.table j.schema j.fields task)
    (hcancelled : p = .cancelled → ∃ e, s.result = some (.error e)) :
    j.Sane files (s.move k p) where
  fits k' task' htask' := by
    by_cases hk : k' = k
    · subst hk
      rw [phase_move_self]
      cases htask.symm.trans htask'
      exact hfits
    · rw [phase_move_of_ne hk]
      exact hs.fits k' task' htask'
  shares := hs.shares
  owned calls hcalls c hc := by
    obtain ⟨k', is, f, hgets, rfl⟩ := hs.owned calls hcalls c hc
    refine ⟨k', is, f, ⟨hgets.task, ?_⟩, rfl⟩
    rw [phase_move_of_ne]
    · exact hgets.phase
    · rintro rfl
      rw [hidle calls hcalls is f hgets] at hc
      cases hc
  collected k' bs hk' := by
    have hended := hs.collected k' bs hk'
    rw [phase_move_of_ne]
    · exact hended
    · rintro rfl
      rw [hended] at hlive
      cases hlive
  within := hs.within
  read := hs.read
  failed e he := by
    obtain ⟨hlt, hended⟩ := hs.failed e he
    refine ⟨hlt, ?_⟩
    change (s.move k p).phase s.collected.length = _
    rw [phase_move_of_ne]
    · exact hended
    · rintro rfl
      rw [hended] at hlive
      cases hlive
  cancelled k' hk' := by
    by_cases hk : k' = k
    · subst hk
      rw [phase_move_self] at hk'
      exact hcancelled hk'
    · rw [phase_move_of_ne hk] at hk'
      exact hs.cancelled k' hk'

theorem Gets.eq_of_phase {is' : List DeleteIndex} (h : j.Gets s.phase k is f)
    (hk : s.phase k = .loading is') : is = is' := by
  have hphase := h.phase
  rw [hk] at hphase
  cases hphase
  rfl

theorem not_gets_of_phase (hk : ∀ is, s.phase k ≠ .loading is) : ¬j.Gets s.phase k is f :=
  fun h => hk is h.phase

/-- A move keeps the invariant. -/
theorem Moves.sane (h : j.Moves s s') (hs : j.Sane files s)
    (hfiles : ∀ task ∈ j.tasks, ∀ f ∈ task.deletes, f ∈ files) : j.Sane files s' := by
  cases h with
  | begin htask hk =>
      refine hs.of_move htask (by rw [hk]; rfl) (fun calls _ is f hgets => ?_)
        TaskPhase.fits_loading_nil nofun
      exact absurd hgets (not_gets_of_phase (by rw [hk]; nofun))
  | @load k is f hgets hcalls =>
      obtain ⟨task, htask, hf⟩ := hgets.task
      have hfits := hs.fits k task htask
      rw [hgets.phase] at hfits
      refine hs.of_move htask (by rw [hgets.phase]; rfl) (fun calls hcalls' => ?_)
        (hfits.afterLoad hf) (fun h => absurd h (TaskPhase.afterLoad_ne_cancelled _ _))
      rw [hcalls] at hcalls'
      cases hcalls'
  | @answer k is f calls r hgets hcalls hr =>
      obtain ⟨task, htask, hf⟩ := hgets.task
      have hfits := hs.fits k task htask
      rw [hgets.phase] at hfits
      obtain rfl := (hs.shares calls hcalls).answer hgets (hgets.mem hfiles) hr
      refine hs.of_move htask (by rw [hgets.phase]; rfl) (fun calls' hcalls' is' f' hgets' => ?_)
        (hfits.afterLoad hf) (fun h => absurd h (TaskPhase.afterLoad_ne_cancelled _ _))
      cases hcalls.symm.trans hcalls'
      rw [hgets'.eq_of_phase hgets.phase]
      exact CallPhase.isOpen_of_answer hr
  | @call k is f calls hgets hcalls hanswer hgoes =>
      refine { hs with shares := fun calls' hcalls' => ?_, owned := fun calls' hcalls' c hc => ?_ }
      · cases hcalls'
        exact (hs.shares calls hcalls).proceed hgets (hgets.mem hfiles)
      · cases hcalls'
        by_cases hd : c = j.call k is.length
        · exact ⟨k, is, f, hgets, hd⟩
        · rw [CacheCalls.phase_proceed_of_ne hd] at hc
          exact hs.owned calls hcalls c hc
  | @opened k task is htask hk hend =>
      have hfits := hs.fits k task htask
      rw [hk] at hfits
      refine hs.of_move htask (by rw [hk]; rfl) (fun calls _ is' f hgets => ?_)
        (hfits.afterOpen hend) (fun h => absurd h (TaskPhase.afterOpen_ne_cancelled _))
      obtain ⟨task', htask', hf⟩ := hgets.task
      cases htask.symm.trans htask'
      rw [hgets.eq_of_phase hk, hend] at hf
      cases hf
  | @read k task reader bs htask hk =>
      have hfits := hs.fits k task htask
      rw [hk] at hfits
      refine hs.of_move htask (by rw [hk]; rfl) (fun calls _ is f hgets => ?_) hfits.afterRead
        (fun h => absurd h (TaskPhase.afterRead_ne_cancelled _ _))
      exact absurd hgets (not_gets_of_phase (by rw [hk]; nofun))
  | @collect bs hnone hmore hk =>
      refine { hs with
        collected := fun k bs' hbs => ?_
        within := ?_
        read := fun bs' hbs => ?_
        failed := fun e he => ?_ }
      · change (s.collected ++ [bs])[k]? = some bs' at hbs
        rw [List.getElem?_append] at hbs
        split at hbs
        · exact hs.collected k bs' hbs
        · obtain ⟨hlt, -⟩ := List.getElem?_eq_some_iff.1 hbs
          obtain rfl := List.mem_singleton.1 (List.mem_of_getElem? hbs)
          have hlast : k = s.collected.length := by
            rw [List.length_singleton] at hlt
            omega
          exact hlast ▸ hk
      · have := hs.within
        rw [List.length_append, List.length_singleton]
        omega
      · cases hnone.symm.trans hbs
      · cases hnone.symm.trans he
  | @fail e hnone hmore hk =>
      refine { hs with read := nofun, failed := fun e' he => ?_, cancelled := fun _ _ => ⟨e, rfl⟩ }
      cases he
      exact ⟨Nat.lt_of_le_of_ne hs.within hmore, hk⟩
  | finish hnone hall =>
      refine { hs with read := fun bs hbs => ?_, failed := nofun, cancelled := fun k hk => ?_ }
      · cases hbs
        exact ⟨hall, rfl⟩
      · obtain ⟨e, he⟩ := hs.cancelled k hk
        cases hnone.symm.trans he
  | cancel hresult htask hk =>
      refine hs.of_move htask (by rw [hk]; rfl) (fun calls _ is f hgets => ?_) trivial
        fun _ => ⟨_, hresult⟩
      exact absurd hgets (not_gets_of_phase (by rw [hk]; nofun))

theorem Sane.step (hs : j.Sane files s)
    (hfiles : ∀ task ∈ j.tasks, ∀ f ∈ task.deletes, f ∈ files) (e : ReadEvent) :
    j.Sane files (j.step s e) := by
  rcases j.step_cases s e with h | h
  · rw [h]
    exact hs
  · exact h.sane hs hfiles

theorem Sane.run (hs : j.Sane files s)
    (hfiles : ∀ task ∈ j.tasks, ∀ f ∈ task.deletes, f ∈ files) (events : List ReadEvent) :
    j.Sane files (j.run s events) := by
  induction events generalizing s with
  | nil => exact hs
  | cons e events ih => exact ih (hs.step hfiles e)

/-! ## What comes out -/

/-- The tasks whose results are collected have been read as they are alone. -/
theorem Sane.readAnew_of_collected (hs : j.Sane files s) {bs : List Batch}
    (htask : j.tasks[k]? = some task) (hbs : s.collected[k]? = some bs) :
    j.table.readAnew j.schema j.fields task = .ok bs := by
  have hfits := hs.fits k task htask
  rw [hs.collected k bs hbs] at hfits
  exact hfits.symm

theorem Sane.mapM_take (hs : j.Sane files s) :
    (j.tasks.take s.collected.length).mapM (j.table.readAnew j.schema j.fields) =
      .ok s.collected := by
  rw [mapM_eq_ok_iff, List.forall₂_iff_get]
  have hwithin := hs.within
  refine ⟨by rw [List.length_take]; omega, fun k hk hk' => ?_⟩
  have hlt : k < j.tasks.length := by omega
  refine hs.readAnew_of_collected (k := k) ?_ (List.getElem?_eq_getElem hk')
  simp [hlt]

/-- **The result is that of the tasks alone, in their order.** -/
theorem Sane.eq_of_result (hs : j.Sane files s) {r : Except Error (List Batch)}
    (hr : s.result = some r) :
    r = (j.tasks.mapM (j.table.readAnew j.schema j.fields)).map List.flatten := by
  have htake := hs.mapM_take
  cases r with
  | ok bs =>
      obtain ⟨hall, rfl⟩ := hs.read bs hr
      rw [hall, List.take_length] at htake
      rw [htake]
      rfl
  | error e =>
      obtain ⟨hlt, hended⟩ := hs.failed e hr
      have hfails := hs.fits _ _ (List.getElem?_eq_getElem hlt)
      rw [hended] at hfails
      have hsplit : j.tasks = j.tasks.take s.collected.length ++
          j.tasks[s.collected.length] :: j.tasks.drop (s.collected.length + 1) := by
        rw [← List.drop_eq_getElem_cons hlt, List.take_append_drop]
      rw [hsplit, List.mapM_append, htake, ok_bind, List.mapM_cons, ← hfails]
      rfl

end ReadJob

end MergeOnRead
