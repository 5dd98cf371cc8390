import MergeOnRead.Log.TableCalls
import MergeOnRead.Proofs.Fields
import MergeOnRead.Proofs.MemoryCommits

/-!
# Commits that fail change nothing

A commit looks at its files and at the current schema before it writes, so it happens as a whole or
not at all.  `TableSession.commitsAtomically_run` says so of every session that calls can lead to:
when a commit fails, that a call that fails leaves everything as it was, and that a change of files
that was rejected for a key field can be committed once the current schema has the field.

Strategy:

* `Holds` relates a session to a log.  With it a commit in memory is a commit to the log
  (`perform_commit`, `perform_commitSchema`), which either fails or gives a new log;
* `Outcome` is what a call can lead to, with one lemma for each kind of call (`Holds.outcome`).  A
  call that goes through loses no schema, no proposal and no file of a change (`Continues`), and
  `Holds.exists_continues_run` takes this over a run;
* what is to be said of a session then follows from the log of the session, and from the log that
  later calls have made of it.
-/

namespace MergeOnRead

/-! ## What a log refuses -/

/-- A schema has the key fields of a delete file. -/
theorem DeleteFile.keyedBy_iff {f : DeleteFile} {schema : TableSchema} :
    f.KeyedBy schema ↔ ∀ id ∈ f.fieldIds, id ∈ schema.fieldIds :=
  forall₂_congr fun id _ => by
    rw [Option.isSome_iff_ne_none, ne_eq, TableSchema.findField?_eq_none_iff, not_not]

/-- A change is refused when it was committed before, or when its files refer to something that is
not there. -/
theorem FileChange.exists_commit_eq_error_iff {c : FileChange} {log : TableLog} :
    (∃ e, c.commit log = .error e) ↔
      c.committed.isSome ∨ (∃ f ∈ c.data, ¬ log.hasSchema f.schemaId = true) ∨
        ∃ f ∈ c.deletes, ∃ id ∈ f.fieldIds, id ∉ log.schema.fieldIds := by
  have hrefused : log.refusal? c.data c.deletes ≠ none ↔
      (∃ f ∈ c.data, ¬ log.hasSchema f.schemaId = true) ∨
        ∃ f ∈ c.deletes, ∃ id ∈ f.fieldIds, id ∉ log.schema.fieldIds := by
    rw [ne_eq, TableLog.refusal?_eq_none_iff, not_and_or]
    simp only [DeleteFile.keyedBy_iff, not_forall, exists_prop]
  rw [← hrefused, FileChange.commit]
  cases c.committed with
  | some s => simp
  | none =>
      rw [TableLog.commitFiles]
      cases log.refusal? c.data c.deletes with
      | some e => simp [bind, Except.bind]
      | none => simp [bind, Except.bind]

/-! ## Sessions in which commits are atomic -/

/-- A schema with a number is in memory. -/
def TableMemory.HasSchema (m : TableMemory) (id : Int) : Prop := ∃ t, m.schemaById id = .ok t

/-- A call adds a file to the file change with a number. -/
def TableCall.AddsTo (number : Nat) : TableCall → Prop
  | .addData n _ => n = number
  | .addDeletes n _ => n = number
  | _ => False

namespace TableSession

/-- A call raises an error. -/
def Fails (s : TableSession) (call : TableCall) : Prop := ∃ e, (perform call s).1 = .error e

/-- The commit of a file change goes through.  It adds one snapshot, with the files of the one
before it and behind them exactly those of the change. -/
structure AddsSnapshot (s : TableSession) (number : Nat) (c : FileChange)
    (parent : Option Snapshot) (snapshot : Snapshot) : Prop where
  succeeds : (perform (.commit number) s).1 = .ok ⟨⟩
  previous : s.memory.currentSnapshot = .ok parent
  current : (s.step (.commit number)).memory.currentSnapshot = .ok (some snapshot)
  found : (s.step (.commit number)).memory.snapshot snapshot.id = .ok snapshot
  all : (s.step (.commit number)).memory.allSnapshots = s.memory.allSnapshots ++ [snapshot]
  data : snapshot.dataFiles = (parent.map (·.dataFiles)).getD [] ++
    c.data.map (·.committed snapshot.sequence snapshot.id)
  deletes : snapshot.deleteFiles = (parent.map (·.deleteFiles)).getD [] ++
    c.deletes.map (·.committed snapshot.sequence snapshot.id)
  changes : (s.step (.commit number)).changes =
    s.changes.set number { c with committed := some snapshot }

/-- Commits happen as a whole or change nothing, and may be tried again. -/
structure CommitsAtomically (s : TableSession) : Prop where
  schema : ∃ t, s.memory.schema = .ok t
  /-- Files cannot be committed twice, nor a data file of an unknown schema, nor a delete file with
  a key field that the current schema does not have. -/
  commit_fails_iff : ∀ number c t, s.changes[number]? = some c → s.memory.schema = .ok t →
    (s.Fails (.commit number) ↔
      c.committed.isSome ∨ (∃ f ∈ c.data, ¬ s.memory.HasSchema f.schemaId) ∨
        ∃ f ∈ c.deletes, ∃ id ∈ f.fieldIds, id ∉ t.fieldIds)
  /-- Only the next version of the schema can be committed. -/
  schema_fails_iff : ∀ schema t, s.memory.schema = .ok t →
    (s.Fails (.commitSchema schema) ↔ schema.id ≠ t.id + 1)
  /-- Up to its commit, a schema change only reads. -/
  proposes : ∀ number, ∃ proposals, s.step (.propose number) = { s with proposals }
  /-- A version that was made for one schema cannot be committed once another one is current. -/
  overtaken_iff : ∀ number c calls, s.updates[number]? = some c → c.changed = true →
    (((s.step (.propose number)).run calls).Fails (.commitProposal s.proposals.length) ↔
      ((s.step (.propose number)).run calls).memory.schema ≠ s.memory.schema)
  /-- A call that fails leaves the metadata and all changes under way as they were. -/
  unchanged : ∀ call, s.Fails call → s.step call = s
  /-- Files that were not committed, perhaps for want of a key field, are committed when the current
  schema has all their key fields, whatever was called in between. -/
  retried : ∀ number c calls t, s.changes[number]? = some c → c.committed = none →
    (∀ f ∈ c.data, s.memory.HasSchema f.schemaId) → (∀ call ∈ calls, ¬ call.AddsTo number) →
    (∀ d ∈ (s.run calls).changes[number]?, d.committed = none) →
    (s.run calls).memory.schema = .ok t → (∀ f ∈ c.deletes, ∀ id ∈ f.fieldIds, id ∈ t.fieldIds) →
    ∃ parent snapshot, (s.run calls).AddsSnapshot number c parent snapshot

/-! ## Calls on a log -/

open Writing

variable {s : TableSession} {log : TableLog}

/-- A session has in memory what a log has. -/
structure Holds (s : TableSession) (log : TableLog) : Prop where
  memory : s.memory = .ofLog log
  numbered : log.Numbered

theorem holds_start (schema : TableSchema) : (start schema).Holds (.start schema) :=
  ⟨TableMemory.start_eq schema, TableLog.numbered_start schema⟩

theorem Holds.schema (hs : s.Holds log) : s.memory.schema = .ok log.schema := by
  rw [hs.memory, TableMemory.schema_ofLog hs.numbered]

theorem onMemory_commitFiles (hs : s.Holds log) (kind : CommitKind) (data : List DataFile)
    (deletes : List DeleteFile) :
    onMemory (TableMemory.commitFiles kind data deletes) s =
      match log.commitFiles kind data deletes with
      | .ok (snapshot, log') => (.ok snapshot, { s with memory := .ofLog log' })
      | .error e => (.error e, s) := by
  rw [onMemory, hs.memory, TableMemory.commitFiles_ofLog hs.numbered]
  cases log.commitFiles kind data deletes with
  | ok result => rfl
  | error e => rw [← hs.memory]

theorem onMemory_commitSchema (hs : s.Holds log) (schema : TableSchema) :
    onMemory (TableMemory.commitSchema schema) s =
      match log.commitSchema schema with
      | .ok log' => (.ok schema, { s with memory := .ofLog log' })
      | .error e => (.error e, s) := by
  rw [onMemory, hs.memory, TableMemory.commitSchema_ofLog hs.numbered]
  cases log.commitSchema schema with
  | ok log' => rfl
  | error e => rw [← hs.memory]

/-- A change of files is committed to the log. -/
theorem perform_commit (hs : s.Holds log) {number : Nat} {c : FileChange}
    (hc : s.changes[number]? = some c) :
    perform (.commit number) s =
      match c.commit log with
      | .ok (_, d, log') =>
        (.ok ⟨⟩, { s with memory := .ofLog log', changes := s.changes.set number d })
      | .error e => (.error e, s) := by
  have hfiles := onMemory_commitFiles hs c.kind c.data c.deletes
  rw [perform, commit, bind_of_ok get_eq, hc, FileChange.commit]
  dsimp only
  cases c.committed with
  | some snapshot => rfl
  | none =>
      rw [if_neg (by simp)]
      cases hcommit : log.commitFiles c.kind c.data c.deletes with
      | error e =>
          rw [hcommit] at hfiles
          exact bind_of_error hfiles
      | ok result =>
          rw [hcommit] at hfiles
          refine (bind_of_ok hfiles).trans ?_
          rw [modify_eq, List.modify_eq_set_getElem?, hc]
          rfl

/-- A schema is committed to the log. -/
theorem perform_commitSchema (hs : s.Holds log) (schema : TableSchema) :
    perform (.commitSchema schema) s =
      match log.commitSchema schema with
      | .ok log' => (.ok ⟨⟩, { s with memory := .ofLog log' })
      | .error e => (.error e, s) := by
  have hschema := onMemory_commitSchema hs schema
  rw [perform]
  cases hcommit : log.commitSchema schema with
  | ok log' =>
      rw [hcommit] at hschema
      exact bind_of_ok hschema
  | error e =>
      rw [hcommit] at hschema
      exact bind_of_error hschema

theorem perform_commitProposal {number : Nat} {schema : TableSchema}
    (hschema : s.proposals[number]? = some schema) :
    perform (.commitProposal number) s = perform (.commitSchema schema) s := by
  rw [perform, bind_of_ok get_eq, hschema]
  rfl

theorem perform_propose (hs : s.Holds log) {number : Nat} {c : SchemaChange}
    (hc : s.updates[number]? = some c) (hchanged : c.changed = true) :
    perform (.propose number) s =
      (.ok ⟨⟩, { s with proposals := s.proposals ++ [c.proposal log.schema] }) := by
  rw [perform, propose, bind_of_ok get_eq, hc]
  dsimp only
  rw [if_pos hchanged, bind_of_ok get_eq, bind_of_ok ((lift_eq _).trans (by rw [hs.schema]))]
  rfl

/-! ## What calls can lead to -/

/-- A session comes after another one: no schema and no proposal is lost, and the files of some
changes are the same. -/
structure Continues (s : TableSession) (log : TableLog) (kept : Nat → Prop) (s' : TableSession)
    (log' : TableLog) : Prop where
  holds : s'.Holds log'
  schemas : log.schemas <:+ log'.schemas
  proposals : s.proposals <+: s'.proposals
  changes : ∀ number c, kept number → s.changes[number]? = some c →
    ∃ committed, s'.changes[number]? = some { c with committed }

/-- A call has failed and changed nothing, or it is done and nothing is lost. -/
inductive Outcome (s : TableSession) (log : TableLog) (kept : Nat → Prop) :
    Except Error Unit × TableSession → Prop where
  | failed (e : Error) : Outcome s log kept (.error e, s)
  | done {s' : TableSession} {log' : TableLog} (continues : s.Continues log kept s' log') :
      Outcome s log kept (.ok ⟨⟩, s')

variable {kept : Nat → Prop}

theorem Holds.continues (hs : s.Holds log) : s.Continues log kept s log :=
  ⟨hs, List.suffix_refl _, List.prefix_refl _, fun _ c _ hc => ⟨c.committed, hc⟩⟩

/-- Nothing is lost when files are added to changes that are not to be kept. -/
theorem Holds.outcome_of_changes (hs : s.Holds log) {changes : List FileChange}
    (hchanges : ∀ number c, kept number → s.changes[number]? = some c →
      changes[number]? = some c) :
    s.Outcome log kept (.ok ⟨⟩, { s with changes }) :=
  .done ⟨⟨hs.memory, hs.numbered⟩, List.suffix_refl _, List.prefix_refl _,
    fun number c hkept hc => ⟨c.committed, hchanges number c hkept hc⟩⟩

/-- Nothing is lost when something about the schema changes is noted. -/
theorem Holds.outcome_of_updates (hs : s.Holds log) (updates : List SchemaChange)
    {proposals : List TableSchema} (hproposals : s.proposals <+: proposals) :
    s.Outcome log kept (.ok ⟨⟩, { s with updates, proposals }) :=
  .done ⟨⟨hs.memory, hs.numbered⟩, List.suffix_refl _, hproposals, hs.continues.changes⟩

theorem Holds.outcome_commit (hs : s.Holds log) (number : Nat) :
    s.Outcome log kept (perform (.commit number) s) := by
  cases hc : s.changes[number]? with
  | none =>
      rw [perform, commit, bind_of_ok get_eq, hc]
      exact .done hs.continues
  | some c =>
      rw [perform_commit hs hc]
      cases hcommit : c.commit log with
      | error e => exact .failed e
      | ok result =>
          obtain ⟨snapshot, d, log'⟩ := result
          obtain ⟨-, -, hsnapshot, rfl, rfl⟩ := FileChange.commit_eq_ok hcommit
          refine .done ⟨⟨rfl, ?_⟩, List.suffix_refl _, List.prefix_refl _, fun n d _ hd => ?_⟩
          · rw [hsnapshot]
            exact hs.numbered.addSnapshot ..
          · -- The change itself is committed now, and the others are not touched.
            dsimp only
            rw [List.getElem?_set]
            by_cases hn : number = n
            · obtain rfl : c = d := Option.some.inj (hc.symm.trans (hn ▸ hd))
              exact ⟨some snapshot, by simp [hn, (List.getElem?_eq_some_iff.1 hd).1]⟩
            · exact ⟨d.committed, by rw [if_neg hn, hd]⟩

theorem Holds.outcome_collect (hs : s.Holds log) (number : Nat) (change : ColumnChange) :
    s.Outcome log kept (perform (.collect number change) s) := by
  rw [perform, collect, bind_of_ok get_eq]
  cases s.updates[number]? with
  | none => exact .done hs.continues
  | some c =>
      dsimp only
      cases hcollect : c.collect change with
      | error e =>
          rw [bind_of_error (lift_eq _)]
          exact .failed e
      | ok d =>
          rw [bind_of_ok (lift_eq _)]
          exact hs.outcome_of_updates _ (List.prefix_refl _)

/-- A schema change reads, and at most a proposal is noted. -/
theorem Holds.exists_perform_propose (hs : s.Holds log) (number : Nat) :
    ∃ proposals, s.proposals <+: proposals ∧
      perform (.propose number) s = (.ok ⟨⟩, { s with proposals }) := by
  cases hc : s.updates[number]? with
  | none =>
      refine ⟨_, List.prefix_refl _, ?_⟩
      rw [perform, propose, bind_of_ok get_eq, hc]
      rfl
  | some c =>
      by_cases hchanged : c.changed = true
      · exact ⟨_, List.prefix_append .., perform_propose hs hc hchanged⟩
      · refine ⟨_, List.prefix_refl _, ?_⟩
        rw [perform, propose, bind_of_ok get_eq, hc]
        dsimp only
        rw [if_neg hchanged]
        rfl

theorem Holds.outcome_commitSchema (hs : s.Holds log) (schema : TableSchema) :
    s.Outcome log kept (perform (.commitSchema schema) s) := by
  rw [perform_commitSchema hs, TableLog.commitSchema]
  by_cases hnext : schema.id = log.schema.id + 1
  · rw [if_pos hnext]
    exact .done ⟨⟨rfl, hs.numbered.addSchema hnext⟩, List.suffix_cons .., List.prefix_refl _,
      hs.continues.changes⟩
  · rw [if_neg hnext]
    exact .failed _

/-- A call changes nothing if it fails, and loses nothing if it does not. -/
theorem Holds.outcome (hs : s.Holds log) (call : TableCall) :
    s.Outcome log (¬ call.AddsTo ·) (perform call s) := by
  cases call with
  | begin kind =>
      exact hs.outcome_of_changes fun n c _ hc => by
        rw [List.getElem?_append_left (List.getElem?_eq_some_iff.1 hc).1, hc]
  | addData number file =>
      exact hs.outcome_of_changes fun n c hn hc => by
        rw [List.getElem?_modify_ne _ _ (show number ≠ n from hn), hc]
  | addDeletes number file =>
      exact hs.outcome_of_changes fun n c hn hc => by
        rw [List.getElem?_modify_ne _ _ (show number ≠ n from hn), hc]
  | commit number => exact hs.outcome_commit number
  | beginUpdate =>
      rw [perform, bind_of_ok get_eq, bind_of_ok ((lift_eq _).trans (by rw [hs.schema]))]
      exact hs.outcome_of_updates _ (List.prefix_refl _)
  | collect number change => exact hs.outcome_collect number change
  | propose number =>
      obtain ⟨proposals, hproposals, hpropose⟩ := hs.exists_perform_propose number
      rw [hpropose]
      exact hs.outcome_of_updates _ hproposals
  | commitProposal number =>
      cases hschema : s.proposals[number]? with
      | none =>
          rw [perform, bind_of_ok get_eq, hschema]
          exact .done hs.continues
      | some schema =>
          rw [perform_commitProposal hschema]
          exact hs.outcome_commitSchema schema
  | commitSchema schema => exact hs.outcome_commitSchema schema

theorem Holds.step_eq_of_fails (hs : s.Holds log) {call : TableCall} (h : s.Fails call) :
    s.step call = s := by
  obtain ⟨e, he⟩ := h
  have houtcome := hs.outcome call
  rw [step]
  generalize perform call s = result at he houtcome
  cases houtcome with
  | failed e => rfl
  | done continues => cases he

theorem Holds.exists_continues_step (hs : s.Holds log) (call : TableCall) :
    ∃ log', s.Continues log (¬ call.AddsTo ·) (s.step call) log' := by
  have houtcome := hs.outcome call
  rw [step]
  generalize perform call s = result at houtcome
  cases houtcome with
  | failed e => exact ⟨log, hs.continues⟩
  | done continues => exact ⟨_, continues⟩

theorem Holds.exists_continues_run (hs : s.Holds log) (calls : List TableCall) :
    ∃ log', s.Continues log (fun number => ∀ call ∈ calls, ¬ call.AddsTo number) (s.run calls)
      log' := by
  induction calls generalizing s log with
  | nil => exact ⟨log, hs.continues⟩
  | cons call calls ih =>
      obtain ⟨log₁, hstep⟩ := hs.exists_continues_step call
      obtain ⟨log₂, hrun⟩ := ih hstep.holds
      refine ⟨log₂, hrun.holds, hstep.schemas.trans hrun.schemas,
        hstep.proposals.trans hrun.proposals, fun number c hkept hc => ?_⟩
      obtain ⟨_, hd⟩ := hstep.changes number c (hkept call (List.mem_cons_self ..)) hc
      obtain ⟨committed, hd⟩ :=
        hrun.changes number _ (fun d hd => hkept d (List.mem_cons_of_mem _ hd)) hd
      exact ⟨committed, hd⟩

/-! ## What the log says of a session -/

theorem Holds.hasSchema_iff (hs : s.Holds log) (id : Int) :
    s.memory.HasSchema id ↔ log.hasSchema id = true := by
  rw [TableMemory.HasSchema, hs.memory, TableMemory.schemaById_ofLog hs.numbered]
  exact TableLog.exists_schemaById_iff

theorem Holds.fails_commit_iff (hs : s.Holds log) {number : Nat} {c : FileChange}
    (hc : s.changes[number]? = some c) :
    s.Fails (.commit number) ↔ ∃ e, c.commit log = .error e := by
  rw [Fails, perform_commit hs hc]
  cases c.commit log with
  | ok result => simp
  | error e => simp

theorem Holds.fails_commitSchema_iff (hs : s.Holds log) (schema : TableSchema) :
    s.Fails (.commitSchema schema) ↔ schema.id ≠ log.schema.id + 1 := by
  rw [Fails, perform_commitSchema hs, TableLog.commitSchema]
  by_cases hnext : schema.id = log.schema.id + 1 <;> simp [hnext]

/-- A change that the log accepts adds the next snapshot. -/
theorem Holds.addsSnapshot (hs : s.Holds log) {number : Nat} {c : FileChange}
    (hc : s.changes[number]? = some c) (hopen : c.committed = none)
    (haccepted : log.refusal? c.data c.deletes = none) :
    s.AddsSnapshot number c log.current? (log.nextSnapshot c.kind c.data c.deletes) := by
  have hnumbered := hs.numbered.addSnapshot c.kind c.data c.deletes
  have hcommit : c.commit log = .ok (log.nextSnapshot c.kind c.data c.deletes,
      { c with committed := some (log.nextSnapshot c.kind c.data c.deletes) },
      { log with snapshots := log.nextSnapshot c.kind c.data c.deletes :: log.snapshots }) := by
    rw [FileChange.commit, hopen, TableLog.commitFiles, haccepted]
    rfl
  have hperform := perform_commit hs hc
  rw [hcommit] at hperform
  have hstep := congrArg Prod.snd hperform
  rw [← step] at hstep
  constructor
  · rw [hperform]
  · rw [hs.memory, TableMemory.currentSnapshot_ofLog hs.numbered]
  · rw [hstep, TableMemory.currentSnapshot_ofLog hnumbered]
    rfl
  · rw [hstep, TableMemory.snapshot_ofLog hnumbered, TableLog.snapshot_eq_ok_iff]
    exact List.find?_cons_of_pos (by simp)
  · rw [hstep, hs.memory, TableMemory.allSnapshots_ofLog hnumbered,
      TableMemory.allSnapshots_ofLog hs.numbered, List.reverse_cons]
  · rfl
  · rfl
  · rw [hstep]

theorem Holds.overtaken_iff (hs : s.Holds log) {number : Nat} {c : SchemaChange}
    (hc : s.updates[number]? = some c) (hchanged : c.changed = true) (calls : List TableCall) :
    ((s.step (.propose number)).run calls).Fails (.commitProposal s.proposals.length) ↔
      ((s.step (.propose number)).run calls).memory.schema ≠ s.memory.schema := by
  have hstep : s.step (.propose number) =
      { s with proposals := s.proposals ++ [c.proposal log.schema] } := by
    rw [step, perform_propose hs hc hchanged]
  have hproposed : (s.step (.propose number)).Holds log := by
    rw [hstep]
    exact ⟨hs.memory, hs.numbered⟩
  obtain ⟨log', hlater⟩ := hproposed.exists_continues_run calls
  generalize (s.step (.propose number)).run calls = later at hlater
  -- The proposal is still where it was put.
  have hschema : later.proposals[s.proposals.length]? = some (c.proposal log.schema) := by
    have hprefix := hlater.proposals
    rw [hstep] at hprefix
    obtain ⟨rest, hrest⟩ := hprefix
    rw [← hrest]
    simp
  rw [Fails, perform_commitProposal hschema, ← Fails, hlater.holds.fails_commitSchema_iff,
    hs.schema, hlater.holds.schema, ne_eq, ne_eq, Except.ok.injEq,
    hlater.holds.numbered.schema_eq_iff hlater.schemas]
  have hid : (c.proposal log.schema).id = log.schema.id + 1 := rfl
  omega

/-- A change of files with known schemas is committed by later calls, when there is a current schema
with its key fields and it has not been committed before. -/
theorem Holds.retried (hs : s.Holds log) {number : Nat} {c : FileChange} {calls : List TableCall}
    (hc : s.changes[number]? = some c) (hopen : c.committed = none)
    (hdata : ∀ f ∈ c.data, s.memory.HasSchema f.schemaId)
    (hcalls : ∀ call ∈ calls, ¬ call.AddsTo number)
    (hstill : ∀ d ∈ (s.run calls).changes[number]?, d.committed = none)
    (hkeys : ∀ t, (s.run calls).memory.schema = .ok t →
      ∀ f ∈ c.deletes, ∀ id ∈ f.fieldIds, id ∈ t.fieldIds) :
    ∃ parent snapshot, (s.run calls).AddsSnapshot number c parent snapshot := by
  obtain ⟨log', hlater⟩ := hs.exists_continues_run calls
  obtain ⟨committed, hd⟩ := hlater.changes number c hcalls hc
  -- Not committed in the meantime, it is the change that it was.
  have hsame : { c with committed } = c := by
    obtain rfl : committed = none := hstill _ hd
    rw [← hopen]
  rw [hsame] at hd
  have haccepted : log'.refusal? c.data c.deletes = none := by
    refine TableLog.refusal?_eq_none_iff.2 ⟨fun f hf => ?_, fun f hf => ?_⟩
    · obtain ⟨t, ht, hid⟩ := List.any_eq_true.1 ((hs.hasSchema_iff _).1 (hdata f hf))
      exact List.any_eq_true.2 ⟨t, hlater.schemas.subset ht, hid⟩
    · exact DeleteFile.keyedBy_iff.2 (hkeys _ hlater.holds.schema f hf)
  exact ⟨_, _, hlater.holds.addsSnapshot hd hopen haccepted⟩

theorem Holds.commitsAtomically (hs : s.Holds log) : s.CommitsAtomically where
  schema := ⟨log.schema, hs.schema⟩
  commit_fails_iff number c t hc ht := by
    obtain rfl : log.schema = t := Except.ok.inj (hs.schema.symm.trans ht)
    rw [hs.fails_commit_iff hc, FileChange.exists_commit_eq_error_iff]
    simp only [hs.hasSchema_iff]
  schema_fails_iff schema t ht := by
    obtain rfl : log.schema = t := Except.ok.inj (hs.schema.symm.trans ht)
    exact hs.fails_commitSchema_iff schema
  proposes number := by
    obtain ⟨proposals, -, hpropose⟩ := hs.exists_perform_propose number
    exact ⟨proposals, by rw [step, hpropose]⟩
  overtaken_iff number c calls hc hchanged := hs.overtaken_iff hc hchanged calls
  unchanged call := hs.step_eq_of_fails
  retried number c calls t hc hopen hdata hcalls hstill ht hkeys :=
    hs.retried hc hopen hdata hcalls hstill fun t' ht' => by
      obtain rfl : t = t' := Except.ok.inj (ht.symm.trans ht')
      exact hkeys

/-- **A commit that fails changes nothing, and can be tried again.**  Whatever has been called on a
table, in whatever order, a commit fails for the reasons that are named in `CommitsAtomically` and
for no others.  A call that fails leaves the table and all changes under way as they were.  So files
that were rejected for an unknown key field are committed, exactly they, when a later schema has the
field. -/
theorem commitsAtomically_run (schema : TableSchema) (calls : List TableCall) :
    ((start schema).run calls).CommitsAtomically := by
  obtain ⟨log, hrun⟩ := (holds_start schema).exists_continues_run calls
  exact hrun.holds.commitsAtomically

-- The deletes are rejected for want of the field 1, and committed when the table has it.
example :
    (((start ⟨0, [], [], 0, []⟩).run
      [.begin .rowDelta,
        .addDeletes 0 ⟨"e0", "parquet", [], .equalityDeletes, 1, 0, [1], none, none⟩, .commit 0,
        .beginUpdate, .collect 0 (.add "id" (.atomic "INT" true)), .propose 0, .commitProposal 0,
        .commit 0]).memory.snapshots.map fun (id, s) => (id, s.schemaId, s.deleteFiles.length)) =
      [(1, 1, 1)] := by
  decide

end TableSession

end MergeOnRead
