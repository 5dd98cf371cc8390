import MergeOnRead.Proofs.SchemaGrowth

/-!
# When schema changes side by side lose nothing

A schema change is collected on the schema that was current when it began, but takes the next
version number at the time of its commit.  So the log accepts it even when another change
was committed in between, and what that one did is lost unless it is repeated.

`commits_keep_iff_commits_repeat` is the exact condition for a whole run: every commit keeps
the fields of the schema before it, and no field id ever stands for two columns, if and only
if every commit repeats what was committed since its change began.  A run in which nothing was
(`repeats_of_fresh`) is the case that the version numbers were meant to enforce.

Strategy:

* `Sound` is the invariant: every schema of the log, and every schema that a change began
  with, is extended by the current one, and drafts extend the schema they began with;
* `commitKeeps_iff_commitRepeats`: in a sound state a commit keeps the fields exactly when it
  repeats the current schema;
* `Sound.step`: a step that repeats leaves a sound state, so that the induction over the steps
  goes through (`always_iff`).
-/

namespace MergeOnRead

open TableSchema

/-- Every id stands for one column in all schemas of a log; the column may become nullable. -/
def TableLog.ColumnsAgree (log : TableLog) : Prop :=
  ∀ s ∈ log.schemas, ∀ t ∈ log.schemas, ∀ f ∈ s.fields, ∀ g ∈ t.fields, f.id = g.id →
    f.asOptional = g.asOptional

/-- A schema change with changes is always accepted. -/
theorem SchemaChange.commit_of_changed {c : SchemaChange} (hchanged : c.changed = true)
    (log : TableLog) :
    c.commit log = .ok (c.proposal log.schema,
      { log with schema := c.proposal log.schema, olderSchemas := log.schemas }) := by
  rw [commit, if_pos hchanged]
  simp [TableLog.commitSchema, proposal, withId]

theorem SchemaChange.commit_of_unchanged {c : SchemaChange} (hchanged : c.changed = false)
    (log : TableLog) : c.commit log = .ok (c.schema, log) := by
  rw [commit, if_neg (by simp [hchanged])]

namespace Evolution

/-- A commit keeps every field of the schema before it, and has its own changes. -/
def CommitKeeps (s : Evolution) (e : SchemaStep) : Prop :=
  ∀ number u schema log, e = .commit number → s.updates[number]? = some u →
    u.draft.commit s.log = .ok (schema, log) →
      s.log.schema.Keeps log.schema ∧ ∀ change ∈ u.made, change.IsIn log.schema.fields

/-- A commit of changes repeats what was committed since they began. -/
def CommitRepeats (s : Evolution) (e : SchemaStep) : Prop :=
  ∀ number u, e = .commit number → s.updates[number]? = some u → u.draft.changed = true →
    u.base.Repeats s.log.schema u.draft.schema

end Evolution

/-! ## The invariant -/

/-- A schema change under way fits the current schema. -/
structure SchemaUpdate.Sound (u : SchemaUpdate) (current : TableSchema) : Prop where
  numbered : u.base.WellNumbered
  current : u.base.Extends current
  draft : u.base.Extends u.draft.schema
  made : ∀ change ∈ u.made, change.IsIn u.draft.schema.fields
  unchanged : u.draft.changed = false → u.made = []

namespace Evolution

/-- The current schema extends all others, and all changes under way fit it. -/
structure Sound (s : Evolution) : Prop where
  numbered : s.log.schema.WellNumbered
  schemas : ∀ t ∈ s.log.schemas, t.Extends s.log.schema
  updates : ∀ u ∈ s.updates, u.Sound s.log.schema

variable {s : Evolution} {e : SchemaStep}

theorem sound_start {schema : TableSchema} (h : schema.WellNumbered) : (start schema).Sound where
  numbered := h
  schemas t ht := by
    obtain rfl : t = schema := by simpa [start, TableLog.start, TableLog.schemas] using ht
    exact .refl _
  updates u hu := by cases hu

/-- Schemas that one schema extends agree on their columns. -/
theorem Sound.columnsAgree (hs : s.Sound) : s.log.ColumnsAgree := by
  intro t ht t' ht' f hf g hg hid
  obtain ⟨f', hf', hff⟩ := (hs.schemas t ht).keeps f hf
  obtain ⟨g', hg', hgg⟩ := (hs.schemas t' ht').keeps g hg
  have hsame := hs.numbered.eq_of_id_eq hf' hg' (by rw [hff.id_eq, hgg.id_eq, hid])
  rw [← hff.asOptional_eq, ← hgg.asOptional_eq, hsame]

/-- In a sound state, a commit keeps the fields exactly when it repeats what was committed since
its change began. -/
theorem commitKeeps_iff_commitRepeats (hs : s.Sound) : s.CommitKeeps e ↔ s.CommitRepeats e := by
  constructor
  · intro h number u he hu hchanged
    have hsound := hs.updates u (List.mem_of_getElem? hu)
    obtain ⟨hkeeps, -⟩ := h number u _ _ he hu (SchemaChange.commit_of_changed hchanged s.log)
    exact (keeps_iff_repeats hsound.numbered hsound.current hsound.draft).1 hkeeps
  · intro h number u schema log he hu hcommit
    have hsound := hs.updates u (List.mem_of_getElem? hu)
    cases hchanged : u.draft.changed with
    | false =>
        -- Nothing is committed, and there is nothing to be committed.
        rw [SchemaChange.commit_of_unchanged hchanged] at hcommit
        cases hcommit
        exact ⟨(Extends.refl _).keeps, by simp [hsound.unchanged hchanged]⟩
    | true =>
        rw [SchemaChange.commit_of_changed hchanged] at hcommit
        cases hcommit
        have hrepeats := h number u he hu hchanged
        exact ⟨(keeps_iff_repeats hsound.numbered hsound.current hsound.draft).2 hrepeats,
          hsound.made⟩

/-! ## One step -/

theorem sound_update_start (hs : s.Sound) : (SchemaUpdate.start s.log).Sound s.log.schema where
  numbered := hs.numbered
  current := .refl _
  draft := .refl _
  made change hchange := by cases hchange
  unchanged _ := rfl

theorem sound_update_collect {u : SchemaUpdate} {current : TableSchema} (hu : u.Sound current)
    {change : ColumnChange} {draft : SchemaChange} (h : u.draft.collect change = .ok draft) :
    SchemaUpdate.Sound { u with draft, made := change :: u.made } current where
  numbered := hu.numbered
  current := hu.current
  draft := hu.draft.trans (SchemaChange.extends_of_collect h)
  made c hc := by
    rcases List.mem_cons.1 hc with rfl | hc
    · exact SchemaChange.isIn_of_collect h
    · exact (hu.made c hc).of_keeps (SchemaChange.extends_of_collect h).keeps
  unchanged hunchanged := by
    have := (SchemaChange.schema_of_collect h).1
    simp_all

/-- A commit that extends the current schema leaves a sound state. -/
theorem Sound.of_extends (hs : s.Sound) {schema : TableSchema}
    (h : s.log.schema.Extends schema) :
    Sound { s with log := { s.log with schema, olderSchemas := s.log.schemas } } where
  numbered := h.wellNumbered hs.numbered
  schemas t ht := by
    rcases List.mem_cons.1 ht with rfl | ht
    · exact .refl _
    · exact (hs.schemas t ht).trans h
  updates u hu := { hs.updates u hu with current := (hs.updates u hu).current.trans h }

/-- A step that repeats what was committed leaves a sound state. -/
theorem Sound.step (hs : s.Sound) (h : s.CommitRepeats e) : (s.step e).Sound := by
  cases e with
  | begin =>
      refine ⟨hs.numbered, hs.schemas, fun u hu => ?_⟩
      rcases List.mem_append.1 hu with hu | hu
      · exact hs.updates u hu
      · rw [List.mem_singleton.1 hu]
        exact sound_update_start hs
  | collect number change =>
      rw [Evolution.step]
      split
      · exact hs
      · rename_i u hu
        split
        · exact hs
        · rename_i draft hdraft
          refine ⟨hs.numbered, hs.schemas, fun v hv => ?_⟩
          rcases List.mem_or_eq_of_mem_set hv with hv | rfl
          · exact hs.updates v hv
          · exact sound_update_collect (hs.updates u (List.mem_of_getElem? hu)) hdraft
  | commit number =>
      rw [Evolution.step]
      split
      · exact hs
      · rename_i u hu
        have hsound := hs.updates u (List.mem_of_getElem? hu)
        cases hchanged : u.draft.changed with
        | false =>
            rw [SchemaChange.commit_of_unchanged hchanged]
            exact hs
        | true =>
            rw [SchemaChange.commit_of_changed hchanged]
            have hrepeats := h number u rfl hu hchanged
            exact hs.of_extends
              ((extends_of_repeats hsound.current hsound.draft hrepeats).withId _)

/-! ## Runs -/

/-- What is the same of every step in a sound state is the same of every run, as long as it keeps
states sound. -/
theorem always_iff {P Q : Evolution → SchemaStep → Prop}
    (hiff : ∀ s e, Sound s → (P s e ↔ Q s e))
    (hstep : ∀ s e, Sound s → Q s e → (s.step e).Sound) (hs : s.Sound)
    (steps : List SchemaStep) : Always P s steps ↔ Always Q s steps := by
  induction steps generalizing s with
  | nil => rfl
  | cons e steps ih =>
      rw [Always, Always, hiff s e hs]
      exact and_congr_right fun hq => ih (hstep s e hs hq)

theorem Sound.run (hs : s.Sound) {steps : List SchemaStep}
    (h : Always CommitRepeats s steps) : (s.run steps).Sound := by
  induction steps generalizing s with
  | nil => exact hs
  | cons e steps ih => exact ih (hs.step h.1) h.2

/-- Where nothing was committed since a change began, its commit repeats it. -/
theorem repeats_of_fresh (hs : s.Sound)
    (hfresh : ∀ number u, e = .commit number → s.updates[number]? = some u →
      u.draft.changed = true → u.base = s.log.schema) : s.CommitRepeats e := by
  intro number u he hu hchanged
  have hsound := hs.updates u (List.mem_of_getElem? hu)
  have hkeeps : s.log.schema.Keeps u.draft.schema := by
    rw [← hfresh number u he hu hchanged]
    exact hsound.draft.keeps
  exact (keeps_iff_repeats hsound.numbered hsound.current hsound.draft).1 hkeeps

/-- **Schema changes side by side lose nothing exactly when every commit repeats what was
committed since its change began.**  Then no field id ever stands for two columns either. -/
theorem commits_keep_iff_commits_repeat {schema : TableSchema}
    (hids : (schema.fields.map (·.id)).Nodup)
    (hhighest : ∀ f ∈ schema.fields, f.id ≤ schema.highestFieldId) (steps : List SchemaStep) :
    (Always CommitKeeps (start schema) steps ∧ ((start schema).run steps).log.ColumnsAgree) ↔
      Always CommitRepeats (start schema) steps := by
  have hs := sound_start ⟨hids, hhighest⟩
  have hiff := always_iff (fun s e hs => commitKeeps_iff_commitRepeats (e := e) hs)
    (fun s e hs hq => hs.step hq) hs steps
  -- That ids stand for one column follows, as the state at the end is sound.
  rw [hiff]
  exact ⟨And.left, fun h => ⟨h, (hs.run h).columnsAgree⟩⟩

/-- A schema with one column. -/
def oneColumn : TableSchema := ⟨0, [⟨1, "a", .atomic "INT" true, none⟩], [], 1, []⟩

/-- Two changes begin with one schema; each adds a column, and both are committed. -/
def twoAdditions : List SchemaStep :=
  [.begin, .begin, .collect 0 (.add "x" (.atomic "INT" true)),
    .collect 1 (.add "y" (.atomic "STRING" true)), .commit 0, .commit 1]

/-- The second commit loses the column that the first one added, as it does not repeat it. -/
theorem not_keep_twoAdditions :
    ¬(Always CommitKeeps (start oneColumn) twoAdditions ∧
      ((start oneColumn).run twoAdditions).log.ColumnsAgree) := by
  intro h
  have hrepeats := (commits_keep_iff_commits_repeat (by decide) (by decide) twoAdditions).1 h
  obtain ⟨-, -, -, -, -, hlast, -⟩ := hrepeats
  have hadded := (hlast 1 _ rfl rfl rfl).added
  revert hadded
  decide

end Evolution

end MergeOnRead
