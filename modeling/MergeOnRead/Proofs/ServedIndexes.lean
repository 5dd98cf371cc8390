import MergeOnRead.Proofs.CacheSafety
import MergeOnRead.Proofs.DeleteLoading
import MergeOnRead.Proofs.RepeatedProjections

/-!
# Indexes that were loaded with one schema

Where every index that is kept was loaded with the schema of a read (`Table.KeepsLoaded`), the read
gets the indexes that its delete files give anew.  It leaves a state of the same kind, from which
the same files can be read again.

Strategy:

* `IndexCache.Gives`: what a call of the cache does when it gives an entry;
* `IndexCache.Serves`: a cache can give an entry for a key.  A call that gives one found it to be so
  (`Gives.serves_key`), and no call takes it away (`Gives.serves`);
* `Table.Loading`: what is known of the state behind some loads.  `KeepsLoaded.of_loadIndex` is
  the step, and `KeepsLoaded.of_loadIndexes` and `KeepsLoaded.of_loads` go through the files of a
  task and through the tasks;
* `KeepsLoaded.exists_loads` goes back, from a state that serves all files, so that what was loaded
  once is loaded again (`KeepsLoaded.loads_again`).
-/

namespace MergeOnRead

/-! ## Calls that give an entry -/

namespace IndexCache

variable {α : Type} {c d : IndexCache α} {key k : Key} {given : Except Error α} {a : α}

/-- A call gives an entry, and leaves a cache behind. -/
inductive Gives (c : IndexCache α) (key : Key) (given : Except Error α) :
    α → IndexCache α → Prop where
  | found {a : α} : c.peek? key = some a → Gives c key given a
      { c with entries := (key, a) :: c.entries.filter fun e => !matching key e.1 }
  | built {a : α} : c.peek? key = none → (∀ p ∈ c.pending, matching key p.1 = false) →
      given = .ok a → 1 ≤ c.maxEntries → Gives c key given a
        { c with
          entries := ((key, a) :: c.entries.filter fun e => !matching key e.1).take
            c.maxEntries.toNat
          pending := { c with pending := (key, c.builds) :: c.pending }.released key c.builds
          builds := c.builds + 1 }

theorem getOrLoad_eq_iff :
    getOrLoad key (fun s => (given, s)) (c, ()) = (.done (.ok a), (d, ())) ↔
      c.Gives key given a d := by
  constructor
  · intro h
    obtain ⟨b, hpeek, henter⟩ | ⟨build, henter, -⟩ | ⟨henter, hpeek, hfree⟩ := c.enter_cases key
    · rw [getOrLoad, henter] at h
      cases h
      exact .found hpeek
    · rw [getOrLoad, henter] at h
      cases h
    · cases given with
      | error e =>
          simp only [getOrLoad, henter, build] at h
          cases h
      | ok b =>
          by_cases hroom : c.maxEntries < 1
          · simp only [getOrLoad, henter, build, publish, if_pos hroom] at h
            cases h
          · simp only [getOrLoad, henter, build, publish, if_neg hroom] at h
            cases h
            exact .built hpeek hfree rfl (by omega)
  · intro h
    cases h with
    | found hpeek => simp [getOrLoad, enter, touch, hpeek]
    | built hpeek hfree hgiven hroom =>
        have hfind : c.pending.find? (fun p => matching key p.1) = none :=
          List.find?_eq_none.2 fun p hp => by simp [hfree p hp]
        simp [getOrLoad, enter, touch, hpeek, hfind, hgiven, build, publish, Int.not_lt.2 hroom]
        rfl

/-- A cache can give an entry: it has one, or there is room for one and nobody else builds it. -/
def Serves (c : IndexCache α) (key : Key) : Prop :=
  c.peek? key ≠ none ∨ 1 ≤ c.maxEntries ∧ ∀ p ∈ c.pending, matching key p.1 = false

theorem peek?_ne_none_iff : c.peek? key ≠ none ↔ ∃ e ∈ c.entries, matching key e.1 = true := by
  rw [peek?, ne_eq, Option.map_eq_none_iff, List.find?_eq_none]
  simp

theorem exists_gives (h : c.Serves key) (hgiven : given = .ok a) :
    ∃ b d, c.Gives key given b d := by
  cases hpeek : c.peek? key with
  | some b => exact ⟨b, _, .found hpeek⟩
  | none =>
      obtain ⟨hroom, hfree⟩ := h.resolve_left fun hne => hne hpeek
      exact ⟨a, _, .built hpeek hfree hgiven hroom⟩

namespace Gives

variable (h : c.Gives key given a d)
include h

theorem tidy (hc : c.Tidy) : d.Tidy := by
  cases h with
  | found hpeek => exact hc.hit hpeek
  | built hpeek hfree hgiven hroom => exact (hc.register hpeek).publish hroom c.builds

/-- No entry is new but that of the call. -/
theorem entries : ∀ e ∈ d.entries, e ∈ c.entries ∨ given = .ok e.2 ∧ e.1 = key := by
  intro e he
  cases h with
  | found hpeek =>
      rcases List.mem_cons.1 he with rfl | he
      · exact .inl (mem_of_peek?_eq_some hpeek)
      · exact .inl (List.mem_filter.1 he).1
  | built hpeek hfree hgiven hroom =>
      rcases List.mem_cons.1 (List.mem_of_mem_take he) with rfl | he
      · exact .inr ⟨hgiven, rfl⟩
      · exact .inl (List.mem_filter.1 he).1

/-- What was given was there before or was loaded. -/
theorem given_or_mem : (key, a) ∈ c.entries ∨ given = .ok a := by
  cases h with
  | found hpeek => exact .inl (mem_of_peek?_eq_some hpeek)
  | built hpeek hfree hgiven hroom => exact .inr hgiven

theorem serves_key : c.Serves key := by
  cases h with
  | found hpeek => exact .inl (by simp [hpeek])
  | built hpeek hfree hgiven hroom => exact .inr ⟨hroom, hfree⟩

/-- A call that gives an entry takes no other one away for good: what it forgets can be loaded
again. -/
theorem serves (hc : c.Tidy) (hk : c.Serves k) : d.Serves k := by
  cases h with
  | found hpeek =>
      refine hk.imp (fun hne => ?_) id
      rw [peek?_ne_none_iff] at hne ⊢
      obtain ⟨e, he, hke⟩ := hne
      by_cases hkey : matching key e.1 = true
      · rw [eq_of_matching hkey] at hke
        exact ⟨_, List.mem_cons_self .., hke⟩
      · exact ⟨e, List.mem_cons_of_mem _ (List.mem_filter.2 ⟨he, by simpa using hkey⟩), hke⟩
  | built hpeek hfree hgiven hroom =>
      refine .inr ⟨hroom, fun p hp => ?_⟩
      obtain ⟨hmem, -, hbuild⟩ := mem_released.1 hp
      have hp : p ∈ c.pending := by
        rcases List.mem_cons.1 hmem with rfl | hmem
        · exact absurd rfl hbuild
        · exact hmem
      rcases hk with hne | ⟨-, hfree'⟩
      · -- Nobody builds what the cache has.
        obtain ⟨e, he, hke⟩ := peek?_ne_none_iff.1 hne
        rw [← eq_of_matching hke]
        exact hc.apart e he p hp
      · exact hfree' p hp

end Gives

end IndexCache

/-! ## Loads of a read -/

namespace Table

variable {t : Table} {schema : TableSchema} {files fs gs : List DeleteFile} {f : DeleteFile}
  {tasks : List ScanTask} {kept mid last : KeptIndexes} {i : DeleteIndex} {is : List DeleteIndex}
  {lists : List (List DeleteIndex)}

/-- Files with the same path come in the same format. -/
def OneFormat (files : List DeleteFile) : Prop :=
  ∀ f ∈ files, ∀ g ∈ files, f.path = g.path → f.format = g.format

/-- Where indexes are kept, each of them was loaded with a schema, from one of some files. -/
def KeepsLoaded (t : Table) (schema : TableSchema) (files : List DeleteFile)
    (kept : KeptIndexes) : Prop :=
  ∀ c ∈ kept, OneFormat files ∧ c.Tidy ∧
    ∀ e ∈ c.entries, ∃ f ∈ files, f.cacheKey.key = e.1 ∧ f.load t.source schema = .ok e.2

/-- The index of a file is kept, or there is room for it. -/
def Serves (kept : KeptIndexes) (f : DeleteFile) : Prop := ∀ c ∈ kept, c.Serves f.cacheKey.key

theorem loadIndex_run_eq_ok_iff :
    (t.loadIndex schema f).run kept = (.ok i, last) ↔
      (kept = none ∧ last = none ∧ f.load t.source schema = .ok i) ∨
        ∃ c d, kept = some c ∧ last = some d ∧
          c.Gives f.cacheKey.key (f.load t.source schema) i d := by
  cases kept with
  | none =>
      change (f.load t.source schema, none) = (.ok i, last) ↔ _
      rw [Prod.mk.injEq]
      constructor
      · rintro ⟨hload, rfl⟩
        exact .inl ⟨rfl, rfl, hload⟩
      · rintro (⟨-, rfl, hload⟩ | ⟨c, d, hc, -⟩)
        · exact ⟨hload, rfl⟩
        · cases hc
  | some c =>
      change t.loadIndex schema f (some c) = (.ok i, last) ↔ _
      simp only [loadIndex]
      constructor
      · intro h
        split at h
        · rename_i r d _ hcall
          cases h
          exact .inr ⟨c, d, rfl, rfl, IndexCache.getOrLoad_eq_iff.1 hcall⟩
        · cases h
      · rintro (⟨hc, -⟩ | ⟨c, d, hc, rfl, hgives⟩)
        · cases hc
        · cases hc
          rw [IndexCache.getOrLoad_eq_iff.2 hgives]

/-- What is known of the state behind the loads of some files. -/
structure Loading (t : Table) (schema : TableSchema) (files : List DeleteFile)
    (kept last : KeptIndexes) (fs : List DeleteFile) : Prop where
  loaded : t.KeepsLoaded schema files last
  served : ∀ f ∈ fs, Serves last f
  more : ∀ f, Serves kept f → Serves last f

theorem Loading.refl (h : t.KeepsLoaded schema files kept) :
    t.Loading schema files kept kept [] :=
  ⟨h, fun _ hf => absurd hf List.not_mem_nil, fun _ hf => hf⟩

theorem Loading.trans (h : t.Loading schema files kept mid fs)
    (h' : t.Loading schema files mid last gs) : t.Loading schema files kept last (fs ++ gs) where
  loaded := h'.loaded
  served f hf := by
    rcases List.mem_append.1 hf with hf | hf
    · exact h'.more f (h.served f hf)
    · exact h'.served f hf
  more f hf := h'.more f (h.more f hf)

/-- A load gives what the file gives anew. -/
theorem KeepsLoaded.of_loadIndex (h : t.KeepsLoaded schema files kept)
    (hf : f ∈ files) (hrun : (t.loadIndex schema f).run kept = (.ok i, last)) :
    f.load t.source schema = .ok i ∧ t.Loading schema files kept last [f] := by
  obtain ⟨rfl, rfl, hload⟩ | ⟨c, d, rfl, rfl, hgives⟩ := loadIndex_run_eq_ok_iff.1 hrun
  · exact ⟨hload, fun c hc => absurd hc (Option.not_mem_none c),
      fun g hg c hc => absurd hc (Option.not_mem_none c), fun g hg => hg⟩
  · obtain ⟨hformat, htidy, hloaded⟩ := h c rfl
    refine ⟨?_, fun d' hd => ?_, fun g hg d' hd => ?_, fun g hg d' hd => ?_⟩
    · rcases hgives.given_or_mem with hmem | hgiven
      · obtain ⟨g, hg, hkey, hgiven⟩ := hloaded _ hmem
        obtain ⟨hpath, -⟩ := DeleteFile.key_cacheKey_eq_iff.1 hkey
        exact DeleteFile.load_eq_ok_of_sameKeys hkey (hformat g hg f hf hpath)
          (fun id hid => rfl) hgiven
      · exact hgiven
    · cases hd
      refine ⟨hformat, hgives.tidy htidy, fun e he => ?_⟩
      rcases hgives.entries e he with he | ⟨hgiven, hkey⟩
      · exact hloaded e he
      · exact ⟨f, hf, hkey.symm, hgiven⟩
    · cases hd
      obtain rfl := List.mem_singleton.1 hg
      exact hgives.serves htidy hgives.serves_key
    · cases hd
      exact hgives.serves htidy (hg c rfl)

theorem KeepsLoaded.of_loadIndexes (h : t.KeepsLoaded schema files kept)
    (hfs : ∀ f ∈ fs, f ∈ files) (hload : (t.loadIndexes schema fs).run kept = (.ok is, last)) :
    fs.mapM (·.load t.source schema) = .ok is ∧ t.Loading schema files kept last fs := by
  rw [loadIndexes, Scanning.run_mapM_eq_ok_iff] at hload
  rw [mapM_eq_ok_iff]
  induction hload with
  | nil => exact ⟨.nil, .refl h⟩
  | cons hfirst hrest ih =>
      obtain ⟨hgiven, hmid⟩ := h.of_loadIndex (hfs _ (List.mem_cons_self ..)) hfirst
      obtain ⟨hmore, hlast⟩ := ih hmid.loaded fun f hf => hfs f (List.mem_cons_of_mem _ hf)
      exact ⟨.cons hgiven hmore, hmid.trans hlast⟩

/-- The tasks of a read get the indexes that their files give anew. -/
theorem KeepsLoaded.of_loads (h : t.KeepsLoaded schema files kept)
    (htasks : ∀ task ∈ tasks, ∀ f ∈ task.deletes, f ∈ files)
    (hload : Scanning.Runs (fun task => t.loadIndexes schema task.deletes) kept tasks lists last) :
    List.Forall₂ (fun task is => task.deletes.mapM (·.load t.source schema) = .ok is) tasks lists ∧
      t.Loading schema files kept last (tasks.flatMap (·.deletes)) := by
  induction hload with
  | nil => exact ⟨.nil, .refl h⟩
  | cons hfirst hrest ih =>
      obtain ⟨hgiven, hmid⟩ := h.of_loadIndexes (htasks _ (List.mem_cons_self ..)) hfirst
      obtain ⟨hmore, hlast⟩ := ih hmid.loaded fun task htask =>
        htasks task (List.mem_cons_of_mem _ htask)
      exact ⟨.cons hgiven hmore, hmid.trans hlast⟩

/-! ## Reading again -/

/-- A file that is served gives its index. -/
theorem KeepsLoaded.exists_loadIndex (h : t.KeepsLoaded schema files kept)
    (hf : f ∈ files) (hserves : Serves kept f)
    (hload : f.load t.source schema = .ok i) :
    ∃ last, (t.loadIndex schema f).run kept = (.ok i, last) := by
  have hrun : ∃ i' last, (t.loadIndex schema f).run kept = (.ok i', last) := by
    cases kept with
    | none => exact ⟨i, none, loadIndex_run_eq_ok_iff.2 (.inl ⟨rfl, rfl, hload⟩)⟩
    | some c =>
        obtain ⟨i', d, hgives⟩ := IndexCache.exists_gives (hserves c rfl) hload
        exact ⟨i', some d, loadIndex_run_eq_ok_iff.2 (.inr ⟨c, d, rfl, rfl, hgives⟩)⟩
  obtain ⟨i', last, hrun⟩ := hrun
  have hsame := (h.of_loadIndex hf hrun).1.symm.trans hload
  exact ⟨last, by rw [hrun, hsame]⟩

theorem KeepsLoaded.exists_loadIndexes (h : t.KeepsLoaded schema files kept)
    (hfs : ∀ f ∈ fs, f ∈ files) (hserves : ∀ f ∈ fs, Serves kept f)
    (hload : fs.mapM (·.load t.source schema) = .ok is) :
    ∃ last, (t.loadIndexes schema fs).run kept = (.ok is, last) := by
  simp only [loadIndexes, Scanning.run_mapM_eq_ok_iff]
  rw [mapM_eq_ok_iff] at hload
  induction hload generalizing kept with
  | nil => exact ⟨kept, .nil⟩
  | cons hfirst hrest ih =>
      have hf := hfs _ (List.mem_cons_self ..)
      obtain ⟨mid, hrun⟩ := h.exists_loadIndex hf (hserves _ (List.mem_cons_self ..)) hfirst
      obtain ⟨-, hmid⟩ := h.of_loadIndex hf hrun
      obtain ⟨last, hlast⟩ := ih hmid.loaded (fun f hf => hfs f (List.mem_cons_of_mem _ hf))
        fun f hf => hmid.more f (hserves f (List.mem_cons_of_mem _ hf))
      exact ⟨last, .cons hrun hlast⟩

theorem KeepsLoaded.exists_loads (h : t.KeepsLoaded schema files kept)
    (htasks : ∀ task ∈ tasks, ∀ f ∈ task.deletes, f ∈ files)
    (hserves : ∀ task ∈ tasks, ∀ f ∈ task.deletes, Serves kept f)
    (hload : List.Forall₂ (fun task is => task.deletes.mapM (·.load t.source schema) = .ok is) tasks
      lists) :
    ∃ last,
      Scanning.Runs (fun task => t.loadIndexes schema task.deletes) kept tasks lists last := by
  induction hload generalizing kept with
  | nil => exact ⟨kept, .nil⟩
  | cons hfirst hrest ih =>
      have hfs := htasks _ (List.mem_cons_self ..)
      obtain ⟨mid, hrun⟩ :=
        h.exists_loadIndexes hfs (hserves _ (List.mem_cons_self ..)) hfirst
      obtain ⟨-, hmid⟩ := h.of_loadIndexes hfs hrun
      obtain ⟨last, hlast⟩ := ih hmid.loaded
        (fun task htask => htasks task (List.mem_cons_of_mem _ htask))
        fun task htask f hf => hmid.more f (hserves task (List.mem_cons_of_mem _ htask) f hf)
      exact ⟨last, .cons hrun hlast⟩

/-- What was loaded once is loaded again, from the state that was left behind. -/
theorem KeepsLoaded.loads_again (h : t.KeepsLoaded schema files kept)
    (htasks : ∀ task ∈ tasks, ∀ f ∈ task.deletes, f ∈ files)
    (hload : Scanning.Runs (fun task => t.loadIndexes schema task.deletes) kept tasks lists last) :
    t.KeepsLoaded schema files last ∧ ∃ after,
      Scanning.Runs (fun task => t.loadIndexes schema task.deletes) last tasks lists after := by
  obtain ⟨hlists, hlast⟩ := h.of_loads htasks hload
  refine ⟨hlast.loaded, hlast.loaded.exists_loads htasks (fun task htask f hf => ?_) hlists⟩
  exact hlast.served f (List.mem_flatMap.2 ⟨task, htask, hf⟩)

end Table

end MergeOnRead
