import MergeOnRead.Log.SchemaMemory
import MergeOnRead.Proofs.Evolution
import MergeOnRead.Proofs.MemoryCommits
import MergeOnRead.Proofs.SchemaGrowth

/-!
# Versions of a schema keep its columns

Changes of columns make one version of a schema after another.  `TableSchema.growsBy` says what
comes of any number of them: which calls fail, what a call that succeeds adds or changes, that the
fields of the first version stay in front with their ids, names and types, that no id is given out
twice, and that versions which exist stay as they are.

Strategy:

* `Regular` is the invariant of versions, and `Regular.change_eq` says what one call comes to;
* `Extends` from one version to a later one gives the order of ids, and `Regular.take_after` the
  fields of the first version;
* versions in memory share fields.  A call only adds to memory (`SchemaMemory.Grows`), so that all
  that could be read before is read again, and it makes the version that is made of values
  (`SchemaMemory.makes_change`).
-/

namespace MergeOnRead

/-! ## What a call comes to -/

/-- Why a change of a column is refused. -/
def ColumnChange.refusal? (s : TableSchema) : ColumnChange → Option SchemaError
  | .relax name => if name ∈ s.fieldNames then none else some (.missingColumn name)
  | .add name type =>
    if name ∈ s.fieldNames then some (.columnExists name)
    else if type.nullable then none
    else some (.addedNotNullable name)

/-- A field of the first version after some changes: nullable if one of them names it, and the same
if not. -/
def Field.relaxedBy (changes : List ColumnChange) (f : Field) : Field :=
  if .relax f.name ∈ changes then f.asOptional else f

namespace TableSchema

/-- The next version, when a change is not refused.  Of the fields there are, at most the one that
is named becomes nullable; a new field stands behind them, with the id behind the highest one. -/
def changed (s : TableSchema) : ColumnChange → TableSchema
  | .relax name =>
    ⟨s.id + 1, s.fields.map fun f => if f.name = name then f.asOptional else f, s.partitionKeys,
      s.highestFieldId, s.options⟩
  | .add name type =>
    ⟨s.id + 1, s.fields ++ [⟨s.highestFieldId + 1, name, type, none⟩], s.partitionKeys,
      s.highestFieldId + 1, s.options⟩

/-- Ids and names differ, and no id is above the highest one. -/
structure Regular (s : TableSchema) : Prop where
  numbered : s.WellNumbered
  names : s.fieldNames.Nodup

variable {s t u : TableSchema} {name : String} {change : ColumnChange}

theorem findFieldByName?_eq_none_iff : s.findFieldByName? name = none ↔ name ∉ s.fieldNames := by
  simp [findFieldByName?, findLast?_eq_none_iff, fieldNames]

theorem extends_of_change (h : s.change change = .ok t) : s.Extends t := by
  cases change with
  | relax name => exact extends_of_makeColumnOptional h
  | add name type => exact extends_of_addColumn h

namespace Regular

theorem makeColumnOptional_eq (hs : s.Regular) (name : String) :
    s.makeColumnOptional name =
      if name ∈ s.fieldNames then .ok (s.changed (.relax name))
      else .error (.missingColumn name) := by
  rw [makeColumnOptional]
  cases hfind : s.findFieldByName? name with
  | none => rw [if_neg (findFieldByName?_eq_none_iff.1 hfind)]
  | some field =>
      obtain ⟨hmem, hname⟩ := of_findLast?_eq_some hfind
      rw [beq_iff_eq] at hname
      have hin : name ∈ s.fieldNames := hname ▸ List.mem_map_of_mem hmem
      -- The field is looked up by its name, and found again by its id.
      have hfields : (s.fields.map fun f => if f.id = field.id then f.asOptional else f) =
          s.fields.map fun f => if f.name = name then f.asOptional else f := by
        refine List.map_congr_left fun f hf => ?_
        have hiff : f.id = field.id ↔ f.name = name := by
          constructor
          · intro hid
            rw [hs.numbered.eq_of_id_eq hf hmem hid, hname]
          · intro hsame
            rw [List.inj_on_of_nodup_map hs.names hf hmem (hsame.trans hname.symm)]
        rw [if_congr hiff rfl rfl]
      have hids : (s.changed (.relax name)).fields.map (·.id) = s.fields.map (·.id) := by
        rw [changed, List.map_map]
        refine List.map_congr_left fun f _ => ?_
        rw [Function.comp]
        split <;> rfl
      rw [if_pos hin]
      dsimp only
      rw [hfields]
      exact make_eq_ok_iff.2 ⟨hids ▸ hs.numbered.nodup, rfl⟩

theorem addColumn_eq (hs : s.Regular) (name : String) (type : DataType) :
    s.addColumn name type =
      if name ∈ s.fieldNames then .error (.columnExists name)
      else if type.nullable then .ok (s.changed (.add name type))
      else .error (.addedNotNullable name) := by
  rw [addColumn]
  by_cases hin : name ∈ s.fieldNames
  · have hfound : (s.findFieldByName? name).isSome = true := by
      rw [Option.isSome_iff_ne_none, ne_eq, findFieldByName?_eq_none_iff, not_not]
      exact hin
    rw [if_pos hin, if_pos hfound]
  · rw [if_neg hin, findFieldByName?_eq_none_iff.2 hin]
    cases hnullable : type.nullable with
    | false => simp
    | true =>
        simp only [Option.isSome_none, Bool.false_eq_true, if_false, Bool.not_true, if_true]
        refine make_eq_ok_iff.2 ⟨?_, rfl⟩
        -- The new id is above all others.
        rw [List.map_append, List.nodup_append]
        refine ⟨hs.numbered.nodup, List.nodup_singleton _, fun id hid id' hid' => ?_⟩
        obtain ⟨f, hf, rfl⟩ := List.mem_map.1 hid
        have hle := hs.numbered.le_highest f hf
        simp only [List.map_cons, List.map_nil, List.mem_singleton] at hid'
        omega

/-- A call is refused, or makes the next version. -/
theorem change_eq (hs : s.Regular) (change : ColumnChange) :
    s.change change = match change.refusal? s with
      | some e => .error e
      | none => .ok (s.changed change) := by
  cases change with
  | relax name =>
      rw [TableSchema.change, hs.makeColumnOptional_eq, ColumnChange.refusal?]
      split <;> rfl
  | add name type =>
      rw [TableSchema.change, hs.addColumn_eq, ColumnChange.refusal?]
      split
      · rfl
      · split <;> rfl

theorem change_eq_ok_iff (hs : s.Regular) :
    s.change change = .ok t ↔ change.refusal? s = none ∧ t = s.changed change := by
  rw [hs.change_eq]
  cases change.refusal? s with
  | some e => simp
  | none => simp [eq_comm]

theorem changed (hs : s.Regular) (hallowed : change.refusal? s = none) :
    (s.changed change).Regular := by
  refine ⟨(extends_of_change (hs.change_eq_ok_iff.2 ⟨hallowed, rfl⟩)).wellNumbered hs.numbered, ?_⟩
  cases change with
  | relax name =>
      have hnames : (s.changed (.relax name)).fieldNames = s.fieldNames := by
        rw [fieldNames, TableSchema.changed, List.map_map]
        refine List.map_congr_left fun f _ => ?_
        rw [Function.comp]
        split <;> rfl
      rw [hnames]
      exact hs.names
  | add name type =>
      have hnew : name ∉ s.fieldNames := by
        intro hin
        rw [ColumnChange.refusal?, if_pos hin] at hallowed
        cases hallowed
      rw [fieldNames, TableSchema.changed, List.map_append]
      exact List.nodup_append.2 ⟨hs.names, List.nodup_singleton _, fun a ha b hb => by
        rintro rfl
        obtain rfl : a = name := by simpa using hb
        exact hnew ha⟩

end Regular

/-! ## What many calls come to -/

theorem after_concat (s : TableSchema) (changes : List ColumnChange) (change : ColumnChange) :
    s.after (changes ++ [change]) =
      (((s.after changes).change change).toOption).getD (s.after changes) := by
  simp [after]

/-- A call makes the next version or leaves the one there is. -/
theorem Regular.after_concat_eq {changes : List ColumnChange} (h : (s.after changes).Regular)
    (change : ColumnChange) : s.after (changes ++ [change]) =
      match change.refusal? (s.after changes) with
      | some _ => s.after changes
      | none => (s.after changes).changed change := by
  rw [after_concat, h.change_eq]
  cases change.refusal? (s.after changes) <;> rfl

theorem Regular.after (hs : s.Regular) (changes : List ColumnChange) :
    (s.after changes).Regular := by
  induction changes using List.reverseRecOn with
  | nil => exact hs
  | append_singleton changes change ih =>
      rw [ih.after_concat_eq]
      cases hrefusal : change.refusal? (s.after changes) with
      | some e => exact ih
      | none => exact ih.changed hrefusal

/-- Versions extend those before them. -/
theorem Regular.extends_after (hs : s.Regular) {earlier changes : List ColumnChange}
    (hearlier : earlier <+: changes) : (s.after earlier).Extends (s.after changes) := by
  obtain ⟨later, rfl⟩ := hearlier
  induction later using List.reverseRecOn with
  | nil => simpa using Extends.refl _
  | append_singleton later change ih =>
      have hregular := hs.after (earlier ++ later)
      rw [← List.append_assoc, hregular.after_concat_eq]
      cases hrefusal : change.refusal? (s.after (earlier ++ later)) with
      | some e => exact ih
      | none => exact ih.trans (extends_of_change (hregular.change_eq_ok_iff.2 ⟨hrefusal, rfl⟩))

/-- The fields of the first version stay in front, and those that were named are nullable. -/
theorem name_relaxedBy (changes : List ColumnChange) (f : Field) :
    (f.relaxedBy changes).name = f.name := by
  rw [Field.relaxedBy]
  split <;> rfl

/-- One more change makes a field nullable if it names it, and has no effect on it if not. -/
theorem relaxedBy_concat (changes : List ColumnChange) (change : ColumnChange) (f : Field) :
    f.relaxedBy (changes ++ [change]) = if change = .relax f.name
      then (f.relaxedBy changes).asOptional else f.relaxedBy changes := by
  by_cases hchange : change = .relax f.name
  · rw [if_pos hchange, Field.relaxedBy, if_pos (by simp [hchange]), Field.relaxedBy]
    split
    · exact f.asOptional_asOptional.symm
    · rfl
  · rw [if_neg hchange, Field.relaxedBy, Field.relaxedBy]
    simp [Ne.symm hchange]

theorem Regular.take_after (hs : s.Regular) (changes : List ColumnChange) :
    (s.after changes).fields.take s.fields.length = s.fields.map (Field.relaxedBy changes) := by
  induction changes using List.reverseRecOn with
  | nil =>
      rw [TableSchema.after, List.foldl_nil, List.take_length]
      exact (List.map_id'' (fun f => if_neg List.not_mem_nil) s.fields).symm
  | append_singleton changes change ih =>
      have hlength : s.fields.length ≤ (s.after changes).fields.length :=
        (hs.extends_after (List.nil_prefix (l := changes))).length_le
      rw [(hs.after changes).after_concat_eq]
      cases hrefusal : change.refusal? (s.after changes) with
      | some e =>
          -- A column that is there is not refused, so that the change does not name one of them.
          rw [ih]
          refine List.map_congr_left fun f hf => ?_
          have hother : change ≠ .relax f.name := by
            rintro rfl
            have hin : f.name ∈ (s.after changes).fieldNames := by
              refine List.mem_map.2 ⟨f.relaxedBy changes, ?_, name_relaxedBy changes f⟩
              exact List.mem_of_mem_take (ih ▸ List.mem_map_of_mem hf)
            rw [ColumnChange.refusal?, if_pos hin] at hrefusal
            cases hrefusal
          rw [relaxedBy_concat, if_neg hother]
      | none =>
          cases change with
          | relax name =>
              rw [TableSchema.changed, ← List.map_take, ih, List.map_map]
              refine List.map_congr_left fun f hf => ?_
              rw [Function.comp, name_relaxedBy, relaxedBy_concat]
              exact if_congr (by simp [eq_comm]) rfl rfl
          | add name type =>
              rw [TableSchema.changed, List.take_append_of_le_length hlength, ih]
              refine List.map_congr_left fun f hf => ?_
              rw [relaxedBy_concat, if_neg (by simp)]

end TableSchema

/-! ## Versions in memory -/

theorem getElem?_of_begins {α : Type} {xs ys : List α} {i : Nat} {x : α} (h : xs <+: ys)
    (hx : xs[i]? = some x) : ys[i]? = some x := by
  obtain ⟨hi, rfl⟩ := List.getElem?_eq_some_iff.1 hx
  exact List.prefix_iff_getElem?.1 h i hi

namespace SchemaMemory

open Writing

variable {m m' m'' : SchemaMemory} {places : List Nat} {fields : List Field} {place : Nat}
  {o : SchemaObject} {s t : TableSchema}

/-- Memory is only added to. -/
structure Grows (m m' : SchemaMemory) : Prop where
  fields : m.fields <+: m'.fields
  schemas : m.schemas <+: m'.schemas

theorem Grows.refl (m : SchemaMemory) : m.Grows m := ⟨List.prefix_refl _, List.prefix_refl _⟩

theorem Grows.trans (h : m.Grows m') (h' : m'.Grows m'') : m.Grows m'' :=
  ⟨h.fields.trans h'.fields, h.schemas.trans h'.schemas⟩

theorem Grows.fieldsAt (h : m.Grows m') (hfields : m.fieldsAt places = some fields) :
    m'.fieldsAt places = some fields := by
  rw [SchemaMemory.fieldsAt, mapM_eq_some_iff] at hfields ⊢
  exact hfields.imp fun place f hf => getElem?_of_begins h.fields hf

theorem schema?_eq_some_iff : m.schema? place = some s ↔ ∃ o, m.schemas[place]? = some o ∧
    ∃ fields, m.fieldsAt o.places = some fields ∧
      s = ⟨o.id, fields, o.partitionKeys, o.highestFieldId, o.options⟩ := by
  simp only [schema?, Option.bind_eq_bind, Option.bind_eq_some_iff, Option.some.injEq,
    eq_comm (b := s)]

/-- What could be read is read again when memory has grown. -/
theorem Grows.schema? (h : m.Grows m') (hs : m.schema? place = some s) :
    m'.schema? place = some s := by
  obtain ⟨o, ho, fields, hfields, rfl⟩ := schema?_eq_some_iff.1 hs
  exact schema?_eq_some_iff.2
    ⟨o, getElem?_of_begins h.schemas ho, fields, h.fieldsAt hfields, rfl⟩

/-- What is there is read. -/
theorem there_eq {β : Type} {x : Option β} {b : β} (h : x = some b) (m : SchemaMemory) :
    (liftM (there x) : Writing SchemaMemory β) m = (.ok b, m) := by
  rw [lift_eq, h]
  rfl

/-- A call raises the error that it raises for values, or makes the schema that it makes of values,
at a place where no schema was.  All other schemas are read as before. -/
inductive Makes (m : SchemaMemory) :
    Except SchemaError TableSchema → Except Error Nat × SchemaMemory → Prop where
  | failed {e : SchemaError} {m' : SchemaMemory}
      (kept : ∀ place s, m.schema? place = some s → m'.schema? place = some s) :
      Makes m (.error e) (.error (.schema e), m')
  | made {s : TableSchema} {place : Nat} {m' : SchemaMemory}
      (kept : ∀ place s, m.schema? place = some s → m'.schema? place = some s)
      (new : m.schema? place = none) (found : m'.schema? place = some s) :
      Makes m (.ok s) (.ok place, m')

theorem addField_eq (f : Field) (m : SchemaMemory) :
    addField f m = (.ok m.fields.length, { m with fields := m.fields ++ [f] }) := rfl

/-- A schema is made of fields that were added to memory before. -/
theorem makes_addSchema (h : m.Grows m') (hschemas : m'.schemas = m.schemas)
    (hfields : m'.fieldsAt o.places = some fields) : m.Makes
      (TableSchema.make o.id fields o.partitionKeys (some o.highestFieldId) o.options)
      (addSchema o m') := by
  rw [addSchema, bind_of_ok get_eq, bind_of_ok (there_eq hfields m'), TableSchema.make]
  by_cases hids : (fields.map (·.id)).Nodup
  · simp only [hids, not_true_eq_false, if_false, if_true]
    have hgrows : m'.Grows { m' with schemas := m'.schemas ++ [o] } :=
      ⟨List.prefix_refl _, List.prefix_append ..⟩
    refine .made (fun _ _ hs => (h.trans hgrows).schema? hs)
      (?_ : m.schema? m'.schemas.length = none) ?_
    · simp [schema?, hschemas]
    · exact schema?_eq_some_iff.2 ⟨o, by simp, fields, hgrows.fieldsAt hfields, rfl⟩
  · simp only [hids, not_false_eq_true, if_true, if_false]
    exact .failed fun _ _ hs => h.schema? hs

/-- The fields of a version are kept, but for copies of those with an id. -/
theorem exists_mapM_relaxAt (id : Int) (hfields : m.fieldsAt places = some fields) :
    ∃ copies m', places.mapM (relaxAt id) m = (.ok copies, m') ∧ m.Grows m' ∧
      m'.schemas = m.schemas ∧
      m'.fieldsAt copies = some (fields.map fun f => if f.id = id then f.asOptional else f) := by
  induction places generalizing m fields with
  | nil =>
      cases hfields
      exact ⟨[], m, rfl, .refl m, rfl, rfl⟩
  | cons place places ih =>
      rw [fieldsAt, mapM_eq_some_iff, List.forall₂_cons_left_iff] at hfields
      obtain ⟨f, rest, hf, hrest, rfl⟩ := hfields
      -- One field is the one at its place, or a copy that is made now.
      have hfirst : ∃ copy m₁, relaxAt id place m = (.ok copy, m₁) ∧ m.Grows m₁ ∧
          m₁.schemas = m.schemas ∧
          m₁.fields[copy]? = some (if f.id = id then f.asOptional else f) := by
        rw [relaxAt, bind_of_ok get_eq, bind_of_ok (there_eq hf m)]
        split
        · exact ⟨_, _, addField_eq .., ⟨List.prefix_append .., List.prefix_refl _⟩, rfl, by simp⟩
        · exact ⟨_, _, rfl, .refl m, rfl, hf⟩
      obtain ⟨copy, m₁, hcopy, hgrows, hschemas, hread⟩ := hfirst
      obtain ⟨copies, m₂, hcopies, hgrows', hschemas', hreads⟩ :=
        ih (hgrows.fieldsAt (mapM_eq_some_iff.2 hrest))
      refine ⟨copy :: copies, m₂, ?_, hgrows.trans hgrows', hschemas'.trans hschemas, ?_⟩
      · rw [List.mapM_cons, bind_of_ok hcopy, bind_of_ok hcopies]
        rfl
      · rw [fieldsAt, mapM_eq_some_iff] at hreads ⊢
        exact .cons (getElem?_of_begins hgrows'.fields hread) hreads

/-- A call on a schema in memory makes what it makes of values, and all schemas there are stay as
they are. -/
theorem makes_change (hs : m.schema? place = some s) (change : ColumnChange) :
    m.Makes (s.change change) (SchemaMemory.change place change m) := by
  obtain ⟨o, ho, fields, hfields, rfl⟩ := schema?_eq_some_iff.1 hs
  have hobject := there_eq ho m
  have hread := there_eq hfields m
  cases change with
  | relax name =>
      rw [TableSchema.change, TableSchema.makeColumnOptional, TableSchema.findFieldByName?, change,
        makeColumnOptional, bind_of_ok get_eq, bind_of_ok hobject, bind_of_ok hread]
      cases TableSchema.findLast? (fun f => f.name == name) fields with
      | none => exact .failed fun _ _ hs => hs
      | some field =>
          obtain ⟨copies, m', hcopies, hgrows, hschemas, hreads⟩ :=
            exists_mapM_relaxAt field.id hfields
          dsimp only
          rw [bind_of_ok hcopies]
          exact makes_addSchema (o := { o with id := o.id + 1, places := copies }) hgrows hschemas
            hreads
  | add name type =>
      rw [TableSchema.change, TableSchema.addColumn, TableSchema.findFieldByName?, change,
        addColumn, bind_of_ok get_eq, bind_of_ok hobject, bind_of_ok hread]
      dsimp only
      split
      · exact .failed fun _ _ hs => hs
      · split
        · exact .failed fun _ _ hs => hs
        · have hgrows : m.Grows { m with
              fields := m.fields ++ [⟨o.highestFieldId + 1, name, type, none⟩] } :=
            ⟨List.prefix_append .., List.prefix_refl _⟩
          rw [bind_of_ok (addField_eq ..)]
          refine makes_addSchema (o := ⟨o.id + 1, o.places ++ [m.fields.length], o.partitionKeys,
            o.highestFieldId + 1, o.options⟩) hgrows rfl ?_
          have hkept := hgrows.fieldsAt hfields
          rw [fieldsAt, mapM_eq_some_iff] at hkept ⊢
          exact List.rel_append hkept (.cons (by simp) .nil)

end SchemaMemory

/-! ## Versions that are collected -/

namespace SchemaChange

theorem collect_eq (c : SchemaChange) (change : ColumnChange) :
    c.collect change = match c.schema.change change with
      | .ok schema => .ok ⟨schema, true⟩
      | .error e => .error (.schema e) := by
  cases change <;> rfl

theorem collectAll_concat (c : SchemaChange) (changes : List ColumnChange)
    (change : ColumnChange) : c.collectAll (changes ++ [change]) =
      ((c.collectAll changes).collect change).toOption.getD (c.collectAll changes) := by
  simp [collectAll]

/-- Collected changes come to the same version.  It is another one if some of them have succeeded,
and then there is something to be committed. -/
theorem collectAll_eq {s : TableSchema} (hs : s.Regular) (changes : List ColumnChange) :
    (s.after changes = s ∨ s.id < (s.after changes).id) ∧
      (⟨s, false⟩ : SchemaChange).collectAll changes =
        ⟨s.after changes, decide (s.id < (s.after changes).id)⟩ := by
  induction changes using List.reverseRecOn with
  | nil => simp [TableSchema.after, collectAll]
  | append_singleton changes change ih =>
      obtain ⟨hsame, heq⟩ := ih
      have hafter := (hs.after changes).after_concat_eq change
      have hcollect := collect_eq ⟨s.after changes, decide (s.id < (s.after changes).id)⟩ change
      rw [(hs.after changes).change_eq] at hcollect
      rw [collectAll_concat, heq, hcollect]
      cases hrefusal : change.refusal? (s.after changes) with
      | some e =>
          rw [hrefusal] at hafter
          rw [hafter]
          exact ⟨hsame, rfl⟩
      | none =>
          rw [hrefusal] at hafter
          have hid : ((s.after changes).changed change).id = (s.after changes).id + 1 := by
            cases change <;> rfl
          have hlater : s.id < ((s.after changes).changed change).id := by
            rcases hsame with hsame | hsame
            · rw [hid, hsame]
              omega
            · omega
          rw [hafter, decide_eq_true hlater]
          exact ⟨.inr hlater, rfl⟩

/-- What a commit comes to when all changes were collected at once. -/
theorem commit_collectAll {log : TableLog} (hs : log.schema.Regular)
    (changes : List ColumnChange) :
    ((SchemaChange.start log).collectAll changes).commit log =
      if (log.schema.after changes).id = log.schema.id then .ok (log.schema, log)
      else
        let next := (log.schema.after changes).withId (log.schema.id + 1)
        .ok (next, { log with schema := next, olderSchemas := log.schemas }) := by
  obtain ⟨hsame, heq⟩ := collectAll_eq hs changes
  rw [start, heq]
  rcases hsame with hsame | hlater
  · rw [hsame, if_pos rfl, commit_of_unchanged (by simp)]
  · rw [if_neg (by omega), commit_of_changed (decide_eq_true hlater)]
    rfl

end SchemaChange

/-! ## All together -/

namespace TableSchema

/-- What comes of a schema by changes of its columns. -/
structure GrowsBy (s : TableSchema) (changes : List ColumnChange) : Prop where
  /-- One more call is refused for the reasons that are named and for no others, or makes the next
  version. -/
  change_eq : ∀ change, (s.after changes).change change =
    match change.refusal? (s.after changes) with
    | some e => .error e
    | none => .ok ((s.after changes).changed change)
  /-- The fields that there were at first stay in front.  Those that were named are nullable. -/
  kept : (s.after changes).fields.take s.fields.length = s.fields.map (Field.relaxedBy changes)
  le_highest : ∀ f ∈ (s.after changes).fields, f.id ≤ (s.after changes).highestFieldId
  /-- The id of a new field is above all that there are or have been. -/
  fresh : ∀ earlier, earlier <+: changes → ∀ f ∈ (s.after earlier).fields,
    f.id < (s.after changes).highestFieldId + 1
  /-- A version in memory is changed by no call, and neither is any other. -/
  makes : ∀ (m : SchemaMemory) place change, m.schema? place = some (s.after changes) →
    m.Makes ((s.after changes).change change) (SchemaMemory.change place change m)
  /-- Changes that were collected are committed as the next version of the schema that they began
  with.  Where none has succeeded, nothing is committed. -/
  committed : ∀ log : TableLog, log.schema = s →
    ((SchemaChange.start log).collectAll changes).commit log =
      if (s.after changes).id = s.id then .ok (s, log)
      else
        let next := (s.after changes).withId (s.id + 1)
        .ok (next, { log with schema := next, olderSchemas := log.schemas })

/-- **Changes of columns keep the identity of columns.**  A schema has distinct names and ids, and
its highest id is not below any of them.  Of any calls, one after another, each one is refused for
a missing column, for a name that is taken or for a type that is not nullable, and never because of
ids, or makes a version with the next version number; the fields that there were stay in front, and
new ones get ids that no version before had; no version changes once it is made; and the same calls
collected and committed at once make one version, with the number that follows. -/
theorem growsBy {s : TableSchema} (hids : s.fieldIds.Nodup) (hnames : s.fieldNames.Nodup)
    (hhighest : ∀ f ∈ s.fields, f.id ≤ s.highestFieldId) (changes : List ColumnChange) :
    s.GrowsBy changes := by
  have hs : s.Regular := ⟨⟨hids, hhighest⟩, hnames⟩
  exact {
    change_eq := (hs.after changes).change_eq
    kept := hs.take_after changes
    le_highest := (hs.after changes).numbered.le_highest
    fresh := fun earlier hearlier f hf => by
      have hle := (hs.after earlier).numbered.le_highest f hf
      have hhighest := (hs.extends_after hearlier).highest
      omega
    makes := fun m place change hplace => SchemaMemory.makes_change hplace change
    committed := by
      rintro log rfl
      exact SchemaChange.commit_collectAll hs changes }

/-- A column with a number is added, made nullable and named again, which is refused. -/
def partsSchema : TableSchema :=
  ⟨0, [⟨4, "id", .atomic "BIGINT" false, none⟩, ⟨2, "part", .atomic "INT" false, none⟩], [], 7, []⟩

theorem growsBy_partsSchema : partsSchema.GrowsBy [.add "size" (.atomic "INT" true), .relax "part",
    .add "size" (.atomic "INT" true), .relax "weight"] :=
  growsBy (by decide) (by decide) (by decide) _

end TableSchema

end MergeOnRead
