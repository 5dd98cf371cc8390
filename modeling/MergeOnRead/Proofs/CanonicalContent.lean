import MergeOnRead.Proofs.Hashes
import MergeOnRead.Proofs.SortedRuns
import MergeOnRead.Schema.ColumnType
import Mathlib.Data.String.Basic

/-!
# Canonical forms tell the content

Decoders present the content of a column in different ways: a list as a list or a tuple, a structure
as a dictionary in any order, numbers in any type, binary data in any holder, and NaNs with any
bits.  Two values of a column have equal canonical forms exactly when they present the same content,
and equal canonical forms have equal hashes (`ColumnType.canonical_eq_iff_datum_eq`).

Strategy:

* a scalar is canonical when all its representations have one key, and this key tells its content
  (`Scalar.atom_canonical_eq_iff`);
* a dictionary with different texts for keys can be sorted (`exists_canonical_dict`), and sorting
  does not matter for a comparison of what the texts stand for (`IsSortedBy.map_pair_eq_iff`);
* the induction is on the type of the column: `exists_canonical` for one canonical form,
  `Shows.key_eq_iff` for two of them.
-/

namespace MergeOnRead

open Sorting

/-! ## Sorted pairs -/

/-- Two lists of the same pairs, with different names that come in the same order, are the same. -/
theorem Sorting.eq_of_perm_of_names {β γ : Type} {ps qs : List (β × γ)} (h : ps.Perm qs)
    (hnames : ps.map Prod.fst = qs.map Prod.fst) (hnodup : (ps.map Prod.fst).Nodup) : ps = qs := by
  induction ps generalizing qs with
  | nil => exact (List.nil_perm.1 h).symm
  | cons p ps ih =>
      cases qs with
      | nil => cases hnames
      | cons q qs =>
          rw [List.map_cons, List.map_cons, List.cons.injEq] at hnames
          rw [List.map_cons, List.nodup_cons] at hnodup
          have hpq : p = q := by
            rcases List.mem_cons.1 (h.mem_iff.1 (List.mem_cons_self ..)) with heq | hmem
            · exact heq
            · rw [hnames.2] at hnodup
              exact absurd (List.mem_map_of_mem hmem) hnodup.1
          subst hpq
          rw [ih h.cons_inv hnames.2 hnodup.2]

namespace Sorting.IsSortedBy

variable {α β γ : Type} [LinearOrder β] {name : α → β} {content : α → γ} {xs ys xs' ys' : List α}

theorem nodup (h : IsSortedBy name xs) : (xs.map name).Nodup :=
  List.pairwise_map.2 (h.imp fun hlt => hlt.ne)

/-- Sorting by names does not matter for a comparison of what the names stand for. -/
theorem map_pair_eq_iff (hxs : IsSortedBy name xs) (hys : IsSortedBy name ys) (hx : xs.Perm xs')
    (hy : ys.Perm ys') (hnames : xs'.map name = ys'.map name) :
    xs.map (fun x => (name x, content x)) = ys.map (fun x => (name x, content x)) ↔
      xs'.map content = ys'.map content := by
  constructor
  · intro h
    have hperm : (xs'.map fun x => (name x, content x)).Perm
        (ys'.map fun x => (name x, content x)) :=
      (hx.symm.map _).trans (h ▸ hy.map _)
    have heq := eq_of_perm_of_names hperm (by simpa [Function.comp_def] using hnames)
      (by simpa [Function.comp_def] using (hx.map name).nodup_iff.1 hxs.nodup)
    simpa [Function.comp_def] using congrArg (List.map Prod.snd) heq
  · intro h
    have heq : xs'.map (fun x => (name x, content x)) = ys'.map fun x => (name x, content x) := by
      rw [← List.zip_map', ← List.zip_map', hnames, h]
    have hperm := (hx.map fun x => (name x, content x)).trans
      (heq ▸ (hy.map fun x => (name x, content x)).symm)
    have hsorted : IsSortedBy Prod.fst (xs.map fun x => (name x, content x)) :=
      List.pairwise_map.2 hxs
    exact hsorted.eq_of_perm (List.pairwise_map.2 hys) hperm

end Sorting.IsSortedBy

/-! ## Content of columns -/

/-- The content of a column of some type: that of a scalar, of a list item by item, or of a
structure field by field. -/
inductive Datum where
  | plain (content : Content)
  | list (items : List Datum)
  | struct (fields : List Datum)

namespace ColumnType

mutual

/-- A value presents content of a column type.  A type without parts has scalars, among them numbers
of all types, but no decimal that is a NaN.  A list is presented as a list or a tuple, and a
structure as a dictionary of its fields in any order.  Anything can be null. -/
inductive Presents : ColumnType → Value → Datum → Prop where
  | null {type : ColumnType} : Presents type .null (.plain .null)
  | scalar {type : FlatType} {s : Scalar} (h : s.isDecimalNaN = false) :
      Presents (.flat type) (.scalar s) (.plain s.content)
  | list {large : Bool} {item : ColumnType} {vs : List Value} {ds : List Datum}
      (h : PresentsItems item vs ds) : Presents (.list large item) (.list vs) (.list ds)
  | tuple {large : Bool} {item : ColumnType} {vs : List Value} {ds : List Datum}
      (h : PresentsItems item vs ds) : Presents (.list large item) (.tuple vs) (.list ds)
  | struct {fields : List (String × ColumnType)} {es fs : List (Value × Value)} {ds : List Datum}
      (hnames : (fields.map (·.1)).Nodup) (horder : es.Perm fs) (h : PresentsFields fields fs ds) :
      Presents (.struct fields) (.dict es) (.struct ds)

/-- Values present the items of a list. -/
inductive PresentsItems : ColumnType → List Value → List Datum → Prop where
  | nil {item : ColumnType} : PresentsItems item [] []
  | cons {item : ColumnType} {v : Value} {d : Datum} {vs : List Value} {ds : List Datum}
      (h : Presents item v d) (hs : PresentsItems item vs ds) :
      PresentsItems item (v :: vs) (d :: ds)

/-- Entries present the fields of a structure, in their order. -/
inductive PresentsFields :
    List (String × ColumnType) → List (Value × Value) → List Datum → Prop where
  | nil : PresentsFields [] [] []
  | cons {name : String} {type : ColumnType} {fields : List (String × ColumnType)} {v : Value}
      {d : Datum} {es : List (Value × Value)} {ds : List Datum}
      (h : Presents type v d) (hs : PresentsFields fields es ds) :
      PresentsFields ((name, type) :: fields) ((.text name, v) :: es) (d :: ds)

end

theorem PresentsItems.forall₂ {item : ColumnType} {vs : List Value} {ds : List Datum}
    (h : item.PresentsItems vs ds) : List.Forall₂ item.Presents vs ds := by
  induction vs generalizing ds with
  | nil =>
      cases h
      exact .nil
  | cons v vs ih =>
      cases h with
      | cons h hs => exact .cons h (ih hs)

end ColumnType

/-! ## Canonical scalars -/

/-- A value can be kept in a set and is equal to itself. -/
structure Value.IsKeyed (c : Value) : Prop where
  hashable : c.isHashable = true
  settled : c.key.isSettled = true

namespace Scalar

theorem isKeyed_canonical {s : Scalar} (h : s.isDecimalNaN = false) :
    (Value.scalar s.canonical).IsKeyed := by
  refine ⟨?_, isSettled_atom ((isNaN_canonical s).trans h)⟩
  cases s with
  | float x =>
      rw [canonical]
      split <;> rfl
  | decimal d =>
      cases d with
      | nan _ _ _ => cases h
      | finite _ _ _ | infinite _ => rfl
  | _ => rfl

/-- Canonical scalars are equal when they say the same. -/
theorem atom_canonical_eq_iff {s t : Scalar} (hs : s.isDecimalNaN = false)
    (ht : t.isDecimalNaN = false) :
    s.canonical.atom = t.canonical.atom ↔ s.content = t.content := by
  rw [atom_eq_iff (atom_ne_stray ((isNaN_canonical s).trans hs))
    (atom_ne_stray ((isNaN_canonical t).trans ht)), content_canonical, content_canonical]

end Scalar

/-! ## Canonical sequences and dictionaries -/

namespace Value

theorem areHashable_iff {vs : List Value} :
    areHashable vs = true ↔ ∀ v ∈ vs, v.isHashable = true := by
  induction vs with
  | nil => simp [areHashable]
  | cons v vs ih => simp [areHashable, ih]

theorem isKeyed_tuple {cs : List Value} (h : ∀ c ∈ cs, c.IsKeyed) : (tuple cs).IsKeyed := by
  refine ⟨areHashable_iff.2 fun c hc => (h c hc).hashable, ?_⟩
  rw [key, Key.isSettled, keys_eq_map, Key.areSettled_iff]
  intro k hk
  obtain ⟨c, hc, rfl⟩ := List.mem_map.1 hk
  exact (h c hc).settled

theorem canonicalItems_eq_ok_iff {vs cs : List Value} :
    canonicalItems vs = .ok cs ↔ List.Forall₂ (fun v c => v.canonical = .ok c) vs cs := by
  induction vs generalizing cs with
  | nil =>
      rw [canonicalItems, List.forall₂_nil_left_iff]
      exact ⟨fun h => by cases h; rfl, fun h => by rw [h]⟩
  | cons v vs ih =>
      rw [canonicalItems, List.forall₂_cons_left_iff]
      constructor
      · intro h
        obtain ⟨c, hc, h⟩ := bind_eq_ok_iff.1 h
        obtain ⟨rest, hrest, h⟩ := bind_eq_ok_iff.1 h
        cases h
        exact ⟨c, rest, hc, ih.1 hrest, rfl⟩
      · rintro ⟨c, rest, hc, hrest, rfl⟩
        rw [hc, ok_bind, ih.2 hrest, ok_bind]

theorem canonicalEntries_eq_ok_iff {es fs : List (Value × Value)} :
    canonicalEntries es = .ok fs ↔
      List.Forall₂ (fun e f => e.1 = f.1 ∧ e.2.canonical = .ok f.2) es fs := by
  induction es generalizing fs with
  | nil =>
      rw [canonicalEntries, List.forall₂_nil_left_iff]
      exact ⟨fun h => by cases h; rfl, fun h => by rw [h]⟩
  | cons e es ih =>
      rw [canonicalEntries, List.forall₂_cons_left_iff]
      constructor
      · intro h
        obtain ⟨c, hc, h⟩ := bind_eq_ok_iff.1 h
        obtain ⟨rest, hrest, h⟩ := bind_eq_ok_iff.1 h
        cases h
        exact ⟨(e.1, c), rest, ⟨rfl, hc⟩, ih.1 hrest, rfl⟩
      · rintro ⟨⟨k, c⟩, rest, ⟨hk, hc⟩, hrest, rfl⟩
        rw [hc, ok_bind, ih.2 hrest, ok_bind, hk]

/-- The name of an entry. -/
def entryName (e : Value × Value) : String :=
  match e.1 with
  | .text name => name
  | _ => ""

/-- Entries with different texts for keys are compared by these. -/
theorem ranks_lessEntry {es : List (Value × Value)} (htexts : ∀ e ∈ es, e.1 = .text (entryName e))
    (hnames : (es.map entryName).Nodup) : Ranks lessEntry entryName es := by
  refine ⟨hnames, fun e he f hf hne => ⟨decide (entryName e < entryName f), ?_, by simp⟩⟩
  have hdiffer : (text (entryName e)).eq (text (entryName f)) = false := by
    simp [eq, key, Scalar.atom, hne]
  rw [lessEntry, htexts e he, htexts f hf, lessItems, hdiffer]
  rfl

/-- An entry as a pair. -/
def pairOf (e : Value × Value) : Value := .tuple [e.1, e.2]

/-- The key of a pair of a name and a value with some key. -/
def fieldKey (field : String × Key) : Key := .node .tuple [.atom (.text field.1), field.2]

theorem fieldKey_injective : Function.Injective fieldKey := by
  rintro ⟨name, k⟩ ⟨name', k'⟩ h
  simpa [fieldKey] using h

theorem map_key_pairOf {es : List (Value × Value)} (h : ∀ e ∈ es, e.1 = .text (entryName e)) :
    (es.map pairOf).map key = (es.map fun e => (entryName e, e.2.key)).map fieldKey := by
  rw [List.map_map, List.map_map]
  refine List.map_congr_left fun e he => ?_
  rw [Function.comp, Function.comp, pairOf, h e he]
  rfl

/-- The canonical form of a dictionary of texts lists its entries by key. -/
theorem exists_canonical_dict {es fs cs : List (Value × Value)} (horder : es.Perm fs)
    (hfs : canonicalEntries fs = .ok cs) (htexts : ∀ c ∈ cs, c.1 = .text (entryName c))
    (hnames : (cs.map entryName).Nodup) : ∃ sorted,
      (dict es).canonical = .ok (.tuple (sorted.map pairOf)) ∧ sorted.Perm cs ∧
        IsSortedBy entryName sorted := by
  obtain ⟨cs', hes, hperm⟩ := List.perm_comp_forall₂ horder (canonicalEntries_eq_ok_iff.1 hfs)
  have hranks : Ranks lessEntry entryName cs' :=
    (ranks_lessEntry htexts hnames).mono hperm.subperm
  obtain ⟨sorted, hsort, hsorted, hascending⟩ := exists_sort_eq hranks
  refine ⟨sorted, ?_, hsorted.trans hperm, hascending⟩
  rw [canonical, canonicalEntries_eq_ok_iff.2 hes, ok_bind, hsort, ok_bind]
  rfl

end Value

namespace ColumnType

open Value

/-! ## Canonical forms exist -/

mutual

theorem exists_canonical : (type : ColumnType) → {v : Value} → {d : Datum} → type.Presents v d →
    ∃ c, v.canonical = .ok c ∧ c.IsKeyed
  | .flat type, v, d, h => by
      cases h with
      | null => exact ⟨.null, rfl, rfl, rfl⟩
      | scalar hs => exact ⟨_, rfl, Scalar.isKeyed_canonical hs⟩
  | .list large item, v, d, h => by
      have hitems : ∀ {vs : List Value} {ds : List Datum}, item.PresentsItems vs ds →
          ∃ c, (canonicalItems vs).map Value.tuple = .ok c ∧ c.IsKeyed := by
        intro vs ds hs
        have hall : ∃ cs, canonicalItems vs = .ok cs ∧ ∀ c ∈ cs, c.IsKeyed := by
          have hpresents := hs.forall₂
          clear hs
          induction hpresents with
          | nil => exact ⟨[], rfl, nofun⟩
          | cons hfirst _ ih =>
              obtain ⟨c, hc, hkeyed⟩ := exists_canonical item hfirst
              obtain ⟨cs, hcs, hkeyeds⟩ := ih
              refine ⟨c :: cs, ?_, List.forall_mem_cons.2 ⟨hkeyed, hkeyeds⟩⟩
              rw [canonicalItems, hc, ok_bind, hcs, ok_bind]
        obtain ⟨cs, hcs, hkeyed⟩ := hall
        exact ⟨.tuple cs, by rw [hcs]; rfl, isKeyed_tuple hkeyed⟩
      cases h with
      | null => exact ⟨.null, rfl, rfl, rfl⟩
      | list hs => exact hitems hs
      | tuple hs => exact hitems hs
  | .struct fields, v, d, h => by
      cases h with
      | null => exact ⟨.null, rfl, rfl, rfl⟩
      | struct hnames horder hs =>
          obtain ⟨cs, hcs, hfields, hkeyed⟩ := exists_canonicalEntries fields hs
          obtain ⟨sorted, hsorted, hperm, -⟩ := exists_canonical_dict horder hcs
            (fun c hc => (hkeyed c hc).1) (by rwa [hfields])
          refine ⟨_, hsorted, isKeyed_tuple fun c hc => ?_⟩
          obtain ⟨e, he, rfl⟩ := List.mem_map.1 hc
          obtain ⟨htext, hvalue⟩ := hkeyed e (hperm.mem_iff.1 he)
          refine isKeyed_tuple fun c hc => ?_
          simp only [List.mem_cons, List.not_mem_nil, or_false] at hc
          rcases hc with rfl | rfl
          · rw [htext]
            exact ⟨rfl, rfl⟩
          · exact hvalue
  | .map _ _, v, d, h => by
      cases h with
      | null => exact ⟨.null, rfl, rfl, rfl⟩

theorem exists_canonicalEntries : (fields : List (String × ColumnType)) →
    {es : List (Value × Value)} → {ds : List Datum} → PresentsFields fields es ds →
    ∃ cs, canonicalEntries es = .ok cs ∧ cs.map entryName = fields.map (·.1) ∧
      ∀ c ∈ cs, c.1 = .text (entryName c) ∧ c.2.IsKeyed
  | [], es, ds, h => by
      cases h with
      | nil => exact ⟨[], rfl, rfl, nofun⟩
  | (name, type) :: fields, es, ds, h => by
      cases h with
      | cons h hs =>
          obtain ⟨c, hc, hkeyed⟩ := exists_canonical type h
          obtain ⟨cs, hcs, hfields, hkeyeds⟩ := exists_canonicalEntries fields hs
          refine ⟨(.text name, c) :: cs, ?_, ?_, List.forall_mem_cons.2 ⟨⟨rfl, hkeyed⟩, hkeyeds⟩⟩
          · rw [canonicalEntries, hc, ok_bind, hcs, ok_bind]
          · rw [List.map_cons, List.map_cons, hfields]
            rfl

end

/-! ## Canonical forms of the same type -/

/-- A canonical form of values that present some content. -/
def Shows (type : ColumnType) (c : Value) (d : Datum) : Prop :=
  ∃ v, type.Presents v d ∧ v.canonical = .ok c

/-- Canonical entries of values that present the fields of a structure. -/
def ShowsFields (fields : List (String × ColumnType)) (cs : List (Value × Value))
    (ds : List Datum) : Prop :=
  ∃ es, PresentsFields fields es ds ∧ canonicalEntries es = .ok cs

/-- A canonical null. -/
def ShowsNull (c : Value) (d : Datum) : Prop := c = .null ∧ d = .plain .null

section Shows

variable {c k : Value} {d e : Datum}

theorem showsNull_of_canonical (h : Value.null.canonical = .ok c) : ShowsNull c (.plain .null) := by
  cases h
  exact ⟨rfl, rfl⟩

theorem Shows.flat_cases {type : FlatType} (h : (ColumnType.flat type).Shows c d) :
    ∃ s : Scalar, s.isDecimalNaN = false ∧ c = .scalar s.canonical ∧ d = .plain s.content := by
  obtain ⟨v, hv, hc⟩ := h
  cases hv with
  | null =>
      cases hc
      exact ⟨.null, rfl, rfl, rfl⟩
  | scalar hs =>
      cases hc
      exact ⟨_, hs, rfl, rfl⟩

theorem forall₂_shows {item : ColumnType} {vs cs : List Value} {ds : List Datum}
    (hs : item.PresentsItems vs ds) (hcs : canonicalItems vs = .ok cs) :
    List.Forall₂ item.Shows cs ds := by
  have hpresents := hs.forall₂
  rw [canonicalItems_eq_ok_iff] at hcs
  clear hs
  induction hcs generalizing ds with
  | nil =>
      cases hpresents
      exact .nil
  | cons hc _ ih =>
      cases hpresents with
      | cons hd hds => exact .cons ⟨_, hd, hc⟩ (ih hds)

theorem Shows.list_cases {large : Bool} {item : ColumnType}
    (h : (ColumnType.list large item).Shows c d) : ShowsNull c d ∨
      ∃ cs ds, c = .tuple cs ∧ d = .list ds ∧ List.Forall₂ item.Shows cs ds := by
  obtain ⟨v, hv, hc⟩ := h
  cases hv with
  | null => exact .inl (showsNull_of_canonical hc)
  | list hs | tuple hs =>
      obtain ⟨cs, hcs, rfl⟩ := map_eq_ok_iff.1 hc
      exact .inr ⟨cs, _, rfl, rfl, forall₂_shows hs hcs⟩

theorem ShowsFields.named {fields : List (String × ColumnType)} {cs : List (Value × Value)}
    {ds : List Datum} (h : ShowsFields fields cs ds) :
    cs.map entryName = fields.map (·.1) ∧ ∀ c ∈ cs, c.1 = .text (entryName c) := by
  obtain ⟨es, hes, hcs⟩ := h
  obtain ⟨cs', hcs', hfields, hkeyed⟩ := exists_canonicalEntries fields hes
  rw [hcs] at hcs'
  cases hcs'
  exact ⟨hfields, fun c hc => (hkeyed c hc).1⟩

theorem Shows.struct_cases {fields : List (String × ColumnType)}
    (h : (ColumnType.struct fields).Shows c d) : ShowsNull c d ∨
      ∃ sorted cs ds, c = .tuple (sorted.map pairOf) ∧ d = .struct ds ∧ sorted.Perm cs ∧
        IsSortedBy entryName sorted ∧ ShowsFields fields cs ds := by
  obtain ⟨v, hv, hc⟩ := h
  cases hv with
  | null => exact .inl (showsNull_of_canonical hc)
  | struct hnames horder hs =>
      obtain ⟨cs, hcs, -⟩ := exists_canonicalEntries fields hs
      have hshows : ShowsFields fields cs _ := ⟨_, hs, hcs⟩
      obtain ⟨hfields, htexts⟩ := hshows.named
      obtain ⟨sorted, hsorted, hperm, hascending⟩ :=
        exists_canonical_dict horder hcs htexts (by rwa [hfields])
      rw [hsorted] at hc
      cases hc
      exact .inr ⟨sorted, cs, _, rfl, rfl, hperm, hascending, hshows⟩

theorem ShowsFields.cons_cases {name : String} {type : ColumnType}
    {fields : List (String × ColumnType)} {cs : List (Value × Value)} {ds : List Datum}
    (h : ShowsFields ((name, type) :: fields) cs ds) :
    ∃ c cs' d ds', cs = (.text name, c) :: cs' ∧ ds = d :: ds' ∧ type.Shows c d ∧
      ShowsFields fields cs' ds' := by
  obtain ⟨es, hes, hcs⟩ := h
  cases hes with
  | cons hd hds =>
      rw [canonicalEntries] at hcs
      obtain ⟨c, hc, hcs⟩ := bind_eq_ok_iff.1 hcs
      obtain ⟨rest, hrest, hcs⟩ := bind_eq_ok_iff.1 hcs
      cases hcs
      exact ⟨c, rest, _, _, rfl, rfl, ⟨_, hd, hc⟩, _, hds, hrest⟩

end Shows

/-- Lists are mapped to the same keys when they show the same content. -/
theorem map_eq_map_iff_of_forall₂ {α β γ : Type} {R : α → β → Prop} {f : α → γ}
    (h : ∀ {a a' b b'}, R a b → R a' b' → (f a = f a' ↔ b = b')) {as as' : List α}
    {bs bs' : List β} (hs : List.Forall₂ R as bs) (hs' : List.Forall₂ R as' bs') :
    as.map f = as'.map f ↔ bs = bs' := by
  induction hs generalizing as' bs' with
  | nil =>
      cases hs' with
      | nil => simp
      | cons _ _ => simp
  | cons hab _ ih =>
      cases hs' with
      | nil => simp
      | cons hab' hs' =>
          rw [List.map_cons, List.map_cons, List.cons.injEq, List.cons.injEq, h hab hab', ih hs']

mutual

theorem Shows.key_eq_iff : (type : ColumnType) → {c k : Value} → {d e : Datum} →
    type.Shows c d → type.Shows k e → (c.key = k.key ↔ d = e)
  | .flat type, c, k, d, e, hc, hk => by
      obtain ⟨s, hs, rfl, rfl⟩ := hc.flat_cases
      obtain ⟨t, ht, rfl, rfl⟩ := hk.flat_cases
      simpa [key] using Scalar.atom_canonical_eq_iff hs ht
  | .list large item, c, k, d, e, hc, hk => by
      rcases hc.list_cases with ⟨rfl, rfl⟩ | ⟨cs, ds, rfl, rfl, hcs⟩ <;>
        rcases hk.list_cases with ⟨rfl, rfl⟩ | ⟨ks, es, rfl, rfl, hks⟩
      · simp
      · simp [key]
      · simp [key]
      · rw [key, key, keys_eq_map, keys_eq_map, Key.node.injEq, Datum.list.injEq]
        have hitems := map_eq_map_iff_of_forall₂
          (fun hc hk => Shows.key_eq_iff item hc hk) hcs hks
        simpa using hitems
  | .struct fields, c, k, d, e, hc, hk => by
      rcases hc.struct_cases with ⟨rfl, rfl⟩ | ⟨cs, cs', ds, rfl, rfl, hperm, hsorted, hcs⟩ <;>
        rcases hk.struct_cases with ⟨rfl, rfl⟩ | ⟨ks, ks', es, rfl, rfl, hperm', hsorted', hks⟩
      · simp
      · simp [key]
      · simp [key]
      · obtain ⟨hnames, htexts⟩ := hcs.named
        obtain ⟨hnames', htexts'⟩ := hks.named
        rw [key, key, keys_eq_map, keys_eq_map, Key.node.injEq,
          map_key_pairOf fun c hc => htexts c (hperm.mem_iff.1 hc),
          map_key_pairOf fun c hc => htexts' c (hperm'.mem_iff.1 hc),
          fieldKey_injective.list_map.eq_iff,
          hsorted.map_pair_eq_iff hsorted' hperm hperm' (hnames.trans hnames'.symm),
          ShowsFields.key_eq_iff fields hcs hks]
        simp
  | .map _ _, c, k, d, e, hc, hk => by
      obtain ⟨v, hv, hc⟩ := hc
      obtain ⟨w, hw, hk⟩ := hk
      cases hv
      cases hw
      cases hc
      cases hk
      simp

theorem ShowsFields.key_eq_iff : (fields : List (String × ColumnType)) →
    {cs ks : List (Value × Value)} → {ds es : List Datum} → ShowsFields fields cs ds →
    ShowsFields fields ks es → (cs.map (fun c => c.2.key) = ks.map (fun k => k.2.key) ↔ ds = es)
  | [], cs, ks, ds, es, hc, hk => by
      obtain ⟨fs, hfs, hc⟩ := hc
      obtain ⟨gs, hgs, hk⟩ := hk
      cases hfs
      cases hgs
      cases hc
      cases hk
      simp
  | (name, type) :: fields, cs, ks, ds, es, hc, hk => by
      obtain ⟨c, cs, d, ds, rfl, rfl, hd, hds⟩ := hc.cons_cases
      obtain ⟨k, ks, e, es, rfl, rfl, he, hes⟩ := hk.cons_cases
      rw [List.map_cons, List.map_cons, List.cons.injEq, List.cons.injEq,
        Shows.key_eq_iff type hd he, ShowsFields.key_eq_iff fields hds hes]

end

/-- **Canonical keys neither miss nor confuse.**  Two values of a column, however they are
presented, have canonical forms that are compared without an error.  These are equal exactly when
the values present the same content, and then they have the same hash. -/
theorem canonical_eq_iff_datum_eq (hasher : Hasher) {type : ColumnType} {v w : Value} {d e : Datum}
    (hv : type.Presents v d) (hw : type.Presents w e) : ∃ c k,
      v.canonical = .ok c ∧ w.canonical = .ok k ∧ c.signals k = false ∧
        (c.eq k = true ↔ d = e) ∧
        (c.eq k = true → ∃ hash, hasher.value? c = some hash ∧ hasher.value? k = some hash) := by
  obtain ⟨c, hc, hkeyed⟩ := exists_canonical type hv
  obtain ⟨k, hk, hkeyed'⟩ := exists_canonical type hw
  have heq : c.eq k = true ↔ c.key = k.key := eq_iff.trans (and_iff_left hkeyed.settled)
  refine ⟨c, k, hc, hk, signals_eq_false c k hkeyed.hashable hkeyed'.hashable, ?_, fun hsame => ?_⟩
  · exact heq.trans (Shows.key_eq_iff type ⟨v, hv, hc⟩ ⟨w, hw, hk⟩)
  · obtain ⟨hash, hhash⟩ := hasher.exists_value?_eq c hkeyed.hashable hkeyed.settled
    refine ⟨hash, hhash, ?_⟩
    rw [← hhash, hasher.value?_eq_key? c hkeyed.hashable, heq.1 hsame,
      hasher.value?_eq_key? k hkeyed'.hashable]

/-- A hasher of short content. -/
def lengthHasher : Hasher where
  null := 0
  text s := UInt64.ofNat s.length
  binary bytes := UInt64.ofNat bytes.length
  date d := UInt64.ofInt d.days
  timestamp t := UInt64.ofInt t.nanos
  instant t := UInt64.ofInt t.nanos

/-- A list of numbers beside binary data. -/
def readingType : ColumnType :=
  .struct [("levels", .list false (.flat .double)), ("raw", .flat (.binary false))]

/-- The content of a column of that type, given what stands for its numbers. -/
def readingDatum (levels : List Scalar) : Datum :=
  .struct [.list (levels.map fun s => .plain s.content), .plain (.binary [7])]

/-- A list of a double, a null and a NaN in one dictionary, and a tuple of a decimal, a null and
another NaN in a dictionary of the other order: one key, and one hash. -/
theorem canonical_eq_iff_datum_eq_reading : ∃ c k,
    (Value.dict [(.text "levels", .list [.float ⟨0x3FF0000000000000⟩, .null, .float .nan]),
      (.text "raw", .scalar (.binary .buffer [7]))]).canonical = .ok c ∧
    (Value.dict [(.text "raw", .scalar (.binary .view [7])),
      (.text "levels", .tuple [.decimal (.finite false 10 (-1)), .null,
        .float ⟨0xFFF0000000000001⟩])]).canonical = .ok k ∧
    c.eq k = true ∧
    ∃ hash, lengthHasher.value? c = some hash ∧ lengthHasher.value? k = some hash := by
  have hv : readingType.Presents
      (.dict [(.text "levels", .list [.float ⟨0x3FF0000000000000⟩, .null, .float .nan]),
        (.text "raw", .scalar (.binary .buffer [7]))])
      (readingDatum [.float ⟨0x3FF0000000000000⟩, .null, .float .nan]) :=
    .struct (by decide) (.refl _) (.cons (.list (.cons (.scalar rfl) (.cons .null
      (.cons (.scalar rfl) .nil)))) (.cons (.scalar rfl) .nil))
  have hw : readingType.Presents
      (.dict [(.text "raw", .scalar (.binary .view [7])),
        (.text "levels", .tuple [.decimal (.finite false 10 (-1)), .null,
          .float ⟨0xFFF0000000000001⟩])])
      (readingDatum [.decimal (.finite false 10 (-1)), .null, .float ⟨0xFFF0000000000001⟩]) :=
    .struct (by decide) (.swap ..) (.cons (.tuple (.cons (.scalar rfl) (.cons .null
      (.cons (.scalar rfl) .nil)))) (.cons (.scalar rfl) .nil))
  have hone : (Scalar.float ⟨0x3FF0000000000000⟩).content =
      (Scalar.decimal (.finite false 10 (-1))).content :=
    (Scalar.atom_canonical_eq_iff rfl rfl).1 (by decide)
  have hnan : (Scalar.float .nan).content = (Scalar.float ⟨0xFFF0000000000001⟩).content :=
    (Scalar.atom_canonical_eq_iff rfl rfl).1 (by decide)
  have hsame : readingDatum [.float ⟨0x3FF0000000000000⟩, .null, .float .nan] =
      readingDatum [.decimal (.finite false 10 (-1)), .null, .float ⟨0xFFF0000000000001⟩] := by
    rw [readingDatum, readingDatum, List.map_cons, List.map_cons, hone]
    simp only [List.map_cons, hnan]
  obtain ⟨c, k, hc, hk, -, hiff, hhash⟩ := canonical_eq_iff_datum_eq lengthHasher hv hw
  exact ⟨c, k, hc, hk, hiff.2 hsame, hhash (hiff.2 hsame)⟩

end ColumnType

end MergeOnRead
