import MergeOnRead.Proofs.CanonicalContent
import MergeOnRead.Proofs.KeyIndexes
import MergeOnRead.Row.SetCalls
import Mathlib.Data.Set.Card

/-!
# Sets of rows are sets of classes

Rows of all kinds are kept by their canonical keys.  Equality of these keys is an equivalence
(`Value.comparesContent`), and so a set of rows is a set of classes of rows, whatever calls were
made on it and on the sets it was updated from (`KeySets.holdsClasses_run`).

Strategy:

* `Row.sameKey_iff` and `classOfKeys`: the class of a row is given by the keys of its values, and
  different keys give different classes;
* `KeySet.Keeps` says that a set holds the keys of some rows, each once.  It is kept by an insertion
  and by a union, and everything that can be asked of a set follows from it;
* `KeySets.keep_call` is the step and `KeySets.keep_run` the run.
-/

namespace MergeOnRead

/-! ## Equality of keys -/

namespace Value

/-- Equality of values is an equivalence as long as no NaN is left in them.  It compares scalars by
what they say, across all types of numbers, and tuples item by item. -/
structure ComparesContent : Prop where
  refl : ∀ c : Value, c.every (fun s => !s.isNaN) = true → c.eq c = true
  symm : ∀ c k : Value, c.eq k = true → k.eq c = true
  trans : ∀ c k l : Value, c.eq k = true → k.eq l = true → c.eq l = true
  scalars : ∀ s t : Scalar, s.isNaN = false → t.isNaN = false →
    ((scalar s).eq (scalar t) = true ↔ s.content = t.content)
  tuples : ∀ cs ks : List Value,
    (tuple cs).eq (tuple ks) = true ↔ List.Forall₂ (fun c k => c.eq k = true) cs ks
  apart : ∀ (s : Scalar) (ks : List Value), (scalar s).eq (tuple ks) = false

theorem eq_tuple_iff {cs ks : List Value} : (tuple cs).eq (tuple ks) = true ↔
    keys cs = keys ks ∧ Key.areSettled (keys cs) = true := by
  simp [eq_iff, key, Key.isSettled]

theorem comparesContent : ComparesContent where
  refl c hc := eq_iff.2 ⟨rfl, isSettled_key c hc⟩
  symm c k h := by
    obtain ⟨hkey, hsettled⟩ := eq_iff.1 h
    exact eq_iff.2 ⟨hkey.symm, hkey ▸ hsettled⟩
  trans c k l h h' := by
    obtain ⟨hkey, hsettled⟩ := eq_iff.1 h
    exact eq_iff.2 ⟨hkey.trans (eq_iff.1 h').1, hsettled⟩
  scalars s t hs ht := by
    rw [eq_iff, ← Scalar.atom_eq_iff (Scalar.atom_ne_stray hs) (Scalar.atom_ne_stray ht), key, key,
      Key.atom.injEq]
    exact and_iff_left (Scalar.isSettled_atom hs)
  tuples cs ks := by
    rw [eq_tuple_iff]
    induction cs generalizing ks with
    | nil => cases ks <;> simp [keys, Key.areSettled]
    | cons c cs ih =>
        cases ks with
        | nil => simp [keys]
        | cons k ks =>
            rw [List.forall₂_cons, ← ih ks, eq_iff]
            simp only [keys, Key.areSettled, List.cons.injEq, Bool.and_eq_true]
            exact and_and_and_comm
  apart s ks := by simp [eq, key]

end Value

/-! ## Classes of rows -/

namespace Row

/-- The canonical key of a row, if it can be kept in a set and no NaN is left in it: no decimal is
one, and in the keys of dictionaries nothing is. -/
structure HasKey (r : Row) (key : List Value) : Prop where
  setKey : r.setKey = .ok key
  hashable : Value.areHashable key = true
  regular : Value.everyItem (fun s => !s.isNaN) key = true

/-- A row has a canonical key that can be kept in a set. -/
def IsKeyed (r : Row) : Prop := ∃ key, r.HasKey key

/-- Two rows have equal canonical keys. -/
def SameKey (r s : Row) : Prop :=
  ∃ key key', r.setKey = .ok key ∧ s.setKey = .ok key' ∧
    (Value.tuple key).eq (.tuple key') = true

/-- The rows with a key equal to that of a row. -/
def keyClass (r : Row) : Set Row := { s | r.SameKey s }

variable {r s t : Row} {key : List Value}

theorem HasKey.setKey_eq_iff (h : r.HasKey key) {key' : List Value} :
    r.HasKey key' ↔ key' = key := by
  constructor
  · intro h'
    have heq := h'.setKey.symm.trans h.setKey
    cases heq
    rfl
  · rintro rfl
    exact h

theorem HasKey.areSettled (h : r.HasKey key) : Key.areSettled (Value.keys key) = true :=
  Value.areSettled_keys key h.regular

theorem sameKey_iff (h : r.HasKey key) :
    r.SameKey s ↔ ∃ key', s.setKey = .ok key' ∧ Value.keys key = Value.keys key' := by
  constructor
  · rintro ⟨key₁, key', hkey₁, hkey', heq⟩
    rw [h.setKey] at hkey₁
    cases hkey₁
    exact ⟨key', hkey', (Value.eq_tuple_iff.1 heq).1⟩
  · rintro ⟨key', hkey', heq⟩
    exact ⟨key, key', h.setKey, hkey', Value.eq_tuple_iff.2 ⟨heq, h.areSettled⟩⟩

/-- The rows whose values have the given keys. -/
def classOfKeys (ks : List Key) : Set Row :=
  { s | ∃ key, s.setKey = .ok key ∧ ks = Value.keys key }

theorem HasKey.keyClass_eq (h : r.HasKey key) : r.keyClass = classOfKeys (Value.keys key) := by
  ext s
  exact sameKey_iff h

/-- The classes of rows. -/
def classes (rows : List Row) : Set (Set Row) := keyClass '' { r | r ∈ rows }

/-- The keys of the values of rows. -/
def keyLists (rows : List Row) : Set (List Key) :=
  { ks | ∃ r ∈ rows, ∃ key, r.HasKey key ∧ Value.keys key = ks }

theorem classes_eq {rows : List Row} (h : ∀ r ∈ rows, r.IsKeyed) :
    classes rows = classOfKeys '' keyLists rows := by
  ext C
  constructor
  · rintro ⟨r, hr, rfl⟩
    obtain ⟨key, hkey⟩ := h r hr
    exact ⟨Value.keys key, ⟨r, hr, key, hkey, rfl⟩, hkey.keyClass_eq.symm⟩
  · rintro ⟨ks, ⟨r, hr, key, hkey, rfl⟩, rfl⟩
    exact ⟨r, hr, hkey.keyClass_eq⟩

theorem mem_keyLists_append {rows others : List Row} {ks : List Key} :
    ks ∈ keyLists (rows ++ others) ↔ ks ∈ keyLists rows ∨ ks ∈ keyLists others := by
  simp [keyLists, or_and_right, exists_or]

theorem mem_keyLists_singleton (h : r.HasKey key) {ks : List Key} :
    ks ∈ keyLists [r] ↔ ks = Value.keys key := by
  constructor
  · rintro ⟨r', hr', key', hkey', rfl⟩
    rw [List.mem_singleton.1 hr', HasKey.setKey_eq_iff h] at hkey'
    rw [hkey']
  · rintro rfl
    exact ⟨r, List.mem_singleton_self r, key, h, rfl⟩

/-- The keys of the values of any rows. -/
def possibleKeys : Set (List Key) := { ks | ∃ r key, HasKey r key ∧ Value.keys key = ks }

/-- Keys that rows have are told apart by their classes. -/
theorem injOn_classOfKeys : Set.InjOn classOfKeys possibleKeys := by
  rintro _ ⟨r, key, hkey, rfl⟩ ks - h
  have hmem : r ∈ classOfKeys ks := h ▸ ⟨key, hkey.setKey, rfl⟩
  obtain ⟨key', hkey', heq⟩ := hmem
  rw [hkey.setKey] at hkey'
  cases hkey'
  exact heq.symm

theorem keyLists_subset (rows : List Row) : keyLists rows ⊆ possibleKeys := by
  rintro ks ⟨r, -, key, hkey⟩
  exact ⟨r, key, hkey⟩

end Row

/-! ## Sets that keep rows -/

/-- A set holds the keys of rows, each once. -/
structure KeySet.Keeps (s : KeySet) (rows : List Row) : Prop where
  keyed : ∀ r ∈ rows, r.IsKeyed
  loose : s.loose = []
  nodup : (s.settled.map (·.1)).Nodup
  keys_iff : ∀ ks, ks ∈ s.settled.map (·.1) ↔ ks ∈ Row.keyLists rows
  /-- The tuples that are kept have the keys they are kept under. -/
  entries : ∀ e ∈ s.settled, Value.keys e.2 = e.1 ∧ Value.areHashable e.2 = true

namespace KeySet.Keeps

open Row

variable {s t : KeySet} {rows others : List Row} {r : Row} {key : List Value}

theorem empty : KeySet.empty.Keeps [] where
  keyed := nofun
  loose := rfl
  nodup := List.nodup_nil
  keys_iff ks := by simp [KeySet.empty, keyLists]
  entries := nofun

theorem containsKeys_eq (h : s.Keeps rows) (ks : List Key) :
    s.containsKeys ks = true ↔ ks ∈ keyLists rows := by
  rw [containsKeys_iff, h.keys_iff]

theorem keys_mem_iff (h : s.Keeps rows) (hkey : r.HasKey key) :
    Value.keys key ∈ keyLists rows ↔ ∃ r' ∈ rows, r'.SameKey r := by
  constructor
  · rintro ⟨r', hr', key', hkey', heq⟩
    exact ⟨r', hr', (sameKey_iff hkey').2 ⟨key, hkey.setKey, heq⟩⟩
  · rintro ⟨r', hr', hsame⟩
    obtain ⟨key', hkey'⟩ := h.keyed r' hr'
    obtain ⟨key₁, hkey₁, heq⟩ := (sameKey_iff hkey').1 hsame
    rw [hkey.setKey] at hkey₁
    cases hkey₁
    exact ⟨r', hr', key', hkey', heq⟩

/-! ### What is put into a set -/

theorem insert (h : s.Keeps rows) (hkey : r.HasKey key) (stamp : Stamp) :
    (s.insert stamp key).1.Keeps (rows ++ [r]) ∧
      ((s.insert stamp key).2 = true ↔ ¬ ∃ r' ∈ rows, r'.SameKey r) := by
  have hkeyed : ∀ r' ∈ rows ++ [r], r'.IsKeyed := by
    intro r' hr'
    rcases List.mem_append.1 hr' with hr' | hr'
    · exact h.keyed r' hr'
    · exact ⟨key, by rwa [List.mem_singleton.1 hr']⟩
  have hkeys : ∀ ks, ks ∈ keyLists (rows ++ [r]) ↔
      ks ∈ s.settled.map (·.1) ∨ ks = Value.keys key := by
    intro ks
    rw [mem_keyLists_append, mem_keyLists_singleton hkey, h.keys_iff]
  constructor
  · rcases s.insert_cases stamp key with ⟨-, hnew, heq⟩ | ⟨-, hold, heq⟩ | ⟨hloose, -⟩
    · rw [heq]
      refine ⟨hkeyed, h.loose, List.nodup_cons.2 ⟨hnew, h.nodup⟩, fun ks => ?_, ?_⟩
      · rw [hkeys, List.map_cons, List.mem_cons, or_comm]
      · exact List.forall_mem_cons.2 ⟨⟨rfl, hkey.hashable⟩, h.entries⟩
    · rw [heq]
      refine ⟨hkeyed, h.loose, h.nodup, fun ks => ?_, h.entries⟩
      rw [hkeys, or_iff_left_of_imp]
      rintro rfl
      exact hold
    · rw [hkey.areSettled] at hloose
      cases hloose
  · rw [← h.keys_mem_iff hkey, ← h.containsKeys_eq, KeySet.insert, if_pos hkey.areSettled]
    by_cases hin : s.containsKeys (Value.keys key) = true
    · simp [hin]
    · simp [hin]

theorem addRow (h : s.Keeps rows) (hr : r.IsKeyed) (stamp : Stamp) :
    ∃ t grew, s.addRow stamp r = .ok (t, grew) ∧ t.Keeps (rows ++ [r]) ∧
      (grew = true ↔ ¬ ∃ r' ∈ rows, r'.SameKey r) := by
  obtain ⟨key, hkey⟩ := hr
  obtain ⟨hkeeps, hgrew⟩ := h.insert hkey stamp
  refine ⟨_, _, ?_, hkeeps, hgrew⟩
  rw [KeySet.addRow, hkey.setKey, ok_bind, if_pos hkey.hashable]

theorem addRows (h : s.Keeps rows) {more : List Row} (hmore : ∀ r ∈ more, r.IsKeyed)
    (origin : String) (number : Nat) :
    ∃ t, s.addRows origin number more = (t, none) ∧ t.Keeps (rows ++ more) := by
  induction more generalizing s rows number with
  | nil => exact ⟨s, rfl, by simpa using h⟩
  | cons r more ih =>
      obtain ⟨hr, hmore⟩ := List.forall_mem_cons.1 hmore
      obtain ⟨t, grew, hadd, hkeeps, -⟩ := h.addRow hr ⟨origin, number⟩
      obtain ⟨u, hrest, hkeeps'⟩ := ih hkeeps hmore (number + 1)
      rw [List.append_assoc] at hkeeps'
      exact ⟨u, by rw [KeySet.addRows, hadd]; exact hrest, hkeeps'⟩

theorem union (h : s.Keeps rows) (h' : t.Keeps others) : (s.union t).Keeps (rows ++ others) where
  keyed r hr := (List.mem_append.1 hr).elim (h.keyed r) (h'.keyed r)
  loose := by simp [KeySet.union, h.loose, h'.loose]
  nodup := by
    rw [KeySet.union, List.map_append, List.nodup_append]
    refine ⟨h.nodup, h'.nodup.sublist (List.filter_sublist.map _), ?_⟩
    rintro ks hks _ hks' rfl
    obtain ⟨e, he, rfl⟩ := List.mem_map.1 hks'
    have hnot := (List.mem_filter.1 he).2
    rw [containsKeys_iff.2 hks] at hnot
    cases hnot
  keys_iff ks := by
    rw [← containsKeys_iff, DeleteFilter.containsKeys_union, Bool.or_eq_true, h.containsKeys_eq,
      h'.containsKeys_eq, mem_keyLists_append]
  entries e he := by
    rcases List.mem_append.1 he with he | he
    · exact h.entries e he
    · exact h'.entries e (List.mem_filter.1 he).1

/-! ### What can be asked of a set -/

/-- A row and its key are looked up alike. -/
theorem found (h : s.Keeps rows) (hkey : r.HasKey key) : ∃ b,
    s.containsRow r = .ok b ∧ s.containsTuple key = .ok b ∧
      (b = true ↔ ∃ r' ∈ rows, r'.SameKey r) := by
  have htuple : s.containsTuple key = .ok (s.containsKeys (Value.keys key)) := by
    rw [containsTuple, if_pos hkey.hashable, contains, hkey.areSettled, Bool.true_and]
  refine ⟨s.containsKeys (Value.keys key), ?_, htuple, ?_⟩
  · rw [containsRow, hkey.setKey, ok_bind, htuple]
  · rw [h.containsKeys_eq, h.keys_mem_iff hkey]

theorem keyLists_eq (h : s.Keeps rows) :
    keyLists rows = ((s.settled.map (·.1)).toFinset : Set (List Key)) := by
  ext ks
  rw [List.coe_toFinset, Set.mem_ofPred_eq, h.keys_iff]

theorem size_eq (h : s.Keeps rows) : s.size = (classes rows).ncard := by
  rw [classes_eq h.keyed, (injOn_classOfKeys.mono (keyLists_subset rows)).ncard_image,
    h.keyLists_eq, Set.ncard_coe_finset, List.toFinset_card_of_nodup h.nodup, KeySet.size, h.loose,
    List.length_map, List.length_nil, Nat.add_zero]

/-- Sets are equal when they keep the same keys, in whatever order. -/
theorem equal_iff_perm (h : s.Keeps rows) (h' : t.Keeps others) :
    s.equal t = true ↔ (s.settled.map (·.1)).Perm (t.settled.map (·.1)) := by
  have hsubset : s.subset t = true ↔ s.settled.map (·.1) ⊆ t.settled.map (·.1) := by
    simp only [KeySet.subset, h.loose, List.all_nil, Bool.and_true, List.all_eq_true,
      containsKeys_iff]
    exact List.forall_mem_map.symm
  rw [KeySet.equal, Bool.and_eq_true, beq_iff_eq, hsubset, KeySet.size, KeySet.size, h.loose,
    h'.loose]
  constructor
  · rintro ⟨hsize, hsub⟩
    refine (List.subperm_of_subset h.nodup hsub).perm_of_length_le ?_
    simpa using hsize.ge
  · intro hperm
    exact ⟨by simpa using hperm.length_eq, hperm.subset⟩

theorem equal_iff (h : s.Keeps rows) (h' : t.Keeps others) :
    s.equal t = true ↔ classes rows = classes others := by
  rw [classes_eq h.keyed, classes_eq h'.keyed,
    injOn_classOfKeys.image_eq_image_iff (keyLists_subset rows) (keyLists_subset others),
    equal_iff_perm h h', List.perm_ext_iff_of_nodup h.nodup h'.nodup, Set.ext_iff]
  exact forall_congr' fun ks => by rw [h.keys_iff, h'.keys_iff]

/-- The hash of a set is made of the hashes of its keys. -/
theorem exists_hashes (h : s.Keeps rows) (hasher : Hasher) : ∃ hashes,
    List.Forall₂ (fun ks hash => hasher.key? (.node .tuple ks) = some hash)
      (s.settled.map (·.1)) hashes ∧ s.hash? hasher = some (Hash.ofSet hashes) := by
  have htuples : s.toList.map Value.tuple = s.settled.map fun e => .tuple e.2 := by
    rw [toList, h.loose, List.map_nil, List.append_nil, List.map_map]
    rfl
  have hhashable : Value.areHashable (s.settled.map fun e => .tuple e.2) = true := by
    rw [Value.areHashable_iff, List.forall_mem_map]
    exact fun e he => (h.entries e he).2
  have hsettled :
      Key.areSettled (Value.keys (s.settled.map fun e => .tuple e.2)) = true := by
    rw [Value.keys_eq_map, Key.areSettled_iff, List.map_map, List.forall_mem_map]
    intro e he
    rw [Function.comp, Value.key, (h.entries e he).1]
    obtain ⟨r, -, key, hkey, heq⟩ := (h.keys_iff e.1).1 (List.mem_map_of_mem he)
    exact heq ▸ hkey.areSettled
  obtain ⟨hashes, hhashes⟩ := Hasher.exists_items?_eq _ hhashable hsettled
  refine ⟨hashes, ?_, by rw [hash?, htuples, hhashes]; rfl⟩
  rw [Hasher.items?_eq_some_iff, List.forall₂_map_left_iff] at hhashes
  rw [List.forall₂_map_left_iff]
  refine List.Forall₂.imp ?_ ((List.forall₂_and_left _ _).2 ⟨h.entries, hhashes⟩)
  rintro e hash ⟨⟨hkeys, hentry⟩, heq⟩
  rwa [Hasher.value?_eq_key? _ (by rwa [Value.isHashable]), Value.key, hkeys] at heq

theorem hash_eq (h : s.Keeps rows) (h' : t.Keeps others) (heq : s.equal t = true)
    (hasher : Hasher) : ∃ hash, s.hash? hasher = some hash ∧ t.hash? hasher = some hash := by
  obtain ⟨hashes, hhashes, hs⟩ := h.exists_hashes hasher
  obtain ⟨hashes', hhashes', ht⟩ := h'.exists_hashes hasher
  obtain ⟨hashes'', hsame, hperm⟩ :=
    List.perm_comp_forall₂ ((equal_iff_perm h h').1 heq).symm hhashes
  have hunique : hashes'' = hashes' :=
    List.right_unique_forall₂' (fun ks hash hash' hks hks' => by rw [hks] at hks'; cases hks'; rfl)
      hsame hhashes'
  refine ⟨Hash.ofSet hashes, hs, ?_⟩
  rw [ht, ← hunique, Hash.ofSet_perm hperm]

end KeySet.Keeps

/-- A set has all its own rows. -/
theorem KeySet.union_self (s : KeySet) : s.union s = s := by
  have hsettled : s.settled.filter (fun e => !s.containsKeys e.1) = [] := by
    rw [List.filter_eq_nil_iff]
    intro e he
    simp [containsKeys_iff.2 (List.mem_map_of_mem he)]
  have hloose : s.loose.filter (fun e => !s.loose.any fun d => d.1 == e.1) = [] := by
    rw [List.filter_eq_nil_iff]
    intro e he
    simpa using ⟨e.2, he⟩
  rw [union, hsettled, hloose, List.append_nil, List.append_nil]

/-! ## Calls -/

/-- The rows that each set has received, directly or from another set, after one more call. -/
def SetCall.receive (received : String → List Row) : SetCall → String → List Row
  | .add name row => fun n => if n = name then received name ++ [row] else received n
  | .addAll name rows => fun n => if n = name then received name ++ rows else received n
  | .update name other => fun n => if n = name then received name ++ received other else received n

/-- The rows that each set receives by calls. -/
def SetCall.received (calls : List SetCall) : String → List Row :=
  calls.foldl SetCall.receive fun _ => []

namespace KeySets

variable {s : KeySets} {received : String → List Row} {name : String}

/-- Each set holds the keys of the rows that it has received. -/
def Keep (s : KeySets) (received : String → List Row) : Prop :=
  ∀ name, (s.set name).Keeps (received name)

theorem keep_put {set : KeySet} {rows : List Row} (h : s.Keep received) (hset : set.Keeps rows) :
    (s.put name set).Keep fun n => if n = name then rows else received n := by
  intro n
  rw [put]
  by_cases hn : n = name
  · simpa only [if_pos hn] using hset
  · simpa only [if_neg hn] using h n

/-- A call with rows that have keys. -/
theorem keep_call (h : s.Keep received) (c : SetCall) (hc : ∀ r ∈ c.rows, r.IsKeyed) :
    (s.call c).1.Keep (c.receive received) := by
  cases c with
  | add name row =>
      obtain ⟨t, grew, hadd, hkeeps, -⟩ :=
        (h name).addRow (hc row (List.mem_singleton_self row)) ⟨toString s.calls, 0⟩
      rw [call, hadd]
      exact keep_put h hkeeps
  | addAll name rows =>
      rw [SetCall.rows] at hc
      obtain ⟨t, hadd, hkeeps⟩ := (h name).addRows hc (toString s.calls) 0
      rw [call, hadd]
      exact keep_put h hkeeps
  | update name other => exact keep_put h ((h name).union (h other))

theorem keep_foldl {calls : List SetCall} (h : s.Keep received)
    (hcalls : ∀ c ∈ calls, ∀ r ∈ c.rows, r.IsKeyed) :
    (calls.foldl (fun s c => (s.call c).1) s).Keep (calls.foldl SetCall.receive received) := by
  induction calls generalizing s received with
  | nil => exact h
  | cons c calls ih =>
      obtain ⟨hc, hcalls⟩ := List.forall_mem_cons.1 hcalls
      exact ih (keep_call h c hc) hcalls

theorem keep_run {calls : List SetCall} (h : ∀ c ∈ calls, ∀ r ∈ c.rows, r.IsKeyed) :
    (run calls).Keep (SetCall.received calls) :=
  keep_foldl (fun _ => KeySet.Keeps.empty) h

/-- An update leaves the set that it reads as it is, also when that is its target. -/
theorem set_call_update (s : KeySets) (name other : String) :
    (s.call (.update name other)).1.set other = s.set other := by
  simp only [call, put]
  by_cases h : other = name
  · rw [if_pos h, h, KeySet.union_self]
  · rw [if_neg h]

/-- Sets of rows are sets of classes of the rows that they have received. -/
structure HoldsClasses (hasher : Hasher) (s : KeySets) (received : String → List Row) : Prop where
  /-- A row, or its key, is in a set that has received a row with an equal key. -/
  found (name : String) {r : Row} {key : List Value} (hkey : r.HasKey key) : ∃ b,
    (s.set name).containsRow r = .ok b ∧ (s.set name).containsTuple key = .ok b ∧
      (b = true ↔ ∃ r' ∈ received name, r'.SameKey r)
  /-- A set grows by a row when it has received none with an equal key. -/
  added (name : String) {r : Row} (hr : r.IsKeyed) : ∃ grew,
    (s.call (.add name r)).2 = .added grew ∧ (grew = true ↔ ¬ ∃ r' ∈ received name, r'.SameKey r)
  addedAll (name : String) {rows : List Row} (hrows : ∀ r ∈ rows, r.IsKeyed) :
    (s.call (.addAll name rows)).2 = .done
  /-- The size is the number of classes. -/
  size_eq (name : String) : (s.set name).size = (Row.classes (received name)).ncard
  /-- Two sets are equal when they hold the same classes. -/
  equal_iff (name other : String) : (s.set name).equal (s.set other) = true ↔
    Row.classes (received name) = Row.classes (received other)
  /-- Equal sets have equal hashes. -/
  hash_eq (name other : String) (h : (s.set name).equal (s.set other) = true) :
    ∃ hash, (s.set name).hash? hasher = some hash ∧ (s.set other).hash? hasher = some hash
  update_source (name other : String) : (s.call (.update name other)).1.set other = s.set other

theorem Keep.holdsClasses (h : s.Keep received) (hasher : Hasher) :
    s.HoldsClasses hasher received where
  found name _ _ hkey := (h name).found hkey
  added name r hr := by
    obtain ⟨t, grew, hadd, -, hgrew⟩ := (h name).addRow hr ⟨toString s.calls, 0⟩
    exact ⟨grew, by rw [call, hadd], hgrew⟩
  addedAll name rows hrows := by
    obtain ⟨t, hadd, -⟩ := (h name).addRows hrows (toString s.calls) 0
    rw [call, hadd]
  size_eq name := (h name).size_eq
  equal_iff name other := (h name).equal_iff (h other)
  hash_eq name other heq := (h name).hash_eq (h other) heq hasher
  update_source := s.set_call_update

/-- **Sets of rows are sets of classes**, after any calls on them with rows of all kinds; and
equality of keys, by which the classes are made, is an equivalence that compares content. -/
theorem holdsClasses_run (hasher : Hasher) {calls : List SetCall}
    (h : ∀ c ∈ calls, ∀ r ∈ c.rows, r.IsKeyed) :
    (run calls).HoldsClasses hasher (SetCall.received calls) ∧ Value.ComparesContent :=
  ⟨(keep_run h).holdsClasses hasher, Value.comparesContent⟩

/-- Calls with rows of all kinds: a boolean, an integer, a decimal and a double, each with a NaN. -/
def leftRightCalls : List SetCall :=
  [.add "left" (.plain [.bool true, .float .nan] []),
    .addAll "left" [.bare [.int 1, .float ⟨0xFFF0000000000001⟩], .bare [.text "x", .null]],
    .add "right" (.window (some [.null, .decimal (.finite false 10 (-1)), .float .nan]) 1 2),
    .update "right" "left",
    .add "left" (.view [1, 0] (some (.plain [.float .nan, .float ⟨0x3FF0000000000000⟩] [])))]

/-- The sets of `leftRightCalls` are equal, with two classes each. -/
theorem holdsClasses_run_leftRightCalls :
    (run leftRightCalls).HoldsClasses ColumnType.lengthHasher (SetCall.received leftRightCalls) ∧
      Row.classes (SetCall.received leftRightCalls "left") =
        Row.classes (SetCall.received leftRightCalls "right") ∧
      (Row.classes (SetCall.received leftRightCalls "left")).ncard = 2 := by
  have hkeyed : ∀ c ∈ leftRightCalls, ∀ r ∈ c.rows, r.IsKeyed := by
    simp only [leftRightCalls, List.forall_mem_cons, SetCall.rows]
    refine ⟨⟨⟨_, rfl, rfl, rfl⟩, nofun⟩, ⟨⟨_, rfl, rfl, rfl⟩, ⟨_, rfl, rfl, rfl⟩, nofun⟩,
      ⟨⟨_, rfl, rfl, rfl⟩, nofun⟩, nofun, ⟨⟨_, rfl, rfl, rfl⟩, nofun⟩, nofun⟩
  obtain ⟨hholds, -⟩ := holdsClasses_run ColumnType.lengthHasher hkeyed
  refine ⟨hholds, (hholds.equal_iff "left" "right").1 (by decide), ?_⟩
  rw [← hholds.size_eq]
  decide

end KeySets

end MergeOnRead
