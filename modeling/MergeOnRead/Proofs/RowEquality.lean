import MergeOnRead.Proofs.Hashes
import MergeOnRead.Proofs.Results
import MergeOnRead.Row.Buckets
import Mathlib.Data.List.Induction

/-!
# Equality of rows

Rows that hold their values are compared by their keys with rows of all kinds, and hashed by them.
Two windows or views are compared, and hashed, by their identity.  `RowObject.followsLaws` says
which laws of an equality this leaves: it is reflexive and symmetric; two rows that are equal to a
third one are equal if they are the same or one of them holds its values, and two equal rows have
one hash if they are the same or both hold their values.  Rows that hold their values obey all laws,
and are found in dictionaries by all rows among them that are equal.

Strategy:

* `equal_eq` says when rows with keys are equal: a key that is equal to another one holds no NaN
  (`Agree`), so that equality of keys is symmetric and transitive on its own;
* `hash_eq_of_agree` follows from hashes of keys, and `exists_hash_ne` from identities, which may
  be any;
* `find_add` is the step of buckets, for any equality that is an equivalence on the rows, and
  `RowBuckets.get_ofItems` the run.
-/

namespace MergeOnRead

/-- The row has a key, and the key has a hash. -/
structure Row.HasHashableKey (r : Row) (key : List Value) : Prop where
  isRow : r.isBare = false
  key_eq : r.key = .ok key
  hashable : Value.areHashable key = true

/-- The row can be compared with other rows, and be kept in a set if it holds its values. -/
def Row.IsComparable (r : Row) : Prop := ∃ key, r.HasHashableKey key

namespace RowObject

/-- One of some rows, each of which has its number for identity. -/
def nth (rows : Nat → Row) (i : Nat) : RowObject := ⟨i, rows i⟩

variable {rows : Nat → Row} {i j k : Nat} {key key' key'' : List Value}

/-- Whether a row is equal to another one. -/
def isEqual (a b : RowObject) : Bool := (a.equal b).toOption == some true

/-- Keys are equal, and no NaN is left in them. -/
def Agree (key key' : List Value) : Prop :=
  Value.keys key = Value.keys key' ∧ Key.areSettled (Value.keys key) = true

theorem Agree.symm (h : Agree key key') : Agree key' key := ⟨h.1.symm, h.1 ▸ h.2⟩

theorem Agree.trans (h : Agree key key') (h' : Agree key' key'') : Agree key key'' :=
  ⟨h.1.trans h'.1, h.2⟩

/-! ## Equality -/

/-- Keys are compared without an error.  They are equal when they are keys of the same row, or when
they agree. -/
theorem compareKeys_eq {same : Bool} (hkey : Value.areHashable key = true)
    (hkey' : Value.areHashable key' = true) (hsame : same = true → key = key') :
    ∃ b, compareKeys same key key' = .ok b ∧ (b = true ↔ same = true ∨ Agree key key') := by
  refine ⟨sameKeys same key key', ?_, ?_⟩
  · rw [compareKeys, Value.signalsItems_eq_false key key' hkey hkey', Bool.and_false,
      if_neg Bool.false_ne_true]
  · rw [sameKeys, Bool.and_eq_true, decide_eq_true_iff, Bool.or_eq_true, Agree]
    constructor
    · rintro ⟨hkeys, rfl | hsettled⟩
      · exact .inl rfl
      · exact .inr ⟨hkeys, hsettled⟩
    · rintro (rfl | ⟨hkeys, hsettled⟩)
      · exact ⟨hsame rfl ▸ rfl, .inl rfl⟩
      · exact ⟨hkeys, .inr hsettled⟩

/-- Comparing rows that have keys does not fail.  Different rows are equal when one of them holds
its values and their keys agree. -/
theorem equal_eq (hi : (rows i).HasHashableKey key) (hj : (rows j).HasHashableKey key') :
    (nth rows i).equal (nth rows j) = .ok ((nth rows i).isEqual (nth rows j)) ∧
      ((nth rows i).isEqual (nth rows j) = true ↔ i = j ∨
        ((nth rows i).isPlain = true ∨ (nth rows j).isPlain = true) ∧ Agree key key') := by
  suffices h : ∃ b, (nth rows i).equal (nth rows j) = .ok b ∧ (b = true ↔ i = j ∨
      ((nth rows i).isPlain = true ∨ (nth rows j).isPlain = true) ∧ Agree key key') by
    obtain ⟨b, hb, hiff⟩ := h
    have heq : (nth rows i).isEqual (nth rows j) = b := by
      rw [isEqual, hb]
      cases b <;> rfl
    rw [heq]
    exact ⟨hb, hiff⟩
  have hsame : (i == j) = true → key = key' := by
    intro h
    obtain rfl := beq_iff_eq.1 h
    exact Except.ok.inj (hi.key_eq.symm.trans hj.key_eq)
  have hbare : ((rows i).isBare || (rows j).isBare) = false := by simp [hi.isRow, hj.isRow]
  have hequal : (nth rows i).equal (nth rows j) =
      if (nth rows i).isPlain then compareKeys (i == j) key key'
      else if (nth rows j).isPlain then compareKeys (i == j) key' key
      else .ok (i == j) := by
    rw [equal]
    simp only [nth, hbare, hi.key_eq, hj.key_eq, ok_bind, Bool.false_eq_true, if_false]
    rfl
  rw [hequal]
  by_cases hplain : (nth rows i).isPlain = true
  · rw [if_pos hplain]
    obtain ⟨b, hb, hiff⟩ := compareKeys_eq hi.hashable hj.hashable hsame
    exact ⟨b, hb, by rw [hiff, beq_iff_eq, hplain]; simp⟩
  · rw [if_neg hplain]
    by_cases hplain' : (nth rows j).isPlain = true
    · rw [if_pos hplain']
      obtain ⟨b, hb, hiff⟩ := compareKeys_eq hj.hashable hi.hashable fun h => (hsame h).symm
      refine ⟨b, hb, ?_⟩
      rw [hiff, beq_iff_eq, hplain']
      exact or_congr_right ⟨fun h => ⟨.inr rfl, h.symm⟩, fun h => h.2.symm⟩
    · rw [if_neg hplain']
      exact ⟨i == j, rfl, by simp [hplain, hplain']⟩

theorem isEqual_iff (hi : (rows i).HasHashableKey key) (hj : (rows j).HasHashableKey key') :
    (nth rows i).isEqual (nth rows j) = true ↔ i = j ∨
      ((nth rows i).isPlain = true ∨ (nth rows j).isPlain = true) ∧ Agree key key' :=
  (equal_eq hi hj).2

theorem isEqual_comm (h : ∀ n, (rows n).IsComparable) (i j : Nat) :
    (nth rows i).isEqual (nth rows j) = (nth rows j).isEqual (nth rows i) := by
  obtain ⟨key, hi⟩ := h i
  obtain ⟨key', hj⟩ := h j
  rw [Bool.eq_iff_iff, isEqual_iff hi hj, isEqual_iff hj hi]
  exact or_congr eq_comm (and_congr or_comm ⟨Agree.symm, Agree.symm⟩)

/-- Rows that are equal to a third one are equal, unless they are different and both are windows or
views. -/
theorem isEqual_trans_iff (h : ∀ n, (rows n).IsComparable)
    (hij : (nth rows i).isEqual (nth rows j) = true)
    (hjk : (nth rows j).isEqual (nth rows k) = true) :
    (nth rows i).isEqual (nth rows k) = true ↔
      i = k ∨ (nth rows i).isPlain = true ∨ (nth rows k).isPlain = true := by
  obtain ⟨key, hi⟩ := h i
  obtain ⟨key', hj⟩ := h j
  obtain ⟨key'', hk⟩ := h k
  rw [isEqual_iff hi hk]
  constructor
  · exact Or.imp_right And.left
  · rintro (rfl | hplain)
    · exact .inl rfl
    · obtain rfl | ⟨-, hagree⟩ := (isEqual_iff hi hj).1 hij
      · exact (isEqual_iff hi hk).1 hjk
      · obtain rfl | ⟨-, hagree'⟩ := (isEqual_iff hj hk).1 hjk
        · exact (isEqual_iff hi hk).1 hij
        · exact .inr ⟨hplain, hagree.trans hagree'⟩

/-! ## Hashes -/

variable {hasher : Hasher} {identity : Nat → Hash}

/-- The hash of a row that holds its values. -/
theorem hash_of_isPlain (h : (rows i).HasHashableKey key) (hplain : (nth rows i).isPlain = true) :
    (nth rows i).hash hasher identity =
      .ok (((hasher.items? key).map Hash.ofItems).getD (identity i)) := by
  rw [isPlain, nth] at hplain
  have hkey := h.key_eq
  rw [hash, nth]
  split at hplain
  · rename_i values fields hrow
    dsimp only at hrow ⊢
    rw [hrow] at hkey ⊢
    dsimp only
    rw [hkey, ok_bind, hashKey, if_pos h.hashable]
  · cases hplain

/-- The hash of a window or a view. -/
theorem hash_of_not_isPlain (h : (rows i).isBare = false) (hplain : (nth rows i).isPlain = false) :
    (nth rows i).hash hasher identity = .ok (identity i) := by
  rw [isPlain, nth] at hplain
  rw [hash, nth]
  dsimp only at hplain ⊢
  cases hrow : rows i with
  | plain values fields => rw [hrow] at hplain; cases hplain
  | bare values => rw [hrow] at h; cases h
  | window _ _ _ | view _ _ => rfl

/-- Keys that agree have one hash, which depends on their content only. -/
theorem Agree.hashes_eq (h : Agree key key') (hkey : Value.areHashable key = true)
    (hkey' : Value.areHashable key' = true) (hasher : Hasher) :
    ∃ hashes, hasher.items? key = some hashes ∧ hasher.items? key' = some hashes := by
  obtain ⟨hashes, hhashes⟩ : ∃ hashes, hasher.items? key = some hashes :=
    Hasher.exists_items?_eq key hkey h.2
  refine ⟨hashes, hhashes, ?_⟩
  rw [Hasher.items?_eq_keys? _ hkey', ← h.1, ← Hasher.items?_eq_keys? _ hkey, hhashes]

/-- Rows that hold their values have one hash when their keys agree. -/
theorem hash_eq_of_agree (hi : (rows i).HasHashableKey key) (hj : (rows j).HasHashableKey key')
    (hplain : (nth rows i).isPlain = true) (hplain' : (nth rows j).isPlain = true)
    (h : Agree key key') :
    (nth rows i).hash hasher identity = (nth rows j).hash hasher identity := by
  obtain ⟨hashes, heq, heq'⟩ := h.hashes_eq hi.hashable hj.hashable hasher
  rw [hash_of_isPlain hi hplain, hash_of_isPlain hj hplain', heq, heq']
  rfl

/-- Of two rows with keys that agree, a window or a view can have any hash. -/
theorem exists_hash_ne (hi : (rows i).HasHashableKey key) (hj : (rows j).HasHashableKey key')
    (hne : i ≠ j) (h : Agree key key') (hplain : (nth rows i).isPlain = false) (hasher : Hasher) :
    ∃ identity, (nth rows i).hash hasher identity ≠ (nth rows j).hash hasher identity := by
  cases hplain' : (nth rows j).isPlain with
  | true =>
      -- The other row has the hash of its key.
      obtain ⟨hashes, -, hhashes⟩ := h.hashes_eq hi.hashable hj.hashable hasher
      refine ⟨fun _ => Hash.ofItems hashes + 1, ?_⟩
      rw [hash_of_not_isPlain hi.isRow hplain, hash_of_isPlain hj hplain', hhashes]
      simp
  | false =>
      refine ⟨fun n => if n = i then 1 else 0, ?_⟩
      rw [hash_of_not_isPlain hi.isRow hplain, hash_of_not_isPlain hj.isRow hplain', if_pos rfl,
        if_neg hne.symm]
      simp

/-- Two different rows that are equal have one hash, whatever the identities, if both hold their
values, and only then. -/
theorem forall_hash_eq_iff (h : ∀ n, (rows n).IsComparable)
    (hequal : (nth rows i).isEqual (nth rows j) = true) (hasher : Hasher) :
    (∀ identity, (nth rows i).hash hasher identity = (nth rows j).hash hasher identity) ↔
      i = j ∨ (nth rows i).isPlain = true ∧ (nth rows j).isPlain = true := by
  obtain ⟨key, hi⟩ := h i
  obtain ⟨key', hj⟩ := h j
  obtain rfl | ⟨-, hagree⟩ := (isEqual_iff hi hj).1 hequal
  · exact iff_of_true (fun _ => rfl) (.inl rfl)
  · constructor
    · intro hhash
      by_contra hother
      obtain ⟨hne, hkinds⟩ := not_or.1 hother
      -- The one that is no plain row may have another hash.
      by_cases hplain : (nth rows i).isPlain = true
      · have hplain' : (nth rows j).isPlain = false :=
          Bool.eq_false_iff.2 fun hplain' => hkinds ⟨hplain, hplain'⟩
        obtain ⟨identity, hdiffer⟩ :=
          exists_hash_ne hj hi (Ne.symm hne) hagree.symm hplain' hasher
        exact hdiffer (hhash identity).symm
      · obtain ⟨identity, hdiffer⟩ :=
          exists_hash_ne hi hj hne hagree (Bool.eq_false_iff.2 hplain) hasher
        exact hdiffer (hhash identity)
    · rintro (rfl | ⟨hplain, hplain'⟩) identity
      · rfl
      · exact hash_eq_of_agree hi hj hplain hplain' hagree

/-! ## Buckets -/

/-- The row is one of some rows, and holds its values. -/
def IsPlainOf (rows : Nat → Row) (o : RowObject) : Prop :=
  (∃ n, o = nth rows n) ∧ o.isPlain = true

variable {a b c o : RowObject}

/-- Rows that hold their values are found by the rows that are equal to them. -/
theorem isFoundBy_eq (h : ∀ n, (rows n).IsComparable) (ha : IsPlainOf rows a)
    (hb : IsPlainOf rows b) : a.isFoundBy hasher identity b = .ok (a.isEqual b) := by
  obtain ⟨⟨i, rfl⟩, hplain⟩ := ha
  obtain ⟨⟨j, rfl⟩, hplain'⟩ := hb
  obtain ⟨key, hi⟩ := h i
  obtain ⟨key', hj⟩ := h j
  obtain ⟨hequal, hiff⟩ := equal_eq hi hj
  rw [isFoundBy]
  by_cases hsame : (nth rows i).serial = (nth rows j).serial
  · rw [if_pos hsame, hiff.2 (.inl hsame)]
  · rw [if_neg hsame, hash_of_isPlain hi hplain, hash_of_isPlain hj hplain', ok_bind, ok_bind]
    split
    · exact hequal
    · rename_i hne
      -- Rows that are equal would have one hash.
      cases heq : (nth rows i).isEqual (nth rows j) with
      | false => rfl
      | true =>
          obtain hsame' | ⟨-, hagree⟩ := hiff.1 heq
          · exact absurd hsame' hsame
          · have hhash : (nth rows i).hash hasher identity = (nth rows j).hash hasher identity :=
              hash_eq_of_agree hi hj hplain hplain' hagree
            rw [hash_of_isPlain hi hplain, hash_of_isPlain hj hplain'] at hhash
            exact absurd (Except.ok.inj hhash) hne

theorem IsPlainOf.isEqual_comm (h : ∀ n, (rows n).IsComparable) (ha : IsPlainOf rows a)
    (hb : IsPlainOf rows b) : a.isEqual b = b.isEqual a := by
  obtain ⟨⟨i, rfl⟩, -⟩ := ha
  obtain ⟨⟨j, rfl⟩, -⟩ := hb
  exact RowObject.isEqual_comm h i j

theorem IsPlainOf.exists_hash_eq (h : ∀ n, (rows n).IsComparable) (ha : IsPlainOf rows a)
    (hasher : Hasher) (identity : Nat → Hash) : ∃ x, a.hash hasher identity = .ok x := by
  obtain ⟨⟨i, rfl⟩, hplain⟩ := ha
  obtain ⟨key, hi⟩ := h i
  exact ⟨_, hash_of_isPlain hi hplain⟩

/-- Equal rows that hold their values are equal to the same rows. -/
theorem isEqual_congr (h : ∀ n, (rows n).IsComparable) (ha : IsPlainOf rows a)
    (hb : IsPlainOf rows b) (hc : IsPlainOf rows c) (hab : a.isEqual b = true) :
    a.isEqual c = b.isEqual c := by
  obtain ⟨⟨i, rfl⟩, hplain⟩ := ha
  obtain ⟨⟨j, rfl⟩, hplain'⟩ := hb
  obtain ⟨⟨k, rfl⟩, -⟩ := hc
  rw [Bool.eq_iff_iff]
  constructor
  · rw [isEqual_comm h] at hab
    exact fun hac => (isEqual_trans_iff h hab hac).2 (.inr (.inl hplain'))
  · exact fun hbc => (isEqual_trans_iff h hab hbc).2 (.inr (.inl hplain))

end RowObject

namespace RowBuckets

open RowObject

variable {α : Type} {rows : Nat → Row} {hasher : Hasher} {identity : Nat → Hash} {o x : RowObject}
  {buckets : RowBuckets α} {items : List α}

/-- All buckets are those of rows that hold their values. -/
def ArePlainOf (rows : Nat → Row) (buckets : RowBuckets α) : Prop :=
  ∀ e ∈ buckets, IsPlainOf rows e.1

theorem find_cons (h : ∀ n, (rows n).IsComparable) {key : RowObject} (hkey : IsPlainOf rows key)
    (hx : IsPlainOf rows x) :
    find hasher identity x ((key, items) :: buckets) =
      if key.isEqual x then .ok items else find hasher identity x buckets := by
  rw [find, isFoundBy_eq h hkey hx, ok_bind]

/-- An item that is added to the bucket of a row is found under the rows that are equal to it,
behind those that were there, and under no other rows. -/
theorem find_add (h : ∀ n, (rows n).IsComparable) (hbuckets : ArePlainOf rows buckets)
    (ho : IsPlainOf rows o) (item : α) (hasher : Hasher) (identity : Nat → Hash) :
    ∃ buckets', add hasher identity o item buckets = .ok buckets' ∧ ArePlainOf rows buckets' ∧
      ∀ x, IsPlainOf rows x → ∃ items, buckets.find hasher identity x = .ok items ∧
        buckets'.find hasher identity x = .ok (if o.isEqual x then items ++ [item] else items) := by
  induction buckets with
  | nil =>
      refine ⟨[(o, [item])], rfl, ?_, fun x hx => ⟨[], rfl, ?_⟩⟩
      · intro e he
        rw [List.mem_singleton.1 he]
        exact ho
      · rw [find_cons h ho hx]
        split <;> rfl
  | cons bucket buckets ih =>
      obtain ⟨key, items⟩ := bucket
      obtain ⟨hkey, hrest⟩ := List.forall_mem_cons.1 hbuckets
      obtain ⟨buckets', hadd, hplain, hfind⟩ := ih hrest
      cases hequal : key.isEqual o with
      | true =>
          refine ⟨(key, items ++ [item]) :: buckets, ?_, List.forall_mem_cons.2 ⟨hkey, hrest⟩, ?_⟩
          · rw [add, isFoundBy_eq h hkey ho, hequal]
            rfl
          · intro x hx
            -- The row and the one that the bucket was made for are equal to the same rows.
            rw [find_cons h hkey hx, find_cons h hkey hx, isEqual_congr h hkey ho hx hequal]
            cases o.isEqual x with
            | true => exact ⟨items, rfl, rfl⟩
            | false =>
                obtain ⟨found, hfound, -⟩ := hfind x hx
                exact ⟨found, hfound, hfound⟩
      | false =>
          refine ⟨(key, items) :: buckets', ?_, List.forall_mem_cons.2 ⟨hkey, hplain⟩, ?_⟩
          · rw [add, isFoundBy_eq h hkey ho, hequal, ok_bind, hadd]
            rfl
          · intro x hx
            obtain ⟨found, hfound, hfound'⟩ := hfind x hx
            rw [find_cons h hkey hx, find_cons h hkey hx]
            cases hx' : key.isEqual x with
            | false => exact ⟨found, hfound, hfound'⟩
            | true =>
                have hother : o.isEqual x = false := by
                  rw [Bool.eq_false_iff]
                  intro hox
                  rw [isEqual_congr h hkey hx ho hx', IsPlainOf.isEqual_comm h hx ho, hox] at hequal
                  cases hequal
                rw [hother]
                exact ⟨items, rfl, rfl⟩

/-- All items that were put into buckets are found under the rows that are equal to theirs, in
order. -/
theorem get_ofItems (h : ∀ n, (rows n).IsComparable) (items : List (RowObject × α))
    (hitems : ∀ p ∈ items, IsPlainOf rows p.1) (hasher : Hasher) (identity : Nat → Hash) :
    ∃ buckets, ofItems hasher identity items = .ok buckets ∧ ArePlainOf rows buckets ∧
      ∀ x, IsPlainOf rows x → buckets.get hasher identity x =
        .ok ((items.filter fun p => p.1.isEqual x).map (·.2)) := by
  have hget : ∀ (buckets : RowBuckets α) x, IsPlainOf rows x →
      buckets.get hasher identity x = buckets.find hasher identity x := by
    intro buckets x hx
    obtain ⟨_, hhash⟩ := hx.exists_hash_eq h hasher identity
    rw [get, hhash, ok_bind]
  induction items using List.reverseRecOn with
  | nil => exact ⟨[], rfl, by simp [ArePlainOf], fun x hx => hget [] x hx⟩
  | append_singleton items p ih =>
      obtain ⟨o, item⟩ := p
      obtain ⟨buckets, hmake, hplain, hfind⟩ := ih fun p hp => hitems p (List.mem_append_left _ hp)
      have ho : IsPlainOf rows o := hitems (o, item) (by simp)
      obtain ⟨buckets', hadd, hplain', hfind'⟩ := find_add h hplain ho item hasher identity
      obtain ⟨_, hhash⟩ := ho.exists_hash_eq h hasher identity
      refine ⟨buckets', ?_, hplain', fun x hx => ?_⟩
      · rw [ofItems] at hmake ⊢
        rw [List.foldlM_append, hmake, ok_bind, List.foldlM_cons]
        dsimp only
        rw [hhash, ok_bind, hadd]
        rfl
      · obtain ⟨found, hfound, hfound'⟩ := hfind' x hx
        rw [← hget buckets x hx, hfind x hx, Except.ok.injEq] at hfound
        rw [hget buckets' x hx, hfound', ← hfound, List.filter_append, List.map_append]
        cases hequal : o.isEqual x <;> simp [hequal]

/-! What is put into buckets may be any rows here. -/

variable {P : α → Prop} {found : List α} {buckets' : RowBuckets α}

theorem forall_of_find (hbuckets : ∀ e ∈ buckets, ∀ a ∈ e.2, P a)
    (h : find hasher identity o buckets = .ok found) : ∀ a ∈ found, P a := by
  induction buckets with
  | nil =>
      cases h
      nofun
  | cons bucket buckets ih =>
      obtain ⟨hfirst, hrest⟩ := List.forall_mem_cons.1 hbuckets
      rw [find] at h
      obtain ⟨isFound, -, h⟩ := bind_eq_ok_iff.1 h
      cases isFound with
      | true =>
          cases h
          exact hfirst
      | false => exact ih hrest h

theorem forall_of_add (hbuckets : ∀ e ∈ buckets, ∀ a ∈ e.2, P a) {item : α} (hitem : P item)
    (h : add hasher identity o item buckets = .ok buckets') : ∀ e ∈ buckets', ∀ a ∈ e.2, P a := by
  induction buckets generalizing buckets' with
  | nil =>
      cases h
      simpa using hitem
  | cons bucket buckets ih =>
      obtain ⟨hfirst, hrest⟩ := List.forall_mem_cons.1 hbuckets
      rw [add] at h
      obtain ⟨isFound, -, h⟩ := bind_eq_ok_iff.1 h
      cases isFound with
      | true =>
          cases h
          refine List.forall_mem_cons.2 ⟨fun a ha => ?_, hrest⟩
          rcases List.mem_append.1 ha with ha | ha
          · exact hfirst a ha
          · exact List.mem_singleton.1 ha ▸ hitem
      | false =>
          obtain ⟨rest, hadd, h⟩ := bind_eq_ok_iff.1 h
          cases h
          exact List.forall_mem_cons.2 ⟨hfirst, ih hrest hadd⟩

theorem forall_of_ofItems {items : List (RowObject × α)} (hitems : ∀ p ∈ items, P p.2)
    (hmake : ofItems hasher identity items = .ok buckets) : ∀ e ∈ buckets, ∀ a ∈ e.2, P a := by
  induction items using List.reverseRecOn generalizing buckets with
  | nil =>
      cases hmake
      nofun
  | append_singleton items p ih =>
      rw [ofItems, List.foldlM_append] at hmake
      obtain ⟨before, hbefore, hmake⟩ := bind_eq_ok_iff.1 hmake
      rw [List.foldlM_cons] at hmake
      obtain ⟨after, hadd, hmake⟩ := bind_eq_ok_iff.1 hmake
      cases hmake
      obtain ⟨_, -, hadd⟩ := bind_eq_ok_iff.1 hadd
      exact forall_of_add (ih (fun q hq => hitems q (List.mem_append_left _ hq)) hbefore)
        (hitems p (by simp)) hadd

/-- What is found under a row was put into the buckets. -/
theorem forall_of_get {items : List (RowObject × α)} (hitems : ∀ p ∈ items, P p.2)
    (hmake : ofItems hasher identity items = .ok buckets)
    (hget : buckets.get hasher identity o = .ok found) : ∀ a ∈ found, P a := by
  obtain ⟨_, -, hfind⟩ := bind_eq_ok_iff.1 hget
  exact forall_of_find (forall_of_ofItems hitems hmake) hfind

end RowBuckets

/-! ## The laws -/

namespace RowObject

/-- The laws that equality of some rows follows. -/
structure FollowsLaws (rows : Nat → Row) : Prop where
  returns : ∀ i j, (nth rows i).equal (nth rows j) = .ok ((nth rows i).isEqual (nth rows j))
  refl : ∀ i, (nth rows i).isEqual (nth rows i) = true
  symm : ∀ i j, (nth rows i).isEqual (nth rows j) = (nth rows j).isEqual (nth rows i)
  /-- Two different rows that are equal to a third one are equal if one of them holds its values,
  and only then. -/
  trans_iff : ∀ i j k, (nth rows i).isEqual (nth rows j) = true →
    (nth rows j).isEqual (nth rows k) = true → ((nth rows i).isEqual (nth rows k) = true ↔
      i = k ∨ (nth rows i).isPlain = true ∨ (nth rows k).isPlain = true)
  /-- Two different rows that are equal have one hash, whatever the identities, if both hold their
  values, and only then. -/
  hash_iff : ∀ (hasher : Hasher) i j, (nth rows i).isEqual (nth rows j) = true →
    ((∀ identity, (nth rows i).hash hasher identity = (nth rows j).hash hasher identity) ↔
      i = j ∨ (nth rows i).isPlain = true ∧ (nth rows j).isPlain = true)
  /-- In buckets, rows that hold their values are found by all rows among them that are equal. -/
  found : ∀ {α : Type} (hasher : Hasher) (identity : Nat → Hash) (items : List (Nat × α)),
    (∀ p ∈ items, (nth rows p.1).isPlain = true) → ∃ buckets,
      RowBuckets.ofItems hasher identity (items.map fun p => (nth rows p.1, p.2)) = .ok buckets ∧
      ∀ i, (nth rows i).isPlain = true → buckets.get hasher identity (nth rows i) =
        .ok ((items.filter fun p => (nth rows p.1).isEqual (nth rows i)).map (·.2))

/-- **Equality of rows is lawful on rows that hold their values.**  Rows of all kinds have keys that
can be kept in sets.  Then comparing them returns, is reflexive and symmetric, is transitive but for
two windows or views beside a row that holds its values, and goes with hashes but for a window or a
view beside such a row; and rows that hold their values are found in dictionaries by equality. -/
theorem followsLaws {rows : Nat → Row} (h : ∀ i, (rows i).IsComparable) : FollowsLaws rows where
  returns i j := by
    obtain ⟨key, hi⟩ := h i
    obtain ⟨key', hj⟩ := h j
    exact (equal_eq hi hj).1
  refl i := by
    obtain ⟨key, hi⟩ := h i
    exact (isEqual_iff hi hi).2 (.inl rfl)
  symm := isEqual_comm h
  trans_iff i j k := isEqual_trans_iff h
  hash_iff hasher i j hequal := forall_hash_eq_iff h hequal hasher
  found hasher identity items hitems := by
    have hplain : ∀ p ∈ items.map fun p => (nth rows p.1, p.2), IsPlainOf rows p.1 :=
      List.forall_mem_map.2 fun p hp => ⟨⟨p.1, rfl⟩, hitems p hp⟩
    obtain ⟨buckets, hmake, -, hget⟩ := RowBuckets.get_ofItems h _ hplain hasher identity
    refine ⟨buckets, hmake, fun i hplain => ?_⟩
    rw [hget (nth rows i) ⟨⟨i, rfl⟩, hplain⟩, List.filter_map, List.map_map]
    rfl

/-- Two windows of one value with a row between them, and a view of the row. -/
def windowsAndRow : Nat → Row
  | 0 => .window (some [.scalar (.int 1)]) 0 1
  | 1 => .ofValues [.scalar (.int 1)]
  | 2 => .window (some [.scalar (.int 0), .scalar (.int 1)]) 1 1
  | _ => .view [0] (some (.ofValues [.scalar (.bool true)]))

/-- The windows are equal to the row between them, but not to each other. -/
theorem followsLaws_windowsAndRow : (∀ i, (windowsAndRow i).IsComparable) ∧
    FollowsLaws windowsAndRow ∧
    (nth windowsAndRow 0).equal (nth windowsAndRow 1) = .ok true ∧
    (nth windowsAndRow 1).equal (nth windowsAndRow 2) = .ok true ∧
    (nth windowsAndRow 0).equal (nth windowsAndRow 2) = .ok false := by
  have h : ∀ i, (windowsAndRow i).IsComparable := by
    intro i
    match i with
    | 0 => exact ⟨[.scalar (.int 1)], rfl, by rfl, by decide⟩
    | 1 => exact ⟨[.scalar (.int 1)], rfl, by rfl, by decide⟩
    | 2 => exact ⟨[.scalar (.int 1)], rfl, by rfl, by decide⟩
    | i + 3 => exact ⟨[.scalar (.bool true)], rfl, by rfl, by decide⟩
  exact ⟨h, followsLaws h, by decide, by decide, by decide⟩

end RowObject

end MergeOnRead
