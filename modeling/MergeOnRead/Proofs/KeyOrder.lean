import MergeOnRead.Proofs.CanonicalContent
import Mathlib.Algebra.Order.Field.Power
import Mathlib.Order.WithBot
import Mathlib.Tactic.Positivity

/-!
# The order of keys

Values are compared one way or another depending on their types, and some not at all.  What comes
out depends on the keys of the values only: these have an order, which is partial (`Key.Before`).

Strategy:

* a number is a place on the line of all numbers, and the comparison by leading digits is that of
  places (`Exact.order_isLT_iff`);
* two values that can be compared are in the order of their keys (`Value.tells_less`);
* two values the keys of which are in order can be compared (`Value.less_of_before`), unless the
  first items that differ are binary data (`Key.differInBinary`), which a view may hold.
-/

namespace MergeOnRead

/-! ## Numbers -/

namespace Exact

/-- A finite number lies in the decade of its leading digit. -/
theorem decade_bounds {n : Nat} (hn : 0 < n) (e : Int) :
    (10 : ℚ) ^ (e + (Nat.toDigits 10 n).length - 1) ≤ n * 10 ^ e ∧
      (n : ℚ) * 10 ^ e < 10 ^ (e + (Nat.toDigits 10 n).length) := by
  have hpositive : (0 : ℚ) < 10 ^ e := by positivity
  obtain ⟨k, hk⟩ : ∃ k, (Nat.toDigits 10 n).length = k + 1 :=
    Nat.exists_eq_succ_of_ne_zero Nat.length_toDigits_pos.ne'
  have hupper : n < 10 ^ (k + 1) := (Nat.length_toDigits_le_iff (by decide) (by omega)).1 hk.le
  have hlower : 10 ^ k ≤ n := by
    rcases Nat.eq_zero_or_pos k with rfl | hkpos
    · exact hn
    · by_contra hlt
      have hshort := (Nat.length_toDigits_le_iff (by decide) hkpos).2 (Nat.lt_of_not_le hlt)
      omega
  have hexponent : e + ((k + 1 : Nat) : Int) - 1 = k + e := by omega
  have hexponent' : e + ((k + 1 : Nat) : Int) = (k + 1 : Nat) + e := by omega
  rw [hk, hexponent, hexponent', zpow_add₀ (by norm_num), zpow_add₀ (by norm_num), zpow_natCast,
    zpow_natCast]
  exact ⟨mul_le_mul_of_nonneg_right (by exact_mod_cast hlower) hpositive.le,
    mul_lt_mul_of_pos_right (by exact_mod_cast hupper) hpositive⟩

theorem compareMagnitude_eq_lt_iff {m n : Nat} (hm : 0 < m) (hn : 0 < n) (e f : Int) :
    compareMagnitude m e n f = .lt ↔ (m : ℚ) * 10 ^ e < n * 10 ^ f := by
  obtain ⟨hlow, hhigh⟩ := decade_bounds hm e
  obtain ⟨hlow', hhigh'⟩ := decade_bounds hn f
  rw [compareMagnitude]
  dsimp only
  generalize e + ((Nat.toDigits 10 m).length : Int) = lead at hlow hhigh ⊢
  generalize f + ((Nat.toDigits 10 n).length : Int) = lead' at hlow' hhigh' ⊢
  rcases lt_trichotomy lead lead' with hlt | rfl | hgt
  · rw [Int.compare_eq_lt.2 hlt]
    refine iff_of_true rfl (hhigh.trans_le (le_trans ?_ hlow'))
    exact zpow_le_zpow_right₀ (by norm_num) (by omega)
  · rw [Int.compare_eq_eq.2 rfl, Nat.compare_eq_lt]
    -- Both are counted in the lesser unit.
    have hscale : ∀ (k : Nat) (g h : Int),
        ((k * Nat.pow 10 (g - h).toNat : Nat) : ℚ) * 10 ^ min g h = k * 10 ^ g := by
      intro k g h
      have hsplit : g = (g - h).toNat + min g h := by omega
      have hpow : ((Nat.pow 10 (g - h).toNat : ℕ) : ℚ) = 10 ^ (g - h).toNat := Nat.cast_pow 10 _
      conv_rhs => rw [hsplit]
      rw [zpow_add₀ (by norm_num), zpow_natCast, Nat.cast_mul, hpow, mul_assoc]
    rw [← hscale m e f, ← hscale n f e, min_comm f e, mul_lt_mul_iff_left₀ (by positivity)]
    exact_mod_cast Iff.rfl
  · rw [Int.compare_eq_gt.2 hgt]
    refine iff_of_false nofun (not_lt.2 (hhigh'.le.trans (le_trans ?_ hlow)))
    exact zpow_le_zpow_right₀ (by norm_num) (by omega)

theorem mul_lt_mul_of_sign_lt {m n : Int} (h : m.sign < n.sign) (e f : Int) :
    (m : ℚ) * 10 ^ e < n * 10 ^ f := by
  have hpos : (0 : ℚ) < 10 ^ e := by positivity
  have hpos' : (0 : ℚ) < 10 ^ f := by positivity
  rcases lt_trichotomy n 0 with hn | rfl | hn
  · have hlow : -1 ≤ m.sign := by
      rcases Int.sign_trichotomy m with hm | hm | hm <;> omega
    rw [Int.sign_eq_neg_one_of_neg hn] at h
    omega
  · have hm : (m : ℚ) < 0 := by exact_mod_cast Int.sign_neg_iff.1 h
    simpa using mul_neg_of_neg_of_pos hm hpos
  · have hm : (m : ℚ) ≤ 0 := by
      have : ¬ 0 < m := fun hm => by
        rw [Int.sign_eq_one_of_pos hm, Int.sign_eq_one_of_pos hn] at h
        omega
      exact_mod_cast not_lt.1 this
    have hn : (0 : ℚ) < n := by exact_mod_cast hn
    exact (mul_nonpos_of_nonpos_of_nonneg hm hpos.le).trans_lt (mul_pos hn hpos')

/-- What a number is, on the line of all numbers. -/
def value : Exact → WithBot (WithTop ℚ)
  | .finite m e => ((toRat (.finite m e) : WithTop ℚ) : WithBot (WithTop ℚ))
  | .infinite true => ⊥
  | .infinite false => ((⊤ : WithTop ℚ) : WithBot (WithTop ℚ))

theorem order_finite_eq_lt_iff (m e n f : Int) :
    (order (.finite m e) (.finite n f)) = .lt ↔ (m : ℚ) * 10 ^ e < n * 10 ^ f := by
  unfold order
  simp only [sign]
  rcases lt_trichotomy m.sign n.sign with hlt | heq | hgt
  · rw [Int.compare_eq_lt.2 hlt]
    exact iff_of_true rfl (mul_lt_mul_of_sign_lt hlt e f)
  · rw [Int.compare_eq_eq.2 heq]
    dsimp only
    rcases lt_trichotomy m 0 with hm | rfl | hm
    · have hn : n < 0 := by
        rw [← Int.sign_eq_neg_one_iff_neg, ← heq, Int.sign_eq_neg_one_of_neg hm]
      rw [if_neg hm.ne, if_neg hm.asymm,
        compareMagnitude_eq_lt_iff (Int.natAbs_pos.2 hn.ne) (Int.natAbs_pos.2 hm.ne),
        Nat.cast_natAbs, Nat.cast_natAbs, abs_of_neg hm, abs_of_neg hn, Int.cast_neg, Int.cast_neg,
        neg_mul, neg_mul, neg_lt_neg_iff]
    · have hn : n = 0 := by
        rw [← Int.sign_eq_zero_iff_zero, ← heq, Int.sign_zero]
      simp [hn]
    · have hn : 0 < n := by
        rw [← Int.sign_eq_one_iff_pos, ← heq, Int.sign_eq_one_of_pos hm]
      rw [if_neg hm.ne', if_pos hm,
        compareMagnitude_eq_lt_iff (Int.natAbs_pos.2 hm.ne') (Int.natAbs_pos.2 hn.ne'),
        Nat.cast_natAbs, Nat.cast_natAbs, abs_of_pos hm, abs_of_pos hn]
  · rw [Int.compare_eq_gt.2 hgt]
    exact iff_of_false nofun (mul_lt_mul_of_sign_lt hgt f e).asymm

theorem order_infinite_eq_lt_iff (x : Exact) (negative : Bool) :
    order x (.infinite negative) = .lt ↔ negative = false ∧ x ≠ .infinite false := by
  rcases x with ⟨m, e⟩ | negative'
  · unfold order
    simp only [sign]
    rcases Int.sign_trichotomy m with h | h | h <;> rw [h] <;> cases negative <;> simp <;> decide
  · cases negative <;> cases negative' <;> simp [order, sign] <;> decide

theorem infinite_order_eq_lt_iff (negative : Bool) (y : Exact) :
    order (.infinite negative) y = .lt ↔ negative = true ∧ y ≠ .infinite true := by
  rcases y with ⟨n, f⟩ | negative'
  · unfold order
    simp only [sign]
    rcases Int.sign_trichotomy n with h | h | h <;> rw [h] <;> cases negative <;> simp <;> decide
  · cases negative <;> cases negative' <;> simp [order, sign] <;> decide

/-- Numbers are in the order of what they are. -/
theorem order_isLT_iff (x y : Exact) : (x.order y).isLT = true ↔ x.value < y.value := by
  rw [Ordering.isLT_iff_eq_lt]
  rcases x with ⟨m, e⟩ | negative
  · rcases y with ⟨n, f⟩ | negative
    · rw [order_finite_eq_lt_iff, value, value, WithBot.coe_lt_coe, WithTop.coe_lt_coe, toRat,
        toRat]
    · rw [order_infinite_eq_lt_iff]
      cases negative with
      | false => exact iff_of_true ⟨rfl, by simp⟩ (WithBot.coe_lt_coe.2 (WithTop.coe_lt_top _))
      | true => exact iff_of_false (by simp) not_lt_bot
  · rw [infinite_order_eq_lt_iff]
    cases negative with
    | false => exact iff_of_false (by simp) not_top_lt
    | true => rcases y with ⟨n, f⟩ | negative' <;> [skip; cases negative'] <;> simp [value]

theorem value_injective {x y : Exact} (hx : x.IsLowest) (hy : y.IsLowest)
    (h : x.value = y.value) : x = y := by
  rcases x with ⟨m, e⟩ | negative
  · rcases y with ⟨n, f⟩ | negative
    · rw [value, value, WithBot.coe_inj, WithTop.coe_inj] at h
      obtain ⟨rfl, rfl⟩ := toRat_injective hx hy h
      rfl
    · cases negative <;> simp [value] at h
  · rcases y with ⟨n, f⟩ | negative' <;> cases negative <;>
      [skip; skip; cases negative'; cases negative'] <;> simp_all [value]

end Exact

/-! ## Keys -/

/-- The order of keys of scalars, as far as they have one. -/
inductive Atom.Before : Atom → Atom → Prop where
  | number {x y : Exact} (h : x.value < y.value) : Before (.number x) (.number y)
  | text {s t : String} (h : s < t) : Before (.text s) (.text t)
  | binary {b c : List UInt8} (h : compare b c = .lt) : Before (.binary b) (.binary c)
  | date {d e : Date} (h : d.days < e.days) : Before (.date d) (.date e)
  | timestamp {s t : Timestamp} (h : s.nanos < t.nanos) : Before (.timestamp s) (.timestamp t)
  | instant {s t : Timestamp} (h : s.nanos < t.nanos) : Before (.instant s) (.instant t)

theorem Atom.not_before_self (a : Atom) : ¬ a.Before a := by
  intro h
  cases h with
  | binary h => simp at h
  | _ h => exact lt_irrefl _ h

theorem Atom.Before.trans {a b c : Atom} (h : a.Before b) (h' : b.Before c) : a.Before c := by
  cases h with
  | number h => cases h' with | number h' => exact .number (h.trans h')
  | text h => cases h' with | text h' => exact .text (h.trans h')
  | binary h => cases h' with | binary h' => exact .binary (Std.TransCmp.lt_trans h h')
  | date h => cases h' with | date h' => exact .date (h.trans h')
  | timestamp h => cases h' with | timestamp h' => exact .timestamp (h.trans h')
  | instant h => cases h' with | instant h' => exact .instant (h.trans h')

namespace Key

mutual

/-- The order of keys, as far as they have one. -/
inductive Before : Key → Key → Prop where
  | atom {a b : Atom} (h : a.Before b) : Before (.atom a) (.atom b)
  | tuple {xs ys : List Key} (h : BeforeItems xs ys) : Before (.node .tuple xs) (.node .tuple ys)

/-- The order of lists of keys is that of the first items that differ; a beginning comes before the
whole. -/
inductive BeforeItems : List Key → List Key → Prop where
  | beginning {y : Key} {ys : List Key} : BeforeItems [] (y :: ys)
  | first {x y : Key} {xs ys : List Key} (h : Before x y) : BeforeItems (x :: xs) (y :: ys)
  | rest {x : Key} {xs ys : List Key} (h : BeforeItems xs ys) : BeforeItems (x :: xs) (x :: ys)

end

theorem beforeItems_cons_iff {x y : Key} {xs ys : List Key} :
    BeforeItems (x :: xs) (y :: ys) ↔ x.Before y ∨ x = y ∧ BeforeItems xs ys := by
  constructor
  · intro h
    cases h with
    | first h => exact .inl h
    | rest h => exact .inr ⟨rfl, h⟩
  · rintro (h | ⟨rfl, h⟩)
    · exact .first h
    · exact .rest h

mutual

theorem not_before_self : (x : Key) → ¬ x.Before x
  | .atom a, h => by
      cases h with
      | atom h => exact a.not_before_self h
  | .node _ xs, h => by
      cases h with
      | tuple h => exact not_beforeItems_self xs h

theorem not_beforeItems_self : (xs : List Key) → ¬ BeforeItems xs xs
  | [], h => nomatch h
  | x :: xs, h => by
      cases h with
      | first h => exact not_before_self x h
      | rest h => exact not_beforeItems_self xs h

end

mutual

theorem before_trans : (x : Key) → {y z : Key} → x.Before y → y.Before z → x.Before z
  | .atom a, y, z, h, h' => by
      cases h with
      | atom h => cases h' with | atom h' => exact .atom (h.trans h')
  | .node _ xs, y, z, h, h' => by
      cases h with
      | tuple h => cases h' with | tuple h' => exact .tuple (beforeItems_trans xs h h')

theorem beforeItems_trans : (xs : List Key) → {ys zs : List Key} → BeforeItems xs ys →
    BeforeItems ys zs → BeforeItems xs zs
  | [], ys, zs, h, h' => by
      cases h' with
      | beginning => cases h
      | first _ | rest _ => exact .beginning
  | x :: xs, ys, zs, h, h' => by
      cases h with
      | first h => cases h' with
        | first h' => exact .first (before_trans x h h')
        | rest h' => exact .first h
      | rest h => cases h' with
        | first h' => exact .first h'
        | rest h' => exact .rest (beforeItems_trans xs h h')

end

instance : IsStrictOrder Key Before where
  irrefl := not_before_self
  trans x _ _ := before_trans x

mutual

/-- The first items that differ in two keys are binary data. -/
def differInBinary : Key → Key → Bool
  | .atom (.binary b), .atom (.binary c) => b != c
  | .node .tuple xs, .node .tuple ys => differInBinaryItems xs ys
  | _, _ => false

/-- The same for lists of keys. -/
def differInBinaryItems : List Key → List Key → Bool
  | x :: xs, y :: ys => if x = y then differInBinaryItems xs ys else differInBinary x y
  | _, _ => false

end

mutual

theorem differInBinary_comm : (k l : Key) → k.differInBinary l = l.differInBinary k
  | .atom a, .atom b => by cases a <;> cases b <;> first | rfl | exact bne_comm
  | .node shape xs, .node shape' ys => by
      cases shape <;> cases shape' <;> first | rfl | exact differInBinaryItems_comm xs ys
  | .atom a, .node shape _ => by cases a <;> cases shape <;> rfl
  | .node shape _, .atom a => by cases a <;> cases shape <;> rfl

theorem differInBinaryItems_comm : (xs ys : List Key) →
    differInBinaryItems xs ys = differInBinaryItems ys xs
  | [], [] => rfl
  | [], _ :: _ => rfl
  | _ :: _, [] => rfl
  | x :: xs, y :: ys => by
      rw [differInBinaryItems, differInBinaryItems, differInBinaryItems_comm xs ys,
        differInBinary_comm x y]
      exact if_congr eq_comm rfl rfl

end

end Key

/-! ## Values -/

namespace Scalar

variable {s t : Scalar}

theorem exists_atom_eq_number (hs : s.isNumber = true) (hstray : s.atom ≠ .stray) :
    ∃ x, s.atom = .number x := by
  cases s with
  | bool _ | int _ => exact ⟨_, rfl⟩
  | float x =>
      rw [atom] at hstray ⊢
      split
      · exact ⟨_, rfl⟩
      · simp_all
  | decimal d =>
      rw [atom] at hstray ⊢
      split
      · exact ⟨_, rfl⟩
      · simp_all
  | _ => cases hs

theorem isNumber_of_atom_eq {x : Exact} (h : s.atom = .number x) : s.isNumber = true := by
  cases s with
  | bool _ | int _ | float _ | decimal _ => rfl
  | _ => cases h

theorem less_eq_lessNumber (hs : s.isNumber = true) (ht : t.isNumber = true) :
    s.less t = s.lessNumber t := by
  cases s <;> cases hs <;> cases t <;> cases ht <;> rfl

/-- Numbers are compared as what they are. -/
theorem less_number {x y : Exact} (hs : s.atom = .number x) (ht : t.atom = .number y) :
    s.less t = .ok (decide (x.value < y.value)) := by
  rw [less_eq_lessNumber (isNumber_of_atom_eq hs) (isNumber_of_atom_eq ht), lessNumber, hs, ht]
  dsimp only
  rw [Bool.eq_iff_iff.2 ((x.order_isLT_iff y).trans decide_eq_true_iff.symm)]

/-- Of two different items of a linear order, one comes before the other. -/
theorem tells_of_decide {κ : Type} [LinearOrder κ] {a b : κ} [Decidable (a < b)] {P Q : Prop}
    {isLess : Bool} (h : (.ok (decide (a < b)) : Except ComparisonError Bool) = .ok isLess)
    (hne : a ≠ b) (hlt : a < b → P) (hgt : b < a → Q) : if isLess then P else Q := by
  cases h
  by_cases hab : a < b
  · simpa [hab] using hlt hab
  · simpa [hab] using hgt (lt_of_le_of_ne (not_lt.1 hab) hne.symm)

/-- Scalars that are compared are in the order of their keys. -/
theorem tells_less (hs : s.atom ≠ .stray) (ht : t.atom ≠ .stray) (hne : s.atom ≠ t.atom)
    {isLess : Bool} (h : s.less t = .ok isLess) :
    if isLess then s.atom.Before t.atom else t.atom.Before s.atom := by
  unfold less at h
  split at h
  · exact tells_of_decide h (fun heq => hne (congrArg Atom.text heq)) .text .text
  · exact tells_of_decide h (fun heq => hne (congrArg (fun n => Atom.date ⟨n⟩) heq)) .date .date
  · exact tells_of_decide h (fun heq => hne (congrArg (fun n => Atom.timestamp ⟨n⟩) heq))
      .timestamp .timestamp
  · exact tells_of_decide h (fun heq => hne (congrArg (fun n => Atom.instant ⟨n⟩) heq))
      .instant .instant
  · cases h
  · cases h
  · cases h
  · rename_i _ b _ c _ _ _
    cases hcompare : compare b c <;> rw [hcompare] at h <;> cases h
    · exact .binary hcompare
    · exact absurd (congrArg Atom.binary (Std.LawfulEqCmp.eq_of_compare hcompare)) hne
    · exact .binary (Std.OrientedCmp.gt_iff_lt.1 hcompare)
  · rename_i s t _ _ _ _ _ _ _ _
    split at h
    · rename_i hnumbers
      rw [Bool.and_eq_true] at hnumbers
      obtain ⟨x, hx⟩ := exists_atom_eq_number hnumbers.1 hs
      obtain ⟨y, hy⟩ := exists_atom_eq_number hnumbers.2 ht
      rw [← less_eq_lessNumber hnumbers.1 hnumbers.2, less_number hx hy] at h
      have hlowest := isLowest_atom hs
      have hlowest' := isLowest_atom ht
      rw [hx] at hlowest
      rw [hy] at hlowest'
      rw [hx, hy] at hne ⊢
      exact tells_of_decide h (fun heq => hne (congrArg Atom.number
        (Exact.value_injective hlowest hlowest' heq))) .number .number
    · cases h

/-- Scalars that are compared by their content, with a key. -/
theorem eq_of_atom (s : Scalar) : match s.atom with
    | .text x => s = .text x
    | .date d => s = .date d
    | .timestamp t => s = .timestamp t
    | .instant t => s = .instant t
    | _ => True := by
  cases s with
  | float x =>
      rw [atom]
      cases Exact.ofBinary64? x <;> trivial
  | decimal d =>
      rw [atom]
      cases Exact.ofDecimal? d <;> trivial
  | _ => first | rfl | trivial

/-- Scalars can be compared when their keys have an order, unless they are binary data. -/
theorem less_of_before (h : s.atom.Before t.atom)
    (hbinary : (Key.atom s.atom).differInBinary (.atom t.atom) = false) :
    s.less t = .ok true ∧ t.less s = .ok false := by
  have hs := s.eq_of_atom
  have ht := t.eq_of_atom
  generalize hsa : s.atom = a at h hbinary hs
  generalize hta : t.atom = b at h hbinary ht
  cases h with
  | number h =>
      rw [less_number hsa hta, less_number hta hsa, decide_eq_true h, decide_eq_false h.asymm]
      exact ⟨rfl, rfl⟩
  | binary h =>
      rw [Key.differInBinary, bne_eq_false_iff_eq] at hbinary
      simp [hbinary] at h
  | text h | date h | timestamp h | instant h =>
      subst hs ht
      exact ⟨congrArg Except.ok (decide_eq_true h), congrArg Except.ok (decide_eq_false h.asymm)⟩

end Scalar

namespace Value

theorem eq_of_isSettled {v w : Value} (h : v.key.isSettled = true) :
    v.eq w = decide (v.key = w.key) := by
  rw [eq, h, Bool.and_true]

theorem isKeyed_of_tuple {vs : List Value} (h : (tuple vs).IsKeyed) : ∀ v ∈ vs, v.IsKeyed := by
  obtain ⟨hhashable, hsettled⟩ := h
  rw [isHashable, areHashable_iff] at hhashable
  rw [key, Key.isSettled, Key.areSettled_iff, keys_eq_map, List.forall_mem_map] at hsettled
  exact fun v hv => ⟨hhashable v hv, hsettled v hv⟩

mutual

/-- Values that are compared are in the order of their keys. -/
theorem tells_less : (v w : Value) → v.IsKeyed → w.IsKeyed → v.key ≠ w.key → {isLess : Bool} →
    v.less w = .ok isLess → if isLess then v.key.Before w.key else w.key.Before v.key
  | .scalar s, .scalar t, hv, hw, hne, isLess, h => by
      have hatom : ∀ {s : Scalar}, (scalar s).IsKeyed → s.atom ≠ .stray := by
        rintro s ⟨-, hsettled⟩ hstray
        rw [key, hstray] at hsettled
        cases hsettled
      have htells := Scalar.tells_less (hatom hv) (hatom hw)
        (fun heq => hne (congrArg Key.atom heq)) (by rwa [less] at h)
      cases isLess with
      | true => exact .atom htells
      | false => exact .atom htells
  | .tuple vs, .tuple ws, hv, hw, hne, isLess, h => by
      have htells := tells_lessItems vs ws (isKeyed_of_tuple hv) (isKeyed_of_tuple hw)
        (fun heq => hne (congrArg (Key.node .tuple) heq)) (by rwa [less] at h)
      cases isLess with
      | true => exact .tuple htells
      | false => exact .tuple htells
  | .list _, _, hv, _, _, _, _ => nomatch hv.hashable
  | .dict _, _, hv, _, _, _, _ => nomatch hv.hashable
  | _, .list _, _, hw, _, _, _ => nomatch hw.hashable
  | _, .dict _, _, hw, _, _, _ => nomatch hw.hashable
  | .scalar _, .tuple _, _, _, _, _, h => nomatch h
  | .tuple _, .scalar _, _, _, _, _, h => nomatch h

theorem tells_lessItems : (vs ws : List Value) → (∀ v ∈ vs, v.IsKeyed) → (∀ w ∈ ws, w.IsKeyed) →
    keys vs ≠ keys ws → {isLess : Bool} → lessItems vs ws = .ok isLess →
    if isLess then Key.BeforeItems (keys vs) (keys ws) else Key.BeforeItems (keys ws) (keys vs)
  | [], [], _, _, hne, _, _ => (hne rfl).elim
  | [], w :: ws, _, _, _, _, h => by
      cases h
      exact .beginning
  | v :: vs, [], _, _, _, _, h => by
      cases h
      exact .beginning
  | v :: vs, w :: ws, hv, hw, hne, isLess, h => by
      obtain ⟨hfirst, hrest⟩ := List.forall_mem_cons.1 hv
      obtain ⟨hfirst', hrest'⟩ := List.forall_mem_cons.1 hw
      rw [lessItems, eq_of_isSettled hfirst.settled] at h
      by_cases heq : v.key = w.key
      · rw [if_pos (decide_eq_true heq)] at h
        rw [keys, keys, heq] at hne ⊢
        have htells := tells_lessItems vs ws hrest hrest' (fun hrest => hne (hrest ▸ rfl)) h
        cases isLess with
        | true => exact .rest htells
        | false => exact .rest htells
      · rw [if_neg (by simpa using heq)] at h
        have htells := tells_less v w hfirst hfirst' heq h
        cases isLess with
        | true => exact .first htells
        | false => exact .first htells

end

mutual

/-- Values can be compared when their keys have an order, unless they differ in binary data. -/
theorem less_of_before : (v w : Value) → v.IsKeyed → w.IsKeyed → v.key.Before w.key →
    v.key.differInBinary w.key = false → v.less w = .ok true ∧ w.less v = .ok false
  | .scalar s, .scalar t, _, _, h, hbinary => by
      rw [key, key] at h hbinary
      cases h with
      | atom h =>
          rw [less, less]
          exact Scalar.less_of_before h hbinary
  | .tuple vs, .tuple ws, hv, hw, h, hbinary => by
      rw [key, key] at h hbinary
      cases h with
      | tuple h =>
          rw [less, less]
          exact lessItems_of_before vs ws (isKeyed_of_tuple hv) (isKeyed_of_tuple hw) h hbinary
  | .list _, _, hv, _, _, _ => nomatch hv.hashable
  | .dict _, _, hv, _, _, _ => nomatch hv.hashable
  | _, .list _, _, hw, _, _ => nomatch hw.hashable
  | _, .dict _, _, hw, _, _ => nomatch hw.hashable
  | .scalar _, .tuple _, _, _, h, _ => nomatch h
  | .tuple _, .scalar _, _, _, h, _ => nomatch h

theorem lessItems_of_before : (vs ws : List Value) → (∀ v ∈ vs, v.IsKeyed) →
    (∀ w ∈ ws, w.IsKeyed) → Key.BeforeItems (keys vs) (keys ws) →
    Key.differInBinaryItems (keys vs) (keys ws) = false →
    lessItems vs ws = .ok true ∧ lessItems ws vs = .ok false
  | [], [], _, _, h, _ => nomatch h
  | [], w :: ws, _, _, _, _ => ⟨rfl, rfl⟩
  | v :: vs, [], _, _, h, _ => nomatch h
  | v :: vs, w :: ws, hv, hw, h, hbinary => by
      obtain ⟨hfirst, hrest⟩ := List.forall_mem_cons.1 hv
      obtain ⟨hfirst', hrest'⟩ := List.forall_mem_cons.1 hw
      rw [lessItems, lessItems, eq_of_isSettled hfirst.settled, eq_of_isSettled hfirst'.settled]
      rw [keys, keys, Key.differInBinaryItems] at hbinary
      rw [keys, keys, Key.beforeItems_cons_iff] at h
      by_cases heq : v.key = w.key
      · rw [if_pos heq] at hbinary
        rw [if_pos (decide_eq_true heq), if_pos (decide_eq_true heq.symm)]
        rcases h with h | ⟨-, h⟩
        · exact (Key.not_before_self _ (heq ▸ h)).elim
        · exact lessItems_of_before vs ws hrest hrest' h hbinary
      · rw [if_neg heq] at hbinary
        rw [if_neg (by simpa using heq), if_neg (by simpa using Ne.symm heq)]
        rcases h with h | ⟨hsame, -⟩
        · exact less_of_before v w hfirst hfirst' h hbinary
        · exact (heq hsame).elim

end

end Value

end MergeOnRead
