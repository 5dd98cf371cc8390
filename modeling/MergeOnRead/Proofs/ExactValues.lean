import MergeOnRead.Value.Canonical
import Mathlib.Algebra.Field.Rat
import Mathlib.Algebra.Order.Ring.Rat
import Mathlib.Algebra.GroupWithZero.Basic
import Mathlib.Tactic.FieldSimp
import Mathlib.Tactic.Ring

/-!
# Numbers are equal when their exact values are

Integers, truth values, doubles and decimals are compared by their lowest forms.  That of a number
is determined by the rational number it stands for (`Exact.toRat_injective`), and so two scalars
have the same key exactly when they say the same (`Scalar.atom_eq_iff`), whatever their types.
-/

namespace MergeOnRead

namespace Exact

/-- A number with a sign. -/
def signed (negative : Bool) (q : ℚ) : ℚ := if negative then -q else q

/-- The rational number that a finite value stands for. -/
def toRat : Exact → ℚ
  | .finite mantissa exponent => mantissa * 10 ^ exponent
  | .infinite _ => 0

/-- A value in lowest form: zero has no exponent, and another mantissa does not end in zero. -/
def IsLowest : Exact → Prop
  | .finite mantissa exponent => mantissa = 0 ∧ exponent = 0 ∨ mantissa % 10 ≠ 0
  | .infinite _ => True

/-- Zeros that are dropped from a number are counted. -/
theorem stripZeros_value (fuel n : Nat) (e : Int) :
    ((stripZeros fuel n e).1 : ℚ) * 10 ^ (stripZeros fuel n e).2 = n * 10 ^ e := by
  induction fuel generalizing n e with
  | zero => rfl
  | succ fuel ih =>
      rw [stripZeros]
      split
      · rename_i hzero
        have hn : (n : ℚ) = (n / 10 : ℕ) * 10 := by
          exact_mod_cast (Nat.div_mul_cancel (Nat.dvd_of_mod_eq_zero hzero)).symm
        rw [ih, zpow_add₀ (by norm_num), zpow_one, hn]
        ring
      · rfl

/-- There is fuel enough to drop all zeros. -/
theorem stripZeros_lowest {fuel n : Nat} (hn : n ≠ 0) (hfuel : n < 2 ^ fuel) (e : Int) :
    (stripZeros fuel n e).1 % 10 ≠ 0 := by
  induction fuel generalizing n e with
  | zero =>
      rw [Nat.pow_zero] at hfuel
      omega
  | succ fuel ih =>
      rw [stripZeros]
      rw [Nat.pow_succ] at hfuel
      split
      · exact ih (by omega) (by omega) _
      · assumption

variable (negative : Bool) (n : Nat) (e : Int)

theorem ofParts_eq (hn : n ≠ 0) : ofParts negative n e =
    .finite (if negative then -((stripZeros (n.log2 + 1) n e).1 : Int)
      else (stripZeros (n.log2 + 1) n e).1) (stripZeros (n.log2 + 1) n e).2 := by
  rw [ofParts, if_neg hn]

theorem isLowest_ofParts : (ofParts negative n e).IsLowest := by
  by_cases hn : n = 0
  · rw [ofParts, if_pos hn]
    exact .inl ⟨rfl, rfl⟩
  · rw [ofParts_eq negative n e hn]
    have hlowest := stripZeros_lowest hn Nat.lt_log2_self e
    refine .inr ?_
    split
    · omega
    · omega

theorem toRat_ofParts : (ofParts negative n e).toRat = signed negative (n * 10 ^ e) := by
  by_cases hn : n = 0
  · rw [ofParts, if_pos hn, hn]
    cases negative <;> simp [toRat, signed]
  · rw [ofParts_eq negative n e hn, toRat, signed, ← stripZeros_value (n.log2 + 1) n e]
    cases negative <;> simp

/-- A finite value in lowest form is determined by the number it stands for. -/
theorem toRat_injective {m e m' e' : Int} (h : IsLowest (.finite m e))
    (h' : IsLowest (.finite m' e')) (heq : toRat (.finite m e) = toRat (.finite m' e')) :
    m = m' ∧ e = e' := by
  wlog hle : e ≤ e' generalizing m e m' e'
  · obtain ⟨hm, he⟩ := this h' h heq.symm (by omega)
    exact ⟨hm.symm, he.symm⟩
  -- The mantissa of the lesser exponent is a multiple of the other one.
  have hmul : m = m' * 10 ^ (e' - e).toNat := by
    have hpow : (10 : ℚ) ^ e' = 10 ^ e * 10 ^ (e' - e).toNat := by
      rw [← zpow_natCast, ← zpow_add₀ (by norm_num)]
      congr 1
      omega
    simp only [toRat] at heq
    rw [hpow] at heq
    have hne : (10 : ℚ) ^ e ≠ 0 := zpow_ne_zero _ (by norm_num)
    have hrat : (m : ℚ) = m' * 10 ^ (e' - e).toNat := by
      apply mul_right_cancel₀ hne
      rw [heq]
      ring
    exact_mod_cast hrat
  by_cases hexponent : e = e'
  · rw [hexponent, Int.sub_self, Int.toNat_zero, pow_zero, mul_one] at hmul
    exact ⟨hmul, hexponent⟩
  · have hsucc : (e' - e).toNat = ((e' - e).toNat - 1) + 1 := by omega
    rw [hsucc, pow_succ, ← mul_assoc] at hmul
    rcases h with ⟨hzero, he⟩ | hlowest
    · have hzero' : m' = 0 := by
        have hne : (10 : Int) ^ ((e' - e).toNat - 1) ≠ 0 := pow_ne_zero _ (by decide)
        rw [hzero] at hmul
        simpa [hne] using hmul.symm
      rcases h' with ⟨-, he'⟩ | hlowest'
      · omega
      · omega
    · omega

theorem signed_natAbs (k : Int) : signed (decide (k < 0)) k.natAbs = k := by
  rw [signed, Nat.cast_natAbs]
  by_cases hk : k < 0
  · simp [hk, abs_of_neg]
  · simp [hk, abs_of_nonneg (not_lt.1 hk)]

theorem toRat_ofInt (k : Int) : (ofInt k).toRat = k := by
  rw [ofInt, toRat_ofParts, zpow_zero, mul_one, signed_natAbs]

theorem ofInt_injective {m n : Int} (h : ofInt m = ofInt n) : m = n := by
  have hsame : (m : ℚ) = n := by rw [← toRat_ofInt m, h, toRat_ofInt n]
  exact_mod_cast hsame

end Exact

/-! ## What scalars say -/

/-- What a scalar says, whatever its representation: a null, a number by its exact value, an
infinity, a NaN, or content of another kind. -/
inductive Content where
  | null
  | number (q : ℚ)
  | infinite (negative : Bool)
  | nan
  | text (s : String)
  | binary (bytes : List UInt8)
  | date (d : Date)
  | timestamp (t : Timestamp)
  | instant (t : Timestamp)
  | member (family name : String)

/-- What an exact value says. -/
def Exact.content : Exact → Content
  | .finite mantissa exponent => .number (toRat (.finite mantissa exponent))
  | .infinite negative => .infinite negative

open Exact

theorem Exact.content_ofParts (negative : Bool) (n : Nat) (e : Int) :
    (ofParts negative n e).content = .number (signed negative (n * 10 ^ e)) := by
  rw [← toRat_ofParts]
  by_cases hn : n = 0
  · rw [ofParts, if_pos hn]
    rfl
  · rw [ofParts_eq negative n e hn]
    rfl

theorem Exact.content_ofInt (k : Int) : (ofInt k).content = .number k := by
  rw [ofInt, content_ofParts, zpow_zero, mul_one, signed_natAbs]

/-- What a double says. -/
def Binary64.content (x : Binary64) : Content :=
  if x.isNaN then .nan
  else if x.isInfinite then .infinite x.isNegative
  else .number (signed x.isNegative (x.coefficient * 2 ^ x.exponent))

/-- What a decimal says. -/
def Decimal.content : Decimal → Content
  | .finite negative digits exponent => .number (signed negative (digits * 10 ^ exponent))
  | .infinite negative => .infinite negative
  | .nan _ _ _ => .nan

/-- What a scalar says. -/
def Scalar.content : Scalar → Content
  | .null => .null
  | .bool b => .number (if b then 1 else 0)
  | .int n => .number n
  | .float x => x.content
  | .text s => .text s
  | .binary _ bytes => .binary bytes
  | .decimal d => d.content
  | .date d => .date d
  | .timestamp t => .timestamp t
  | .instant t => .instant t
  | .member m => .member m.family m.name
  | .nan => .nan

namespace Atom

/-- What a key of a scalar says. -/
def content : Atom → Content
  | .null => .null
  | .number x => x.content
  | .text s => .text s
  | .binary bytes => .binary bytes
  | .date d => .date d
  | .timestamp t => .timestamp t
  | .instant t => .instant t
  | .member family name => .member family name
  | .nan => .nan
  | .stray => .nan

/-- Numbers are in lowest form, and there is no NaN outside canonical form. -/
def IsLowest : Atom → Prop
  | .number x => x.IsLowest
  | .stray => False
  | _ => True

theorem content_injective {a b : Atom} (ha : a.IsLowest) (hb : b.IsLowest)
    (h : a.content = b.content) : a = b := by
  rcases a with _ | (⟨m, e⟩ | s) | _ | _ | _ | _ | _ | _ | _ | _ <;>
    rcases b with _ | (⟨m', e'⟩ | s') | _ | _ | _ | _ | _ | _ | _ | _ <;>
    simp only [content, Exact.content, Content.number.injEq, reduceCtorEq] at h
  -- Content of one kind is told by what the constructor holds, but for finite numbers.
  case number.finite.number.finite =>
    obtain ⟨rfl, rfl⟩ := toRat_injective ha hb h
    rfl
  all_goals first | exact ha.elim | exact hb.elim | (cases h; rfl)

end Atom

namespace Scalar

/-- A double is a decimal fraction, since a half is five tenths. -/
theorem content_float (x : Binary64) : (Scalar.float x).atom.content = x.content := by
  rw [Binary64.content, atom, ofBinary64?]
  by_cases hnan : x.isNaN = true
  · rw [if_pos hnan, if_pos hnan]
    rfl
  · rw [if_neg hnan, if_neg hnan]
    by_cases hinfinite : x.isInfinite = true
    · rw [if_pos hinfinite, if_pos hinfinite]
      rfl
    · rw [if_neg hinfinite, if_neg hinfinite]
      by_cases hexponent : 0 ≤ x.exponent
      · rw [if_pos hexponent]
        obtain ⟨k, hk⟩ := Int.eq_ofNat_of_zero_le hexponent
        have hpow : ((x.coefficient * Nat.pow 2 k : ℕ) : ℚ) * 10 ^ (0 : Int) =
            x.coefficient * 2 ^ (k : Int) := by
          rw [zpow_zero, mul_one, zpow_natCast, Nat.cast_mul]
          congr 1
          exact Nat.cast_pow 2 k
        rw [hk]
        simp only [Int.toNat_natCast, Atom.content, content_ofParts, hpow]
      · rw [if_neg hexponent]
        obtain ⟨k, hk⟩ := Int.exists_eq_neg_ofNat (by omega : x.exponent ≤ 0)
        have hpow : ((x.coefficient * Nat.pow 5 k : ℕ) : ℚ) * 10 ^ (-(k : Int)) =
            x.coefficient * 2 ^ (-(k : Int)) := by
          have hten : (10 : ℚ) ^ k = 5 ^ k * 2 ^ k := by rw [← mul_pow]; norm_num
          have hfive : ((Nat.pow 5 k : ℕ) : ℚ) = 5 ^ k := Nat.cast_pow 5 k
          rw [Nat.cast_mul, hfive, zpow_neg, zpow_neg, zpow_natCast, zpow_natCast, hten]
          field_simp
        rw [hk]
        simp only [Int.neg_neg, Int.toNat_natCast, Atom.content, content_ofParts, hpow]

theorem content_atom (s : Scalar) : s.atom.content = s.content := by
  cases s with
  | float x => exact content_float x
  | decimal d =>
      cases d with
      | finite negative digits exponent => exact content_ofParts negative digits exponent
      | infinite _ | nan _ _ _ => rfl
  | int n => exact content_ofInt n
  | bool b => cases b <;> simp [atom, Atom.content, content_ofInt, content]
  | _ => rfl

theorem isLowest_atom {s : Scalar} (h : s.atom ≠ .stray) : s.atom.IsLowest := by
  cases s with
  | bool b => exact isLowest_ofParts ..
  | int n => exact isLowest_ofParts ..
  | float x =>
      rw [atom, ofBinary64?] at h ⊢
      by_cases hnan : x.isNaN = true
      · rw [if_pos hnan] at h
        exact absurd rfl h
      · rw [if_neg hnan]
        by_cases hinfinite : x.isInfinite = true
        · rw [if_pos hinfinite]
          trivial
        · rw [if_neg hinfinite]
          by_cases hexponent : 0 ≤ x.exponent
          · rw [if_pos hexponent]
            exact isLowest_ofParts ..
          · rw [if_neg hexponent]
            exact isLowest_ofParts ..
  | decimal d =>
      cases d with
      | finite _ _ _ => exact isLowest_ofParts ..
      | infinite _ => trivial
      | nan _ _ _ => exact absurd rfl h
  | _ => trivial

/-- **Scalars are equal when they say the same.**  This holds across all types of numbers. -/
theorem atom_eq_iff {s t : Scalar} (hs : s.atom ≠ .stray) (ht : t.atom ≠ .stray) :
    s.atom = t.atom ↔ s.content = t.content := by
  rw [← content_atom s, ← content_atom t]
  refine ⟨fun h => congrArg Atom.content h, ?_⟩
  exact Atom.content_injective (isLowest_atom hs) (isLowest_atom ht)

/-- The canonical form of a scalar says what the scalar says. -/
theorem content_canonical (s : Scalar) : s.canonical.content = s.content := by
  cases s with
  | float x =>
      rw [canonical]
      split
      · rename_i hnan
        rw [content, content, Binary64.content, if_pos hnan]
      · rfl
  | _ => rfl

end Scalar

end MergeOnRead
