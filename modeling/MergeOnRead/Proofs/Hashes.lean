import MergeOnRead.Proofs.CanonicalKeys
import MergeOnRead.Proofs.ExactValues
import MergeOnRead.Value.Hash
import Mathlib.Data.Nat.ModEq

/-!
# Equal values have equal hashes

Each type of numbers computes a hash in its own way.  All of them come to one, that of the lowest
form (`Hash.ofExact`): the remainders of powers of ten and of its inverse follow the exponent
(`powerOfTen_succ`), so that zeros can be dropped, and two to the power of 61 leaves the remainder
one, so that doubles agree with decimals (`two_pow_mod`, `half_pow`).  From there on the hash of a
value is determined by its key (`Hasher.value?_eq_key?`).
-/

namespace MergeOnRead

namespace Hash

/-! ## Powers of ten and of two -/

theorem powerOfTen_zero : powerOfTen 0 = 1 := by decide

theorem powerOfTen_ofNat (k : Nat) : powerOfTen k ≡ 10 ^ k [MOD modulus] := by
  rw [powerOfTen, if_pos (Int.natCast_nonneg k), Int.toNat_natCast]
  exact Nat.mod_modEq _ _

theorem powerOfTen_neg (k : Nat) : powerOfTen (-k) ≡ tenth ^ k [MOD modulus] := by
  cases k with
  | zero => rfl
  | succ k =>
      have hneg : ¬ (0 : Int) ≤ -((k + 1 : Nat) : Int) := by omega
      rw [powerOfTen, if_neg hneg, Int.neg_neg, Int.toNat_natCast]
      exact Nat.mod_modEq _ _

theorem powerOfTen_succ (e : Int) : 10 * powerOfTen e ≡ powerOfTen (e + 1) [MOD modulus] := by
  rcases Int.eq_nat_or_neg e with ⟨k, rfl | rfl⟩
  · calc 10 * powerOfTen k
        _ ≡ 10 * 10 ^ k [MOD modulus] := (powerOfTen_ofNat k).mul_left 10
        _ = 10 ^ (k + 1) := (pow_succ' 10 k).symm
        _ ≡ powerOfTen (k + 1) [MOD modulus] := (powerOfTen_ofNat (k + 1)).symm
  · cases k with
    | zero => rfl
    | succ k =>
        have hexponent : -((k + 1 : Nat) : Int) + 1 = -(k : Int) := by omega
        have hten : 10 * tenth ≡ 1 [MOD modulus] := by decide
        rw [hexponent]
        calc 10 * powerOfTen (-((k + 1 : Nat) : Int))
            _ ≡ 10 * tenth ^ (k + 1) [MOD modulus] := (powerOfTen_neg (k + 1)).mul_left 10
            _ = 10 * tenth * tenth ^ k := by rw [pow_succ', Nat.mul_assoc]
            _ ≡ 1 * tenth ^ k [MOD modulus] := hten.mul_right _
            _ = tenth ^ k := Nat.one_mul _
            _ ≡ powerOfTen (-(k : Int)) [MOD modulus] := (powerOfTen_neg k).symm

/-- Powers of two are taken modulo 61. -/
theorem two_pow_mod (k : Nat) : 2 ^ k ≡ 2 ^ (k % 61) [MOD modulus] := by
  have hturn : 2 ^ 61 ≡ 1 [MOD modulus] := by decide
  calc 2 ^ k
      _ = (2 ^ 61) ^ (k / 61) * 2 ^ (k % 61) := by rw [← pow_mul, ← pow_add, Nat.div_add_mod]
      _ ≡ 1 ^ (k / 61) * 2 ^ (k % 61) [MOD modulus] := (hturn.pow _).mul_right _
      _ = 2 ^ (k % 61) := by rw [one_pow, Nat.one_mul]

/-- A half is five tenths. -/
theorem half_pow (k : Nat) : 5 ^ k * powerOfTen (-k) ≡ 2 ^ (60 * k) [MOD modulus] := by
  have hhalf : 5 * tenth ≡ 2 ^ 60 [MOD modulus] := by decide
  calc 5 ^ k * powerOfTen (-k)
      _ ≡ 5 ^ k * tenth ^ k [MOD modulus] := (powerOfTen_neg k).mul_left _
      _ = (5 * tenth) ^ k := (mul_pow 5 tenth k).symm
      _ ≡ (2 ^ 60) ^ k [MOD modulus] := hhalf.pow k
      _ = 2 ^ (60 * k) := (pow_mul 2 60 k).symm

/-! ## Hashes of numbers -/

theorem stripZeros_residue (fuel n : Nat) (e : Int) :
    (Exact.stripZeros fuel n e).1 * powerOfTen (Exact.stripZeros fuel n e).2 ≡
      n * powerOfTen e [MOD modulus] := by
  induction fuel generalizing n e with
  | zero => rfl
  | succ fuel ih =>
      rw [Exact.stripZeros]
      split
      · rename_i hzero
        calc _
            _ ≡ n / 10 * powerOfTen (e + 1) [MOD modulus] := ih (n / 10) (e + 1)
            _ ≡ n / 10 * (10 * powerOfTen e) [MOD modulus] := (powerOfTen_succ e).symm.mul_left _
            _ = n * powerOfTen e := by
              rw [← Nat.mul_assoc, Nat.div_mul_cancel (Nat.dvd_of_mod_eq_zero hzero)]
      · rfl

/-- The hash of a number in lowest form. -/
def ofExact : Exact → Hash
  | .finite mantissa exponent => ofParts (decide (mantissa < 0)) mantissa.natAbs exponent
  | .infinite negative => ofResidue negative infinity

theorem ofParts_congr {negative : Bool} {m n : Nat} {e f : Int}
    (h : m * powerOfTen e ≡ n * powerOfTen f [MOD modulus]) :
    ofParts negative m e = ofParts negative n f := by
  rw [ofParts, ofParts, h]

/-- **The hash of a number is that of its lowest form.** -/
theorem ofExact_ofParts (negative : Bool) (n : Nat) (e : Int) :
    ofExact (Exact.ofParts negative n e) = ofParts negative n e := by
  by_cases hn : n = 0
  · rw [Exact.ofParts, if_pos hn, hn, ofExact, ofParts, ofParts, Nat.zero_mul]
    cases negative with
    | false => rfl
    | true => decide
  · have hlowest := Exact.stripZeros_lowest hn Nat.lt_log2_self e
    have hresidue := stripZeros_residue (n.log2 + 1) n e
    rw [Exact.ofParts_eq negative n e hn, ofExact]
    generalize Exact.stripZeros (n.log2 + 1) n e = parts at hlowest hresidue ⊢
    have hpositive : 0 < parts.1 := Nat.pos_of_ne_zero fun hzero => by simp [hzero] at hlowest
    cases negative with
    | false => exact ofParts_congr hresidue
    | true =>
        have hneg : -(parts.1 : Int) < 0 := by omega
        simp only [if_true, hneg, decide_true, Int.natAbs_neg, Int.natAbs_natCast]
        exact ofParts_congr hresidue

theorem ofExact_ofInt (n : Int) : ofExact (Exact.ofInt n) = ofInt n := by
  rw [Exact.ofInt, ofExact_ofParts, ofParts, ofInt, powerOfTen_zero, Nat.mul_one]

theorem ofExact_ofBinary64 {x : Binary64} {e : Exact} (h : Exact.ofBinary64? x = some e) :
    ofExact e = ofBinary64 x := by
  rw [Exact.ofBinary64?] at h
  by_cases hnan : x.isNaN = true
  · rw [if_pos hnan] at h
    cases h
  · rw [if_neg hnan] at h
    rw [ofBinary64]
    by_cases hinfinite : x.isInfinite = true
    · rw [if_pos hinfinite] at h ⊢
      cases h
      rfl
    · rw [if_neg hinfinite] at h ⊢
      by_cases hexponent : 0 ≤ x.exponent
      · rw [if_pos hexponent] at h
        cases h
        obtain ⟨k, hk⟩ := Int.eq_ofNat_of_zero_le hexponent
        have hturns : (x.exponent % 61).toNat = k % 61 := by omega
        rw [ofExact_ofParts, hturns, hk, Int.toNat_natCast, ofParts, powerOfTen_zero, Nat.mul_one]
        congr 1
        exact (two_pow_mod k).mul_left x.coefficient
      · rw [if_neg hexponent] at h
        cases h
        obtain ⟨k, hk⟩ := Int.exists_eq_neg_ofNat (by omega : x.exponent ≤ 0)
        have hturns : (x.exponent % 61).toNat = 60 * k % 61 := by omega
        rw [ofExact_ofParts, hturns, hk, Int.neg_neg, Int.toNat_natCast, ofParts]
        congr 1
        calc x.coefficient * 5 ^ k * powerOfTen (-k)
            _ = x.coefficient * (5 ^ k * powerOfTen (-k)) := Nat.mul_assoc ..
            _ ≡ x.coefficient * 2 ^ (60 * k) [MOD modulus] := (half_pow k).mul_left _
            _ ≡ x.coefficient * 2 ^ (60 * k % 61) [MOD modulus] := (two_pow_mod _).mul_left _

end Hash

/-! ## Hashes of values -/

namespace Hasher

variable {hasher : Hasher}

/-- The hash of scalars with a key. -/
def atom? (hasher : Hasher) : Atom → Option Hash
  | .null => some hasher.null
  | .number x => some (Hash.ofExact x)
  | .text s => some (hasher.text s)
  | .binary bytes => some (hasher.binary bytes)
  | .date d => some (hasher.date d)
  | .timestamp t => some (hasher.timestamp t)
  | .instant t => some (hasher.instant t)
  | .member _ name => some (hasher.text name)
  | .nan => some (hasher.text "NaN")
  | .stray => none

mutual

/-- The hash of values with a key. -/
def key? (hasher : Hasher) : Key → Option Hash
  | .atom a => hasher.atom? a
  | .node .tuple items => (hasher.keys? items).map Hash.ofItems
  | .node _ _ => none

/-- The hashes of sequences with the given keys. -/
def keys? (hasher : Hasher) : List Key → Option (List Hash)
  | [] => some []
  | k :: ks => do
    let h ← hasher.key? k
    let hs ← hasher.keys? ks
    some (h :: hs)

end

theorem scalar?_eq_atom? {s : Scalar} (h : (Value.scalar s).isHashable = true) :
    hasher.scalar? s = hasher.atom? s.atom := by
  cases s with
  | bool b => exact congrArg some (Hash.ofExact_ofInt _).symm
  | int n => exact congrArg some (Hash.ofExact_ofInt n).symm
  | float x =>
      rw [scalar?, Scalar.atom]
      by_cases hnan : x.isNaN = true
      · rw [if_pos hnan, Exact.ofBinary64?, if_pos hnan]
        rfl
      · rw [if_neg hnan]
        have hsettled : (Key.atom (Scalar.float x).atom).isSettled = true :=
          Scalar.isSettled_atom (by simpa [Scalar.isNaN] using hnan)
        rw [Scalar.atom] at hsettled
        cases he : Exact.ofBinary64? x with
        | none =>
            rw [he] at hsettled
            cases hsettled
        | some e =>
            rw [← Hash.ofExact_ofBinary64 he]
            rfl
  | decimal d =>
      cases d with
      | finite negative digits exponent =>
          exact congrArg some (Hash.ofExact_ofParts negative digits exponent).symm
      | infinite _ | nan _ _ _ => rfl
  | binary holder bytes =>
      cases holder with
      | buffer => simp [Value.isHashable] at h
      | fixed | view => rfl
  | _ => rfl

mutual

/-- The hash of a value that can be kept in a set is determined by its key. -/
theorem value?_eq_key? : (v : Value) → v.isHashable = true → hasher.value? v = hasher.key? v.key
  | .scalar s, h => by
      rw [value?, Value.key, key?]
      exact scalar?_eq_atom? h
  | .tuple items, h => by
      rw [value?, Value.key, key?, items?_eq_keys? items (by rwa [Value.isHashable] at h)]
  | .list _, h => by simp [Value.isHashable] at h
  | .dict _, h => by simp [Value.isHashable] at h

theorem items?_eq_keys? : (vs : List Value) → Value.areHashable vs = true →
    hasher.items? vs = hasher.keys? (Value.keys vs)
  | [], _ => rfl
  | v :: vs, h => by
      rw [Value.areHashable, Bool.and_eq_true] at h
      rw [items?, Value.keys, keys?, value?_eq_key? v h.1, items?_eq_keys? vs h.2]

end

mutual

/-- A value that can be kept in a set has a hash, unless a NaN is left in it. -/
theorem exists_value?_eq : (v : Value) → v.isHashable = true → v.key.isSettled = true →
    ∃ h, hasher.value? v = some h
  | .scalar s, h, hs => by
      rw [value?, scalar?_eq_atom? h]
      rw [Value.key] at hs
      generalize s.atom = a at hs
      cases a with
      | stray => cases hs
      | _ => exact ⟨_, rfl⟩
  | .tuple items, h, hs => by
      obtain ⟨hashes, heq⟩ := exists_items?_eq items (by rwa [Value.isHashable] at h)
        (by rwa [Value.key, Key.isSettled] at hs)
      exact ⟨Hash.ofItems hashes, by rw [value?, heq]; rfl⟩
  | .list _, h, _ => by simp [Value.isHashable] at h
  | .dict _, h, _ => by simp [Value.isHashable] at h

theorem exists_items?_eq : (vs : List Value) → Value.areHashable vs = true →
    Key.areSettled (Value.keys vs) = true → ∃ hashes, hasher.items? vs = some hashes
  | [], _, _ => ⟨[], rfl⟩
  | v :: vs, h, hs => by
      rw [Value.areHashable, Bool.and_eq_true] at h
      rw [Value.keys, Key.areSettled, Bool.and_eq_true] at hs
      obtain ⟨hash, heq⟩ := exists_value?_eq v h.1 hs.1
      obtain ⟨hashes, heqs⟩ := exists_items?_eq vs h.2 hs.2
      exact ⟨hash :: hashes, by rw [items?, heq, heqs]; rfl⟩

end

theorem items?_eq_some_iff {vs : List Value} {hashes : List Hash} :
    hasher.items? vs = some hashes ↔
      List.Forall₂ (fun v h => hasher.value? v = some h) vs hashes := by
  induction vs generalizing hashes with
  | nil => simp [items?, eq_comm]
  | cons v vs ih =>
      rw [items?, List.forall₂_cons_left_iff]
      constructor
      · intro h
        obtain ⟨hash, hhash, h⟩ := Option.bind_eq_some_iff.1 h
        obtain ⟨rest, hrest, h⟩ := Option.bind_eq_some_iff.1 h
        cases h
        exact ⟨hash, rest, hhash, ih.1 hrest, rfl⟩
      · rintro ⟨hash, rest, hhash, hrest, rfl⟩
        rw [hhash, ih.2 hrest]
        rfl

end Hasher

/-- The hash of a set does not depend on the order of its items. -/
theorem Hash.ofSet_perm {hashes others : List Hash} (h : hashes.Perm others) :
    ofSet hashes = ofSet others := by
  have hfold : hashes.foldl (fun acc h => acc ^^^ shuffle h) 0 =
      others.foldl (fun acc h => acc ^^^ shuffle h) 0 :=
    h.foldl_eq' (fun x _ y _ z => by
      rw [UInt64.xor_assoc, UInt64.xor_comm (shuffle x), UInt64.xor_assoc]) 0
  rw [ofSet, ofSet, hfold, h.length_eq]

end MergeOnRead
