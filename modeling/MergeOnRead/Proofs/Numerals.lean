import MergeOnRead.Schema.ColumnField

/-!
# Numbers are read back from their digits

A number is written in ASCII digits, with a minus in front of it if it is negative.  The digits have
the values that were written (`Numeral.digitsValue_decimalDigits`), and no digit is a blank, so that
an integer is read back from its text unless this has too many digits (`Numeral.readInt_eq`).  Field
ids travel with columns as such texts (`ColumnField.readId_toString`).
-/

namespace MergeOnRead

/-! ## Digits as characters -/

namespace Text

/-- The ten digits of ASCII. -/
def asciiDigits : List Char := ['0', '1', '2', '3', '4', '5', '6', '7', '8', '9']

theorem mem_asciiDigits {c : Char} (h : c.isDigit = true) : c ∈ asciiDigits := by
  have hrange : 48 ≤ c.toNat ∧ c.toNat ≤ 57 := by
    simpa [Char.isDigit, UInt32.le_iff_toNat_le] using h
  have hall : ∀ n < 58, 48 ≤ n → asciiDigits.contains (Char.ofNat n) = true := by decide
  have hmem := hall c.toNat (by omega) hrange.1
  rwa [Char.ofNat_toNat, List.contains_iff_mem] at hmem

/-- What is true of the ten digits of ASCII is true of every digit. -/
theorem of_isDigit {p : Char → Bool} (hall : asciiDigits.all p = true) {c : Char}
    (h : c.isDigit = true) : p c = true :=
  List.all_eq_true.1 hall c (mem_asciiDigits h)

theorem digitValue?_of_isDigit {c : Char} (h : c.isDigit = true) :
    digitValue? c = some (c.toNat - '0'.toNat) :=
  of_decide_eq_true
    (of_isDigit (p := fun c => decide (digitValue? c = some (c.toNat - '0'.toNat))) (by decide) h)

theorem isBlank_of_isDigit {c : Char} (h : c.isDigit = true) : isBlank c = false :=
  Bool.not_eq_true' _ ▸ of_isDigit (p := fun c => !isBlank c) (by decide +kernel) h

theorem trimBlanks_eq_self {cs : List Char} (h : ∀ c ∈ cs, isBlank c = false) :
    trimBlanks cs = cs := by
  have hdrop : ∀ {cs : List Char}, (∀ c ∈ cs, isBlank c = false) → cs.dropWhile isBlank = cs := by
    intro cs h
    cases cs with
    | nil => rfl
    | cons c cs => rw [List.dropWhile_cons_of_neg (by simp [h c (List.mem_cons_self ..)])]
  rw [trimBlanks, hdrop h, hdrop fun c hc => h c (List.mem_reverse.1 hc), List.reverse_reverse]

end Text

/-! ## The digits of a number -/

/-- The values of the decimal digits of a number, most significant first. -/
def decimalDigits (n : Nat) : List Nat := (Nat.toDigits 10 n).map fun c => c.toNat - '0'.toNat

theorem isDigit_of_mem {n : Nat} {c : Char} (h : c ∈ Nat.toDigits 10 n) : c.isDigit = true :=
  Nat.isDigit_of_mem_toDigits (by decide) (by decide) h

theorem length_decimalDigits (n : Nat) : (decimalDigits n).length = (Nat.toDigits 10 n).length :=
  List.length_map ..

theorem decimalDigits_ne_nil (n : Nat) : decimalDigits n ≠ [] := by
  simp [decimalDigits, Nat.toDigits_ne_nil]

namespace Numeral

theorem digitsValue_decimalDigits (n : Nat) : digitsValue (decimalDigits n) = n := by
  rw [digitsValue, decimalDigits, List.foldl_map]
  exact Nat.ofDigitChars_toDigits (by decide) (by decide)

theorem takeDigits_digits (ds : List Nat) : takeDigits (ds.map .digit) = (ds, []) := by
  induction ds with
  | nil => rfl
  | cons d ds ih =>
      cases ds with
      | nil => rfl
      | cons e es =>
          rw [List.map_cons] at ih
          rw [List.map_cons, List.map_cons, takeDigits]
          · rw [ih]
          · intro c more h
            cases h

theorem map_symbol_toDigits (n : Nat) :
    (Nat.toDigits 10 n).map symbol = (decimalDigits n).map .digit := by
  rw [decimalDigits, List.map_map]
  refine List.map_congr_left fun c hc => ?_
  rw [symbol, Text.digitValue?_of_isDigit (isDigit_of_mem hc)]
  rfl

/-- The text of an integer: a minus, if it is negative, and its digits. -/
theorem toList_toString (n : Int) : (toString n).toList =
    (if n < 0 then ['-'] else []) ++ Nat.toDigits 10 n.natAbs := by
  by_cases hnegative : n < 0
  · obtain ⟨m, rfl⟩ := Int.eq_negSucc_of_lt_zero hnegative
    simp [Int.toString_eq_repr, Int.repr, Nat.toList_repr]
  · obtain ⟨m, rfl⟩ := Int.eq_ofNat_of_zero_le (Int.not_lt.1 hnegative)
    rw [if_neg hnegative, Int.toString_eq_repr, ← Int.ofNat_eq_natCast, Int.repr, Nat.toList_repr]
    rfl

theorem eq_minus_or_isDigit {n : Int} {c : Char} (h : c ∈ (toString n).toList) :
    c = '-' ∨ c.isDigit = true := by
  rw [toList_toString] at h
  rcases List.mem_append.1 h with h | h
  · split at h
    · exact .inl (by simpa using h)
    · cases h
  · exact .inr (isDigit_of_mem h)

/-- **The text of an integer is read back**, unless it has too many digits. -/
theorem readInt_eq {s : String} {n : Int} (h : s.toList = (toString n).toList) :
    readInt s = if maxDigits < (Nat.toDigits 10 n.natAbs).length then
      .error (.tooLong (Nat.toDigits 10 n.natAbs).length) else .ok n := by
  have hblank : ∀ c ∈ (toString n).toList, Text.isBlank c = false := by
    intro c hc
    rcases eq_minus_or_isDigit hc with rfl | hdigit
    · decide +kernel
    · exact Text.isBlank_of_isDigit hdigit
  have hsymbols : symbols s = (if n < 0 then [.other '-'] else []) ++
      (decimalDigits n.natAbs).map .digit := by
    rw [symbols, h, Text.trimBlanks_eq_self hblank, toList_toString, List.map_append,
      map_symbol_toDigits]
    split <;> rfl
  have hsign : takeSign (symbols s) = (decide (n < 0), (decimalDigits n.natAbs).map .digit) := by
    rw [hsymbols]
    by_cases hnegative : n < 0
    · simp [hnegative, takeSign]
    · obtain ⟨d, ds, hds⟩ := List.exists_cons_of_ne_nil (decimalDigits_ne_nil n.natAbs)
      simp [hnegative, hds, takeSign]
  obtain ⟨d, ds, hds⟩ := List.exists_cons_of_ne_nil (decimalDigits_ne_nil n.natAbs)
  simp only [readInt, hsign, takeDigits_digits, hds]
  rw [← hds, length_decimalDigits, digitsValue_decimalDigits]
  split
  · rfl
  · rw [if_pos (by rfl)]
    by_cases hnegative : n < 0
    · rw [if_pos (by simpa using hnegative)]
      congr 1
      omega
    · rw [if_neg (by simpa using hnegative)]
      congr 1
      omega

end Numeral

/-- The text of a field id is read back, unless it has too many digits. -/
theorem ColumnField.readId_toString (n : Int) : readId (toString n) =
    if Numeral.maxDigits < (Nat.toDigits 10 n.natAbs).length then
      .error (.tooManyDigits (Nat.toDigits 10 n.natAbs).length) else .ok n := by
  have hplain : ((toString n).map fun c =>
      if isIdBlank c || (32 < c.toNat && c.toNat < 127) then c else 'x').toList =
        (toString n).toList := by
    rw [String.toList_map]
    refine (List.map_congr_left fun c hc => ?_).trans (List.map_id _)
    rcases Numeral.eq_minus_or_isDigit hc with rfl | hdigit
    · rfl
    · have hprinted : (isIdBlank c || (32 < c.toNat && c.toNat < 127)) = true :=
        Text.of_isDigit (p := fun c => isIdBlank c || (32 < c.toNat && c.toNat < 127)) (by decide)
          hdigit
      simp only [hprinted, if_true]
      rfl
  simp only [readId, Numeral.readInt_eq hplain]
  by_cases hlong : Numeral.maxDigits < (Nat.toDigits 10 n.natAbs).length
  · simp only [if_pos hlong]
  · simp only [if_neg hlong]

end MergeOnRead
