import MergeOnRead.Proofs.Numerals
import MergeOnRead.Proofs.Results

/-!
# The types that names tell

The type of a column is written down as the name of a type of field, and the name is read when the
field becomes a column again.  Where the name has numbers in it these have to come through the text:
the digits of a second of a timestamp do, and so do the precision and the scale of a decimal, unless
the scale is negative, for which the parameters have no sign.  The name of a decimal does not say
how wide it is.

Strategy:

* `DataType.parameterDigits?_two` reads the numbers behind the word for decimals, and
  `parameterDigits?_negative` says that a minus ends the reading;
* `FlatType.readBack` is the type that is found for the name of a type
  (`FlatType.flatType_typeName`);
* `ColumnType.columnType_dataType_iff` puts the parts of a type together.
-/

namespace MergeOnRead

namespace Text

theorem upperChar_of_all {cs : List Char} (h : (cs.all fun c => upperChar c == [c]) = true)
    {c : Char} (hc : c ∈ cs) : upperChar c = [c] :=
  beq_iff_eq.1 (List.all_eq_true.1 h c hc)

theorem upperAscii_eq_self {cs : List Char} (h : ∀ c ∈ cs, upperChar c = [c]) :
    upperAscii cs = cs := by
  induction cs with
  | nil => rfl
  | cons c cs ih =>
      rw [upperAscii, List.flatMap_cons, h c (List.mem_cons_self ..)]
      exact congrArg (c :: ·) (ih fun d hd => h d (List.mem_cons_of_mem _ hd))

end Text

/-! ## The numbers of a parameter list -/

namespace DataType

/-- The digits of a number end where a sign follows that is no digit. -/
theorem takeWhile_digits (n : Nat) {c : Char} (hc : Text.digitValue? c = none) (cs : List Char) :
    (((Nat.toDigits 10 n ++ c :: cs).takeWhile fun c => (Text.digitValue? c).isSome).filterMap
        Text.digitValue? = decimalDigits n) ∧
      ((Nat.toDigits 10 n ++ c :: cs).dropWhile fun c => (Text.digitValue? c).isSome) =
        c :: cs := by
  have hdigit : ∀ d ∈ Nat.toDigits 10 n, Text.digitValue? d = some (d.toNat - '0'.toNat) :=
    fun d hd => Text.digitValue?_of_isDigit (isDigit_of_mem hd)
  have hsome : ∀ d ∈ Nat.toDigits 10 n, (Text.digitValue? d).isSome = true :=
    fun d hd => by rw [hdigit d hd]; rfl
  rw [List.takeWhile_append_of_pos hsome, List.dropWhile_append_of_pos hsome,
    List.takeWhile_cons_of_neg (by simp [hc]), List.dropWhile_cons_of_neg (by simp [hc]),
    List.append_nil]
  refine ⟨?_, rfl⟩
  rw [decimalDigits, ← List.filterMap_eq_map']
  exact List.filterMap_congr fun d hd => hdigit d hd

theorem dropWhile_blank {c : Char} (hc : Text.isBlank c = false) (cs : List Char) :
    (' ' :: c :: cs).dropWhile Text.isBlank = c :: cs := by
  rw [List.dropWhile_cons_of_pos (by decide +kernel), List.dropWhile_cons_of_neg (by simp [hc])]

theorem parameterDigits?_two (m n : Nat) :
    parameterDigits? ('(' :: (Nat.toDigits 10 m ++ ',' :: ' ' :: (Nat.toDigits 10 n ++ [')']))) =
      some [decimalDigits m, decimalDigits n] := by
  obtain ⟨hfirst, hbehind⟩ := takeWhile_digits m (c := ',') (by decide)
    (' ' :: (Nat.toDigits 10 n ++ [')']))
  obtain ⟨hsecond, hrest⟩ := takeWhile_digits n (c := ')') (by decide) []
  have hblank : (' ' :: (Nat.toDigits 10 n ++ [')'])).dropWhile Text.isBlank =
      Nat.toDigits 10 n ++ [')'] := by
    obtain ⟨c, cs, hcs⟩ := List.exists_cons_of_ne_nil (Nat.toDigits_ne_nil (n := n) (b := 10))
    have hc : c.isDigit = true := isDigit_of_mem (hcs ▸ List.mem_cons_self ..)
    rw [hcs]
    exact dropWhile_blank (Text.isBlank_of_isDigit hc) _
  obtain ⟨d, ds, hd⟩ := List.exists_cons_of_ne_nil (decimalDigits_ne_nil m)
  obtain ⟨e, es, he⟩ := List.exists_cons_of_ne_nil (decimalDigits_ne_nil n)
  simp only [parameterDigits?, hfirst, hbehind, hd]
  simp only [hblank, hsecond, hrest, he]

/-- A sign in front of the second number is no part of a parameter list. -/
theorem parameterDigits?_negative (m : Nat) (cs : List Char) :
    parameterDigits? ('(' :: (Nat.toDigits 10 m ++ ',' :: ' ' :: '-' :: cs)) = none := by
  obtain ⟨hfirst, hbehind⟩ := takeWhile_digits m (c := ',') (by decide) (' ' :: '-' :: cs)
  obtain ⟨d, ds, hd⟩ := List.exists_cons_of_ne_nil (decimalDigits_ne_nil m)
  simp only [parameterDigits?, hfirst, hbehind, hd]
  simp only [dropWhile_blank (show Text.isBlank '-' = false by decide +kernel)]
  rfl

/-! ## Names of types -/

theorem rest?_append (word : String) (cs : List Char) :
    rest? word (word.toList ++ cs) = some cs := by
  rw [rest?, if_pos (by simp), ← String.length_toList, List.drop_left]

/-- A name that starts with a word is no fixed name when the word starts none of them. -/
theorem lookup_namedTypes_eq_none {word : String} (cs : List Char)
    (hword : ∀ e ∈ namedTypes, word.toList.isPrefixOf e.1.toList = false) :
    namedTypes.lookup (String.ofList (word.toList ++ cs)) = none := by
  rw [List.lookup_eq_none_iff]
  intro e he
  have hne : String.ofList (word.toList ++ cs) ≠ e.1 := by
    intro h
    have hprefix : word.toList.isPrefixOf e.1.toList = true := by
      rw [← h, String.toList_ofList]
      simp
    rw [hword e he] at hprefix
    cases hprefix
  simpa using hne

theorem flatType_decimal {name : String} {cs : List Char}
    (hname : name.toList = "DECIMAL".toList ++ cs) (hcs : ∀ c ∈ cs, Text.upperChar c = [c]) :
    flatType name = match parameterDigits? cs with
      | some [precision, scale] => do
        let precision ← parameter precision
        let scale ← parameter scale
        (decimalType precision scale).map some
      | _ => (decimalType 10 0).map some := by
  have hupper : Text.upperAscii name.toList = "DECIMAL".toList ++ cs := by
    rw [hname, Text.upperAscii_eq_self fun c hc =>
      (List.mem_append.1 hc).elim (Text.upperChar_of_all (by decide)) (hcs c)]
  have hchar : rest? "CHAR" ("DECIMAL".toList ++ cs) = none := rfl
  have hvarchar : rest? "VARCHAR" ("DECIMAL".toList ++ cs) = none := rfl
  have hvarbinary : rest? "VARBINARY" ("DECIMAL".toList ++ cs) = none := rfl
  rw [flatType]
  simp only [hupper]
  rw [lookup_namedTypes_eq_none cs (by decide), rest?_append]
  simp only [hchar, hvarchar, hvarbinary]
  rfl

theorem parameter_decimalDigits {n : Nat} (h : (Nat.toDigits 10 n).length ≤ Numeral.maxDigits) :
    parameter (decimalDigits n) = .ok n := by
  rw [parameter, length_decimalDigits, if_neg (by omega), Numeral.digitsValue_decimalDigits]

end DataType

namespace FlatType

/-- A large type stands for the same values as the small one. -/
def narrowed : FlatType → FlatType
  | .text _ => .text false
  | .binary _ => .binary false
  | t => t

/-- A type that can be built: the numbers of a decimal have to be in range. -/
def isBuilt : FlatType → Bool
  | .decimal wide precision scale => (makeDecimal wide precision scale).isOk
  | _ => true

/-- Decimals of 128 bits whose scale is not negative are those that a name tells apart. -/
def isTold : FlatType → Bool
  | .decimal wide _ scale => !wide && decide (0 ≤ scale)
  | _ => true

/-- The type that is found for the name of a type. -/
def readBack : FlatType → Except TypeError FlatType
  | .decimal _ precision scale =>
    if scale < 0 then .ok (.decimal false 10 0) else makeDecimal false precision scale
  | t => .ok t.narrowed

theorem toDigits_length_le {n : Nat} (h : n < 0x100000000) :
    (Nat.toDigits 10 n).length ≤ Numeral.maxDigits := by
  have hten : (Nat.toDigits 10 n).length ≤ 10 :=
    (Nat.length_toDigits_le_iff (by decide) (by decide)).2 (by omega)
  exact Nat.le_trans hten (by decide)

theorem holds_iff {scale : Int} :
    IntWidth.w32.holds scale = true ↔ -0x80000000 ≤ scale ∧ scale < 0x80000000 := by
  rw [IntWidth.holds, Bool.and_eq_true, decide_eq_true_eq, decide_eq_true_eq, and_comm]
  rfl

/-- The decimals that can be built. -/
theorem makeDecimal_eq_ok_iff {wide : Bool} {precision scale : Int} {t : FlatType} :
    makeDecimal wide precision scale = .ok t ↔
      (1 ≤ precision ∧ precision ≤ if wide then 76 else 38) ∧ IntWidth.w32.holds scale = true ∧
        t = .decimal wide precision.toNat scale := by
  rw [makeDecimal]
  by_cases hprecision : 1 ≤ precision ∧ precision ≤ if wide then 76 else 38
  · have hholds : IntWidth.w32.holds precision = true := by
      rw [holds_iff]
      split at hprecision <;> omega
    cases hscale : IntWidth.w32.holds scale <;> simp [hholds, hprecision, eq_comm]
  · simp only [hprecision, false_and, iff_false]
    split <;> (intro h; cases h)

theorem isBuilt_decimal_iff {wide : Bool} {precision : Nat} {scale : Int} :
    (FlatType.decimal wide precision scale).isBuilt = true ↔
      makeDecimal wide precision scale = .ok (.decimal wide precision scale) := by
  rw [isBuilt]
  cases h : makeDecimal wide precision scale with
  | error e => simp [Except.isOk, Except.toBool]
  | ok t =>
      obtain ⟨-, -, rfl⟩ := makeDecimal_eq_ok_iff.1 h
      simp [Except.isOk, Except.toBool]

/-- The signs of a name of decimals stay when it is put in capitals. -/
theorem upperChar_of_parameters {precision : Nat} {cs : List Char}
    (hcs : ∀ c ∈ cs, c = '-' ∨ c.isDigit = true) :
    ∀ c ∈ '(' :: (Nat.toDigits 10 precision ++ ',' :: ' ' :: (cs ++ [')'])),
      Text.upperChar c = [c] := by
  intro c hc
  have hcases : c ∈ ['(', ',', ' ', '-', ')'] ∨ c.isDigit = true := by
    simp only [List.mem_cons, List.mem_append, List.not_mem_nil, or_false] at hc ⊢
    rcases hc with hc | hc | hc | hc | hc | hc
    · exact .inl (.inl hc)
    · exact .inr (isDigit_of_mem hc)
    · exact .inl (.inr (.inl hc))
    · exact .inl (.inr (.inr (.inl hc)))
    · rcases hcs c hc with hc | hc
      · exact .inl (.inr (.inr (.inr (.inl hc))))
      · exact .inr hc
    · exact .inl (.inr (.inr (.inr (.inr hc))))
  exact hcases.elim (Text.upperChar_of_all (by decide)) fun hdigit =>
    Text.upperChar_of_all (by decide) (Text.mem_asciiDigits hdigit)

theorem flatType_decimalName {wide : Bool} {precision : Nat} {scale : Int}
    (hbuilt : (FlatType.decimal wide precision scale).isBuilt = true) :
    DataType.flatType ("DECIMAL(" ++ toString precision ++ ", " ++ toString scale ++ ")") =
      (FlatType.decimal wide precision scale).readBack.map some := by
  obtain ⟨⟨hlow, hhigh⟩, hscale, -⟩ := makeDecimal_eq_ok_iff.1 (isBuilt_decimal_iff.1 hbuilt)
  rw [holds_iff] at hscale
  have hname : ("DECIMAL(" ++ toString precision ++ ", " ++ toString scale ++ ")").toList =
      "DECIMAL".toList ++ '(' :: (Nat.toDigits 10 precision ++
        ',' :: ' ' :: ((toString scale).toList ++ [')'])) := by
    simp [Nat.toString_eq_repr, Nat.toList_repr]
  have hprecision := DataType.parameter_decimalDigits (n := precision)
    (toDigits_length_le (by split at hhigh <;> omega))
  rw [DataType.flatType_decimal hname (upperChar_of_parameters fun c hc =>
    Numeral.eq_minus_or_isDigit hc), Numeral.toList_toString]
  by_cases hnegative : scale < 0
  · rw [if_pos hnegative, List.append_assoc, List.singleton_append,
      DataType.parameterDigits?_negative, readBack, if_pos hnegative]
    rfl
  · have hdigits := DataType.parameter_decimalDigits (n := scale.natAbs)
      (toDigits_length_le (by omega))
    rw [if_neg hnegative, List.nil_append, DataType.parameterDigits?_two, readBack,
      if_neg hnegative]
    simp only
    rw [hprecision, hdigits, ok_bind, ok_bind, DataType.decimalType,
      Int.natAbs_of_nonneg (Int.not_lt.1 hnegative)]

/-- **The type that is found for the name of a type.** -/
theorem flatType_typeName {t : FlatType} {name : String} (hbuilt : t.isBuilt = true)
    (hname : t.typeName? = some name) : DataType.flatType name = t.readBack.map some := by
  cases t with
  | int width => cases width <;> cases hname <;> rfl
  | decimal wide precision scale =>
      cases hname
      exact flatType_decimalName hbuilt
  | timestamp unit zone =>
      cases zone with
      | none => cases unit <;> cases hname <;> decide +kernel
      | some zone => cases hname
  | single | double | bool | text _ | binary _ | date32 =>
      cases hname
      rfl
  | _ => cases hname

/-- A name tells a type when the type is found for it, up to the size of texts and binary data. -/
theorem readBack_eq_narrowed_iff {t : FlatType} (hbuilt : t.isBuilt = true) :
    t.readBack = .ok t.narrowed ↔ t.isTold = true := by
  cases t with
  | decimal wide precision scale =>
      obtain ⟨⟨hlow, hhigh⟩, hscale, -⟩ := makeDecimal_eq_ok_iff.1 (isBuilt_decimal_iff.1 hbuilt)
      simp only [readBack, narrowed]
      by_cases hnegative : scale < 0
      · -- Another scale is found in the place of a negative one.
        have hne : (0 : Int) ≠ scale := by omega
        simp [isTold, hnegative, hne]
      · rw [if_neg hnegative, makeDecimal_eq_ok_iff]
        cases wide with
        | true => simp [isTold]
        | false => simp [isTold, hlow, hscale, Int.not_lt.1 hnegative, by simpa using hhigh]
  | _ => simp [readBack, isTold]

end FlatType

/-! ## Types with parts -/

namespace ColumnType

mutual

/-- All types without parts of which a type is made have a property. -/
def every (p : FlatType → Bool) : ColumnType → Bool
  | .flat type => p type
  | .list _ item => item.every p
  | .map key value => key.every p && value.every p
  | .struct fields => everyField p fields

/-- The same for the fields of a structure. -/
def everyField (p : FlatType → Bool) : List (String × ColumnType) → Bool
  | [] => true
  | (_, type) :: rest => type.every p && everyField p rest

end

/-- A type in which texts, binary data and lists are the small ones. -/
def narrowed : ColumnType → ColumnType
  | .flat type => .flat type.narrowed
  | .list _ item => .list false item.narrowed
  | .map key value => .map key.narrowed value.narrowed
  | .struct fields => .struct fields

end ColumnType

namespace DataType

theorem columnType_atomic_iff {name : String} {nullable : Bool} {t : FlatType} :
    (DataType.atomic name nullable).columnType = .ok (.flat t) ↔ flatType name = .ok (some t) := by
  rw [columnType, bind_eq_ok_iff]
  constructor
  · rintro ⟨found, hfound, h⟩
    cases found with
    | none => cases h
    | some t' =>
        cases h
        exact hfound
  · intro h
    exact ⟨some t, h, rfl⟩

theorem columnType_array_iff {element : DataType} {nullable : Bool} {item : ColumnType} :
    (DataType.array element nullable).columnType = .ok (.list false item) ↔
      element.columnType = .ok item := by
  rw [columnType, bind_eq_ok_iff]
  constructor
  · rintro ⟨item', hitem, h⟩
    cases h
    exact hitem
  · intro h
    exact ⟨item, h, rfl⟩

theorem columnType_map_iff {key value : DataType} {nullable : Bool} {k v : ColumnType} :
    (DataType.map key value nullable).columnType = .ok (.map k v) ↔
      key.columnType = .ok k ∧ value.columnType = .ok v := by
  rw [columnType, bind_eq_ok_iff]
  constructor
  · rintro ⟨k', hk, h⟩
    obtain ⟨v', hv, h⟩ := bind_eq_ok_iff.1 h
    cases h
    exact ⟨hk, hv⟩
  · rintro ⟨hk, hv⟩
    exact ⟨k, hk, by rw [hv]; rfl⟩

end DataType

/-- **Which types of columns are found again.**  A column type that has a type of field is found
for it when its decimals have 128 bits and no negative scale, and only then. -/
theorem ColumnType.columnType_dataType_iff : {a : ColumnType} → {nullable : Bool} →
    {d : DataType} → a.every FlatType.isBuilt = true → a.dataType nullable = .ok d →
      (d.columnType = .ok a.narrowed ↔ a.every FlatType.isTold = true)
  | .flat t, nullable, d, hbuilt, h => by
      rw [dataType] at h
      split at h
      · rename_i name hname
        cases h
        rw [every] at hbuilt
        rw [narrowed, DataType.columnType_atomic_iff, FlatType.flatType_typeName hbuilt hname,
          every, ← FlatType.readBack_eq_narrowed_iff hbuilt, map_eq_ok_iff]
        simp
      · cases h
  | .list large item, nullable, d, hbuilt, h => by
      rw [dataType] at h
      obtain ⟨element, helement, h⟩ := bind_eq_ok_iff.1 h
      cases h
      rw [every] at hbuilt
      rw [narrowed, DataType.columnType_array_iff, every]
      exact columnType_dataType_iff hbuilt helement
  | .map key value, nullable, d, hbuilt, h => by
      rw [dataType] at h
      obtain ⟨k, hk, h⟩ := bind_eq_ok_iff.1 h
      obtain ⟨v, hv, h⟩ := bind_eq_ok_iff.1 h
      cases h
      rw [every, Bool.and_eq_true] at hbuilt
      rw [narrowed, DataType.columnType_map_iff, every, Bool.and_eq_true,
        columnType_dataType_iff hbuilt.1 hk, columnType_dataType_iff hbuilt.2 hv]
  | .struct fields, nullable, d, hbuilt, h => by
      rw [dataType] at h
      cases h

/-- A list of maps to decimals with a scale below zero. -/
def coarseType : ColumnType :=
  .list true (.map (.flat (.text true)) (.flat (.decimal false 10 (-2))))

/-- The type of field that it has. -/
def coarseField : DataType :=
  .array (.map (.atomic "STRING" false) (.atomic "DECIMAL(10, -2)" true) true) false

/-- A scale below zero is lost inside of a list. -/
theorem columnType_dataType_coarse : coarseType.every FlatType.isBuilt = true ∧
    coarseType.dataType false = .ok coarseField ∧
      coarseField.columnType ≠ .ok coarseType.narrowed := by
  have hbuilt : coarseType.every FlatType.isBuilt = true := by decide
  have hfield : coarseType.dataType false = .ok coarseField := rfl
  refine ⟨hbuilt, hfield, fun h => ?_⟩
  exact absurd ((ColumnType.columnType_dataType_iff hbuilt hfield).1 h) (by decide)

end MergeOnRead
