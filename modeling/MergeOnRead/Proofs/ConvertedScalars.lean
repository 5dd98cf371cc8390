import MergeOnRead.Proofs.Results
import MergeOnRead.Read.Intake

/-!
# Values that are converted to texts and to integers

A value fits a column when the column takes it as it is.  A column of such values that is converted
to texts holds texts and nulls, and one that is converted to integers holds integers and nulls
(`null_or_text_of_convertAll`, `null_or_int_of_convertAll`), whatever its type was.

Strategy:

* `FlatType.exists_text_of_conversion`, `FlatType.exists_int_of_conversion`: one case for every type
  that is ever converted to texts, or to integers;
* `ColumnType.null_or_of_convertAll`: a property of all scalars that a type takes, or that are
  converted to it, is one of the values of a converted column.
-/

namespace MergeOnRead

namespace Scalar

variable {w : Scalar}

theorem exists_text_of_decode {bytes : List UInt8}
    (h : Scalar.decode? bytes = some w) : ∃ t, w = .text t := by
  obtain ⟨t, -, rfl⟩ := Option.map_eq_some_iff.1 h
  exact ⟨t, rfl⟩

theorem exists_int_of_narrow {width : IntWidth} {n : Int}
    (h : narrow? width n = some w) : ∃ m, w = .int m := by
  rw [narrow?] at h
  split at h
  · exact ⟨n, (Option.some.inj h).symm⟩
  · cases h

theorem exists_int_of_integral {width : IntWidth} {x : Binary64}
    (h : integral? width x = some w) : ∃ m, w = .int m := by
  rw [integral?] at h
  split at h
  · exact exists_int_of_narrow h
  · cases h

theorem exists_int_of_integer {width : IntWidth} {d : Decimal}
    (h : integer? width d = some w) : ∃ m, w = .int m := by
  rw [integer?] at h
  split at h
  · exact exists_int_of_narrow h
  · cases h

end Scalar

namespace FlatType

variable {source : FlatType} {convert : Conversion} {s w : Scalar}

/-! ## Scalars that are taken -/

theorem exists_text_of_take {large : Bool}
    (h : (FlatType.text large).take s = .ok w) : ∃ t, w = .text t := by
  cases s with
  | text t =>
      cases h
      exact ⟨t, rfl⟩
  | binary holder bytes =>
      rw [take] at h
      split at h
      · rename_i hdecode
        cases h
        exact Scalar.exists_text_of_decode hdecode
      · cases h
  | _ => cases h

theorem exists_int_of_take {width : IntWidth}
    (h : (FlatType.int width).take s = .ok w) : ∃ n, w = .int n := by
  have hint : ∀ x : Except Error Int, x.map Scalar.int = .ok w → ∃ n, w = .int n := by
    intro x hx
    obtain ⟨n, -, rfl⟩ := map_eq_ok_iff.1 hx
    exact ⟨n, rfl⟩
  rw [take] at h
  unfold Scalar.takeInt at h
  simp only at h
  split at h
  · cases h
  · exact hint _ h
  · exact hint _ (mapError_eq_ok_iff.1 h)

theorem not_take_of_null : FlatType.null.take s ≠ .ok w := by
  cases s <;> nofun

/-! ## Scalars that are converted -/

/-- What is converted to a text is one. -/
theorem exists_text_of_conversion {large : Bool}
    (hconvert : source.conversion? (.text large) = some convert)
    (htake : source.take s = .ok s) (h : convert s = some w) : ∃ t, w = .text t := by
  cases source with
  | text large' =>
      simp only [conversion?] at hconvert
      cases hconvert
      cases h
      exact exists_text_of_take htake
  | binary large' =>
      simp only [conversion?] at hconvert
      cases hconvert
      cases s with
      | binary holder bytes => exact Scalar.exists_text_of_decode h
      | _ => cases h
  | _ =>
      simp only [conversion?] at hconvert
      obtain ⟨write, -, rfl⟩ := Option.map_eq_some_iff.1 hconvert
      obtain ⟨t, -, rfl⟩ := Option.map_eq_some_iff.1 h
      exact ⟨t, rfl⟩

/-- What is converted to an integer is one. -/
theorem exists_int_of_conversion {width : IntWidth}
    (hconvert : source.conversion? (.int width) = some convert)
    (h : convert s = some w) : ∃ n, w = .int n := by
  cases source with
  | text large | binary large =>
      simp only [conversion?, reading?] at hconvert
      cases hconvert
      obtain ⟨cs, -, hcs⟩ := Option.bind_eq_some_iff.1 h
      obtain ⟨n, -, rfl⟩ := Option.map_eq_some_iff.1 hcs
      exact ⟨n, rfl⟩
  | int w' =>
      simp only [conversion?, numeric?] at hconvert
      cases hconvert
      cases s with
      | int n => exact Scalar.exists_int_of_narrow h
      | _ => cases h
  | single | double =>
      simp only [conversion?, numeric?] at hconvert
      cases hconvert
      cases s with
      | float x => exact Scalar.exists_int_of_integral h
      | _ => cases h
  | bool =>
      simp only [conversion?, numeric?] at hconvert
      cases hconvert
      cases s with
      | bool b => exact ⟨_, (Option.some.inj h).symm⟩
      | _ => cases h
  | decimal wide precision scale =>
      simp only [conversion?, numeric?] at hconvert
      cases hconvert
      cases s with
      | decimal d => exact Scalar.exists_int_of_integer h
      | _ => cases h
  | timestamp unit zone =>
      -- Only integers of one width are made of times.
      cases width <;> simp only [conversion?, numeric?] at hconvert <;> cases hconvert
      obtain ⟨t, -, rfl⟩ := Option.map_eq_some_iff.1 h
      exact ⟨_, rfl⟩
  | date32 =>
      cases width <;> simp only [conversion?, numeric?] at hconvert <;> cases hconvert
      cases s with
      | date d => exact ⟨_, (Option.some.inj h).symm⟩
      | _ => cases h
  | _ => simp [conversion?, numeric?] at hconvert

theorem Conversion.of_scalar {s : Scalar} (hs : s ≠ .null) :
    convert.apply? (.scalar s) = (convert s).map .scalar := by
  rw [ Conversion.apply?]
  exact hs

/-- A value that is converted alone is left as it is, or converted by a function. -/
theorem convertAll_one {source target : FlatType} {v w : Value}
    (h : source.convertAll target [v] = .ok [w]) :
    ((source = target ∨ source = .null) ∧ w = v) ∨
      ∃ convert : Conversion, source.conversion? target = some convert ∧
        convert.apply? v = some w := by
  rw [convertAll] at h
  split at h
  · rename_i hsame
    cases h
    exact .inl ⟨hsame, rfl⟩
  · split at h
    · cases h
    · rename_i convert hconvert
      rw [if_neg (by simp)] at h
      split at h
      · cases h
      · split at h
        · rename_i values hvalues
          cases h
          refine .inr ⟨convert, hconvert, ?_⟩
          simpa using mapM_eq_some_iff.1 hvalues
        · cases h

end FlatType

namespace ColumnType

/-! ## Columns -/

theorem take_null (type : ColumnType) : type.take .null = .ok .null := by
  cases type <;> rw [take]

/-- A value without parts is null, or a scalar that its type takes. -/
theorem take_flat_eq_ok {type : FlatType} {v w : Value}
    (h : (ColumnType.flat type).take v = .ok w) :
    v = .null ∨ ∃ s s', v = .scalar s ∧ s ≠ .null ∧ w = .scalar s' ∧ type.take s = .ok s' := by
  cases v with
  | scalar s =>
      by_cases hnull : s = .null
      · exact .inl (congrArg Value.scalar hnull)
      · rw [take] at h
        · obtain ⟨s', hs', rfl⟩ := map_eq_ok_iff.1 h
          exact .inr ⟨s, s', rfl, hnull, rfl, hs'⟩
        · exact hnull
  | _ => simp [take] at h

/-- What holds of all scalars that a type takes, or that are converted to it, holds of the values of
a column that was converted to it. -/
theorem null_or_of_convertAll {P : Scalar → Prop} {target : FlatType}
    (htake : ∀ s w, target.take s = .ok w → P w)
    (hconversion : ∀ (source : FlatType) convert, source.conversion? target = some convert →
      ∀ s w, source.take s = .ok s → convert s = some w → P w)
    {source : ColumnType} {v w : Value} (hfits : source.take v = .ok v)
    (h : source.convertAll (.flat target) [v] = .ok [w]) :
    w = .null ∨ ∃ s, w = .scalar s ∧ P s := by
  cases source with
  | flat source =>
      rw [convertAll] at h
      rcases take_flat_eq_ok hfits with rfl | ⟨s, s', rfl, hnull, hs', hs⟩
      · -- Null stays null.
        rcases FlatType.convertAll_one h with ⟨-, rfl⟩ | ⟨convert, -, hw⟩
        · exact .inl rfl
        · exact .inl (Option.some.inj hw).symm
      · cases hs'
        refine .inr ?_
        rcases FlatType.convertAll_one h with ⟨rfl | rfl, rfl⟩ | ⟨convert, hconvert, hw⟩
        · exact ⟨s, rfl, htake s s hs⟩
        · exact absurd hs FlatType.not_take_of_null
        · rw [FlatType.Conversion.of_scalar hnull] at hw
          obtain ⟨w', hw', rfl⟩ := Option.map_eq_some_iff.1 hw
          exact ⟨w', rfl, hconversion source convert hconvert s w' hs hw'⟩
  | _ => simp [convertAll] at h

/-- What fits its column and is converted to a text is one, or null. -/
theorem null_or_text_of_convertAll {source : ColumnType} {large : Bool} {v w : Value}
    (hfits : source.take v = .ok v)
    (h : source.convertAll (.flat (.text large)) [v] = .ok [w]) :
    w = .null ∨ ∃ t, w = .text t := by
  refine (null_or_of_convertAll (P := fun s => ∃ t, s = .text t)
    (fun _ _ => FlatType.exists_text_of_take)
    (fun _ _ hconvert _ _ => FlatType.exists_text_of_conversion hconvert) hfits h).imp_right ?_
  rintro ⟨s, rfl, t, rfl⟩
  exact ⟨t, rfl⟩

/-- What fits its column and is converted to an integer is one, or null. -/
theorem null_or_int_of_convertAll {source : ColumnType} {width : IntWidth}
    {v w : Value} (hfits : source.take v = .ok v)
    (h : source.convertAll (.flat (.int width)) [v] = .ok [w]) :
    w = .null ∨ ∃ n, w = .int n := by
  refine (null_or_of_convertAll (P := fun s => ∃ n, s = .int n)
    (fun _ _ => FlatType.exists_int_of_take)
    (fun _ _ hconvert _ _ _ => FlatType.exists_int_of_conversion hconvert) hfits h).imp_right ?_
  rintro ⟨s, rfl, n, rfl⟩
  exact ⟨n, rfl⟩

end ColumnType

end MergeOnRead
