import MergeOnRead.Proofs.Results
import MergeOnRead.Read.RecordIterator
import Mathlib.Data.List.GetD

/-!
# Reading rows by position

A row of a record hands out the values of the record (`rowOf_get`), and a view of its first fields
hands out the first of them (`view_range_get`).  A row whose fields can all be read is the list of
their values (`toList_eq`).
-/

namespace MergeOnRead

namespace Row

theorem isIndex_of_le {i : Nat} (hi : i ≤ maxIndex) : isIndex (i : Int) = true := by
  simp only [isIndex, Bool.and_eq_true, decide_eq_true_eq]
  omega

theorem itemAt_of_lt {α : Type} {outside : RowError} {xs : List α} {i : Nat} (hi : i < xs.length)
    (hmax : xs.length ≤ maxIndex) : itemAt outside xs (i : Int) = .ok xs[i] := by
  have hitem : itemAt? xs (i : Int) = some xs[i] := by
    rw [itemAt?, if_pos (Int.natCast_nonneg i)]
    simp [hi]
  have hindex : isIndex (i : Int) = true := isIndex_of_le (by omega)
  simp only [itemAt, if_pos hindex, hitem]

/-- A view of the first fields of a row hands out what the row does. -/
theorem view_range_get {r : Row} {count i : Nat} (hi : i < count) (hmax : count ≤ maxIndex) :
    (Row.view ((List.range count).map fun (i : Nat) => (i : Int)) (some r)).get i = r.get i := by
  have hitem : itemAt .outsideList ((List.range count).map fun (i : Nat) => (i : Int)) (i : Int) =
      .ok (i : Int) := by
    rw [itemAt_of_lt (by simpa using hi) (by simpa using hmax)]
    simp
  rw [Row.get, hitem, ok_bind, if_neg (by omega)]

/-! ## All values of a row -/

theorem collect_eq {r : Row} {value : Nat → Value} {position count : Nat}
    (hget : ∀ i, position ≤ i → i < position + count → r.get i = .ok (value i)) :
    r.collect .ok position count = .ok ((List.range' position count).map value) := by
  induction count generalizing position with
  | zero => rfl
  | succ count ih =>
      have hrest : r.collect .ok (position + 1) count =
          .ok ((List.range' (position + 1) count).map value) :=
        ih fun i hle hlt => hget i (by omega) (by omega)
      rw [collect, hget position (Nat.le_refl _) (by omega), ok_bind, ok_bind, hrest]
      rfl

/-- A row whose fields can be read is the list of their values. -/
theorem toList_eq {r : Row} {values : List Value} (hbare : r.isBare = false)
    (harity : r.arity = values.length) (hmax : values.length ≤ maxIndex)
    (hget : ∀ (i : Nat) (hi : i < values.length), r.get i = .ok values[i]) :
    r.toList = .ok values := by
  have hsize : r.size = .ok values.length := by
    rw [size, harity, if_neg (by omega), if_neg (by omega), Int.toNat_natCast]
  have hvalues : (List.range' 0 values.length).map (fun i => values.getD i .null) = values := by
    refine List.ext_getElem (by simp) fun i h₁ h₂ => ?_
    simp [List.getD_eq_getElem?_getD, h₂]
  rw [toList, hbare, if_neg (by simp), hsize, ok_bind, collect_eq fun i _ hi => ?_, hvalues]
  have hlt : i < values.length := by omega
  rw [hget i hlt, List.getD_eq_getElem _ _ hlt]

end Row

namespace RecordIterator

/-- The row of a record hands out its values. -/
theorem rowOf_get {width i : Nat} {record : List Value} (hlength : record.length = width)
    (hi : i < width) (hmax : width ≤ maxIndex) :
    (rowOf width record).get (i : Int) = .ok (record.getD i .null) := by
  have hlt : i < record.length := hlength ▸ hi
  rw [rowOf, Row.get, if_neg (by omega), Int.zero_add]
  simp only [Row.itemAt_of_lt hlt (hlength ▸ hmax), List.getD_eq_getElem _ _ hlt]

end RecordIterator

end MergeOnRead
