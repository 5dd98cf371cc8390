import MergeOnRead.Proofs.SurvivingRows
import MergeOnRead.Read.ReadSession

/-!
# Positions survive any way of reading

The rows of a file are counted twice while it is read: in the reader, which adds up the batches that
it has read, and in each iterator, which goes on from where its batch starts.  Tables and iterators
share the first count, and iterators that were obtained earlier are asked for rows while the reader
goes on.  Whatever is called in whatever order, the rows that come out are those of their own batch
that survive, and their positions are those in the file (`ReadSession.isFaithful_run`).

Strategy:

* `Reader.HasRead.reads`: either way of reading takes the next batch, from the position where the
  batches before it end;
* `RecordIterator.Passes`: one call of an iterator goes over the deleted rows up to the next one
  that survives (`exists_next_eq`);
* `OpenIterator.StandsAt` is what holds of an iterator between its calls, and says how many rows it
  has gone over.  It does not speak of the reader, so that reading on cannot break it;
* `ReadSession.Invariant.step`: each call keeps the count of the reader and all iterators right.

A call may fail: a day cannot be named, or a row has no key.  The counts stay right then, and the
rows that come out later as well, but the row where it failed is missing.
-/

namespace MergeOnRead

/-! ## A file in batches -/

/-- A reader hands out some batches one after the other, and then none any more. -/
inductive Reader.HandsOut : Reader → List Batch → Prop where
  | done {r : Reader} (hread : r.readBatch = (.ok none, r)) : r.HandsOut []
  | more {r rest : Reader} {b : Batch} {bs : List Batch}
      (hread : r.readBatch = (.ok (some b), rest)) (hrest : rest.HandsOut bs) :
      r.HandsOut (b :: bs)

/-- A stream without failures hands out its batches. -/
theorem Reader.handsOut_stream (bs : List Batch) (closings : Nat) :
    (Reader.stream (bs.map .ok) closings).HandsOut bs := by
  induction bs with
  | nil => exact .done rfl
  | cons b bs ih => exact .more rfl ih

namespace Batch

variable {whole b : Batch} {bs : List Batch} {number : Nat}

/-- The number of rows in the batches before the one with a number. -/
def startOf (bs : List Batch) (number : Nat) : Nat := ((bs.take number).map size).sum

/-- The batches have the rows of a file between them, in order.  Some of them may be empty. -/
structure IsSplitInto (whole : Batch) (bs : List Batch) : Prop where
  header : ∀ b ∈ bs, b.header = whole.header
  rows : bs.flatMap (·.rows) = whole.rows

theorem startOf_succ (hb : bs[number]? = some b) :
    startOf bs (number + 1) = startOf bs number + b.size := by
  rw [startOf, startOf, List.take_add_one, hb]
  simp

theorem startOf_of_length_le (hend : bs.length ≤ number) :
    startOf bs (number + 1) = startOf bs number := by
  rw [startOf, startOf, List.take_of_length_le hend, List.take_of_length_le (by omega)]

/-- Every batch is the rows of the file from where the batches before it end. -/
theorem IsSplitInto.isPartOf (hsplit : whole.IsSplitInto bs) (hb : bs[number]? = some b) :
    b.IsPartOf whole (startOf bs number) := by
  obtain ⟨hlt, hget⟩ := List.getElem?_eq_some_iff.1 hb
  refine ⟨hsplit.header b (List.mem_of_getElem? hb), (bs.take number).flatMap (·.rows),
    (bs.drop (number + 1)).flatMap (·.rows), ?_, ?_⟩
  · rw [← hsplit.rows, ← hget, ← List.flatMap_singleton (·.rows) bs[number], ← List.flatMap_append,
      ← List.flatMap_append, List.append_assoc, List.singleton_append, ← List.drop_eq_getElem_cons,
      List.take_append_drop]
  · rw [List.length_flatMap, startOf]
    rfl

/-! ## What an iterator is to hand out -/

section Live

variable (whole : Batch) (fields : List Field) (dataPath : String) (indexes : List DeleteIndex)

/-- Of some rows from a position on those that survive, each with its own position. -/
def liveItems (start count : Nat) : List (Except Error Int × Row) :=
  (whole.survivors fields dataPath indexes start count).map fun (p : Nat) =>
    (.ok (p : Int), whole.rowAt p)

variable {whole fields dataPath indexes} {start p q count more : Nat}

theorem survivors_add : whole.survivors fields dataPath indexes start (count + more) =
    whole.survivors fields dataPath indexes start count ++
      whole.survivors fields dataPath indexes (start + count) more := by
  rw [survivors, ← List.range'_append_1, List.filter_append]
  rfl

theorem survivors_succ : whole.survivors fields dataPath indexes start (count + 1) =
    (if whole.survives fields start dataPath indexes then [start] else []) ++
      whole.survivors fields dataPath indexes (start + 1) count := by
  rw [survivors, List.range'_succ, List.filter_cons]
  split <;> rfl

theorem liveItems_add : whole.liveItems fields dataPath indexes start (count + more) =
    whole.liveItems fields dataPath indexes start count ++
      whole.liveItems fields dataPath indexes (start + count) more := by
  rw [liveItems, survivors_add, List.map_append]
  rfl

end Live

end Batch

/-! ## One call of an iterator -/

/-- A row that came back, with a position. -/
def RecordIterator.handed (position : Except Error Int) :
    Except Error (Option Row) → List (Except Error Int × Row)
  | .ok (some row) => [(position, row)]
  | _ => []

namespace RecordIterator

open Batch

/-- An iterator that drops deleted rows, when the records of some positions are still to come. -/
def liveAt (f : DeleteFilter) (whole : Batch) (p count : Nat) (failure : Option Error) :
    RecordIterator :=
  ⟨whole.header.length, (List.range' p count).map whole.recordAt, failure, some ((p : Int) - 1),
    [.live f]⟩

/-- From a position on, a call goes over some rows, up to the first one that is not deleted. -/
inductive Passes (f : DeleteFilter) (whole : Batch) : Nat → Nat → Except Error (Option Row) → Prop
  | ended {p : Nat} : Passes f whole p 0 (.ok none)
  | dropped {p count : Nat} {r : Except Error (Option Row)}
      (hdeleted : f.isDeleted p (whole.rowAt p) = .ok true)
      (hrest : Passes f whole (p + 1) count r) : Passes f whole p (count + 1) r
  | found {p : Nat} (hlive : f.isDeleted p (whole.rowAt p) = .ok false) :
      Passes f whole p 1 (.ok (some (whole.rowAt p)))
  | failed {p : Nat} {e : RowError} (hfail : f.isDeleted p (whole.rowAt p) = .error e) :
      Passes f whole p 1 (.error (.row e))

variable {file : DataFile} {indexes : List DeleteIndex} {fields : List Field} {check : Bool}
  {f : DeleteFilter} {whole : Batch} {p count : Nat} {failure : Option Error}
  {r : Except Error (Option Row)}

/-- A record passes unless the filter deletes its row. -/
theorem pass_rowAt (f : DeleteFilter) (whole : Batch) (p : Nat) :
    pass (some (p : Int)) [.live f] (whole.rowAt p) =
      (liftError .row (f.isDeleted p (whole.rowAt p))).map fun deleted =>
        if deleted then none else some (whole.rowAt p) := by
  simp only [pass, positionOrError, ok_bind]
  cases f.isDeleted p (whole.rowAt p) with
  | error e => rfl
  | ok deleted => cases deleted <;> rfl

/-- A call goes over the records to come.  It comes to the end only behind all of them. -/
theorem exists_advance_eq (f : DeleteFilter) (whole : Batch) (p count : Nat) :
    ∃ passed r, passed ≤ count ∧ (r = .ok none → passed = count) ∧ Passes f whole p passed r ∧
      advance whole.header.length [.live f] (some ((p : Int) - 1))
          ((List.range' p count).map whole.recordAt) =
        (r, some (((p + passed : Nat) : Int) - 1),
          (List.range' (p + passed) (count - passed)).map whole.recordAt) := by
  induction count generalizing p with
  | zero => exact ⟨0, .ok none, Nat.le_refl _, fun _ => rfl, .ended, rfl⟩
  | succ count ih =>
      have hfollowing : following (some ((p : Int) - 1)) = some (p : Int) := by simp [following]
      have hbehind : ((p + 1 : Nat) : Int) - 1 = p := by omega
      have hpass := pass_rowAt f whole p
      rw [rowAt] at hpass
      rw [List.range'_succ, List.map_cons, advance, hfollowing, hpass]
      cases hdeleted : f.isDeleted p (whole.rowAt p) with
      | error e =>
          refine ⟨1, .error (.row e), by omega, by simp, .failed hdeleted, ?_⟩
          rw [hbehind, ← rowAt, hdeleted]
          rfl
      | ok deleted =>
          rw [← rowAt, hdeleted]
          cases deleted with
          | false =>
              refine ⟨1, .ok (some (whole.rowAt p)), by omega, by simp, .found hdeleted, ?_⟩
              rw [hbehind]
              rfl
          | true =>
              obtain ⟨passed, r, hle, hend, hpasses, hadvance⟩ := ih (p + 1)
              refine ⟨passed + 1, r, by omega, fun h => by rw [hend h],
                .dropped hdeleted hpasses, ?_⟩
              rw [hbehind] at hadvance
              rw [show p + (passed + 1) = p + 1 + passed by omega, Nat.add_sub_add_right,
                ← hadvance]
              rfl

/-- What a call hands out are the rows that survive among those that it went over. -/
theorem Passes.liveItems_eq (h : Passes f whole p count r)
    (hcreate : DeleteFilter.create file indexes fields check = .ok f)
    (hwhole : whole.LaidOut fields) (hend : p + count ≤ whole.size) (hr : ∀ e, r ≠ .error e) :
    whole.liveItems fields file.path indexes p count =
      handed (.ok (((p + count : Nat) : Int) - 1)) r := by
  have hsurvives : ∀ p < whole.size, ∀ deleted, f.isDeleted p (whole.rowAt p) = .ok deleted →
      whole.survives fields p file.path indexes = !deleted := by
    intro p hp deleted hdeleted
    rw [DeleteFilter.eq_survives_of_isDeleted hcreate hwhole hp hdeleted, Bool.not_not]
  induction h with
  | ended => rfl
  | @dropped p count r hdeleted hrest ih =>
      rw [liveItems, survivors_succ, hsurvives p (by omega) true hdeleted]
      have hlater := ih (by omega) hr
      rw [show p + 1 + count = p + (count + 1) by omega] at hlater
      exact hlater
  | @found p hlive =>
      rw [liveItems, survivors_succ, hsurvives p (by omega) false hlive]
      simp [handed, survivors]
  | failed hfail => exact absurd rfl (hr _)

/-- Over rows about which the filter has an answer, no call fails. -/
theorem Passes.ne_error (h : Passes f whole p count r)
    (hanswers : ∀ q < whole.size, ∃ deleted, f.isDeleted q (whole.rowAt q) = .ok deleted)
    (hend : p + count ≤ whole.size) (e : Error) : r ≠ .error e := by
  induction h with
  | ended => nofun
  | dropped hdeleted hrest ih => exact ih (by omega)
  | found hlive => nofun
  | @failed p e hfail =>
      obtain ⟨deleted, hdeleted⟩ := hanswers p (by omega)
      rw [hdeleted] at hfail
      cases hfail

/-- The next row comes from the records, or else the error behind them comes, once. -/
theorem exists_next_eq (f : DeleteFilter) (whole : Batch) (p count : Nat)
    (failure : Option Error) :
    ∃ passed, passed ≤ count ∧
      ((∃ r, Passes f whole p passed r ∧ (r = .ok none → passed = count ∧ failure = none) ∧
          (liveAt f whole p count failure).next =
            (r, liveAt f whole (p + passed) (count - passed) failure)) ∨
        ∃ e, failure = some e ∧ passed = count ∧
          (liveAt f whole p count failure).next =
            (.error e, liveAt f whole (p + passed) (count - passed) none)) := by
  obtain ⟨passed, r, hle, hend, hpasses, hadvance⟩ := exists_advance_eq f whole p count
  refine ⟨passed, hle, ?_⟩
  rw [next, liveAt]
  simp only [hadvance]
  split
  · exact .inr ⟨_, rfl, hend rfl, rfl⟩
  · rename_i hnone
    refine .inl ⟨r, hpasses, fun h => ⟨hend h, ?_⟩, rfl⟩
    cases failure with
    | none => rfl
    | some e => exact absurd rfl (hnone e h)

end RecordIterator

/-! ## All calls of an iterator -/

namespace OpenIterator

open RecordIterator

/-- The rows that were handed out, each with the position that the iterator stated after it. -/
def handedOut (o : OpenIterator) : List (Except Error Int × Row) :=
  o.answers.flatMap fun (r, position) => handed position r

/-- Some call failed. -/
def Failed (o : OpenIterator) : Prop := ∃ a ∈ o.answers, ∃ e, a.1 = .error e

/-- Some call came to the end. -/
def Drained (o : OpenIterator) : Prop := ∃ a ∈ o.answers, a.1 = .ok none

/-- What was handed out are some of the right items, in order.  Unless a call failed they are the
first ones, and all of them once the end was reached; and it will be reached. -/
structure HandsOut (o : OpenIterator) (items : List (Except Error Int × Row)) : Prop where
  sublist : o.handedOut.Sublist items
  begins : ¬o.Failed → o.handedOut <+: items
  drained : ¬o.Failed → o.Drained → o.handedOut = items
  ends : ¬o.Failed → items.length < o.answers.length → o.Drained

variable {o : OpenIterator} {a : Except Error (Option Row) × Except Error Int}

/-- Each call that neither fails nor comes to the end hands out a row. -/
theorem length_handedOut (hok : ¬o.Failed) (hmore : ¬o.Drained) :
    o.handedOut.length = o.answers.length := by
  have hone : o.answers.map (fun (r, position) => (handed position r).length) =
      o.answers.map fun _ => 1 := by
    refine List.map_congr_left fun (r, position) ha => ?_
    cases r with
    | error e => exact absurd ⟨_, ha, e, rfl⟩ hok
    | ok row =>
        cases row with
        | none => exact absurd ⟨_, ha, rfl⟩ hmore
        | some row => rfl
  rw [handedOut, List.length_flatMap, hone, List.map_const', List.sum_replicate_nat, Nat.mul_one]

theorem next_eq {it : RecordIterator} {r : Except Error (Option Row)}
    (h : o.iterator.next = (r, it)) : o.next = ⟨it, o.answers ++ [(r, it.lastPosition)]⟩ := by
  rw [next, h]

theorem handedOut_append {it : RecordIterator} :
    handedOut ⟨it, o.answers ++ [a]⟩ = o.handedOut ++ handed a.2 a.1 := by
  simp [handedOut]

theorem failed_append {it : RecordIterator} :
    Failed ⟨it, o.answers ++ [a]⟩ ↔ o.Failed ∨ ∃ e, a.1 = .error e := by
  simp only [Failed, List.mem_append, List.mem_singleton]
  constructor
  · rintro ⟨b, hb | rfl, he⟩
    · exact .inl ⟨b, hb, he⟩
    · exact .inr he
  · rintro (⟨b, hb, he⟩ | he)
    · exact ⟨b, .inl hb, he⟩
    · exact ⟨a, .inr rfl, he⟩

theorem drained_append {it : RecordIterator} :
    Drained ⟨it, o.answers ++ [a]⟩ ↔ o.Drained ∨ a.1 = .ok none := by
  simp only [Drained, List.mem_append, List.mem_singleton]
  constructor
  · rintro ⟨b, hb | rfl, he⟩
    · exact .inl ⟨b, hb, he⟩
    · exact .inr he
  · rintro (⟨b, hb, he⟩ | he)
    · exact ⟨b, .inl hb, he⟩
    · exact ⟨a, .inr rfl, he⟩

section Runs

variable (f : DeleteFilter) (whole : Batch) (fields : List Field) (dataPath : String)
  (indexes : List DeleteIndex) (start size : Nat)

/-- An iterator over the rows of a batch has gone over some of them, and other records are to come,
with an error behind them if there is one. -/
structure StandsAt (passed count : Nat) (failure : Option Error) (o : OpenIterator) : Prop where
  iterator : o.iterator = liveAt f whole (start + passed) count failure
  end_le : passed + count ≤ size
  end_eq : ¬o.Failed → failure = none → passed + count = size
  sublist : o.handedOut.Sublist (whole.liveItems fields dataPath indexes start passed)
  complete : ¬o.Failed → o.handedOut = whole.liveItems fields dataPath indexes start passed
  drained : o.Drained → count = 0 ∧ failure = none
  safe : whole.IsReadable fields dataPath indexes → failure = none ∧ ¬o.Failed

end Runs

variable {file : DataFile} {indexes : List DeleteIndex} {fields : List Field} {check : Bool}
  {f : DeleteFilter} {whole : Batch} {start size passed count : Nat} {failure : Option Error}

/-- A call takes an iterator further. -/
theorem StandsAt.next (hcreate : DeleteFilter.create file indexes fields check = .ok f)
    (hwhole : whole.LaidOut fields) (hsize : start + size ≤ whole.size)
    (h : StandsAt f whole fields file.path indexes start size passed count failure o) :
    ∃ passed' count' failure',
      StandsAt f whole fields file.path indexes start size passed' count' failure' o.next := by
  obtain ⟨gone, hgone, hnext⟩ := exists_next_eq f whole (start + passed) count failure
  have hend := h.end_le
  refine ⟨passed + gone, count - gone, ?_⟩
  rcases hnext with ⟨r, hpasses, hended, hnext⟩ | ⟨e, rfl, rfl, hnext⟩
  · have hhanded : (∀ e, r ≠ .error e) →
        handed (liveAt f whole (start + passed + gone) (count - gone) failure).lastPosition r =
          whole.liveItems fields file.path indexes (start + passed) gone := fun hr =>
      (hpasses.liveItems_eq hcreate hwhole (by omega) hr).symm
    rw [next_eq (h.iterator ▸ hnext)]
    refine ⟨failure, ⟨by rw [Nat.add_assoc], by omega, fun hok hnone => ?_, ?_, fun hok => ?_,
      fun hdrained => ?_, fun hread => ?_⟩⟩
    · rw [failed_append, not_or] at hok
      have := h.end_eq hok.1 hnone
      omega
    · rw [handedOut_append, Batch.liveItems_add]
      refine h.sublist.append ?_
      cases r with
      | error e => exact List.nil_sublist _
      | ok row => exact (hhanded nofun) ▸ List.Sublist.refl _
    · rw [failed_append, not_or] at hok
      rw [handedOut_append, Batch.liveItems_add, h.complete hok.1,
        hhanded fun e he => hok.2 ⟨e, he⟩]
    · rw [drained_append] at hdrained
      rcases hdrained with hdrained | hnone
      · obtain ⟨rfl, hfailure⟩ := h.drained hdrained
        exact ⟨Nat.zero_sub _, hfailure⟩
      · obtain ⟨rfl, hfailure⟩ := hended hnone
        exact ⟨Nat.sub_self _, hfailure⟩
    · obtain ⟨hnone, hok⟩ := h.safe hread
      refine ⟨hnone, fun hfailed => (failed_append.1 hfailed).elim hok ?_⟩
      rintro ⟨e, he⟩
      exact hpasses.ne_error (fun q hq =>
        ⟨_, DeleteFilter.isDeleted_eq_survives hcreate hwhole hread hq⟩) (by omega) e he
  · -- The error comes from the records, not from the filter, and there are none behind it.
    rw [next_eq (h.iterator ▸ hnext)]
    generalize hnow : liveAt f whole (start + passed + gone) (gone - gone) none = it
    have hfailed : Failed ⟨it, o.answers ++ [(.error e, it.lastPosition)]⟩ :=
      failed_append.2 (.inr ⟨e, rfl⟩)
    refine ⟨none, ⟨by rw [← hnow, Nat.add_assoc], by omega, fun hok => absurd hfailed hok, ?_,
      fun hok => absurd hfailed hok, fun _ => ⟨Nat.sub_self _, rfl⟩, fun hread => ?_⟩⟩
    · rw [handedOut_append, Batch.liveItems_add]
      exact h.sublist.append (List.nil_sublist _)
    · cases (h.safe hread).1

/-- However far an iterator has come, what it handed out is right. -/
theorem StandsAt.handsOut
    (h : StandsAt f whole fields dataPath indexes start size passed count failure o) :
    o.HandsOut (whole.liveItems fields dataPath indexes start size) := by
  have hbegins : whole.liveItems fields dataPath indexes start passed <+:
      whole.liveItems fields dataPath indexes start size := by
    obtain ⟨more, hmore⟩ := Nat.exists_eq_add_of_le (Nat.le_of_add_right_le h.end_le)
    rw [hmore, Batch.liveItems_add]
    exact List.prefix_append _ _
  refine ⟨h.sublist.trans hbegins.sublist, fun hok => h.complete hok ▸ hbegins,
    fun hok hdrained => ?_, fun hok hlt => ?_⟩
  · obtain ⟨rfl, hnone⟩ := h.drained hdrained
    rw [h.complete hok, ← h.end_eq hok hnone, Nat.add_zero]
  · by_contra hmore
    have hlength := hbegins.length_le
    rw [← h.complete hok, length_handedOut hok hmore] at hlength
    omega

/-- An iterator over a batch starts in front of its rows. -/
theorem exists_standsAt_opened {b : Batch} {it : RecordIterator} (hpart : b.IsPartOf whole start)
    (hwhole : whole.LaidOut fields) (hcolumns : whole.header = [] → whole.rows = [])
    (hiter : b.iterate (some (start : Int)) = .ok it) :
    ∃ count failure, StandsAt f whole fields dataPath indexes start b.size 0 count failure
      (it.through (.live f)).opened := by
  obtain ⟨⟨records, failure⟩, hblocks, hit⟩ := bind_eq_ok_iff.1 hiter
  obtain ⟨count, hcount, rfl, hall, hsafe⟩ := hpart.exists_recordBlocks_eq hwhole hcolumns hblocks
  obtain rfl := Except.ok.inj hit
  have hnothing : ∀ it : RecordIterator, it.opened.handedOut =
      whole.liveItems fields dataPath indexes start 0 := fun it => rfl
  have hfresh : ∀ it : RecordIterator, ¬it.opened.Failed ∧ ¬it.opened.Drained := fun it =>
    ⟨by simp [Failed, opened], by simp [Drained, opened]⟩
  refine ⟨count, failure, ⟨?_, by omega, fun _ hnone => by rw [hall hnone, Nat.zero_add],
    (hnothing _).symm ▸ List.Sublist.refl _, fun _ => hnothing _,
    fun hdrained => absurd hdrained (hfresh _).2, fun hread => ⟨hsafe hread, (hfresh _).1⟩⟩⟩
  rw [liveAt, ← hpart.header]
  rfl

end OpenIterator

/-! ## Whole sessions -/

/-- A reader that counts rows and drops the deleted ones has read some of the batches. -/
def Reader.HasRead (f : DeleteFilter) (bs : List Batch) (number : Nat) (r : Reader) : Prop :=
  ∃ inner : Reader, r = .filtered f (.tracked (Batch.startOf bs number) inner) ∧
    inner.HandsOut (bs.drop number)

/-- Whichever way is taken, the next batch is read, from the position where the batches before it
end. -/
theorem Reader.HasRead.reads {f : DeleteFilter} {bs : List Batch} {number : Nat} {r : Reader}
    (h : r.HasRead f bs number) :
    (bs.length ≤ number ∧ r.readBatch = (.ok none, r) ∧ r.readRecords = (.ok none, r) ∧
        r.HasRead f bs (number + 1)) ∨
      ∃ b rest, bs[number]? = some b ∧
        r.readBatch = ((f.apply b (Batch.startOf bs number)).map some, rest) ∧
        r.readRecords = ((b.iterate (some (Batch.startOf bs number : Int))).map
          fun it => some (it.through (.live f)), rest) ∧
        rest.HasRead f bs (number + 1) := by
  obtain ⟨inner, rfl, hinner⟩ := h
  rcases Nat.lt_or_ge number bs.length with hlt | hend
  · have hb : bs[number]? = some bs[number] := List.getElem?_eq_getElem hlt
    rw [List.drop_eq_getElem_cons hlt] at hinner
    obtain _ | ⟨hread, hrest⟩ := hinner
    rename_i rest
    have hstart : ((Batch.startOf bs number + bs[number].size : Nat) : Int) - bs[number].size =
        Batch.startOf bs number := by omega
    refine .inr ⟨bs[number], .filtered f
      (.tracked (Batch.startOf bs number + bs[number].size) rest), hb, ?_, ?_, rest, ?_, hrest⟩
    · simp only [readBatch, hread, batchPosition, ok_bind, hstart]
    · simp only [readRecords, hread]
      cases bs[number].iterate (some (Batch.startOf bs number : Int)) <;> rfl
    · rw [Batch.startOf_succ hb]
  · rw [List.drop_of_length_le hend] at hinner
    obtain ⟨hread⟩ := hinner
    refine .inl ⟨hend, ?_, ?_, inner, ?_, ?_⟩
    · simp only [readBatch, hread]
    · simp only [readRecords, hread]
      rfl
    · rw [Batch.startOf_of_length_le hend]
    · rw [List.drop_of_length_le (by omega)]
      exact .done hread

/-- A batch could not be read, or its iterator has failed. -/
def BatchRead.Failed : BatchRead → Prop
  | .failed _ => True
  | .records o => o.Failed
  | _ => False

namespace ReadSession

open Batch

section States

variable (f : DeleteFilter) (whole : Batch) (fields : List Field) (dataPath : String)
  (indexes : List DeleteIndex) (bs : List Batch)

/-- What came of the batch with a number, and how far its iterator has come. -/
inductive Stands (number : Nat) : BatchRead → Prop
  | nothing (hend : bs.length ≤ number) : Stands number .nothing
  | failed {b : Batch} {e : Error} (hb : bs[number]? = some b)
      (hunreadable : ¬whole.IsReadable fields dataPath indexes) : Stands number (.failed e)
  | table {b c : Batch} (hb : bs[number]? = some b) (hheader : c.header = whole.header)
      (hrows : c.rows = (whole.survivors fields dataPath indexes (startOf bs number) b.size).map
        fun p => whole.rows.getD p []) : Stands number (.table c)
  | records {b : Batch} {o : OpenIterator} {passed count : Nat} {failure : Option Error}
      (hb : bs[number]? = some b)
      (hstands : o.StandsAt f whole fields dataPath indexes (startOf bs number) b.size passed count
        failure) : Stands number (.records o)

/-- A reader drops the deleted rows of a file, of which some batches were read. -/
structure Invariant (s : ReadSession) : Prop where
  reader : s.reader.HasRead f bs s.reads.length
  stands : ∀ (number : Nat) (r : BatchRead), s.reads[number]? = some r →
    Stands f whole fields dataPath indexes bs number r

/-- A session gives what the rows of the file are that survive, and where they stand in it. -/
structure IsFaithful (s : ReadSession) : Prop where
  /-- The reader has counted the rows of the batches that were read. -/
  position : ∃ counter, s.reader = .filtered f counter ∧
    counter.batchPosition = .ok (startOf bs s.reads.length)
  /-- Each call reads the next batch, and nothing behind the last one. -/
  nothing_iff : ∀ (number : Nat) (r : BatchRead), s.reads[number]? = some r →
    (r = .nothing ↔ bs.length ≤ number)
  /-- A table has the rows of its batch that survive, in order. -/
  table : ∀ (number : Nat) (c : Batch), s.reads[number]? = some (.table c) →
    ∃ b, bs[number]? = some b ∧ c.header = b.header ∧
      c.rows = (whole.survivors fields dataPath indexes (startOf bs number) b.size).map
        fun p => whole.rows.getD p []
  /-- An iterator hands out the rows of its batch that survive, in order and with their
  positions. -/
  records : ∀ (number : Nat) (o : OpenIterator), s.reads[number]? = some (.records o) →
    ∃ b, bs[number]? = some b ∧
      o.HandsOut (whole.liveItems fields dataPath indexes (startOf bs number) b.size)
  /-- Nothing fails when the file can be read to the end. -/
  unfailed : whole.IsReadable fields dataPath indexes → ∀ r ∈ s.reads, ¬r.Failed

end States

variable {file : DataFile} {indexes : List DeleteIndex} {fields : List Field} {check : Bool}
  {f : DeleteFilter} {whole : Batch} {dataPath : String} {bs : List Batch} {s : ReadSession}

theorem Invariant.isFaithful (hsplit : whole.IsSplitInto bs)
    (h : Invariant f whole fields dataPath indexes bs s) :
    IsFaithful f whole fields dataPath indexes bs s := by
  have hlt : ∀ {number b}, bs[number]? = some b → ¬bs.length ≤ number := fun hb hle => by
    rw [List.getElem?_eq_none hle] at hb
    cases hb
  refine ⟨?_, fun number r hr => ?_, fun number c hc => ?_, fun number o ho => ?_,
    fun hread r hr => ?_⟩
  · obtain ⟨inner, hreader, -⟩ := h.reader
    exact ⟨_, hreader, rfl⟩
  · cases h.stands number r hr with
    | nothing hend => exact iff_of_true rfl hend
    | failed hb => exact iff_of_false nofun (hlt hb)
    | table hb => exact iff_of_false nofun (hlt hb)
    | records hb => exact iff_of_false nofun (hlt hb)
  · cases h.stands number _ hc with
    | table hb hheader hrows =>
        exact ⟨_, hb, hheader.trans (hsplit.isPartOf hb).header.symm, hrows⟩
  · cases h.stands number _ ho with
    | records hb hstands => exact ⟨_, hb, hstands.handsOut⟩
  · obtain ⟨number, hnumber⟩ := List.mem_iff_getElem?.1 hr
    cases h.stands number r hnumber with
    | nothing hend => exact id
    | failed hb hunreadable => exact absurd hread hunreadable
    | table hb => exact id
    | records hb hstands => exact (hstands.safe hread).2

/-- Reading a batch keeps the invariant when what came of it is right. -/
theorem Invariant.append (h : Invariant f whole fields dataPath indexes bs s) {reader : Reader}
    {r : BatchRead} (hreader : reader.HasRead f bs (s.reads.length + 1))
    (hr : Stands f whole fields dataPath indexes bs s.reads.length r) :
    Invariant f whole fields dataPath indexes bs ⟨reader, s.reads ++ [r]⟩ := by
  refine ⟨by rwa [List.length_append, List.length_singleton], fun number r' hr' => ?_⟩
  rw [List.getElem?_append] at hr'
  split at hr'
  · exact h.stands number r' hr'
  · rw [List.getElem?_singleton] at hr'
    split at hr'
    · obtain rfl : number = s.reads.length := by omega
      cases hr'
      exact hr
    · cases hr'

/-- Asking an iterator for a row leaves it an iterator over its own batch. -/
theorem Stands.next (hcreate : DeleteFilter.create file indexes fields check = .ok f)
    (hwhole : whole.LaidOut fields) (hsplit : whole.IsSplitInto bs) {number : Nat} {r : BatchRead}
    (h : Stands f whole fields file.path indexes bs number r) :
    Stands f whole fields file.path indexes bs number r.next := by
  cases h with
  | nothing hend => exact .nothing hend
  | failed hb hunreadable => exact .failed hb hunreadable
  | table hb hheader hrows => exact .table hb hheader hrows
  | records hb hstands =>
      obtain ⟨passed, count, failure, hlater⟩ :=
        hstands.next hcreate hwhole (hsplit.isPartOf hb).end_le
      exact .records hb hlater

/-- Each call keeps the invariant. -/
theorem Invariant.step (hcreate : DeleteFilter.create file indexes fields check = .ok f)
    (hwhole : whole.LaidOut fields) (hcolumns : whole.header = [] → whole.rows = [])
    (hsplit : whole.IsSplitInto bs) (hsize : whole.size < 2147483648)
    (h : Invariant f whole fields file.path indexes bs s) (call : ReadCall) :
    Invariant f whole fields file.path indexes bs (s.step call) := by
  cases call with
  | table =>
      rw [ReadSession.step]
      rcases h.reader.reads with ⟨hend, hread, -, hreader⟩ | ⟨b, rest, hb, hread, -, hreader⟩
      · rw [hread]
        exact h.append hreader (.nothing hend)
      · rw [hread]
        refine h.append hreader ?_
        have hpart := hsplit.isPartOf hb
        have hlimit : startOf bs s.reads.length + b.size ≤ DeleteFilter.positionLimit := by
          have := hpart.end_le
          rw [DeleteFilter.positionLimit]
          omega
        cases happly : f.apply b (startOf bs s.reads.length) with
        | error e =>
            refine .failed hb fun hread => ?_
            obtain ⟨c, hc⟩ :=
              DeleteFilter.exists_apply_eq_ok hcreate hwhole hcolumns hread hpart hlimit
            cases hc.symm.trans happly
        | ok c =>
            obtain ⟨hheader, hrows⟩ :=
              DeleteFilter.apply_eq_survivors hcreate hwhole hpart hlimit happly
            exact .table hb hheader hrows
  | records =>
      rw [ReadSession.step]
      rcases h.reader.reads with ⟨hend, -, hread, hreader⟩ | ⟨b, rest, hb, -, hread, hreader⟩
      · rw [hread]
        exact h.append hreader (.nothing hend)
      · rw [hread]
        refine h.append hreader ?_
        have hpart := hsplit.isPartOf hb
        cases hiter : b.iterate (some (startOf bs s.reads.length : Int)) with
        | error e =>
            refine .failed hb fun hread => ?_
            rw [Batch.iterate_of_records (hpart.records_eq_ok hwhole hcolumns hread)] at hiter
            cases hiter
        | ok it =>
            obtain ⟨count, failure, hstands⟩ :=
              OpenIterator.exists_standsAt_opened hpart hwhole hcolumns hiter
            exact .records hb hstands
  | next read =>
      refine ⟨by simpa [ReadSession.step] using h.reader, fun number r hr => ?_⟩
      rw [ReadSession.step, List.getElem?_modify] at hr
      obtain ⟨before, hbefore, rfl⟩ := Option.map_eq_some_iff.1 hr
      have hstands := h.stands number before hbefore
      split
      · exact hstands.next hcreate hwhole hsplit
      · exact hstands

/-- **Positions survive any way of reading.**  A file of fewer rows than 2147483648 is read in any
batches, each of them as a table or as an iterator, and the iterators are asked for rows in any
order.  What comes out are the rows that no index deletes, at their positions in the file.  A file
without columns has no rows. -/
theorem isFaithful_run (hcreate : DeleteFilter.create file indexes fields check = .ok f)
    (hwhole : whole.LaidOut fields) (hcolumns : whole.header = [] → whole.rows = [])
    (hsplit : whole.IsSplitInto bs) (hsize : whole.size < 2147483648) {inner : Reader}
    (hinner : inner.HandsOut bs) (calls : List ReadCall) :
    IsFaithful f whole fields file.path indexes bs
      (run (start (.filtered f (.tracked 0 inner))) calls) := by
  refine Invariant.isFaithful hsplit ?_
  have hstart : Invariant f whole fields file.path indexes bs
      (start (.filtered f (.tracked 0 inner))) :=
    ⟨⟨inner, rfl, hinner⟩, fun number r hr => by cases hr⟩
  generalize start (.filtered f (.tracked 0 inner)) = s at hstart
  induction calls generalizing s with
  | nil => exact hstart
  | cons call calls ih =>
      exact ih _ (hstart.step hcreate hwhole hcolumns hsplit hsize call)

/-! ### A case -/

/-- A file of two columns in three batches, of which the second one is empty. -/
def splitHeader : List ColumnHeader := [⟨"a", .flat (.int .w32)⟩, ⟨"b", .flat (.int .w32)⟩]

def splitBatches : List Batch :=
  [{ header := splitHeader, rows := [[.int 1, .int 10], [.int 2, .int 20]] },
    { header := splitHeader, rows := [] },
    { header := splitHeader, rows := [[.int 3, .int 30], [.int 4, .int 40]] }]

def splitTable : Batch where
  header := splitHeader
  rows := [[.int 1, .int 10], [.int 2, .int 20], [.int 3, .int 30], [.int 4, .int 40]]

def splitFields : List Field :=
  [⟨1, "a", .atomic "INT" true, none⟩, ⟨2, "b", .atomic "INT" true, none⟩]

/-- The second row is deleted by its position, and the third one by its key. -/
def splitIndexes : List DeleteIndex :=
  [.positions "p" [("d", PositionSet.empty.insert 1 (by decide))],
    .equalities "e" [2, 1] ((KeySet.empty.insert ⟨"e", 0⟩ [.int 30, .int 3]).1)]

def splitFile : DataFile := { path := "d", format := "parquet", partition := [], rowCount := 4 }

/-- The first iterator is still asked for rows when all batches have been read. -/
def mixedCalls : List ReadCall :=
  [.records, .next 0, .table, .records, .next 2, .next 0, .table, .next 2]

theorem isFaithful_run_mixedCalls :
    ∃ f, DeleteFilter.create splitFile splitIndexes splitFields true = .ok f ∧
      splitTable.IsReadable splitFields "d" splitIndexes ∧
      IsFaithful f splitTable splitFields "d" splitIndexes splitBatches
        (run (start (.filtered f (.tracked 0 (.stream (splitBatches.map .ok) 0)))) mixedCalls) := by
  have hcreate : DeleteFilter.create splitFile splitIndexes splitFields true = .ok _ := rfl
  have hread : splitTable.IsReadable splitFields "d" splitIndexes := by
    have hplain : ∀ p < 4, ∀ index ∈ splitIndexes, ∀ id ∈ index.fieldIds,
        (splitTable.fieldValue splitFields p id).isPlain = true := by decide
    exact ⟨by decide, by decide, by decide, fun p hp _ index hindex =>
      hasKey_of_isPlain (hplain p hp index hindex), by decide⟩
  refine ⟨_, hcreate, hread, ?_⟩
  exact isFaithful_run hcreate ⟨by rfl, by decide, by decide⟩ (by decide)
    ⟨by decide, by rfl⟩ (by decide) (Reader.handsOut_stream splitBatches 0) mixedCalls

/-- The first iterator has handed out the first row, and the second one the last row. -/
example :
    (DeleteFilter.create splitFile splitIndexes splitFields true).map (fun f =>
        (run (start (.filtered f (.tracked 0 (.stream (splitBatches.map .ok) 0))))
          mixedCalls).reads.map fun r =>
            match r with
            | .records o => o.handedOut.map (·.1)
            | _ => []) =
      .ok [[.ok 0], [], [.ok 3], []] := by
  rfl

/-- A file of two rows without columns. -/
def bareTable : Batch := { header := [], rows := [[], []] }

/-- The second row is deleted. -/
def bareIndexes : List DeleteIndex :=
  [.positions "p" [("d", PositionSet.empty.insert 1 (by decide))]]

/-- Rows without columns are counted and filtered in tables, but an iterator knows of none: it comes
to the end without the row that survives. -/
theorem not_isFaithful_bareTable :
    ∃ f, DeleteFilter.create splitFile bareIndexes [] true = .ok f ∧ bareTable.LaidOut [] ∧
      bareTable.IsSplitInto [bareTable] ∧ bareTable.IsReadable [] "d" bareIndexes ∧
      ¬IsFaithful f bareTable [] "d" bareIndexes [bareTable]
        (run (start (.filtered f (.tracked 0 (.stream [.ok bareTable] 0))))
          [.records, .next 0]) := by
  have hcreate : DeleteFilter.create splitFile bareIndexes [] true = .ok _ := rfl
  have hkeys : ∀ p < 2, ∀ index ∈ bareIndexes, ∀ id ∈ index.fieldIds,
      (bareTable.fieldValue [] p id).isPlain = true := by decide
  refine ⟨_, hcreate, ⟨rfl, by decide, by decide⟩, ⟨by decide, rfl⟩,
    ⟨by decide, by decide, by decide, fun p hp _ index hindex =>
      hasKey_of_isPlain (hkeys p hp index hindex), by decide⟩, fun h => ?_⟩
  obtain ⟨b, hb, hhands⟩ := h.records 0 _ rfl
  cases hb
  -- The iterator came to the end at once, but one row survives.
  refine absurd (congrArg List.length (hhands.drained ?_ ⟨_, List.mem_singleton.2 rfl, rfl⟩))
    (by decide)
  rintro ⟨a, ha, e, he⟩
  cases List.mem_singleton.1 ha
  cases he

end ReadSession

end MergeOnRead
