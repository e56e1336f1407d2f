import TDB.RecordScanner

namespace TDB.Recorder

open ByteBits Bitmap

/-! ## `RecordPageIterator`

A scanner starts every page at slot 0.  Here the iterator starts at any slot. -/

namespace RecordPageIterator

/-- `RecordPageIterator::init` with a start slot. -/
def initAt (p : ℕ) (s : RecordFileHandler) (startSlotNum : ℕ) : RecordPageIterator :=
  let page := s.page p
  ⟨p, page.header.recordCapacity,
    nextSettedBit page.bitmap page.header.recordCapacity startSlotNum⟩

theorem initAt_zero (p : ℕ) (s : RecordFileHandler) : initAt p s 0 = init p s := rfl

def hasNext (it : RecordPageIterator) : Bool := it.nextSlotNum.isSome

/-- `next`: the code, the record, and the iterator behind it.  `none` is a record whose slot is
`-1`. -/
def next (s : RecordFileHandler) (it : RecordPageIterator) :
    (RC × Option (RID × List (BitVec 8))) × RecordPageIterator :=
  match it.nextSlotNum with
  | none => ((.recordEof, none), it)
  | some slotNum =>
    let rid : RID := ⟨it.pageNum, slotNum⟩
    ((.success, some (rid, s.recordData rid)), { it with
      nextSlotNum := nextSettedBit (s.page it.pageNum).bitmap it.size (slotNum + 1) })

/-- The records that `next` yields one after another until the iterator is exhausted. -/
inductive Yields (s : RecordFileHandler) : RecordPageIterator → List RID → Prop
  | nil {it : RecordPageIterator} (h : (it.next s).1 = (.recordEof, none)) : Yields s it []
  | cons {it : RecordPageIterator} {rid : RID} {data : List (BitVec 8)} {rids : List RID}
      (h : (it.next s).1 = (.success, some (rid, data))) (hrest : Yields s (it.next s).2 rids) :
      Yields s it (rid :: rids)

variable {s : RecordFileHandler} {it : RecordPageIterator} {rids : List RID}

/-- A scan without a filter takes what `next` yields. -/
theorem fetchNextRecordInPage_next (n : ℕ) (sc : RecordFileScanner) :
    (RecordFileScanner.fetchNextRecordInPage .vacuousTrx s (n + 1) it sc).1 = (it.next s).1.1 ∧
      (RecordFileScanner.fetchNextRecordInPage .vacuousTrx s (n + 1) it sc).2.nextRecord =
        (it.next s).1.2.map Prod.fst := by
  unfold RecordFileScanner.fetchNextRecordInPage next
  cases it.nextSlotNum with
  | none => exact ⟨rfl, rfl⟩
  | some slotNum => exact ⟨rfl, rfl⟩

theorem Yields.head (h : Yields s it rids) : it.nextSlotNum = rids.head?.map RID.slotNum := by
  cases h with
  | nil h =>
    unfold next at h
    cases hnext : it.nextSlotNum with
    | none => rfl
    | some slotNum => rw [hnext] at h; cases h
  | cons h hrest =>
    unfold next at h
    cases hnext : it.nextSlotNum with
    | none => rw [hnext] at h; cases h
    | some slotNum => rw [hnext] at h; cases h; rfl

/-- Behind a slot that is set the search sees every later one. -/
theorem yields_of_lowest {start : ℕ} (hsize : it.size = (s.page it.pageNum).header.recordCapacity)
    (hnext : it.nextSlotNum = lowest (bit (s.page it.pageNum).bitmap) start it.size) :
    Yields s it (s.liveInPage it.pageNum start) := by
  induction hleft : it.size - start using Nat.strong_induction_on generalizing it start with
  | h left ih =>
    cases hlow : lowest (bit (s.page it.pageNum).bitmap) start it.size with
    | none =>
      rw [RecordFileHandler.liveInPage, ← hsize, indices_eq_nil hlow]
      apply Yields.nil
      rw [next, hnext, hlow]
    | some slotNum =>
      obtain ⟨hle, hlt, hbit, -⟩ := lowest_eq_some_iff.mp hlow
      rw [RecordFileHandler.liveInPage, ← hsize, indices_eq_cons hlow, List.map_cons]
      have hstep : it.next s = ((.success, some (⟨it.pageNum, slotNum⟩,
          s.recordData ⟨it.pageNum, slotNum⟩)), { it with
          nextSlotNum := nextSettedBit (s.page it.pageNum).bitmap it.size (slotNum + 1) }) := by
        rw [next, hnext, hlow]
      have hrest : Yields s (it.next s).2 (s.liveInPage it.pageNum (slotNum + 1)) := by
        rw [hstep]
        exact ih (it.size - (slotNum + 1)) (by omega) hsize (nextSettedBit_succ it.size hbit) rfl
      rw [RecordFileHandler.liveInPage, ← hsize] at hrest
      exact .cons (by rw [hstep]) hrest

/-- The iterator yields the records from its start slot on exactly when its search overlooks none of
them. -/
theorem yields_iff {p start : ℕ} : Yields s (initAt p s start) (s.liveInPage p start) ↔
    ∀ i < (s.page p).header.recordCapacity, Overlooked true (s.page p).bitmap start i →
      bit (s.page p).bitmap i = false := by
  have hsearch : nextSettedBit (s.page p).bitmap (s.page p).header.recordCapacity start =
      lowest (bit (s.page p).bitmap) start (s.page p).header.recordCapacity ↔
      ∀ i < (s.page p).header.recordCapacity, Overlooked true (s.page p).bitmap start i →
        bit (s.page p).bitmap i = false := nextSettedBit_eq_lowest_iff
  rw [← hsearch]
  constructor
  · intro hyields
    rw [show nextSettedBit (s.page p).bitmap (s.page p).header.recordCapacity start =
      (initAt p s start).nextSlotNum from rfl, hyields.head, RecordFileHandler.liveInPage]
    cases hlow : lowest (bit (s.page p).bitmap) start (s.page p).header.recordCapacity with
    | none => rw [indices_eq_nil hlow]; rfl
    | some i => rw [indices_eq_cons hlow]; rfl
  · intro hlow
    exact @yields_of_lowest s (initAt p s start) start rfl hlow

end RecordPageIterator

/-! ## Searches in a bitmap -/

/-- Both searches find the lowest index from `start` on, or nothing if there is none, and the
iterator on a page with this bitmap yields its records from `start` on in increasing order. -/
structure FindsBits (mem : ℕ → BitVec 8) (size start : ℕ) : Prop where
  setted : nextSettedBit mem size start = lowest (bit mem) start size
  unsetted : nextUnsettedBit mem size start = lowest (fun i => !bit mem i) start size
  slots : ∀ (s : RecordFileHandler) (p : ℕ), (s.page p).bitmap = mem →
    (s.page p).header.recordCapacity = size →
    RecordPageIterator.Yields s (.initAt p s start) (s.liveInPage p start)

/-- The searches find every bit exactly when no bit stands behind skipped bytes before the offset
of `start`. -/
theorem findsBits_iff (mem : ℕ → BitVec 8) (size start : ℕ) : FindsBits mem size start ↔
    ∀ i < size, (Overlooked true mem start i → bit mem i = false) ∧
      (Overlooked false mem start i → bit mem i = true) := by
  constructor
  · intro hfinds i hi
    exact ⟨nextSettedBit_eq_lowest_iff.mp hfinds.setted i hi,
      nextUnsettedBit_eq_lowest_iff.mp hfinds.unsetted i hi⟩
  · intro hnone
    refine ⟨nextSettedBit_eq_lowest_iff.mpr fun i hi => (hnone i hi).1,
      nextUnsettedBit_eq_lowest_iff.mpr fun i hi => (hnone i hi).2, fun s p hmem hsize => ?_⟩
    apply RecordPageIterator.yields_iff.mpr
    rw [hmem, hsize]
    exact fun i hi => (hnone i hi).1

def bitEight : ℕ → BitVec 8 := fun i => if i = 1 then 1#8 else 0#8

/-- From bit 3 on the search does not see bit 8. -/
theorem bitEight_overlooked : nextSettedBit bitEight 16 3 = none ∧
    lowest (bit bitEight) 3 16 = some 8 ∧ ¬ FindsBits bitEight 16 3 := by
  have hsearch : nextSettedBit bitEight 16 3 = none := by decide
  have hlow : lowest (bit bitEight) 3 16 = some 8 := by decide
  refine ⟨hsearch, hlow, fun hfinds => ?_⟩
  have := hfinds.setted
  rw [hsearch, hlow] at this
  cases this

end TDB.Recorder
