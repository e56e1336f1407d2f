import TDB.RecordFile

namespace TDB.Recorder

open ByteBits ByteMemory

/-! ## Visiting a record where it lies -/

namespace RecordPage

/-- The memory behind the pointer of `get_record_data`. -/
def recordMemory (page : RecordPage) (slotNum : ℕ) : ℕ → BitVec 8 :=
  fun k => page.data (page.recordOffset slotNum + k)

def withRecord (page : RecordPage) (slotNum : ℕ) (bytes : ℕ → BitVec 8) : RecordPage :=
  { page with
    data := fun k =>
      if page.recordOffset slotNum ≤ k then bytes (k - page.recordOffset slotNum)
      else page.data k }

variable {recordSize slotNum : ℕ} {page : RecordPage} {bytes : ℕ → BitVec 8}

theorem recordData_eq (page : RecordPage) (slotNum : ℕ) :
    page.recordData slotNum = read (page.recordMemory slotNum) 0 page.header.recordRealSize := by
  simp only [recordData, ByteMemory.read, recordMemory, Nat.zero_add]

theorem recordData_withRecord (page : RecordPage) (slotNum : ℕ) (bytes : ℕ → BitVec 8) :
    (page.withRecord slotNum bytes).recordData slotNum =
      read bytes 0 page.header.recordRealSize := by
  have hmemory : (page.withRecord slotNum bytes).recordMemory slotNum = bytes := by
    funext k
    change (if page.recordOffset slotNum ≤ page.recordOffset slotNum + k then
      bytes (page.recordOffset slotNum + k - page.recordOffset slotNum) else _) = _
    rw [if_pos (Nat.le_add_right _ k), Nat.add_sub_cancel_left]
  rw [recordData_eq, hmemory]
  rfl

/-- A visitor that stays within the record changes this record and no other. -/
theorem WellFormed.updates_withRecord (h : page.WellFormed recordSize)
    (hbit : bit page.bitmap slotNum = true)
    (hwithin : ∀ k, recordSize ≤ k → bytes k = page.recordMemory slotNum k) :
    Updates page (page.withRecord slotNum bytes) slotNum true := by
  have hbits : Function.update (bit page.bitmap) slotNum true = bit page.bitmap := by
    rw [← hbit, Function.update_eq_self]
  have hreal := h.recordRealSize
  have hdata : ∀ k, k < page.recordOffset slotNum ∨
      page.recordOffset slotNum + page.header.recordRealSize ≤ k →
      (page.withRecord slotNum bytes).data k = page.data k := by
    intro k hk
    by_cases hle : page.recordOffset slotNum ≤ k
    · have hsize : recordSize ≤ k - page.recordOffset slotNum := by omega
      simp only [withRecord]
      rw [if_pos hle, hwithin _ hsize, recordMemory, Nat.add_sub_cancel' hle]
    · simp only [withRecord]
      rw [if_neg hle]
  refine ⟨?_, fun j hj => ?_, fun j hj => ?_⟩
  · rw [hbits, ← h.recordNum]
    rfl
  · have hbefore : pageHeaderSize + j / 8 < page.recordOffset slotNum :=
      (h.bit_offset hj).trans_le (Nat.le_add_right _ _)
    rw [hbits]
    unfold bit bitmap
    rw [hdata _ (Or.inl hbefore)]
  · have hdisjoint := h.slots_disjoint hj
    apply read_congr
    intro k hk hlt
    apply hdata
    change page.recordOffset j ≤ k at hk
    change k < page.recordOffset j + page.header.recordRealSize at hlt
    omega

end RecordPage

namespace RecordFileHandler

/-- `RecordFileHandler::visit_record`.  The visitor works on the page itself; what it returns is
kept if it was called.  The frame is not marked dirty. -/
def visitRecord {α : Type} (rid : RID) (visitor : (ℕ → BitVec 8) → α × (ℕ → BitVec 8))
    (s : RecordFileHandler) : (RC × Option α) × RecordFileHandler :=
  let (rc, s) := s.initPage rid.pageNum
  if rc.fail then ((rc, none), s)
  else
    let page := s.page rid.pageNum
    let rc := (page.getRecord rid.slotNum).1
    if rc.fail then ((rc, none), s.cleanup rid.pageNum)
    else
      let (result, bytes) := visitor (page.recordMemory rid.slotNum)
      ((rc, some result),
        (s.setPage rid.pageNum (page.withRecord rid.slotNum bytes)).cleanup rid.pageNum)

variable {s : RecordFileHandler} {recordSize : ℕ} {rid : RID} {α : Type}
  (visitor : (ℕ → BitVec 8) → α × (ℕ → BitVec 8))

theorem Inv.of_records {data : List (BitVec 8)} (hi : Inv recordSize s)
    (hdata : s.records rid = some data) :
    s.IsRecordPage rid.pageNum ∧ rid.slotNum < (PageHeader.empty recordSize).recordCapacity ∧
      data.length = recordSize := by
  have hp : s.IsRecordPage rid.pageNum := by
    by_contra hnot
    have hnone : s.records rid = none := if_neg hnot
    rw [hnone] at hdata
    cases hdata
  obtain ⟨page, hpage, hwf⟩ := hi.pages _ hp
  rw [records_eq hp hpage, RecordPage.slot] at hdata
  split_ifs at hdata with hslot
  obtain rfl := Option.some.inj hdata
  refine ⟨hp, ?_, ?_⟩
  · rw [← hwf.recordCapacity]
    exact hslot.1
  · rw [RecordPage.recordData, length_read, hwf.recordRealSize]

theorem visitRecord_spec {data : List (BitVec 8)} (hi : Inv recordSize s)
    (hdata : s.records rid = some data)
    (hwithin : ∀ mem k, recordSize ≤ k → (visitor mem).2 k = mem k) :
    ∃ mem, read mem 0 recordSize = data ∧
      (s.visitRecord rid visitor).1 = (.success, some (visitor mem).1) ∧
      Changes recordSize s (s.visitRecord rid visitor).2 rid
        (some (read (visitor mem).2 0 recordSize)) := by
  obtain ⟨hp, hslot, -⟩ := hi.of_records hdata
  obtain ⟨page, hpage, hwf, hlt, hrc, hsame, hfree, hpage'⟩ := hi.initPage_spec hp hslot
  have hslotData : page.slot rid.slotNum = some data := by
    rw [← records_eq hp hpage]
    exact hdata
  have hbit : bit page.bitmap rid.slotNum = true := by
    by_contra hnot
    rw [RecordPage.slot, if_neg fun h => hnot h.2] at hslotData
    cases hslotData
  have hget : (page.getRecord rid.slotNum).1 = .success := by
    rw [RecordPage.getRecord_eq hlt, hslotData]
    rfl
  -- the visitor writes within the record, so the other slots stay
  have hu := hwf.updates_withRecord hbit
    (fun k hk => hwithin (page.recordMemory rid.slotNum) k hk)
  have hslotEq := hu.slot_eq hlt
  rw [if_pos rfl, RecordPage.recordData_withRecord, hwf.recordRealSize] at hslotEq
  have hwrites := hsame.writes ((writes_setPage (p := rid.pageNum)
    (by rw [hpage']; exact Option.some_ne_none _)
    (page.withRecord rid.slotNum (visitor (page.recordMemory rid.slotNum)).2)).samePages
      (samePages_cleanup _ rid.pageNum))
  refine ⟨page.recordMemory rid.slotNum, ?_, ?_⟩
  · have hread : page.slot rid.slotNum = some (page.recordData rid.slotNum) :=
      if_pos ⟨hlt, hbit⟩
    rw [hslotData, RecordPage.recordData_eq, hwf.recordRealSize] at hread
    exact (Option.some.inj hread).symm
  · unfold visitRecord
    simp only [hrc, page_eq hpage', hget]
    rw [if_neg (by decide), if_neg (by decide)]
    refine ⟨rfl, ?_, hwrites.records hp hpage hslotEq⟩
    refine hi.writes hp hwrites (hu.wellFormed hwf) ?_ ?_ ?_
    · intro q hq
      left
      rw [← hfree]
      exact hq
    · intro q hq
      change q ∈ (s.initPage rid.pageNum).2.freePages
      rw [hfree]
      exact hq
    · intro hfull
      change rid.pageNum ∈ (s.initPage rid.pageNum).2.freePages
      rw [hfree]
      apply hi.free _ _ hp hpage
      have hheader : (page.withRecord rid.slotNum
        (visitor (page.recordMemory rid.slotNum)).2).header = page.header := rfl
      rw [RecordPage.isFull, hheader] at hfull
      exact hfull

/-- `visit_record` does not call its visitor for a slot without a record. -/
theorem visitRecord_none (hi : Inv recordSize s) (hp : s.IsRecordPage rid.pageNum)
    (hslot : rid.slotNum < (PageHeader.empty recordSize).recordCapacity)
    (hnone : s.records rid = none) :
    (s.visitRecord rid visitor).1 = (.recordNotExist, none) := by
  obtain ⟨page, hpage, -, hlt, hrc, -, -, hpage'⟩ := hi.initPage_spec hp hslot
  have hget : (page.getRecord rid.slotNum).1 = .recordNotExist := by
    rw [RecordPage.getRecord_eq hlt, ← records_eq hp hpage, hnone]
    rfl
  unfold visitRecord
  simp only [hrc, page_eq hpage', hget]
  rw [if_neg (by decide), if_pos (by decide)]

end RecordFileHandler

end TDB.Recorder
