import TDB.Bitmap
import TDB.BufferPool
import TDB.Lib.ByteMemory

namespace TDB.Recorder

open ByteBits ByteMemory

/-! ## The layout of a page of records -/

def pageHeaderSize : ℕ := 20

def align8 (size : ℕ) : ℕ := (size + 7) / 8 * 8

/-- `page_record_capacity`.  The source divides doubles; the quotient is so far from the next
integer that its rounding does not show. -/
def pageRecordCapacity (pageSize recordSize : ℕ) : ℕ :=
  8 * (pageSize - pageHeaderSize - 1) / (8 * recordSize + 1)

def pageBitmapSize (recordCapacity : ℕ) : ℕ := (recordCapacity + 7) / 8

structure PageHeader where
  recordNum : ℤ
  recordRealSize : ℕ
  recordSize : ℕ
  recordCapacity : ℕ
  firstRecordOffset : ℕ
  deriving DecidableEq

def fixRecordCapacity (firstRecordOffset recordSize : ℕ) : ℕ → ℕ
  | 0 => 0
  | capacity + 1 =>
    if pageDataSize < firstRecordOffset + (capacity + 1) * recordSize then
      fixRecordCapacity firstRecordOffset recordSize capacity
    else capacity + 1

/-- The header that `init_empty_page` writes. -/
def PageHeader.empty (recordSize : ℕ) : PageHeader :=
  let size := align8 recordSize
  let capacity := pageRecordCapacity pageDataSize size
  let offset := align8 (pageHeaderSize + pageBitmapSize capacity)
  ⟨0, recordSize, size, fixRecordCapacity offset size capacity, offset⟩

structure RecordPage where
  header : PageHeader
  data : ℕ → BitVec 8

instance : PageData RecordPage := ⟨⟨⟨0, 0, 0, 0, 0⟩, fun _ => 0#8⟩, ⟨⟨0, 0, 0, 0, 0⟩, fun _ => 0#8⟩⟩

/-! ## `RecordPageHandler` -/

namespace RecordPage

def bitmap (page : RecordPage) : ℕ → BitVec 8 := fun k => page.data (pageHeaderSize + k)

def withBitmap (page : RecordPage) (bytes : ℕ → BitVec 8) : RecordPage :=
  { page with
    data := fun k => if pageHeaderSize ≤ k then bytes (k - pageHeaderSize) else page.data k }

/-- The offset that `get_record_data` computes. -/
def recordOffset (page : RecordPage) (slotNum : ℕ) : ℕ :=
  page.header.firstRecordOffset + page.header.recordSize * slotNum

def recordData (page : RecordPage) (slotNum : ℕ) : List (BitVec 8) :=
  read page.data (page.recordOffset slotNum) page.header.recordRealSize

def isFull (page : RecordPage) : Bool := page.header.recordCapacity ≤ page.header.recordNum

/-- `init_empty_page`, once the frame is there. -/
def initEmptyPage (recordSize : ℕ) (page : RecordPage) : RecordPage :=
  let header := PageHeader.empty recordSize
  ⟨header, memset pageHeaderSize (pageBitmapSize header.recordCapacity) page.data⟩

/-- `RecordPageHandler::insert_record`.  `none` is the undefined behaviour of `set_bit(-1)`. -/
def insertRecord (data : List (BitVec 8)) (page : RecordPage) :
    Option ((RC × Option ℕ) × RecordPage) :=
  if page.header.recordNum = page.header.recordCapacity then some ((.recordNomem, none), page)
  else match Bitmap.nextUnsettedBit page.bitmap page.header.recordCapacity 0 with
    | none => none
    | some index =>
      let page := page.withBitmap (setBit page.bitmap index)
      let page := { page with header := { page.header with recordNum :=
        page.header.recordNum + 1 } }
      some ((.success, some index),
        { page with
          data := memcpy (page.recordOffset index) page.header.recordRealSize data page.data })

def deleteRecord (slotNum : ℕ) (page : RecordPage) : RC × RecordPage :=
  if page.header.recordCapacity ≤ slotNum then (.invalidArgument, page)
  else if bit page.bitmap slotNum then
    let page := page.withBitmap (clearBit page.bitmap slotNum)
    (.success, { page with header := { page.header with recordNum := page.header.recordNum - 1 } })
  else (.recordNotExist, page)

def getRecord (slotNum : ℕ) (page : RecordPage) : RC × List (BitVec 8) :=
  if page.header.recordCapacity ≤ slotNum then (.recordInvalidRid, [])
  else if bit page.bitmap slotNum then (.success, page.recordData slotNum)
  else (.recordNotExist, [])

end RecordPage

/-! ## The layout leaves room -/

theorem fixRecordCapacity_le (offset size capacity : ℕ) :
    fixRecordCapacity offset size capacity ≤ capacity := by
  induction capacity with
  | zero => exact le_rfl
  | succ capacity ih =>
    unfold fixRecordCapacity
    split
    · exact ih.trans (Nat.le_succ _)
    · exact le_rfl

theorem fixRecordCapacity_fits {offset size capacity : ℕ} (h : offset ≤ pageDataSize) :
    offset + fixRecordCapacity offset size capacity * size ≤ pageDataSize := by
  induction capacity with
  | zero => simpa [fixRecordCapacity] using h
  | succ capacity ih =>
    unfold fixRecordCapacity
    split
    · exact ih
    · omega

theorem bitmap_before_records (recordSize : ℕ) :
    pageHeaderSize + pageBitmapSize (PageHeader.empty recordSize).recordCapacity ≤
      (PageHeader.empty recordSize).firstRecordOffset := by
  have hle := fixRecordCapacity_le (PageHeader.empty recordSize).firstRecordOffset
    (align8 recordSize) (pageRecordCapacity pageDataSize (align8 recordSize))
  change (PageHeader.empty recordSize).recordCapacity ≤ _ at hle
  change _ ≤ align8 (pageHeaderSize +
    pageBitmapSize (pageRecordCapacity pageDataSize (align8 recordSize)))
  unfold align8 pageBitmapSize at *
  omega

/-- The last record ends within the page, as the `ASSERT` of `init_empty_page` says. -/
theorem records_fit (recordSize : ℕ) :
    (PageHeader.empty recordSize).firstRecordOffset +
      (PageHeader.empty recordSize).recordCapacity * (PageHeader.empty recordSize).recordSize ≤
        pageDataSize := by
  apply fixRecordCapacity_fits
  have hcap : pageRecordCapacity pageDataSize (align8 recordSize) ≤
      8 * (pageDataSize - pageHeaderSize - 1) := Nat.div_le_self _ _
  change align8 (pageHeaderSize +
    pageBitmapSize (pageRecordCapacity pageDataSize (align8 recordSize))) ≤ pageDataSize
  generalize pageRecordCapacity pageDataSize (align8 recordSize) = capacity at *
  unfold align8 pageBitmapSize pageHeaderSize pageDataSize at *
  omega

theorem recordRealSize_le (recordSize : ℕ) : recordSize ≤
    (PageHeader.empty recordSize).recordSize := by
  change recordSize ≤ align8 recordSize
  unfold align8
  omega

/-! ## The records of a page -/

namespace RecordPage

def slot (page : RecordPage) (slotNum : ℕ) : Option (List (BitVec 8)) :=
  if slotNum < page.header.recordCapacity ∧ bit page.bitmap slotNum then
    some (page.recordData slotNum)
  else none

/-- A page of records of one size, whose counter is the number of set bits. -/
def WellFormed (recordSize : ℕ) (page : RecordPage) : Prop :=
  page.header = { PageHeader.empty recordSize with
    recordNum := popcount (bit page.bitmap) (PageHeader.empty recordSize).recordCapacity }

variable {recordSize : ℕ} {page : RecordPage} {slotNum : ℕ}

namespace WellFormed

theorem recordNum (h : page.WellFormed recordSize) :
    page.header.recordNum = popcount (bit page.bitmap) page.header.recordCapacity := by
  rw [h]

theorem recordRealSize (h : page.WellFormed recordSize) :
    page.header.recordRealSize = recordSize := by
  rw [h]
  rfl

theorem recordCapacity (h : page.WellFormed recordSize) :
    page.header.recordCapacity = (PageHeader.empty recordSize).recordCapacity := by rw [h]

theorem realSize_le (h : page.WellFormed recordSize) :
    page.header.recordRealSize ≤ page.header.recordSize := by
  rw [h]
  exact recordRealSize_le recordSize

theorem bitmap_le (h : page.WellFormed recordSize) :
    pageHeaderSize + pageBitmapSize page.header.recordCapacity ≤
      page.header.firstRecordOffset := by
  rw [h]
  exact bitmap_before_records recordSize

theorem isFull_iff (h : page.WellFormed recordSize) :
    page.isFull = true ↔ ∀ i < page.header.recordCapacity, bit page.bitmap i = true := by
  have hle := popcount_le (bit page.bitmap) page.header.recordCapacity
  have hnum := h.recordNum
  rw [← popcount_eq_self_iff, isFull, decide_eq_true_iff]
  omega

end WellFormed

theorem bitmap_withBitmap (page : RecordPage) (bytes : ℕ → BitVec 8) :
    (page.withBitmap bytes).bitmap = bytes := by
  funext k
  simp [bitmap, withBitmap]

theorem WellFormed.bit_offset (h : page.WellFormed recordSize)
    (hs : slotNum < page.header.recordCapacity) :
    pageHeaderSize + slotNum / 8 < page.header.firstRecordOffset := by
  have hle := h.bitmap_le
  unfold pageBitmapSize at hle
  omega

theorem WellFormed.recordData_withBitmap (h : page.WellFormed recordSize)
    (hs : slotNum < page.header.recordCapacity) (byte : BitVec 8) (j : ℕ) :
    (page.withBitmap (Function.update page.bitmap (slotNum / 8) byte)).recordData j =
      page.recordData j := by
  have hoffset := h.bit_offset hs
  apply read_congr
  intro k hk _
  have hge : page.header.firstRecordOffset ≤ k := le_trans (Nat.le_add_right _ _) hk
  have hheader : pageHeaderSize ≤ k := by omega
  simp only [withBitmap]
  rw [if_pos hheader, Function.update_of_ne (by omega), bitmap, Nat.add_sub_cancel' hheader]

theorem WellFormed.slots_disjoint (h : page.WellFormed recordSize) {i j : ℕ} (hij : i ≠ j) :
    page.recordOffset i + page.header.recordRealSize ≤ page.recordOffset j ∨
      page.recordOffset j + page.header.recordRealSize ≤ page.recordOffset i := by
  have hreal := h.realSize_le
  unfold recordOffset
  rcases Nat.lt_or_gt_of_ne hij with hlt | hlt
  · left
    have hmul := Nat.mul_le_mul_left page.header.recordSize (Nat.succ_le_of_lt hlt)
    rw [Nat.mul_succ] at hmul
    omega
  · right
    have hmul := Nat.mul_le_mul_left page.header.recordSize (Nat.succ_le_of_lt hlt)
    rw [Nat.mul_succ] at hmul
    omega

/-- A page of which one slot was taken or given up, with the counter that goes with it. -/
structure Updates (page page' : RecordPage) (i : ℕ) (b : Bool) : Prop where
  header : page'.header = { page.header with
    recordNum := popcount (Function.update (bit page.bitmap) i b) page.header.recordCapacity }
  bits : ∀ j < page.header.recordCapacity,
    bit page'.bitmap j = Function.update (bit page.bitmap) i b j
  recordData : ∀ j, j ≠ i → page'.recordData j = page.recordData j

theorem Updates.wellFormed {page' : RecordPage} {i : ℕ} {b : Bool} (hu : Updates page page' i b)
    (h : page.WellFormed recordSize) : page'.WellFormed recordSize := by
  unfold WellFormed
  rw [← h.recordCapacity, popcount_congr hu.bits, hu.header, h]

theorem Updates.slot_eq {page' : RecordPage} {i : ℕ} {b : Bool} (hu : Updates page page' i b)
    (hi : i < page.header.recordCapacity) :
    page'.slot =
      Function.update page.slot i (if b then some (page'.recordData i) else none) := by
  have hcap : page'.header.recordCapacity = page.header.recordCapacity := by rw [hu.header]
  funext j
  by_cases hj : j < page.header.recordCapacity
  · by_cases hji : j = i
    · subst hji
      rw [Function.update_self, slot, hcap, hu.bits j hj, Function.update_self]
      simp only [hj, true_and]
    · rw [Function.update_of_ne hji, slot, slot, hcap, hu.bits j hj, Function.update_of_ne hji,
        hu.recordData j hji]
  · rw [Function.update_of_ne (by omega), slot, slot, hcap, if_neg fun hc => hj hc.1,
      if_neg fun hc => hj hc.1]

/-- The bits of the slots lie before the bytes that `memcpy` writes. -/
theorem WellFormed.bit_memcpy (h : page.WellFormed recordSize) {mem : ℕ → BitVec 8}
    {header : PageHeader} {data : List (BitVec 8)} {n i j : ℕ}
    (hj : j < page.header.recordCapacity) :
    bit (RecordPage.bitmap ⟨header, memcpy (page.recordOffset i) n data mem⟩) j =
      bit (RecordPage.bitmap ⟨header, mem⟩) j := by
  have hbefore : pageHeaderSize + j / 8 < page.recordOffset i :=
    (h.bit_offset hj).trans_le (Nat.le_add_right _ _)
  unfold bit bitmap
  dsimp only
  rw [memcpy_of_lt hbefore]

theorem WellFormed.updates_setBit (h : page.WellFormed recordSize) {data : List (BitVec 8)}
    (hdata : data.length = recordSize) (hs : slotNum < page.header.recordCapacity)
    (hfree : bit page.bitmap slotNum = false) {page' : RecordPage}
    (hpage' : page' = ⟨{ page.header with recordNum := page.header.recordNum + 1 },
      memcpy (page.recordOffset slotNum) page.header.recordRealSize data
        (page.withBitmap (setBit page.bitmap slotNum)).data⟩) :
    Updates page page' slotNum true ∧ page'.recordData slotNum = data := by
  subst hpage'
  refine ⟨⟨?_, fun j hj => ?_, fun j hj => ?_⟩,
    read_memcpy_self (hdata.trans h.recordRealSize.symm)⟩
  · rw [popcount_set hs hfree, h.recordNum]
    rfl
  · rw [← bit_setBit, h.bit_memcpy hj]
    exact congrArg (fun bytes => bit bytes j)
      (bitmap_withBitmap page (setBit page.bitmap slotNum))
  · have hbits := h.recordData_withBitmap hs
      (ByteBits.set (page.bitmap (slotNum / 8)) (slotNum % 8)) j
    exact (read_memcpy_disjoint (h.slots_disjoint hj)).trans hbits

/-- A page that is not full takes the record into its lowest free slot. -/
theorem WellFormed.insertRecord (h : page.WellFormed recordSize) {data : List (BitVec 8)}
    (hdata : data.length = recordSize) (hfull : page.isFull = false) :
    ∃ index page', page.insertRecord data = some ((.success, some index), page') ∧
      Updates page page' index true ∧ page'.recordData index = data ∧
      index < page.header.recordCapacity ∧ bit page.bitmap index = false := by
  have hnum : page.header.recordNum ≠ page.header.recordCapacity := by
    intro heq
    rw [isFull, heq] at hfull
    simp at hfull
  obtain ⟨index, hindex⟩ : ∃ index,
      lowest (fun i => !bit page.bitmap i) 0 page.header.recordCapacity = some index := by
    rw [← Option.ne_none_iff_exists']
    intro hnone
    have hall := lowest_eq_none_iff.mp hnone
    have : page.isFull = true := by
      apply h.isFull_iff.mpr
      intro i hi
      simpa using hall i (Nat.zero_le _) hi
    rw [hfull] at this
    cases this
  obtain ⟨-, hlt, hfree, -⟩ := lowest_eq_some_iff.mp hindex
  have hbit : bit page.bitmap index = false := by simpa using hfree
  obtain ⟨hupdates, hrecord⟩ := h.updates_setBit hdata hlt hbit rfl
  refine ⟨index, _, ?_, hupdates, hrecord, hlt, hbit⟩
  unfold RecordPage.insertRecord
  rw [if_neg hnum, Bitmap.nextUnsettedBit_zero, hindex]
  rfl

theorem WellFormed.deleteRecord (h : page.WellFormed recordSize)
    (hs : slotNum < page.header.recordCapacity) :
    if bit page.bitmap slotNum then (page.deleteRecord slotNum).1 = .success ∧
      Updates page (page.deleteRecord slotNum).2 slotNum false
    else page.deleteRecord slotNum = (.recordNotExist, page) := by
  by_cases hbit : bit page.bitmap slotNum = true
  · rw [if_pos hbit]
    unfold RecordPage.deleteRecord
    rw [if_neg (by omega), if_pos hbit]
    refine ⟨rfl, ?_, ?_, ?_⟩
    · have hpop := popcount_clear hs hbit
      have hnum := h.recordNum
      have heq : page.header.recordNum - 1 =
          popcount (Function.update (bit page.bitmap) slotNum false)
            page.header.recordCapacity := by
        omega
      rw [← heq]
      rfl
    · intro j _
      rw [← bit_clearBit]
      exact congrArg (fun bytes => bit bytes j)
        (bitmap_withBitmap page (clearBit page.bitmap slotNum))
    · intro j _
      exact h.recordData_withBitmap hs _ j
  · rw [if_neg hbit, RecordPage.deleteRecord, if_neg (by omega), if_neg hbit]

theorem getRecord_eq (hs : slotNum < page.header.recordCapacity) :
    page.getRecord slotNum =
      (page.slot slotNum).elim (.recordNotExist, []) fun data => (.success, data) := by
  by_cases hbit : bit page.bitmap slotNum = true
  · rw [getRecord, slot, if_neg (by omega), if_pos hbit, if_pos ⟨hs, hbit⟩]
    rfl
  · rw [getRecord, slot, if_neg (by omega), if_neg hbit, if_neg fun hc => hbit hc.2]
    rfl

theorem bit_initEmptyPage (recordSize : ℕ) (page : RecordPage) {i : ℕ}
    (hi : i < (PageHeader.empty recordSize).recordCapacity) :
    bit (page.initEmptyPage recordSize).bitmap i = false := by
  have hcond : pageHeaderSize ≤ pageHeaderSize + i / 8 ∧ pageHeaderSize + i / 8 < pageHeaderSize +
      pageBitmapSize (PageHeader.empty recordSize).recordCapacity := by
    unfold pageBitmapSize
    omega
  have hbyte : (page.initEmptyPage recordSize).bitmap (i / 8) = 0#8 := if_pos hcond
  rw [bit, hbyte]
  exact test_zero (by omega)

/-- `init_empty_page` makes a page without records, whatever the frame held. -/
theorem wellFormed_initEmptyPage (recordSize : ℕ) (page : RecordPage) :
    (page.initEmptyPage recordSize).WellFormed recordSize := by
  have hzero : popcount (bit (page.initEmptyPage recordSize).bitmap)
      (PageHeader.empty recordSize).recordCapacity = 0 :=
    popcount_eq_zero_iff.mpr fun i hi => bit_initEmptyPage recordSize page hi
  unfold WellFormed
  rw [hzero]
  rfl

theorem slot_initEmptyPage (recordSize : ℕ) (page : RecordPage) (i : ℕ) :
    (page.initEmptyPage recordSize).slot i = none := by
  apply if_neg
  rintro ⟨hi, hbit⟩
  rw [bit_initEmptyPage recordSize page hi] at hbit
  cases hbit

end RecordPage

end TDB.Recorder
