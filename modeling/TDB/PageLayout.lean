import Mathlib.Algebra.Order.Floor.Ring
import Mathlib.Data.Rat.Floor
import TDB.RecordPage

namespace TDB.Recorder

/-! ## The layout as `int`s compute it -/

/-- The value of an `int` expression; `none` is an overflow. -/
def int32 (n : ℤ) : Option ℤ := if -2 ^ 31 ≤ n ∧ n < 2 ^ 31 then some n else none

/-- The conversion of a double to an integer. -/
def truncate (q : ℚ) : ℤ := if 0 ≤ q then ⌊q⌋ else ⌈q⌉

/-- `PageHeader` with its `int32_t` fields. -/
structure PageHeader32 where
  recordNum : ℤ
  recordRealSize : ℤ
  recordSize : ℤ
  recordCapacity : ℤ
  firstRecordOffset : ℤ
  deriving DecidableEq

namespace PageHeader32

def align8 (size : ℤ) : Option ℤ := do
  let sum ← int32 (size + 7)
  int32 (sum.tdiv 8 * 8)

/-- `page_record_capacity`, the division being exact. -/
def pageRecordCapacity (pageSize recordSize : ℤ) : Option ℤ := do
  let room ← int32 (pageSize - pageHeaderSize - 1)
  int32 (truncate (room / (recordSize + 1 / 8)))

def pageBitmapSize (recordCapacity : ℤ) : Option ℤ := do
  let sum ← int32 (recordCapacity + 7)
  int32 (sum.tdiv 8)

def fixLoop (recordSize : ℤ) : ℕ → ℤ → ℤ → Option ℤ
  | 0, _, _ => none
  | fuel + 1, recordCapacity, lastRecordOffset =>
    if pageDataSize < lastRecordOffset then do
      let recordCapacity ← int32 (recordCapacity - 1)
      let lastRecordOffset ← int32 (lastRecordOffset - recordSize)
      fixLoop recordSize fuel recordCapacity lastRecordOffset
    else some recordCapacity

def fixRecordCapacity (fuel : ℕ) (header : PageHeader32) : Option PageHeader32 := do
  let size ← int32 (header.recordCapacity * header.recordSize)
  let lastRecordOffset ← int32 (header.firstRecordOffset + size)
  let recordCapacity ← fixLoop header.recordSize fuel header.recordCapacity lastRecordOffset
  return { header with recordCapacity }

def initEmptyPage (fuel : ℕ) (recordSize : ℤ) : Option PageHeader32 := do
  let size ← align8 recordSize
  let capacity ← pageRecordCapacity pageDataSize size
  let bitmapSize ← pageBitmapSize capacity
  let offset ← align8 (← int32 (pageHeaderSize + bitmapSize))
  fixRecordCapacity fuel ⟨0, recordSize, size, capacity, offset⟩

/-- The offset that `get_record_data` computes. -/
def getRecordData (header : PageHeader32) (slotNum : ℤ) : Option ℤ := do
  let offset ← int32 (header.recordSize * slotNum)
  int32 (header.firstRecordOffset + offset)

end PageHeader32

/-! ## The `int`s are the natural numbers of the page -/

theorem int32_natCast {n : ℕ} (h : n < 2 ^ 31) : int32 n = some (n : ℤ) :=
  if_pos ⟨by omega, by omega⟩

theorem truncate_natDiv (m n : ℕ) : truncate ((m : ℚ) / n) = (m / n : ℕ) := by
  unfold truncate
  rw [if_pos (by positivity), Rat.floor_natCast_div_natCast, Int.natCast_div]

theorem quotient_eq (room size : ℕ) :
    ((room : ℕ) : ℚ) / ((size : ℚ) + 1 / 8) = ((8 * room : ℕ) : ℚ) / ((8 * size + 1 : ℕ) : ℚ) := by
  push_cast
  field_simp

/-- The header of a page as the `int`s of the machine. -/
def PageHeader.toInt32 (header : PageHeader) : PageHeader32 :=
  ⟨header.recordNum, header.recordRealSize, header.recordSize, header.recordCapacity,
    header.firstRecordOffset⟩

namespace PageHeader32

theorem align8_natCast {n : ℕ} (h : n + 7 < 2 ^ 31) : align8 n = some (Recorder.align8 n : ℤ) := by
  have hle : Recorder.align8 n < 2 ^ 31 := by
    unfold Recorder.align8
    omega
  have hsum : int32 ((n : ℤ) + 7) = some ((n + 7 : ℕ) : ℤ) := int32_natCast h
  have hdiv : (((n + 7 : ℕ) : ℤ)).tdiv 8 * 8 = ((Recorder.align8 n : ℕ) : ℤ) := by
    rw [Int.tdiv_eq_ediv_of_nonneg (Int.natCast_nonneg _)]
    rfl
  unfold align8
  rw [hsum, Option.bind_eq_bind, Option.bind_some, hdiv]
  exact int32_natCast hle

theorem pageBitmapSize_natCast {n : ℕ} (h : n + 7 < 2 ^ 31) :
    pageBitmapSize n = some (Recorder.pageBitmapSize n : ℤ) := by
  have hsum : int32 ((n : ℤ) + 7) = some ((n + 7 : ℕ) : ℤ) := int32_natCast h
  have hdiv : (((n + 7 : ℕ) : ℤ)).tdiv 8 = ((Recorder.pageBitmapSize n : ℕ) : ℤ) := by
    rw [Int.tdiv_eq_ediv_of_nonneg (Int.natCast_nonneg _)]
    rfl
  unfold pageBitmapSize
  rw [hsum, Option.bind_eq_bind, Option.bind_some, hdiv]
  refine int32_natCast (lt_of_le_of_lt ?_ h)
  unfold Recorder.pageBitmapSize
  omega

/-- The capacity that the division of doubles yields is the one of the integer division. -/
theorem pageRecordCapacity_natCast (size : ℕ) :
    pageRecordCapacity pageDataSize size =
      some (Recorder.pageRecordCapacity pageDataSize size : ℤ) := by
  have hroom : int32 ((pageDataSize : ℤ) - pageHeaderSize - 1) =
      some ((pageDataSize - pageHeaderSize - 1 : ℕ) : ℤ) := rfl
  have hquotient : truncate (((pageDataSize - pageHeaderSize - 1 : ℕ) : ℤ) /
      (((size : ℕ) : ℤ) + 1 / 8)) = (Recorder.pageRecordCapacity pageDataSize size : ℤ) := by
    rw [Int.cast_natCast, Int.cast_natCast, quotient_eq, truncate_natDiv]
    rfl
  unfold pageRecordCapacity
  rw [hroom, Option.bind_eq_bind, Option.bind_some, hquotient]
  refine int32_natCast (lt_of_le_of_lt (Nat.div_le_self _ _) ?_)
  decide

/-- The loop ends; the induction is on the capacity, and the offset behind the last record stays
below `2 ^ 31`. -/
theorem fixLoop_natCast {offset size : ℕ} (hsize : 0 < size) (hoffset : offset ≤ pageDataSize) :
    ∀ {capacity fuel : ℕ}, capacity < fuel → offset + capacity * size < 2 ^ 31 →
    fixLoop size fuel capacity ((offset + capacity * size : ℕ) : ℤ) =
      some (Recorder.fixRecordCapacity offset size capacity : ℤ)
  | _, 0, hfuel, _ => absurd hfuel (Nat.not_lt_zero _)
  | 0, fuel + 1, _, _ => by
    unfold fixLoop Recorder.fixRecordCapacity
    rw [if_neg (by omega)]
  | capacity + 1, fuel + 1, hfuel, hlast => by
    have hmul : (capacity + 1) * size = capacity * size + size := Nat.succ_mul ..
    have hle : capacity ≤ capacity * size := Nat.le_mul_of_pos_right _ hsize
    unfold fixLoop Recorder.fixRecordCapacity
    by_cases hover : pageDataSize < offset + (capacity + 1) * size
    · have hcapacity : int32 (((capacity + 1 : ℕ) : ℤ) - 1) = some (capacity : ℤ) := by
        rw [show ((capacity + 1 : ℕ) : ℤ) - 1 = (capacity : ℤ) by omega]
        exact int32_natCast (by omega)
      have hnext : int32 (((offset + (capacity + 1) * size : ℕ) : ℤ) - size) =
          some ((offset + capacity * size : ℕ) : ℤ) := by
        rw [hmul, show ((offset + (capacity * size + size) : ℕ) : ℤ) - size =
          ((offset + capacity * size : ℕ) : ℤ) by omega]
        exact int32_natCast (by omega)
      rw [if_pos (Int.ofNat_lt.mpr hover), if_pos hover, hcapacity, Option.bind_eq_bind,
        Option.bind_some, hnext, Option.bind_some]
      exact fixLoop_natCast hsize hoffset (Nat.lt_of_succ_lt_succ hfuel) (by omega)
    · rw [if_neg fun h => hover (Int.ofNat_lt.mp h), if_neg hover]

theorem capacity_mul_le (size : ℕ) :
    Recorder.pageRecordCapacity pageDataSize size * (8 * size + 1) ≤ 8 * 8163 :=
  Nat.div_mul_le_self ..

theorem fixRecordCapacity_natCast (recordSize : ℕ) {size capacity offset : ℕ} (hsize : 0 < size)
    (hrecords : capacity * size < 2 ^ 30) (hoffset : offset ≤ pageDataSize) :
    fixRecordCapacity (capacity + 1) ⟨0, recordSize, size, capacity, offset⟩ =
      some ⟨0, recordSize, size, (Recorder.fixRecordCapacity offset size capacity : ℕ),
        offset⟩ := by
  have hpage : pageDataSize < 2 ^ 30 := by decide
  have hproduct : int32 ((capacity : ℤ) * size) = some ((capacity * size : ℕ) : ℤ) := by
    rw [← Int.natCast_mul]
    exact int32_natCast (by omega)
  have hlast : offset + capacity * size < 2 ^ 31 := by omega
  have hend : int32 ((offset : ℤ) + ((capacity * size : ℕ) : ℤ)) =
      some ((offset + capacity * size : ℕ) : ℤ) := by
    rw [← Int.natCast_add]
    exact int32_natCast hlast
  have hloop := fixLoop_natCast hsize hoffset (Nat.lt_succ_self capacity) hlast
  unfold fixRecordCapacity
  dsimp only
  rw [hproduct, Option.bind_eq_bind, Option.bind_some, hend, Option.bind_some, hloop,
    Option.bind_some]
  rfl

theorem initEmptyPage_natCast {recordSize : ℕ} (hpos : 1 ≤ recordSize)
    (hlt : recordSize ≤ 2 ^ 31 - 8) :
    ∃ fuel, initEmptyPage fuel recordSize = some (PageHeader.empty recordSize).toInt32 := by
  have hsizePos : 0 < Recorder.align8 recordSize := by
    unfold Recorder.align8
    omega
  have hbits := capacity_mul_le (Recorder.align8 recordSize)
  have hoffset : Recorder.align8 (pageHeaderSize + Recorder.pageBitmapSize
      (Recorder.pageRecordCapacity pageDataSize (Recorder.align8 recordSize))) ≤ pageDataSize :=
    Nat.le_of_add_right_le (records_fit recordSize)
  have hheader : (PageHeader.empty recordSize).toInt32 = ⟨0, recordSize,
      Recorder.align8 recordSize,
      (Recorder.fixRecordCapacity
        (Recorder.align8 (pageHeaderSize + Recorder.pageBitmapSize
          (Recorder.pageRecordCapacity pageDataSize (Recorder.align8 recordSize))))
        (Recorder.align8 recordSize)
        (Recorder.pageRecordCapacity pageDataSize (Recorder.align8 recordSize)) : ℕ),
      (Recorder.align8 (pageHeaderSize + Recorder.pageBitmapSize
        (Recorder.pageRecordCapacity pageDataSize (Recorder.align8 recordSize))) : ℕ)⟩ := rfl
  have hcapacity := pageRecordCapacity_natCast (Recorder.align8 recordSize)
  have halign := align8_natCast (n := recordSize) (by omega)
  rw [hheader]
  -- from here on all sizes are at most a page, so that no step overflows
  generalize Recorder.align8 recordSize = size at *
  generalize Recorder.pageRecordCapacity pageDataSize size = capacity at *
  have hle : capacity ≤ 8 * 8163 :=
    (Nat.le_mul_of_pos_right _ (Nat.succ_pos _)).trans hbits
  have hrecords : capacity * size ≤ 8163 := by
    rw [Nat.mul_succ, Nat.mul_left_comm] at hbits
    omega
  have hbitmap := pageBitmapSize_natCast (n := capacity) (by omega)
  have hbitmapLe : Recorder.pageBitmapSize capacity ≤ 8 * 8163 := by
    unfold Recorder.pageBitmapSize
    omega
  have hstart : int32 ((pageHeaderSize : ℤ) + Recorder.pageBitmapSize capacity) =
      some ((pageHeaderSize + Recorder.pageBitmapSize capacity : ℕ) : ℤ) := by
    rw [← Int.natCast_add]
    exact int32_natCast (by unfold pageHeaderSize; omega)
  have hfirst := align8_natCast (n := pageHeaderSize + Recorder.pageBitmapSize capacity)
    (by unfold pageHeaderSize; omega)
  have hfix := fixRecordCapacity_natCast recordSize hsizePos
    (show capacity * size < 2 ^ 30 by omega) hoffset
  refine ⟨capacity + 1, ?_⟩
  unfold initEmptyPage
  rw [halign, Option.bind_eq_bind, Option.bind_some, hcapacity, Option.bind_some, hbitmap,
    Option.bind_some, hstart, Option.bind_some, hfirst, Option.bind_some, hfix]

end PageHeader32

/-! ## The layout -/

/-- What the layout of a page for records of some size must give. -/
structure PageLayout (recordSize : ℤ) (header : PageHeader32) : Prop where
  capacity : 0 ≤ header.recordCapacity
  /-- The bitmap begins behind the page header and ends before the first record. -/
  bitmap : ∃ size, PageHeader32.pageBitmapSize header.recordCapacity = some size ∧ 0 ≤ size ∧
    pageHeaderSize + size ≤ header.firstRecordOffset
  /-- Every slot lies behind the first offset and in the page. -/
  inPage : ∀ i, 0 ≤ i → i < header.recordCapacity → ∃ offset, header.getRecordData i = some offset ∧
    header.firstRecordOffset ≤ offset ∧ offset + header.recordSize ≤ pageDataSize
  disjoint : ∀ i j offset offset', 0 ≤ i → i < j → j < header.recordCapacity →
    header.getRecordData i = some offset → header.getRecordData j = some offset' →
    offset + header.recordSize ≤ offset'
  holds : header.recordRealSize = recordSize ∧ recordSize ≤ header.recordSize

theorem slot_end_le {recordSize i : ℕ} (hi : i < (PageHeader.empty recordSize).recordCapacity) :
    (PageHeader.empty recordSize).firstRecordOffset + (PageHeader.empty recordSize).recordSize * i +
      (PageHeader.empty recordSize).recordSize ≤ pageDataSize := by
  have hfit := records_fit recordSize
  have hmul := Nat.mul_le_mul_right (PageHeader.empty recordSize).recordSize (Nat.succ_le_of_lt hi)
  rw [Nat.succ_mul, Nat.mul_comm i] at hmul
  omega

theorem getRecordData_toInt32 {recordSize i : ℕ}
    (hi : i < (PageHeader.empty recordSize).recordCapacity) :
    (PageHeader.empty recordSize).toInt32.getRecordData i =
      some (((PageHeader.empty recordSize).firstRecordOffset +
        (PageHeader.empty recordSize).recordSize * i : ℕ) : ℤ) := by
  have hend := slot_end_le hi
  generalize PageHeader.empty recordSize = header at *
  have hpage : pageDataSize < 2 ^ 31 := by decide
  have hproduct : int32 ((header.recordSize : ℤ) * i) = some ((header.recordSize * i : ℕ) : ℤ) := by
    rw [← Int.natCast_mul]
    exact int32_natCast (by omega)
  have hsum : int32 ((header.firstRecordOffset : ℤ) + ((header.recordSize * i : ℕ) : ℤ)) =
      some ((header.firstRecordOffset + header.recordSize * i : ℕ) : ℤ) := by
    rw [← Int.natCast_add]
    exact int32_natCast (by omega)
  unfold PageHeader32.getRecordData PageHeader.toInt32
  rw [hproduct, Option.bind_eq_bind, Option.bind_some, hsum]

theorem recordCapacity_lt (recordSize : ℕ) :
    (PageHeader.empty recordSize).recordCapacity + 7 < 2 ^ 31 := by
  have hle : (PageHeader.empty recordSize).recordCapacity ≤
      pageRecordCapacity pageDataSize (align8 recordSize) := fixRecordCapacity_le ..
  have hcapacity : pageRecordCapacity pageDataSize (align8 recordSize) ≤ 8 * 8163 :=
    (Nat.le_mul_of_pos_right _ (Nat.succ_pos _)).trans (PageHeader32.capacity_mul_le _)
  omega

theorem pageLayout_toInt32 (recordSize : ℕ) :
    PageLayout recordSize (PageHeader.empty recordSize).toInt32 where
  capacity := Int.natCast_nonneg _
  bitmap := ⟨_, PageHeader32.pageBitmapSize_natCast (recordCapacity_lt recordSize),
    Int.natCast_nonneg _, Int.ofNat_le.mpr (bitmap_before_records recordSize)⟩
  inPage i hi hlt := by
    obtain ⟨n, rfl⟩ := Int.eq_ofNat_of_zero_le hi
    have hn : n < (PageHeader.empty recordSize).recordCapacity := Int.ofNat_lt.mp hlt
    refine ⟨_, getRecordData_toInt32 hn, ?_, Int.ofNat_le.mpr (slot_end_le hn)⟩
    exact Int.ofNat_le.mpr (Nat.le_add_right ..)
  disjoint i j offset offset' hi hij hj hoffset hoffset' := by
    obtain ⟨m, rfl⟩ := Int.eq_ofNat_of_zero_le hi
    obtain ⟨n, rfl⟩ := Int.eq_ofNat_of_zero_le (hi.trans (Int.le_of_lt hij))
    have hlt : m < n := Int.ofNat_lt.mp hij
    have hn : n < (PageHeader.empty recordSize).recordCapacity := Int.ofNat_lt.mp hj
    have hfirst := hoffset.symm.trans (getRecordData_toInt32 (hlt.trans hn))
    have hsecond := hoffset'.symm.trans (getRecordData_toInt32 hn)
    rw [Option.some.inj hfirst, Option.some.inj hsecond]
    refine Int.ofNat_le.mpr ?_
    have hmul := Nat.mul_le_mul_left (PageHeader.empty recordSize).recordSize
      (Nat.succ_le_of_lt hlt)
    rw [Nat.mul_succ] at hmul
    omega
  holds := ⟨rfl, Int.ofNat_le.mpr (recordRealSize_le recordSize)⟩

/-- For every record size the correction ends, and the page has room for its header, its bitmap and
all its slots, one behind the other. -/
theorem initEmptyPage_layout (recordSize : ℤ) (hpos : 1 ≤ recordSize)
    (hlt : recordSize ≤ 2 ^ 31 - 8) :
    ∃ fuel header, PageHeader32.initEmptyPage fuel recordSize = some header ∧
      PageLayout recordSize header := by
  obtain ⟨n, rfl⟩ := Int.eq_ofNat_of_zero_le (Int.le_trans Int.one_nonneg hpos)
  obtain ⟨fuel, hfuel⟩ := PageHeader32.initEmptyPage_natCast (Int.ofNat_le.mp hpos)
    (show n ≤ 2 ^ 31 - 8 by omega)
  exact ⟨fuel, _, hfuel, pageLayout_toInt32 n⟩

theorem initEmptyPage_layout_hundred : ∃ fuel header,
    PageHeader32.initEmptyPage fuel 100 = some header ∧ PageLayout 100 header :=
  initEmptyPage_layout 100 (by decide) (by decide)

-- two records that fill the page to its last byte
example : PageHeader32.initEmptyPage 3 4080 = some ⟨0, 4080, 4080, 2, 24⟩ := by decide +kernel

end TDB.Recorder
