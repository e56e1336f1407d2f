import Mathlib.Logic.Function.Basic
import Mathlib.Data.Int.Order.Basic
import TDB.RC

namespace TDB

/-- `PageNum`, an `int32_t` of which only `-1` and non-negative values occur. -/
abbrev PageNum := ℤ

def invalidPageNum : PageNum := -1

/-- `BP_PAGE_DATA_SIZE`, the bytes of a page behind its page number and LSN. -/
def pageDataSize : ℕ := 8192 - 8

/-- `FileHeader::MAX_PAGE_NUM`: the bits that fit behind the two counters. -/
def maxPageNum : ℕ := (pageDataSize - 8) * 8

/-- The two page contents the pool itself makes: `cleared` is what `clear_page` leaves, `unread`
is whatever stands in a frame whose load failed. -/
class PageData (D : Type) where
  cleared : D
  unread : D

/-- A `Frame` of the frame table, without its access time. -/
structure Frame (D : Type) where
  data : D
  dirty : Bool
  pinCount : ℤ

namespace Frame

variable {D : Type}

def pin (f : Frame D) : Frame D := { f with pinCount := f.pinCount + 1 }

def unpin (f : Frame D) : Frame D := { f with pinCount := f.pinCount - 1 }

def markDirty (f : Frame D) : Frame D := { f with dirty := true }

def setData (d : D) (f : Frame D) : Frame D := { f with data := d }

end Frame

/-- `FileHeader`, the content of page 0. -/
structure FileHeader where
  pageCount : ℕ
  allocatedPages : ℤ
  bitmap : PageNum → Bool

/-- `FileBufferPool` with the frames of its own file.  `file` is what a load of a page reads;
`none` is a page behind the end of the file.  The last two fields only record history: how often
`allocate_page` failed, and how often the `ASSERT` of `free_internal` met a frame that somebody
still holds.  The frame allocator always has a frame: `allocate_frame` returns no error, and a
call that never finds one does not return at all. -/
structure FileBufferPool (D : Type) where
  fileHeader : FileHeader
  hdrDirty : Bool
  frames : PageNum → Option (Frame D)
  file : PageNum → Option D
  allocFailures : ℕ
  pinnedFrees : ℕ

namespace FileBufferPool

variable {D : Type} [PageData D]

/-- The frame of a page: the one in the frame table, or the one a load would put there. -/
def frame (bp : FileBufferPool D) (p : PageNum) : Option (Frame D) :=
  match bp.frames p with
  | some f => some f
  | none => (bp.file p).map fun d => ⟨d, false, 0⟩

/-- A change made through a `Frame *`.  Frame pointers are modelled by their page numbers. -/
def modify (p : PageNum) (g : Frame D → Frame D) (bp : FileBufferPool D) : FileBufferPool D :=
  match bp.frame p with
  | some f => { bp with frames := Function.update bp.frames p (some (g f)) }
  | none => bp

/-- `get_this_page`.  `evict_page` does nothing, so a frame whose load failed stays in the table
with the pin it got from `alloc`. -/
def getThisPage (p : PageNum) (bp : FileBufferPool D) : RC × FileBufferPool D :=
  match bp.frame p with
  | some _ => (.success, bp.modify p Frame.pin)
  | none => (.ioerrRead,
      { bp with frames := Function.update bp.frames p (some ⟨PageData.unread, false, 1⟩) })

def unpinPage (p : PageNum) (bp : FileBufferPool D) : FileBufferPool D :=
  bp.modify p Frame.unpin

/-- The free page that the bitmap search of `allocate_page` finds. -/
def freeBit (bp : FileBufferPool D) : Option ℕ :=
  if bp.fileHeader.allocatedPages < bp.fileHeader.pageCount then
    (List.range bp.fileHeader.pageCount).find? fun i => !bp.fileHeader.bitmap i
  else none

def setBit (p : PageNum) (bp : FileBufferPool D) : FileBufferPool D :=
  { bp with
    fileHeader := { bp.fileHeader with
      allocatedPages := bp.fileHeader.allocatedPages + 1
      bitmap := Function.update bp.fileHeader.bitmap p true }
    hdrDirty := true }

def noteFailure (bp : FileBufferPool D) : FileBufferPool D :=
  { bp with allocFailures := bp.allocFailures + 1 }

/-- The page behind the last one: `allocate_page` adds it to the file with a cleared frame. -/
def extend (bp : FileBufferPool D) : FileBufferPool D :=
  let p : PageNum := bp.fileHeader.pageCount
  let f : Frame D := match bp.frames p with
    | some f => { f with data := PageData.cleared, pinCount := f.pinCount + 1 }
    | none => ⟨PageData.cleared, false, 1⟩
  let bp := bp.setBit p
  { bp with
    fileHeader := { bp.fileHeader with pageCount := bp.fileHeader.pageCount + 1 }
    frames := Function.update bp.frames p (some f) }

/-- `allocate_page`: the lowest free page of the file is loaded again, else the file grows. -/
def allocatePage (bp : FileBufferPool D) : (RC × PageNum) × FileBufferPool D :=
  match bp.freeBit with
  | some i =>
    let (rc, bp) := (bp.setBit i).getThisPage i
    ((rc, i), if rc.fail then bp.noteFailure else bp)
  | none =>
    if maxPageNum ≤ bp.fileHeader.pageCount then
      ((.bufferpoolNobuf, invalidPageNum), bp.noteFailure)
    else ((.success, bp.fileHeader.pageCount), bp.extend)

/-- The next `n` calls of `allocate_page` succeed. -/
def canAllocate : ℕ → FileBufferPool D → Bool
  | 0, _ => true
  | n + 1, bp => !bp.allocatePage.1.1.fail && canAllocate n bp.allocatePage.2

/-- `dispose_page`.  `get` pins the frame before `free_internal` asserts that its pin count is 1;
the assertion is compiled out of release builds, so a frame in use is freed all the same. -/
def disposePage (p : PageNum) (bp : FileBufferPool D) : RC × FileBufferPool D :=
  match bp.frames p with
  | none => (.notfound, bp)
  | some f => (.success,
      { bp with
        fileHeader := { bp.fileHeader with
          allocatedPages := bp.fileHeader.allocatedPages - 1
          bitmap := Function.update bp.fileHeader.bitmap p false }
        hdrDirty := true
        frames := Function.update bp.frames p none
        pinnedFrees := bp.pinnedFrees + if f.pinCount = 0 then 0 else 1 })

end FileBufferPool

/-! ## Changes of one frame -/

namespace FileBufferPool

variable {D : Type}

theorem frame_modify (bp : FileBufferPool D) (p q : PageNum) (g : Frame D → Frame D) :
    (bp.modify p g).frame q = if q = p then (bp.frame p).map g else bp.frame q := by
  unfold modify
  cases hf : bp.frame p with
  | none =>
    by_cases hq : q = p
    · subst hq; simp [hf]
    · simp [hq]
  | some f =>
    by_cases hq : q = p
    · subst hq; simp [frame]
    · simp [frame, hq]

@[simp] theorem fileHeader_modify (bp : FileBufferPool D) (p : PageNum) (g : Frame D → Frame D) :
    (bp.modify p g).fileHeader = bp.fileHeader := by
  unfold modify; split <;> rfl

@[simp] theorem file_modify (bp : FileBufferPool D) (p : PageNum) (g : Frame D → Frame D) :
    (bp.modify p g).file = bp.file := by
  unfold modify; split <;> rfl

@[simp] theorem allocFailures_modify (bp : FileBufferPool D) (p : PageNum)
    (g : Frame D → Frame D) : (bp.modify p g).allocFailures = bp.allocFailures := by
  unfold modify; split <;> rfl

@[simp] theorem pinnedFrees_modify (bp : FileBufferPool D) (p : PageNum)
    (g : Frame D → Frame D) : (bp.modify p g).pinnedFrees = bp.pinnedFrees := by
  unfold modify; split <;> rfl

theorem frames_modify (bp : FileBufferPool D) (p q : PageNum) (g : Frame D → Frame D) :
    (bp.modify p g).frames q = if q = p then (bp.frame p).map g else bp.frames q := by
  unfold modify
  cases hf : bp.frame p with
  | none =>
    by_cases hq : q = p
    · subst hq
      have : bp.frames q = none := by
        unfold frame at hf; split at hf <;> simp_all
      simp [this]
    · simp [hq]
  | some f =>
    by_cases hq : q = p
    · subst hq; simp
    · simp [hq]

theorem frame_update_frames {bp : FileBufferPool D} {hdr : FileHeader} {dirty : Bool}
    {n : ℕ} {p q : PageNum} {f : Frame D} :
    (FileBufferPool.mk hdr dirty (Function.update bp.frames p (some f)) bp.file n
      bp.pinnedFrees).frame q = if q = p then some f else bp.frame q := by
  unfold frame
  by_cases hq : q = p
  · subst hq; simp
  · simp [hq]

/-- The bitmap search finds the lowest free page of the file. -/
theorem freeBit_eq_some {bp : FileBufferPool D} {i : ℕ} (h : bp.freeBit = some i) :
    i < bp.fileHeader.pageCount ∧ bp.fileHeader.bitmap i = false ∧
      ∀ j < i, bp.fileHeader.bitmap j = true := by
  unfold freeBit at h
  split at h
  · obtain ⟨hi, hmem, hj⟩ := List.find?_range_eq_some.mp h
    simp only [Bool.not_eq_eq_eq_not, Bool.not_true, Bool.not_false, List.mem_range] at hi hmem hj
    exact ⟨hmem, hi, hj⟩
  · cases h

end FileBufferPool

end TDB
