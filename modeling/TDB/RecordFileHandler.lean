import Mathlib.Data.Finset.Card
import TDB.PageAllocation
import TDB.RecordPage

namespace TDB

open ByteBits

/-! ## `BufferPoolIterator` -/

def FileHeader.bitmapBytes (h : FileHeader) : ℕ → BitVec 8 := bytesOf fun i => h.bitmap i

/-- The bytes of the bitmap in page 0 are those that the masks of `allocate_page` and `dispose_page` work on. -/
theorem FileHeaderBytes.bitmapBytes_view (h : FileHeaderBytes) : h.view.bitmapBytes = h.bitmap := by
  unfold FileHeader.bitmapBytes
  rw [view_bitmap_eq, bytesOf_bit]

/-- `BufferPoolIterator`: the bitmap is read where it lies, its size is fixed by `init`. -/
structure BufferPoolIterator where
  size : ℕ
  currentPageNum : ℕ

namespace BufferPoolIterator

/-- `init` with the default start page. -/
def init (h : FileHeader) : BufferPoolIterator := ⟨h.pageCount, 0⟩

/-- `next`; `has_next` asks whether it finds a page. -/
def next (h : FileHeader) (it : BufferPoolIterator) : Option (ℕ × BufferPoolIterator) :=
  (Bitmap.nextSettedBit h.bitmapBytes it.size (it.currentPageNum + 1)).map fun p =>
    (p, { it with currentPageNum := p })

/-- Behind an allocated page the iterator finds the next allocated one. -/
theorem next_eq {h : FileHeader} {it : BufferPoolIterator}
    (hbit : h.bitmap it.currentPageNum = true) :
    it.next h = (lowest (fun i => h.bitmap i) (it.currentPageNum + 1) it.size).map fun p =>
      (p, { it with currentPageNum := p }) := by
  have hset : bit h.bitmapBytes = fun i : ℕ => h.bitmap i := bit_bytesOf _
  rw [next, Bitmap.nextSettedBit_succ it.size (by rw [hset]; exact hbit), hset]

end BufferPoolIterator

namespace Recorder

/-! ## `RecordFileHandler` -/

/-- `RID` of a record: its page and its slot. -/
structure RID where
  pageNum : ℕ
  slotNum : ℕ
  deriving DecidableEq, Repr

/-- What `*free_pages_.begin()` yields.  The order of an `unordered_set` is not specified, so each
call of `insert_record` is given one such choice. -/
structure Begin where
  pick : Finset ℕ → ℕ
  pick_mem : ∀ pages, pages.Nonempty → pick pages ∈ pages

/-- `RecordFileHandler` with the pool of its file. -/
structure RecordFileHandler where
  fileBufferPool : FileBufferPool RecordPage
  freePages : Finset ℕ

namespace RecordFileHandler

def page (s : RecordFileHandler) (p : ℕ) : RecordPage :=
  match s.fileBufferPool.frame p with
  | some f => f.data
  | none => PageData.unread

def initPage (p : ℕ) (s : RecordFileHandler) : RC × RecordFileHandler :=
  let (rc, bp) := s.fileBufferPool.getThisPage p
  (rc, { s with fileBufferPool := bp })

def cleanup (p : ℕ) (s : RecordFileHandler) : RecordFileHandler :=
  { s with fileBufferPool := s.fileBufferPool.unpinPage p }

def setPage (p : ℕ) (page : RecordPage) (s : RecordFileHandler) : RecordFileHandler :=
  { s with fileBufferPool := s.fileBufferPool.modify p (Frame.setData page) }

def markDirty (p : ℕ) (s : RecordFileHandler) : RecordFileHandler :=
  { s with fileBufferPool := s.fileBufferPool.modify p Frame.markDirty }

/-- `init_free_pages`; the bound is the number of pages the iterator can still reach. -/
def initFreePages : ℕ → BufferPoolIterator → RecordFileHandler → RC × RecordFileHandler
  | 0, _, s => (.success, s)
  | n + 1, it, s =>
    match it.next s.fileBufferPool.fileHeader with
    | none => (.success, s)
    | some (p, it) =>
      let (rc, s) := s.initPage p
      if rc.fail then (rc, s)
      else
        let s := if (s.page p).isFull then s else { s with freePages := insert p s.freePages }
        initFreePages n it (s.cleanup p)

/-- `RecordFileHandler::init`, which does not look at the code of `init_free_pages`. -/
def init (bp : FileBufferPool RecordPage) : RC × RecordFileHandler :=
  (.success, (initFreePages bp.fileHeader.pageCount (.init bp.fileHeader) ⟨bp, ∅⟩).2)

/-- The search of `insert_record` for a page that is not full; full pages leave `free_pages_`. -/
def findPage (begin : Begin) : ℕ → RecordFileHandler → (RC × Option ℕ) × RecordFileHandler
  | 0, s => ((.success, none), s)
  | n + 1, s =>
    if s.freePages = ∅ then ((.success, none), s)
    else
      let p := begin.pick s.freePages
      let (rc, s) := s.initPage p
      if rc.fail then ((rc, none), s)
      else if (s.page p).isFull then
        findPage begin n { s.cleanup p with freePages := s.freePages.erase p }
      else ((.success, some p), s)

/-- The end of `insert_record`: the page handler inserts, and its destructor cleans up. -/
def insertInto (p : ℕ) (data : List (BitVec 8)) (s : RecordFileHandler) :
    Option ((RC × Option RID) × RecordFileHandler) :=
  match (s.page p).insertRecord data with
  | none => none
  | some ((rc, none), _) => some ((rc, none), s.cleanup p)
  | some ((rc, some slotNum), page) =>
    some ((rc, some ⟨p, slotNum⟩), ((s.setPage p page).markDirty p).cleanup p)

/-- The part of `insert_record` that adds a page: `allocate_page`, `init_empty_page` with its own
pin, and the new page in `free_pages_`.  `flush_page` does nothing. -/
def addPage (recordSize : ℕ) (s : RecordFileHandler) : (RC × ℕ) × RecordFileHandler :=
  let ((rc, p), bp) := s.fileBufferPool.allocatePage
  let p := p.toNat
  let s := { s with fileBufferPool := bp }
  if rc.fail then ((rc, p), s)
  else
    let (rc, s) := s.initPage p
    if rc.fail then ((rc, p), s.cleanup p)
    else
      let s := (s.setPage p ((s.page p).initEmptyPage recordSize)).cleanup p
      ((.success, p), { s with freePages := insert p s.freePages })

/-- `RecordFileHandler::insert_record`.  `none` is undefined behaviour in the page handler. -/
def insertRecord (begin : Begin) (data : List (BitVec 8)) (recordSize : ℕ)
    (s : RecordFileHandler) : Option ((RC × Option RID) × RecordFileHandler) :=
  match findPage begin s.freePages.card s with
  | ((_, some p), s) => s.insertInto p data
  | ((rc, none), s) =>
    if rc.fail then some ((rc, none), s)
    else
      let ((rc, p), s) := s.addPage recordSize
      if rc.fail then some ((rc, none), s) else s.insertInto p data

def deleteRecord (rid : RID) (s : RecordFileHandler) : RC × RecordFileHandler :=
  let (rc, s) := s.initPage rid.pageNum
  if rc.fail then (rc, s)
  else
    let (rc, page) := (s.page rid.pageNum).deleteRecord rid.slotNum
    if rc.fail then (rc, s.cleanup rid.pageNum)
    else
      let s := ((s.setPage rid.pageNum page).markDirty rid.pageNum).cleanup rid.pageNum
      (rc, { s with freePages := insert rid.pageNum s.freePages })

/-- `RecordFileHandler::get_record`.  The page handler belongs to the caller, who cleans it up. -/
def getRecord (rid : RID) (s : RecordFileHandler) : (RC × List (BitVec 8)) × RecordFileHandler :=
  let (rc, s) := s.initPage rid.pageNum
  if rc.fail then ((rc, []), s) else ((s.page rid.pageNum).getRecord rid.slotNum, s)

/-! ## What the calls do to the pages -/

def pageAt (s : RecordFileHandler) (p : ℕ) : Option RecordPage :=
  (s.fileBufferPool.frame p).map Frame.data

/-- Page `p` is allocated for records; page 0 holds the file header. -/
def IsRecordPage (s : RecordFileHandler) (p : ℕ) : Prop :=
  0 < p ∧ s.fileBufferPool.fileHeader.bitmap p = true

/-- The same file up to pins and dirty flags. -/
structure SamePages (s s' : RecordFileHandler) : Prop where
  fileHeader : s'.fileBufferPool.fileHeader = s.fileBufferPool.fileHeader
  pageAt : ∀ p, s'.pageAt p = s.pageAt p

variable {s s' s'' : RecordFileHandler} {p q : ℕ}

theorem page_eq {page : RecordPage} (h : s.pageAt p = some page) : s.page p = page := by
  obtain ⟨f, hf, rfl⟩ := Option.map_eq_some_iff.mp h
  rw [RecordFileHandler.page, hf]

theorem SamePages.refl (s : RecordFileHandler) : SamePages s s := ⟨rfl, fun _ => rfl⟩

theorem SamePages.trans (h : SamePages s s') (h' : SamePages s' s'') : SamePages s s'' :=
  ⟨h'.fileHeader.trans h.fileHeader, fun p => (h'.pageAt p).trans (h.pageAt p)⟩

theorem SamePages.isRecordPage (h : SamePages s s') : s'.IsRecordPage p ↔ s.IsRecordPage p := by
  rw [IsRecordPage, IsRecordPage, h.fileHeader]

theorem pageAt_modify (s : RecordFileHandler) (g : Frame RecordPage → Frame RecordPage)
    (p q : ℕ) :
    pageAt { s with fileBufferPool := s.fileBufferPool.modify p g } q =
      if q = p then (s.fileBufferPool.frame p).map fun f => (g f).data else s.pageAt q := by
  unfold pageAt
  rw [FileBufferPool.frame_modify]
  by_cases hq : q = p
  · subst hq
    rw [if_pos rfl, if_pos rfl, Option.map_map]
    rfl
  · rw [if_neg (FileHeader.cast_ne hq), if_neg hq]

theorem samePages_modify (g : Frame RecordPage → Frame RecordPage)
    (hg : ∀ f, (g f).data = f.data) (s : RecordFileHandler) (p : ℕ) :
    SamePages s { s with fileBufferPool := s.fileBufferPool.modify p g } := by
  refine ⟨FileBufferPool.fileHeader_modify _ _ _, fun q => ?_⟩
  rw [pageAt_modify]
  split
  · next hq =>
    subst hq
    simp only [hg]
    rfl
  · rfl

theorem samePages_cleanup (s : RecordFileHandler) (p : ℕ) : SamePages s (s.cleanup p) :=
  samePages_modify Frame.unpin (fun _ => rfl) s p

theorem samePages_markDirty (s : RecordFileHandler) (p : ℕ) : SamePages s (s.markDirty p) :=
  samePages_modify Frame.markDirty (fun _ => rfl) s p

theorem initPage_spec {page : RecordPage} (h : s.pageAt p = some page) :
    (s.initPage p).1 = .success ∧ SamePages s (s.initPage p).2 ∧
      (s.initPage p).2.freePages = s.freePages := by
  obtain ⟨f, hf, -⟩ := Option.map_eq_some_iff.mp h
  unfold initPage FileBufferPool.getThisPage
  rw [hf]
  exact ⟨rfl, samePages_modify Frame.pin (fun _ => rfl) s p, rfl⟩

/-- One page of the file has a new content, everything else is as it was. -/
structure Writes (s s' : RecordFileHandler) (p : ℕ) (page : RecordPage) : Prop where
  fileHeader : s'.fileBufferPool.fileHeader = s.fileBufferPool.fileHeader
  self : s'.pageAt p = some page
  other : ∀ q, q ≠ p → s'.pageAt q = s.pageAt q

theorem writes_setPage (h : s.pageAt p ≠ none) (page' : RecordPage) :
    Writes s (s.setPage p page') p page' := by
  obtain ⟨f, hf⟩ : ∃ f, s.fileBufferPool.frame p = some f := by
    rw [← Option.ne_none_iff_exists']
    intro hnone
    exact h (by rw [pageAt, hnone]; rfl)
  refine ⟨FileBufferPool.fileHeader_modify _ _ _, ?_, fun q hq => ?_⟩
  · rw [setPage, pageAt_modify, if_pos rfl, hf]
    rfl
  · rw [setPage, pageAt_modify, if_neg hq]

theorem Writes.samePages {page : RecordPage} (h : Writes s s' p page) (h' : SamePages s' s'') :
    Writes s s'' p page where
  fileHeader := h'.fileHeader.trans h.fileHeader
  self := (h'.pageAt p).trans h.self
  other q hq := (h'.pageAt q).trans (h.other q hq)

theorem SamePages.writes {page : RecordPage} (h : SamePages s s') (h' : Writes s' s'' p page) :
    Writes s s'' p page where
  fileHeader := h'.fileHeader.trans h.fileHeader
  self := h'.self
  other q hq := (h'.other q hq).trans (h.pageAt q)

/-! ## The invariant -/

/-- The file between two calls: each page for records is well-formed, and `free_pages_` holds all
of them that are not full. -/
structure Inv (recordSize : ℕ) (s : RecordFileHandler) : Prop where
  header : s.fileBufferPool.fileHeader.Consistent
  pages : ∀ p, s.IsRecordPage p → ∃ page, s.pageAt p = some page ∧ page.WellFormed recordSize
  free : ∀ p page, s.IsRecordPage p → s.pageAt p = some page → page.isFull = false →
    p ∈ s.freePages
  isRecordPage : ∀ p ∈ s.freePages, s.IsRecordPage p

def records (s : RecordFileHandler) (rid : RID) : Option (List (BitVec 8)) :=
  if 0 < rid.pageNum ∧ s.fileBufferPool.fileHeader.bitmap rid.pageNum = true then
    (s.pageAt rid.pageNum).bind fun page => page.slot rid.slotNum
  else none

variable {recordSize : ℕ}

theorem records_eq {page : RecordPage} {rid : RID} (hp : s.IsRecordPage rid.pageNum)
    (h : s.pageAt rid.pageNum = some page) : s.records rid = page.slot rid.slotNum := by
  rw [records, h]
  exact if_pos hp

theorem SamePages.records (h : SamePages s s') : s'.records = s.records := by
  funext rid
  rw [RecordFileHandler.records, RecordFileHandler.records, h.fileHeader, h.pageAt]

theorem Inv.samePages (hi : Inv recordSize s) (h : SamePages s s')
    (hfree : s'.freePages = s.freePages) : Inv recordSize s' where
  header := by rw [h.fileHeader]; exact hi.header
  pages p hp := by rw [h.pageAt]; exact hi.pages p (h.isRecordPage.mp hp)
  free p page hp hpage hfull := by
    rw [hfree]
    rw [h.pageAt] at hpage
    exact hi.free p page (h.isRecordPage.mp hp) hpage hfull
  isRecordPage p hp := h.isRecordPage.mpr (hi.isRecordPage p (hfree ▸ hp))

/-- One page of records is replaced by another, with the page in `free_pages_` unless it is
full. -/
theorem Inv.writes {page : RecordPage} (hi : Inv recordSize s) (hp : s.IsRecordPage p)
    (h : Writes s s' p page) (hwf : page.WellFormed recordSize)
    (hfree : ∀ q, q ∈ s'.freePages → q ∈ s.freePages ∨ q = p)
    (hkeep : ∀ q ∈ s.freePages, q ∈ s'.freePages)
    (hself : page.isFull = false → p ∈ s'.freePages) : Inv recordSize s' where
  header := by rw [h.fileHeader]; exact hi.header
  pages q hq := by
    by_cases hqp : q = p
    · exact ⟨page, hqp ▸ h.self, hwf⟩
    · rw [h.other q hqp]
      apply hi.pages q
      rw [IsRecordPage, h.fileHeader] at hq
      exact hq
  free q page' hq hpage hfull := by
    by_cases hqp : q = p
    · subst hqp
      rw [h.self] at hpage
      cases hpage
      exact hself hfull
    · rw [h.other q hqp] at hpage
      rw [IsRecordPage, h.fileHeader] at hq
      exact hkeep q (hi.free q page' hq hpage hfull)
  isRecordPage q hq := by
    rw [IsRecordPage, h.fileHeader]
    rcases hfree q hq with hmem | rfl
    · exact hi.isRecordPage q hmem
    · exact hp

/-- The map after one slot of one page has changed. -/
theorem Writes.records {page page' : RecordPage} {i : ℕ} {r : Option (List (BitVec 8))}
    (h : Writes s s' p page') (hp : s.IsRecordPage p) (hpage : s.pageAt p = some page)
    (hslot : page'.slot = Function.update page.slot i r) :
    s'.records = Function.update s.records ⟨p, i⟩ r := by
  have hp' : s'.IsRecordPage p := by
    rw [IsRecordPage, h.fileHeader]
    exact hp
  funext rid
  by_cases hrid : rid = ⟨p, i⟩
  · subst hrid
    rw [Function.update_self, records_eq hp' h.self, hslot, Function.update_self]
  · rw [Function.update_of_ne hrid]
    by_cases hq : rid.pageNum = p
    · have hslotNum : rid.slotNum ≠ i := by
        rintro rfl
        exact hrid (by rw [← hq])
      subst hq
      rw [records_eq hp' h.self, hslot, Function.update_of_ne hslotNum, records_eq hp hpage]
    · rw [RecordFileHandler.records, RecordFileHandler.records, h.fileHeader, h.other _ hq]

end RecordFileHandler

end Recorder

end TDB
