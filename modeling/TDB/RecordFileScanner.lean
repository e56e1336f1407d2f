import TDB.RecordFile

namespace TDB.Recorder

open ByteBits

/-! ## `RecordFileScanner` -/

/-- `RecordPageIterator` on a page.  The bitmap is read where it lies; `none` is slot `-1`. -/
structure RecordPageIterator where
  pageNum : ℕ
  size : ℕ
  nextSlotNum : Option ℕ

/-- `RecordPageIterator::init` with the default start slot. -/
def RecordPageIterator.init (p : ℕ) (s : RecordFileHandler) : RecordPageIterator :=
  let page := s.page p
  ⟨p, page.header.recordCapacity,
    Bitmap.nextSettedBit page.bitmap page.header.recordCapacity 0⟩

/-- `RecordFileScanner`: the page its page handler holds, the page iterator once it is valid, and
the record fetched in advance.  `none` is the slot `-1` that `has_next` looks for. -/
structure RecordFileScanner where
  bpIterator : BufferPoolIterator
  recordPageHandler : Option ℕ := none
  recordPageIterator : Option RecordPageIterator := none
  nextRecord : Option RID := none

/-- The `ConditionFilter` and the `visit_record` of the transaction, where there are any. -/
structure ScanOptions where
  conditionFilter : Option (List (BitVec 8) → Bool)
  trx : Option (RID → List (BitVec 8) → RC)

/-- No filter, and `VacuousTrx`, whose `visit_record` returns `SUCCESS`. -/
def ScanOptions.vacuousTrx : ScanOptions := ⟨none, some fun _ _ => .success⟩

def RID.Before (rid1 rid2 : RID) : Prop :=
  rid1.pageNum < rid2.pageNum ∨ rid1.pageNum = rid2.pageNum ∧ rid1.slotNum < rid2.slotNum

def RecordFileHandler.recordData (s : RecordFileHandler) (rid : RID) : List (BitVec 8) :=
  (s.page rid.pageNum).recordData rid.slotNum

namespace RecordFileScanner

def hasNext (sc : RecordFileScanner) : Bool := sc.nextRecord.isSome

def cleanup (s : RecordFileHandler) (sc : RecordFileScanner) :
    RecordFileHandler × RecordFileScanner :=
  match sc.recordPageHandler with
  | some p => (s.cleanup p, { sc with recordPageHandler := none })
  | none => (s, sc)

/-- `fetch_next_record_in_page`; the bound is the number of slots the iterator can still reach. -/
def fetchNextRecordInPage (opts : ScanOptions) (s : RecordFileHandler) :
    ℕ → RecordPageIterator → RecordFileScanner → RC × RecordFileScanner
  | 0, _, sc => (.recordEof, { sc with nextRecord := none })
  | n + 1, it, sc =>
    match it.nextSlotNum with
    | none => (.recordEof, { sc with nextRecord := none })
    | some slotNum =>
      let it := { it with
        nextSlotNum := Bitmap.nextSettedBit (s.page it.pageNum).bitmap it.size (slotNum + 1) }
      let rid : RID := ⟨it.pageNum, slotNum⟩
      let sc := { sc with recordPageIterator := some it, nextRecord := some rid }
      if (opts.conditionFilter.map fun filter => filter (s.recordData rid)) = some false then
        fetchNextRecordInPage opts s n it sc
      else match opts.trx with
        | none => (.success, sc)
        | some visitRecord =>
          if visitRecord rid (s.recordData rid) = .recordInvisible then
            fetchNextRecordInPage opts s n it sc
          else (visitRecord rid (s.recordData rid), sc)

/-- The loop of `fetch_next_record` over the pages that follow. -/
def fetchFromPages (opts : ScanOptions) :
    ℕ → RecordFileHandler → RecordFileScanner → RC × RecordFileHandler × RecordFileScanner
  | 0, s, sc =>
    let (s, sc) := cleanup s { sc with nextRecord := none }
    (.recordEof, s, sc)
  | n + 1, s, sc =>
    match sc.bpIterator.next s.fileBufferPool.fileHeader with
    | none =>
      let (s, sc) := cleanup s { sc with nextRecord := none }
      (.recordEof, s, sc)
    | some (p, bpIterator) =>
      let (s, sc) := cleanup s { sc with bpIterator := bpIterator }
      let (rc, s) := s.initPage p
      if rc.fail then (rc, s, sc)
      else
        let it := RecordPageIterator.init p s
        let sc := { sc with recordPageHandler := some p, recordPageIterator := some it }
        let (rc, sc) := fetchNextRecordInPage opts s (it.size + 1) it sc
        if rc = .recordEof then fetchFromPages opts n s sc else (rc, s, sc)

def fetchNextRecord (opts : ScanOptions) (s : RecordFileHandler) (sc : RecordFileScanner) :
    RC × RecordFileHandler × RecordFileScanner :=
  match sc.recordPageIterator with
  | some it =>
    let (rc, sc) := fetchNextRecordInPage opts s (it.size + 1) it sc
    if rc = .recordEof then fetchFromPages opts sc.bpIterator.size s sc else (rc, s, sc)
  | none => fetchFromPages opts sc.bpIterator.size s sc

/-- `open_scan` of a scanner that was just constructed. -/
def openScan (opts : ScanOptions) (s : RecordFileHandler) :
    RC × RecordFileHandler × RecordFileScanner :=
  let (rc, s, sc) := fetchNextRecord opts s { bpIterator := .init s.fileBufferPool.fileHeader }
  (if rc = .recordEof then .success else rc, s, sc)

/-- `next`: the record fetched before, and one more is fetched. -/
def next (opts : ScanOptions) (s : RecordFileHandler) (sc : RecordFileScanner) :
    (RC × Option RID) × RecordFileHandler × RecordFileScanner :=
  let (rc, s, sc') := fetchNextRecord opts s sc
  ((if rc = .recordEof then .success else rc, sc.nextRecord), s, sc')

/-- The loop `while (scanner.has_next()) scanner.next(record)`: the records and their bytes. -/
def scanAll (opts : ScanOptions) : ℕ → RecordFileHandler → RecordFileScanner →
    RC × List (RID × List (BitVec 8)) × RecordFileHandler × RecordFileScanner
  | 0, s, sc => (.success, [], s, sc)
  | n + 1, s, sc =>
    match sc.hasNext, next opts s sc with
    | false, _ => (.success, [], s, sc)
    | true, ((rc, rid), s, sc) =>
      if rc.fail then (rc, [], s, sc)
      else
        let (rc, rest, s', sc) := scanAll opts n s sc
        (rc, (rid.map fun rid => (rid, s.recordData rid)).toList ++ rest, s', sc)

def runScan (opts : ScanOptions) (n : ℕ) (s : RecordFileHandler) :
    RC × List (RID × List (BitVec 8)) × RecordFileHandler × RecordFileScanner :=
  let (rc, s, sc) := openScan opts s
  if rc.fail then (rc, [], s, sc) else scanAll opts n s sc

end RecordFileScanner

/-! ## The records ahead of a scanner -/

namespace RecordFileHandler

variable {s s' : RecordFileHandler} {recordSize : ℕ}

theorem page_eq_getD (s : RecordFileHandler) (p : ℕ) :
    s.page p = (s.pageAt p).getD PageData.unread := by
  unfold page pageAt
  cases s.fileBufferPool.frame p <;> rfl

theorem SamePages.page (h : SamePages s s') (p : ℕ) : s'.page p = s.page p := by
  rw [page_eq_getD, page_eq_getD, h.pageAt]

theorem SamePages.recordData (h : SamePages s s') (rid : RID) :
    s'.recordData rid = s.recordData rid := by
  rw [RecordFileHandler.recordData, RecordFileHandler.recordData, h.page]

def liveInPage (s : RecordFileHandler) (p start : ℕ) : List RID :=
  (indices (bit (s.page p).bitmap) start (s.page p).header.recordCapacity).map (RID.mk p)

def liveFrom (s : RecordFileHandler) (start size : ℕ) : List RID :=
  (indices (fun i => s.fileBufferPool.fileHeader.bitmap i) start size).flatMap fun p =>
    s.liveInPage p 0

theorem SamePages.liveInPage (h : SamePages s s') (p start : ℕ) :
    s'.liveInPage p start = s.liveInPage p start := by
  unfold RecordFileHandler.liveInPage
  rw [h.page]

theorem SamePages.liveFrom (h : SamePages s s') (start size : ℕ) :
    s'.liveFrom start size = s.liveFrom start size := by
  unfold RecordFileHandler.liveFrom
  rw [h.fileHeader]
  congr 1
  funext p
  exact h.liveInPage p 0

end RecordFileHandler

namespace RecordFileScanner

open RecordFileHandler

/-- The records that the page iterator still has to yield: the slot it has looked up, and what is
behind it. -/
def aheadInPage (s : RecordFileHandler) (it : RecordPageIterator) : List RID :=
  match it.nextSlotNum with
  | none => []
  | some n => ⟨it.pageNum, n⟩ :: s.liveInPage it.pageNum (n + 1)

/-- The records that the scanner still has to fetch, if the file stays as it is. -/
def ahead (s : RecordFileHandler) (sc : RecordFileScanner) : List RID :=
  (sc.recordPageIterator.map (aheadInPage s)).getD [] ++
    s.liveFrom (sc.bpIterator.currentPageNum + 1) sc.bpIterator.size

/-- The RIDs that the scanner has not passed: those on the current page from the slot on that the
iterator has looked up, and those on later pages. -/
def Beyond (sc : RecordFileScanner) (rid : RID) : Prop :=
  (∃ it n, sc.recordPageIterator = some it ∧ it.nextSlotNum = some n ∧
    rid.pageNum = it.pageNum ∧ n ≤ rid.slotNum) ∨
  sc.bpIterator.currentPageNum < rid.pageNum ∧ rid.pageNum < sc.bpIterator.size

/-- The page iterator stands on the current page, before a live record or at the end. -/
structure IteratorOk (s : RecordFileHandler) (it : RecordPageIterator) : Prop where
  isRecordPage : s.IsRecordPage it.pageNum
  size : it.size = (s.page it.pageNum).header.recordCapacity
  next : ∀ n, it.nextSlotNum = some n → n < it.size ∧ bit (s.page it.pageNum).bitmap n = true

/-- What a scanner relies on between its calls: the bits it has passed last are still set. -/
structure Ok (s : RecordFileHandler) (sc : RecordFileScanner) : Prop where
  current : s.fileBufferPool.fileHeader.bitmap sc.bpIterator.currentPageNum = true
  iterator : ∀ it, sc.recordPageIterator = some it →
    it.pageNum = sc.bpIterator.currentPageNum ∧ IteratorOk s it

variable {s s' : RecordFileHandler} {sc sc' : RecordFileScanner} {recordSize : ℕ}

theorem aheadInPage_samePages (h : SamePages s s') (it : RecordPageIterator) :
    aheadInPage s' it = aheadInPage s it := by
  unfold aheadInPage
  cases it.nextSlotNum with
  | none => rfl
  | some n => simp only [h.liveInPage]

theorem ahead_samePages (h : SamePages s s') (sc : RecordFileScanner) :
    ahead s' sc = ahead s sc := by
  unfold ahead
  rw [h.liveFrom, show aheadInPage s' = aheadInPage s from funext (aheadInPage_samePages h)]

theorem IteratorOk.samePages {it : RecordPageIterator} (hok : IteratorOk s it)
    (h : SamePages s s') : IteratorOk s' it where
  isRecordPage := h.isRecordPage.mpr hok.isRecordPage
  size := by rw [h.page]; exact hok.size
  next n hn := by rw [h.page]; exact hok.next n hn

theorem Ok.samePages (hok : Ok s sc) (h : SamePages s s') : Ok s' sc where
  current := by rw [h.fileHeader]; exact hok.current
  iterator it hit := ⟨(hok.iterator it hit).1, (hok.iterator it hit).2.samePages h⟩

/-- What a fetch yields: the first of the records ahead, and the others stay ahead. -/
structure Fetched (s s' : RecordFileHandler) (sc sc' : RecordFileScanner) (rc : RC)
    (rids : List RID) : Prop where
  same : SamePages s s'
  freePages : s'.freePages = s.freePages
  ok : Ok s' sc'
  size : sc'.bpIterator.size = sc.bpIterator.size
  rc : rc = if rids = [] then .recordEof else .success
  nextRecord : sc'.nextRecord = rids.head?
  ahead : ahead s' sc' = rids.tail
  ordered : ∀ rid, sc'.nextRecord = some rid → ∀ x, Beyond sc' x → rid.Before x
  atEnd : rids = [] → ∀ x, Beyond sc' x → ¬s'.IsRecordPage x.pageNum

theorem cleanup_spec (s : RecordFileHandler) (sc : RecordFileScanner) :
    SamePages s (cleanup s sc).1 ∧ (cleanup s sc).1.freePages = s.freePages ∧
      (cleanup s sc).2 = { sc with recordPageHandler := none } := by
  obtain ⟨bpIterator, handler, it, rid⟩ := sc
  cases handler with
  | none => exact ⟨SamePages.refl s, rfl, rfl⟩
  | some p => exact ⟨samePages_cleanup s p, rfl, rfl⟩

/-- The iterator yields the slot it has looked up and looks up the next one; the bit of the slot
is set, so that the search sees every later one. -/
theorem fetchNextRecordInPage_spec (sc : RecordFileScanner) (n : ℕ) {it : RecordPageIterator}
    (hok : IteratorOk s it) :
    ∃ it', (fetchNextRecordInPage .vacuousTrx s (n + 1) it sc).1 =
        (if aheadInPage s it = [] then .recordEof else .success) ∧
      (fetchNextRecordInPage .vacuousTrx s (n + 1) it sc).2 = { sc with
        recordPageIterator := if aheadInPage s it = [] then sc.recordPageIterator else some it'
        nextRecord := (aheadInPage s it).head? } ∧
      it'.pageNum = it.pageNum ∧ IteratorOk s it' ∧
      aheadInPage s it' = (aheadInPage s it).tail ∧
      ∀ rid, (aheadInPage s it).head? = some rid →
        rid.pageNum = it.pageNum ∧ ∀ m, it'.nextSlotNum = some m → rid.slotNum < m := by
  cases hnext : it.nextSlotNum with
  | none =>
    have hnil : aheadInPage s it = [] := by rw [aheadInPage, hnext]
    refine ⟨it, ?_, ?_, rfl, hok, by rw [hnil]; rfl, ?_⟩
    · rw [fetchNextRecordInPage, hnext, if_pos hnil]
    · rw [fetchNextRecordInPage, hnext, if_pos hnil, hnil]
      rfl
    · intro rid hrid
      rw [hnil] at hrid
      cases hrid
  | some slotNum =>
    obtain ⟨hlt, hbit⟩ := hok.next slotNum hnext
    have hcons : aheadInPage s it = ⟨it.pageNum, slotNum⟩ :: s.liveInPage it.pageNum
      (slotNum + 1) := by
      rw [aheadInPage, hnext]
    have hne : aheadInPage s it ≠ [] := by
      rw [hcons]
      exact List.cons_ne_nil _ _
    have hsearch := Bitmap.nextSettedBit_succ it.size hbit
    refine ⟨{ it with nextSlotNum :=
      Bitmap.nextSettedBit (s.page it.pageNum).bitmap it.size (slotNum + 1) }, ?_, ?_, rfl,
      ⟨hok.isRecordPage, hok.size, ?_⟩, ?_, ?_⟩
    · rw [fetchNextRecordInPage, hnext, if_neg hne]
      rfl
    · rw [fetchNextRecordInPage, hnext, if_neg hne, hcons]
      rfl
    · intro n hn
      obtain ⟨-, hn', hbit', -⟩ := lowest_eq_some_iff.mp (hsearch.symm.trans hn)
      exact ⟨hn', hbit'⟩
    · rw [hcons, List.tail_cons, aheadInPage, hsearch]
      cases hlow : lowest (bit (s.page it.pageNum).bitmap) (slotNum + 1) it.size with
      | none => rw [liveInPage, ← hok.size, indices_eq_nil hlow]; rfl
      | some m =>
        dsimp only
        rw [liveInPage, liveInPage, ← hok.size, indices_eq_cons hlow]
        rfl
    · intro rid hrid
      rw [hcons] at hrid
      cases hrid
      refine ⟨rfl, fun m hm => ?_⟩
      exact (lowest_eq_some_iff.mp (hsearch.symm.trans hm)).1

theorem iteratorOk_init {p : ℕ} (hp : s.IsRecordPage p) :
    (RecordPageIterator.init p s).pageNum = p ∧ IteratorOk s (.init p s) ∧
      aheadInPage s (.init p s) = s.liveInPage p 0 := by
  have hsearch : (RecordPageIterator.init p s).nextSlotNum =
      lowest (bit (s.page p).bitmap) 0 (s.page p).header.recordCapacity :=
    Bitmap.nextSettedBit_zero _
  refine ⟨rfl, ⟨hp, rfl, fun n hn => ?_⟩, ?_⟩
  · obtain ⟨-, hn', hbit, -⟩ := lowest_eq_some_iff.mp (hsearch.symm.trans hn)
    exact ⟨hn', hbit⟩
  · rw [aheadInPage, hsearch]
    cases hlow : lowest (bit (s.page p).bitmap) 0 (s.page p).header.recordCapacity with
    | none => rw [liveInPage, indices_eq_nil hlow]; rfl
    | some m =>
      dsimp only
      rw [liveInPage, liveInPage, indices_eq_cons hlow]
      rfl

/-- A record fetched from the page of the iterator comes before all that is left. -/
theorem ordered_of_first {it it' : RecordPageIterator} {rids : List RID}
    (hpageNum' : it'.pageNum = it.pageNum) (hpageNum : it.pageNum = sc.bpIterator.currentPageNum)
    (hfirst : ∀ rid, rids.head? = some rid →
      rid.pageNum = it.pageNum ∧ ∀ m, it'.nextSlotNum = some m → rid.slotNum < m) (rid : RID)
    (hrid : rids.head? = some rid) (x : RID)
    (hx : Beyond { sc with recordPageIterator := some it', nextRecord := rids.head? } x) :
    rid.Before x := by
  obtain ⟨hpage, hslot⟩ := hfirst rid hrid
  rcases hx with ⟨it₀, m, hit, hnext, hpage', hle⟩ | ⟨hlt, -⟩
  · cases hit
    exact Or.inr ⟨by rw [hpage, hpage', hpageNum'], (hslot m hnext).trans_le hle⟩
  · left
    rw [hpage, hpageNum]
    exact hlt

/-- The end of a scan: no record, and nothing ahead. -/
theorem fetched_eof (hok : Ok s sc)
    (hend : ∀ it, sc.recordPageIterator = some it → it.nextSlotNum = none)
    (hpages : indices (fun i => s.fileBufferPool.fileHeader.bitmap i)
      (sc.bpIterator.currentPageNum + 1) sc.bpIterator.size = []) :
    Fetched s (cleanup s { sc with nextRecord := none }).1 sc
      (cleanup s { sc with nextRecord := none }).2 .recordEof [] := by
  obtain ⟨hsame, hfree, hsc⟩ := cleanup_spec s { sc with nextRecord := none }
  refine ⟨hsame, hfree, ?_, by rw [hsc], rfl, by rw [hsc]; rfl, ?_, ?_, ?_⟩
  · rw [hsc]
    exact ⟨(hok.samePages hsame).current, (hok.samePages hsame).iterator⟩
  · rw [ahead_samePages hsame, hsc, ahead]
    dsimp only
    rw [liveFrom, hpages, List.flatMap_nil, List.append_nil]
    cases hit : sc.recordPageIterator with
    | none => rfl
    | some it =>
      rw [Option.map_some, Option.getD_some, aheadInPage, hend it hit]
      rfl
  · intro rid hrid
    rw [hsc] at hrid
    cases hrid
  · intro _ x hx hp
    rw [hsc] at hx
    rcases hx with ⟨it, n, hit, hnext, -⟩ | ⟨hlt, hsize⟩
    · rw [hend it hit] at hnext
      cases hnext
    · have hmem : x.pageNum ∈ indices (fun i => s.fileBufferPool.fileHeader.bitmap i)
          (sc.bpIterator.currentPageNum + 1) sc.bpIterator.size :=
        mem_indices.mpr ⟨hlt, hsize, (hsame.isRecordPage.mp hp).2⟩
      rw [hpages] at hmem
      cases hmem

theorem fetchFromPages_spec {n : ℕ}
    (hi : Inv recordSize s) (hok : Ok s sc)
    (hend : ∀ it, sc.recordPageIterator = some it → it.nextSlotNum = none)
    (hn : (indices (fun i => s.fileBufferPool.fileHeader.bitmap i)
      (sc.bpIterator.currentPageNum + 1) sc.bpIterator.size).length ≤ n) :
    Fetched s (fetchFromPages .vacuousTrx n s sc).2.1 sc (fetchFromPages .vacuousTrx n s sc).2.2
      (fetchFromPages .vacuousTrx n s sc).1
      (s.liveFrom (sc.bpIterator.currentPageNum + 1) sc.bpIterator.size) := by
  induction n generalizing s sc with
  | zero =>
    have hnil := List.length_eq_zero_iff.mp (Nat.le_zero.mp hn)
    have hpages : s.liveFrom (sc.bpIterator.currentPageNum + 1) sc.bpIterator.size = [] := by
      rw [liveFrom, hnil]
      rfl
    rw [hpages]
    exact fetched_eof hok hend hnil
  | succ n ih =>
    rw [fetchFromPages, BufferPoolIterator.next_eq hok.current]
    cases hlow : lowest (fun i => s.fileBufferPool.fileHeader.bitmap i)
        (sc.bpIterator.currentPageNum + 1) sc.bpIterator.size with
    | none =>
      have hpages : s.liveFrom (sc.bpIterator.currentPageNum + 1) sc.bpIterator.size = [] := by
        rw [liveFrom, indices_eq_nil hlow]
        rfl
      rw [hpages]
      exact fetched_eof hok hend (indices_eq_nil hlow)
    | some p =>
      obtain ⟨hlt, -, hbit, -⟩ := lowest_eq_some_iff.mp hlow
      have hp : s.IsRecordPage p := ⟨by omega, hbit⟩
      -- the page handler moves on to page `p`
      have hclean := cleanup_spec s { sc with bpIterator :=
        { sc.bpIterator with currentPageNum := p } }
      simp only [Option.map_some]
      generalize cleanup s { sc with bpIterator := { sc.bpIterator with currentPageNum := p } } = r
        at hclean
      obtain ⟨s₁, sc₁⟩ := r
      obtain ⟨hsame₁, hfree₁, hsc₁⟩ := hclean
      obtain ⟨page, hpage, -⟩ := hi.pages p hp
      have hpage₁ : s₁.pageAt p = some page := (hsame₁.pageAt p).trans hpage
      obtain ⟨hrc, hsame₂, hfree₂⟩ := initPage_spec hpage₁
      dsimp only at hsc₁ hsame₁ hfree₁ ⊢
      rw [hrc, if_neg (by decide)]
      generalize (s₁.initPage p).2 = s₂ at hsame₂ hfree₂
      have hsame : SamePages s s₂ := hsame₁.trans hsame₂
      have hfree : s₂.freePages = s.freePages := hfree₂.trans hfree₁
      obtain ⟨hpageNum, hitOk, hahead⟩ := iteratorOk_init (hsame.isRecordPage.mpr hp)
      generalize RecordPageIterator.init p s₂ = it at hpageNum hitOk hahead
      obtain ⟨it', hrc', hsc', hpageNum', hok', hahead', hfirst⟩ := fetchNextRecordInPage_spec
        { sc₁ with recordPageHandler := some p, recordPageIterator := some it } it.size hitOk
      have hrids : s.liveFrom (sc.bpIterator.currentPageNum + 1) sc.bpIterator.size =
          aheadInPage s₂ it ++ s.liveFrom (p + 1) sc.bpIterator.size := by
        rw [hahead, hsame.liveInPage, liveFrom, indices_eq_cons hlow, List.flatMap_cons]
        rfl
      rw [hrids]
      generalize fetchNextRecordInPage .vacuousTrx s₂ (it.size + 1) it
        { sc₁ with recordPageHandler := some p, recordPageIterator := some it } = r at hrc' hsc'
      obtain ⟨rc, sc₂⟩ := r
      dsimp only at hrc' hsc' ⊢
      have hbit₂ : s₂.fileBufferPool.fileHeader.bitmap p = true := by
        rw [hsame.fileHeader]
        exact hbit
      by_cases hnil : aheadInPage s₂ it = []
      · -- the page has no record: the loop goes on behind it
        rw [if_pos hnil] at hrc' hsc'
        subst hrc'
        subst hsc'
        subst hsc₁
        have hitEnd : it.nextSlotNum = none := by
          cases hnext : it.nextSlotNum with
          | none => rfl
          | some m => rw [aheadInPage, hnext] at hnil; cases hnil
        rw [if_pos rfl, hnil, List.nil_append]
        rw [indices_eq_cons hlow, List.length_cons] at hn
        have hrest := @ih s₂
          { bpIterator := { sc.bpIterator with currentPageNum := p }
            recordPageHandler := some p
            recordPageIterator := some it } (hi.samePages hsame hfree)
          ⟨hbit₂, fun it₀ h₀ => by cases h₀; exact ⟨hpageNum, hitOk⟩⟩
          (fun it₀ h₀ => by cases h₀; exact hitEnd)
          (by rw [hsame.fileHeader]; exact Nat.le_of_succ_le_succ hn)
        rw [hsame.liveFrom] at hrest
        exact ⟨hsame.trans hrest.same, hrest.freePages.trans hfree, hrest.ok, hrest.size, hrest.rc,
          hrest.nextRecord, hrest.ahead, hrest.ordered, hrest.atEnd⟩
      · rw [if_neg hnil] at hrc' hsc'
        subst hrc'
        subst hsc'
        subst hsc₁
        rw [if_neg (by decide)]
        obtain ⟨rid, rest, hcons⟩ := List.exists_cons_of_ne_nil hnil
        refine ⟨hsame, hfree, ⟨hbit₂, ?_⟩, rfl, ?_, ?_, ?_, ?_, ?_⟩
        · intro it₀ h₀
          cases h₀
          exact ⟨hpageNum'.trans hpageNum, hok'⟩
        · rw [hcons]
          rfl
        · rw [hcons]
          rfl
        · rw [ahead]
          dsimp only
          rw [Option.map_some, Option.getD_some, hahead', hsame.liveFrom, hcons]
          rfl
        · exact ordered_of_first hpageNum' hpageNum hfirst
        · intro hnil'
          rw [hcons] at hnil'
          cases hnil'

theorem fetchNextRecord_spec (hi : Inv recordSize s) (hok : Ok s sc) :
    Fetched s (fetchNextRecord .vacuousTrx s sc).2.1 sc (fetchNextRecord .vacuousTrx s sc).2.2
      (fetchNextRecord .vacuousTrx s sc).1 (ahead s sc) := by
  have hfuel : (indices (fun i => s.fileBufferPool.fileHeader.bitmap i)
      (sc.bpIterator.currentPageNum + 1) sc.bpIterator.size).length ≤ sc.bpIterator.size :=
    (length_indices_le _ _ _).trans (Nat.sub_le _ _)
  unfold fetchNextRecord
  cases hit : sc.recordPageIterator with
  | none =>
    have hahead : ahead s sc = s.liveFrom (sc.bpIterator.currentPageNum + 1)
      sc.bpIterator.size := by
      rw [ahead, hit]
      rfl
    rw [hahead]
    exact fetchFromPages_spec hi hok (fun it h => by rw [hit] at h; cases h) hfuel
  | some it =>
    obtain ⟨hpageNum, hitOk⟩ := hok.iterator it hit
    have hahead : ahead s sc = aheadInPage s it ++
        s.liveFrom (sc.bpIterator.currentPageNum + 1) sc.bpIterator.size := by
      rw [ahead, hit]
      rfl
    obtain ⟨it', hrc', hsc', hpageNum', hok', hahead', hfirst⟩ :=
      fetchNextRecordInPage_spec sc it.size hitOk
    rw [hahead]
    dsimp only
    generalize fetchNextRecordInPage .vacuousTrx s (it.size + 1) it sc = r at hrc' hsc'
    obtain ⟨rc, sc₂⟩ := r
    dsimp only at hrc' hsc' ⊢
    -- the page under the iterator is used up, or it has another record
    by_cases hnil : aheadInPage s it = []
    · rw [if_pos hnil] at hrc' hsc'
      subst hrc'
      subst hsc'
      have hitEnd : it.nextSlotNum = none := by
        cases hnext : it.nextSlotNum with
        | none => rfl
        | some m => rw [aheadInPage, hnext] at hnil; cases hnil
      rw [if_pos rfl, hnil, List.nil_append]
      have hrest := @fetchFromPages_spec s
        { sc with nextRecord := ([] : List RID).head? } recordSize sc.bpIterator.size hi
        ⟨hok.current, hok.iterator⟩
        (fun it₀ h₀ => by
          obtain rfl : it = it₀ := Option.some.inj (hit.symm.trans h₀)
          exact hitEnd) hfuel
      exact ⟨hrest.same, hrest.freePages, hrest.ok, hrest.size, hrest.rc, hrest.nextRecord,
        hrest.ahead, hrest.ordered, hrest.atEnd⟩
    · rw [if_neg hnil] at hrc' hsc'
      subst hrc'
      subst hsc'
      rw [if_neg (by decide)]
      obtain ⟨rid, rest, hcons⟩ := List.exists_cons_of_ne_nil hnil
      refine ⟨SamePages.refl s, rfl, ⟨hok.current, ?_⟩, rfl, ?_, ?_, ?_, ?_, ?_⟩
      · intro it₀ h₀
        cases h₀
        exact ⟨hpageNum'.trans hpageNum, hok'⟩
      · rw [hcons]
        rfl
      · rw [hcons]
        rfl
      · rw [ahead]
        dsimp only
        rw [Option.map_some, Option.getD_some, hahead', hcons]
        rfl
      · exact ordered_of_first hpageNum' hpageNum hfirst
      · intro hnil'
        rw [hcons] at hnil'
        cases hnil'

end RecordFileScanner

end TDB.Recorder
