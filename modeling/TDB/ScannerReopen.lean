import TDB.RecordMap
import TDB.RecordScanner

namespace TDB.Recorder

open RecordFileHandler

namespace RecordFileScanner

/-! ## A scanner that is opened again -/

def new : RecordFileScanner := { bpIterator := ⟨0, 0⟩ }

/-- `close_scan`: only the page handler is cleaned up. -/
def closeScan (s : RecordFileHandler) (sc : RecordFileScanner) :
    RecordFileHandler × RecordFileScanner := cleanup s sc

/-- The rest of `open_scan`, for a scanner that is closed. -/
def reopenScan (opts : ScanOptions) (s : RecordFileHandler) (sc : RecordFileScanner) :
    RC × RecordFileHandler × RecordFileScanner :=
  -- neither the page iterator nor the next record is reset
  let (rc, s, sc) := fetchNextRecord opts s
    { sc with bpIterator := .init s.fileBufferPool.fileHeader }
  (if rc = .recordEof then .success else rc, s, sc)

theorem reopenScan_new (opts : ScanOptions) (s : RecordFileHandler) :
    reopenScan opts s new = openScan opts s := rfl

/-- The page iterator is only asked for a record on the page that the scanner's page handler has
pinned; the loop over the other pages pins each one before it asks. -/
def touchesPinned (sc : RecordFileScanner) : Bool :=
  match sc.recordPageIterator with
  | none => true
  | some it => it.nextSlotNum.isNone || sc.recordPageHandler == some it.pageNum

/-- The loop of `scanAll`; `none` where it touches a page that the scanner has not pinned. -/
def scanPinned (opts : ScanOptions) : ℕ → RecordFileHandler → RecordFileScanner →
    Option (RC × List (RID × List (BitVec 8)))
  | 0, _, _ => some (.success, [])
  | n + 1, s, sc =>
    if sc.hasNext then
      if sc.touchesPinned then
        let ((rc, rid), s, sc) := next opts s sc
        if rc.fail then some (rc, [])
        else (scanPinned opts n s sc).map fun rest =>
          (rest.1, (rid.map fun rid => (rid, s.recordData rid)).toList ++ rest.2)
      else none
    else some (.success, [])

def rescanPinned (opts : ScanOptions) (n : ℕ) (s : RecordFileHandler) (sc : RecordFileScanner) :
    Option (RC × List (RID × List (BitVec 8))) :=
  if sc.touchesPinned then
    let (rc, s, sc) := reopenScan opts s sc
    if rc.fail then some (rc, []) else scanPinned opts n s sc
  else none

/-- Opened again, the scanner returns what a new one returns, and touches no page that it has not
pinned. -/
def ScansLikeNew (opts : ScanOptions) (s : RecordFileHandler) (sc : RecordFileScanner) : Prop :=
  ∀ n, rescanPinned opts n s sc = some ((runScan opts n s).1, (runScan opts n s).2.1)

/-- The page iterator, if there is one, has come to the end of its page. -/
def PageDone (sc : RecordFileScanner) : Prop :=
  ∀ it, sc.recordPageIterator = some it → it.nextSlotNum = none

/-! ## What a fetch depends on -/

variable {opts : ScanOptions} {s s' : RecordFileHandler} {sc sc' : RecordFileScanner}

theorem fetchNextRecordInPage_nextRecord (opts : ScanOptions) (s : RecordFileHandler)
    (rid : Option RID) : ∀ (n : ℕ) (it : RecordPageIterator) (sc : RecordFileScanner),
    fetchNextRecordInPage opts s n it { sc with nextRecord := rid } =
      fetchNextRecordInPage opts s n it sc
  | 0, _, _ => rfl
  | _ + 1, it, sc => by
    unfold fetchNextRecordInPage
    cases it.nextSlotNum with
    | none => rfl
    | some slotNum => rfl

/-- Two scanners after the same fetch: they are the same, or both have no record left. -/
def Agree (sc sc' : RecordFileScanner) : Prop :=
  sc' = sc ∨ sc.nextRecord = none ∧ sc'.nextRecord = none

def released (s : RecordFileHandler) (handler : Option ℕ) : RecordFileHandler :=
  handler.elim s fun p => s.cleanup p

theorem cleanup_eq (s : RecordFileHandler) (sc : RecordFileScanner) :
    cleanup s sc = (released s sc.recordPageHandler, { sc with recordPageHandler := none }) := by
  obtain ⟨bpIterator, handler, it, rid⟩ := sc
  cases handler <;> rfl

theorem initPage_rc (p : ℕ) (s : RecordFileHandler) :
    (s.initPage p).1 = .success ∨ (s.initPage p).1 = .ioerrRead := by
  unfold initPage FileBufferPool.getThisPage
  cases s.fileBufferPool.frame p with
  | none => exact .inr rfl
  | some f => exact .inl rfl

/-- The loop over the pages does not depend on the page iterator and the record from before. -/
theorem fetchFromPages_stale (opts : ScanOptions) (it : Option RecordPageIterator)
    (rid : Option RID) (n : ℕ) (s : RecordFileHandler) (sc : RecordFileScanner) :
    ∃ rc s₁ sc₁ sc₂, fetchFromPages opts n s sc = (rc, s₁, sc₁) ∧
      fetchFromPages opts n s { sc with recordPageIterator := it, nextRecord := rid } =
        (rc, s₁, sc₂) ∧ (rc ≠ .ioerrRead → Agree sc₁ sc₂) := by
  cases n with
  | zero =>
    unfold fetchFromPages
    rw [cleanup_eq, cleanup_eq]
    exact ⟨_, _, _, _, rfl, rfl, fun _ => .inr ⟨rfl, rfl⟩⟩
  | succ n =>
    unfold fetchFromPages
    dsimp only
    cases sc.bpIterator.next s.fileBufferPool.fileHeader with
    | none =>
      dsimp only
      rw [cleanup_eq, cleanup_eq]
      exact ⟨_, _, _, _, rfl, rfl, fun _ => .inr ⟨rfl, rfl⟩⟩
    | some r =>
      dsimp only
      rw [cleanup_eq, cleanup_eq]
      dsimp only
      rcases initPage_rc r.1 (released s sc.recordPageHandler) with hrc | hrc
      · -- the page is there: from now on both scanners are the same
        have hok : ¬RC.success.fail = true := by decide
        rw [hrc, if_neg hok, if_neg hok]
        have hfetch := fetchNextRecordInPage_nextRecord opts
          ((released s sc.recordPageHandler).initPage r.1).2 rid
          ((RecordPageIterator.init r.1
            ((released s sc.recordPageHandler).initPage r.1).2).size + 1)
          (.init r.1 ((released s sc.recordPageHandler).initPage r.1).2)
          { sc with
            bpIterator := r.2
            recordPageHandler := some r.1
            recordPageIterator :=
              some (.init r.1 ((released s sc.recordPageHandler).initPage r.1).2) }
        dsimp only at hfetch
        rw [hfetch]
        exact ⟨_, _, _, _, rfl, rfl, fun _ => .inl rfl⟩
      · rw [hrc, if_pos (by decide), if_pos (by decide)]
        exact ⟨_, _, _, _, rfl, rfl, fun h => absurd rfl h⟩

/-! ## What a fetch touches -/

def OnPage (p : ℕ) (sc : RecordFileScanner) : Prop :=
  sc.recordPageHandler = some p ∧ ∀ it, sc.recordPageIterator = some it → it.pageNum = p

theorem OnPage.touchesPinned {p : ℕ} (h : OnPage p sc) : sc.touchesPinned = true := by
  obtain ⟨hhandler, hit⟩ := h
  unfold RecordFileScanner.touchesPinned
  cases hsome : sc.recordPageIterator with
  | none => rfl
  | some it =>
    dsimp only
    rw [hhandler, hit it hsome, beq_self_eq_true, Bool.or_true]

theorem onPage_fetchNextRecordInPage (opts : ScanOptions) (s : RecordFileHandler) {p : ℕ} :
    ∀ (n : ℕ) (it : RecordPageIterator) (sc : RecordFileScanner), it.pageNum = p → OnPage p sc →
    OnPage p (fetchNextRecordInPage opts s n it sc).2
  | 0, _, _, _, h => h
  | n + 1, it, sc, hit, h => by
    unfold fetchNextRecordInPage
    cases it.nextSlotNum with
    | none => exact h
    | some slotNum =>
      have hnext : ∀ it' : RecordPageIterator, it'.pageNum = p → OnPage p { sc with
          recordPageIterator := some it', nextRecord := some ⟨it.pageNum, slotNum⟩ } :=
        fun it' hit' => ⟨h.1, fun _ h' => Option.some.inj h' ▸ hit'⟩
      dsimp only
      split
      · refine onPage_fetchNextRecordInPage opts s n _ _ ?_ (hnext _ hit)
        exact hit
      · cases opts.trx with
        | none => exact hnext _ hit
        | some visitRecord =>
          dsimp only
          split
          · refine onPage_fetchNextRecordInPage opts s n _ _ ?_ (hnext _ hit)
            exact hit
          · exact hnext _ hit

/-- After the loop over the pages the scanner has no record, or is on a page that it has pinned. -/
theorem pinned_fetchFromPages : ∀ (n : ℕ) (s : RecordFileHandler) (sc : RecordFileScanner),
    (fetchFromPages opts n s sc).1 ≠ .ioerrRead →
    (fetchFromPages opts n s sc).2.2.nextRecord = none ∨
      (fetchFromPages opts n s sc).2.2.touchesPinned = true
  | 0, s, sc, _ => by
    unfold fetchFromPages
    rw [cleanup_eq]
    exact .inl rfl
  | n + 1, s, sc, hrc => by
    unfold fetchFromPages at hrc ⊢
    cases hnext : sc.bpIterator.next s.fileBufferPool.fileHeader with
    | none =>
      dsimp only
      rw [cleanup_eq]
      exact .inl rfl
    | some r =>
      rw [hnext] at hrc
      dsimp only at hrc ⊢
      rw [cleanup_eq] at hrc ⊢
      dsimp only at hrc ⊢
      rcases initPage_rc r.1 (released s sc.recordPageHandler) with hinit | hinit
      · have hok : ¬RC.success.fail = true := by decide
        rw [hinit, if_neg hok] at hrc ⊢
        generalize ((released s sc.recordPageHandler).initPage r.1).2 = s₁ at hrc ⊢
        have hpage := onPage_fetchNextRecordInPage opts s₁
          ((RecordPageIterator.init r.1 s₁).size + 1) (.init r.1 s₁)
          { sc with
            bpIterator := r.2
            recordPageHandler := some r.1
            recordPageIterator := some (.init r.1 s₁) } rfl
          ⟨rfl, fun _ h => by cases h; rfl⟩
        generalize fetchNextRecordInPage opts s₁ _ _ _ = fetched at hpage hrc ⊢
        by_cases heof : fetched.1 = .recordEof
        · -- no record on this page: the loop goes on to the next
          rw [if_pos heof] at hrc ⊢
          exact pinned_fetchFromPages n _ _ hrc
        · rw [if_neg heof]
          exact .inr hpage.touchesPinned
      · rw [hinit, if_pos (by decide)] at hrc
        exact absurd rfl hrc

theorem pinned_fetchNextRecord (hsc : sc.touchesPinned = true)
    (hrc : (fetchNextRecord opts s sc).1 = .success ∨
      (fetchNextRecord opts s sc).1 = .recordEof) :
    (fetchNextRecord opts s sc).2.2.nextRecord = none ∨
      (fetchNextRecord opts s sc).2.2.touchesPinned = true := by
  have hread : (fetchNextRecord opts s sc).1 ≠ .ioerrRead := by
    rcases hrc with h | h <;> rw [h] <;> decide
  clear hrc
  unfold fetchNextRecord at hread ⊢
  cases hit : sc.recordPageIterator with
  | none =>
    rw [hit] at hread
    exact pinned_fetchFromPages _ _ _ hread
  | some it =>
    rw [hit] at hread
    dsimp only at hread ⊢
    cases hnext : it.nextSlotNum with
    | none =>
      -- the page is done, so the iterator does not touch it
      have hfetch : fetchNextRecordInPage opts s (it.size + 1) it sc =
          (.recordEof, { sc with nextRecord := none }) := by
        unfold fetchNextRecordInPage
        rw [hnext]
      rw [hfetch] at hread ⊢
      exact pinned_fetchFromPages _ _ _ hread
    | some slotNum =>
      have hpage : OnPage it.pageNum sc := by
        unfold RecordFileScanner.touchesPinned at hsc
        rw [hit] at hsc
        dsimp only at hsc
        rw [hnext, Option.isNone_some, Bool.false_or, beq_iff_eq] at hsc
        refine ⟨hsc, fun it' h' => ?_⟩
        rw [hit] at h'
        cases h'
        rfl
      have hstay := onPage_fetchNextRecordInPage opts s (it.size + 1) it sc rfl hpage
      generalize fetchNextRecordInPage opts s (it.size + 1) it sc = fetched at hstay hread ⊢
      by_cases heof : fetched.1 = .recordEof
      · rw [if_pos heof] at hread ⊢
        exact pinned_fetchFromPages _ _ _ hread
      · rw [if_neg heof]
        exact .inr hstay.touchesPinned

/-- A code after which the caller goes on. -/
theorem rc_of_not_fail {rc : RC}
    (h : ¬(if rc = .recordEof then RC.success else rc).fail = true) :
    rc = .success ∨ rc = .recordEof := by
  by_cases heof : rc = .recordEof
  · exact .inr heof
  · rw [if_neg heof] at h
    left
    by_contra hne
    exact h (by simpa [RC.fail] using hne)

/-- A scan that has begun on pinned pages goes on on pinned pages. -/
theorem scanPinned_eq (opts : ScanOptions) : ∀ (n : ℕ) (s : RecordFileHandler)
    (sc : RecordFileScanner), (sc.nextRecord = none ∨ sc.touchesPinned = true) →
    scanPinned opts n s sc = some ((scanAll opts n s sc).1, (scanAll opts n s sc).2.1)
  | 0, _, _, _ => rfl
  | n + 1, s, sc, h => by
    unfold scanPinned scanAll
    cases hhas : sc.hasNext with
    | false => rw [if_neg Bool.false_ne_true]
    | true =>
      have hpinned : sc.touchesPinned = true := by
        refine h.resolve_left fun hnone => ?_
        unfold hasNext at hhas
        rw [hnone] at hhas
        cases hhas
      rw [if_pos rfl, if_pos hpinned]
      have hnext : ¬(next opts s sc).1.1.fail = true →
          (next opts s sc).2.2.nextRecord = none ∨
            (next opts s sc).2.2.touchesPinned = true :=
        fun hok => pinned_fetchNextRecord hpinned (rc_of_not_fail hok)
      generalize next opts s sc = r at hnext ⊢
      dsimp only
      by_cases hok : r.1.1.fail = true
      · rw [if_pos hok, if_pos hok]
      · rw [if_neg hok, if_neg hok, scanPinned_eq opts n r.2.1 r.2.2 (hnext hok)]
        rfl

theorem Agree.scanAll (h : Agree sc sc') (opts : ScanOptions) (n : ℕ) (s : RecordFileHandler) :
    (scanAll opts n s sc').1 = (scanAll opts n s sc).1 ∧
      (scanAll opts n s sc').2.1 = (scanAll opts n s sc).2.1 := by
  rcases h with rfl | ⟨hnone, hnone'⟩
  · exact ⟨rfl, rfl⟩
  · cases n with
    | zero => exact ⟨rfl, rfl⟩
    | succ n =>
      unfold RecordFileScanner.scanAll hasNext
      rw [hnone, hnone']
      exact ⟨rfl, rfl⟩

/-! ## When a scanner can be opened again -/

theorem PageDone.fetchNextRecord (h : PageDone sc) (opts : ScanOptions) (s : RecordFileHandler) :
    ∃ rid, fetchNextRecord opts s sc =
      fetchFromPages opts sc.bpIterator.size s { sc with nextRecord := rid } := by
  obtain ⟨bpIterator, handler, iterator, rid⟩ := sc
  cases iterator with
  | none => exact ⟨rid, rfl⟩
  | some it =>
    refine ⟨none, ?_⟩
    have hfetch : fetchNextRecordInPage opts s (it.size + 1) it ⟨bpIterator, handler, it, rid⟩ =
        (.recordEof, ⟨bpIterator, handler, it, none⟩) := by
      unfold fetchNextRecordInPage
      rw [h it rfl]
    unfold RecordFileScanner.fetchNextRecord
    dsimp only
    rw [hfetch, if_pos rfl]

/-- A closed scanner that is done with its page begins as a new one does. -/
theorem PageDone.reopenScan (h : PageDone sc) (hclosed : sc.recordPageHandler = none)
    (opts : ScanOptions) (s : RecordFileHandler) :
    ∃ rc s₁ sc₁ sc₂, openScan opts s = (rc, s₁, sc₁) ∧ reopenScan opts s sc = (rc, s₁, sc₂) ∧
      (¬rc.fail = true → Agree sc₁ sc₂) := by
  obtain ⟨bpIterator, handler, iterator, rid⟩ := sc
  subst hclosed
  have hdone : PageDone ⟨.init s.fileBufferPool.fileHeader, none, iterator, rid⟩ := h
  obtain ⟨rid', hfetch⟩ := hdone.fetchNextRecord opts s
  obtain ⟨rc, s₁, sc₁, sc₂, hnew, hold, hagree⟩ := fetchFromPages_stale opts iterator rid'
    (BufferPoolIterator.init s.fileBufferPool.fileHeader).size s
    { bpIterator := .init s.fileBufferPool.fileHeader }
  refine ⟨if rc = .recordEof then .success else rc, s₁, sc₁, sc₂, ?_, ?_, fun hok => hagree ?_⟩
  · unfold openScan RecordFileScanner.fetchNextRecord
    dsimp only
    rw [hnew]
  · unfold RecordFileScanner.reopenScan
    dsimp only
    rw [hfetch, hold]
  · rcases rc_of_not_fail hok with rfl | rfl <;> decide

theorem touchesPinned_of_pageDone (h : PageDone sc) : sc.touchesPinned = true := by
  unfold RecordFileScanner.touchesPinned
  cases hit : sc.recordPageIterator with
  | none => rfl
  | some it =>
    dsimp only
    rw [h it hit]
    rfl

theorem pinned_reopenScan (hsc : sc.touchesPinned = true) (opts : ScanOptions)
    (s : RecordFileHandler) (hok : ¬(reopenScan opts s sc).1.fail = true) :
    (reopenScan opts s sc).2.2.nextRecord = none ∨
      (reopenScan opts s sc).2.2.touchesPinned = true := by
  have hinit : touchesPinned { sc with bpIterator := .init s.fileBufferPool.fileHeader } = true :=
    hsc
  exact pinned_fetchNextRecord hinit (rc_of_not_fail hok)

theorem PageDone.scansLikeNew (h : PageDone sc) (hclosed : sc.recordPageHandler = none)
    (opts : ScanOptions) (s : RecordFileHandler) : ScansLikeNew opts s sc := by
  intro n
  obtain ⟨rc, s₁, sc₁, sc₂, hnew, hold, hagree⟩ := h.reopenScan hclosed opts s
  unfold rescanPinned runScan
  rw [if_pos (touchesPinned_of_pageDone h), hnew, hold]
  dsimp only
  by_cases hok : rc.fail = true
  · rw [if_pos hok, if_pos hok]
  · have hpinned := pinned_reopenScan (touchesPinned_of_pageDone h) opts s
    rw [hold] at hpinned
    obtain ⟨hrc, hrows⟩ := (hagree hok).scanAll opts n s₁
    rw [if_neg hok, if_neg hok, scanPinned_eq opts n s₁ sc₂ (hpinned hok), hrc, hrows]

/-- On a page that is not done the page iterator touches it before it is pinned. -/
theorem not_scansLikeNew (hclosed : sc.recordPageHandler = none) (h : ¬PageDone sc)
    (opts : ScanOptions) (s : RecordFileHandler) : ¬ScansLikeNew opts s sc := by
  intro hscans
  have hpinned : sc.touchesPinned = true := by
    by_contra hnot
    have hzero := hscans 0
    unfold rescanPinned at hzero
    rw [if_neg hnot] at hzero
    cases hzero
  refine h fun it hit => ?_
  unfold RecordFileScanner.touchesPinned at hpinned
  rw [hit, hclosed] at hpinned
  simpa using hpinned

/-- A scanner with any history, on any file, scans every file like a new one after it was closed,
just if its page iterator has come to the end of the page or was never set. -/
theorem scansLikeNew_iff (s₀ : RecordFileHandler) (sc : RecordFileScanner) (opts : ScanOptions)
    (s : RecordFileHandler) : ScansLikeNew opts s (closeScan s₀ sc).2 ↔ PageDone sc := by
  have hclosed : (closeScan s₀ sc).2.recordPageHandler = none := by
    unfold closeScan
    rw [cleanup_eq]
  have hdone : PageDone (closeScan s₀ sc).2 ↔ PageDone sc := by
    unfold closeScan
    rw [cleanup_eq]
    rfl
  rw [← hdone]
  constructor
  · exact fun h => by_contra fun hnot => not_scansLikeNew hclosed hnot opts s h
  · exact fun h => h.scansLikeNew hclosed opts s

/-- A new file with two records of four bytes, both on page 1. -/
def twoRecords : RecordFileHandler :=
  let start := (init (DataFile.created (PageData.cleared : RecordPage)).pool).2
  ((run 4 [.insertRecord lowestBegin [1#8, 2#8, 3#8, 4#8],
    .insertRecord lowestBegin [5#8, 6#8, 7#8, 8#8]] start).map Prod.snd).getD start

/-- The scan of this file is closed after the first record was fetched.  Opened again, the scanner
begins with the second record, on a page that it has released. -/
theorem not_scansLikeNew_twoRecords :
    let r := openScan .vacuousTrx twoRecords
    let closed := closeScan r.2.1 r.2.2
    ¬ScansLikeNew .vacuousTrx closed.1 closed.2 ∧
      (runScan .vacuousTrx 5 closed.1).2.1.map Prod.fst = [⟨1, 0⟩, ⟨1, 1⟩] ∧
      (reopenScan .vacuousTrx closed.1 closed.2).2.2.nextRecord = some ⟨1, 1⟩ := by
  intro r closed
  refine ⟨?_, by decide +kernel, by decide +kernel⟩
  refine not_scansLikeNew (by decide +kernel) ?_ _ _
  intro hdone
  have hnext : closed.2.recordPageIterator.bind (fun it => it.nextSlotNum) = some 1 := by
    decide +kernel
  obtain ⟨it, hit, hslot⟩ := Option.bind_eq_some_iff.mp hnext
  rw [hdone it hit] at hslot
  cases hslot

end RecordFileScanner

end TDB.Recorder
