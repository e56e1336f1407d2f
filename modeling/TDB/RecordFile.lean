import TDB.RecordFileHandler

namespace TDB

open ByteBits

namespace Recorder

namespace RecordFileHandler

variable {s s' s'' : RecordFileHandler} {p q : ℕ} {recordSize : ℕ}

/-! ## `insert_record` -/

structure Changes (recordSize : ℕ) (s s' : RecordFileHandler) (rid : RID)
    (r : Option (List (BitVec 8))) : Prop where
  inv : Inv recordSize s'
  records : s'.records = Function.update s.records rid r

theorem insertInto_spec {page : RecordPage} {data : List (BitVec 8)} (hi : Inv recordSize s)
    (hp : s.IsRecordPage p) (hpage : s.pageAt p = some page) (hfull : page.isFull = false)
    (hdata : data.length = recordSize) :
    ∃ slotNum s', s.insertInto p data = some ((.success, some ⟨p, slotNum⟩), s') ∧
      slotNum < (PageHeader.empty recordSize).recordCapacity ∧
      s.records ⟨p, slotNum⟩ = none ∧ Changes recordSize s s' ⟨p, slotNum⟩ (some data) ∧
      s'.fileBufferPool.fileHeader = s.fileBufferPool.fileHeader ∧
      s'.freePages = s.freePages := by
  obtain ⟨page₀, hpage₀, hwf⟩ := hi.pages p hp
  obtain rfl : page₀ = page := Option.some.inj (hpage₀.symm.trans hpage)
  obtain ⟨index, page', hins, hu, hnew, hlt, hbit⟩ := hwf.insertRecord hdata hfull
  have hslot := hu.slot_eq hlt
  rw [if_pos rfl, hnew] at hslot
  have hfresh : s.records ⟨p, index⟩ = none := by
    rw [records_eq hp hpage]
    apply if_neg
    rintro ⟨-, hset⟩
    rw [hbit] at hset
    cases hset
  have hwrites : Writes s (((s.setPage p page').markDirty p).cleanup p) p page' :=
    ((writes_setPage (by rw [hpage]; exact Option.some_ne_none _) page').samePages
      (samePages_markDirty _ p)).samePages (samePages_cleanup _ p)
  refine ⟨index, ((s.setPage p page').markDirty p).cleanup p, ?_, ?_, hfresh, ⟨?_, ?_⟩,
    hwrites.fileHeader, rfl⟩
  · unfold insertInto
    rw [page_eq hpage, hins]
  · rw [← hwf.recordCapacity]
    exact hlt
  · exact hi.writes hp hwrites (hu.wellFormed hwf) (fun q hq => Or.inl hq) (fun q hq => hq)
      fun _ => hi.free p page₀ hp hpage hfull
  · exact hwrites.records hp hpage hslot

theorem Inv.erase {page : RecordPage} (hi : Inv recordSize s) (hpage : s.pageAt p = some page)
    (hfull : page.isFull = true) : Inv recordSize { s with freePages := s.freePages.erase p } where
  header := hi.header
  pages := hi.pages
  free q page' hq hpage' hfull' := by
    apply Finset.mem_erase.mpr
    refine ⟨?_, hi.free q page' hq hpage' hfull'⟩
    rintro rfl
    have heq : page' = page := Option.some.inj (hpage'.symm.trans hpage)
    rw [heq, hfull] at hfull'
    cases hfull'
  isRecordPage q hq := hi.isRecordPage q (Finset.mem_of_mem_erase hq)

/-- The search ends at a page with room, or without any when `free_pages_` has none. -/
theorem findPage_spec (begin : Begin) {n : ℕ} (hi : Inv recordSize s)
    (hn : s.freePages.card ≤ n) :
    ∃ found s', findPage begin n s = ((.success, found), s') ∧ Inv recordSize s' ∧
      SamePages s s' ∧
      (∀ p, found = some p →
        s'.IsRecordPage p ∧ ∃ page, s'.pageAt p = some page ∧ page.isFull = false) ∧
      (found = none → s'.freePages = ∅) := by
  induction n generalizing s with
  | zero =>
    have hempty : s.freePages = ∅ := Finset.card_eq_zero.mp (by omega)
    exact ⟨none, s, rfl, hi, SamePages.refl s, fun _ h => (by cases h), fun _ => hempty⟩
  | succ n ih =>
    by_cases hempty : s.freePages = ∅
    · exact ⟨none, s, by rw [findPage, if_pos hempty], hi, SamePages.refl s,
        fun _ h => (by cases h), fun _ => hempty⟩
    · have hmem := begin.pick_mem s.freePages (Finset.nonempty_iff_ne_empty.mpr hempty)
      generalize hpick : begin.pick s.freePages = p at hmem
      have hp := hi.isRecordPage p hmem
      obtain ⟨page, hpage, hwf⟩ := hi.pages p hp
      obtain ⟨hrc, hsame, hfree⟩ := initPage_spec hpage
      have hpage' : (s.initPage p).2.pageAt p = some page := by rw [hsame.pageAt, hpage]
      have hi' := hi.samePages hsame hfree
      rw [findPage, if_neg hempty]
      simp only [hpick]
      rw [hrc, page_eq hpage']
      by_cases hfull : page.isFull = true
      · have hclean := samePages_cleanup (s.initPage p).2 p
        have hpage'' : ((s.initPage p).2.cleanup p).pageAt p = some page := by
          rw [hclean.pageAt, hpage']
        have hi'' := (hi'.samePages hclean rfl).erase hpage'' hfull
        have hcard : ((s.initPage p).2.freePages.erase p).card ≤ n := by
          rw [hfree]
          have hlt := Finset.card_erase_lt_of_mem hmem
          omega
        obtain ⟨found, s', heq, hinv, hsame', hfound⟩ := ih hi'' hcard
        refine ⟨found, s', ?_, hinv, (hsame.trans hclean).trans ⟨hsame'.1, hsame'.2⟩, hfound⟩
        rw [if_neg (by decide), if_pos hfull]
        exact heq
      · refine ⟨some p, (s.initPage p).2, ?_, hi', hsame, ?_, fun h => by cases h⟩
        · rw [if_neg (by decide), if_neg hfull]
        · intro q hq
          cases hq
          exact ⟨hsame.isRecordPage.mpr hp, page, hpage', by simpa using hfull⟩

/-- A new page is empty, and in `free_pages_`. -/
theorem addPage_spec (hi : Inv recordSize s)
    (hsuccess : s.fileBufferPool.allocatePage.1.1 = .success) :
    ∃ p s', s.addPage recordSize = ((.success, p), s') ∧ Inv recordSize s' ∧
      s'.records = s.records ∧ s'.IsRecordPage p ∧ ¬s.IsRecordPage p ∧
      ∃ page, s'.pageAt p = some page ∧ page.header = PageHeader.empty recordSize := by
  obtain ⟨p, hp, hout⟩ := FileBufferPool.allocatePage_handsOut hi.header hsuccess
  have hp0 : 0 < p := by
    rw [Nat.pos_iff_ne_zero]
    rintro rfl
    exact Bool.noConfusion (hout.free.symm.trans hi.header.headerPage)
  -- `s₁` after the allocation, `s₂` after the new page is written
  let s₁ : RecordFileHandler := { s with fileBufferPool := s.fileBufferPool.allocatePage.2 }
  obtain ⟨f, hf⟩ := hout.self
  have hpage₁ : s₁.pageAt p = some f.data := by
    rw [pageAt, hf]
    rfl
  obtain ⟨hrc, hsame, hfree⟩ := initPage_spec hpage₁
  let page := ((s₁.initPage p).2.page p).initEmptyPage recordSize
  let s₂ := ((s₁.initPage p).2.setPage p page).cleanup p
  have hwrites : Writes s₁ s₂ p page :=
    hsame.writes ((writes_setPage (by rw [hsame.pageAt, hpage₁]; exact Option.some_ne_none _)
      page).samePages (samePages_cleanup _ p))
  have hbitmap : s₂.fileBufferPool.fileHeader.bitmap =
      Function.update s.fileBufferPool.fileHeader.bitmap p true := by
    rw [hwrites.fileHeader]
    exact hout.bitmap
  have hisRecordPage : ∀ q, s₂.IsRecordPage q ↔ s.IsRecordPage q ∨ q = p := by
    intro q
    unfold IsRecordPage
    rw [hbitmap]
    by_cases hq : q = p
    · subst hq
      simp [hp0]
    · rw [Function.update_of_ne (FileHeader.cast_ne hq)]
      simp [hq]
  -- the other pages keep their data
  have hother : ∀ q, q ≠ p → s₂.pageAt q = s.pageAt q := by
    intro q hq
    rw [hwrites.other q hq]
    exact congrArg (Option.map Frame.data) (hout.other q (FileHeader.cast_ne hq))
  have hnew : ¬s.IsRecordPage p := fun h => Bool.noConfusion (hout.free.symm.trans h.2)
  have hwf : page.WellFormed recordSize := RecordPage.wellFormed_initEmptyPage _ _
  refine ⟨p, { s₂ with freePages := insert p s₂.freePages }, ?_, ⟨?_, ?_, ?_, ?_⟩, ?_,
    (hisRecordPage p).mpr (Or.inr rfl), hnew, page, hwrites.self, rfl⟩
  · unfold addPage
    simp only [hsuccess, hp, Int.toNat_natCast]
    rw [if_neg (by decide)]
    change (if (s₁.initPage p).1.fail = true then _ else _) = _
    rw [hrc, if_neg (by decide)]
  · change s₂.fileBufferPool.fileHeader.Consistent
    rw [hwrites.fileHeader]
    exact hout.consistent
  · intro q hq
    by_cases hqp : q = p
    · exact ⟨page, hqp ▸ hwrites.self, hwf⟩
    · obtain ⟨page', hpage', hwf'⟩ := hi.pages q (((hisRecordPage q).mp hq).resolve_right hqp)
      exact ⟨page', (hother q hqp).trans hpage', hwf'⟩
  · intro q page' hq hpage' hfull
    apply Finset.mem_insert.mpr
    by_cases hqp : q = p
    · exact Or.inl hqp
    · right
      have hmem := hi.free q page' (((hisRecordPage q).mp hq).resolve_right hqp)
        ((hother q hqp).symm.trans hpage') hfull
      exact hfree ▸ hmem
  · intro q hq
    rcases Finset.mem_insert.mp hq with rfl | hmem
    · exact (hisRecordPage q).mpr (Or.inr rfl)
    · exact (hisRecordPage q).mpr (Or.inl (hi.isRecordPage q (hfree ▸ hmem)))
  · funext rid
    by_cases hq : rid.pageNum = p
    · have hs : s.records rid = none := if_neg (hq ▸ hnew)
      rw [hs]
      have hr : s₂.records rid = page.slot rid.slotNum :=
        records_eq (hq ▸ (hisRecordPage p).mpr (Or.inr rfl)) (hq ▸ hwrites.self)
      exact hr.trans (RecordPage.slot_initEmptyPage _ _ _)
    · have hiff : (0 < rid.pageNum ∧ s₂.fileBufferPool.fileHeader.bitmap rid.pageNum = true) ↔
          (0 < rid.pageNum ∧ s.fileBufferPool.fileHeader.bitmap rid.pageNum = true) :=
        (hisRecordPage rid.pageNum).trans (or_iff_left hq)
      change (if 0 < rid.pageNum ∧ s₂.fileBufferPool.fileHeader.bitmap rid.pageNum = true then
        (s₂.pageAt rid.pageNum).bind fun page => page.slot rid.slotNum else none) = _
      rw [hother _ hq, records]
      simp only [hiff]

def AllocationSucceeds (begin : Begin) (s : RecordFileHandler) : Prop :=
  (findPage begin s.freePages.card s).1.2 = none →
    (findPage begin s.freePages.card s).2.fileBufferPool.allocatePage.1.1 = .success

/-- `insert_record` binds the bytes to a RID that was free. -/
theorem insertRecord_spec (begin : Begin) {data : List (BitVec 8)}
    (hcap : 0 < (PageHeader.empty recordSize).recordCapacity) (hi : Inv recordSize s)
    (hdata : data.length = recordSize) (halloc : s.AllocationSucceeds begin) :
    ∃ rid s', s.insertRecord begin data recordSize = some ((.success, some rid), s') ∧
      s'.IsRecordPage rid.pageNum ∧
      rid.slotNum < (PageHeader.empty recordSize).recordCapacity ∧
      s.records rid = none ∧ Changes recordSize s s' rid (some data) := by
  obtain ⟨found, s₁, heq, hi₁, hsame, hsome, hnone⟩ := findPage_spec begin hi le_rfl
  unfold insertRecord
  rw [heq]
  cases found with
  | some p =>
    obtain ⟨hp, page, hpage, hfull⟩ := hsome p rfl
    obtain ⟨slotNum, s', hins, hlt, hfresh, hchanges, hheader, -⟩ :=
      insertInto_spec hi₁ hp hpage hfull hdata
    refine ⟨⟨p, slotNum⟩, s', hins, ?_, hlt, ?_, hchanges.inv, ?_⟩
    · rw [IsRecordPage, hheader]
      exact hp
    · rw [← hsame.records]
      exact hfresh
    · rw [hchanges.records, hsame.records]
  | none =>
    have hsuccess : s₁.fileBufferPool.allocatePage.1.1 = .success := by
      unfold AllocationSucceeds at halloc
      rw [heq] at halloc
      exact halloc rfl
    obtain ⟨p, s₂, hadd, hi₂, hrecords, hp, -, page, hpage, hheader⟩ :=
      addPage_spec hi₁ hsuccess
    have hfull : page.isFull = false := by
      rw [RecordPage.isFull, hheader]
      apply decide_eq_false
      change ¬((PageHeader.empty recordSize).recordCapacity : ℤ) ≤ 0
      omega
    obtain ⟨slotNum, s', hins, hlt, hfresh, hchanges, hheader', -⟩ :=
      insertInto_spec hi₂ hp hpage hfull hdata
    refine ⟨⟨p, slotNum⟩, s', ?_, ?_, hlt, ?_, hchanges.inv, ?_⟩
    · dsimp only
      rw [if_neg (by decide), hadd]
      exact hins
    · rw [IsRecordPage, hheader']
      exact hp
    · rw [← hsame.records, ← hrecords]
      exact hfresh
    · rw [hchanges.records, hrecords, hsame.records]

/-- A call that returns `SUCCESS` has bound the bytes, whatever the page could hold. -/
theorem insertRecord_changes {begin : Begin} {data : List (BitVec 8)} {bound : Option RID}
    (hi : Inv recordSize s) (hdata : data.length = recordSize)
    (h : s.insertRecord begin data recordSize = some ((.success, bound), s')) :
    ∃ rid, Changes recordSize s s' rid (some data) := by
  obtain ⟨found, s₁, heq, hi₁, hsame, hsome, -⟩ := findPage_spec begin hi le_rfl
  unfold insertRecord at h
  rw [heq] at h
  cases found with
  | some p =>
    obtain ⟨hp, page, hpage, hfull⟩ := hsome p rfl
    obtain ⟨slotNum, s'', hins, -, -, hchanges, -⟩ := insertInto_spec hi₁ hp hpage hfull hdata
    simp only [hins] at h
    cases h
    exact ⟨⟨p, slotNum⟩, hchanges.inv, by rw [hchanges.records, hsame.records]⟩
  | none =>
    have hsuccess : s₁.fileBufferPool.allocatePage.1.1 = .success := by
      by_contra hfail
      have hadd : (s₁.addPage recordSize).1.1 = s₁.fileBufferPool.allocatePage.1.1 := by
        unfold addPage
        simp only [RC.fail, bne_iff_ne, ne_eq, hfail, not_false_eq_true, if_true]
      rw [← hadd] at hfail
      dsimp only at h
      rw [if_neg (by decide), if_pos (by simpa [RC.fail] using hfail)] at h
      exact hfail (congrArg (fun r => r.1.1) (Option.some.inj h))
    obtain ⟨p, s₂, hadd, hi₂, hrecords, hp, -, page, hpage, hheader⟩ :=
      addPage_spec hi₁ hsuccess
    dsimp only at h
    rw [if_neg (by decide), hadd] at h
    change s₂.insertInto p data = _ at h
    cases hfull : page.isFull with
    | true =>
      -- a page that no record fits into is full from the start
      unfold insertInto RecordPage.insertRecord at h
      have hnum : page.header.recordNum = page.header.recordCapacity := by
        rw [RecordPage.isFull, hheader, decide_eq_true_eq] at hfull
        rw [hheader]
        change (0 : ℤ) = _
        change ((PageHeader.empty recordSize).recordCapacity : ℤ) ≤ 0 at hfull
        omega
      rw [page_eq hpage, if_pos hnum] at h
      cases h
    | false =>
      obtain ⟨slotNum, s'', hins, -, -, hchanges, -⟩ := insertInto_spec hi₂ hp hpage hfull hdata
      rw [hins] at h
      cases h
      exact ⟨⟨p, slotNum⟩, hchanges.inv, by rw [hchanges.records, hrecords, hsame.records]⟩

/-! ## `delete_record` and `get_record` -/

/-- What the operations on one record begin with: its page is there, has the slot, and is pinned
without another change. -/
theorem Inv.initPage_spec {rid : RID} (hi : Inv recordSize s) (hp : s.IsRecordPage rid.pageNum)
    (hslot : rid.slotNum < (PageHeader.empty recordSize).recordCapacity) :
    ∃ page, s.pageAt rid.pageNum = some page ∧ page.WellFormed recordSize ∧
      rid.slotNum < page.header.recordCapacity ∧ (s.initPage rid.pageNum).1 = .success ∧
      SamePages s (s.initPage rid.pageNum).2 ∧
      (s.initPage rid.pageNum).2.freePages = s.freePages ∧
      (s.initPage rid.pageNum).2.pageAt rid.pageNum = some page := by
  obtain ⟨page, hpage, hwf⟩ := hi.pages _ hp
  obtain ⟨hrc, hsame, hfree⟩ := RecordFileHandler.initPage_spec hpage
  refine ⟨page, hpage, hwf, ?_, hrc, hsame, hfree, ?_⟩
  · rw [hwf.recordCapacity]
    exact hslot
  · rw [hsame.pageAt, hpage]

theorem deleteRecord_spec {rid : RID} (hi : Inv recordSize s)
    (hp : s.IsRecordPage rid.pageNum)
    (hslot : rid.slotNum < (PageHeader.empty recordSize).recordCapacity) :
    Changes recordSize s (s.deleteRecord rid).2 rid none ∧
    (s.deleteRecord rid).2.fileBufferPool.fileHeader = s.fileBufferPool.fileHeader ∧
    (s.deleteRecord rid).1 = if (s.records rid).isSome then .success else .recordNotExist := by
  obtain ⟨page, hpage, hwf, hlt, hrc, hsame, hfree, hpage'⟩ := hi.initPage_spec hp hslot
  have hdelete := hwf.deleteRecord hlt
  have hrecords : s.records rid = page.slot rid.slotNum := records_eq hp hpage
  unfold deleteRecord
  simp only [hrc, page_eq hpage']
  rw [if_neg (by decide)]
  by_cases hbit : bit page.bitmap rid.slotNum = true
  · rw [if_pos hbit] at hdelete
    obtain ⟨hsuccess, hu⟩ := hdelete
    have hslotEq := hu.slot_eq hlt
    rw [if_neg Bool.false_ne_true] at hslotEq
    have hsome : page.slot rid.slotNum = some (page.recordData rid.slotNum) :=
      if_pos ⟨hlt, hbit⟩
    have hwrites := hsame.writes (((writes_setPage (p := rid.pageNum)
      (by rw [hpage']; exact Option.some_ne_none _)
      (page.deleteRecord rid.slotNum).2).samePages
        (samePages_markDirty _ rid.pageNum)).samePages (samePages_cleanup _ rid.pageNum))
    rw [hsuccess, if_neg (by decide), hrecords, hsome]
    refine ⟨⟨?_, ?_⟩, hwrites.fileHeader, rfl⟩
    · refine hi.writes hp ⟨hwrites.1, hwrites.2, hwrites.3⟩ (hu.wellFormed hwf) ?_ ?_ ?_
      · intro q hq
        rcases Finset.mem_insert.mp hq with rfl | hmem
        · exact Or.inr rfl
        · exact Or.inl (hfree ▸ hmem)
      · intro q hq
        exact Finset.mem_insert_of_mem (hfree.symm ▸ hq)
      · intro _
        exact Finset.mem_insert_self _ _
    · exact Writes.records ⟨hwrites.1, hwrites.2, hwrites.3⟩ hp hpage hslotEq
  · rw [if_neg hbit] at hdelete
    have hnone : page.slot rid.slotNum = none := if_neg fun hc => hbit hc.2
    have hclean := hsame.trans (samePages_cleanup (s.initPage rid.pageNum).2 rid.pageNum)
    rw [hdelete, hrecords, hnone]
    refine ⟨⟨hi.samePages hclean hfree, ?_⟩, hclean.fileHeader, rfl⟩
    change ((s.initPage rid.pageNum).2.cleanup rid.pageNum).records = _
    rw [hclean.records, ← hnone, ← hrecords, Function.update_eq_self]

theorem getRecord_spec {rid : RID} (hi : Inv recordSize s)
    (hp : s.IsRecordPage rid.pageNum)
    (hslot : rid.slotNum < (PageHeader.empty recordSize).recordCapacity) :
    SamePages s (s.getRecord rid).2 ∧ (s.getRecord rid).2.freePages = s.freePages ∧
    (s.getRecord rid).1 =
      (s.records rid).elim (.recordNotExist, []) fun data => (.success, data) := by
  obtain ⟨page, hpage, hwf, hlt, hrc, hsame, hfree, hpage'⟩ := hi.initPage_spec hp hslot
  unfold getRecord
  simp only [hrc, page_eq hpage']
  rw [if_neg (by decide), records_eq hp hpage]
  exact ⟨hsame, hfree, RecordPage.getRecord_eq hlt⟩

/-! ## `init` -/

/-- A file of records of one size, as it is found when it is opened. -/
structure IsRecordFile (recordSize : ℕ) (bp : FileBufferPool RecordPage) : Prop where
  header : bp.fileHeader.Consistent
  pages : ∀ p : ℕ, 0 < p → bp.fileHeader.bitmap p = true →
    ∃ f, bp.frame p = some f ∧ f.data.WellFormed recordSize

/-- The loop of `init_free_pages` visits the allocated pages behind the current one. -/
theorem initFreePages_spec {n : ℕ} {it : BufferPoolIterator}
    (hpages : ∀ p, s.IsRecordPage p → ∃ page, s.pageAt p = some page)
    (hbit : s.fileBufferPool.fileHeader.bitmap it.currentPageNum = true)
    (hn : (indices (fun i => s.fileBufferPool.fileHeader.bitmap i) (it.currentPageNum + 1)
      it.size).length ≤ n) :
    SamePages s (initFreePages n it s).2 ∧
    ∀ q, q ∈ (initFreePages n it s).2.freePages ↔ q ∈ s.freePages ∨
      q ∈ indices (fun i => s.fileBufferPool.fileHeader.bitmap i) (it.currentPageNum + 1) it.size ∧
        ∃ page, s.pageAt q = some page ∧ page.isFull = false := by
  -- on the number of rounds left, which bounds the allocated pages still ahead
  induction n generalizing s it with
  | zero =>
    have hnil := List.length_eq_zero_iff.mp (Nat.le_zero.mp hn)
    refine ⟨SamePages.refl s, fun q => ?_⟩
    rw [hnil]
    simp [initFreePages]
  | succ n ih =>
    rw [initFreePages, BufferPoolIterator.next_eq hbit]
    cases hlow : lowest (fun i => s.fileBufferPool.fileHeader.bitmap i) (it.currentPageNum + 1)
        it.size with
    | none =>
      refine ⟨SamePages.refl s, fun q => ?_⟩
      rw [indices_eq_nil hlow]
      simp
    | some p =>
      obtain ⟨hlt, -, hp, -⟩ := lowest_eq_some_iff.mp hlow
      obtain ⟨page, hpage⟩ := hpages p ⟨by omega, hp⟩
      obtain ⟨hrc, hsame, hfree⟩ := initPage_spec hpage
      have hpage' : (s.initPage p).2.pageAt p = some page := by rw [hsame.pageAt, hpage]
      rw [indices_eq_cons hlow] at hn ⊢
      simp only [Option.map_some, hrc, page_eq hpage']
      rw [if_neg (by decide)]
      generalize hs₁ : (if page.isFull then (s.initPage p).2 else
        { (s.initPage p).2 with freePages := insert p (s.initPage p).2.freePages }) = s₁
      have hsame₁ : SamePages s (s₁.cleanup p) := by
        apply SamePages.trans _ (samePages_cleanup s₁ p)
        rw [← hs₁]
        split
        · exact hsame
        · exact ⟨hsame.1, hsame.2⟩
      -- a full page is not put into the set
      have hfree₁ : ∀ q, q ∈ (s₁.cleanup p).freePages ↔
          q ∈ s.freePages ∨ q = p ∧ page.isFull = false := by
        intro q
        change q ∈ s₁.freePages ↔ _
        rw [← hs₁]
        by_cases hfull : page.isFull = true
        · rw [if_pos hfull, hfree]
          simp [hfull]
        · rw [if_neg hfull]
          simp [hfree, hfull, or_comm]
      have hheader := hsame₁.fileHeader
      obtain ⟨hsame₂, hfree₂⟩ := @ih (s₁.cleanup p) { it with currentPageNum := p }
        (fun q hq => by rw [hsame₁.pageAt]; exact hpages q (hsame₁.isRecordPage.mp hq))
        (by rw [hheader]; exact hp)
        (by rw [hheader]; simpa using hn)
      refine ⟨hsame₁.trans hsame₂, fun q => ?_⟩
      rw [hfree₂, hfree₁, hheader, hsame₁.pageAt, List.mem_cons]
      constructor
      · rintro ((hq | ⟨rfl, hfull⟩) | ⟨hq, hroom⟩)
        · exact Or.inl hq
        · exact Or.inr ⟨Or.inl rfl, page, hpage, hfull⟩
        · exact Or.inr ⟨Or.inr hq, hroom⟩
      · rintro (hq | ⟨rfl | hq, hroom⟩)
        · exact Or.inl (Or.inl hq)
        · obtain ⟨page', hpage₂, hfull⟩ := hroom
          have hsamePage : page' = page := Option.some.inj (hpage₂.symm.trans hpage)
          exact Or.inl (Or.inr ⟨rfl, hsamePage ▸ hfull⟩)
        · exact Or.inr ⟨hq, hroom⟩

/-- After `init`, `free_pages_` holds exactly the pages that are not full. -/
theorem inv_init {bp : FileBufferPool RecordPage} (h : IsRecordFile recordSize bp) :
    Inv recordSize (init bp).2 ∧ SamePages ⟨bp, ∅⟩ (init bp).2 := by
  have hpages : ∀ p, IsRecordPage ⟨bp, ∅⟩ p → ∃ page, pageAt ⟨bp, ∅⟩ p = some page ∧
      page.WellFormed recordSize := by
    rintro p ⟨hp, hbit⟩
    obtain ⟨f, hf, hwf⟩ := h.pages p hp hbit
    exact ⟨f.data, by rw [pageAt, hf]; rfl, hwf⟩
  obtain ⟨hsame, hfree⟩ := @initFreePages_spec ⟨bp, ∅⟩ bp.fileHeader.pageCount
    (.init bp.fileHeader) (fun p hp => (hpages p hp).imp fun _ => And.left) h.header.headerPage
    ((length_indices_le _ _ _).trans (Nat.sub_le _ _))
  refine ⟨⟨?_, ?_, ?_, ?_⟩, hsame⟩
  · rw [init, hsame.fileHeader]
    exact h.header
  · intro p hp
    rw [init, hsame.pageAt]
    exact hpages p (hsame.isRecordPage.mp hp)
  · intro p page hp hpage hfull
    have hp' := hsame.isRecordPage.mp hp
    apply (hfree p).mpr
    right
    refine ⟨mem_indices.mpr ⟨hp'.1, h.header.lt_pageCount hp'.2, hp'.2⟩, page, ?_, hfull⟩
    rw [← hsame.pageAt]
    exact hpage
  · intro p hp
    rcases (hfree p).mp hp with hempty | ⟨hmem, -⟩
    · exact absurd hempty (Finset.notMem_empty p)
    · obtain ⟨hpos, -, hbit⟩ := mem_indices.mp hmem
      exact hsame.isRecordPage.mpr ⟨hpos, hbit⟩

end RecordFileHandler

end Recorder

end TDB
