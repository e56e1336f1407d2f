import TDB.RecordMap

namespace TDB.Recorder

open FileBufferPool

namespace RecordFileHandler

/-! ## Insertions that return an error -/

structure Unchanged (s s' : RecordFileHandler) : Prop where
  bitmap : s'.fileBufferPool.fileHeader.bitmap = s.fileBufferPool.fileHeader.bitmap
  freePages : s'.freePages = s.freePages
  records : s'.records = s.records

/-- An `insert_record` that returns an error leaves the file as it was. -/
def FailsCleanly (recordSize : ℕ) (begin : Begin) (data : List (BitVec 8))
    (s : RecordFileHandler) : Prop :=
  ∃ r s', s.insertRecord begin data recordSize = some (r, s') ∧ (r.1.fail = true → Unchanged s s')

def HasRoom (s : RecordFileHandler) : Prop :=
  ∃ p ∈ s.freePages, ∃ page, s.pageAt p = some page ∧ page.isFull = false

/-- The page that `allocate_page` would take can be read, or is a new one. -/
def PageToBeHad (s : RecordFileHandler) : Prop :=
  (∃ i, s.fileBufferPool.freeBit = some i ∧ s.pageAt i ≠ none) ∨
    (s.fileBufferPool.freeBit = none ∧ s.fileBufferPool.fileHeader.pageCount < maxPageNum)

def FileFull (s : RecordFileHandler) : Prop :=
  s.fileBufferPool.freeBit = none ∧ maxPageNum ≤ s.fileBufferPool.fileHeader.pageCount

/-- There is room for the record, or a page for it that holds at least one record, or the file and
`free_pages_` have nothing that could change. -/
def InsertSafe (recordSize : ℕ) (s : RecordFileHandler) : Prop :=
  s.HasRoom ∨ (s.PageToBeHad ∧ 0 < (PageHeader.empty recordSize).recordCapacity) ∨
    (s.FileFull ∧ s.freePages = ∅)

variable {recordSize : ℕ} {s s' : RecordFileHandler} {p : ℕ}

theorem SamePages.freeBit (h : SamePages s s') :
    s'.fileBufferPool.freeBit = s.fileBufferPool.freeBit := by
  unfold FileBufferPool.freeBit
  rw [h.fileHeader]

theorem SamePages.pageToBeHad (h : SamePages s s') : s'.PageToBeHad ↔ s.PageToBeHad := by
  unfold PageToBeHad
  simp only [h.freeBit, h.fileHeader, h.pageAt]

theorem SamePages.fileFull (h : SamePages s s') : s'.FileFull ↔ s.FileFull := by
  unfold FileFull
  rw [h.freeBit, h.fileHeader]

theorem frame_ne_none : s.fileBufferPool.frame p ≠ none ↔ s.pageAt p ≠ none := by
  unfold pageAt
  rw [ne_eq, ne_eq, Option.map_eq_none_iff]

theorem PageToBeHad.allocatePage (h : s.PageToBeHad) :
    s.fileBufferPool.allocatePage.1.1 = .success := by
  obtain ⟨i, hfree, hread⟩ | ⟨hfree, hlt⟩ := h
  · obtain ⟨f, hf⟩ := Option.ne_none_iff_exists'.mp (frame_ne_none.mpr hread)
    have hget : ((s.fileBufferPool.setBit i).getThisPage i).1 = .success := by
      unfold getThisPage
      rw [show (s.fileBufferPool.setBit i).frame i = some f from hf]
    unfold FileBufferPool.allocatePage
    rw [hfree]
    exact hget
  · unfold FileBufferPool.allocatePage
    rw [hfree]
    dsimp only
    rw [if_neg (Nat.not_le_of_lt hlt)]

/-- A free page that cannot be read is allocated all the same. -/
theorem allocatePage_unreadable {i : ℕ} (hfree : s.fileBufferPool.freeBit = some i)
    (hread : s.pageAt i = none) :
    s.fileBufferPool.allocatePage.1.1 = .ioerrRead ∧
      s.fileBufferPool.allocatePage.2.fileHeader.bitmap i = true := by
  have hnone : (s.fileBufferPool.setBit i).frame i = none := by
    by_contra hne
    exact frame_ne_none.mp hne hread
  unfold FileBufferPool.allocatePage getThisPage
  rw [hfree]
  dsimp only
  rw [hnone]
  exact ⟨rfl, Function.update_self ..⟩

theorem FileFull.allocatePage (h : s.FileFull) : s.fileBufferPool.allocatePage =
    ((.bufferpoolNobuf, invalidPageNum), s.fileBufferPool.noteFailure) := by
  unfold FileBufferPool.allocatePage
  rw [h.1]
  dsimp only
  rw [if_pos h.2]

/-- There is a page to be had, or the file is full, or its lowest free page cannot be read. -/
theorem pageToBeHad_or (s : RecordFileHandler) : s.PageToBeHad ∨ s.FileFull ∨
    ∃ i, s.fileBufferPool.freeBit = some i ∧ s.pageAt i = none := by
  cases hfree : s.fileBufferPool.freeBit with
  | none =>
    rcases Nat.lt_or_ge s.fileBufferPool.fileHeader.pageCount maxPageNum with hlt | hle
    · exact .inl (.inr ⟨hfree, hlt⟩)
    · exact .inr (.inl ⟨hfree, hle⟩)
  | some i =>
    by_cases hread : s.pageAt i = none
    · exact .inr (.inr ⟨i, rfl, hread⟩)
    · exact .inl (.inl ⟨i, hfree, hread⟩)

/-! ## The cases of `insert_record` -/

theorem findPage_of_hasRoom (begin : Begin) (hi : Inv recordSize s) (hroom : s.HasRoom) :
    (findPage begin s.freePages.card s).1.2 ≠ none := by
  obtain ⟨found, s₁, heq, hi₁, hsame, -, hnone⟩ := findPage_spec begin hi le_rfl
  obtain ⟨p, hp, page, hpage, hfull⟩ := hroom
  rw [heq]
  rintro rfl
  have hmem := hi₁.free p page (hsame.isRecordPage.mpr (hi.isRecordPage p hp))
    ((hsame.pageAt p).trans hpage) hfull
  rw [hnone rfl] at hmem
  exact Finset.notMem_empty p hmem

/-- Without room in a page of `free_pages_` the search empties it. -/
theorem findPage_of_not_hasRoom (begin : Begin) (hi : Inv recordSize s) (hroom : ¬s.HasRoom) :
    ∃ s₁, findPage begin s.freePages.card s = ((.success, none), s₁) ∧ Inv recordSize s₁ ∧
      SamePages s s₁ ∧ s₁.freePages = ∅ := by
  obtain ⟨found, s₁, heq, hi₁, hsame, hsome, hnone⟩ := findPage_spec begin hi le_rfl
  cases found with
  | none => exact ⟨s₁, heq, hi₁, hsame, hnone rfl⟩
  | some p =>
    obtain ⟨hp, page, hpage, hfull⟩ := hsome p rfl
    refine absurd ⟨p, ?_, page, (hsame.pageAt p).symm.trans hpage, hfull⟩ hroom
    exact hi.free p page (hsame.isRecordPage.mp hp) ((hsame.pageAt p).symm.trans hpage) hfull

theorem insertRecord_of_allocation_failed (recordSize : ℕ) {begin : Begin}
    (data : List (BitVec 8)) {s₁ : RecordFileHandler}
    (hfind : findPage begin s.freePages.card s = ((.success, none), s₁))
    (hfail : s₁.fileBufferPool.allocatePage.1.1.fail = true) :
    s.insertRecord begin data recordSize = some ((s₁.fileBufferPool.allocatePage.1.1, none),
      { s₁ with fileBufferPool := s₁.fileBufferPool.allocatePage.2 }) := by
  have hadd : s₁.addPage recordSize =
      ((s₁.fileBufferPool.allocatePage.1.1, s₁.fileBufferPool.allocatePage.1.2.toNat),
        { s₁ with fileBufferPool := s₁.fileBufferPool.allocatePage.2 }) := by
    unfold addPage
    dsimp only
    rw [if_pos hfail]
  unfold insertRecord
  rw [hfind]
  dsimp only
  rw [if_neg (by decide), hadd]
  dsimp only
  rw [if_pos hfail]

theorem HasRoom.capacity_pos (hi : Inv recordSize s) (hroom : s.HasRoom) :
    0 < (PageHeader.empty recordSize).recordCapacity := by
  obtain ⟨p, hp, page, hpage, hfull⟩ := hroom
  obtain ⟨page', hpage', hwf⟩ := hi.pages p (hi.isRecordPage p hp)
  obtain rfl : page' = page := Option.some.inj (hpage'.symm.trans hpage)
  have hlt := of_decide_eq_false hfull
  have hnum := hwf.recordNum
  rw [← hwf.recordCapacity]
  omega

theorem allocationSucceeds (begin : Begin) (hi : Inv recordSize s)
    (h : s.HasRoom ∨ s.PageToBeHad) : s.AllocationSucceeds begin := by
  intro hnone
  rcases h with hroom | hpage
  · exact absurd hnone (findPage_of_hasRoom begin hi hroom)
  · obtain ⟨found, s₁, heq, -, hsame, -⟩ := findPage_spec begin hi le_rfl
    rw [heq]
    exact (hsame.pageToBeHad.mpr hpage).allocatePage

/-- A record that is larger than a page: the new page stays in the file, and the call fails. -/
theorem insertRecord_of_noCapacity (begin : Begin) (data : List (BitVec 8))
    (hi : Inv recordSize s) (hpage : s.PageToBeHad)
    (hcap : (PageHeader.empty recordSize).recordCapacity = 0) :
    ∃ s', s.insertRecord begin data recordSize = some ((.recordNomem, none), s') ∧
      Inv recordSize s' ∧ ∃ p, s'.IsRecordPage p ∧ ¬s.IsRecordPage p := by
  have hroom : ¬s.HasRoom := fun h => Nat.ne_of_gt (h.capacity_pos hi) hcap
  obtain ⟨s₁, heq, hi₁, hsame, -⟩ := findPage_of_not_hasRoom begin hi hroom
  obtain ⟨p, s₂, hadd, hi₂, -, hp, hnew, page, hpage₂, hheader⟩ :=
    addPage_spec hi₁ (hsame.pageToBeHad.mpr hpage).allocatePage
  have hfull : page.header.recordNum = page.header.recordCapacity := by
    rw [hheader, hcap]
    rfl
  have hinsert : s₂.insertInto p data = some ((.recordNomem, none), s₂.cleanup p) := by
    unfold insertInto RecordPage.insertRecord
    rw [page_eq hpage₂, if_pos hfull]
  have hclean := samePages_cleanup s₂ p
  refine ⟨s₂.cleanup p, ?_, hi₂.samePages hclean rfl, p, hclean.isRecordPage.mpr hp, ?_⟩
  · unfold insertRecord
    rw [heq]
    dsimp only
    rw [if_neg (by decide), hadd]
    exact hinsert
  · rw [← hsame.isRecordPage]
    exact hnew

/-- A full file: the search has emptied `free_pages_`, and nothing else has changed. -/
theorem insertRecord_of_fileFull (begin : Begin) (data : List (BitVec 8)) (hi : Inv recordSize s)
    (hroom : ¬s.HasRoom) (hfile : s.FileFull) :
    ∃ s', s.insertRecord begin data recordSize = some ((.bufferpoolNobuf, none), s') ∧
      Inv recordSize s' ∧ SamePages s s' ∧ s'.freePages = ∅ := by
  obtain ⟨s₁, heq, hi₁, hsame, hempty⟩ := findPage_of_not_hasRoom begin hi hroom
  have halloc := (hsame.fileFull.mpr hfile).allocatePage
  have hcall := insertRecord_of_allocation_failed recordSize data heq (by rw [halloc]; rfl)
  rw [halloc] at hcall
  have hnote : SamePages s₁ { s₁ with fileBufferPool := s₁.fileBufferPool.noteFailure } :=
    ⟨rfl, fun _ => rfl⟩
  exact ⟨_, hcall, hi₁.samePages hnote rfl, hsame.trans hnote, hempty⟩

/-- A free page that cannot be read: the call fails, and the page is allocated. -/
theorem insertRecord_of_unreadable (begin : Begin) (data : List (BitVec 8))
    (hi : Inv recordSize s) (hroom : ¬s.HasRoom) {i : ℕ}
    (hfree : s.fileBufferPool.freeBit = some i) (hread : s.pageAt i = none) :
    ∃ s', s.insertRecord begin data recordSize = some ((.ioerrRead, none), s') ∧
      s'.fileBufferPool.fileHeader.bitmap i = true ∧
      s.fileBufferPool.fileHeader.bitmap i = false := by
  obtain ⟨s₁, heq, -, hsame, -⟩ := findPage_of_not_hasRoom begin hi hroom
  obtain ⟨hrc, hbit⟩ := allocatePage_unreadable (hsame.freeBit.trans hfree)
    ((hsame.pageAt i).trans hread)
  have hcall := insertRecord_of_allocation_failed recordSize data heq (by rw [hrc]; rfl)
  rw [hrc] at hcall
  exact ⟨_, hcall, hbit, (freeBit_eq_some hfree).2.1⟩

/-- An insertion that is refused, and not because a free page could not be read, has touched no
page. -/
theorem insertRecord_refused {begin : Begin} {data : List (BitVec 8)} {rc : RC}
    {bound : Option RID} (hcap : 0 < (PageHeader.empty recordSize).recordCapacity)
    (hi : Inv recordSize s) (hdata : data.length = recordSize)
    (h : s.insertRecord begin data recordSize = some ((rc, bound), s')) (hrc : rc ≠ .success)
    (hread : rc ≠ .ioerrRead) : Inv recordSize s' ∧ SamePages s s' := by
  by_cases hhad : s.HasRoom ∨ s.PageToBeHad
  · obtain ⟨rid, s₁, hcall, -⟩ :=
      insertRecord_spec begin hcap hi hdata (allocationSucceeds begin hi hhad)
    cases hcall.symm.trans h
    exact absurd rfl hrc
  · obtain ⟨hroom, hpage⟩ := not_or.mp hhad
    rcases pageToBeHad_or s with hhad | hfile | ⟨i, hfree, hunread⟩
    · exact absurd hhad hpage
    · obtain ⟨s₁, hcall, hi₁, hsame, -⟩ := insertRecord_of_fileFull begin data hi hroom hfile
      cases hcall.symm.trans h
      exact ⟨hi₁, hsame⟩
    · obtain ⟨s₁, hcall, -⟩ := insertRecord_of_unreadable begin data hi hroom hfree hunread
      cases hcall.symm.trans h
      exact absurd rfl hread

/-! ## When a failing call leaves the file as it was -/

theorem failsCleanly_iff_insertSafe (begin : Begin) {data : List (BitVec 8)}
    (hi : Inv recordSize s) (hdata : data.length = recordSize) :
    FailsCleanly recordSize begin data s ↔ s.InsertSafe recordSize := by
  constructor
  · rintro ⟨r, s', hcall, hclean⟩
    by_contra hunsafe
    obtain ⟨hroom, hunsafe⟩ := not_or.mp hunsafe
    obtain ⟨hpage, hfull⟩ := not_or.mp hunsafe
    rcases pageToBeHad_or s with hhad | hfile | ⟨i, hfree, hread⟩
    · -- the page is there but takes no record, and stays allocated
      have hcap : (PageHeader.empty recordSize).recordCapacity = 0 :=
        Nat.eq_zero_of_not_pos fun hpos => hpage ⟨hhad, hpos⟩
      obtain ⟨s₁, hcall₁, -, p, hp, hnew⟩ := insertRecord_of_noCapacity begin data hi hhad hcap
      rw [hcall₁] at hcall
      cases hcall
      refine hnew ?_
      unfold IsRecordPage
      rw [← (hclean rfl).bitmap]
      exact hp
    · -- the search has taken pages out of `free_pages_`
      obtain ⟨s₁, hcall₁, -, -, hempty⟩ := insertRecord_of_fileFull begin data hi hroom hfile
      rw [hcall₁] at hcall
      cases hcall
      exact hfull ⟨hfile, (hclean rfl).freePages.symm.trans hempty⟩
    · -- the bit of the page is set before the page is read
      obtain ⟨s₁, hcall₁, hset, hclear⟩ :=
        insertRecord_of_unreadable begin data hi hroom hfree hread
      rw [hcall₁] at hcall
      cases hcall
      rw [(hclean rfl).bitmap, hclear] at hset
      cases hset
  · intro hsafe
    have hsucceeds : (s.HasRoom ∨ s.PageToBeHad) →
        0 < (PageHeader.empty recordSize).recordCapacity →
        FailsCleanly recordSize begin data s := by
      intro hhad hcap
      obtain ⟨rid, s', hcall, -⟩ :=
        insertRecord_spec begin hcap hi hdata (allocationSucceeds begin hi hhad)
      exact ⟨_, s', hcall, fun h => by cases h⟩
    rcases hsafe with hroom | ⟨hhad, hcap⟩ | ⟨hfile, hempty⟩
    · exact hsucceeds (.inl hroom) (hroom.capacity_pos hi)
    · exact hsucceeds (.inr hhad) hcap
    · have hroom : ¬s.HasRoom := by
        rintro ⟨p, hp, -⟩
        rw [hempty] at hp
        exact Finset.notMem_empty p hp
      obtain ⟨s', hcall, -, hsame, hempty'⟩ := insertRecord_of_fileFull begin data hi hroom hfile
      refine ⟨_, s', hcall, fun _ => ⟨?_, hempty'.trans hempty.symm, hsame.records⟩⟩
      rw [hsame.fileHeader]

/-! ## Runs in which insertions may fail -/

/-- The calls under consideration: an insertion may find the file full or its record too large, but
no free page that cannot be read. -/
def Attempted (recordSize : ℕ) : RecordCall → RecordFileHandler → Prop
  | .insertRecord _ data, s =>
    data.length = recordSize ∧ (s.HasRoom ∨ s.PageToBeHad ∨ s.FileFull)
  | c, s => Allowed recordSize c s

def AttemptedRun (recordSize : ℕ) : List RecordCall → RecordFileHandler → Prop
  | [], _ => True
  | c :: cs, s => Attempted recordSize c s ∧
    ∀ r s', call recordSize c s = some (r, s') → AttemptedRun recordSize cs s'

/-- Whether it fails or not, a call keeps the invariant. -/
theorem inv_call {c : RecordCall} (hi : Inv recordSize s) (hc : Attempted recordSize c s) :
    ∃ r s', call recordSize c s = some (r, s') ∧ Inv recordSize s' := by
  cases c with
  | insertRecord begin data =>
    obtain ⟨hdata, hhad⟩ := hc
    obtain ⟨r, s', hcall, hi'⟩ : ∃ r s', s.insertRecord begin data recordSize = some (r, s') ∧
        Inv recordSize s' := by
      by_cases hcap : 0 < (PageHeader.empty recordSize).recordCapacity
      · by_cases hroom : s.HasRoom ∨ s.PageToBeHad
        · obtain ⟨rid, s', hcall, -, -, -, hchanges⟩ :=
            insertRecord_spec begin hcap hi hdata (allocationSucceeds begin hi hroom)
          exact ⟨_, s', hcall, hchanges.inv⟩
        · obtain ⟨hroom, hpage⟩ := not_or.mp hroom
          obtain ⟨s', hcall, hi', -⟩ := insertRecord_of_fileFull begin data hi hroom
            ((hhad.resolve_left hroom).resolve_left hpage)
          exact ⟨_, s', hcall, hi'⟩
      · have hroom : ¬s.HasRoom := fun h => hcap (h.capacity_pos hi)
        rcases hhad.resolve_left hroom with hpage | hfile
        · obtain ⟨s', hcall, hi', -⟩ := insertRecord_of_noCapacity begin data hi hpage
            (Nat.eq_zero_of_not_pos hcap)
          exact ⟨_, s', hcall, hi'⟩
        · obtain ⟨s', hcall, hi', -⟩ := insertRecord_of_fileFull begin data hi hroom hfile
          exact ⟨_, s', hcall, hi'⟩
    exact ⟨_, s', by rw [call, hcall]; rfl, hi'⟩
  | deleteRecord rid =>
    obtain ⟨hchanges, -⟩ := deleteRecord_spec hi hc.1 hc.2
    exact ⟨_, _, rfl, hchanges.inv⟩
  | getRecord rid =>
    obtain ⟨hsame, hfree, -⟩ := getRecord_spec hi hc.1 hc.2
    exact ⟨_, _, rfl, hi.samePages hsame hfree⟩
  | cleanup p => exact ⟨_, _, rfl, hi.samePages (samePages_cleanup s p) rfl⟩

theorem inv_run {cs : List RecordCall} (hi : Inv recordSize s)
    (hcs : AttemptedRun recordSize cs s) :
    ∃ rs s', run recordSize cs s = some (rs, s') ∧ Inv recordSize s' := by
  induction cs generalizing s with
  | nil => exact ⟨[], s, rfl, hi⟩
  | cons c cs ih =>
    obtain ⟨r, s₁, hcall, hi₁⟩ := inv_call hi hcs.1
    obtain ⟨rs, s', hrun, hi'⟩ := ih hi₁ (hcs.2 r s₁ hcall)
    refine ⟨r :: rs, s', ?_, hi'⟩
    rw [run, hcall]
    dsimp only
    rw [hrun]
    rfl

/-- In every state that calls lead to, whether they failed or not, an `insert_record` that returns
an error leaves the file as it was just if the record finds a place or nothing could change. -/
theorem failsCleanly_iff (recordSize : ℕ) (bp : FileBufferPool RecordPage)
    (hfile : IsRecordFile recordSize bp) (calls : List RecordCall)
    (hcalls : AttemptedRun recordSize calls (init bp).2) :
    ∃ results s', run recordSize calls (init bp).2 = some (results, s') ∧
      ∀ begin data, data.length = recordSize →
        (FailsCleanly recordSize begin data s' ↔ s'.InsertSafe recordSize) := by
  obtain ⟨results, s', hrun, hi⟩ := inv_run (inv_init hfile).1 hcalls
  exact ⟨results, s', hrun, fun begin data hdata => failsCleanly_iff_insertSafe begin hi hdata⟩

/-- A new file that has taken a record of 4 bytes. -/
theorem failsCleanly_iff_created :
    let bp := (DataFile.created (PageData.cleared : RecordPage)).pool
    ∃ results s', run 4 [.insertRecord lowestBegin [1#8, 2#8, 3#8, 4#8]] (init bp).2 =
      some (results, s') ∧ ∀ begin data, data.length = 4 →
        (FailsCleanly 4 begin data s' ↔ s'.InsertSafe 4) := by
  intro bp
  refine failsCleanly_iff 4 bp (isRecordFile_created 4 _) _ ⟨⟨rfl, .inr (.inl ?_)⟩, ?_⟩
  · exact .inr ⟨by decide +kernel, by decide +kernel⟩
  · exact fun _ _ _ => trivial

/-- A record of 9000 bytes does not fit into a page: the call fails, and page 1 is allocated. -/
theorem not_failsCleanly_large :
    ¬FailsCleanly 9000 lowestBegin (List.replicate 9000 0#8)
      (init (DataFile.created (PageData.cleared : RecordPage)).pool).2 := by
  rintro ⟨r, s', hcall, hclean⟩
  have hresult : ((init (DataFile.created (PageData.cleared : RecordPage)).pool).2.insertRecord
      lowestBegin (List.replicate 9000 0#8) 9000).map
      (fun r => (r.1.1, r.2.fileBufferPool.fileHeader.bitmap 1)) = some (.recordNomem, true) := by
    decide +kernel
  rw [hcall] at hresult
  obtain ⟨hrc, hbit⟩ := Prod.mk.inj (Option.some.inj hresult)
  rw [(hclean (by rw [hrc]; rfl)).bitmap] at hbit
  revert hbit
  decide +kernel

end RecordFileHandler

end TDB.Recorder
