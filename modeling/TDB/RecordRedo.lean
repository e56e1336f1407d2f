import TDB.PageRecovery

namespace TDB.Recorder

open ByteBits ByteMemory

/-! ## Redo on a page -/

namespace RecordPage

/-- `RecordPageHandler::recover_insert_record`. -/
def recoverInsertRecord (data : List (BitVec 8)) (slotNum : ℕ) (page : RecordPage) :
    RC × RecordPage :=
  if page.header.recordCapacity ≤ slotNum then (.recordInvalidRid, page)
  else
    -- a slot that is taken is not counted again
    let page := if bit page.bitmap slotNum then page
      else
        let page := page.withBitmap (setBit page.bitmap slotNum)
        { page with header := { page.header with recordNum := page.header.recordNum + 1 } }
    (.success,
      { page with
        data := memcpy (page.recordOffset slotNum) page.header.recordRealSize data page.data })

def recoverAll : List (ℕ × List (BitVec 8)) → RecordPage → RecordPage
  | [], page => page
  | c :: calls, page => recoverAll calls (page.recoverInsertRecord c.2 c.1).2

def lastData : List (ℕ × List (BitVec 8)) → ℕ → Option (List (BitVec 8))
  | [], _ => none
  | c :: calls, i => lastData calls i <|> if i = c.1 then some c.2 else none

structure Redone (calls : List (ℕ × List (BitVec 8))) (page page' : RecordPage) : Prop where
  touched : ∀ i data, lastData calls i = some data →
    bit page'.bitmap i = true ∧ page'.recordData i = data
  untouched : ∀ i < page.header.recordCapacity, lastData calls i = none →
    bit page'.bitmap i = bit page.bitmap i ∧ page'.recordData i = page.recordData i
  header : page'.header = { page.header with
    recordNum := popcount (bit page'.bitmap) page.header.recordCapacity }
  replay : recoverAll calls page' = page'

def Calls (recordSize : ℕ) (page : RecordPage) (calls : List (ℕ × List (BitVec 8))) : Prop :=
  ∀ c ∈ calls, c.1 < page.header.recordCapacity ∧ c.2.length = recordSize

instance (recordSize : ℕ) (page : RecordPage) (calls : List (ℕ × List (BitVec 8))) :
    Decidable (Calls recordSize page calls) :=
  inferInstanceAs (Decidable (∀ c ∈ calls, _ ∧ _))

variable {recordSize : ℕ} {page : RecordPage} {slotNum : ℕ} {data : List (BitVec 8)}

theorem recoverInsertRecord_of_bit (data : List (BitVec 8))
    (hs : slotNum < page.header.recordCapacity)
    (hbit : bit page.bitmap slotNum = true) :
    page.recoverInsertRecord data slotNum = (.success, ⟨page.header,
      memcpy (page.recordOffset slotNum) page.header.recordRealSize data page.data⟩) := by
  unfold recoverInsertRecord
  rw [if_neg (Nat.not_le_of_lt hs), if_pos hbit]

theorem recoverInsertRecord_of_not_bit (hs : slotNum < page.header.recordCapacity)
    (hbit : bit page.bitmap slotNum = false) :
    page.recoverInsertRecord data slotNum = (.success,
      ⟨{ page.header with recordNum := page.header.recordNum + 1 },
        memcpy (page.recordOffset slotNum) page.header.recordRealSize data
          (page.withBitmap (setBit page.bitmap slotNum)).data⟩) := by
  unfold recoverInsertRecord
  rw [if_neg (Nat.not_le_of_lt hs), if_neg (by rw [hbit]; decide)]
  rfl

theorem WellFormed.updates_memcpy (h : page.WellFormed recordSize)
    (hdata : data.length = recordSize) (hbit : bit page.bitmap slotNum = true)
    {page' : RecordPage} (hpage' : page' = ⟨page.header,
      memcpy (page.recordOffset slotNum) page.header.recordRealSize data page.data⟩) :
    Updates page page' slotNum true ∧ page'.recordData slotNum = data := by
  subst hpage'
  have hsame : Function.update (bit page.bitmap) slotNum true = bit page.bitmap :=
    Function.update_eq_self_iff.mpr hbit.symm
  refine ⟨⟨?_, fun j hj => ?_, fun j hj => ?_⟩,
    read_memcpy_self (hdata.trans h.recordRealSize.symm)⟩
  · rw [hsame, ← h.recordNum]
  · rw [hsame]
    exact h.bit_memcpy hj
  · exact read_memcpy_disjoint (h.slots_disjoint hj)

theorem WellFormed.recoverInsertRecord (h : page.WellFormed recordSize)
    (hdata : data.length = recordSize) (hs : slotNum < page.header.recordCapacity) :
    (page.recoverInsertRecord data slotNum).1 = .success ∧
      Updates page (page.recoverInsertRecord data slotNum).2 slotNum true ∧
      (page.recoverInsertRecord data slotNum).2.recordData slotNum = data := by
  cases hbit : bit page.bitmap slotNum with
  | true =>
    rw [recoverInsertRecord_of_bit data hs hbit]
    exact ⟨rfl, h.updates_memcpy hdata hbit rfl⟩
  | false =>
    rw [recoverInsertRecord_of_not_bit hs hbit]
    exact ⟨rfl, h.updates_setBit hdata hs hbit rfl⟩

theorem Updates.recordCapacity {page' : RecordPage} {i : ℕ} {b : Bool}
    (hu : Updates page page' i b) : page'.header.recordCapacity = page.header.recordCapacity := by
  rw [hu.header]

theorem Updates.calls {page' : RecordPage} {i : ℕ} {b : Bool} (hu : Updates page page' i b)
    {calls : List (ℕ × List (BitVec 8))} (hcalls : Calls recordSize page calls) :
    Calls recordSize page' calls := by
  unfold Calls
  rw [hu.recordCapacity]
  exact hcalls

/-- What the first call of a sequence does; the others are still in order. -/
theorem WellFormed.cons (h : page.WellFormed recordSize) {c : ℕ × List (BitVec 8)}
    {calls : List (ℕ × List (BitVec 8))} (hcalls : Calls recordSize page (c :: calls)) :
    c.1 < page.header.recordCapacity ∧
      Updates page (page.recoverInsertRecord c.2 c.1).2 c.1 true ∧
      (page.recoverInsertRecord c.2 c.1).2.recordData c.1 = c.2 ∧
      (page.recoverInsertRecord c.2 c.1).2.WellFormed recordSize ∧
      Calls recordSize (page.recoverInsertRecord c.2 c.1).2 calls := by
  obtain ⟨hs, hdata⟩ := hcalls c (List.mem_cons_self ..)
  obtain ⟨-, hu, hnew⟩ := h.recoverInsertRecord hdata hs
  exact ⟨hs, hu, hnew, hu.wellFormed h, hu.calls fun d hd => hcalls d (List.mem_cons_of_mem _ hd)⟩

theorem WellFormed.recoverAll (h : page.WellFormed recordSize)
    {calls : List (ℕ × List (BitVec 8))} (hcalls : Calls recordSize page calls) :
    (page.recoverAll calls).WellFormed recordSize := by
  induction calls generalizing page with
  | nil => exact h
  | cons c calls ih =>
    obtain ⟨-, -, -, hwf, hrest⟩ := h.cons hcalls
    exact ih hwf hrest

theorem lastData_mem : ∀ {calls : List (ℕ × List (BitVec 8))} {i : ℕ},
    lastData calls i = none ↔ ∀ c ∈ calls, c.1 ≠ i
  | [], i => by simp [lastData]
  | c :: calls, i => by
    unfold lastData
    rw [List.forall_mem_cons, ← lastData_mem]
    by_cases hi : i = c.1
    · rw [if_pos hi]
      simp [hi]
    · rw [if_neg hi]
      simp [Ne.symm hi]

theorem WellFormed.slots_recoverAll (h : page.WellFormed recordSize)
    {calls : List (ℕ × List (BitVec 8))} (hcalls : Calls recordSize page calls) {i : ℕ}
    (hi : i < page.header.recordCapacity) :
    bit (page.recoverAll calls).bitmap i = ((lastData calls i).isSome || bit page.bitmap i) ∧
      (page.recoverAll calls).recordData i = (lastData calls i).getD (page.recordData i) := by
  induction calls generalizing page with
  | nil => exact ⟨rfl, rfl⟩
  | cons c calls ih =>
    obtain ⟨-, hu, hnew, hwf, hrest⟩ := h.cons hcalls
    obtain ⟨hbit, hrecord⟩ := ih hwf hrest (hu.recordCapacity ▸ hi)
    unfold RecordPage.recoverAll lastData
    rw [hbit, hrecord, hu.bits i hi]
    by_cases hic : i = c.1
    · -- a later call for the same slot takes precedence
      subst hic
      rw [if_pos rfl, Function.update_self, hnew]
      cases lastData calls c.1 with
      | none => exact ⟨rfl, rfl⟩
      | some d => exact ⟨rfl, rfl⟩
    · rw [if_neg hic, Function.update_of_ne hic, hu.recordData i hic]
      cases lastData calls i with
      | none => exact ⟨rfl, rfl⟩
      | some d => exact ⟨rfl, rfl⟩

def lastByte (page : RecordPage) : List (ℕ × List (BitVec 8)) → ℕ → Option (BitVec 8)
  | [], _ => none
  | c :: calls, k => lastByte page calls k <|>
    if page.recordOffset c.1 ≤ k ∧ k < page.recordOffset c.1 + page.header.recordRealSize then
      some (c.2.getD (k - page.recordOffset c.1) 0#8)
    else none

theorem Updates.lastByte {page' : RecordPage} {i : ℕ} {b : Bool} (hu : Updates page page' i b)
    (calls : List (ℕ × List (BitVec 8))) (k : ℕ) :
    page'.lastByte calls k = page.lastByte calls k := by
  have hoffset : page'.recordOffset = page.recordOffset := by
    funext j
    unfold recordOffset
    rw [hu.header]
  have hsize : page'.header.recordRealSize = page.header.recordRealSize := by rw [hu.header]
  induction calls with
  | nil => rfl
  | cons c calls ih =>
    unfold RecordPage.lastByte
    rw [ih, hoffset, hsize]

/-- Behind the bitmap a call only writes its record. -/
theorem recoverInsertRecord_data (hs : slotNum < page.header.recordCapacity)
    (h : page.WellFormed recordSize) {k : ℕ} (hk : page.header.firstRecordOffset ≤ k) :
    (page.recoverInsertRecord data slotNum).2.data k =
      if page.recordOffset slotNum ≤ k ∧
        k < page.recordOffset slotNum + page.header.recordRealSize then
        data.getD (k - page.recordOffset slotNum) 0#8
      else page.data k := by
  cases hbit : bit page.bitmap slotNum with
  | true =>
    rw [recoverInsertRecord_of_bit data hs hbit]
    rfl
  | false =>
    -- the bit lies in the bitmap, before the first record
    have hoffset := h.bit_offset hs
    have hkeep : (page.withBitmap (setBit page.bitmap slotNum)).data k = page.data k := by
      have hheader : pageHeaderSize ≤ k := by omega
      unfold withBitmap setBit
      dsimp only
      rw [if_pos hheader, Function.update_of_ne (by omega), bitmap, Nat.add_sub_cancel' hheader]
    rw [recoverInsertRecord_of_not_bit hs hbit]
    unfold memcpy
    dsimp only
    rw [hkeep]

/-- The bytes behind the bitmap after a sequence of calls. -/
theorem WellFormed.data_recoverAll (h : page.WellFormed recordSize)
    {calls : List (ℕ × List (BitVec 8))} (hcalls : Calls recordSize page calls) {k : ℕ}
    (hk : page.header.firstRecordOffset ≤ k) :
    (page.recoverAll calls).data k = (page.lastByte calls k).getD (page.data k) := by
  induction calls generalizing page with
  | nil => rfl
  | cons c calls ih =>
    obtain ⟨hs, hu, -, hwf, hrest⟩ := h.cons hcalls
    have hfirst : (page.recoverInsertRecord c.2 c.1).2.header.firstRecordOffset =
        page.header.firstRecordOffset := by rw [hu.header]
    unfold RecordPage.recoverAll RecordPage.lastByte
    rw [ih hwf hrest (hfirst ▸ hk), hu.lastByte, recoverInsertRecord_data hs h hk]
    cases page.lastByte calls k with
    | none =>
      split
      · rfl
      · rfl
    | some b => rfl

/-- Where all the slots are taken already, a sequence of calls changes nothing before the
records. -/
theorem recoverAll_of_bits (h : page.WellFormed recordSize)
    {calls : List (ℕ × List (BitVec 8))} (hcalls : Calls recordSize page calls)
    (hbits : ∀ c ∈ calls, bit page.bitmap c.1 = true) :
    (page.recoverAll calls).header = page.header ∧
      ∀ k < page.header.firstRecordOffset, (page.recoverAll calls).data k = page.data k := by
  induction calls generalizing page with
  | nil => exact ⟨rfl, fun _ _ => rfl⟩
  | cons c calls ih =>
    obtain ⟨hs, hu, -, hwf, hrest⟩ := h.cons hcalls
    have hstep := recoverInsertRecord_of_bit c.2 hs (hbits c (List.mem_cons_self ..))
    have hkept : ∀ d ∈ calls, bit (page.recoverInsertRecord c.2 c.1).2.bitmap d.1 = true := by
      intro d hd
      rw [hu.bits d.1 (hcalls d (List.mem_cons_of_mem _ hd)).1, Function.update_apply]
      split
      · rfl
      · exact hbits d (List.mem_cons_of_mem _ hd)
    obtain ⟨hheader, hbefore⟩ := ih hwf hrest hkept
    unfold RecordPage.recoverAll
    rw [hstep] at hheader hbefore ⊢
    refine ⟨hheader, fun k hk => (hbefore k hk).trans ?_⟩
    exact memcpy_of_lt (hk.trans_le (Nat.le_add_right _ _))

theorem WellFormed.lastByte_recoverAll (h : page.WellFormed recordSize)
    {calls : List (ℕ × List (BitVec 8))} (hcalls : Calls recordSize page calls)
    (calls' : List (ℕ × List (BitVec 8))) (k : ℕ) :
    (page.recoverAll calls).lastByte calls' k = page.lastByte calls' k := by
  induction calls generalizing page with
  | nil => rfl
  | cons c calls ih =>
    obtain ⟨-, hu, -, hwf, hrest⟩ := h.cons hcalls
    unfold RecordPage.recoverAll
    rw [ih hwf hrest, hu.lastByte]

/-- The same sequence once more changes nothing. -/
theorem WellFormed.recoverAll_twice (h : page.WellFormed recordSize)
    {calls : List (ℕ × List (BitVec 8))} (hcalls : Calls recordSize page calls) :
    (page.recoverAll calls).recoverAll calls = page.recoverAll calls := by
  have hwf := h.recoverAll hcalls
  have hcapacity : (page.recoverAll calls).header.recordCapacity = page.header.recordCapacity :=
    hwf.recordCapacity.trans h.recordCapacity.symm
  have hagain : Calls recordSize (page.recoverAll calls) calls := by
    unfold Calls
    rw [hcapacity]
    exact hcalls
  -- the second time every slot is taken, so only the records are written
  have hbits : ∀ c ∈ calls, bit (page.recoverAll calls).bitmap c.1 = true := by
    intro c hc
    rw [(h.slots_recoverAll hcalls (hcalls c hc).1).1]
    have htouched : lastData calls c.1 ≠ none := fun hnone => lastData_mem.mp hnone c hc rfl
    rw [Option.isSome_iff_ne_none.mpr htouched, Bool.true_or]
  obtain ⟨hheader, hbefore⟩ := recoverAll_of_bits hwf hagain hbits
  have hdata : ((page.recoverAll calls).recoverAll calls).data = (page.recoverAll calls).data := by
    funext k
    by_cases hk : k < (page.recoverAll calls).header.firstRecordOffset
    · exact hbefore k hk
    · have hfirst : (page.recoverAll calls).header.firstRecordOffset =
          page.header.firstRecordOffset := by
        rw [hwf, h]
      rw [hwf.data_recoverAll hagain (Nat.le_of_not_lt hk), h.lastByte_recoverAll hcalls,
        h.data_recoverAll hcalls (hfirst ▸ Nat.le_of_not_lt hk)]
      cases page.lastByte calls k with
      | none => rfl
      | some b => rfl
  revert hheader hdata
  generalize (page.recoverAll calls).recoverAll calls = twice
  generalize page.recoverAll calls = once
  obtain ⟨header, data⟩ := twice
  rintro rfl rfl
  rfl

/-- The redo of record inserts: the last call for a slot wins, the other slots stay as they are, the
counter is the number of taken slots, and a second redo changes nothing. -/
theorem WellFormed.redone (h : page.WellFormed recordSize)
    {calls : List (ℕ × List (BitVec 8))} (hcalls : Calls recordSize page calls) :
    Redone calls page (page.recoverAll calls) where
  touched i d hlast := by
    have hi : i < page.header.recordCapacity := by
      by_contra hle
      have hnone : lastData calls i = none :=
        lastData_mem.mpr fun c hc heq => hle (heq ▸ (hcalls c hc).1)
      rw [hnone] at hlast
      cases hlast
    obtain ⟨hbit, hrecord⟩ := h.slots_recoverAll hcalls hi
    rw [hbit, hrecord, hlast]
    exact ⟨rfl, rfl⟩
  untouched i hi hlast := by
    obtain ⟨hbit, hrecord⟩ := h.slots_recoverAll hcalls hi
    rw [hbit, hrecord, hlast]
    exact ⟨rfl, rfl⟩
  header := by
    have hwf := h.recoverAll hcalls
    unfold WellFormed at hwf
    rw [h.recordCapacity]
    exact hwf.trans (by rw [h])
  replay := h.recoverAll_twice hcalls

theorem redone_two : Redone [(3, [1#8]), (0, [2#8]), (3, [4#8])]
    (initEmptyPage 1 PageData.cleared)
    ((initEmptyPage 1 PageData.cleared).recoverAll [(3, [1#8]), (0, [2#8]), (3, [4#8])]) :=
  (wellFormed_initEmptyPage 1 PageData.cleared).redone (by decide +kernel)

end RecordPage

/-! ## Redo on a file -/

def recoverPage {D : Type} (p : PageNum) (bp : FileBufferPool D) : FileBufferPool D :=
  if bp.fileHeader.bitmap p then bp
  else
    let bp := bp.setBit p
    { bp with fileHeader := { bp.fileHeader with pageCount := bp.fileHeader.pageCount + 1 } }

/-- On the bytes of the header page it is `DataFile.recoverPage`. -/
theorem refines_recoverPage {D : Type} {df : DataFile D} {bp : FileBufferPool D}
    (h : df.Refines bp) (i : ℕ) : (df.recoverPage i).2.Refines (recoverPage i bp) := by
  have hbit : bp.fileHeader.bitmap i = df.allocated i := by
    rw [h.fileHeader, FileHeaderBytes.view_bitmap]
    rfl
  unfold recoverPage
  cases hi : df.allocated i with
  | true =>
    rw [DataFile.recoverPage_of_allocated hi, if_pos (hbit.trans hi)]
    exact h
  | false =>
    rw [DataFile.recoverPage_of_not_allocated hi, if_neg (by rw [hbit, hi]; decide)]
    refine ⟨?_, rfl, h.frames, h.file⟩
    have hmark := congrArg FileHeader.bitmap (FileHeaderBytes.view_mark i df.fileHeader)
    change FileHeader.mk (bp.fileHeader.pageCount + 1) (bp.fileHeader.allocatedPages + 1)
      (Function.update bp.fileHeader.bitmap i true) = FileHeader.mk (df.fileHeader.pageCount + 1)
        (df.fileHeader.allocatedPages + 1) (df.fileHeader.mark i).view.bitmap
    rw [hmark, h.fileHeader]
    rfl

namespace RecordFileHandler

/-- `RecordFileHandler::recover_insert_record`; `recover_init` is `init` and a `recover_page`. -/
def recoverInsertRecord (data : List (BitVec 8)) (rid : RID) (s : RecordFileHandler) :
    RC × RecordFileHandler :=
  let (rc, s) := s.initPage rid.pageNum
  if rc.fail then (rc, s)
  else
    let s := { s with fileBufferPool := recoverPage rid.pageNum s.fileBufferPool }
    let (rc, page) := (s.page rid.pageNum).recoverInsertRecord data rid.slotNum
    if rc.fail then (rc, s.cleanup rid.pageNum)
    else (rc, ((s.setPage rid.pageNum page).markDirty rid.pageNum).cleanup rid.pageNum)

def recoverAll (p : ℕ) : List (ℕ × List (BitVec 8)) → RecordFileHandler → RecordFileHandler
  | [], s => s
  | c :: calls, s => recoverAll p calls (s.recoverInsertRecord c.2 ⟨p, c.1⟩).2

variable {s : RecordFileHandler} {p : ℕ} {page : RecordPage} {recordSize : ℕ}

theorem pageAt_recoverPage (s : RecordFileHandler) (p q : ℕ) :
    pageAt { s with fileBufferPool := recoverPage p s.fileBufferPool } q = s.pageAt q := by
  unfold recoverPage
  split
  · rfl
  · rfl

/-- One call on a file redoes the record on its page, and no other page changes. -/
theorem recoverInsertRecord_spec (hpage : s.pageAt p = some page)
    (h : page.WellFormed recordSize) {c : ℕ × List (BitVec 8)}
    (hs : c.1 < page.header.recordCapacity) (hdata : c.2.length = recordSize) :
    (s.recoverInsertRecord c.2 ⟨p, c.1⟩).1 = .success ∧
      (s.recoverInsertRecord c.2 ⟨p, c.1⟩).2.pageAt p =
        some (page.recoverInsertRecord c.2 c.1).2 ∧
      ∀ q, q ≠ p → (s.recoverInsertRecord c.2 ⟨p, c.1⟩).2.pageAt q = s.pageAt q := by
  obtain ⟨hrc, hsame, -⟩ := initPage_spec hpage
  obtain ⟨hsuccess, -, -⟩ := h.recoverInsertRecord hdata hs
  obtain ⟨s₁, hs₁⟩ : ∃ s₁, s₁ = { (s.initPage p).2 with
    fileBufferPool := recoverPage p (s.initPage p).2.fileBufferPool } := ⟨_, rfl⟩
  have hpages : ∀ q, s₁.pageAt q = s.pageAt q := fun q => by
    rw [hs₁, pageAt_recoverPage, hsame.pageAt]
  have hself : s₁.pageAt p = some page := (hpages p).trans hpage
  have hwrites := ((writes_setPage (s := s₁) (by rw [hself]; exact Option.some_ne_none _)
    (page.recoverInsertRecord c.2 c.1).2).samePages (samePages_markDirty _ p)).samePages
      (samePages_cleanup _ p)
  have hrun : s.recoverInsertRecord c.2 ⟨p, c.1⟩ = (.success,
      ((s₁.setPage p (page.recoverInsertRecord c.2 c.1).2).markDirty p).cleanup p) := by
    unfold RecordFileHandler.recoverInsertRecord
    dsimp only
    rw [hrc, if_neg (by decide), ← hs₁, page_eq hself, hsuccess, if_neg (by decide)]
  rw [hrun]
  exact ⟨rfl, hwrites.self, fun q hq => (hwrites.other q hq).trans (hpages q)⟩

/-- The redo on a file is the redo on its page. -/
theorem pageAt_recoverAll (hpage : s.pageAt p = some page) (h : page.WellFormed recordSize)
    {calls : List (ℕ × List (BitVec 8))} (hcalls : RecordPage.Calls recordSize page calls) :
    (s.recoverAll p calls).pageAt p = some (page.recoverAll calls) ∧
      ∀ q, q ≠ p → (s.recoverAll p calls).pageAt q = s.pageAt q := by
  induction calls generalizing s page with
  | nil => exact ⟨hpage, fun _ _ => rfl⟩
  | cons c calls ih =>
    obtain ⟨hs, hdata⟩ := hcalls c (List.mem_cons_self ..)
    obtain ⟨-, -, -, hwf, hrest⟩ := h.cons hcalls
    obtain ⟨-, hself, hother⟩ := recoverInsertRecord_spec hpage h hs hdata
    obtain ⟨hfinal, hkept⟩ := ih hself hwf hrest
    exact ⟨hfinal, fun q hq => (hkept q hq).trans (hother q hq)⟩

end RecordFileHandler

end TDB.Recorder
