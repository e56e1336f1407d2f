import TDB.RecordFileScanner

namespace TDB.Recorder

open ByteBits

/-! ## The records ahead are the live ones -/

namespace RecordFileHandler

variable {s s' : RecordFileHandler} {recordSize : ℕ} {rid : RID}

theorem Inv.live_iff (hi : Inv recordSize s) :
    s.records rid ≠ none ↔ s.IsRecordPage rid.pageNum ∧
      rid.slotNum < (s.page rid.pageNum).header.recordCapacity ∧
      bit (s.page rid.pageNum).bitmap rid.slotNum = true := by
  by_cases hp : s.IsRecordPage rid.pageNum
  · obtain ⟨page, hpage, -⟩ := hi.pages _ hp
    rw [records_eq hp hpage, page_eq hpage, RecordPage.slot]
    by_cases hslot : rid.slotNum < page.header.recordCapacity ∧ bit page.bitmap rid.slotNum = true
    · rw [if_pos hslot]
      exact ⟨fun _ => ⟨hp, hslot⟩, fun _ => Option.some_ne_none _⟩
    · rw [if_neg hslot]
      exact ⟨fun h => absurd rfl h, fun h => absurd h.2 hslot⟩
  · exact ⟨fun h => absurd (if_neg hp) h, fun h => absurd h.1 hp⟩

theorem Inv.records_of_live (hi : Inv recordSize s) (h : s.records rid ≠ none) :
    s.records rid = some (s.recordData rid) := by
  obtain ⟨hp, hslot⟩ := hi.live_iff.mp h
  obtain ⟨page, hpage, -⟩ := hi.pages _ hp
  rw [page_eq hpage] at hslot
  rw [records_eq hp hpage, recordData, page_eq hpage, RecordPage.slot, if_pos hslot]

theorem Inv.mem_liveInPage (hi : Inv recordSize s) {p start : ℕ} (hp : s.IsRecordPage p) :
    rid ∈ s.liveInPage p start ↔
      s.records rid ≠ none ∧ rid.pageNum = p ∧ start ≤ rid.slotNum := by
  rw [hi.live_iff, liveInPage, List.mem_map]
  constructor
  · rintro ⟨i, hi', rfl⟩
    obtain ⟨hstart, hlt, hbit⟩ := mem_indices.mp hi'
    exact ⟨⟨hp, hlt, hbit⟩, rfl, hstart⟩
  · rintro ⟨⟨-, hlt, hbit⟩, rfl, hstart⟩
    exact ⟨rid.slotNum, mem_indices.mpr ⟨hstart, hlt, hbit⟩, rfl⟩

theorem Inv.mem_liveFrom (hi : Inv recordSize s) {start size : ℕ} (hstart : 0 < start) :
    rid ∈ s.liveFrom start size ↔
      s.records rid ≠ none ∧ start ≤ rid.pageNum ∧ rid.pageNum < size := by
  rw [liveFrom, List.mem_flatMap]
  constructor
  · rintro ⟨p, hp, hrid⟩
    obtain ⟨hle, hlt, hbit⟩ := mem_indices.mp hp
    obtain ⟨hlive, rfl, -⟩ := (hi.mem_liveInPage ⟨hstart.trans_le hle, hbit⟩).mp hrid
    exact ⟨hlive, hle, hlt⟩
  · rintro ⟨hlive, hle, hlt⟩
    have hp := (hi.live_iff.mp hlive).1
    exact ⟨rid.pageNum, mem_indices.mpr ⟨hle, hlt, hp.2⟩,
      (hi.mem_liveInPage hp).mpr ⟨hlive, rfl, Nat.zero_le _⟩⟩

/-- A scan from the first page meets exactly the live records. -/
theorem Inv.mem_live (hi : Inv recordSize s) :
    rid ∈ s.liveFrom 1 s.fileBufferPool.fileHeader.pageCount ↔ s.records rid ≠ none := by
  rw [hi.mem_liveFrom one_pos]
  constructor
  · exact And.left
  · intro hlive
    have hp := (hi.live_iff.mp hlive).1
    exact ⟨hlive, hp.1, hi.header.lt_pageCount hp.2⟩

theorem pairwise_liveFrom (s : RecordFileHandler) (start size : ℕ) :
    (s.liveFrom start size).Pairwise RID.Before := by
  unfold liveFrom
  rw [List.pairwise_flatMap]
  constructor
  · intro p _
    unfold liveInPage
    rw [List.pairwise_map]
    exact (pairwise_indices _ _ _).imp fun hlt => Or.inr ⟨rfl, hlt⟩
  · refine (pairwise_indices _ _ _).imp ?_
    intro p q hpq x hx y hy
    obtain ⟨i, -, rfl⟩ := List.mem_map.mp hx
    obtain ⟨j, -, rfl⟩ := List.mem_map.mp hy
    exact Or.inl hpq

end RecordFileHandler

namespace RecordFileScanner

open RecordFileHandler

variable {s s' : RecordFileHandler} {sc sc' : RecordFileScanner} {recordSize : ℕ}

theorem mem_ahead (hi : Inv recordSize s) (hok : Ok s sc) {rid : RID} :
    rid ∈ ahead s sc ↔ s.records rid ≠ none ∧ Beyond sc rid := by
  have hpages : rid ∈ s.liveFrom (sc.bpIterator.currentPageNum + 1) sc.bpIterator.size ↔
      s.records rid ≠ none ∧ sc.bpIterator.currentPageNum < rid.pageNum ∧
        rid.pageNum < sc.bpIterator.size := hi.mem_liveFrom (Nat.succ_pos _)
  have hinPage : rid ∈ (sc.recordPageIterator.map (aheadInPage s)).getD [] ↔
      s.records rid ≠ none ∧ ∃ it n, sc.recordPageIterator = some it ∧ it.nextSlotNum = some n ∧
        rid.pageNum = it.pageNum ∧ n ≤ rid.slotNum := by
    cases hit : sc.recordPageIterator with
    | none => simp
    | some it =>
      obtain ⟨-, hitOk⟩ := hok.iterator it hit
      rw [Option.map_some, Option.getD_some, aheadInPage]
      cases hnext : it.nextSlotNum with
      | none => simp [hnext]
      | some n =>
        obtain ⟨hlt, hbit⟩ := hitOk.next n hnext
        have hlive : s.records ⟨it.pageNum, n⟩ ≠ none :=
          hi.live_iff.mpr ⟨hitOk.isRecordPage, hitOk.size ▸ hlt, hbit⟩
        dsimp only
        rw [List.mem_cons, hi.mem_liveInPage hitOk.isRecordPage]
        constructor
        · rintro (rfl | ⟨hrid, hpage, hslot⟩)
          · exact ⟨hlive, it, n, rfl, hnext, rfl, le_rfl⟩
          · exact ⟨hrid, it, n, rfl, hnext, hpage, by omega⟩
        · rintro ⟨hrid, it₀, n₀, h₀, hn₀, hpage, hslot⟩
          cases h₀
          obtain rfl : n = n₀ := Option.some.inj (hnext.symm.trans hn₀)
          rcases Nat.eq_or_lt_of_le hslot with heq | hlt'
          · left
            rw [heq, ← hpage]
          · exact Or.inr ⟨hrid, hpage, hlt'⟩
  rw [ahead, List.mem_append, hinPage, hpages, Beyond]
  exact and_or_left.symm

/-! ## A scan of a file at rest -/

/-- A scanner between two calls: its record is live and comes before all that it has not passed;
without a record, it has passed every page. -/
structure Scanning (s : RecordFileHandler) (sc : RecordFileScanner) : Prop extends Ok s sc where
  live : ∀ rid, sc.nextRecord = some rid → s.records rid ≠ none
  ordered : ∀ rid, sc.nextRecord = some rid → ∀ x, Beyond sc x → rid.Before x
  atEnd : sc.nextRecord = none → ∀ x, Beyond sc x → ¬s.IsRecordPage x.pageNum

def remaining (s : RecordFileHandler) (sc : RecordFileScanner) : List RID :=
  sc.nextRecord.toList ++ ahead s sc

theorem Fetched.scanning {rc : RC} {rids : List RID} (h : Fetched s s' sc sc' rc rids)
    (hlive : ∀ rid ∈ rids, s.records rid ≠ none) :
    Scanning s' sc' ∧ remaining s' sc' = rids := by
  have hnext := h.nextRecord
  refine ⟨⟨h.ok, ?_, h.ordered, ?_⟩, ?_⟩
  · intro rid hrid
    rw [h.same.records]
    exact hlive rid (List.mem_of_mem_head? (hnext.symm.trans hrid))
  · intro hnone
    apply h.atEnd
    rw [hnext] at hnone
    exact List.head?_eq_none_iff.mp hnone
  · rw [remaining, hnext, h.ahead]
    cases rids with
    | nil => rfl
    | cons rid rids => rfl

theorem Fetched.rc_ne {rc : RC} {rids : List RID} (h : Fetched s s' sc sc' rc rids) :
    (if rc = .recordEof then .success else rc) = RC.success := by
  rw [h.rc]
  split
  · rfl
  · rfl

theorem openScan_spec (hi : Inv recordSize s) :
    (openScan .vacuousTrx s).1 = .success ∧
    SamePages s (openScan .vacuousTrx s).2.1 ∧
    (openScan .vacuousTrx s).2.1.freePages = s.freePages ∧
    Scanning (openScan .vacuousTrx s).2.1 (openScan .vacuousTrx s).2.2 ∧
    remaining (openScan .vacuousTrx s).2.1 (openScan .vacuousTrx s).2.2 =
      s.liveFrom 1 s.fileBufferPool.fileHeader.pageCount := by
  have hok : Ok s { bpIterator := .init s.fileBufferPool.fileHeader } :=
    ⟨hi.header.headerPage, fun it h => by cases h⟩
  have hfetched := fetchNextRecord_spec hi hok
  obtain ⟨hscanning, hremaining⟩ :=
    hfetched.scanning fun rid hrid => ((mem_ahead hi hok).mp hrid).1
  exact ⟨hfetched.rc_ne, hfetched.same, hfetched.freePages, hscanning, hremaining⟩

theorem next_spec (hi : Inv recordSize s) (h : Scanning s sc) :
    (next .vacuousTrx s sc).1 = (.success, sc.nextRecord) ∧
    SamePages s (next .vacuousTrx s sc).2.1 ∧
    (next .vacuousTrx s sc).2.1.freePages = s.freePages ∧
    Scanning (next .vacuousTrx s sc).2.1 (next .vacuousTrx s sc).2.2 ∧
    remaining (next .vacuousTrx s sc).2.1 (next .vacuousTrx s sc).2.2 = ahead s sc ∧
    (next .vacuousTrx s sc).2.2.bpIterator.size = sc.bpIterator.size := by
  have hfetched := fetchNextRecord_spec hi h.toOk
  obtain ⟨hscanning, hremaining⟩ :=
    hfetched.scanning fun rid hrid => ((mem_ahead hi h.toOk).mp hrid).1
  refine ⟨?_, hfetched.same, hfetched.freePages, hscanning, hremaining, hfetched.size⟩
  exact congrArg (fun rc => (rc, sc.nextRecord)) hfetched.rc_ne

/-- Without a record the scanner has nothing ahead either. -/
theorem Scanning.remaining_eq_nil (hi : Inv recordSize s) (h : Scanning s sc)
    (hnone : sc.nextRecord = none) : remaining s sc = [] := by
  rw [remaining, hnone, Option.toList_none, List.nil_append, List.eq_nil_iff_forall_not_mem]
  intro rid hrid
  obtain ⟨hlive, hbeyond⟩ := (mem_ahead hi h.toOk).mp hrid
  exact h.atEnd hnone rid hbeyond (hi.live_iff.mp hlive).1

theorem scanAll_spec {n : ℕ} (hi : Inv recordSize s) (h : Scanning s sc)
    (hn : (remaining s sc).length < n) :
    ∃ s' sc', scanAll .vacuousTrx n s sc =
        (.success, (remaining s sc).map fun rid => (rid, s.recordData rid), s', sc') ∧
      SamePages s s' ∧ sc'.hasNext = false := by
  induction n generalizing s sc with
  | zero => omega
  | succ n ih =>
    rw [scanAll]
    cases hnext : sc.nextRecord with
    | none =>
      have hempty := h.remaining_eq_nil hi hnext
      have hhas : sc.hasNext = false := by rw [hasNext, hnext]; rfl
      refine ⟨s, sc, ?_, SamePages.refl s, hhas⟩
      rw [hhas, hempty]
      rfl
    | some rid =>
      have hhas : sc.hasNext = true := by rw [hasNext, hnext]; rfl
      have hcons : remaining s sc = rid :: ahead s sc := by rw [remaining, hnext]; rfl
      obtain ⟨hres, hsame, hfree, hscanning, hrest, -⟩ := next_spec hi h
      rw [hcons, List.length_cons] at hn
      obtain ⟨s', sc', hall, hsame', hend⟩ := @ih _ _ (hi.samePages hsame hfree) hscanning
        (by rw [hrest]; omega)
      have hdata := hsame.recordData
      refine ⟨s', sc', ?_, hsame.trans hsame', hend⟩
      rw [hhas]
      generalize next .vacuousTrx s sc = r at *
      obtain ⟨⟨rc, rid'⟩, s₁, sc₁⟩ := r
      obtain ⟨rfl, rfl⟩ := Prod.mk.inj hres
      dsimp only at *
      rw [if_neg (by decide), hall, hrest, hnext, hcons]
      simp only [hdata]
      rfl

/-- A scan of a file at rest returns each live record once, in increasing order. -/
theorem runScan_spec {n : ℕ} (hi : Inv recordSize s)
    (hn : (s.liveFrom 1 s.fileBufferPool.fileHeader.pageCount).length < n) :
    ∃ rows s' sc', runScan .vacuousTrx n s = (.success, rows, s', sc') ∧
      rows.Pairwise (fun row row' => row.1.Before row'.1) ∧
      (∀ rid data, (rid, data) ∈ rows ↔ s.records rid = some data) ∧ sc'.hasNext = false := by
  obtain ⟨hrc, hsame, hfree, hscanning, hremaining⟩ := openScan_spec hi
  unfold runScan
  generalize openScan .vacuousTrx s = r at *
  obtain ⟨rc, s₁, sc₁⟩ := r
  dsimp only at *
  subst hrc
  obtain ⟨s', sc', hall, -, hend⟩ := scanAll_spec (hi.samePages hsame hfree) hscanning
    (by rw [hremaining]; exact hn)
  rw [hremaining] at hall
  refine ⟨_, s', sc', by rw [if_neg (by decide)]; exact hall, ?_, fun rid data => ?_, hend⟩
  · rw [List.pairwise_map]
    exact pairwise_liveFrom _ _ _
  · rw [List.mem_map]
    constructor
    · rintro ⟨rid', hrid', heq⟩
      cases heq
      have hlive := hi.mem_live.mp hrid'
      rw [hi.records_of_live hlive, hsame.recordData]
    · intro hdata
      have hlive : s.records rid ≠ none := by
        rw [hdata]
        exact Option.some_ne_none _
      have hsome := hi.records_of_live hlive
      rw [hdata] at hsome
      exact ⟨rid, hi.mem_live.mpr hlive, by rw [hsame.recordData, Option.some.inj hsome]⟩

end RecordFileScanner

end TDB.Recorder
