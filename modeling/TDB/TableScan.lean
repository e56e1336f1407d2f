import TDB.PredicatePushdown
import TDB.RecordMap
import TDB.RecordScanner

namespace TDB.Recorder

open ByteBits RecordFileHandler RecordFileScanner

/-! ## `TableScanPhysicalOperator` and `DeletePhysicalOperator` -/

/-- `TableScanPhysicalOperator::next` over a scanner; `filter` is what the predicates of the scan
say of the bytes of a record, and `.ok none` is `RECORD_EOF`.  The outer `none` means that the bound
on the loop was too small. -/
def tableScanNext (filter : List (BitVec 8) → Except Failure Bool) :
    ℕ → RecordFileHandler → RecordFileScanner →
    Option (Except Failure (Option RID) × RecordFileHandler × RecordFileScanner)
  | 0, _, _ => none
  | n + 1, s, sc =>
    match sc.hasNext, RecordFileScanner.next .vacuousTrx s sc with
    | false, _ => some (.ok none, s, sc)
    | true, ((_, none), s, sc) => some (.ok none, s, sc)
    | true, ((rc, some rid), s, sc) =>
      if rc.fail then some (.error (.code rc), s, sc)
      else match filter (s.recordData rid) with
        | .error e => some (.error e, s, sc)
        | .ok true => some (.ok (some rid), s, sc)
        | .ok false => tableScanNext filter n s sc

/-- `DeletePhysicalOperator::next`.  A return code of the child ends the loop without being looked
at; `VacuousTrx::delete_record` is `delete_record` of the table. -/
def deleteNext (filter : List (BitVec 8) → Except Failure Bool) :
    ℕ → RecordFileHandler → RecordFileScanner →
    Option (Except Failure RC × RecordFileHandler × RecordFileScanner)
  | 0, _, _ => none
  | n + 1, s, sc =>
    match tableScanNext filter (n + 1) s sc with
    | none => none
    | some (.ok (some rid), s, sc) =>
      let (rc, s) := s.deleteRecord rid
      if rc.fail then some (.ok rc, s, sc) else deleteNext filter n s sc
    | some (.error .exception, s, sc) => some (.error .exception, s, sc)
    | some (.error .crash, s, sc) => some (.error .crash, s, sc)
    | some (_, s, sc) => some (.ok .recordEof, s, sc)

/-- The statement: `open` of the operator and of its scan, one `next`, and `close`. -/
def runDelete (filter : List (BitVec 8) → Except Failure Bool) (n : ℕ) (s : RecordFileHandler) :
    Option (Except Failure RC × RecordFileHandler) :=
  let (rc, s, sc) := openScan .vacuousTrx s
  if rc.fail then some (.ok rc, s)
  else (deleteNext filter n s sc).map fun (result, s, sc) =>
    (result, (RecordFileScanner.cleanup s sc).1)

/-! ## A scan of a file that changes -/

namespace RecordFileScanner

variable {s s' : RecordFileHandler} {sc sc' : RecordFileScanner} {recordSize : ℕ}

/-- The RIDs whose records the scanner would still return. -/
def Unreturned (sc : RecordFileScanner) (rid : RID) : Prop :=
  sc.nextRecord = some rid ∨ Beyond sc rid

theorem mem_remaining (hi : Inv recordSize s) (h : Scanning s sc) {rid : RID} :
    rid ∈ remaining s sc ↔ s.records rid ≠ none ∧ Unreturned sc rid := by
  rw [remaining, List.mem_append, mem_ahead hi h.toOk, Option.mem_toList]
  constructor
  · rintro (hrid | ⟨hlive, hbeyond⟩)
    · exact ⟨h.live rid hrid, Or.inl hrid⟩
    · exact ⟨hlive, Or.inr hbeyond⟩
  · rintro ⟨hlive, hrid | hbeyond⟩
    · exact Or.inl hrid
    · exact Or.inr ⟨hlive, hbeyond⟩

/-- A scanner stays in order while the file changes, as long as no page is added and no record is
taken away that the scanner has not returned. -/
theorem Scanning.changes (h : Scanning s sc) (hi : Inv recordSize s) (hi' : Inv recordSize s')
    (hheader : s'.fileBufferPool.fileHeader = s.fileBufferPool.fileHeader)
    (hkeep : ∀ rid, Unreturned sc rid → s.records rid ≠ none → s'.records rid ≠ none) :
    Scanning s' sc := by
  have hpage : ∀ p, s'.IsRecordPage p ↔ s.IsRecordPage p := by
    intro p
    rw [IsRecordPage, IsRecordPage, hheader]
  refine ⟨⟨?_, ?_⟩, ?_, h.ordered, ?_⟩
  · rw [hheader]
    exact h.current
  · intro it hit
    obtain ⟨hpageNum, hitOk⟩ := h.iterator it hit
    obtain ⟨page, hpageAt, hwf⟩ := hi.pages _ hitOk.isRecordPage
    obtain ⟨page', hpageAt', hwf'⟩ := hi'.pages _ ((hpage _).mpr hitOk.isRecordPage)
    have hsize : it.size = (s'.page it.pageNum).header.recordCapacity := by
      rw [hitOk.size, page_eq hpageAt, page_eq hpageAt', hwf.recordCapacity, hwf'.recordCapacity]
    refine ⟨hpageNum, (hpage _).mpr hitOk.isRecordPage, hsize, fun n hn => ?_⟩
    obtain ⟨hlt, hbit⟩ := hitOk.next n hn
    have hlive : s.records ⟨it.pageNum, n⟩ ≠ none :=
      hi.live_iff.mpr ⟨hitOk.isRecordPage, hitOk.size ▸ hlt, hbit⟩
    have hunreturned : Unreturned sc ⟨it.pageNum, n⟩ := Or.inr
      (Or.inl ⟨it, n, hit, hn, rfl, le_rfl⟩)
    exact ⟨hlt, (hi'.live_iff.mp (hkeep _ hunreturned hlive)).2.2⟩
  · intro rid hrid
    exact hkeep rid (Or.inl hrid) (h.live rid hrid)
  · intro hnone x hx hp
    exact h.atEnd hnone x hx ((hpage _).mp hp)

theorem Scanning.inserts (h : Scanning s sc) (hi : Inv recordSize s) (hi' : Inv recordSize s')
    (hheader : s'.fileBufferPool.fileHeader = s.fileBufferPool.fileHeader) {rid : RID}
    {data : List (BitVec 8)} (hrecords : s'.records = Function.update s.records rid (some data)) :
    Scanning s' sc := by
  refine h.changes hi hi' hheader fun x _ hx => ?_
  rw [hrecords]
  by_cases hxrid : x = rid
  · rw [hxrid, Function.update_self]
    exact Option.some_ne_none _
  · rwa [Function.update_of_ne hxrid]

section records

variable {records : RID → Option (List (BitVec 8))} {P : List (BitVec 8) → Prop} {rid : RID}

theorem records_delete (hP : ∀ x data, records x = some data → P data) (x : RID)
    (data : List (BitVec 8)) (hx : Function.update records rid none x = some data) : P data := by
  by_cases hxrid : x = rid
  · rw [hxrid, Function.update_self] at hx
    cases hx
  · rw [Function.update_of_ne hxrid] at hx
    exact hP x data hx

theorem records_insert {new : List (BitVec 8)} (hP : ∀ x data, records x = some data → P data)
    (hnew : P new) (x : RID) (data : List (BitVec 8))
    (hx : Function.update records rid (some new) x = some data) : P data := by
  by_cases hxrid : x = rid
  · rw [hxrid, Function.update_self] at hx
    exact Option.some.inj hx ▸ hnew
  · rw [Function.update_of_ne hxrid] at hx
    exact hP x data hx

end records

theorem not_before_self (rid : RID) : ¬rid.Before rid := by
  rintro (h | ⟨-, h⟩)
  · omega
  · omega

/-- The place of a RID in the order of a scan, counted in slots. -/
def rank (recordSize : ℕ) (rid : RID) : ℕ :=
  rid.pageNum * (PageHeader.empty recordSize).recordCapacity + rid.slotNum

def slotsLeft (recordSize : ℕ) (s : RecordFileHandler) (sc : RecordFileScanner) : ℕ :=
  match sc.nextRecord with
  | none => 0
  | some rid => s.fileBufferPool.fileHeader.pageCount *
      (PageHeader.empty recordSize).recordCapacity - rank recordSize rid

theorem slotsLeft_le (recordSize : ℕ) (s : RecordFileHandler) (sc : RecordFileScanner) :
    slotsLeft recordSize s sc ≤ s.fileBufferPool.fileHeader.pageCount *
      (PageHeader.empty recordSize).recordCapacity := by
  unfold slotsLeft
  split
  · exact Nat.zero_le _
  · exact Nat.sub_le _ _

theorem slotsLeft_congr (recordSize : ℕ) {s s' : RecordFileHandler} (sc : RecordFileScanner)
    (h : s'.fileBufferPool.fileHeader = s.fileBufferPool.fileHeader) :
    slotsLeft recordSize s' sc = slotsLeft recordSize s sc := by
  unfold slotsLeft
  rw [h]

theorem rank_lt_rank {rid rid' : RID} (hb : rid.Before rid')
    (hslot : rid.slotNum < (PageHeader.empty recordSize).recordCapacity) :
    rank recordSize rid < rank recordSize rid' := by
  unfold rank
  rcases hb with hlt | ⟨heq, hlt⟩
  · have hmul := Nat.mul_le_mul_right (PageHeader.empty recordSize).recordCapacity
      (Nat.succ_le_of_lt hlt)
    rw [Nat.succ_mul] at hmul
    omega
  · rw [heq]
    omega

theorem slotNum_lt (hi : Inv recordSize s) {rid : RID} (hlive : s.records rid ≠ none) :
    rid.slotNum < (PageHeader.empty recordSize).recordCapacity := by
  obtain ⟨hp, hlt, -⟩ := hi.live_iff.mp hlive
  obtain ⟨page, hpage, hwf⟩ := hi.pages _ hp
  rw [page_eq hpage, hwf.recordCapacity] at hlt
  exact hlt

theorem rank_lt (hi : Inv recordSize s) {rid : RID} (hlive : s.records rid ≠ none) :
    rank recordSize rid < s.fileBufferPool.fileHeader.pageCount *
      (PageHeader.empty recordSize).recordCapacity := by
  have hslot := slotNum_lt hi hlive
  have hpage := hi.header.lt_pageCount (hi.live_iff.mp hlive).1.2
  have hmul := Nat.mul_le_mul_right (PageHeader.empty recordSize).recordCapacity
    (Nat.succ_le_of_lt hpage)
  rw [Nat.succ_mul] at hmul
  unfold rank
  omega

/-- What one `next` of a scanner with a record does. -/
structure Advances (recordSize : ℕ) (s s' : RecordFileHandler) (sc sc' : RecordFileScanner)
    (rid : RID) : Prop where
  same : SamePages s s'
  inv : Inv recordSize s'
  scanning : Scanning s' sc'
  remaining : remaining s sc = rid :: remaining s' sc'
  before : ∀ x ∈ RecordFileScanner.remaining s' sc', rid.Before x
  slotsLeft : slotsLeft recordSize s' sc' < slotsLeft recordSize s sc

theorem advances_next (hi : Inv recordSize s) (h : Scanning s sc) {rid : RID}
    (hnext : sc.nextRecord = some rid) :
    (next .vacuousTrx s sc).1 = (.success, some rid) ∧
      Advances recordSize s (next .vacuousTrx s sc).2.1 sc (next .vacuousTrx s sc).2.2 rid := by
  obtain ⟨hres, hsame, hfree, hscanning, hremaining, -⟩ := next_spec hi h
  have hi' := hi.samePages hsame hfree
  have hbefore : ∀ x ∈ remaining (next .vacuousTrx s sc).2.1 (next .vacuousTrx s sc).2.2,
      rid.Before x := by
    intro x hx
    rw [hremaining] at hx
    exact h.ordered rid hnext x ((mem_ahead hi h.toOk).mp hx).2
  have hlive := h.live rid hnext
  have hrank := rank_lt hi hlive
  refine ⟨by rw [hres, hnext], hsame, hi', hscanning, ?_, hbefore, ?_⟩
  · rw [hremaining, remaining, hnext]
    rfl
  · unfold slotsLeft
    rw [hnext]
    cases hnext' : (next .vacuousTrx s sc).2.2.nextRecord with
    | none =>
      dsimp only
      omega
    | some rid' =>
      have hmem : rid' ∈ remaining (next .vacuousTrx s sc).2.1 (next .vacuousTrx s sc).2.2 := by
        rw [remaining, hnext']
        exact List.mem_cons_self
      have hlt := rank_lt_rank (hbefore rid' hmem) (slotNum_lt hi hlive)
      have hrank' := rank_lt hi' (hscanning.live rid' hnext')
      rw [hsame.fileHeader] at hrank' ⊢
      dsimp only
      omega

/-- The scan goes on to the first remaining record that passes the filter, or to the end. -/
structure ScansTo (recordSize : ℕ) (filter : List (BitVec 8) → Except Failure Bool)
    (s s' : RecordFileHandler) (sc sc' : RecordFileScanner) (found : Option RID) : Prop where
  same : SamePages s s'
  inv : Inv recordSize s'
  scanning : Scanning s' sc'
  remaining : ∃ skipped, RecordFileScanner.remaining s sc =
      skipped ++ found.toList ++ RecordFileScanner.remaining s' sc' ∧
    (∀ x ∈ skipped, filter (s.recordData x) = .ok false) ∧
    ∀ x ∈ skipped ++ found.toList, ∀ y ∈ RecordFileScanner.remaining s' sc', x.Before y
  passes : ∀ rid, found = some rid → filter (s.recordData rid) = .ok true ∧
    slotsLeft recordSize s' sc' < slotsLeft recordSize s sc
  atEnd : found = none → sc'.nextRecord = none

theorem tableScanNext_spec {filter : List (BitVec 8) → Except Failure Bool} {n : ℕ}
    (hi : Inv recordSize s) (h : Scanning s sc)
    (hfilter : ∀ rid ∈ remaining s sc, ∃ b, filter (s.recordData rid) = .ok b)
    (hn : slotsLeft recordSize s sc < n) :
    ∃ found s' sc', tableScanNext filter n s sc = some (.ok found, s', sc') ∧
      ScansTo recordSize filter s s' sc sc' found := by
  induction n generalizing s sc with
  | zero => omega
  | succ n ih =>
    rw [tableScanNext]
    cases hnext : sc.nextRecord with
    | none =>
      have hhas : sc.hasNext = false := by rw [hasNext, hnext]; rfl
      refine ⟨none, s, sc, by rw [hhas], SamePages.refl s, hi, h, ⟨[], rfl, ?_, ?_⟩, ?_,
        fun _ => hnext⟩
      · intro x hx
        cases hx
      · intro x hx
        cases hx
      · intro rid hrid
        cases hrid
    | some rid =>
      have hhas : sc.hasNext = true := by rw [hasNext, hnext]; rfl
      obtain ⟨hres, hadv⟩ := advances_next hi h hnext
      generalize hr : RecordFileScanner.next .vacuousTrx s sc = r at hres hadv
      obtain ⟨⟨rc, rid'⟩, s₁, sc₁⟩ := r
      obtain ⟨rfl, rfl⟩ := Prod.mk.inj hres
      dsimp only at hadv
      have hmem : rid ∈ remaining s sc := by
        rw [hadv.remaining]
        exact List.mem_cons_self
      obtain ⟨b, hb⟩ := hfilter rid hmem
      rw [hhas]
      dsimp only
      rw [if_neg (by decide), hadv.same.recordData, hb]
      -- a record the filter takes ends the call; one it does not take is skipped
      cases b with
      | true =>
        refine ⟨some rid, s₁, sc₁, rfl, hadv.same, hadv.inv, hadv.scanning,
          ⟨[], hadv.remaining, ?_, ?_⟩, ?_, fun hnone => by cases hnone⟩
        · intro x hx
          cases hx
        · intro x hx y hy
          obtain rfl : x = rid := by simpa using hx
          exact hadv.before y hy
        · intro rid' hrid'
          cases hrid'
          exact ⟨hb, hadv.slotsLeft⟩
      | false =>
        have hleft := hadv.slotsLeft
        obtain ⟨found, s', sc', heq, hto⟩ := @ih s₁ sc₁ hadv.inv hadv.scanning
          (fun x hx => by
            rw [hadv.same.recordData]
            exact hfilter x (hadv.remaining ▸ List.mem_cons_of_mem _ hx)) (by omega)
        obtain ⟨skipped, hskipped, hfalse, hbefore⟩ := hto.remaining
        refine ⟨found, s', sc', heq, hadv.same.trans hto.same, hto.inv, hto.scanning,
          ⟨rid :: skipped, ?_, ?_, ?_⟩, ?_, hto.atEnd⟩
        · rw [hadv.remaining, hskipped]
          rfl
        · intro x hx
          rcases List.mem_cons.mp hx with rfl | hx
          · exact hb
          · rw [← hadv.same.recordData]
            exact hfalse x hx
        · intro x hx y hy
          rcases List.mem_cons.mp hx with rfl | hx
          · apply hadv.before
            rw [hskipped]
            exact List.mem_append_right _ hy
          · exact hbefore x hx y hy
        · intro rid' hrid'
          obtain ⟨hpass, hlt⟩ := hto.passes rid' hrid'
          rw [hadv.same.recordData] at hpass
          exact ⟨hpass, hlt.trans hleft⟩

/-- Of the other records, those that pass the filter are still to come or are not. -/
theorem ScansTo.unreturned_iff {filter : List (BitVec 8) → Except Failure Bool}
    {found : Option RID} (hto : ScansTo recordSize filter s s' sc sc' found)
    (hi : Inv recordSize s) (h : Scanning s sc) {rid : RID} {data : List (BitVec 8)}
    (hrecord : s.records rid = some data) (hne : rid ∉ found) :
    Unreturned sc' rid ∧ filter data = .ok true ↔ Unreturned sc rid ∧ filter data = .ok true := by
  obtain ⟨skipped, hremaining, hfalse, -⟩ := hto.remaining
  have hlive : s.records rid ≠ none := by
    rw [hrecord]
    exact Option.some_ne_none _
  have hlive' : s'.records rid ≠ none := by
    rw [hto.same.records]
    exact hlive
  constructor
  · rintro ⟨hun, htrue⟩
    have hrest := (mem_remaining hto.inv hto.scanning).mpr ⟨hlive', hun⟩
    have hmem : rid ∈ RecordFileScanner.remaining s sc := by
      rw [hremaining]
      exact List.mem_append_right _ hrest
    exact ⟨((mem_remaining hi h).mp hmem).2, htrue⟩
  · rintro ⟨hun, htrue⟩
    have hmem := (mem_remaining hi h).mpr ⟨hlive, hun⟩
    rw [hremaining] at hmem
    rcases List.mem_append.mp hmem with hmem | hrest
    · rcases List.mem_append.mp hmem with hskipped | hfound
      · -- the scan passed over the record, as it fails the filter
        have hdata : s.recordData rid = data :=
          Option.some.inj ((hi.records_of_live hlive).symm.trans hrecord)
        have hfail := hfalse rid hskipped
        rw [hdata, htrue] at hfail
        cases hfail
      · exact absurd (Option.mem_toList.mp hfound) hne
    · exact ⟨((mem_remaining hto.inv hto.scanning).mp hrest).2, htrue⟩

end RecordFileScanner

/-! ## Deleting while the scan goes on -/

variable {s s' : RecordFileHandler} {sc sc' : RecordFileScanner} {recordSize : ℕ}

theorem recordData_congr (hi : Inv recordSize s) (hi' : Inv recordSize s') {rid : RID}
    (hlive : s.records rid ≠ none) (h : s'.records rid = s.records rid) :
    s'.recordData rid = s.recordData rid := by
  have hdata := hi.records_of_live hlive
  have hdata' := hi'.records_of_live (h ▸ hlive)
  rw [h, hdata] at hdata'
  exact (Option.some.inj hdata').symm

/-- The record that a scan found is deleted: the scanner stays in order, and has the same records
ahead. -/
theorem deleteRecord_scanning {rid : RID} (hi : Inv recordSize s) (h : Scanning s sc)
    (hlive : s.records rid ≠ none) (hbefore : ∀ x ∈ remaining s sc, rid.Before x) :
    (s.deleteRecord rid).1 = .success ∧
    Changes recordSize s (s.deleteRecord rid).2 rid none ∧
    (s.deleteRecord rid).2.fileBufferPool.fileHeader = s.fileBufferPool.fileHeader ∧
    Scanning (s.deleteRecord rid).2 sc ∧
    ∀ x, x ∈ remaining (s.deleteRecord rid).2 sc ↔ x ∈ remaining s sc := by
  have hp := (hi.live_iff.mp hlive).1
  obtain ⟨hchanges, hheader, hrc⟩ := deleteRecord_spec hi hp (slotNum_lt hi hlive)
  have hsome : (s.records rid).isSome = true := Option.isSome_iff_ne_none.mpr hlive
  rw [hsome, if_pos rfl] at hrc
  have hother : ∀ x, s.records x ≠ none → Unreturned sc x → x ≠ rid := by
    rintro x hx hunreturned rfl
    exact not_before_self x (hbefore x ((mem_remaining hi h).mpr ⟨hx, hunreturned⟩))
  have hscanning : Scanning (s.deleteRecord rid).2 sc := by
    apply h.changes hi hchanges.inv hheader
    intro x hunreturned hx
    rw [hchanges.records, Function.update_of_ne (hother x hx hunreturned)]
    exact hx
  refine ⟨hrc, hchanges, hheader, hscanning, fun x => ?_⟩
  rw [mem_remaining hchanges.inv hscanning, mem_remaining hi h, hchanges.records]
  by_cases hx : x = rid
  · subst hx
    rw [Function.update_self]
    exact ⟨fun hc => absurd rfl hc.1, fun hc => absurd rfl (hother x hc.1 hc.2)⟩
  · rw [Function.update_of_ne hx]

/-- The map after a `DELETE`: of the records that remain to be scanned, those that pass the filter
are gone. -/
structure Deletes (filter : List (BitVec 8) → Except Failure Bool) (s s' : RecordFileHandler)
    (rids : List RID) : Prop where
  gone : ∀ x ∈ rids, filter (s.recordData x) = .ok true → s'.records x = none
  kept : ∀ x, ¬(x ∈ rids ∧ filter (s.recordData x) = .ok true) → s'.records x = s.records x

theorem deleteNext_spec {filter : List (BitVec 8) → Except Failure Bool} {n : ℕ}
    (hi : Inv recordSize s) (h : Scanning s sc)
    (hfilter : ∀ rid ∈ remaining s sc, ∃ b, filter (s.recordData rid) = .ok b)
    (hn : slotsLeft recordSize s sc < n) :
    ∃ s' sc', deleteNext filter n s sc = some (.ok .recordEof, s', sc') ∧ Inv recordSize s' ∧
      Deletes filter s s' (remaining s sc) := by
  induction n generalizing s sc with
  | zero => omega
  | succ n ih =>
    obtain ⟨found, s₁, sc₁, heq, hto⟩ := tableScanNext_spec hi h hfilter hn
    obtain ⟨skipped, hremaining, hfalse, hbefore⟩ := hto.remaining
    rw [deleteNext, heq]
    cases found with
    -- the scan is at its end: what was skipped on the way does not pass the filter
    | none =>
      have hnil := hto.scanning.remaining_eq_nil hto.inv (hto.atEnd rfl)
      refine ⟨s₁, sc₁, rfl, hto.inv, ?_, ?_⟩
      · intro x hx htrue
        rw [hremaining, hnil, Option.toList_none, List.append_nil, List.append_nil] at hx
        rw [hfalse x hx] at htrue
        cases htrue
      · intro x _
        rw [hto.same.records]
    | some rid =>
      obtain ⟨hpass, hleft⟩ := hto.passes rid rfl
      have hmem : rid ∈ remaining s sc := by
        rw [hremaining]
        simp
      have hlive := ((mem_remaining hi h).mp hmem).1
      have hlive₁ : s₁.records rid ≠ none := by
        rw [hto.same.records]
        exact hlive
      -- a delete behind the scanner leaves the rest of the scan as it is
      obtain ⟨hrc, hchanges, hheader, hscanning, hsame⟩ := deleteRecord_scanning hto.inv
        hto.scanning hlive₁ (hbefore rid (by simp))
      dsimp only
      generalize s₁.deleteRecord rid = r at hrc hchanges hheader hscanning hsame
      obtain ⟨rc, s₂⟩ := r
      dsimp only at hrc hchanges hheader hscanning hsame
      subst hrc
      have hrecords : s₂.records = Function.update s.records rid none := by
        rw [hchanges.records, hto.same.records]
      have hnot : ∀ x ∈ remaining s₂ sc₁, x ≠ rid := by
        rintro x hx rfl
        exact not_before_self x (hbefore x (by simp) x ((hsame x).mp hx))
      have hlive₂ : ∀ x ∈ remaining s₂ sc₁, x ∈ remaining s sc ∧ s.records x ≠ none := by
        intro x hx
        have hmem' : x ∈ remaining s sc := by
          rw [hremaining]
          exact List.mem_append_right _ ((hsame x).mp hx)
        exact ⟨hmem', ((mem_remaining hi h).mp hmem').1⟩
      have hdata : ∀ x ∈ remaining s₂ sc₁, s₂.recordData x = s.recordData x := by
        intro x hx
        apply recordData_congr hi hchanges.inv (hlive₂ x hx).2
        rw [hrecords, Function.update_of_ne (hnot x hx)]
      have hleft₂ : slotsLeft recordSize s₂ sc₁ < n := by
        have heq := slotsLeft_congr recordSize sc₁ hheader
        omega
      obtain ⟨s', sc', hrun, hi', hdeletes⟩ := @ih s₂ sc₁ hchanges.inv hscanning
        (fun x hx => by
          rw [hdata x hx]
          exact hfilter x (hlive₂ x hx).1) hleft₂
      -- a row of the filter is deleted now or in the rest of the scan
      refine ⟨s', sc', (if_neg Bool.false_ne_true).trans hrun, hi', ?_, ?_⟩
      · intro x hx htrue
        by_cases hrest : x ∈ remaining s₂ sc₁
        · exact hdeletes.gone x hrest (by rw [hdata x hrest]; exact htrue)
        · have hxrid : x = rid := by
            rw [hremaining] at hx
            rcases List.mem_append.mp hx with hx | hx
            · rcases List.mem_append.mp hx with hx | hx
              · rw [hfalse x hx] at htrue
                cases htrue
              · simpa using hx
            · exact absurd ((hsame x).mpr hx) hrest
          rw [hdeletes.kept x fun hc => hrest hc.1, hrecords, hxrid, Function.update_self]
      · intro x hx
        have hxrid : x ≠ rid := by
          rintro rfl
          exact hx ⟨hmem, hpass⟩
        rw [hdeletes.kept x, hrecords, Function.update_of_ne hxrid]
        rintro ⟨hrest, htrue⟩
        rw [hdata x hrest] at htrue
        exact hx ⟨(hlive₂ x hrest).1, htrue⟩

theorem runDelete_spec {filter : List (BitVec 8) → Except Failure Bool} {n : ℕ}
    (hi : Inv recordSize s)
    (hfilter : ∀ rid data, s.records rid = some data → ∃ b, filter data = .ok b)
    (hn : s.fileBufferPool.fileHeader.pageCount *
      (PageHeader.empty recordSize).recordCapacity < n) :
    ∃ s', runDelete filter n s = some (.ok .recordEof, s') ∧
      ∀ rid data, s'.records rid = some data ↔ s.records rid = some data ∧ filter data =
        .ok false := by
  obtain ⟨hrc, hsame, hfree, hscanning, hremaining⟩ := openScan_spec hi
  unfold runDelete
  generalize openScan .vacuousTrx s = r at *
  obtain ⟨rc, s₁, sc₁⟩ := r
  dsimp only at *
  subst hrc
  have hi₁ := hi.samePages hsame hfree
  have hmem : ∀ rid, rid ∈ remaining s₁ sc₁ ↔ s.records rid ≠ none := by
    intro rid
    rw [hremaining]
    exact hi.mem_live
  have hdata : ∀ rid data, s.records rid = some data → s₁.recordData rid = data := by
    intro rid data hrid
    have hlive : s.records rid ≠ none := by
      rw [hrid]
      exact Option.some_ne_none _
    rw [hsame.recordData]
    exact Option.some.inj ((hi.records_of_live hlive).symm.trans hrid)
  have hleft : slotsLeft recordSize s₁ sc₁ < n := by
    have hle := slotsLeft_le recordSize s₁ sc₁
    rw [hsame.fileHeader] at hle
    omega
  obtain ⟨s₂, sc₂, hrun, -, hdeletes⟩ := @deleteNext_spec s₁ sc₁ recordSize filter n hi₁ hscanning
    (fun rid hrid => by
      obtain ⟨data, hrid'⟩ := Option.ne_none_iff_exists'.mp ((hmem rid).mp hrid)
      rw [hdata rid data hrid']
      exact hfilter rid data hrid') hleft
  obtain ⟨hclean, -, -⟩ := cleanup_spec s₂ sc₂
  refine ⟨(RecordFileScanner.cleanup s₂ sc₂).1, ?_, fun rid data => ?_⟩
  · rw [if_neg (by decide), hrun]
    rfl
  · rw [hclean.records]
    -- a slot without a record is not visited; a record goes exactly if the filter takes it
    cases horig : s.records rid with
    | none =>
      rw [hdeletes.kept rid fun hc => (hmem rid).mp hc.1 horig, hsame.records, horig]
      exact ⟨fun hc => (by cases hc), fun hc => (by cases hc.1)⟩
    | some data' =>
      have hrid : rid ∈ remaining s₁ sc₁ := (hmem rid).mpr
        (by rw [horig]; exact Option.some_ne_none _)
      obtain ⟨b, hb⟩ := hfilter rid data' horig
      have hb₁ : filter (s₁.recordData rid) = .ok b := by
        rw [hdata rid data' horig]
        exact hb
      cases b with
      | true =>
        rw [hdeletes.gone rid hrid hb₁]
        constructor
        · intro hc
          cases hc
        · rintro ⟨hc, hfalse⟩
          cases hc
          rw [hb] at hfalse
          cases hfalse
      | false =>
        have hkept : s₂.records rid = some data' := by
          rw [hdeletes.kept rid, hsame.records, horig]
          rintro ⟨-, htrue⟩
          rw [hb₁] at htrue
          cases htrue
        rw [hkept]
        constructor
        · intro hc
          cases hc
          exact ⟨rfl, hb⟩
        · exact And.left

/-- On every file that inserts and deletes lead to, a scan returns each live record once in
increasing order, and a `DELETE` over the scan removes exactly the records that satisfied its
predicates at the start. -/
theorem scan_and_delete_exact {T : Type} (lib : StdLib) (predicates : List (Expression T))
    (rowTuple : List (BitVec 8) → T) (recordSize : ℕ)
    (hcap : 0 < (PageHeader.empty recordSize).recordCapacity) (bp : FileBufferPool RecordPage)
    (hfile : IsRecordFile recordSize bp) (calls : List RecordCall)
    (hlegal : Legal recordSize calls (init bp).2) (results : List RecordResult)
    (s : RecordFileHandler) (hrun : run recordSize calls (init bp).2 = some (results, s)) :
    (∃ bound, ∀ n > bound, ∃ rows s' sc', runScan .vacuousTrx n s = (.success, rows, s', sc') ∧
      rows.Pairwise (fun row row' => row.1.Before row'.1) ∧
      (∀ rid data, (rid, data) ∈ rows ↔ s.records rid = some data) ∧ sc'.hasNext = false) ∧
    ((∀ rid data, s.records rid = some data →
        ∃ b, tableScanFilter lib (rowTuple data) predicates = .ok b) →
      ∃ bound, ∀ n > bound, ∃ s',
        runDelete (fun data => tableScanFilter lib (rowTuple data) predicates) n s =
          some (.ok .recordEof, s') ∧
        ∀ rid data, s'.records rid = some data ↔ s.records rid = some data ∧
          tableScanFilter lib (rowTuple data) predicates = .ok false) := by
  obtain ⟨results', s', hrun', -, hi⟩ := run_refines hcap (inv_init hfile).1 hlegal
  rw [hrun] at hrun'
  cases hrun'
  exact ⟨⟨_, fun n hn => runScan_spec hi hn⟩, fun hfilter =>
    ⟨_, fun n hn => runDelete_spec hi hfilter hn⟩⟩

/-- A record in a new file; the predicate holds of those whose first byte is 1. -/
theorem scan_and_delete_created :
    let lib : StdLib := ⟨fun _ => none, fun _ => none, fun _ _ => none, fun _ => []⟩
    let predicate : Expression (List (BitVec 8)) :=
      .field fun data => .ok (.booleans (data.head? == some 1#8))
    let bp := (DataFile.created (PageData.cleared : RecordPage)).pool
    let calls : List RecordCall := [.insertRecord lowestBegin [1#8, 2#8, 3#8, 4#8]]
    ∃ results s, run 4 calls (init bp).2 = some (results, s) ∧ ∃ bound, ∀ n > bound, ∃ s',
      runDelete (fun data => tableScanFilter lib data [predicate]) n s =
        some (.ok .recordEof, s') ∧
      ∀ rid data, s'.records rid = some data ↔ s.records rid = some data ∧
        tableScanFilter lib data [predicate] = .ok false := by
  intro lib predicate bp calls
  have hfile := isRecordFile_created 4 (PageData.cleared : RecordPage)
  have hlegal : Legal 4 calls (init bp).2 :=
    ⟨⟨rfl, fun _ => by decide +kernel⟩, fun _ _ _ => trivial⟩
  obtain ⟨results, s, hrun, -⟩ := run_refines (by decide) (inv_init hfile).1 hlegal
  refine ⟨results, s, hrun, (scan_and_delete_exact lib [predicate] id 4 (by decide) bp hfile calls
    hlegal results s hrun).2 fun rid data _ => ?_⟩
  cases hfirst : data.head? == some 1#8 with
  | true => exact ⟨true, by simp [tableScanFilter, predicate, Expression.getValue, hfirst, bind,
      Except.bind, Value.getBoolean]⟩
  | false => exact ⟨false, by simp [tableScanFilter, predicate, Expression.getValue, hfirst, bind,
      Except.bind, Value.getBoolean, pure, Except.pure]⟩

end TDB.Recorder
