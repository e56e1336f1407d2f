import Mathlib.Data.Finite.Prod
import Mathlib.Data.Finset.Max
import Mathlib.Data.Set.Finite.Lattice
import TDB.RecordFile

namespace TDB.Recorder

/-! ## Records as a map -/

/-- What a record file is for: bytes under RIDs. -/
abbrev RecordMap := RID → Option (List (BitVec 8))

/-- A call on the handler.  `cleanup` ends the page handler of an earlier `get_record`. -/
inductive RecordCall where
  | insertRecord (begin : Begin) (data : List (BitVec 8))
  | deleteRecord (rid : RID)
  | getRecord (rid : RID)
  | cleanup (p : ℕ)

/-- What a call returns: its code, the RID of a new record, the bytes of a record that was read. -/
structure RecordResult where
  rc : RC
  rid : Option RID := none
  data : List (BitVec 8) := []

inductive RecordMap.Step : RecordMap → RecordCall → RecordResult → RecordMap → Prop
  | insert {m : RecordMap} {begin : Begin} {data : List (BitVec 8)} {rid : RID}
      (h : m rid = none) :
      Step m (.insertRecord begin data) { rc := .success, rid := some rid }
        (Function.update m rid (some data))
  | delete {m : RecordMap} {rid : RID} {data : List (BitVec 8)} (h : m rid = some data) :
      Step m (.deleteRecord rid) { rc := .success } (Function.update m rid none)
  | deleteMissing {m : RecordMap} {rid : RID} (h : m rid = none) :
      Step m (.deleteRecord rid) { rc := .recordNotExist } m
  | get {m : RecordMap} {rid : RID} {data : List (BitVec 8)} (h : m rid = some data) :
      Step m (.getRecord rid) { rc := .success, data := data } m
  | getMissing {m : RecordMap} {rid : RID} (h : m rid = none) :
      Step m (.getRecord rid) { rc := .recordNotExist } m
  | cleanup {m : RecordMap} {p : ℕ} : Step m (.cleanup p) { rc := .success } m

inductive RecordMap.Run : RecordMap → List RecordCall → List RecordResult → RecordMap → Prop
  | nil {m : RecordMap} : Run m [] [] m
  | cons {m m' m'' : RecordMap} {c : RecordCall} {cs : List RecordCall} {r : RecordResult}
      {rs : List RecordResult} (h : Step m c r m') (hs : Run m' cs rs m'') :
      Run m (c :: cs) (r :: rs) m''

namespace RecordFileHandler

def call (recordSize : ℕ) : RecordCall → RecordFileHandler → Option
    (RecordResult × RecordFileHandler)
  | .insertRecord begin data, s =>
    (s.insertRecord begin data recordSize).map fun r => ({ rc := r.1.1, rid := r.1.2 }, r.2)
  | .deleteRecord rid, s => some ({ rc := (s.deleteRecord rid).1 }, (s.deleteRecord rid).2)
  | .getRecord rid, s =>
    some ({ rc := (s.getRecord rid).1.1, data := (s.getRecord rid).1.2 }, (s.getRecord rid).2)
  | .cleanup p, s => some ({ rc := .success }, s.cleanup p)

def run (recordSize : ℕ) :
    List RecordCall → RecordFileHandler → Option (List RecordResult × RecordFileHandler)
  | [], s => some ([], s)
  | c :: cs, s =>
    match call recordSize c s with
    | none => none
    | some (r, s) => (run recordSize cs s).map fun rest => (r :: rest.1, rest.2)

/-- The calls under consideration: bytes of the record size, allocations that succeed, and RIDs of
slots that an allocated page has. -/
def Allowed (recordSize : ℕ) : RecordCall → RecordFileHandler → Prop
  | .insertRecord begin data, s => data.length = recordSize ∧ s.AllocationSucceeds begin
  | .deleteRecord rid, s =>
    s.IsRecordPage rid.pageNum ∧ rid.slotNum < (PageHeader.empty recordSize).recordCapacity
  | .getRecord rid, s =>
    s.IsRecordPage rid.pageNum ∧ rid.slotNum < (PageHeader.empty recordSize).recordCapacity
  | .cleanup _, _ => True

def Legal (recordSize : ℕ) : List RecordCall → RecordFileHandler → Prop
  | [], _ => True
  | c :: cs, s =>
    Allowed recordSize c s ∧ ∀ r s', call recordSize c s = some (r, s') → Legal recordSize cs s'

variable {recordSize : ℕ} {s : RecordFileHandler}

/-- The map is finite: it is defined only on slots of pages of the file. -/
theorem finite_records (hi : Inv recordSize s) : {rid | s.records rid ≠ none}.Finite := by
  have hpairs : ((fun both : ℕ × ℕ => RID.mk both.1 both.2) ''
      ({p | p < s.fileBufferPool.fileHeader.pageCount} ×ˢ
        {i | i < (PageHeader.empty recordSize).recordCapacity})).Finite :=
    ((Set.finite_lt_nat _).prod (Set.finite_lt_nat _)).image _
  apply hpairs.subset
  rintro ⟨p, i⟩ hrid
  have hp : s.IsRecordPage p := by
    by_contra hp
    exact hrid (if_neg hp)
  obtain ⟨page, hpage, hwf⟩ := hi.pages p hp
  have hrecord : s.records ⟨p, i⟩ = page.slot i := records_eq hp hpage
  have hslot : page.slot i ≠ none := by
    rw [← hrecord]
    exact hrid
  have hlt : i < page.header.recordCapacity := by
    by_contra hlt
    exact hslot (if_neg fun hc => hlt hc.1)
  refine ⟨(p, i), ⟨hi.header.lt_pageCount hp.2, ?_⟩, rfl⟩
  rw [← hwf.recordCapacity]
  exact hlt

theorem call_refines {c : RecordCall}
    (hcap : 0 < (PageHeader.empty recordSize).recordCapacity) (hi : Inv recordSize s)
    (hallowed : Allowed recordSize c s) :
    ∃ r s', call recordSize c s = some (r, s') ∧ RecordMap.Step s.records c r s'.records ∧
      Inv recordSize s' := by
  cases c with
  | insertRecord begin data =>
    obtain ⟨rid, s', heq, -, -, hfresh, hchanges⟩ :=
      insertRecord_spec begin hcap hi hallowed.1 hallowed.2
    refine ⟨{ rc := .success, rid := some rid }, s', ?_, ?_, hchanges.inv⟩
    · rw [call, heq]
      rfl
    · rw [hchanges.records]
      exact .insert hfresh
  | deleteRecord rid =>
    obtain ⟨hchanges, -, hrc⟩ := deleteRecord_spec hi hallowed.1 hallowed.2
    refine ⟨_, _, rfl, ?_, hchanges.inv⟩
    rw [hrc, hchanges.records]
    cases hrecord : s.records rid with
    | none =>
      have hsame : Function.update s.records rid none = s.records := by
        rw [← hrecord]
        exact Function.update_eq_self rid s.records
      rw [hsame]
      exact .deleteMissing hrecord
    | some data => exact .delete hrecord
  | getRecord rid =>
    obtain ⟨hsame, hfree, hget⟩ := getRecord_spec hi hallowed.1 hallowed.2
    refine ⟨_, _, rfl, ?_, hi.samePages hsame hfree⟩
    rw [hget, hsame.records]
    cases hrecord : s.records rid with
    | none => exact .getMissing hrecord
    | some data => exact .get hrecord
  | cleanup p =>
    have hsame := samePages_cleanup s p
    refine ⟨_, _, rfl, ?_, hi.samePages hsame rfl⟩
    rw [hsame.records]
    exact .cleanup

theorem run_refines {cs : List RecordCall}
    (hcap : 0 < (PageHeader.empty recordSize).recordCapacity) (hi : Inv recordSize s)
    (hlegal : Legal recordSize cs s) :
    ∃ rs s', run recordSize cs s = some (rs, s') ∧ RecordMap.Run s.records cs rs s'.records ∧
      Inv recordSize s' := by
  induction cs generalizing s with
  | nil => exact ⟨[], s, rfl, .nil, hi⟩
  | cons c cs ih =>
    obtain ⟨r, s₁, hcall, hstep, hi₁⟩ := call_refines hcap hi hlegal.1
    obtain ⟨rs, s', hrun, hruns, hi'⟩ := ih hi₁ (hlegal.2 r s₁ hcall)
    refine ⟨r :: rs, s', ?_, .cons hstep hruns, hi'⟩
    rw [run, hcall]
    dsimp only
    rw [hrun]
    rfl

/-- A record file behaves as a finite map from RIDs to bytes, and after every call each page
counts its set bits and `free_pages_` holds the pages that are not full. -/
theorem recordFileHandler_refines_map (recordSize : ℕ)
    (hcap : 0 < (PageHeader.empty recordSize).recordCapacity) (bp : FileBufferPool RecordPage)
    (hfile : IsRecordFile recordSize bp) (calls : List RecordCall)
    (hlegal : Legal recordSize calls (init bp).2) :
    ∃ results s', run recordSize calls (init bp).2 = some (results, s') ∧
      RecordMap.Run (init bp).2.records calls results s'.records ∧
      {rid | s'.records rid ≠ none}.Finite ∧
      (∀ p, s'.IsRecordPage p → ∃ page, s'.pageAt p = some page ∧
        page.header.recordNum =
          ByteBits.popcount (ByteBits.bit page.bitmap) page.header.recordCapacity ∧
        (page.isFull = false → p ∈ s'.freePages)) := by
  obtain ⟨results, s', hrun, hruns, hi⟩ := run_refines hcap (inv_init hfile).1 hlegal
  refine ⟨results, s', hrun, hruns, finite_records hi, fun p hp => ?_⟩
  obtain ⟨page, hpage, hwf⟩ := hi.pages p hp
  exact ⟨page, hpage, hwf.recordNum, hi.free p page hp hpage⟩

theorem isRecordFile_created (recordSize : ℕ) (hdr : RecordPage) :
    IsRecordFile recordSize (DataFile.created hdr).pool where
  header := FileHeaderBytes.consistent_created
  pages p hp hbit := by
    have hlt := FileHeaderBytes.consistent_created.lt_pageCount hbit
    change p < 1 at hlt
    omega

theorem records_created {recordSize : ℕ} (hdr : RecordPage) (rid : RID) :
    (init (DataFile.created hdr).pool).2.records rid = none := by
  rw [(inv_init (isRecordFile_created recordSize hdr)).2.records]
  apply if_neg
  rintro ⟨hpos, hbit⟩
  have hlt := FileHeaderBytes.consistent_created.lt_pageCount hbit
  change rid.pageNum < 1 at hlt
  omega

def lowestBegin : Begin where
  pick pages := if h : pages.Nonempty then pages.min' h else 0
  pick_mem pages h := by
    rw [dif_pos h]
    exact pages.min'_mem h

/-- A record of four bytes goes to a new file, and is read back from page 1, slot 0. -/
theorem recordFileHandler_created :
    let bp := (DataFile.created (PageData.cleared : RecordPage)).pool
    let calls : List RecordCall :=
      [.insertRecord lowestBegin [1#8, 2#8, 3#8, 4#8], .getRecord ⟨1, 0⟩]
    ∃ results s', run 4 calls (init bp).2 = some (results, s') ∧
      RecordMap.Run (init bp).2.records calls results s'.records := by
  intro bp calls
  have hbit : (call 4 (.insertRecord lowestBegin [1#8, 2#8, 3#8, 4#8]) (init bp).2).map
      (fun r => r.2.fileBufferPool.fileHeader.bitmap 1) = some true := by
    decide +kernel
  have hlegal : Legal 4 calls (init bp).2 := by
    refine ⟨⟨rfl, fun _ => by decide +kernel⟩, fun r s' h => ⟨?_, fun _ _ _ => trivial⟩⟩
    rw [h] at hbit
    exact ⟨⟨by decide, Option.some.inj hbit⟩, by decide⟩
  obtain ⟨results, s', hrun, hruns, -⟩ := recordFileHandler_refines_map 4 (by decide) bp
    (isRecordFile_created 4 _) calls hlegal
  exact ⟨results, s', hrun, hruns⟩

end RecordFileHandler

end TDB.Recorder
