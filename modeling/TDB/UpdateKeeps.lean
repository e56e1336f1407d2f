import TDB.UpdateOperator

namespace TDB.Recorder

open RecordFileHandler RecordFileScanner

/-! ## What an `UPDATE` keeps of every record -/

section Keeps

variable {s s' : RecordFileHandler} {sc sc' : RecordFileScanner} {recordSize : ℕ}
  {filter : List (BitVec 8) → Except Failure Bool}

/-- Whatever the filter says, a scan only moves on, to a record that is there. -/
theorem tableScanNext_keeps {n : ℕ} {result : Except Failure (Option RID)}
    (hi : Inv recordSize s) (h : Scanning s sc)
    (heq : tableScanNext filter n s sc = some (result, s', sc')) :
    SamePages s s' ∧ Inv recordSize s' ∧ Scanning s' sc' ∧
    ∀ rid, result = .ok (some rid) →
      s.records rid ≠ none ∧ ∀ x ∈ remaining s' sc', rid.Before x := by
  induction n generalizing s sc with
  | zero => cases heq
  | succ n ih =>
    rw [tableScanNext] at heq
    cases hnext : sc.nextRecord with
    | none =>
      have hhas : sc.hasNext = false := by rw [hasNext, hnext]; rfl
      rw [hhas] at heq
      cases heq
      exact ⟨SamePages.refl _, hi, h, fun rid hrid => (by cases hrid)⟩
    | some rid =>
      have hhas : sc.hasNext = true := by rw [hasNext, hnext]; rfl
      obtain ⟨hres, hadv⟩ := advances_next hi h hnext
      generalize hr : RecordFileScanner.next .vacuousTrx s sc = r at hres hadv heq
      obtain ⟨⟨rc, rid'⟩, s₁, sc₁⟩ := r
      obtain ⟨rfl, rfl⟩ := Prod.mk.inj hres
      dsimp only at hadv
      rw [hhas] at heq
      dsimp only at heq
      rw [if_neg (by decide)] at heq
      cases hfilter : filter (s₁.recordData rid) with
      | error e =>
        rw [hfilter] at heq
        cases heq
        exact ⟨hadv.same, hadv.inv, hadv.scanning, fun rid hrid => (by cases hrid)⟩
      | ok b =>
        rw [hfilter] at heq
        cases b with
        | true =>
          cases heq
          refine ⟨hadv.same, hadv.inv, hadv.scanning, ?_⟩
          rintro rid' ⟨⟩
          exact ⟨h.live rid hnext, hadv.before⟩
        | false =>
          obtain ⟨hsame, hi', hscanning, hfound⟩ := ih hadv.inv hadv.scanning heq
          refine ⟨hadv.same.trans hsame, hi', hscanning, ?_⟩
          intro x hx
          rw [← hadv.same.records]
          exact hfound x hx

variable {lib : StdLib} {getString : Value → List UInt8} {table : TableMeta}
  {units : List UpdateUnit} {P : List (BitVec 8) → Prop}

/-- A property of records that each new record takes over from the old one stays with all
records. -/
theorem updateNext_keeps {n : ℕ} {choices : ℕ → UpdateChoice} {result : Except Failure RC}
    (hlayout : table.Layout)
    (hnew : ∀ old unspecified new, P old → makeRecord lib getString .vacuous table unspecified
      (List.zipWith (updateValue units) (table.columns .vacuous) (table.row .vacuous old)) =
        .ok new → P new)
    (hi : Inv table.recordSize s) (h : Scanning s sc)
    (hP : ∀ rid data, s.records rid = some data → P data)
    (heq : updateNext lib getString table filter units n choices s sc = some (result, s', sc')) :
    Inv table.recordSize s' ∧ ∀ rid data, s'.records rid = some data → P data := by
  induction n generalizing s sc choices with
  | zero => cases heq
  | succ n ih =>
    rw [updateNext] at heq
    cases hscan : tableScanNext filter (n + 1) s sc with
    | none =>
      rw [hscan] at heq
      cases heq
    | some r =>
      obtain ⟨found, s₁, sc₁⟩ := r
      obtain ⟨hsame, hi₁, hscanning, hfound⟩ := tableScanNext_keeps hi h hscan
      have hP₁ : ∀ rid data, s₁.records rid = some data → P data := by
        rw [hsame.records]
        exact hP
      rw [hscan] at heq
      cases found with
      | error f =>
        cases f <;> cases heq <;> exact ⟨hi₁, hP₁⟩
      | ok found =>
        cases found with
        | none =>
          cases heq
          exact ⟨hi₁, hP₁⟩
        | some rid =>
          obtain ⟨hlive, hbefore⟩ := hfound rid rfl
          -- an update deletes the old record before it makes the new one
          have hold : s.records rid = some (s.recordData rid) := hi.records_of_live hlive
          have hlive₁ : s₁.records rid ≠ none := by
            rw [hsame.records]
            exact hlive
          have hp₁ := (hi₁.live_iff.mp hlive₁).1
          have hslot := slotNum_lt hi₁ hlive₁
          obtain ⟨hrc, hdelete, hheader, hscanning₂, -⟩ :=
            deleteRecord_scanning hi₁ hscanning hlive₁ hbefore
          dsimp only at heq
          rw [hsame.recordData] at heq
          generalize s₁.deleteRecord rid = r at hrc hdelete hheader hscanning₂ heq
          obtain ⟨rc, s₂⟩ := r
          dsimp only at hrc hdelete hheader hscanning₂ heq
          subst hrc
          have hP₂ : ∀ x data, s₂.records x = some data → P data := by
            rw [hdelete.records]
            exact records_delete hP₁
          have hp₂ : s₂.IsRecordPage rid.pageNum := by
            rw [IsRecordPage, hheader]
            exact hp₁
          rw [if_neg (by decide)] at heq
          -- a row that cannot be made stays deleted
          cases hmake : makeRecord lib getString .vacuous table (choices 0).unspecified
              (List.zipWith (updateValue units) (table.columns .vacuous)
                (table.row .vacuous (s.recordData rid))) with
          | error f =>
            rw [hmake] at heq
            cases f <;> cases heq <;> exact ⟨hdelete.inv, hP₂⟩
          | ok new =>
            obtain ⟨hlength, -⟩ := makeRecord_cells hlayout hmake
            obtain ⟨rid', s₃, hinsert, -, hchanges, hheader₃⟩ := insertRecord_of_free
              (choices 0).begin hdelete.inv hlength hp₂ hslot
              (by rw [hdelete.records, Function.update_self])
            rw [hmake] at heq
            dsimp only at heq
            rw [hinsert] at heq
            dsimp only at heq
            rw [if_neg (by decide)] at heq
            have hscanning₃ : Scanning s₃ sc₁ :=
              hscanning₂.inserts hdelete.inv hchanges.inv hheader₃ hchanges.records
            refine ih hchanges.inv hscanning₃ ?_ heq
            rw [hchanges.records]
            exact records_insert hP₂ (hnew _ _ _ (hP rid _ hold) hmake)

theorem runUpdate_keeps {textPath : List UInt8 → List UInt8} {n : ℕ} {choices : ℕ → UpdateChoice}
    {result : Except Failure RC} (hlayout : table.Layout)
    (hnew : ∀ units', openUnits textPath table units = .ok units' →
      ∀ old unspecified new, P old → makeRecord lib getString .vacuous table unspecified
        (List.zipWith (updateValue units') (table.columns .vacuous) (table.row .vacuous old)) =
          .ok new → P new)
    (hi : Inv table.recordSize s) (hP : ∀ rid data, s.records rid = some data → P data)
    (heq : runUpdate lib getString table filter units textPath n choices s = some (result, s')) :
    Inv table.recordSize s' ∧ ∀ rid data, s'.records rid = some data → P data := by
  obtain ⟨hrc, hsame, hfree, hscanning, -⟩ := openScan_spec hi
  unfold runUpdate at heq
  generalize openScan .vacuousTrx s = r at hrc hsame hfree hscanning heq
  obtain ⟨rc, s₁, sc₁⟩ := r
  dsimp only at hrc hsame hfree hscanning heq
  subst hrc
  have hi₁ := hi.samePages hsame hfree
  have hP₁ : ∀ rid data, s₁.records rid = some data → P data := by
    rw [hsame.records]
    exact hP
  rw [if_neg (by decide)] at heq
  cases hunits : openUnits textPath table units with
  | error f =>
    rw [hunits] at heq
    cases heq
    exact ⟨hi₁, hP₁⟩
  | ok units' =>
    rw [hunits] at heq
    obtain ⟨⟨result', s₂, sc₂⟩, hnext, heq⟩ := Option.map_eq_some_iff.mp heq
    obtain ⟨hi₂, hP₂⟩ :=
      updateNext_keeps hlayout (hnew units' hunits) hi₁ hscanning hP₁ hnext
    obtain ⟨hclean, hcleanFree, -⟩ := cleanup_spec s₂ sc₂
    cases heq
    refine ⟨hi₂.samePages hclean hcleanFree, ?_⟩
    rw [hclean.records]
    exact hP₂

end Keeps

end TDB.Recorder
