import TDB.StoredDates

namespace TDB.Recorder

open RecordFileHandler RecordFileScanner

/-! ## What the statements mean -/

inductive RowStatement where
  | insert (rows : Multiset (List Value))
  | delete (passes : List Value → Bool)
  | update (passes : List Value → Bool) (assign : List Value → List Value)

def RowStatement.apply : RowStatement → Multiset (List Value) → Multiset (List Value)
  | .insert new, rows => rows + new
  | .delete passes, rows => rows.filter fun row => passes row = false
  | .update passes assign, rows => rows.map fun row => if passes row then assign row else row

/-! ## The statements on a file -/

/-- A statement behind its parser; `filter` is what its `WHERE` clause says of the bytes of a
record. -/
inductive TableStatement where
  | insert (view : Option TableMeta) (rows : List (List Literal))
  | delete (filter : List (BitVec 8) → Except Failure Bool)
  | update (filter : List (BitVec 8) → Except Failure Bool) (units : List UpdateUnit)

section

variable (lib : StdLib) (getString : Value → List UInt8) (textPath : List UInt8 → List UInt8)
  (table : TableMeta)

/-- The statement runs to its end, whatever bound its loops have. -/
inductive Executes : TableStatement → RecordFileHandler → RecordFileHandler → Prop where
  | insert {view rows choices s s'}
      (h : runInsert lib getString textPath table view rows choices s = (.ok .success, s')) :
      Executes (.insert view rows) s s'
  | delete {filter bound s s'}
      (h : ∀ n > bound, runDelete filter n s = some (.ok .recordEof, s')) :
      Executes (.delete filter) s s'
  | update {filter units bound choices s s'}
      (h : ∀ n > bound, runUpdate lib getString table filter units textPath n choices s =
        some (.ok .recordEof, s')) :
      Executes (.update filter units) s s'

/-- The clause of a statement can be told from the columns of a row. -/
def Decides (filter : List (BitVec 8) → Except Failure Bool) (passes : List Value → Bool) : Prop :=
  ∀ data, table.IsRecord lib getString data →
    filter data = .ok (passes (table.row .vacuous data))

def storedRows (multiValues : List (List Value)) : Multiset (List Value) :=
  (multiValues.map (List.zipWith (storedValue lib getString) (table.columns .vacuous)) :
    List (List Value))

inductive Means : TableStatement → RowStatement → Prop where
  | insert {view rows multiValues}
      (h : createInsert textPath table view (rows.map fun row => row.map Literal.value) =
        .ok multiValues) :
      Means (.insert view rows) (.insert (storedRows lib getString table multiValues))
  | delete {filter passes} (h : Decides lib getString table filter passes) :
      Means (.delete filter) (.delete passes)
  | update {filter passes units} (h : Decides lib getString table filter passes)
      (hunits : ∀ unit ∈ units, unit.OfColumnType table) :
      Means (.update filter units) (.update passes (updatedRow lib getString textPath table units))

end

/-! ## The rows of a table -/

variable {lib : StdLib} {getString : Value → List UInt8} {textPath : List UInt8 → List UInt8}
  {table : TableMeta} {s s' : RecordFileHandler} {recordSize : ℕ}

def tableRows (table : TableMeta) (s : RecordFileHandler) : Multiset (List Value) :=
  s.tableRecords.map (table.row .vacuous)

theorem tableRows_eq (table : TableMeta) (s : RecordFileHandler) :
    tableRows table s = s.contributions fun _ data => table.row .vacuous data :=
  map_tableRecords s _

structure HoldsTable (lib : StdLib) (getString : Value → List UInt8) (table : TableMeta)
    (s : RecordFileHandler) : Prop where
  inv : Inv table.recordSize s
  isRecord : ∀ rid data, s.records rid = some data → table.IsRecord lib getString data

/-! ### `INSERT` -/

theorem insertRecord_success {begin : Begin} {data : List (BitVec 8)} {bound : Option RID}
    (hcap : 0 < (PageHeader.empty recordSize).recordCapacity) (hi : Inv recordSize s)
    (hdata : data.length = recordSize)
    (h : s.insertRecord begin data recordSize = some ((.success, bound), s')) :
    ∃ rid, s.records rid = none ∧ Changes recordSize s s' rid (some data) := by
  have halloc : s.AllocationSucceeds begin := by
    intro hnone
    by_contra hfail
    have hadd : ((findPage begin s.freePages.card s).2.addPage recordSize).1.1 =
        (findPage begin s.freePages.card s).2.fileBufferPool.allocatePage.1.1 := by
      unfold addPage
      simp only [RC.fail, bne_iff_ne, ne_eq, hfail, not_false_eq_true, if_true]
    obtain ⟨found, s₁, heq, -⟩ := findPage_spec begin hi le_rfl
    rw [heq] at hnone hfail hadd
    dsimp only at hnone hfail hadd
    subst hnone
    rw [← hadd] at hfail
    unfold insertRecord at h
    rw [heq] at h
    dsimp only at h
    rw [if_neg (by decide), if_pos (by simpa [RC.fail] using hfail)] at h
    exact hfail (congrArg (fun r => r.1.1) (Option.some.inj h))
  obtain ⟨rid, s'', heq, -, -, hfree, hchanges⟩ := insertRecord_spec begin hcap hi hdata halloc
  rw [heq] at h
  obtain rfl : s'' = s' := congrArg Prod.snd (Option.some.inj h)
  exact ⟨rid, hfree, hchanges⟩

theorem tableRows_insert {rid : RID} {data : List (BitVec 8)} (hi : Inv table.recordSize s)
    (hfree : s.records rid = none) (hchanges : Changes table.recordSize s s' rid (some data)) :
    tableRows table s' = table.row .vacuous data ::ₘ tableRows table s := by
  have hset : s'.liveSet = insert rid s.liveSet := by
    ext x
    rw [hchanges.inv.mem_liveSet, hchanges.records, Finset.mem_insert, hi.mem_liveSet]
    by_cases hx : x = rid
    · rw [hx, Function.update_self]
      simp
    · rw [Function.update_of_ne hx]
      simp [hx]
  have hnot : rid ∉ s.liveSet := fun hmem => hi.mem_liveSet.mp hmem hfree
  have hnew : s'.recordData rid = data := by
    have hrid : s'.records rid = some data := by
      rw [hchanges.records, Function.update_self]
    have hlive := hchanges.inv.records_of_live (by rw [hrid]; exact Option.some_ne_none _)
    exact Option.some.inj (hlive.symm.trans hrid)
  have hrest : s.liveSet.val.map (fun x => table.row .vacuous (s'.recordData x)) =
      s.liveSet.val.map fun x => table.row .vacuous (s.recordData x) := by
    apply Multiset.map_congr rfl
    intro x hx
    have hlive := hi.mem_liveSet.mp (Finset.mem_val.mp hx)
    have hne : x ≠ rid := by
      rintro rfl
      exact hlive hfree
    have hsame : s'.records x = s.records x := by
      rw [hchanges.records, Function.update_of_ne hne]
    rw [recordData_congr hi hchanges.inv hlive hsame]
  rw [tableRows_eq, tableRows_eq]
  unfold contributions
  rw [hset, Finset.insert_val_of_notMem hnot, Multiset.map_cons, hnew, hrest]

theorem ne_success_of_checkValues {fields : List FieldMeta} {values : List Value} {f : Failure}
    (h : checkValues fields values = .error f) : f ≠ .code .success := by
  induction fields, values using checkValues.induct with
  | case1 field fields value values ih =>
    rw [checkValues] at h
    rcases Expression.of_bind_error h with h | ⟨-, -, h⟩
    · unfold checkValue at h
      split_ifs at h
      · cases h
        decide
      · split at h <;> cases h <;> decide
    · exact ih h
  | case2 fields values hne =>
    rw [checkValues] at h
    · cases h
    · exact hne

theorem ne_success_of_changeRecordValues {unspecified : Unspecified} {idx : ℕ}
    {fields : List FieldMeta} {values : List Value} {record : ℕ → BitVec 8} {f : Failure}
    (h : changeRecordValues lib getString table unspecified idx fields values record = .error f) :
    f ≠ .code .success := by
  induction fields generalizing idx values record with
  | nil =>
    rw [changeRecordValues] at h
    · cases h
    · intro field fields value values hfields
      cases hfields
  | cons field fields ih =>
    cases values with
    | nil =>
      rw [changeRecordValues] at h
      · cases h
      · intro field fields value values hfields hvalues
        cases hvalues
    | cons value values =>
      rw [changeRecordValues] at h
      rcases Expression.of_bind_error h with h | ⟨record', -, h⟩
      · unfold changeRecordValue at h
        dsimp only at h
        split_ifs at h
        cases h
        decide
      · exact ih h

theorem ne_success_of_makeRecord {unspecified : Unspecified} {values : List Value} {f : Failure}
    (h : makeRecord lib getString .vacuous table unspecified values = .error f) :
    f ≠ .code .success := by
  unfold makeRecord at h
  split_ifs at h
  · cases h
    decide
  · rcases Expression.of_bind_error h with h | ⟨-, -, h⟩
    · exact ne_success_of_checkValues h
    · rcases Expression.of_bind_error h with h | ⟨record, -, h⟩
      · exact ne_success_of_changeRecordValues h
      · cases h

theorem insertOpen_rows {choices : ℕ → Begin × Unspecified} {multiValues : List (List Value)}
    (hlayout : table.Layout) (hsupported : ∀ f ∈ table.columns .vacuous, f.Supported)
    (hcap : 0 < (PageHeader.empty table.recordSize).recordCapacity)
    (h : HoldsTable lib getString table s)
    (heq : insertOpen lib getString table choices multiValues s = (.ok .success, s')) :
    HoldsTable lib getString table s' ∧
      tableRows table s' = tableRows table s + storedRows lib getString table multiValues := by
  -- on the rows still to insert
  induction multiValues generalizing choices s with
  | nil =>
    cases heq
    exact ⟨h, by simp [storedRows]⟩
  | cons values multiValues ih =>
    rw [insertOpen] at heq
    cases hmake : makeRecord lib getString .vacuous table (choices 0).2 values with
    | error f =>
      have hne := ne_success_of_makeRecord hmake
      rw [hmake] at heq
      cases f with
      | code rc =>
        have hrc : rc = .success := Except.ok.inj (congrArg Prod.fst heq)
        exact absurd (congrArg Failure.code hrc) hne
      | _ => cases heq
    | ok record =>
      rw [hmake] at heq
      dsimp only at heq
      cases hinsert : s.insertRecord (choices 0).1 record table.recordSize with
      | none =>
        rw [hinsert] at heq
        cases heq
      | some r =>
        obtain ⟨⟨rc, bound⟩, s₁⟩ := r
        rw [hinsert] at heq
        dsimp only at heq
        cases hrc : rc.fail with
        | true =>
          rw [hrc, if_pos rfl] at heq
          cases heq
          cases hrc
        | false =>
          rw [hrc, if_neg Bool.false_ne_true] at heq
          obtain rfl : rc = .success := by simpa [RC.fail] using hrc
          obtain ⟨hlength, -, hrow, -⟩ := makeRecord_spec hlayout hsupported hmake
          obtain ⟨rid, hfree, hchanges⟩ := insertRecord_success hcap h.inv hlength hinsert
          have hholds : HoldsTable lib getString table s₁ := by
            refine ⟨hchanges.inv, ?_⟩
            rw [hchanges.records]
            exact records_insert h.isRecord ⟨_, _, hmake⟩
          obtain ⟨hholds', hrows⟩ := ih hholds heq
          refine ⟨hholds', ?_⟩
          rw [hrows, tableRows_insert h.inv hfree hchanges, hrow, storedRows, storedRows,
            List.map_cons, ← Multiset.cons_coe, Multiset.cons_add, Multiset.add_cons]

/-! ### `DELETE` -/

/-- A `DELETE` ends, and what it leaves is a file of the other records. -/
theorem runDelete_holds {filter : List (BitVec 8) → Except Failure Bool} {n : ℕ}
    (h : HoldsTable lib getString table s)
    (hfilter : ∀ data, table.IsRecord lib getString data → ∃ b, filter data = .ok b)
    (hn : s.fileBufferPool.fileHeader.pageCount *
      (PageHeader.empty table.recordSize).recordCapacity < n) :
    ∃ s', runDelete filter n s = some (.ok .recordEof, s') ∧ HoldsTable lib getString table s' ∧
      ∀ rid data, s'.records rid = some data ↔
        s.records rid = some data ∧ filter data = .ok false := by
  have hi := h.inv
  obtain ⟨s', hrun, hrecords⟩ := runDelete_spec hi
    (fun rid data hrid => hfilter data (h.isRecord rid data hrid)) hn
  refine ⟨s', hrun, ⟨?_, ?_⟩, hrecords⟩
  · obtain ⟨hrc, hsame, hfree, hscanning, hremaining⟩ := openScan_spec hi
    unfold runDelete at hrun
    generalize openScan .vacuousTrx s = r at *
    obtain ⟨rc, s₁, sc₁⟩ := r
    dsimp only at *
    subst hrc
    have hi₁ := hi.samePages hsame hfree
    have hleft : slotsLeft table.recordSize s₁ sc₁ < n := by
      have hle := slotsLeft_le table.recordSize s₁ sc₁
      rw [hsame.fileHeader] at hle
      omega
    have hvalues : ∀ rid ∈ remaining s₁ sc₁, ∃ b, filter (s₁.recordData rid) = .ok b := by
      intro rid hrid
      rw [hremaining] at hrid
      have hlive := hi.mem_live.mp hrid
      rw [hsame.recordData]
      exact hfilter _ (h.isRecord rid _ (hi.records_of_live hlive))
    obtain ⟨s₂, sc₂, hnext, hi₂, -⟩ := deleteNext_spec hi₁ hscanning hvalues hleft
    obtain ⟨hclean, hcleanFree, -⟩ := cleanup_spec s₂ sc₂
    rw [if_neg (by decide), hnext] at hrun
    obtain rfl : (RecordFileScanner.cleanup s₂ sc₂).1 = s' :=
      congrArg Prod.snd (Option.some.inj hrun)
    exact hi₂.samePages hclean hcleanFree
  · intro rid data hrid
    exact h.isRecord rid data ((hrecords rid data).mp hrid).1

theorem tableRows_delete {filter : List (BitVec 8) → Except Failure Bool}
    {passes : List Value → Bool} (h : HoldsTable lib getString table s)
    (h' : HoldsTable lib getString table s') (hdecides : Decides lib getString table filter passes)
    (hrecords : ∀ rid data, s'.records rid = some data ↔
      s.records rid = some data ∧ filter data = .ok false) :
    tableRows table s' = (tableRows table s).filter fun row => passes row = false := by
  have hpasses : ∀ rid data, s.records rid = some data →
      (filter data = .ok false ↔ passes (table.row .vacuous data) = false) := by
    intro rid data hrid
    rw [hdecides data (h.isRecord rid data hrid)]
    exact ⟨Except.ok.inj, congrArg Except.ok⟩
  have hset : s'.liveSet = s.liveSet.filter fun rid =>
      passes (table.row .vacuous (s.recordData rid)) = false := by
    ext rid
    rw [h'.inv.mem_liveSet, Finset.mem_filter, h.inv.mem_liveSet, Option.ne_none_iff_exists',
      Option.ne_none_iff_exists']
    constructor
    · rintro ⟨data, hrid⟩
      obtain ⟨hold, hfalse⟩ := (hrecords rid data).mp hrid
      have hdata := h.inv.records_of_live (by rw [hold]; exact Option.some_ne_none _)
      obtain rfl := Option.some.inj (hold.symm.trans hdata)
      exact ⟨⟨_, hold⟩, (hpasses rid _ hold).mp hfalse⟩
    · rintro ⟨⟨data, hold⟩, hfalse⟩
      have hdata := h.inv.records_of_live (by rw [hold]; exact Option.some_ne_none _)
      obtain rfl := Option.some.inj (hold.symm.trans hdata)
      exact ⟨_, (hrecords rid _).mpr ⟨hold, (hpasses rid _ hold).mpr hfalse⟩⟩
  have hrest : (s'.liveSet.val.map fun rid => table.row .vacuous (s'.recordData rid)) =
      s'.liveSet.val.map fun rid => table.row .vacuous (s.recordData rid) := by
    apply Multiset.map_congr rfl
    intro rid hrid
    have hlive' := h'.inv.mem_liveSet.mp (Finset.mem_val.mp hrid)
    obtain ⟨data, hdata⟩ := Option.ne_none_iff_exists'.mp hlive'
    have hold := ((hrecords rid data).mp hdata).1
    have hlive : s.records rid ≠ none := by
      rw [hold]
      exact Option.some_ne_none _
    rw [recordData_congr h.inv h'.inv hlive (hdata.trans hold.symm)]
  rw [tableRows_eq, tableRows_eq]
  unfold contributions
  rw [hrest, hset, Finset.filter_val, Multiset.filter_map]
  rfl

/-! ### `UPDATE` -/

/-- An `UPDATE` ends, and it changes the rows that its clause picks. -/
theorem runUpdate_holds {filter : List (BitVec 8) → Except Failure Bool}
    {passes : List Value → Bool} {units : List UpdateUnit} {n : ℕ} {choices : ℕ → UpdateChoice}
    (hlayout : table.Layout) (hsupported : ∀ f ∈ table.columns .vacuous, f.Supported)
    (h : HoldsTable lib getString table s) (hdecides : Decides lib getString table filter passes)
    (hunits : ∀ unit ∈ units, unit.OfColumnType table)
    (hn : s.fileBufferPool.fileHeader.pageCount *
      (PageHeader.empty table.recordSize).recordCapacity < n) :
    ∃ s', runUpdate lib getString table filter units textPath n choices s =
        some (.ok .recordEof, s') ∧ HoldsTable lib getString table s' ∧
      tableRows table s' = (tableRows table s).map fun row =>
        if passes row then updatedRow lib getString textPath table units row else row := by
  have hi := h.inv
  obtain ⟨units', hopen, hopened⟩ := @openUnits_ok textPath table units hunits
  obtain ⟨hrc, hsame, hfree, hscanning, hremaining⟩ := openScan_spec hi
  have hopenScan : ∃ s₁ sc₁, openScan .vacuousTrx s = (.success, s₁, sc₁) ∧ SamePages s s₁ ∧
      s₁.freePages = s.freePages ∧ Scanning s₁ sc₁ ∧
      remaining s₁ sc₁ = s.liveFrom 1 s.fileBufferPool.fileHeader.pageCount :=
    ⟨_, _, Prod.ext hrc rfl, hsame, hfree, hscanning, hremaining⟩
  obtain ⟨s₁, sc₁, hstart, hsame, hfree, hscanning, hremaining⟩ := hopenScan
  have hi₁ := hi.samePages hsame hfree
  have hleft : slotsLeft table.recordSize s₁ sc₁ < n := by
    have hle := slotsLeft_le table.recordSize s₁ sc₁
    rw [hsame.fileHeader] at hle
    omega
  obtain ⟨s₂, sc₂, hnext, hi₂, hresult⟩ := @updateNext_spec lib getString textPath table s₁ sc₁
    filter units units' hlayout hsupported hopened (fun data hdata => ⟨_, hdecides data hdata⟩) n
    choices hi₁ hscanning (fun rid data hrid => h.isRecord rid data (hsame.records ▸ hrid)) hleft
  obtain ⟨hclean, hcleanFree, -⟩ := cleanup_spec s₂ sc₂
  have hrun : runUpdate lib getString table filter units textPath n choices s =
      some (.ok .recordEof, (RecordFileScanner.cleanup s₂ sc₂).1) := by
    unfold runUpdate
    rw [hstart]
    dsimp only
    rw [if_neg (by decide), hopen]
    dsimp only
    rw [hnext]
    rfl
  obtain ⟨hinv, hrecords⟩ := runUpdate_keeps hlayout
    (fun _ _ _ unspecified new _ hmake => ⟨unspecified, _, hmake⟩) hi h.isRecord hrun
  refine ⟨_, hrun, ⟨hinv, hrecords⟩, ?_⟩
  rw [tableRows, map_tableRecords, contributions_congr hi₂ (hi₂.samePages hclean hcleanFree)
    hclean.records fun _ _ _ => rfl, hresult, tableRows, Multiset.map_map, map_tableRecords]
  apply contributions_congr hi hi₁ hsame.records
  intro rid data hrid
  have hmem : rid ∈ remaining s₁ sc₁ := by
    rw [hremaining]
    exact hi.mem_live.mpr (by rw [hrid]; exact Option.some_ne_none _)
  have hun := ((mem_remaining hi₁ hscanning).mp hmem).2
  unfold finalRow
  rw [hdecides data (h.isRecord rid data hrid), Function.comp_apply]
  cases passes (table.row .vacuous data) with
  | true => rw [if_pos ⟨hun, rfl⟩, if_pos rfl]
  | false => rw [if_neg (fun hc => by cases hc.2), if_neg Bool.false_ne_true]

/-! ## A larger bound changes nothing -/

section Bounds

variable {filter : List (BitVec 8) → Except Failure Bool} {n m : ℕ} {sc : RecordFileScanner}

theorem tableScanNext_succ {r : Except Failure (Option RID) × RecordFileHandler × RecordFileScanner}
    (h : tableScanNext filter n s sc = some r) : tableScanNext filter (n + 1) s sc = some r := by
  induction n generalizing s sc with
  | zero => cases h
  | succ n ih =>
    rw [tableScanNext] at h ⊢
    cases hnext : RecordFileScanner.next .vacuousTrx s sc with
    | mk found rest =>
      obtain ⟨rc, rid⟩ := found
      obtain ⟨s₁, sc₁⟩ := rest
      rw [hnext] at h
      cases hhas : sc.hasNext with
      | false =>
        rw [hhas] at h
        exact h
      | true =>
        rw [hhas] at h
        cases rid with
        | none => exact h
        | some rid =>
          dsimp only at h ⊢
          split_ifs at h ⊢
          · exact h
          · cases hfilter : filter (s₁.recordData rid) with
            | error f =>
              rw [hfilter] at h
              exact h
            | ok b =>
              rw [hfilter] at h
              cases b with
              | true => exact h
              | false => exact ih h

theorem deleteNext_succ {r : Except Failure RC × RecordFileHandler × RecordFileScanner}
    (h : deleteNext filter n s sc = some r) : deleteNext filter (n + 1) s sc = some r := by
  induction n generalizing s sc with
  | zero => cases h
  | succ n ih =>
    rw [deleteNext] at h ⊢
    cases hscan : tableScanNext filter (n + 1) s sc with
    | none =>
      rw [hscan] at h
      cases h
    | some found =>
      rw [tableScanNext_succ hscan]
      rw [hscan] at h
      obtain ⟨result, s₁, sc₁⟩ := found
      rcases result with ⟨rc⟩ | ⟨_ | rid⟩
      · cases rc <;> exact h
      · exact h
      · dsimp only at h ⊢
        split_ifs at h ⊢
        · exact h
        · exact ih h

theorem updateNext_succ {units : List UpdateUnit} {choices : ℕ → UpdateChoice}
    {r : Except Failure RC × RecordFileHandler × RecordFileScanner}
    (h : updateNext lib getString table filter units n choices s sc = some r) :
    updateNext lib getString table filter units (n + 1) choices s sc = some r := by
  induction n generalizing s sc choices with
  | zero => cases h
  | succ n ih =>
    rw [updateNext] at h ⊢
    cases hscan : tableScanNext filter (n + 1) s sc with
    | none =>
      rw [hscan] at h
      cases h
    | some found =>
      rw [tableScanNext_succ hscan]
      rw [hscan] at h
      obtain ⟨result, s₁, sc₁⟩ := found
      rcases result with ⟨rc⟩ | ⟨_ | rid⟩
      · cases rc <;> exact h
      · exact h
      · dsimp only at h ⊢
        split_ifs at h ⊢
        · exact h
        · cases hmake : makeRecord lib getString .vacuous table (choices 0).unspecified
              (List.zipWith (updateValue units) (table.columns .vacuous)
                (table.row .vacuous (s₁.recordData rid))) with
          | error f =>
            rw [hmake] at h
            cases f <;> exact h
          | ok record =>
            rw [hmake] at h
            dsimp only at h ⊢
            cases hinsert : (s₁.deleteRecord rid).2.insertRecord (choices 0).begin record
                table.recordSize with
            | none =>
              rw [hinsert] at h
              exact h
            | some inserted =>
              rw [hinsert] at h
              obtain ⟨⟨rc, bound⟩, s₂⟩ := inserted
              dsimp only at h ⊢
              split_ifs at h ⊢
              · exact h
              · exact ih h

theorem runDelete_mono {r : Except Failure RC × RecordFileHandler} (hnm : n ≤ m)
    (h : runDelete filter n s = some r) : runDelete filter m s = some r := by
  induction m, hnm using Nat.le_induction with
  | base => exact h
  | succ m _ ih =>
    unfold runDelete at ih ⊢
    dsimp only at ih ⊢
    split_ifs at ih ⊢
    · exact ih
    · obtain ⟨result, hnext, rfl⟩ := Option.map_eq_some_iff.mp ih
      rw [deleteNext_succ hnext]
      rfl

theorem runUpdate_mono {units : List UpdateUnit} {choices : ℕ → UpdateChoice}
    {r : Except Failure RC × RecordFileHandler} (hnm : n ≤ m)
    (h : runUpdate lib getString table filter units textPath n choices s = some r) :
    runUpdate lib getString table filter units textPath m choices s = some r := by
  induction m, hnm using Nat.le_induction with
  | base => exact h
  | succ m _ ih =>
    unfold runUpdate at ih ⊢
    dsimp only at ih ⊢
    split_ifs at ih ⊢
    · exact ih
    · cases hopen : openUnits textPath table units with
      | error f =>
        rw [hopen] at ih
        exact ih
      | ok units' =>
        rw [hopen] at ih
        obtain ⟨result, hnext, rfl⟩ := Option.map_eq_some_iff.mp ih
        dsimp only
        rw [updateNext_succ hnext]
        rfl

end Bounds

/-! ## Runs of statements -/

section Runs

variable (hlayout : table.Layout) (hsupported : ∀ f ∈ table.columns .vacuous, f.Supported)
  (hcap : 0 < (PageHeader.empty table.recordSize).recordCapacity)

include hlayout hsupported hcap

theorem Executes.rows {statement : TableStatement} {meaning : RowStatement}
    (h : HoldsTable lib getString table s)
    (hexecutes : Executes lib getString textPath table statement s s')
    (hmeans : Means lib getString textPath table statement meaning) :
    HoldsTable lib getString table s' ∧ tableRows table s' = meaning.apply (tableRows table s) := by
  cases hmeans with
  | @insert view rows multiValues hcreate =>
    cases hexecutes with
    | insert hrun =>
      unfold runInsert at hrun
      dsimp only at hrun
      split_ifs at hrun
      · rw [hcreate] at hrun
        exact insertOpen_rows hlayout hsupported hcap h hrun
      · cases hrun
  | @delete filter passes hdecides =>
    cases hexecutes with
    | @delete _ bound _ _ hrun =>
      obtain ⟨s₁, hrun₁, hholds, hrecords⟩ := runDelete_holds h
        (fun data hdata => ⟨_, hdecides data hdata⟩)
        (Nat.lt_succ_of_le (Nat.le_max_right bound (s.fileBufferPool.fileHeader.pageCount *
          (PageHeader.empty table.recordSize).recordCapacity)))
      rw [hrun _ (Nat.lt_succ_of_le (Nat.le_max_left _ _))] at hrun₁
      obtain rfl : s' = s₁ := congrArg Prod.snd (Option.some.inj hrun₁)
      exact ⟨hholds, tableRows_delete h hholds hdecides hrecords⟩
  | @update filter passes units hdecides hunits =>
    cases hexecutes with
    | @update _ _ bound choices _ _ hrun =>
      obtain ⟨s₁, hrun₁, hholds, hrows⟩ := @runUpdate_holds lib getString textPath table s filter
        passes units _ choices hlayout hsupported h hdecides hunits
        (Nat.lt_succ_of_le (Nat.le_max_right bound (s.fileBufferPool.fileHeader.pageCount *
          (PageHeader.empty table.recordSize).recordCapacity)))
      rw [hrun _ (Nat.lt_succ_of_le (Nat.le_max_left _ _))] at hrun₁
      obtain rfl : s' = s₁ := congrArg Prod.snd (Option.some.inj hrun₁)
      exact ⟨hholds, hrows⟩

end Runs

/-- Statements that run to their ends one after the other, with their meanings. -/
inductive RunsTo (lib : StdLib) (getString : Value → List UInt8)
    (textPath : List UInt8 → List UInt8) (table : TableMeta) :
    RecordFileHandler → List RowStatement → RecordFileHandler → Prop where
  | nil (s : RecordFileHandler) : RunsTo lib getString textPath table s [] s
  | snoc {s s₁ s' meanings statement meaning}
      (h : RunsTo lib getString textPath table s meanings s₁)
      (hexecutes : Executes lib getString textPath table statement s₁ s')
      (hmeans : Means lib getString textPath table statement meaning) :
      RunsTo lib getString textPath table s (meanings ++ [meaning]) s'

def rowsAfter (meanings : List RowStatement) (rows : Multiset (List Value)) :
    Multiset (List Value) :=
  meanings.foldl (fun rows meaning => meaning.apply rows) rows

theorem RunsTo.rows {meanings : List RowStatement} (hlayout : table.Layout)
    (hsupported : ∀ f ∈ table.columns .vacuous, f.Supported)
    (hcap : 0 < (PageHeader.empty table.recordSize).recordCapacity)
    (h : HoldsTable lib getString table s)
    (hruns : RunsTo lib getString textPath table s meanings s') :
    HoldsTable lib getString table s' ∧
      tableRows table s' = rowsAfter meanings (tableRows table s) := by
  induction hruns with
  | nil => exact ⟨h, rfl⟩
  | snoc hruns hexecutes hmeans ih =>
    obtain ⟨hholds, hrows⟩ := ih
    obtain ⟨hholds', hrows'⟩ := hexecutes.rows hlayout hsupported hcap hholds hmeans
    refine ⟨hholds', ?_⟩
    rw [hrows', hrows, rowsAfter, rowsAfter, List.foldl_append]
    rfl

theorem runScan_tableRows (h : HoldsTable lib getString table s) {n : ℕ}
    (hn : (s.liveFrom 1 s.fileBufferPool.fileHeader.pageCount).length < n) :
    ∃ found s' sc', runScan .vacuousTrx n s = (.success, found, s', sc') ∧
      ((found.map fun record => table.row .vacuous record.2 : List (List Value)) :
        Multiset (List Value)) = tableRows table s := by
  obtain ⟨found, s', sc', hrun, hbefore, hmem, -⟩ := runScan_spec h.inv hn
  refine ⟨found, s', sc', hrun, ?_⟩
  have hnodup : (found.map Prod.fst).Nodup := by
    rw [List.Nodup, List.pairwise_map]
    refine hbefore.imp ?_
    intro record record' hlt heq
    rw [heq] at hlt
    exact not_before_self _ hlt
  have hset : (found.map Prod.fst).toFinset = s.liveSet := by
    ext rid
    rw [List.mem_toFinset, h.inv.mem_liveSet, Option.ne_none_iff_exists', List.mem_map]
    constructor
    · rintro ⟨⟨rid, data⟩, hrecord, rfl⟩
      exact ⟨data, (hmem rid data).mp hrecord⟩
    · rintro ⟨data, hrid⟩
      exact ⟨(rid, data), (hmem rid data).mpr hrid, rfl⟩
  have hdata : ∀ record ∈ found, s.recordData record.1 = record.2 := by
    rintro ⟨rid, data⟩ hrecord
    have hrid := (hmem rid data).mp hrecord
    have hlive := h.inv.records_of_live (by rw [hrid]; exact Option.some_ne_none _)
    exact Option.some.inj (hlive.symm.trans hrid)
  rw [tableRows_eq]
  unfold contributions
  rw [← hset, List.toFinset_val, hnodup.dedup, Multiset.map_coe, List.map_map]
  congr 1
  apply List.map_congr_left
  intro record hrecord
  rw [Function.comp_apply, hdata record hrecord]

section OneColumn

def insertTwo : Except Failure RC × RecordFileHandler :=
  runInsert ⟨fun _ => none, fun _ => none, fun _ _ => none, fun _ => []⟩ (fun _ => []) id
    columnTable none [[.number 1], [.null]]
    (fun _ => (lowestBegin, ⟨fun _ => 0#8, fun _ => .replicate 8 0#8, fun _ => []⟩))
    (init (DataFile.created (PageData.cleared : RecordPage)).pool).2

def isNullFilter (data : List (BitVec 8)) : Except Failure Bool :=
  tableScanFilter ⟨fun _ => none, fun _ => none, fun _ _ => none, fun _ => []⟩
    (columnTable.rowTuple "t" data) [columnIsNull]

theorem decides_isNull (lib : StdLib) (getString : Value → List UInt8) :
    Decides lib getString columnTable isNullFilter fun row => row.any Value.isNull :=
  fun data _ => tableScanFilter_columnIsNull _ data

theorem isRecord_created (lib : StdLib) (getString : Value → List UInt8) (rid : RID)
    (data : List (BitVec 8))
    (h : (init (DataFile.created (PageData.cleared : RecordPage)).pool).2.records rid = some data) :
    columnTable.IsRecord lib getString data := by
  rw [@records_created 5] at h
  cases h

theorem tableRows_created :
    tableRows columnTable (init (DataFile.created (PageData.cleared : RecordPage)).pool).2 = 0 := by
  have hfile := isRecordFile_created 5 (PageData.cleared : RecordPage)
  have hset : (init (DataFile.created (PageData.cleared : RecordPage)).pool).2.liveSet = ∅ := by
    apply Finset.eq_empty_of_forall_notMem
    intro rid hmem
    exact (inv_init hfile).1.mem_liveSet.mp hmem (@records_created 5 _ rid)
  rw [tableRows_eq]
  unfold contributions
  rw [hset]
  rfl

end OneColumn

end TDB.Recorder
