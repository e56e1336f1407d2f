import Mathlib.Data.Finset.Dedup
import Mathlib.Data.Finset.Insert
import TDB.TableRows
import TDB.TableScan

namespace TDB.Recorder

open ByteBits RecordFileHandler RecordFileScanner

/-! ## `UpdatePhysicalOperator` -/

structure UpdateUnit where
  attributeName : String
  value : Value

/-- The body of the loop of `open` over the units.  A text is written to a file of its own, whose
path `textPath` is the value from then on. -/
def openUnit (textPath : List UInt8 → List UInt8) (table : TableMeta) (unit : UpdateUnit) :
    Except Failure UpdateUnit :=
  match (table.columns .vacuous).find? fun field => field.name = unit.attributeName with
  | none => .error (.code .schemaFieldMissing)
  | some field =>
    match field.type, unit.value with
    | .texts, .chars str =>
      if 65535 < str.length then .error (.code .invalidArgument)
      else .ok { unit with value := .texts ((textPath str).takeWhile (· ≠ 0)) }
    | type, value =>
      if value.isNull then
        if field.nullable then .ok unit else .error (.code .schemaFieldTypeMismatch)
      else if type = value.attrType then .ok unit
      else match typeCastNotSupport value.attrType type with
        | none => .error .crash
        | some true => .error (.code .schemaFieldTypeMismatch)
        | some false => .ok unit

def openUnits (textPath : List UInt8 → List UInt8) (table : TableMeta) :
    List UpdateUnit → Except Failure (List UpdateUnit)
  | [] => .ok []
  | unit :: units => do
    let unit ← openUnit textPath table unit
    let units ← openUnits textPath table units
    return unit :: units

def updateValue (units : List UpdateUnit) (field : FieldMeta) (cell : Value) : Value :=
  match units.find? fun unit => field.name = unit.attributeName with
  | some unit => unit.value
  | none => cell

/-- What the source leaves open in one round of the loop: the page that each `insert_record` picks,
and the bytes of the new record that nobody writes. -/
structure UpdateChoice where
  begin : Begin
  restoreBegin : Begin
  unspecified : Unspecified

section Operator

variable (lib : StdLib) (getString : Value → List UInt8) (table : TableMeta)
  (filter : List (BitVec 8) → Except Failure Bool) (units : List UpdateUnit)

/-- `UpdatePhysicalOperator::next`.  A return code of the child ends the loop without being looked
at; under `VacuousTrx` a record is deleted from and inserted into the table at once. -/
def updateNext : ℕ → (ℕ → UpdateChoice) → RecordFileHandler → RecordFileScanner →
    Option (Except Failure RC × RecordFileHandler × RecordFileScanner)
  | 0, _, _, _ => none
  | n + 1, choices, s, sc =>
    match tableScanNext filter (n + 1) s sc with
    | none => none
    | some (.ok (some rid), s, sc) =>
      let oldRecord := s.recordData rid
      let values := List.zipWith (updateValue units) (table.columns .vacuous)
        (table.row .vacuous oldRecord)
      let (rc, s) := s.deleteRecord rid
      if rc.fail then some (.ok rc, s, sc)
      else match makeRecord lib getString .vacuous table (choices 0).unspecified values with
        | .error (.code rc) => some (.ok rc, s, sc)
        | .error f => some (.error f, s, sc)
        | .ok updateRecord =>
          match s.insertRecord (choices 0).begin updateRecord table.recordSize with
          | none => some (.error .crash, s, sc)
          | some ((rc, _), s) =>
            if rc.fail then
              match s.insertRecord (choices 0).restoreBegin oldRecord table.recordSize with
              | none => some (.error .crash, s, sc)
              | some (_, s) => some (.ok rc, s, sc)
            else updateNext n (fun k => choices (k + 1)) s sc
    | some (.error .exception, s, sc) => some (.error .exception, s, sc)
    | some (.error .crash, s, sc) => some (.error .crash, s, sc)
    | some (_, s, sc) => some (.ok .recordEof, s, sc)

/-- The statement: `open` of the scan and of the units, one `next`, and `close`. -/
def runUpdate (textPath : List UInt8 → List UInt8) (n : ℕ) (choices : ℕ → UpdateChoice)
    (s : RecordFileHandler) : Option (Except Failure RC × RecordFileHandler) :=
  let (rc, s, sc) := openScan .vacuousTrx s
  if rc.fail then some (.ok rc, s)
  else match openUnits textPath table units with
    | .error f => some (.error f, s)
    | .ok units => (updateNext lib getString table filter units n choices s sc).map
        fun (result, s, sc) => (result, (RecordFileScanner.cleanup s sc).1)

end Operator

/-! ## The updated row -/

section Rows

variable (lib : StdLib) (getString : Value → List UInt8) (textPath : List UInt8 → List UInt8)

def assigned (field : FieldMeta) (value : Value) : Value :=
  match field.type, value with
  | .texts, .chars str => .texts ((textPath str).takeWhile (· ≠ 0))
  | _, value => value

def updatedCell (units : List UpdateUnit) (field : FieldMeta) (cell : Value) : Value :=
  match units.find? fun unit => field.name = unit.attributeName with
  | some unit => storedValue lib getString field (assigned textPath field unit.value)
  | none => cell

def updatedRow (table : TableMeta) (units : List UpdateUnit) (row : List Value) : List Value :=
  List.zipWith (updatedCell lib getString textPath units) (table.columns .vacuous) row

/-- The constant of a unit has the type of the columns of its name, or is null where they allow it,
or is the content of a text. -/
def UpdateUnit.OfColumnType (table : TableMeta) (unit : UpdateUnit) : Prop :=
  (∃ field ∈ table.columns .vacuous, field.name = unit.attributeName) ∧
  ((∀ field ∈ table.columns .vacuous, field.name = unit.attributeName →
      Storable field unit.value) ∨
    ∃ str, unit.value = .chars str ∧ str.length ≤ 65535 ∧
      ∀ field ∈ table.columns .vacuous, field.name = unit.attributeName → field.type = .texts)

/-- A record of the table: one that `make_record` made. -/
def TableMeta.IsRecord (table : TableMeta) (data : List (BitVec 8)) : Prop :=
  ∃ unspecified values, makeRecord lib getString .vacuous table unspecified values = .ok data

end Rows

variable {lib : StdLib} {getString : Value → List UInt8} {textPath : List UInt8 → List UInt8}
  {table : TableMeta}

structure Opened (textPath : List UInt8 → List UInt8) (table : TableMeta)
    (unit unit' : UpdateUnit) : Prop where
  attributeName : unit'.attributeName = unit.attributeName
  value : ∀ field ∈ table.columns .vacuous, field.name = unit.attributeName →
    unit'.value = assigned textPath field unit.value ∧ Storable field unit'.value

theorem assigned_of_storable {field : FieldMeta} {value : Value} (h : Storable field value) :
    assigned textPath field value = value := by
  unfold assigned
  split
  · next htype =>
    rcases h with ⟨hnull, -⟩ | ⟨-, hsame⟩
    · cases hnull
    · rw [htype] at hsame
      cases hsame
  · rfl

theorem openUnit_ok {unit : UpdateUnit} (h : unit.OfColumnType table) :
    ∃ unit', openUnit textPath table unit = .ok unit' ∧ Opened textPath table unit unit' := by
  obtain ⟨⟨field₀, hmem₀, hname₀⟩, hcolumn⟩ := h
  obtain ⟨field, hfind⟩ : ∃ field, (table.columns .vacuous).find?
      (fun field => field.name = unit.attributeName) = some field := by
    apply Option.isSome_iff_exists.mp
    rw [List.find?_isSome]
    exact ⟨field₀, hmem₀, decide_eq_true hname₀⟩
  have hmem := List.mem_of_find?_eq_some hfind
  have hname : field.name = unit.attributeName := by
    simpa using List.find?_some hfind
  unfold openUnit
  rw [hfind]
  dsimp only
  rcases hcolumn with hstorable | ⟨str, hstr, hlength, htexts⟩
  · refine ⟨unit, ?_, rfl, fun f hf hfname =>
      ⟨(assigned_of_storable (hstorable f hf hfname)).symm, hstorable f hf hfname⟩⟩
    have hfield := hstorable field hmem hname
    split
    · next htype hvalue =>
      rcases hfield with ⟨hnull, -⟩ | ⟨-, hsame⟩
      · rw [hvalue] at hnull
        cases hnull
      · rw [hvalue, htype] at hsame
        cases hsame
    · next htype hvalue =>
      rcases hfield with ⟨hnull, hnullable⟩ | ⟨hnull, hsame⟩
      · rw [if_pos hnull, if_pos hnullable]
      · rw [hnull, if_neg Bool.false_ne_true, if_pos hsame.symm]
  · refine ⟨{ unit with value := .texts ((textPath str).takeWhile (· ≠ 0)) }, ?_, rfl, ?_⟩
    · rw [htexts field hmem hname, hstr]
      exact if_neg (by omega)
    · intro f hf hfname
      refine ⟨?_, Or.inr ⟨rfl, (htexts f hf hfname).symm⟩⟩
      unfold assigned
      rw [htexts f hf hfname, hstr]

theorem openUnits_ok {units : List UpdateUnit} (h : ∀ unit ∈ units, unit.OfColumnType table) :
    ∃ units', openUnits textPath table units = .ok units' ∧
      List.Forall₂ (Opened textPath table) units units' := by
  induction units with
  | nil => exact ⟨[], rfl, .nil⟩
  | cons unit units ih =>
    obtain ⟨unit', hunit', hopened⟩ := @openUnit_ok textPath table unit (h unit List.mem_cons_self)
    obtain ⟨units', hunits', hrest⟩ := ih fun unit hmem => h unit (List.mem_cons_of_mem _ hmem)
    refine ⟨unit' :: units', ?_, .cons hopened hrest⟩
    rw [openUnits, hunit', hunits']
    rfl

/-- The new value of a column can be stored, and then is the cell of the updated row. -/
theorem updateValue_spec {units units' : List UpdateUnit} {field : FieldMeta} {cell : Value}
    (h : List.Forall₂ (Opened textPath table) units units')
    (hfield : field ∈ table.columns .vacuous)
    (hcell : Storable field cell) (hstored : storedValue lib getString field cell = cell) :
    Storable field (updateValue units' field cell) ∧
    storedValue lib getString field (updateValue units' field cell) =
      updatedCell lib getString textPath units field cell := by
  induction h with
  | nil => exact ⟨hcell, hstored⟩
  | @cons unit unit' units units' hopened hrest ih =>
    unfold updateValue updatedCell at ih ⊢
    rw [List.find?_cons, List.find?_cons, hopened.attributeName]
    by_cases hname : field.name = unit.attributeName
    · obtain ⟨hvalue, hstorable⟩ := hopened.value field hfield hname
      rw [decide_eq_true hname]
      exact ⟨hstorable, congrArg _ hvalue⟩
    · rw [decide_eq_false hname]
      exact ih

section Row

variable (hlayout : table.Layout) (hsupported : ∀ f ∈ table.columns .vacuous, f.Supported)

include hlayout hsupported

theorem TableMeta.IsRecord.row {data : List (BitVec 8)} (h : table.IsRecord lib getString data) :
    data.length = table.recordSize ∧
    List.Forall₂ (fun field cell => Storable field cell ∧
      storedValue lib getString field cell = cell) (table.columns .vacuous)
      (table.row .vacuous data) := by
  obtain ⟨unspecified, values, hmake⟩ := h
  obtain ⟨hdata, hlength, hrow, hcheck⟩ := makeRecord_spec hlayout hsupported hmake
  refine ⟨hdata, ?_⟩
  rw [hrow, List.forall₂_iff_get]
  refine ⟨by rw [List.length_zipWith, hlength, Nat.min_self], ?_⟩
  intro j hj hj'
  have hj₂ : j < values.length := by omega
  have hvalue := hcheck j _ _ (List.getElem?_eq_getElem hj) (List.getElem?_eq_getElem hj₂)
  simp only [List.get_eq_getElem, List.getElem_zipWith]
  generalize (table.columns .vacuous)[j] = field at hvalue ⊢
  generalize values[j] = value at hvalue ⊢
  refine ⟨?_, storedValue_storedValue field value⟩
  cases hnull : value.isNull with
  | true =>
    have hcell : storedValue lib getString field value = .nulls := if_pos hnull
    rw [checkValue, if_pos hnull] at hvalue
    split_ifs at hvalue with hnullable
    rw [hcell]
    exact Or.inl ⟨rfl, hnullable⟩
  | false =>
    have htype := @attrType_storedValue lib getString field value hnull
    refine Or.inr ⟨?_, htype⟩
    rw [Value.isNull, htype]
    exact decide_eq_false (checkValue_ok hvalue hnull)

theorem makeRecord_updated {units units' : List UpdateUnit} {data : List (BitVec 8)}
    (hunits : List.Forall₂ (Opened textPath table) units units')
    (h : table.IsRecord lib getString data) (unspecified : Unspecified) :
    ∃ data', makeRecord lib getString .vacuous table unspecified
        (List.zipWith (updateValue units') (table.columns .vacuous) (table.row .vacuous data)) =
        .ok data' ∧
      data'.length = table.recordSize ∧ table.IsRecord lib getString data' ∧
      table.row .vacuous data' =
        updatedRow lib getString textPath table units (table.row .vacuous data) := by
  obtain ⟨-, hcells⟩ := h.row hlayout hsupported
  have hnew : ∀ j (hj : j < (table.columns .vacuous).length)
      (hj' : j < (table.row .vacuous data).length),
      Storable (table.columns .vacuous)[j] (updateValue units' (table.columns .vacuous)[j]
        (table.row .vacuous data)[j]) ∧
      storedValue lib getString (table.columns .vacuous)[j] (updateValue units'
        (table.columns .vacuous)[j] (table.row .vacuous data)[j]) =
        updatedCell lib getString textPath units (table.columns .vacuous)[j]
          (table.row .vacuous data)[j] := by
    intro j hj hj'
    obtain ⟨hstorable, hstored⟩ := hcells.get hj hj'
    exact updateValue_spec hunits (List.getElem_mem hj) hstorable hstored
  have hlength := hcells.length_eq
  have hforall : List.Forall₂ Storable (table.columns .vacuous) (List.zipWith (updateValue units')
      (table.columns .vacuous) (table.row .vacuous data)) := by
    rw [List.forall₂_iff_get]
    refine ⟨by rw [List.length_zipWith, hlength, Nat.min_self], ?_⟩
    intro j hj hj'
    simp only [List.get_eq_getElem, List.getElem_zipWith]
    exact (hnew j hj (by omega)).1
  have hfields : TrxType.vacuous.sysFieldNum < table.fields.length :=
    List.length_pos_iff.mpr hlayout.nonempty
  obtain ⟨data', hmake⟩ := @makeRecord_ok lib getString table .vacuous _ hfields hforall unspecified
  obtain ⟨hdata', -, hrow, -⟩ := makeRecord_spec hlayout hsupported hmake
  refine ⟨data', hmake, hdata', ⟨unspecified, _, hmake⟩, ?_⟩
  rw [hrow, updatedRow]
  apply List.ext_getElem
  · simp only [List.length_zipWith]
    omega
  · intro j hj hj'
    simp only [List.length_zipWith] at hj hj'
    simp only [List.getElem_zipWith]
    exact (hnew j (by omega) (by omega)).2

end Row

/-- Updating a row a second time changes nothing. -/
theorem updatedRow_updatedRow (units : List UpdateUnit) (row : List Value) :
    updatedRow lib getString textPath table units
      (updatedRow lib getString textPath table units row) =
      updatedRow lib getString textPath table units row := by
  apply List.ext_getElem
  · simp only [updatedRow, List.length_zipWith]
    omega
  · intro j hj hj'
    simp only [updatedRow, List.getElem_zipWith]
    unfold updatedCell
    generalize units.find? _ = found
    cases found <;> rfl

/-! ## The rows of a file -/

namespace RecordFileHandler

variable {s s' : RecordFileHandler} {recordSize : ℕ}

def tableRecords (s : RecordFileHandler) : Multiset (List (BitVec 8)) :=
  ((s.liveFrom 1 s.fileBufferPool.fileHeader.pageCount).map s.recordData : List (List (BitVec 8)))

def liveSet (s : RecordFileHandler) : Finset RID :=
  (s.liveFrom 1 s.fileBufferPool.fileHeader.pageCount).toFinset

theorem Inv.mem_liveSet (hi : Inv recordSize s) {rid : RID} :
    rid ∈ s.liveSet ↔ s.records rid ≠ none := by
  rw [liveSet, List.mem_toFinset, hi.mem_live]

def contributions {β : Type} (s : RecordFileHandler) (f : RID → List (BitVec 8) → β) : Multiset β :=
  s.liveSet.val.map fun rid => f rid (s.recordData rid)

theorem map_tableRecords {β : Type} (s : RecordFileHandler) (g : List (BitVec 8) → β) :
    s.tableRecords.map g = s.contributions fun _ data => g data := by
  have hnodup : (s.liveFrom 1 s.fileBufferPool.fileHeader.pageCount).Nodup := by
    refine (pairwise_liveFrom s 1 _).imp ?_
    rintro x _ hxy rfl
    exact not_before_self x hxy
  rw [tableRecords, contributions, liveSet, List.toFinset_val, hnodup.dedup, Multiset.map_coe,
    Multiset.map_coe, List.map_map]
  rfl

theorem contributions_congr {β : Type} {f f' : RID → List (BitVec 8) → β} (hi : Inv recordSize s)
    (hi' : Inv recordSize s') (hrecords : s'.records = s.records)
    (h : ∀ rid data, s.records rid = some data → f' rid data = f rid data) :
    s'.contributions f' = s.contributions f := by
  have hset : s'.liveSet = s.liveSet := by
    ext rid
    rw [hi'.mem_liveSet, hi.mem_liveSet, hrecords]
  unfold contributions
  rw [hset]
  apply Multiset.map_congr rfl
  intro rid hrid
  have hlive := hi.mem_liveSet.mp hrid
  rw [recordData_congr hi hi' hlive (congrFun hrecords rid)]
  exact h rid _ (hi.records_of_live hlive)

theorem contributions_replace {β : Type} {f f' : RID → List (BitVec 8) → β} {rid rid' : RID}
    {old new : List (BitVec 8)} (hi : Inv recordSize s) (hi' : Inv recordSize s')
    (hold : s.records rid = some old) (hfree : Function.update s.records rid none rid' = none)
    (hrecords : s'.records = Function.update (Function.update s.records rid none) rid' (some new))
    (hsame : f' rid' new = f rid old)
    (hother : ∀ x data, x ≠ rid → s.records x = some data → f' x data = f x data) :
    s'.contributions f' = s.contributions f := by
  have hlive : s.records rid ≠ none := by rw [hold]; exact Option.some_ne_none _
  have hmem : rid ∈ s.liveSet := hi.mem_liveSet.mpr hlive
  -- the live rids are the old ones with `rid'` in the place of `rid`
  have hset : s'.liveSet = insert rid' (s.liveSet.erase rid) := by
    ext x
    rw [hi'.mem_liveSet, hrecords, Finset.mem_insert, Finset.mem_erase, hi.mem_liveSet]
    by_cases hx' : x = rid'
    · subst hx'
      simp
    · rw [Function.update_of_ne hx']
      by_cases hx : x = rid
      · subst hx
        simp [hx']
      · simp [hx, hx']
  have hnot : rid' ∉ s.liveSet.erase rid := by
    intro hmem'
    obtain ⟨hne, hlive'⟩ := Finset.mem_erase.mp hmem'
    rw [Function.update_of_ne hne] at hfree
    exact hi.mem_liveSet.mp hlive' hfree
  -- every other rid contributes what it did before
  have hrest : (s.liveSet.erase rid).val.map (fun x => f' x (s'.recordData x)) =
      (s.liveSet.erase rid).val.map fun x => f x (s.recordData x) := by
    apply Multiset.map_congr rfl
    intro x hx
    obtain ⟨hne, hxlive⟩ := Finset.mem_erase.mp (Finset.mem_val.mp hx)
    have hne' : x ≠ rid' := by
      rintro rfl
      exact hnot (Finset.mem_val.mp hx)
    have hlive' := hi.mem_liveSet.mp hxlive
    have heq : s'.records x = s.records x := by
      rw [hrecords, Function.update_of_ne hne', Function.update_of_ne hne]
    rw [recordData_congr hi hi' hlive' heq]
    exact hother x _ hne (hi.records_of_live hlive')
  have hnew : s'.recordData rid' = new := by
    have hrid' : s'.records rid' = some new := by rw [hrecords, Function.update_self]
    have hdata := hi'.records_of_live (by rw [hrid']; exact Option.some_ne_none _)
    exact Option.some.inj (hdata.symm.trans hrid')
  have holdData : s.recordData rid = old :=
    Option.some.inj ((hi.records_of_live hlive).symm.trans hold)
  unfold contributions
  rw [hset, Finset.insert_val_of_notMem hnot, Multiset.map_cons, hrest, hnew, hsame, ← holdData,
    ← Multiset.map_cons (fun x => f x (s.recordData x)),
    ← Finset.insert_val_of_notMem (Finset.notMem_erase rid s.liveSet), Finset.insert_erase hmem]

end RecordFileHandler

/-! ## Updating while the scan goes on -/

variable {s s' : RecordFileHandler} {sc sc' : RecordFileScanner} {recordSize : ℕ}

/-- Where a slot is free, `insert_record` needs no new page. -/
theorem insertRecord_of_free (begin : Begin) {data : List (BitVec 8)} {rid : RID}
    (hi : Inv recordSize s) (hdata : data.length = recordSize) (hp : s.IsRecordPage rid.pageNum)
    (hslot : rid.slotNum < (PageHeader.empty recordSize).recordCapacity)
    (hfree : s.records rid = none) :
    ∃ rid' s', s.insertRecord begin data recordSize = some ((.success, some rid'), s') ∧
      s.records rid' = none ∧ Changes recordSize s s' rid' (some data) ∧
      s'.fileBufferPool.fileHeader = s.fileBufferPool.fileHeader := by
  obtain ⟨found, s₁, heq, hi₁, hsame, hsome, hnone⟩ := findPage_spec begin hi le_rfl
  have hp₁ := hsame.isRecordPage.mpr hp
  obtain ⟨page, hpage, hwf⟩ := hi₁.pages _ hp₁
  -- a page with a free slot is not full, so it is in the set that `find` searches
  have hnotFull : page.isFull = false := by
    by_contra hfull
    have hle : (page.header.recordCapacity : ℤ) ≤ page.header.recordNum := by
      simpa [RecordPage.isFull] using hfull
    have hcount := popcount_le (bit page.bitmap) page.header.recordCapacity
    rw [hwf.recordNum] at hle
    have hself : popcount (bit page.bitmap) page.header.recordCapacity =
        page.header.recordCapacity := by omega
    have hall := popcount_eq_self_iff.mp hself
    have hlt : rid.slotNum < page.header.recordCapacity := by
      rw [hwf.recordCapacity]
      exact hslot
    have hrecord : s₁.records rid = some (page.recordData rid.slotNum) := by
      rw [records_eq hp₁ hpage, RecordPage.slot]
      exact if_pos ⟨hlt, hall _ hlt⟩
    rw [hsame.records, hfree] at hrecord
    cases hrecord
  have hmem := hi₁.free _ page hp₁ hpage hnotFull
  unfold insertRecord
  rw [heq]
  cases found with
  | none =>
    rw [hnone rfl] at hmem
    simp at hmem
  | some p =>
    obtain ⟨hp', page', hpage', hfull'⟩ := hsome p rfl
    obtain ⟨slotNum, s', hins, -, hfresh, hchanges, hheader, -⟩ :=
      insertInto_spec hi₁ hp' hpage' hfull' hdata
    refine ⟨⟨p, slotNum⟩, s', hins, ?_, ⟨hchanges.inv, ?_⟩, hheader.trans hsame.fileHeader⟩
    · rw [← hsame.records]
      exact hfresh
    · rw [hchanges.records, hsame.records]

open Classical in
noncomputable def finalRow (lib : StdLib) (getString : Value → List UInt8)
    (textPath : List UInt8 → List UInt8) (table : TableMeta)
    (filter : List (BitVec 8) → Except Failure Bool) (units : List UpdateUnit)
    (sc : RecordFileScanner) (rid : RID) (data : List (BitVec 8)) : List Value :=
  if Unreturned sc rid ∧ filter data = .ok true then
    updatedRow lib getString textPath table units (table.row .vacuous data)
  else table.row .vacuous data

section Loop

variable {filter : List (BitVec 8) → Except Failure Bool} {units units' : List UpdateUnit}

theorem finalRow_of_updated {rid : RID} {data data' : List (BitVec 8)}
    (h : table.row .vacuous data' =
      updatedRow lib getString textPath table units (table.row .vacuous data)) :
    finalRow lib getString textPath table filter units sc rid data' =
      updatedRow lib getString textPath table units (table.row .vacuous data) := by
  unfold finalRow
  rw [h, updatedRow_updatedRow, ite_self]

variable (hlayout : table.Layout) (hsupported : ∀ f ∈ table.columns .vacuous, f.Supported)
  (hunits : List.Forall₂ (Opened textPath table) units units')
  (hfilter : ∀ data, table.IsRecord lib getString data → ∃ b, filter data = .ok b)

include hlayout hsupported hunits hfilter

theorem updateNext_spec {n : ℕ} {choices : ℕ → UpdateChoice} (hi : Inv table.recordSize s)
    (h : Scanning s sc)
    (hrows : ∀ rid data, s.records rid = some data → table.IsRecord lib getString data)
    (hn : slotsLeft table.recordSize s sc < n) :
    ∃ s' sc', updateNext lib getString table filter units' n choices s sc =
        some (.ok .recordEof, s', sc') ∧ Inv table.recordSize s' ∧
      s'.contributions (fun _ data => table.row .vacuous data) =
        s.contributions (finalRow lib getString textPath table filter units sc) := by
  induction n generalizing s sc choices with
  | zero => omega
  | succ n ih =>
    have hfilter' : ∀ rid ∈ remaining s sc, ∃ b, filter (s.recordData rid) = .ok b := by
      intro rid hrid
      exact hfilter _ (hrows rid _ (hi.records_of_live ((mem_remaining hi h).mp hrid).1))
    obtain ⟨found, s₁, sc₁, heq, hto⟩ := tableScanNext_spec hi h hfilter' hn
    obtain ⟨skipped, hremaining, -, hbefore⟩ := hto.remaining
    rw [updateNext, heq]
    cases found with
    | none =>
      have hnil := hto.scanning.remaining_eq_nil hto.inv (hto.atEnd rfl)
      refine ⟨s₁, sc₁, rfl, hto.inv, contributions_congr hi hto.inv hto.same.records ?_⟩
      intro x data hx
      unfold finalRow
      rw [if_neg]
      -- a record that passes would be still to come
      rw [← hto.unreturned_iff hi h hx (Option.not_mem_none x)]
      rintro ⟨hun, -⟩
      have hlive : s₁.records x ≠ none := by
        rw [hto.same.records, hx]
        exact Option.some_ne_none _
      have hmem := (mem_remaining hto.inv hto.scanning).mpr ⟨hlive, hun⟩
      rw [hnil] at hmem
      cases hmem
    | some rid =>
      obtain ⟨hpass, hleft⟩ := hto.passes rid rfl
      have hmem : rid ∈ remaining s sc := by
        rw [hremaining]
        simp
      obtain ⟨hlive, hun⟩ := (mem_remaining hi h).mp hmem
      have hold : s.records rid = some (s.recordData rid) := hi.records_of_live hlive
      have hlive₁ : s₁.records rid ≠ none := by
        rw [hto.same.records]
        exact hlive
      have hp₁ := (hto.inv.live_iff.mp hlive₁).1
      have hslot := slotNum_lt hto.inv hlive₁
      obtain ⟨hrc, hdelete, hheader, hscanning, -⟩ := deleteRecord_scanning hto.inv
        hto.scanning hlive₁ (hbefore rid (by simp))
      obtain ⟨new, hmake, hlength, hrecord, hrow⟩ := @makeRecord_updated lib getString
        textPath table
        hlayout hsupported units units' _ hunits (hrows rid _ hold) (choices 0).unspecified
      dsimp only
      rw [hto.same.recordData]
      generalize s₁.deleteRecord rid = r at hrc hdelete hheader hscanning
      obtain ⟨rc, s₂⟩ := r
      dsimp only at hrc hdelete hheader hscanning
      subst hrc
      have hrecords₂ : s₂.records = Function.update s.records rid none := by
        rw [hdelete.records, hto.same.records]
      have hp₂ : s₂.IsRecordPage rid.pageNum := by
        rw [IsRecordPage, hheader]
        exact hp₁
      obtain ⟨rid', s₃, hinsert, hfree, hchanges, hheader₃⟩ := insertRecord_of_free
        (choices 0).begin hdelete.inv hlength hp₂ hslot (by rw [hrecords₂, Function.update_self])
      dsimp only
      rw [if_neg (by decide), hmake]
      dsimp only
      rw [hinsert]
      dsimp only
      rw [if_neg (by decide)]
      have hrecords₃ : s₃.records =
          Function.update (Function.update s.records rid none) rid' (some new) := by
        rw [hchanges.records, hrecords₂]
      have hscanning₃ : Scanning s₃ sc₁ :=
        hscanning.inserts hdelete.inv hchanges.inv hheader₃ hchanges.records
      have hrows₃ : ∀ x data, s₃.records x = some data → table.IsRecord lib getString data := by
        rw [hrecords₃]
        exact records_insert (records_delete hrows) hrecord
      have hleft₃ : slotsLeft table.recordSize s₃ sc₁ < n := by
        have hsame := slotsLeft_congr table.recordSize sc₁ (hheader₃.trans hheader)
        omega
      obtain ⟨s', sc', hrun, hi', hresult⟩ := @ih s₃ sc₁ (fun k => choices (k + 1)) hchanges.inv
        hscanning₃ hrows₃ hleft₃
      refine ⟨s', sc', hrun, hi', hresult.trans (contributions_replace hi hchanges.inv hold ?_
        hrecords₃ ?_ ?_)⟩
      · rw [← hrecords₂]
        exact hfree
      · rw [finalRow_of_updated hrow, finalRow, if_pos ⟨hun, hpass⟩]
      · intro x data hne hx
        unfold finalRow
        congr 1
        exact propext (hto.unreturned_iff hi h hx fun hfound => hne (Option.some.inj hfound).symm)

end Loop

/-- On every file that inserts and deletes lead to, an `UPDATE` ends, and its rows are the rows
from before with those updated that satisfied the predicates, whichever page each insertion
picks. -/
theorem update_exact (lib : StdLib) (getString : Value → List UInt8)
    (textPath : List UInt8 → List UInt8) (tableAlias : String) (tableId : Int32) (name : String)
    (attributes : List AttrInfoSqlNode) (table : TableMeta)
    (hinit : TableMeta.init .vacuous tableId name attributes = .ok table)
    (hattrs : ∀ attr ∈ attributes, attr.type ≠ .chars → attr.type ≠ .texts → attr.length = 4)
    (hcap : 0 < (PageHeader.empty table.recordSize).recordCapacity)
    (bp : FileBufferPool RecordPage) (hfile : IsRecordFile table.recordSize bp)
    (calls : List RecordCall) (hlegal : Legal table.recordSize calls (init bp).2)
    (results : List RecordResult) (s : RecordFileHandler)
    (hrun : run table.recordSize calls (init bp).2 = some (results, s))
    (hrows : ∀ rid data, s.records rid = some data → table.IsRecord lib getString data)
    (predicates : List (Expression Tuple))
    (hpredicates : ∀ data, table.IsRecord lib getString data →
      ∃ b, tableScanFilter lib (table.rowTuple tableAlias data) predicates = .ok b)
    (units : List UpdateUnit) (hunits : ∀ unit ∈ units, unit.OfColumnType table) :
    ∃ bound, ∀ n > bound, ∀ choices, ∃ s',
      runUpdate lib getString table
        (fun data => tableScanFilter lib (table.rowTuple tableAlias data) predicates) units textPath
        n choices s = some (.ok .recordEof, s') ∧
      s'.tableRecords.map (table.row .vacuous) = s.tableRecords.map fun data =>
        if tableScanFilter lib (table.rowTuple tableAlias data) predicates = .ok true then
          updatedRow lib getString textPath table units (table.row .vacuous data)
        else table.row .vacuous data := by
  obtain ⟨hlayout, -, -, -, -, hcolumns⟩ := TableMeta.init_built hinit
  have hsupported := TableMeta.supported_of_forall₂ hcolumns hattrs
  obtain ⟨results', s₀, hrun', -, hi⟩ := run_refines hcap (inv_init hfile).1 hlegal
  rw [hrun] at hrun'
  obtain ⟨rfl, rfl⟩ := Prod.mk.inj (Option.some.inj hrun')
  obtain ⟨units', hopen, hopened⟩ := @openUnits_ok textPath table units hunits
  refine ⟨s.fileBufferPool.fileHeader.pageCount *
    (PageHeader.empty table.recordSize).recordCapacity, fun n hn choices => ?_⟩
  -- opening the scan changes no page, so the rows are those of `s`
  obtain ⟨hrc, hsame, hfree, hscanning, hremaining⟩ := openScan_spec hi
  unfold runUpdate
  generalize openScan .vacuousTrx s = r at *
  obtain ⟨rc, s₁, sc₁⟩ := r
  dsimp only at *
  subst hrc
  have hi₁ := hi.samePages hsame hfree
  have hleft : slotsLeft table.recordSize s₁ sc₁ < n := by
    have hle := slotsLeft_le table.recordSize s₁ sc₁
    rw [hsame.fileHeader] at hle
    omega
  obtain ⟨s₂, sc₂, hnext, hi₂, hresult⟩ := @updateNext_spec lib getString textPath table s₁ sc₁ _
    units units' hlayout hsupported hopened hpredicates n choices hi₁ hscanning
    (fun rid data hrid => hrows rid data (by rw [← hsame.records]; exact hrid)) hleft
  obtain ⟨hclean, hcleanFree, -⟩ := cleanup_spec s₂ sc₂
  refine ⟨(RecordFileScanner.cleanup s₂ sc₂).1, ?_, ?_⟩
  · rw [if_neg (by decide), hopen]
    dsimp only
    rw [hnext]
    rfl
  · rw [map_tableRecords, map_tableRecords, contributions_congr hi₂
      (hi₂.samePages hclean hcleanFree)
      hclean.records fun _ _ _ => rfl, hresult]
    apply contributions_congr hi hi₁ hsame.records
    intro rid data hrid
    have hmem : rid ∈ remaining s₁ sc₁ := by
      rw [hremaining]
      exact hi.mem_live.mpr (by rw [hrid]; exact Option.some_ne_none _)
    have hun := ((mem_remaining hi₁ hscanning).mp hmem).2
    unfold finalRow
    congr 1
    exact propext (and_iff_right hun)

/-! ## `UPDATE t SET a = 2 WHERE a IS NULL` -/

section OneColumn

def columnTable : TableMeta :=
  ⟨0, "t", [⟨"a", .ints, 0, 4, true, true⟩, ⟨"null_field", .chars, 4, 1, false, false⟩], [], 5⟩

def columnIsNull : Expression Tuple :=
  .unary .isNull (.field fun tuple => tuple.findCell ⟨"t", "a", "t"⟩)

theorem tableScanFilter_columnIsNull (lib : StdLib) (data : List (BitVec 8)) :
    tableScanFilter lib (columnTable.rowTuple "t" data) [columnIsNull] =
      .ok ((columnTable.row .vacuous data).any Value.isNull) := by
  have hcell : (columnTable.rowTuple "t" data).findCell ⟨"t", "a", "t"⟩ =
      .ok (columnTable.cell (memoryOf data) 0 ⟨"a", .ints, 0, 4, true, true⟩) := rfl
  have hrow : columnTable.row .vacuous data =
      [columnTable.cell (memoryOf data) 0 ⟨"a", .ints, 0, 4, true, true⟩] := rfl
  rw [hrow, List.any_cons, List.any_nil, Bool.or_false, columnIsNull, tableScanFilter,
    Expression.getValue, Expression.getValue, hcell]
  generalize columnTable.cell (memoryOf data) 0 ⟨"a", .ints, 0, 4, true, true⟩ = cell
  cases hnull : cell.isNull <;>
    simp [compareValue, hnull, bind, Except.bind, pure, Except.pure, Value.getBoolean,
      tableScanFilter]

def recordOfOne : List (BitVec 8) := [1#8, 0#8, 0#8, 0#8, 0#8]

def recordOfNull : List (BitVec 8) := [0#8, 0#8, 0#8, 0#8, 1#8]

theorem isRecord_oneNull :
    let lib : StdLib := ⟨fun _ => none, fun _ => none, fun _ _ => none, fun _ => []⟩
    columnTable.IsRecord lib (fun _ => []) recordOfOne ∧
      columnTable.IsRecord lib (fun _ => []) recordOfNull :=
  ⟨⟨⟨fun _ => 0#8, fun _ => .replicate 8 0#8, fun _ => []⟩, [.ints 1], by rfl⟩,
    ⟨⟨fun _ => 0#8, fun _ => .replicate 8 0#8, fun _ => []⟩, [.nulls], by rfl⟩⟩

/-- Of the two rows one is changed. -/
theorem update_created :
    let lib : StdLib := ⟨fun _ => none, fun _ => none, fun _ _ => none, fun _ => []⟩
    ∃ results s, run 5 [.insertRecord lowestBegin recordOfOne,
        .insertRecord lowestBegin recordOfNull]
        (init (DataFile.created (PageData.cleared : RecordPage)).pool).2 = some (results, s) ∧
      s.tableRecords.map (columnTable.row .vacuous) = {[.ints 1], [.nulls]} ∧
      ∃ bound, ∀ n > bound, ∀ choices, ∃ s',
        runUpdate lib (fun _ => []) columnTable
          (fun data => tableScanFilter lib (columnTable.rowTuple "t" data) [columnIsNull])
          [⟨"a", .ints 2⟩] id n choices s = some (.ok .recordEof, s') ∧
        s'.tableRecords.map (columnTable.row .vacuous) = {[.ints 1], [.ints 2]} := by
  intro lib
  let s₀ := (init (DataFile.created (PageData.cleared : RecordPage)).pool).2
  have htable : TableMeta.init .vacuous 0 "t" [⟨"a", .ints, 4, true⟩] = .ok columnTable := by
    decide +kernel
  have hfile := isRecordFile_created 5 (PageData.cleared : RecordPage)
  have hfinds : ∀ x ∈ call 5 (.insertRecord lowestBegin recordOfOne) s₀,
      (findPage lowestBegin x.2.freePages.card x.2).1.2 ≠ none := by decide +kernel
  have hlegal : Legal 5 [.insertRecord lowestBegin recordOfOne,
      .insertRecord lowestBegin recordOfNull] s₀ :=
    ⟨⟨rfl, fun _ => by decide +kernel⟩, fun r s' hcall =>
      ⟨⟨rfl, fun hnone => absurd hnone (hfinds (r, s') hcall)⟩, fun _ _ _ => trivial⟩⟩
  obtain ⟨results, s, hrun, hmap, -⟩ := run_refines (by decide) (inv_init hfile).1 hlegal
  obtain ⟨hone, hnull⟩ := isRecord_oneNull
  have hrows : ∀ rid data, s.records rid = some data →
      columnTable.IsRecord lib (fun _ => []) data := by
    generalize s.records = m at hmap
    cases hmap with
    | cons hstep hrest =>
      cases hrest with
      | cons hstep' hrest =>
        cases hrest
        cases hstep
        cases hstep'
        refine records_insert (records_insert (fun rid data hrid => ?_) hone) hnull
        rw [@records_created 5 _ rid] at hrid
        cases hrid
  have hunit : UpdateUnit.OfColumnType columnTable ⟨"a", .ints 2⟩ := by
    refine ⟨⟨⟨"a", .ints, 0, 4, true, true⟩, List.mem_cons_self, rfl⟩, Or.inl ?_⟩
    intro f hf _
    rw [List.mem_singleton.mp hf]
    exact Or.inr ⟨rfl, rfl⟩
  obtain ⟨bound, hbound⟩ := update_exact lib (fun _ => []) id "t" 0 "t" _ columnTable htable
    (by decide) (by decide) _ hfile _ hlegal results s hrun hrows [columnIsNull]
    (fun data _ => ⟨_, tableScanFilter_columnIsNull lib data⟩) [⟨"a", .ints 2⟩]
    (by simpa using hunit)
  have hrecords : s.tableRecords = {recordOfOne, recordOfNull} := by
    have hall : (run 5 [.insertRecord lowestBegin recordOfOne,
        .insertRecord lowestBegin recordOfNull] s₀).map (fun r => r.2.tableRecords) =
          some {recordOfOne, recordOfNull} := by decide +kernel
    rw [hrun] at hall
    exact Option.some.inj hall
  refine ⟨results, s, hrun, ?_, bound, fun n hn choices => ?_⟩
  · rw [hrecords]
    rfl
  · obtain ⟨s', hs', hrows'⟩ := hbound n hn choices
    refine ⟨s', hs', ?_⟩
    rw [hrows', hrecords]
    simp only [tableScanFilter_columnIsNull]
    rfl

end OneColumn

end TDB.Recorder
