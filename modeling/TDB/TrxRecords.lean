import TDB.MvccTrx
import TDB.RecordMap
import TDB.RecordVisit
import TDB.TableRows

namespace TDB.Mvcc

open Redo Recorder ByteMemory

/-! ## `Table` and `Field` -/

/-- A `Table`: its metadata and its records.  `delete_record` does not touch the indexes yet. -/
structure Table where
  tableMeta : TableMeta
  recordHandler : RecordFileHandler

namespace Table

def visitRecord {α : Type} (rid : Recorder.RID) (visitor : (ℕ → BitVec 8) → α × (ℕ → BitVec 8))
    (table : Table) : (RC × Option α) × Table :=
  let (result, handler) := table.recordHandler.visitRecord rid visitor
  (result, { table with recordHandler := handler })

/-- `Table::get_record`, whose visitor copies the record. -/
def getRecord (rid : Recorder.RID) (table : Table) :
    (RC × Option (Recorder.RID × List (BitVec 8))) × Table :=
  table.visitRecord rid fun record =>
    ((rid, read record 0 table.tableMeta.recordSize), record)

def deleteRecord (rid : Recorder.RID) (table : Table) : RC × Table :=
  let (rc, handler) := table.recordHandler.deleteRecord rid
  (rc, { table with recordHandler := handler })

end Table

def getInt (lib : StdLib) (field : FieldMeta) (record : ℕ → BitVec 8) : Int32 :=
  (setData field.type record field.offset field.len).getInt lib

/-- `Field::set_int`: whether its two `ASSERT`s hold, and the record. -/
def setInt (field : FieldMeta) (value : Int32) (record : ℕ → BitVec 8) :
    Bool × (ℕ → BitVec 8) :=
  (field.type = .ints && field.len = 4,
    memcpy field.offset 4 (bytesOfChars (LittleEndian.encode value)) record)

/-- `MvccTrx::trx_fields`: whether its `ASSERT` holds, and the two fields. -/
def trxFields (table : Table) : Bool × FieldMeta × FieldMeta :=
  let noField : FieldMeta := ⟨"", .undefined, 0, 0, false, false⟩
  (2 ≤ TrxType.mvcc.sysFieldNum,
    table.tableMeta.fields.getD 0 noField, table.tableMeta.fields.getD 1 noField)

def Operation.recordRid (op : Operation) : Recorder.RID :=
  ⟨op.rid.1.toNatClampNeg, op.rid.2.toNatClampNeg⟩

abbrev RecordId := ℕ × Recorder.RID

def Operation.record (op : Operation) : RecordId := (op.table, op.recordRid)

/-! ## The loops of `commit_with_trx_id` and `rollback` -/

/-- What the loops work on: the variable `rc`, whether every `ASSERT` has held so far, and the
tables by the numbers that operations have for them. -/
structure Pass where
  rc : RC
  asserts : Bool
  tables : ℕ → Table

/-- A `record_updater`: the field holds `-trx_id` and is set to `xid`. -/
def recordUpdater (lib : StdLib) (trxId : Int32) (field : FieldMeta) (xid : Int32)
    (record : ℕ → BitVec 8) : Bool × (ℕ → BitVec 8) :=
  let (asserts, updated) := setInt field xid record
  (getInt lib field record = -trxId && asserts, updated)

/-- `visit_record` with an updater, and the `ASSERT` on its code. -/
def Pass.visit (op : Operation) (updater : (ℕ → BitVec 8) → Bool × (ℕ → BitVec 8)) (p : Pass) :
    Pass :=
  let ((rc, held), table) := (p.tables op.table).visitRecord op.recordRid updater
  { rc := rc
    asserts := p.asserts && held.getD true && decide (rc = .success)
    tables := Function.update p.tables op.table table }

/-- The body of the loop of `commit_with_trx_id`. -/
def commitStep (lib : StdLib) (trxId commitXid : Int32) (op : Operation) (p : Pass) : Pass :=
  let (enough, beginXidField, endXidField) := trxFields (p.tables op.table)
  match op.type with
  | .insert => { p with asserts := p.asserts && enough }.visit op
      (recordUpdater lib trxId beginXidField commitXid)
  | .delete => { p with asserts := p.asserts && enough }.visit op
      (recordUpdater lib trxId endXidField commitXid)
  | .update | .undefined => { p with asserts := false }

def maxTrxId : Int32 := Int32.maxValue

/-- The body of the loop of `rollback`.  A failed `get_record` leaves no record to delete. -/
def rollbackStep (lib : StdLib) (trxId : Int32) (op : Operation) (p : Pass) : Pass :=
  match op.type with
  | .insert =>
    let ((rc, record), table) := (p.tables op.table).getRecord op.recordRid
    match record with
    | none => { rc := rc, asserts := false, tables := Function.update p.tables op.table table }
    | some (rid, _) =>
      let (rc, table) := table.deleteRecord rid
      { rc := rc
        asserts := p.asserts && decide (rc = RC.success)
        tables := Function.update p.tables op.table table }
  | .delete =>
    let (enough, _, endXidField) := trxFields (p.tables op.table)
    { p with asserts := p.asserts && decide (p.rc = RC.success) && enough }.visit op
      (recordUpdater lib trxId endXidField maxTrxId)
  | .update | .undefined => { p with asserts := false }

structure Store where
  currentTrxId : Int32
  tables : ℕ → Table
  log : LogManager
  trx : MvccTrx

namespace Store

/-- `commit_with_trx_id`: its code, whether its `ASSERT`s hold, and what it leaves. -/
def commitWithTrxId (lib : StdLib) (commitXid : Int32) (s : Store) : (RC × Bool) × Store :=
  let s := { s with trx := { s.trx with started := false } }
  let s := if s.trx.recovering ∧ s.currentTrxId < commitXid then
      { s with currentTrxId := commitXid } else s
  let p := s.trx.operations.foldl (fun p op => commitStep lib s.trx.trxId commitXid op p)
    ⟨.success, true, s.tables⟩
  let s := { s with tables := p.tables, trx := { s.trx with operations := [] } }
  if s.trx.recovering then ((p.rc, p.asserts), s)
  else
    let (rc, log) := appendCommitTrxLog s.trx.trxId commitXid s.log
    ((rc, p.asserts), { s with log := log })

/-- `rollback`: its code, whether its `ASSERT`s hold, and what it leaves. -/
def rollback (lib : StdLib) (s : Store) : (RC × Bool) × Store :=
  let s := { s with trx := { s.trx with started := false } }
  let p := s.trx.operations.foldl (fun p op => rollbackStep lib s.trx.trxId op p)
    ⟨.success, true, s.tables⟩
  let s := { s with tables := p.tables, trx := { s.trx with operations := [] } }
  if s.trx.recovering then ((p.rc, p.asserts), s)
  else
    let (rc, log) := appendRollbackTrxLog s.trx.trxId s.log
    ((rc, p.asserts), { s with log := log })

end Store

/-! ## Records by their bytes -/

/-- A record with four of its bytes, from `offset` on, set to those of an integer. -/
def setXid (offset : ℕ) (xid : Int32) (data : List (BitVec 8)) : List (BitVec 8) :=
  read (memcpy offset 4 (bytesOfChars (LittleEndian.encode xid)) (memoryOf data)) 0 data.length

variable {lib : StdLib} {trxId xid : Int32} {data : List (BitVec 8)} {offset : ℕ}

@[simp] theorem length_setXid : (setXid offset xid data).length = data.length := length_read

theorem getElem?_read {mem : ℕ → BitVec 8} {n k : ℕ} :
    (read mem 0 n)[k]? = if k < n then some (mem k) else none := by
  by_cases hk : k < n
  · simp [ByteMemory.read, hk]
  · simp [ByteMemory.read, hk]

theorem getElem?_setXid {k : ℕ} : (setXid offset xid data)[k]? =
    if offset ≤ k ∧ k < offset + 4 ∧ k < data.length then
      some ((bytesOfChars (LittleEndian.encode xid)).getD (k - offset) 0#8)
    else data[k]? := by
  rw [setXid, getElem?_read]
  by_cases hk : k < data.length
  · rw [if_pos hk]
    simp only [memcpy, memoryOf, hk, and_true]
    split
    · rfl
    · rw [List.getD_eq_getElem?_getD, List.getElem?_eq_getElem hk, Option.getD_some]
  · rw [if_neg hk, if_neg (by omega), List.getElem?_eq_none (by omega)]

theorem read_memcpy_eq_setXid {record : ℕ → BitVec 8} {n : ℕ} (hread : read record 0 n = data) :
    read (memcpy offset 4 (bytesOfChars (LittleEndian.encode xid)) record) 0 n =
      setXid offset xid data := by
  subst hread
  rw [setXid, length_read]
  apply read_congr
  intro k _ hk
  have hmem : memoryOf (read record 0 n) k = record k := by
    rw [memoryOf_read (by omega)]
  simp only [memcpy, hmem]

theorem setXid_comm {x y : Int32} :
    setXid 0 x (setXid 4 y data) = setXid 4 y (setXid 0 x data) := by
  apply List.ext_getElem?
  intro k
  simp only [getElem?_setXid, length_setXid]
  -- the two fields have no byte in common
  split_ifs <;> first | rfl | omega

/-- A table of the manager with versions: the fields of the xids come first, and the records are
as the record manager keeps them. -/
structure Table.WellFormed (table : Table) : Prop where
  fields : TrxType.mvcc.trxFields <+: table.tableMeta.fields
  recordSize : 8 ≤ table.tableMeta.recordSize
  inv : RecordFileHandler.Inv table.tableMeta.recordSize table.recordHandler

/-- `init` puts the fields of the xids first. -/
theorem fields_of_init {tableId : Int32} {name : String} {attributes : List AttrInfoSqlNode}
    {tableMeta : TableMeta} (h : TableMeta.init .mvcc tableId name attributes = .ok tableMeta) :
    TrxType.mvcc.trxFields <+: tableMeta.fields ∧ 8 ≤ tableMeta.recordSize := by
  have hbuilt := TableMeta.init_built h
  have hfields := hbuilt.fields
  rw [List.append_assoc] at hfields
  constructor
  · rw [hfields]
    exact List.prefix_append _ _
  · apply hbuilt.layout.recordSize ⟨"__trx_xid_end", .ints, 4, 4, true, false⟩
    rw [hfields]
    apply List.mem_append_left
    decide

def IsXidField (offset : ℕ) (field : FieldMeta) : Prop :=
  field.type = .ints ∧ field.offset = offset ∧ field.len = 4

theorem Table.WellFormed.trxFields {table : Table} (h : table.WellFormed) :
    ∃ beginXidField endXidField, trxFields table = (true, beginXidField, endXidField) ∧
      IsXidField 0 beginXidField ∧ IsXidField 4 endXidField := by
  obtain ⟨rest, hrest⟩ := h.fields
  unfold Mvcc.trxFields
  rw [← hrest]
  exact ⟨_, _, rfl, ⟨rfl, rfl, rfl⟩, ⟨rfl, rfl, rfl⟩⟩

def xidAt (offset : ℕ) (data : List (BitVec 8)) : Int32 :=
  LittleEndian.decode (charsOf (read (memoryOf data) offset 4))

theorem getInt_eq {field : FieldMeta} (h : IsXidField offset field) (record : ℕ → BitVec 8) :
    getInt lib field record = LittleEndian.decode (charsOf (read record offset 4)) := by
  obtain ⟨htype, hoffset, -⟩ := h
  simp only [getInt, htype, hoffset, setData, Value.getInt]

theorem memoryOf_setXid (k : ℕ) : memoryOf (setXid offset xid data) k =
    if offset ≤ k ∧ k < offset + 4 ∧ k < data.length then
      (bytesOfChars (LittleEndian.encode xid)).getD (k - offset) 0#8
    else memoryOf data k := by
  simp only [memoryOf, List.getD_eq_getElem?_getD, getElem?_setXid]
  split <;> rfl

theorem xidAt_setXid (h : offset + 4 ≤ data.length) :
    xidAt offset (setXid offset xid data) = xid := by
  have hlength : (bytesOfChars (LittleEndian.encode xid)).length = 4 := rfl
  have hread : read (memoryOf (setXid offset xid data)) offset 4 =
      read (memcpy offset 4 (bytesOfChars (LittleEndian.encode xid)) (memoryOf data))
        offset 4 := by
    apply read_congr
    intro k hk hlt
    rw [memoryOf_setXid, if_pos ⟨hk, hlt, by omega⟩]
    exact (if_pos ⟨hk, hlt⟩).symm
  rw [xidAt, hread, read_memcpy_self hlength, charsOf_bytesOfChars, LittleEndian.decode_encode]

theorem xidAt_setXid_of_disjoint {offset' : ℕ}
    (h : offset + 4 ≤ offset' ∨ offset' + 4 ≤ offset) :
    xidAt offset' (setXid offset xid data) = xidAt offset' data := by
  have hread : read (memoryOf (setXid offset xid data)) offset' 4 =
      read (memoryOf data) offset' 4 := by
    apply read_congr
    intro k hk hlt
    rw [memoryOf_setXid, if_neg (by omega)]
  rw [xidAt, hread, xidAt]

/-! ## One operation -/

def Pass.records (p : Pass) (record : RecordId) : Option (List (BitVec 8)) :=
  (p.tables record.1).recordHandler.records record.2

/-- An operation that passed its `ASSERT`s and changed the record it is about, and no other. -/
structure Pass.Changes (p p' : Pass) (record : RecordId) (r : Option (List (BitVec 8))) :
    Prop where
  rc : p'.rc = .success
  asserts : p'.asserts = p.asserts
  records : p'.records = Function.update p.records record r
  wellFormed : ∀ table, (p.tables table).WellFormed → (p'.tables table).WellFormed

theorem Pass.Changes.of_table {p : Pass} {rc : RC} {asserts : Bool} (record : RecordId)
    {r : Option (List (BitVec 8))} {handler : RecordFileHandler} (hrc : rc = .success)
    (hasserts : asserts = p.asserts)
    (hchanges : RecordFileHandler.Changes (p.tables record.1).tableMeta.recordSize
      (p.tables record.1).recordHandler handler record.2 r) :
    p.Changes ⟨rc, asserts, Function.update p.tables record.1
      { p.tables record.1 with recordHandler := handler }⟩ record r where
  rc := hrc
  asserts := hasserts
  records := by
    funext other
    simp only [Pass.records]
    by_cases htable : other.1 = record.1
    · rw [htable, Function.update_self, hchanges.records]
      by_cases hrid : other.2 = record.2
      · rw [hrid, Function.update_self, Prod.ext htable hrid, Function.update_self]
      · rw [Function.update_of_ne hrid, Function.update_of_ne fun h => hrid (by rw [h])]
        simp only [Pass.records, htable]
    · rw [Function.update_of_ne htable, Function.update_of_ne fun h => htable (by rw [h])]
      rfl
  wellFormed table hwf := by
    dsimp only
    by_cases htable : table = record.1
    · subst htable
      rw [Function.update_self]
      exact ⟨hwf.fields, hwf.recordSize, hchanges.inv⟩
    · rw [Function.update_of_ne htable]
      exact hwf

theorem recordUpdater_eq (lib : StdLib) (xid : Int32) {field : FieldMeta}
    {record : ℕ → BitVec 8} {n : ℕ} (hfield : IsXidField offset field)
    (hread : read record 0 n = data) (hn : offset + 4 ≤ n)
    (hxid : xidAt offset data = -trxId) :
    (recordUpdater lib trxId field xid record).1 = true ∧
      read (recordUpdater lib trxId field xid record).2 0 n = setXid offset xid data := by
  have hdata : read (memoryOf data) offset 4 = read record offset 4 := by
    apply read_congr
    intro k _ hk
    rw [← hread, memoryOf_read (by omega)]
  have hint : getInt lib field record = -trxId := by
    rw [getInt_eq hfield, ← hdata]
    exact hxid
  obtain ⟨htype, rfl, hlen⟩ := hfield
  constructor
  · simp [recordUpdater, setInt, hint, htype, hlen]
  · exact read_memcpy_eq_setXid hread

theorem Pass.changes_visit {p : Pass} {op : Operation} {field : FieldMeta}
    (hwf : (p.tables op.table).WellFormed) (hdata : p.records op.record = some data)
    (hfield : IsXidField offset field) (hoffset : offset + 4 ≤ 8)
    (hxid : xidAt offset data = -trxId) :
    p.Changes (p.visit op (recordUpdater lib trxId field xid)) op.record
      (some (setXid offset xid data)) := by
  have hsize := hwf.recordSize
  have hwithin : ∀ mem k, (p.tables op.table).tableMeta.recordSize ≤ k →
      (recordUpdater lib trxId field xid mem).2 k = mem k := by
    intro mem k hk
    obtain ⟨-, hoff, -⟩ := hfield
    exact memcpy_of_le (by omega)
  obtain ⟨mem, hmem, hresult, hchanges⟩ := RecordFileHandler.visitRecord_spec
    (recordUpdater lib trxId field xid) hwf.inv hdata hwithin
  obtain ⟨hheld, hread⟩ := recordUpdater_eq lib xid hfield hmem (hoffset.trans hsize) hxid
  rw [hread] at hchanges
  have hrecord : op.record.2 = op.recordRid := rfl
  rw [hrecord] at hresult hchanges
  have hvisit : p.visit op (recordUpdater lib trxId field xid) =
      ⟨.success, p.asserts, Function.update p.tables op.table { p.tables op.table with
        recordHandler := ((p.tables op.table).recordHandler.visitRecord op.recordRid
          (recordUpdater lib trxId field xid)).2 }⟩ := by
    simp only [Pass.visit, Table.visitRecord, hresult, hheld]
    simp
  rw [hvisit]
  exact .of_table op.record rfl rfl hchanges

theorem Table.getRecord_spec {table : Table} {rid : Recorder.RID} (hwf : table.WellFormed)
    (hdata : table.recordHandler.records rid = some data) :
    ∃ handler, table.getRecord rid =
        ((.success, some (rid, data)), { table with recordHandler := handler }) ∧
      RecordFileHandler.Inv table.tableMeta.recordSize handler ∧
      handler.records = table.recordHandler.records := by
  obtain ⟨mem, hmem, hresult, hchanges⟩ := RecordFileHandler.visitRecord_spec
    (fun record => ((rid, read record 0 table.tableMeta.recordSize), record)) hwf.inv hdata
    fun _ _ _ => rfl
  rw [hmem] at hresult
  rw [hmem, ← hdata] at hchanges
  use (table.recordHandler.visitRecord rid
    fun record => ((rid, read record 0 table.tableMeta.recordSize), record)).2
  refine ⟨?_, hchanges.inv, ?_⟩
  · simp only [Table.getRecord, Table.visitRecord, hresult]
  · rw [hchanges.records, Function.update_eq_self]

/-- What `rollback` does with a record that the transaction inserted.  It is not there any more
when it is visited again. -/
theorem changes_rollbackInsert (lib : StdLib) (trxId : Int32) {p : Pass} {op : Operation}
    (htype : op.type = .insert) (hwf : (p.tables op.table).WellFormed)
    (hdata : p.records op.record = some data) :
    p.Changes (rollbackStep lib trxId op p) op.record none ∧
      ∀ updater, (((rollbackStep lib trxId op p).tables op.table).visitRecord op.recordRid
        updater).1 = (.recordNotExist, (none : Option Bool)) := by
  obtain ⟨handler, hget, hinv, hrecords⟩ := Table.getRecord_spec hwf hdata
  have hsome : handler.records op.recordRid = some data := by
    rw [hrecords]
    exact hdata
  obtain ⟨hpage, hslot, -⟩ := hinv.of_records hsome
  obtain ⟨hdelete, hheader, hrc⟩ := RecordFileHandler.deleteRecord_spec hinv hpage hslot
  rw [hsome, Option.isSome_some, if_pos rfl] at hrc
  have hstep : rollbackStep lib trxId op p =
      ⟨.success, p.asserts, Function.update p.tables op.table { p.tables op.table with
        recordHandler := (handler.deleteRecord op.recordRid).2 }⟩ := by
    have hrecord : op.record.2 = op.recordRid := rfl
    rw [hrecord] at hget
    simp only [rollbackStep, htype, hget, Table.deleteRecord, hrc]
    simp
  rw [hstep]
  constructor
  · apply Pass.Changes.of_table op.record rfl rfl
    exact ⟨hdelete.inv, by rw [hdelete.records, hrecords]; rfl⟩
  · intro updater
    dsimp only
    rw [Function.update_self]
    have hpage' : (handler.deleteRecord op.recordRid).2.IsRecordPage op.recordRid.pageNum := by
      rw [RecordFileHandler.IsRecordPage, hheader]
      exact hpage
    apply RecordFileHandler.visitRecord_none updater hdelete.inv hpage' hslot
    rw [hdelete.records, Function.update_self]

end TDB.Mvcc
