import TDB.CommitRollback

namespace TDB.Mvcc

open Redo Recorder ByteMemory

variable {lib : StdLib} {trxId xid : Int32} {data : List (BitVec 8)} {offset : ℕ}
  {op : Operation} {ops : List Operation} {p p' : Pass} {commitXid : Int32}

/-! ## The versions of the records -/

def xidsOf (data : List (BitVec 8)) : Xids := ⟨xidAt 0 data, xidAt 4 data⟩

def versions (tables : ℕ → Table) : Versions := fun table rid =>
  if 0 ≤ rid.1.toInt ∧ 0 ≤ rid.2.toInt then
    ((tables table).recordHandler.records ⟨rid.1.toNatClampNeg, rid.2.toNatClampNeg⟩).map xidsOf
  else none

theorem versions_changes {r : Option (List (BitVec 8))} (hnonneg : 0 ≤ op.rid.1.toInt ∧
    0 ≤ op.rid.2.toInt) (hchanges : p.Changes p' op.record r) :
    versions p'.tables = Function.update (versions p.tables) op.table
      (Function.update (versions p.tables op.table) op.rid (r.map xidsOf)) := by
  have hversions : ∀ (q : Pass) table rid, versions q.tables table rid =
      if 0 ≤ rid.1.toInt ∧ 0 ≤ rid.2.toInt then
        (q.records (table, ⟨rid.1.toNatClampNeg, rid.2.toNatClampNeg⟩)).map xidsOf
      else none := fun _ _ _ => rfl
  funext table rid
  by_cases htable : table = op.table
  · subst htable
    rw [Function.update_self]
    by_cases hrid : rid = op.rid
    · rw [hrid, Function.update_self, hversions, if_pos hnonneg, hchanges.records]
      exact congrArg (Option.map xidsOf) (Function.update_self op.record r p.records)
    · rw [Function.update_of_ne hrid, hversions, hversions, hchanges.records]
      by_cases hnonneg' : 0 ≤ rid.1.toInt ∧ 0 ≤ rid.2.toInt
      · have hne : ((op.table, ⟨rid.1.toNatClampNeg, rid.2.toNatClampNeg⟩) : RecordId) ≠
            op.record := by
          intro hrecord
          have heq : (⟨op.type, op.table, rid⟩ : Operation) = op :=
            Operation.eq_of_record hnonneg' hnonneg rfl hrecord
          exact hrid (congrArg Operation.rid heq)
        rw [if_pos hnonneg', if_pos hnonneg', Function.update_of_ne hne]
      · rw [if_neg hnonneg', if_neg hnonneg']
  · rw [Function.update_of_ne htable, hversions, hversions, hchanges.records,
      Function.update_of_ne]
    intro hrecord
    exact htable (congrArg Prod.fst hrecord)

/-- One operation of a commit on the bytes is one on the versions. -/
theorem commitOperation_versions (lib : StdLib) (commitXid : Int32)
    (h : Left trxId p (op :: ops)) (rc : RC) :
    commitOperation commitXid op rc (versions p.tables) =
      ((commitStep lib trxId commitXid op p).rc,
        versions (commitStep lib trxId commitXid op p).tables) := by
  obtain ⟨data, hdata, hchanges⟩ := changes_commitStep lib commitXid h
  have hnonneg := h.nonneg op List.mem_cons_self
  have hwf := h.wellFormed op List.mem_cons_self
  have hlength : 8 ≤ data.length := by
    have hsize := (hwf.inv.of_records hdata).2.2
    rw [hsize]
    exact hwf.recordSize
  have hversion : versions p.tables op.table op.rid = some (xidsOf data) := by
    rw [versions, if_pos hnonneg]
    exact congrArg (Option.map xidsOf) hdata
  rw [hchanges.rc, versions_changes hnonneg hchanges]
  rcases h.type op List.mem_cons_self with htype | htype <;>
    simp only [commitOperation, htype, visitRecord, hversion, OperationType.xidOffset,
      Option.map_some]
  · rw [xidsOf, xidsOf, xidAt_setXid (by omega), xidAt_setXid_of_disjoint (.inl le_rfl)]
  · rw [xidsOf, xidsOf, xidAt_setXid (by omega), xidAt_setXid_of_disjoint (.inr le_rfl)]

theorem commitOperations_versions (lib : StdLib) (commitXid : Int32) (h : Left trxId p ops) :
    let p' := ops.foldl (fun p op => commitStep lib trxId commitXid op p) p
    commitOperations commitXid ops p.rc (versions p.tables) = (p'.rc, versions p'.tables) := by
  induction ops generalizing p with
  | nil => rfl
  | cons op ops ih =>
    obtain ⟨data, hdata, hchanges⟩ := changes_commitStep lib commitXid h
    rw [commitOperations, commitOperation_versions lib commitXid h, List.foldl_cons]
    exact ih (h.tail hchanges hdata)

def Store.system (s : Store) : System := ⟨s.currentTrxId, versions s.tables, s.log, s.trx⟩

/-- A commit on the bytes is a commit on the versions. -/
theorem Store.commitWithTrxId_system (lib : StdLib) (commitXid : Int32) {s : Store}
    (h : s.OperationsLeft) :
    Mvcc.commitWithTrxId commitXid s.system = ((s.commitWithTrxId lib commitXid).1.1,
      (s.commitWithTrxId lib commitXid).2.system) := by
  have hloop := commitOperations_versions lib commitXid h
  unfold Mvcc.commitWithTrxId Store.commitWithTrxId
  simp only [Store.system]
  by_cases hxid : s.trx.recovering = true ∧ s.currentTrxId < commitXid
  · simp only [hxid, and_self, if_true]
    rw [hloop]
  · simp only [hxid, if_false]
    rw [hloop]
    cases s.trx.recovering <;> rfl

namespace Store

/-! ## A record that its transaction inserted and deleted -/

/-- The record with the number 5 in its column, inserted and deleted by transaction 7. -/
def ownRecord : List (BitVec 8) :=
  bytesOfChars (LittleEndian.encodeWords [-7, -7, 5]) ++ [0#8]

def ownFile : Option ((RC × Option Recorder.RID) × RecordFileHandler) :=
  RecordFileHandler.insertRecord RecordFileHandler.lowestBegin ownRecord 13
    (RecordFileHandler.init (DataFile.created (PageData.cleared : RecordPage)).pool).2

def own (operations : List Operation) : Store where
  currentTrxId := 7
  tables _ :=
    { tableMeta := ⟨0, "t", [⟨"__trx_xid_begin", .ints, 0, 4, true, false⟩,
        ⟨"__trx_xid_end", .ints, 4, 4, true, false⟩, ⟨"a", .ints, 8, 4, false, true⟩,
        ⟨"null_field", .chars, 12, 1, false, false⟩], [], 13⟩
      recordHandler := ownFile.elim
        (RecordFileHandler.init (DataFile.created (PageData.cleared : RecordPage)).pool).2
        Prod.snd }
  log := {}
  trx := ⟨7, true, false, operations⟩

theorem own_wellFormed (operations : List Operation) (table : ℕ) :
    ((own operations).tables table).WellFormed ∧
      (own operations).records (table, ⟨1, 0⟩) = some ownRecord := by
  have hinit := RecordFileHandler.inv_init (RecordFileHandler.isRecordFile_created 13
    (PageData.cleared : RecordPage))
  obtain ⟨rid, s', hinsert, -, -, -, hchanges⟩ := RecordFileHandler.insertRecord_spec
    RecordFileHandler.lowestBegin (by decide +kernel) hinit.1 (rfl : ownRecord.length = 13)
    (fun _ => by decide +kernel)
  have hfile : ownFile = some ((.success, some rid), s') := hinsert
  have hrid : ownFile.bind (fun r => r.1.2) = some ⟨1, 0⟩ := by decide +kernel
  rw [hfile] at hrid
  obtain rfl := Option.some.inj hrid
  constructor
  · refine ⟨⟨_, rfl⟩, (by decide : 8 ≤ 13), ?_⟩
    simp only [own, hfile]
    exact hchanges.inv
  · simp only [records, own, hfile]
    change s'.records ⟨1, 0⟩ = _
    rw [hchanges.records, Function.update_self]

theorem own_operationsLeft {operations : List Operation} (hnodup : operations.Nodup)
    (hops : ∀ op ∈ operations, op.rid = (1, 0) ∧ (op.type = .insert ∨ op.type = .delete)) :
    (own operations).OperationsLeft where
  nodup := hnodup
  nonneg op hop := by
    rw [(hops op hop).1]
    decide
  type op hop := (hops op hop).2
  wellFormed op _ := (own_wellFormed operations op.table).1
  xid op hop := by
    obtain ⟨hrid, htype⟩ := hops op hop
    refine ⟨ownRecord, ?_, ?_⟩
    · have hrecord : op.record = (op.table, ⟨1, 0⟩) := by
        rw [Operation.record, Operation.recordRid, hrid]
        rfl
      rw [hrecord]
      exact (own_wellFormed operations op.table).2
    · rcases htype with htype | htype <;> rw [htype]
      · exact (by decide : xidAt 0 ownRecord = -7)
      · exact (by decide : xidAt 4 ownRecord = -7)

/-- No text is a number and no pattern matches; nothing here depends on it. -/
def plainLib : StdLib := ⟨fun _ => none, fun _ => none, fun _ _ => none, fun _ => []⟩

/-- Both operations on the record, walked with the deletion first. -/
theorem commitWithTrxId_own :
    let ops : List Operation := [⟨.insert, 0, (1, 0)⟩, ⟨.delete, 0, (1, 0)⟩]
    let r := ((own ops).withOrder ops.reverse).commitWithTrxId plainLib 9
    r.1.2 = true ∧ (r.2.records (0, ⟨1, 0⟩)).isSome := by
  intro ops r
  have hleft : (own ops).OperationsLeft := own_operationsLeft (by decide) (by decide)
  obtain ⟨hasserts, -, hrecords⟩ := commitWithTrxId_effect plainLib 9 hleft
    (List.reverse_perm ops)
  obtain ⟨data', hdata', -⟩ := (hrecords (0, ⟨1, 0⟩)).2 ownRecord (own_wellFormed ops 0).2
  exact ⟨hasserts, Option.isSome_iff_exists.2 ⟨data', hdata'⟩⟩

/-- A deletion alone is undone in any order. -/
theorem rollbackInAnyOrder_delete :
    (own [⟨.delete, 0, (1, 0)⟩]).RollbackInAnyOrder plainLib :=
  (rollbackInAnyOrder_iff plainLib (own_operationsLeft (by decide) (by decide))).2 (by
    intro op hop op' hop' _
    rw [List.mem_singleton.1 hop, List.mem_singleton.1 hop'])

/-- An insertion and a deletion of one record: the `ASSERT` of `rollback` fails if the set begins
with the insertion. -/
theorem not_rollbackInAnyOrder_own :
    ((own [⟨.insert, 0, (1, 0)⟩, ⟨.delete, 0, (1, 0)⟩]).rollback plainLib).1.2 = false ∧
      ¬ ∀ s : Store, s.OperationsLeft → s.RollbackInAnyOrder plainLib := by
  have hleft : (own [⟨.insert, 0, (1, 0)⟩, ⟨.delete, 0, (1, 0)⟩]).OperationsLeft :=
    own_operationsLeft (by decide) (by decide)
  have hfails : ((own [⟨.insert, 0, (1, 0)⟩, ⟨.delete, 0, (1, 0)⟩]).rollback plainLib).1.2 =
      false := by
    rw [(rollback_eq plainLib _).1]
    exact asserts_insert_delete plainLib hleft List.mem_cons_self rfl
      (rfl : (⟨.delete, 0, (1, 0)⟩ : Operation).type = .delete) rfl
  refine ⟨hfails, fun hall => ?_⟩
  have hasserts := (hall _ hleft _ (List.Perm.refl _)).1
  exact Bool.false_ne_true (hfails.symm.trans hasserts)

end Store

end TDB.Mvcc
