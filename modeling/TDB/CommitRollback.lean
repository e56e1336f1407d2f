import TDB.TrxRecords

namespace TDB.Mvcc

open Redo Recorder ByteMemory

variable {lib : StdLib} {trxId xid : Int32} {data : List (BitVec 8)} {offset : ℕ}

/-! ## All operations, in any order -/

/-- Where the xid is that an operation has written: an insertion the first, a deletion the
second. -/
def OperationType.xidOffset : OperationType → ℕ
  | .insert => 0
  | _ => 4

/-- Tables in the state that the operations of a transaction leave.  Two operations of the set
differ in their type or their record. -/
structure Left (trxId : Int32) (p : Pass) (ops : List Operation) : Prop where
  nodup : ops.Nodup
  nonneg : ∀ op ∈ ops, 0 ≤ op.rid.1.toInt ∧ 0 ≤ op.rid.2.toInt
  type : ∀ op ∈ ops, op.type = .insert ∨ op.type = .delete
  wellFormed : ∀ op ∈ ops, (p.tables op.table).WellFormed
  xid : ∀ op ∈ ops, ∃ data, p.records op.record = some data ∧
    xidAt op.type.xidOffset data = -trxId

def Touches (ops : List Operation) (type : OperationType) (record : RecordId) : Prop :=
  ∃ op ∈ ops, op.type = type ∧ op.record = record

instance (ops : List Operation) (type : OperationType) (record : RecordId) :
    Decidable (Touches ops type record) :=
  inferInstanceAs (Decidable (∃ op ∈ ops, op.type = type ∧ op.record = record))

theorem touches_cons {op : Operation} {ops : List Operation} {type : OperationType}
    {record : RecordId} : Touches (op :: ops) type record ↔
      op.type = type ∧ op.record = record ∨ Touches ops type record := by
  simp [Touches]

theorem Operation.eq_of_record {op op' : Operation}
    (hnonneg : 0 ≤ op.rid.1.toInt ∧ 0 ≤ op.rid.2.toInt)
    (hnonneg' : 0 ≤ op'.rid.1.toInt ∧ 0 ≤ op'.rid.2.toInt) (htype : op.type = op'.type)
    (hrecord : op.record = op'.record) : op = op' := by
  obtain ⟨type, table, page, slot⟩ := op
  obtain ⟨type', table', page', slot'⟩ := op'
  simp only [Operation.record, Operation.recordRid, Prod.mk.injEq, Recorder.RID.mk.injEq] at hrecord
  obtain ⟨htable, hpage, hslot⟩ := hrecord
  dsimp only at hnonneg hnonneg'
  have hpage' : page = page' := by
    apply Int32.toInt_inj.1
    change page.toInt.toNat = page'.toInt.toNat at hpage
    omega
  have hslot' : slot = slot' := by
    apply Int32.toInt_inj.1
    change slot.toInt.toNat = slot'.toInt.toNat at hslot
    omega
  rw [show type = type' from htype, show table = table' from htable, hpage', hslot']

variable {op : Operation} {ops : List Operation} {p p' : Pass} {commitXid : Int32}

/-- The other operations of the set are of another type or about other records. -/
theorem Left.not_touches (h : Left trxId p (op :: ops)) : ¬Touches ops op.type op.record := by
  rintro ⟨op', hmem, htype, hrecord⟩
  have heq := Operation.eq_of_record (h.nonneg op' (List.mem_cons_of_mem op hmem))
    (h.nonneg op List.mem_cons_self) htype hrecord
  exact (List.nodup_cons.1 h.nodup).1 (heq ▸ hmem)

theorem Left.perm {order : List Operation} (h : Left trxId p ops) (hperm : order.Perm ops) :
    Left trxId p order where
  nodup := hperm.nodup_iff.2 h.nodup
  nonneg op hop := h.nonneg op (hperm.subset hop)
  type op hop := h.type op (hperm.subset hop)
  wellFormed op hop := h.wellFormed op (hperm.subset hop)
  xid op hop := h.xid op (hperm.subset hop)

/-- An operation that wrote its own xid leaves the others their state. -/
theorem Left.tail (h : Left trxId p (op :: ops))
    (hchanges : p.Changes p' op.record (some (setXid op.type.xidOffset xid data)))
    (hdata : p.records op.record = some data) : Left trxId p' ops where
  nodup := (List.nodup_cons.1 h.nodup).2
  nonneg op' hop := h.nonneg op' (List.mem_cons_of_mem op hop)
  type op' hop := h.type op' (List.mem_cons_of_mem op hop)
  wellFormed op' hop := hchanges.wellFormed _ (h.wellFormed op' (List.mem_cons_of_mem op hop))
  xid op' hop := by
    obtain ⟨data', hdata', hxid⟩ := h.xid op' (List.mem_cons_of_mem op hop)
    rw [hchanges.records]
    by_cases hrecord : op'.record = op.record
    · rw [hrecord, hdata] at hdata'
      obtain rfl := Option.some.inj hdata'
      have htype : op'.type ≠ op.type := fun htype => h.not_touches ⟨op', hop, htype, hrecord⟩
      use setXid op.type.xidOffset xid data
      rw [hrecord, Function.update_self]
      refine ⟨rfl, ?_⟩
      rw [xidAt_setXid_of_disjoint, hxid]
      -- one of the two is an insertion, the other one a deletion
      rcases h.type op List.mem_cons_self with hins | hdel <;>
        rcases h.type op' (List.mem_cons_of_mem op hop) with hins' | hdel'
      · exact absurd (hins'.trans hins.symm) htype
      · rw [hins, hdel']
        exact .inl le_rfl
      · rw [hdel, hins']
        exact .inr le_rfl
      · exact absurd (hdel'.trans hdel.symm) htype
    · rw [Function.update_of_ne hrecord]
      exact ⟨data', hdata', hxid⟩

/-! ## `commit_with_trx_id` -/

/-- A record as a commit leaves it. -/
def committed (ops : List Operation) (commitXid : Int32) (record : RecordId)
    (data : List (BitVec 8)) : List (BitVec 8) :=
  let data := if Touches ops .delete record then setXid 4 commitXid data else data
  if Touches ops .insert record then setXid 0 commitXid data else data

theorem committed_cons (htype : op.type = .insert ∨ op.type = .delete)
    (hnot : ¬Touches ops op.type op.record) :
    committed ops commitXid op.record (setXid op.type.xidOffset commitXid data) =
      committed (op :: ops) commitXid op.record data := by
  rcases htype with htype | htype <;> rw [htype] at hnot
  · simp only [committed, touches_cons, htype, hnot, OperationType.xidOffset, reduceCtorEq,
      false_and, true_and, true_or, false_or, if_true, if_false]
    split
    · exact setXid_comm.symm
    · rfl
  · simp only [committed, touches_cons, htype, hnot, OperationType.xidOffset, reduceCtorEq,
      false_and, true_and, true_or, false_or, if_true, if_false]

theorem committed_cons_of_ne {record : RecordId} (hne : record ≠ op.record) :
    committed (op :: ops) commitXid record = committed ops commitXid record := by
  funext data
  simp only [committed, touches_cons, hne.symm, and_false, false_or]

@[simp] theorem length_committed {record : RecordId} :
    (committed ops commitXid record data).length = data.length := by
  simp only [committed]
  split <;> split <;> simp

theorem xidAt_committed {record : RecordId} (hlength : 8 ≤ data.length) :
    (Touches ops .insert record → xidAt 0 (committed ops commitXid record data) = commitXid) ∧
      (Touches ops .delete record → xidAt 4 (committed ops commitXid record data) = commitXid) := by
  constructor
  · intro hins
    simp only [committed, if_pos hins]
    apply xidAt_setXid
    split
    · rw [length_setXid]
      omega
    · omega
  · intro hdel
    simp only [committed, if_pos hdel]
    split
    · rw [xidAt_setXid_of_disjoint (.inl le_rfl), xidAt_setXid (by omega)]
    · exact xidAt_setXid (by omega)

theorem getElem?_committed {record : RecordId} {k : ℕ}
    (hins : k < 4 → ¬Touches ops .insert record)
    (hdel : 4 ≤ k → k < 8 → ¬Touches ops .delete record) :
    (committed ops commitXid record data)[k]? = data[k]? := by
  have hdelete : (if Touches ops .delete record then setXid 4 commitXid data else data)[k]? =
      data[k]? := by
    split
    · next htouches =>
      rw [getElem?_setXid, if_neg]
      exact fun hk => hdel hk.1 (by omega) htouches
    · rfl
  simp only [committed]
  split
  · next htouches =>
    rw [getElem?_setXid, if_neg, hdelete]
    exact fun hk => hins (by omega) htouches
  · exact hdelete

theorem changes_commitStep (lib : StdLib) (commitXid : Int32)
    (h : Left trxId p (op :: ops)) :
    ∃ data, p.records op.record = some data ∧ p.Changes (commitStep lib trxId commitXid op p)
      op.record (some (setXid op.type.xidOffset commitXid data)) := by
  obtain ⟨data, hdata, hxid⟩ := h.xid op List.mem_cons_self
  have hwf := h.wellFormed op List.mem_cons_self
  obtain ⟨beginXidField, endXidField, hfields, hbegin, hend⟩ := hwf.trxFields
  refine ⟨data, hdata, ?_⟩
  rcases h.type op List.mem_cons_self with htype | htype <;>
    simp only [commitStep, hfields, htype, Bool.and_true] <;>
    rw [htype] at hxid
  · exact Pass.changes_visit hwf hdata hbegin (by decide) hxid
  · exact Pass.changes_visit hwf hdata hend (by decide) hxid

/-- The loop of a commit: no `ASSERT` fails, and the records are those of `committed`. -/
theorem commitStep_foldl (lib : StdLib) (commitXid : Int32) (h : Left trxId p ops) :
    let p' := ops.foldl (fun p op => commitStep lib trxId commitXid op p) p
    p'.asserts = p.asserts ∧
      p'.records = fun record => (p.records record).map (committed ops commitXid record) := by
  induction ops generalizing p with
  | nil =>
    refine ⟨rfl, ?_⟩
    funext record
    have hid : committed [] commitXid record = id := by
      funext data
      simp [committed, Touches]
    simp only [List.foldl_nil, hid, Option.map_id_fun, id_eq]
  | cons op ops ih =>
    obtain ⟨data, hdata, hchanges⟩ := changes_commitStep lib commitXid h
    obtain ⟨hasserts, hrecords⟩ := ih (h.tail hchanges hdata)
    rw [List.foldl_cons]
    refine ⟨hasserts.trans hchanges.asserts, ?_⟩
    rw [hrecords, hchanges.records]
    funext record
    by_cases hrecord : record = op.record
    · subst hrecord
      rw [Function.update_self, hdata]
      exact congrArg some (committed_cons (h.type op List.mem_cons_self) h.not_touches)
    · rw [Function.update_of_ne hrecord, committed_cons_of_ne hrecord]

/-! ## `rollback` -/

/-- A record as a rollback should leave it. -/
def rolledBack (ops : List Operation) (record : RecordId) (r : Option (List (BitVec 8))) :
    Option (List (BitVec 8)) :=
  if Touches ops .insert record then none
  else if Touches ops .delete record then r.map (setXid 4 maxTrxId)
  else r

def OneTypeEach (ops : List Operation) : Prop :=
  ∀ op ∈ ops, ∀ op' ∈ ops, op.record = op'.record → op.type = op'.type

theorem Touches.perm {order : List Operation} (hperm : order.Perm ops) {type : OperationType}
    {record : RecordId} : Touches order type record ↔ Touches ops type record := by
  simp only [Touches, hperm.mem_iff]

theorem rolledBack_perm {order : List Operation} (hperm : order.Perm ops) :
    rolledBack order = rolledBack ops := by
  funext record r
  simp only [rolledBack, Touches.perm hperm]

theorem committed_perm {order : List Operation} (hperm : order.Perm ops) :
    committed order commitXid = committed ops commitXid := by
  funext record data
  simp only [committed, Touches.perm hperm]

/-- What is left when a record is gone that no other operation is about. -/
theorem Left.tail_gone (h : Left trxId p (op :: ops)) {r : Option (List (BitVec 8))}
    (hchanges : p.Changes p' op.record r) (hother : ∀ op' ∈ ops, op'.record ≠ op.record) :
    Left trxId p' ops where
  nodup := (List.nodup_cons.1 h.nodup).2
  nonneg op' hop := h.nonneg op' (List.mem_cons_of_mem op hop)
  type op' hop := h.type op' (List.mem_cons_of_mem op hop)
  wellFormed op' hop := hchanges.wellFormed _ (h.wellFormed op' (List.mem_cons_of_mem op hop))
  xid op' hop := by
    rw [hchanges.records, Function.update_of_ne (hother op' hop)]
    exact h.xid op' (List.mem_cons_of_mem op hop)

theorem rolledBack_cons (hother : ∀ op' ∈ ops, op'.record ≠ op.record)
    (htype : op.type = .insert ∨ op.type = .delete) :
    rolledBack (op :: ops) op.record (some data) =
      if op.type = .insert then none else some (setXid 4 maxTrxId data) := by
  have hnot : ∀ type, ¬Touches ops type op.record := by
    rintro type ⟨op', hop, -, hrecord⟩
    exact hother op' hop hrecord
  rcases htype with htype | htype <;>
    simp [rolledBack, touches_cons, htype, hnot]

theorem rolledBack_cons_of_ne {record : RecordId} (hne : record ≠ op.record) :
    rolledBack (op :: ops) record = rolledBack ops record := by
  funext r
  simp only [rolledBack, touches_cons, hne.symm, and_false, false_or]

theorem changes_rollbackStep (lib : StdLib) (h : Left trxId p (op :: ops))
    (hrc : p.rc = .success) (hother : ∀ op' ∈ ops, op'.record ≠ op.record) :
    ∃ data, p.records op.record = some data ∧ p.Changes (rollbackStep lib trxId op p) op.record
      (rolledBack (op :: ops) op.record (some data)) := by
  obtain ⟨data, hdata, hxid⟩ := h.xid op List.mem_cons_self
  have hwf := h.wellFormed op List.mem_cons_self
  have htypes := h.type op List.mem_cons_self
  refine ⟨data, hdata, ?_⟩
  rw [rolledBack_cons hother htypes]
  rcases htypes with htype | htype
  · rw [if_pos htype]
    exact (changes_rollbackInsert lib trxId htype hwf hdata).1
  · obtain ⟨beginXidField, endXidField, hfields, -, hend⟩ := hwf.trxFields
    have hne : op.type ≠ .insert := by
      rw [htype]
      decide
    rw [htype] at hxid
    rw [if_neg hne]
    simp only [rollbackStep, htype, hfields, hrc, decide_true, Bool.and_true]
    exact Pass.changes_visit hwf hdata hend (by decide) hxid

/-- The loop of a rollback when no record was both inserted and deleted. -/
theorem rollbackStep_foldl (lib : StdLib) (h : Left trxId p ops) (hrc : p.rc = .success)
    (hone : OneTypeEach ops) :
    let p' := ops.foldl (fun p op => rollbackStep lib trxId op p) p
    p'.asserts = p.asserts ∧
      p'.records = fun record => rolledBack ops record (p.records record) := by
  induction ops generalizing p with
  | nil =>
    refine ⟨rfl, ?_⟩
    funext record
    simp [rolledBack, Touches]
  | cons op ops ih =>
    -- another operation on the record would be of the same type, so the same operation
    have hother : ∀ op' ∈ ops, op'.record ≠ op.record := by
      intro op' hop hrecord
      exact h.not_touches ⟨op', hop,
        hone op' (List.mem_cons_of_mem op hop) op List.mem_cons_self hrecord, hrecord⟩
    obtain ⟨data, hdata, hchanges⟩ := changes_rollbackStep lib h hrc hother
    obtain ⟨hasserts, hrecords⟩ := ih (h.tail_gone hchanges hother) hchanges.rc
      fun op₁ hop₁ op₂ hop₂ => hone op₁ (List.mem_cons_of_mem op hop₁) op₂
        (List.mem_cons_of_mem op hop₂)
    rw [List.foldl_cons]
    refine ⟨hasserts.trans hchanges.asserts, ?_⟩
    rw [hrecords, hchanges.records]
    funext record
    by_cases hrecord : record = op.record
    · subst hrecord
      have hnot : ∀ type, ¬Touches ops type op.record := by
        rintro type ⟨op', hop, -, hrecord⟩
        exact hother op' hop hrecord
      rw [Function.update_self, hdata]
      simp only [rolledBack, hnot, if_false]
    · rw [Function.update_of_ne hrecord, rolledBack_cons_of_ne hrecord]

/-- An `ASSERT` that failed stays failed. -/
theorem asserts_of_rollbackStep (h : (rollbackStep lib trxId op p).asserts = true) :
    p.asserts = true := by
  unfold rollbackStep at h
  cases htype : op.type with
  | insert =>
    simp only [htype] at h
    split at h
    · exact absurd h Bool.false_ne_true
    · exact (Bool.and_eq_true_iff.1 h).1
  | delete =>
    simp only [htype, Pass.visit, Bool.and_eq_true] at h
    exact h.1.1.1.1
  | update => simp [htype] at h
  | undefined => simp [htype] at h

theorem asserts_of_rollbackStep_foldl (ops : List Operation)
    (h : (ops.foldl (fun p op => rollbackStep lib trxId op p) p).asserts = true) :
    p.asserts = true := by
  induction ops generalizing p with
  | nil => exact h
  | cons op ops ih => exact asserts_of_rollbackStep (ih h)

/-- A deletion that is undone behind the insertion of the same record finds no record. -/
theorem asserts_insert_delete (lib : StdLib) {ins del : Operation} (h : Left trxId p ops)
    (hins : ins ∈ ops) (htype : ins.type = .insert) (htype' : del.type = .delete)
    (hrecord : del.record = ins.record) :
    (rollbackStep lib trxId del (rollbackStep lib trxId ins p)).asserts = false := by
  obtain ⟨data, hdata, -⟩ := h.xid ins hins
  have hgone := (changes_rollbackInsert lib trxId htype
    (h.wellFormed ins hins) hdata).2
  have htable : del.table = ins.table := congrArg Prod.fst hrecord
  have hrid : del.recordRid = ins.recordRid := congrArg Prod.snd hrecord
  rw [← htable, ← hrid] at hgone
  rw [rollbackStep, htype']
  simp only [Pass.visit, hgone]
  simp

namespace Store

def records (s : Store) (record : RecordId) : Option (List (BitVec 8)) :=
  (s.tables record.1).recordHandler.records record.2

def withOrder (order : List Operation) (s : Store) : Store :=
  { s with trx := { s.trx with operations := order } }

def OperationsLeft (s : Store) : Prop :=
  Left s.trx.trxId ⟨.success, true, s.tables⟩ s.trx.operations

theorem commitWithTrxId_eq (lib : StdLib) (commitXid : Int32) (s : Store) :
    let p := s.trx.operations.foldl (fun p op => commitStep lib s.trx.trxId commitXid op p)
      ⟨.success, true, s.tables⟩
    (s.commitWithTrxId lib commitXid).1.2 = p.asserts ∧
      (s.commitWithTrxId lib commitXid).2.records = p.records ∧
      (s.commitWithTrxId lib commitXid).2.trx.operations = [] := by
  unfold commitWithTrxId
  dsimp only
  split <;> split <;> exact ⟨rfl, rfl, rfl⟩

theorem rollback_eq (lib : StdLib) (s : Store) :
    let p := s.trx.operations.foldl (fun p op => rollbackStep lib s.trx.trxId op p)
      ⟨.success, true, s.tables⟩
    (s.rollback lib).1.2 = p.asserts ∧ (s.rollback lib).2.records = p.records := by
  unfold rollback
  dsimp only
  split <;> exact ⟨rfl, rfl⟩

/-- A commit sets the xids of the records that its operations are about, in whatever order the
set is walked, changes no other byte, and passes its `ASSERT`s. -/
theorem commitWithTrxId_effect (lib : StdLib) (commitXid : Int32) {s : Store}
    (h : s.OperationsLeft) {order : List Operation} (hperm : order.Perm s.trx.operations) :
    let r := (s.withOrder order).commitWithTrxId lib commitXid
    r.1.2 = true ∧ r.2.trx.operations = [] ∧ ∀ record,
      (s.records record = none → r.2.records record = none) ∧
      ∀ data, s.records record = some data → ∃ data', r.2.records record = some data' ∧
        data'.length = data.length ∧
        (Touches s.trx.operations .insert record → xidAt 0 data' = commitXid) ∧
        (Touches s.trx.operations .delete record → xidAt 4 data' = commitXid) ∧
        ∀ k, (k < 4 → ¬Touches s.trx.operations .insert record) →
          (4 ≤ k → k < 8 → ¬Touches s.trx.operations .delete record) →
          data'[k]? = data[k]? := by
  obtain ⟨hasserts, hrecords, hempty⟩ := commitWithTrxId_eq lib commitXid (s.withOrder order)
  obtain ⟨hasserts', hrecords'⟩ := commitStep_foldl lib commitXid (h.perm hperm)
  have hrecord : ∀ record, ((s.withOrder order).commitWithTrxId lib commitXid).2.records record =
      (s.records record).map (committed s.trx.operations commitXid record) := by
    intro record
    rw [hrecords, ← committed_perm hperm]
    exact congrFun hrecords' record
  refine ⟨hasserts.trans hasserts', hempty, fun record => ⟨fun hnone => ?_, fun data hdata => ?_⟩⟩
  · rw [hrecord, hnone]
    rfl
  · use committed s.trx.operations commitXid record data
    rw [hrecord, hdata]
    have hlength : ∀ type, Touches s.trx.operations type record → 8 ≤ data.length := by
      rintro type ⟨op, hop, -, rfl⟩
      have hwf := h.wellFormed op hop
      have hsize := (hwf.inv.of_records hdata).2.2
      rw [hsize]
      exact hwf.recordSize
    exact ⟨rfl, length_committed, fun htouches => (xidAt_committed (hlength _ htouches)).1 htouches,
      fun htouches => (xidAt_committed (hlength _ htouches)).2 htouches,
      fun k hins hdel => getElem?_committed hins hdel⟩

/-- A rollback is the same in every order of the set: its `ASSERT`s hold, the inserted records
are gone and the deleted ones are current again. -/
def RollbackInAnyOrder (lib : StdLib) (s : Store) : Prop :=
  ∀ order : List Operation, order.Perm s.trx.operations →
    let r := (s.withOrder order).rollback lib
    r.1.2 = true ∧
      ∀ record, r.2.records record = rolledBack s.trx.operations record (s.records record)

/-- A rollback does so if and only if the transaction did not delete a record that it had
inserted. -/
theorem rollbackInAnyOrder_iff (lib : StdLib) {s : Store} (h : s.OperationsLeft) :
    s.RollbackInAnyOrder lib ↔ OneTypeEach s.trx.operations := by
  constructor
  · intro hany op hop op' hop' hrecord
    by_contra htype
    -- the insertion is undone first, then the deletion
    obtain ⟨ins, hins, del, hdel, htypeIns, htypeDel, hrecord⟩ :
        ∃ ins ∈ s.trx.operations, ∃ del ∈ s.trx.operations,
          ins.type = .insert ∧ del.type = .delete ∧ del.record = ins.record := by
      rcases h.type op hop with hop₁ | hop₁ <;> rcases h.type op' hop' with hop₂ | hop₂
      · exact absurd (hop₁.trans hop₂.symm) htype
      · exact ⟨op, hop, op', hop', hop₁, hop₂, hrecord.symm⟩
      · exact ⟨op', hop', op, hop, hop₂, hop₁, hrecord⟩
      · exact absurd (hop₁.trans hop₂.symm) htype
    have hne : del ≠ ins := by
      rintro rfl
      rw [htypeIns] at htypeDel
      cases htypeDel
    have hperm : (ins :: del :: (s.trx.operations.erase ins).erase del).Perm s.trx.operations :=
      (((List.perm_cons_erase hins).trans ((List.perm_cons_erase
        ((List.mem_erase_of_ne hne).2 hdel)).cons ins))).symm
    have hasserts := (hany _ hperm).1
    rw [(rollback_eq lib _).1] at hasserts
    have hstep : (rollbackStep lib s.trx.trxId del (rollbackStep lib s.trx.trxId ins
        ⟨.success, true, s.tables⟩)).asserts = true :=
      asserts_of_rollbackStep_foldl ((s.trx.operations.erase ins).erase del) hasserts
    have hfails := asserts_insert_delete lib h hins htypeIns htypeDel hrecord
    exact Bool.false_ne_true (hfails.symm.trans hstep)
  · intro hone order hperm
    obtain ⟨hasserts, hrecords⟩ := rollback_eq lib (s.withOrder order)
    have hone' : OneTypeEach order := fun op hop op' hop' =>
      hone op (hperm.subset hop) op' (hperm.subset hop')
    obtain ⟨hasserts', hrecords'⟩ := rollbackStep_foldl lib (h.perm hperm) rfl hone'
    refine ⟨hasserts.trans hasserts', fun record => ?_⟩
    rw [hrecords, ← rolledBack_perm hperm]
    exact congrFun hrecords' record

end Store

end TDB.Mvcc
