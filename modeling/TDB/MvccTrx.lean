import TDB.LogManager

namespace TDB.Mvcc

open Redo

/-! ## `MvccTrx` -/

inductive OperationType where
  | insert | update | delete | undefined
  deriving DecidableEq

structure Operation where
  type : OperationType
  table : ℕ
  rid : Int32 × Int32
  deriving DecidableEq

structure Xids where
  beginXid : Int32
  endXid : Int32
  deriving DecidableEq

abbrev Versions := ℕ → Int32 × Int32 → Option Xids

/-- `MvccTrx`.  The order of the operations stands for the one in which the set is walked. -/
structure MvccTrx where
  trxId : Int32
  started : Bool
  recovering : Bool
  operations : List Operation

/-- A transaction with what it works on: the counter of the manager, the records and the log. -/
structure System where
  currentTrxId : Int32
  versions : Versions
  log : LogManager
  trx : MvccTrx

def visitRecord (table : ℕ) (rid : Int32 × Int32) (updater : Xids → Xids) (versions : Versions) :
    RC × Versions :=
  match versions table rid with
  | none => (.recordNotExist, versions)
  | some xids => (.success,
      Function.update versions table (Function.update (versions table) rid (some (updater xids))))

/-- The body of the loop of `commit_with_trx_id`.  The `ASSERT`s are compiled out of release
builds. -/
def commitOperation (commitXid : Int32) (op : Operation) (rc : RC) (versions : Versions) :
    RC × Versions :=
  match op.type with
  | .insert => visitRecord op.table op.rid (fun xids =>
    { xids with beginXid := commitXid }) versions
  | .delete => visitRecord op.table op.rid (fun xids => { xids with endXid := commitXid }) versions
  | .update | .undefined => (rc, versions)

def commitOperations (commitXid : Int32) : List Operation → RC → Versions → RC × Versions
  | [], rc, versions => (rc, versions)
  | op :: ops, rc, versions =>
    let (rc, versions) := commitOperation commitXid op rc versions
    commitOperations commitXid ops rc versions

def commitWithTrxId (commitXid : Int32) (s : System) : RC × System :=
  let s := { s with trx := { s.trx with started := false } }
  let s := if s.trx.recovering ∧ s.currentTrxId < commitXid then
      { s with currentTrxId := commitXid } else s
  let (rc, versions) := commitOperations commitXid s.trx.operations .success s.versions
  let s := { s with versions := versions, trx := { s.trx with operations := [] } }
  if s.trx.recovering then (rc, s)
  else
    let (rc, log) := appendCommitTrxLog s.trx.trxId commitXid s.log
    (rc, { s with log := log })

def commit (s : System) : RC × System :=
  let commitId := s.currentTrxId + 1
  commitWithTrxId commitId { s with currentTrxId := commitId }

/-! ## What a commit leaves when it fails -/

def OperationsLeft (s : System) : Prop :=
  ∀ op ∈ s.trx.operations, ∃ xids, s.versions op.table op.rid = some xids ∧
    (op.type = .insert ∧ xids.beginXid = -s.trx.trxId ∨
      op.type = .delete ∧ xids.endXid = -s.trx.trxId)

/-- A failed commit leaves the records and the transaction as they were. -/
def CommitAtomic (s : System) : Prop :=
  let (rc, s') := commit s
  rc ≠ .success → s'.versions = s.versions ∧ s'.trx.operations = s.trx.operations ∧
    s'.trx.started = s.trx.started

/-- The log takes the commit entry, and `fsync` does not fail. -/
def LogTakesCommit (log : LogManager) : Prop :=
  log.totalSize + 4 < logBufferSize ∧ log.logFile.syncFaults.head? ≠ some true

theorem appendCommitTrxLog_success_iff (trxId commitXid : Int32) (log : LogManager) :
    (appendCommitTrxLog trxId commitXid log).1 = .success ↔ LogTakesCommit log := by
  unfold LogTakesCommit
  by_cases hfull : logBufferSize ≤ log.totalSize + 4
  · rw [appendCommitTrxLog_refused hfull]
    constructor
    · intro hrc
      cases hrc
    · intro hroom
      exact absurd hroom.1 (by omega)
  · rw [appendCommitTrxLog_accepted (by omega), sync_eq, flushLoop_syncFaults]
    by_cases hsync : log.logFile.syncFaults.head? = some true
    · simp [hsync]
    · simp only [hsync, if_false, ne_eq, not_false_eq_true, and_true, true_iff]
      omega

/-- A commit outside of recovery as one step: the records and the transaction change before the
log is asked. -/
theorem commit_eq {s : System} (hrecovering : s.trx.recovering = false) :
    commit s =
      ((appendCommitTrxLog s.trx.trxId (s.currentTrxId + 1) s.log).1,
        { currentTrxId := s.currentTrxId + 1
          versions := (commitOperations (s.currentTrxId + 1) s.trx.operations .success s.versions).2
          log := (appendCommitTrxLog s.trx.trxId (s.currentTrxId + 1) s.log).2
          trx := ⟨s.trx.trxId, false, false, []⟩ }) := by
  obtain ⟨currentTrxId, versions, log, ⟨trxId, started, recovering, operations⟩⟩ := s
  obtain rfl : recovering = false := hrecovering
  simp [commit, commitWithTrxId]

/-- A failed commit changes nothing exactly when there was nothing to commit. -/
theorem commit_atomic_iff (s : System) (hrecovering : s.trx.recovering = false) :
    CommitAtomic s ↔
      LogTakesCommit s.log ∨ s.trx.started = false ∧ s.trx.operations = [] := by
  unfold CommitAtomic
  rw [commit_eq hrecovering]
  dsimp only
  rw [ne_eq, appendCommitTrxLog_success_iff]
  constructor
  · intro h
    by_cases hlog : LogTakesCommit s.log
    · exact Or.inl hlog
    · obtain ⟨-, hoperations, hstarted⟩ := h hlog
      exact Or.inr ⟨hstarted.symm, hoperations.symm⟩
  · rintro (hlog | ⟨hstarted, hoperations⟩) hfails
    · exact absurd hlog hfails
    · rw [hoperations, hstarted]
      exact ⟨rfl, rfl, rfl⟩

/-- A commit of a transaction that has begun and done nothing yet, over an empty log. -/
theorem commit_atomic_empty_log : CommitAtomic ⟨1, fun _ _ => none, {}, ⟨1, true, false, []⟩⟩ :=
  (commit_atomic_iff ⟨1, fun _ _ => none, {}, ⟨1, true, false, []⟩⟩ rfl).mpr
    (Or.inl ⟨by decide, by decide⟩)

def oneInsert : System where
  currentTrxId := 1
  versions table rid := if table = 0 ∧ rid = (1, 0) then some ⟨-1, Int32.maxValue⟩ else none
  log := { logFile := { syncFaults := [true] } }
  trx := ⟨1, true, false, [⟨.insert, 0, (1, 0)⟩]⟩

/-- The `fsync` of its commit fails, and the record has become visible. -/
theorem not_commit_atomic_oneInsert :
    (commit oneInsert).1 = .ioerrSync ∧
      (commit oneInsert).2.versions 0 (1, 0) = some ⟨2, Int32.maxValue⟩ ∧
      ¬ ∀ s : System, s.trx.recovering = false → OperationsLeft s → CommitAtomic s := by
  refine ⟨by decide, by decide, fun h => ?_⟩
  have hleft : OperationsLeft oneInsert := by
    intro op hop
    obtain rfl := List.mem_singleton.mp hop
    exact ⟨⟨-1, Int32.maxValue⟩, rfl, Or.inl ⟨rfl, rfl⟩⟩
  have hatomic := (h oneInsert rfl hleft) (by decide)
  exact absurd hatomic.2.1 (by decide)

end TDB.Mvcc
