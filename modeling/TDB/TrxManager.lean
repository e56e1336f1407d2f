import TDB.Lib.Threads
import TDB.RecordVersions

namespace TDB.Mvcc

open Redo

/-! ## `MvccTrxManager` and the sessions that use it -/

/-- A `Trx *`: the transaction of a session, or one that recovery has made. -/
inductive TrxPtr where
  | session (i : ℕ)
  | recovered (k : ℕ)
  deriving DecidableEq

/-- What can be observed of a run.  No code reads it. -/
inductive Event where
  | gave (i : ℕ) (trxId : Int32)
  | appended (rc : RC) (e : LogEntry)
  | committed (trxId commitXid : Int32)
  deriving DecidableEq

/-- The server: the manager with its counter and its list, the transactions, the mode of each
session, the tables, the log, and what has been observed so far. -/
structure Server where
  currentTrxId : Int32 := 0
  trxes : List TrxPtr := []
  heap : TrxPtr → Option MvccTrx := fun _ => none
  multiOperationMode : ℕ → Bool := fun _ => false
  tables : ℕ → Table
  log : LogManager := {}
  trace : List Event := []

namespace Server

def setTrx (p : TrxPtr) (t : MvccTrx) (s : Server) : Server :=
  { s with heap := Function.update s.heap p (some t) }

/-- `create_trx(LogManager *)`. -/
def createTrx (i : ℕ) (s : Server) : Server :=
  { s.setTrx (.session i) ⟨-1, false, false, []⟩ with trxes := s.trxes ++ [.session i] }

/-- `create_trx(int32_t)`, at a new address. -/
def createRecovered (trxId : Int32) (s : Server) : Server :=
  let p := TrxPtr.recovered s.trxes.length
  { s.setTrx p ⟨trxId, true, true, []⟩ with
    trxes := s.trxes ++ [p]
    currentTrxId := if s.currentTrxId < trxId then trxId else s.currentTrxId }

def destroyTrx (p : TrxPtr) (s : Server) : Server :=
  { s with trxes := s.trxes.erase p, heap := Function.update s.heap p none }

def findTrx (trxId : Int32) (s : Server) : Option TrxPtr :=
  s.trxes.find? fun p => (s.heap p).map MvccTrx.trxId = some trxId

/-- `next_trx_id`, called for a session. -/
def nextTrxId (i : ℕ) (s : Server) : Int32 × Server :=
  (s.currentTrxId + 1,
    { s with
      currentTrxId := s.currentTrxId + 1, trace := s.trace ++ [.gave i (s.currentTrxId + 1)] })

/-- `update_trx_id`; its loop ends with the counter at least `trxId`. -/
def updateTrxId (trxId : Int32) (s : Server) : Server :=
  if s.currentTrxId < trxId then { s with currentTrxId := trxId } else s

end Server

/-! ## What the sessions do -/

/-- The calls of a statement that touch what the sessions share.  A call that goes on after the
manager has given it a number is continued by a call of its own. -/
inductive Call where
  | currentTrx
  | setTrxMultiOperationMode (mode : Bool)
  | startIfNeed
  | appendBeginTrxLog
  | insertRecord (table : ℕ) (rid : Int32 × Int32)
  | deleteRecord (table : ℕ) (rid : Int32 × Int32)
  | sqlResultClose (rc : RC)
  | commit
  | commitWithTrxId (commitXid : Int32)
  | rollback
  | destroyTrx
  deriving DecidableEq

namespace Server

/-- The trace of an entry that is handed to `append_log`. -/
def appends (e : LogEntry) (log : LogManager) : Event := .appended (appendLog e log).1 e

def store (t : MvccTrx) (s : Server) : Store := ⟨s.currentTrxId, s.tables, s.log, t⟩

@[simp] theorem store_trx (t : MvccTrx) (s : Server) : (s.store t).trx = t := rfl

@[simp] theorem store_log (t : MvccTrx) (s : Server) : (s.store t).log = s.log := rfl

@[simp] theorem store_currentTrxId (t : MvccTrx) (s : Server) :
    (s.store t).currentTrxId = s.currentTrxId := rfl

/-- What a commit or a rollback leaves of the store, with what has been observed of it. -/
def setStore (p : TrxPtr) (st : Store) (events : List Event) (s : Server) : Server :=
  { s.setTrx p st.trx with
    currentTrxId := st.currentTrxId, tables := st.tables, log := st.log
    trace := s.trace ++ events }

def addOperation (p : TrxPtr) (t : MvccTrx) (op : Operation) (s : Server) : Server :=
  if op ∈ t.operations then s else s.setTrx p { t with operations := t.operations ++ [op] }

def runTrx (lib : StdLib) (i : ℕ) (t : MvccTrx) (s : Server) : Call → List Call × Server
  | .startIfNeed =>
    if t.started then ([], s)
    else
      let (trxId, s) := s.nextTrxId i
      ([.appendBeginTrxLog], s.setTrx (.session i) { t with trxId := trxId })
  | .appendBeginTrxLog =>
    -- the code of `append_begin_trx_log` is only looked at by an `ASSERT`
    let events := [appends (buildMtrEntry .mtrBegin t.trxId) s.log]
    let (_, log) := Redo.appendBeginTrxLog t.trxId s.log
    ([], { s.setTrx (.session i) { t with started := true } with
      log := log, trace := s.trace ++ events })
  | .insertRecord table rid => ([], s.addOperation (.session i) t ⟨.insert, table, rid⟩)
  | .deleteRecord table rid => ([], s.addOperation (.session i) t ⟨.delete, table, rid⟩)
  | .commit =>
    let (commitId, s) := s.nextTrxId i
    ([.commitWithTrxId commitId], s)
  | .commitWithTrxId commitXid =>
    let ((rc, _), st) := (s.store t).commitWithTrxId lib commitXid
    let events := appends (buildCommitEntry t.trxId commitXid) s.log ::
      if rc = .success then [.committed t.trxId commitXid] else []
    ([], s.setStore (.session i) st events)
  | .rollback =>
    let (_, st) := (s.store t).rollback lib
    ([], s.setStore (.session i) st [appends (buildMtrEntry .mtrRollback t.trxId) s.log])
  | .destroyTrx =>
    -- the next connection of this number starts with a new `Session`
    ([], { s.destroyTrx (.session i) with
      multiOperationMode := Function.update s.multiOperationMode i false })
  | _ => ([], s)

def run (lib : StdLib) (i : ℕ) (c : Call) (s : Server) : List Call × Server :=
  match c with
  | .currentTrx => ([], if s.heap (.session i) = none then s.createTrx i else s)
  | .setTrxMultiOperationMode mode =>
    ([], { s with multiOperationMode := Function.update s.multiOperationMode i mode })
  | .sqlResultClose rc =>
    (if s.multiOperationMode i then [] else if rc = .success then [.commit] else [.rollback], s)
  | c =>
    match s.heap (.session i) with
    | none => ([], s)
    | some t => s.runTrx lib i t c

end Server

/-- The statements of a session, as far as transactions are concerned.  `operations` are what a
query's operators do before they end; `closed` is what `operator_->close()` returns, if
`send_result` gets there at all. -/
inductive Statement where
  | query (operations : List Operation) (closed : Option RC)
  | createIndex
  | begin
  | commit
  | rollback
  | disconnect

/-- `insert_record` and `delete_record` of the transaction. -/
def Operation.call (op : Operation) : Option Call :=
  match op.type with
  | .insert => some (.insertRecord op.table op.rid)
  | .delete => some (.deleteRecord op.table op.rid)
  | .update | .undefined => none

/-- The calls of a statement: `SqlResult::init` and `close` around the operators, and the executors
of the other statements. -/
def Statement.calls : Statement → List Call
  | .query operations closed =>
    [.currentTrx, .startIfNeed] ++ operations.filterMap Operation.call ++
      closed.toList.map Call.sqlResultClose
  | .createIndex => [.currentTrx]
  | .begin => [.currentTrx, .setTrxMultiOperationMode true, .startIfNeed]
  | .commit => [.setTrxMultiOperationMode false, .currentTrx, .commit]
  | .rollback => [.setTrxMultiOperationMode false, .currentTrx, .rollback]
  | .disconnect => [.destroyTrx]

/-- Recovery, before the first session: it makes transactions with the numbers of the log, and
raises the counter to the numbers of their commits. -/
inductive RecoveryCall where
  | createTrx (trxId : Int32)
  | updateTrxId (trxId : Int32)

def RecoveryCall.run : RecoveryCall → Server → Server
  | .createTrx trxId => Server.createRecovered trxId
  | .updateTrxId trxId => Server.updateTrxId trxId

def Server.start (tables : ℕ → Table) (log : LogManager) (recovery : List RecoveryCall) : Server :=
  recovery.foldl (fun s c => c.run s) { tables := tables, log := log }

end TDB.Mvcc
