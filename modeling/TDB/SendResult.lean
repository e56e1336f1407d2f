import Mathlib.Data.List.Basic
import TDB.RC

namespace TDB.Execution

/-! ## The statement as `send_result` meets it

An operator tree is given by the codes its calls return: the loop of `send_result` sees nothing
else of it.  A tree whose `next` succeeds forever never ends its statement, so the rows are a list.
-/

/-- One output cell: `cell_at`, `value_to_string`, and the writes around them.  `padding` is the
write that fills the cell up to `min_width`, when there is one. -/
structure Cell where
  delimiter : RC
  cellAt : RC
  toText : RC
  padding : Option RC
  data : RC

/-- A tuple that `next_tuple` hands out, and the newline written after it. -/
structure Row where
  cells : List Cell
  newline : RC

/-- A physical operator tree.  `lastRc` is the code of the `next` call that ends the rows. -/
structure PhysicalOperator where
  openRc : RC
  rows : List Row
  lastRc : RC
  lastRc_ne : lastRc ≠ .success
  closeRc : RC

/-- `SqlResult`, with the communicator's answers to the writes of `send_schema` and to the write
of the final state. -/
structure SqlResult where
  returnCode : RC
  operator : Option PhysicalOperator
  schemaWrites : List RC
  cellNum : ℕ
  stateWrite : RC

/-- The session, with the code its transaction object returns from `commit`. -/
structure Session where
  trxMultiOperationMode : Bool
  commitRc : RC

inductive TrxEvent where
  | startIfNeed | commit | rollback
  deriving DecidableEq, Repr

structure Outcome where
  rc : RC
  needDisconnect : Bool
  returnCode : RC
  events : List TrxEvent

/-! ## `SqlResult` and `send_result` -/

/-- `SqlResult::close`: the code of the operators' `close` chooses commit or rollback. -/
def SqlResult.close (session : Session) (oper : PhysicalOperator) : RC × List TrxEvent :=
  if session.trxMultiOperationMode then (oper.closeRc, [])
  else if oper.closeRc = .success then (session.commitRc, [.commit])
  else (oper.closeRc, [.rollback])

/-- The writes of `send_schema`, up to the first that fails. -/
def sendSchema : List RC → RC
  | [] => .success
  | rc :: rest => if rc.fail then rc else sendSchema rest

def writeToCommunicator (padding : Option RC) (data : RC) : RC :=
  match padding with
  | some rc => if rc.fail then rc else data
  | none => data

def sendCell (first : Bool) (c : Cell) : RC :=
  if !first && c.delimiter.fail then c.delimiter
  else if c.cellAt ≠ .success then c.cellAt
  else if c.toText ≠ .success then c.toText
  else writeToCommunicator c.padding c.data

def sendCells (first : Bool) : List Cell → RC
  | [] => .success
  | c :: cs => if (sendCell first c).fail then sendCell first c else sendCells false cs

def sendRow (row : Row) : RC :=
  if (sendCells true row.cells).fail then sendCells true row.cells else row.newline

/-- The tuple loop: the code of the row that failed, or `none` when all rows were sent. -/
def sendRows : List Row → Option RC
  | [] => none
  | row :: rows => if (sendRow row).fail then some (sendRow row) else sendRows rows

/-- `PlainCommunicator::write_state`, the reply of every exit that sends no rows. -/
def writeState (result : SqlResult) (returnCode : RC) (events : List TrxEvent) : Outcome :=
  if result.stateWrite.fail then ⟨.ioerrWrite, true, returnCode, events⟩
  else ⟨.success, false, returnCode, events⟩

def sendResult (session : Session) (result : SqlResult) : Outcome :=
  match result.operator with
  | none => writeState result result.returnCode []
  | some oper =>
    let closed := SqlResult.close session oper
    if result.returnCode ≠ .success then writeState result result.returnCode []
    else if oper.openRc.fail then writeState result oper.openRc (.startIfNeed :: closed.2)
    else if (sendSchema result.schemaWrites).fail then
      ⟨sendSchema result.schemaWrites, true, .success, .startIfNeed :: closed.2⟩
    else match sendRows oper.rows with
      | some rc => ⟨rc, true, .success, .startIfNeed :: closed.2⟩
      | none =>
        -- a `next` error returns without `close`
        if oper.lastRc ≠ .recordEof then writeState result oper.lastRc [.startIfNeed]
        else if result.cellNum = 0 then writeState result closed.1 (.startIfNeed :: closed.2)
        else ⟨closed.1, false, .success, .startIfNeed :: closed.2⟩

/-! ## How a statement ends -/

inductive Ending where
  | openFailed | cellFailed | nextFailed | closeFailed | sendFailed | completed
  deriving DecidableEq, Repr

def Ending.OperatorError (e : Ending) : Prop :=
  e = .openFailed ∨ e = .cellFailed ∨ e = .nextFailed ∨ e = .closeFailed

def Cell.failure (first : Bool) (c : Cell) : Option Ending :=
  if !first && c.delimiter.fail then some .sendFailed
  else if c.cellAt ≠ .success then some .cellFailed
  else if c.toText ≠ .success then some .sendFailed
  else if (writeToCommunicator c.padding c.data).fail then some .sendFailed
  else none

def cellsFailure (first : Bool) : List Cell → Option Ending
  | [] => none
  | c :: cs => (c.failure first).or (cellsFailure false cs)

def Row.failure (row : Row) : Option Ending :=
  (cellsFailure true row.cells).or (if row.newline.fail then some .sendFailed else none)

def rowsFailure : List Row → Option Ending
  | [] => none
  | row :: rows => row.failure.or (rowsFailure rows)

/-- The first failing step of a statement in autocommit mode. -/
def ending (oper : PhysicalOperator) (schemaWrites : List RC) : Ending :=
  if oper.openRc.fail then .openFailed
  else if schemaWrites.any RC.fail then .sendFailed
  else match rowsFailure oper.rows with
    | some e => e
    | none =>
      if oper.lastRc ≠ .recordEof then .nextFailed
      else if oper.closeRc ≠ .success then .closeFailed
      else .completed

/-- Statement atomicity: an operator error rolls back and does not commit, a completed statement
commits once and does not roll back, and a started transaction does not stay open. -/
def Atomic (e : Ending) (events : List TrxEvent) : Prop :=
  (e.OperatorError → .rollback ∈ events ∧ .commit ∉ events) ∧
    (e = .completed → events.count .commit = 1 ∧ .rollback ∉ events) ∧
    (.startIfNeed ∈ events → .commit ∈ events ∨ .rollback ∈ events)

theorem sendSchema_fail (writes : List RC) : (sendSchema writes).fail = writes.any RC.fail := by
  induction writes with
  | nil => rfl
  | cons rc rest ih => cases h : rc.fail <;> simp [sendSchema, h, ih]

theorem Cell.failure_isSome (first : Bool) (c : Cell) :
    (c.failure first).isSome = (sendCell first c).fail := by
  unfold Cell.failure sendCell
  split_ifs <;> simp_all [RC.fail]

theorem cellsFailure_isSome (first : Bool) (cs : List Cell) :
    (cellsFailure first cs).isSome = (sendCells first cs).fail := by
  induction cs generalizing first with
  | nil => rfl
  | cons c cs ih =>
    have hc := Cell.failure_isSome first c
    cases h : (sendCell first c).fail <;>
      simp [cellsFailure, sendCells, Option.isSome_or, hc, h, ih]

theorem Row.failure_isSome (row : Row) : row.failure.isSome = (sendRow row).fail := by
  have hc := cellsFailure_isSome true row.cells
  cases h : (sendCells true row.cells).fail <;> cases hn : row.newline.fail <;>
    simp [Row.failure, sendRow, hc, h, hn]

/-- The loop of `send_result` stops in a row exactly when some step of a row fails. -/
theorem rowsFailure_isSome (rows : List Row) : (rowsFailure rows).isSome =
    (sendRows rows).isSome := by
  induction rows with
  | nil => rfl
  | cons row rows ih =>
    have hr := Row.failure_isSome row
    cases h : (sendRow row).fail <;> simp [rowsFailure, sendRows, Option.isSome_or, hr, h, ih]

/-- A row can end a statement by a cell of the operator tree or by sending it. -/
theorem cellsFailure_eq (first : Bool) (cs : List Cell) (e : Ending)
    (h : cellsFailure first cs = some e) : e = .cellFailed ∨ e = .sendFailed := by
  induction cs generalizing first with
  | nil => simp [cellsFailure] at h
  | cons c cs ih =>
    rcases Option.or_eq_some_iff.mp h with h | ⟨-, h⟩
    · unfold Cell.failure at h
      split_ifs at h <;> simp_all
    · exact ih false h

theorem rowsFailure_eq (rows : List Row) (e : Ending) (h : rowsFailure rows = some e) :
    e = .cellFailed ∨ e = .sendFailed := by
  induction rows with
  | nil => simp [rowsFailure] at h
  | cons row rows ih =>
    rcases Option.or_eq_some_iff.mp h with h | ⟨-, h⟩
    · rcases Option.or_eq_some_iff.mp h with h | ⟨-, h⟩
      · exact cellsFailure_eq true row.cells e h
      · split_ifs at h
        simp_all
    · exact ih h

theorem writeState_events (result : SqlResult) (rc : RC) (events : List TrxEvent) :
    (writeState result rc events).events = events := by
  unfold writeState
  split_ifs <;> rfl

/-- In autocommit mode the transaction is closed on every exit but that of a failing `next`. -/
theorem sendResult_events (session : Session) (result : SqlResult) (oper : PhysicalOperator)
    (hop : result.operator = some oper) (hrc : result.returnCode = .success)
    (hmode : session.trxMultiOperationMode = false) :
    (sendResult session result).events =
      if ending oper result.schemaWrites = .nextFailed then [.startIfNeed]
      else if oper.closeRc = .success then [.startIfNeed, .commit]
      else [.startIfNeed, .rollback] := by
  have hclose : .startIfNeed :: (SqlResult.close session oper).2 =
      if oper.closeRc = .success then [TrxEvent.startIfNeed, .commit]
      else [.startIfNeed, .rollback] := by
    unfold SqlResult.close
    split_ifs <;> simp_all
  have hrows := rowsFailure_isSome oper.rows
  unfold sendResult ending
  simp only [hop, hrc, ← sendSchema_fail, ne_eq, not_true_eq_false, ↓reduceIte]
  by_cases hopen : oper.openRc.fail
  · simp [hopen, writeState_events, hclose]
  by_cases hschema : (sendSchema result.schemaWrites).fail
  · simp [hopen, hschema, hclose]
  cases hsent : sendRows oper.rows with
  | some rc =>
    obtain ⟨e, he⟩ := Option.isSome_iff_exists.mp (by rw [hrows, hsent]; rfl)
    have hne : e ≠ .nextFailed := by
      rcases rowsFailure_eq oper.rows e he with rfl | rfl <;> decide
    simp [hopen, hschema, he, hne, hclose]
  | none =>
    have he : rowsFailure oper.rows = none := by
      rw [← Option.not_isSome_iff_eq_none, hrows, hsent]
      simp
    by_cases hlast : oper.lastRc = .recordEof
    · by_cases hcells : result.cellNum = 0 <;> by_cases hcl : oper.closeRc = .success <;>
        simp_all [writeState_events]
    · simp [hopen, hschema, he, hlast, writeState_events]

/-- The two endings after the last row tell whether the operators' `close` succeeded. -/
theorem ending_closeRc (oper : PhysicalOperator) (schemaWrites : List RC) :
    (ending oper schemaWrites = .closeFailed → oper.closeRc ≠ .success) ∧
      (ending oper schemaWrites = .completed → oper.closeRc = .success) := by
  unfold ending
  cases hrows : rowsFailure oper.rows with
  | some e =>
    rcases rowsFailure_eq oper.rows e hrows with rfl | rfl <;>
      split_ifs <;> simp
  | none => split_ifs <;> simp_all

/-- `UPDATE t SET d = 'x'` on a column of dates: `open` refuses the value, `close` succeeds. -/
def refusedOperator : PhysicalOperator :=
  ⟨.schemaFieldTypeMismatch, [], .recordEof, by decide, .success⟩

def refusedUpdate : SqlResult := ⟨.success, some refusedOperator, [], 0, .success⟩

/-- The failed statement is committed. -/
theorem refusedUpdate_not_atomic :
    (sendResult ⟨false, .success⟩ refusedUpdate).events = [.startIfNeed, .commit] ∧
      ¬ Atomic (ending refusedOperator []) (sendResult ⟨false, .success⟩ refusedUpdate).events := by
  refine ⟨rfl, fun h => ?_⟩
  exact (h.1 (.inl rfl)).2 (by decide)

/-- A statement is atomic exactly when no `next` fails and, where `open` or a `cell_at` fails,
`close` fails too. -/
theorem sendResult_atomic_iff (session : Session) (result : SqlResult) (oper : PhysicalOperator)
    (hop : result.operator = some oper) (hrc : result.returnCode = .success)
    (hmode : session.trxMultiOperationMode = false) :
    Atomic (ending oper result.schemaWrites) (sendResult session result).events ↔
      ending oper result.schemaWrites ≠ .nextFailed ∧
        (ending oper result.schemaWrites = .openFailed ∨
          ending oper result.schemaWrites = .cellFailed → oper.closeRc ≠ .success) := by
  obtain ⟨hfailed, hcompleted⟩ := ending_closeRc oper result.schemaWrites
  rw [sendResult_events session result oper hop hrc hmode]
  cases he : ending oper result.schemaWrites <;> by_cases hcl : oper.closeRc = .success <;>
    simp_all [Atomic, Ending.OperatorError]

def selectOperator : PhysicalOperator :=
  ⟨.success, [⟨[⟨.success, .success, .success, none, .success⟩], .success⟩], .recordEof,
    by decide, .success⟩

theorem select_atomic :
    Atomic (ending selectOperator [.success, .success])
      (sendResult ⟨false, .success⟩
        ⟨.success, some selectOperator, [.success, .success], 1, .success⟩).events :=
  (sendResult_atomic_iff ⟨false, .success⟩
    ⟨.success, some selectOperator, [.success, .success], 1, .success⟩ selectOperator
    rfl rfl rfl).mpr (by decide)

end TDB.Execution
