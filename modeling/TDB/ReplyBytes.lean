import TDB.Lib.Framing
import TDB.PlainCommunicator
import TDB.SendResult

namespace TDB.SessionReply

open Framing

/-! ## What a statement leaves to send -/

/-- A C string: the bytes before its NUL. -/
structure CString where
  bytes : List (BitVec 8)
  noNul : 0#8 ∉ bytes

def ascii (s : String) : List (BitVec 8) := s.toList.map fun c => BitVec.ofNat 8 c.toNat

/-- One output cell: the codes of `cell_at` and `value_to_string`, and the string. -/
structure Cell where
  cellAt : RC
  toText : RC
  text : CString

/-- A physical operator tree.  `lastRc` is the code of the `next` call that ends the rows; a row
without a tuple has no cells. -/
structure PhysicalOperator where
  openRc : RC
  rows : List (List Cell)
  lastRc : RC
  lastRc_ne : lastRc ≠ .success
  closeRc : RC

/-- `SqlResult`, with the aliases of its schema. -/
structure SqlResult where
  returnCode : RC
  stateString : CString
  operator : Option PhysicalOperator
  schema : List CString

/-! ## The bytes of a reply

The writes succeed: what they write reaches the client in this order.
-/

def strrc : RC → String
  | .success => "SUCCESS"
  | .invalidArgument => "INVALID_ARGUMENT"
  | .unimplenment => "UNIMPLENMENT"
  | .sqlSyntax => "SQL_SYNTAX"
  | .internal => "INTERNAL"
  | .nomem => "NOMEM"
  | .notfound => "NOTFOUND"
  | .empty => "EMPTY"
  | .bufferpoolOpen => "BUFFERPOOL_OPEN"
  | .bufferpoolNobuf => "BUFFERPOOL_NOBUF"
  | .bufferpoolInvalidPageNum => "BUFFERPOOL_INVALID_PAGE_NUM"
  | .recordOpenned => "RECORD_OPENNED"
  | .recordInvalidRid => "RECORD_INVALID_RID"
  | .recordInvalidKey => "RECORD_INVALID_KEY"
  | .recordDuplicateKey => "RECORD_DUPLICATE_KEY"
  | .recordNomem => "RECORD_NOMEM"
  | .recordEof => "RECORD_EOF"
  | .recordNotExist => "RECORD_NOT_EXIST"
  | .recordInvisible => "RECORD_INVISIBLE"
  | .schemaDbExist => "SCHEMA_DB_EXIST"
  | .schemaDbNotExist => "SCHEMA_DB_NOT_EXIST"
  | .schemaDbNotOpened => "SCHEMA_DB_NOT_OPENED"
  | .schemaTableNotExist => "SCHEMA_TABLE_NOT_EXIST"
  | .schemaTableExist => "SCHEMA_TABLE_EXIST"
  | .schemaFieldNotExist => "SCHEMA_FIELD_NOT_EXIST"
  | .schemaFieldMissing => "SCHEMA_FIELD_MISSING"
  | .schemaFieldTypeMismatch => "SCHEMA_FIELD_TYPE_MISMATCH"
  | .schemaIndexNameRepeat => "SCHEMA_INDEX_NAME_REPEAT"
  | .ioerrRead => "IOERR_READ"
  | .ioerrWrite => "IOERR_WRITE"
  | .ioerrAccess => "IOERR_ACCESS"
  | .ioerrOpen => "IOERR_OPEN"
  | .ioerrClose => "IOERR_CLOSE"
  | .ioerrSeek => "IOERR_SEEK"
  | .ioerrTooLong => "IOERR_TOO_LONG"
  | .ioerrSync => "IOERR_SYNC"
  | .lockedUnlock => "LOCKED_UNLOCK"
  | .lockedNeedWait => "LOCKED_NEED_WAIT"
  | .lockedConcurrencyConflict => "LOCKED_CONCURRENCY_CONFLICT"
  | .fileExist => "FILE_EXIST"
  | .fileNotExist => "FILE_NOT_EXIST"
  | .fileName => "FILE_NAME"
  | .fileBound => "FILE_BOUND"
  | .fileCreate => "FILE_CREATE"
  | .fileOpen => "FILE_OPEN"
  | .fileNotOpened => "FILE_NOT_OPENED"
  | .fileClose => "FILE_CLOSE"
  | .fileRemove => "FILE_REMOVE"
  | .fileSeek => "FILE_SEEK"
  | .fileRead => "FILE_READ"
  | .fileWrite => "FILE_WRITE"
  | .variableNotExists => "VARIABLE_NOT_EXISTS"
  | .variableNotValid => "VARIABLE_NOT_VALID"
  | .logbufFull => "LOGBUF_FULL"
  | .onlyFunctions => "ONLY_FUNCTIONS"

def delim : List (BitVec 8) := ascii " | "

def newLine : List (BitVec 8) := ascii "\n"

def messageDelimiter : List (BitVec 8) := [0#8]

/-- The text that `write_state` prints into its buffer of 2048 bytes. -/
def stateText (returnCode : RC) (state : CString) : List (BitVec 8) :=
  let printed :=
    if state.bytes = [] then
      if returnCode = .success then ascii "SUCCESS" ++ newLine
      else ascii "Failure" ++ ascii " : " ++ ascii (strrc returnCode) ++ newLine
    else ascii (strrc returnCode) ++ ascii " > " ++ state.bytes ++ newLine
  printed.take 2047

structure Sent where
  rc : RC
  needDisconnect : Bool
  bytes : List (BitVec 8)

def writeState (returnCode : RC) (state : CString) : Sent :=
  ⟨.success, false, stateText returnCode state ++ messageDelimiter⟩

def writeToCommunicator (minWidth : ℕ) (data : CString) : List (BitVec 8) :=
  List.replicate (minWidth - data.bytes.length) (BitVec.ofNat 8 ' '.toNat) ++ data.bytes

def sendAliases (minWidth : ℕ) (first : Bool) : List CString → List (BitVec 8)
  | [] => []
  | name :: aliases =>
    (if first then [] else delim) ++ writeToCommunicator minWidth name ++
      sendAliases minWidth false aliases

def sendSchema (minWidth : ℕ) (schema : List CString) : List (BitVec 8) :=
  sendAliases minWidth true schema ++ if schema = [] then [] else newLine

/-- The column loop of one tuple: the bytes, and the code of the cell that fails. -/
def sendCells (minWidth : ℕ) (first : Bool) : List Cell → List (BitVec 8) × RC
  | [] => ([], .success)
  | c :: cells =>
    let before := if first then [] else delim
    if c.cellAt ≠ .success then (before, c.cellAt)
    else if c.toText ≠ .success then (before, c.toText)
    else
      let rest := sendCells minWidth false cells
      (before ++ writeToCommunicator minWidth c.text ++ rest.1, rest.2)

/-- The tuple loop: the bytes, and the code of the row that fails. -/
def sendRows (minWidth : ℕ) : List (List Cell) → List (BitVec 8) × Option RC
  | [] => ([], none)
  | row :: rows =>
    let sent := sendCells minWidth true row
    if sent.2.fail then (sent.1, some sent.2)
    else
      let rest := sendRows minWidth rows
      (sent.1 ++ newLine ++ rest.1, rest.2)

def SqlResult.close (session : Execution.Session) (oper : PhysicalOperator) : RC :=
  if session.trxMultiOperationMode then oper.closeRc
  else if oper.closeRc = .success then session.commitRc
  else oper.closeRc

def sendResult (session : Execution.Session) (minWidth : ℕ) (result : SqlResult) : Sent :=
  match result.operator with
  | none => writeState result.returnCode result.stateString
  | some oper =>
    if result.returnCode ≠ .success then writeState result.returnCode result.stateString
    else if oper.openRc.fail then writeState oper.openRc result.stateString
    else
      let head := sendSchema minWidth result.schema
      let rows := sendRows minWidth oper.rows
      match rows.2 with
      | some rc => ⟨rc, true, head ++ rows.1⟩
      | none =>
        let ending :=
          if oper.lastRc ≠ .recordEof then writeState oper.lastRc result.stateString
          else if result.schema = [] then
            writeState (SqlResult.close session oper) result.stateString
          else ⟨SqlResult.close session oper, false, []⟩
        { ending with bytes := head ++ rows.1 ++ ending.bytes }

/-- What `set_operator_schema` looks at: the aliases of a `SELECT`, or the kind of another
statement. -/
inductive Schema where
  | select (aliases : List CString)
  | explain
  | other

def queryPlan : CString := ⟨ascii "Query Plan", by decide⟩

/-- `set_operator_schema`: the schema and `min_width`. -/
def setOperatorSchema : Schema → List CString × ℕ
  | .select aliases =>
    (aliases, aliases.foldl (fun minWidth name =>
      if minWidth < name.bytes.length then name.bytes.length else minWidth) 0)
  | .explain => ([queryPlan], 0)
  | .other => ([], 0)

/-- What `execute` finds: a physical operator, or a statement for the command executor with what
that leaves in the `SqlResult`, or no statement. -/
inductive Work where
  | operator (schema : Schema) (oper : PhysicalOperator)
  | command (rc : RC) (state : CString) (shown : Option (List CString × PhysicalOperator))
  | nothing

/-- A statement on its way through `process_session_request`: the code of `planQuery`, the code and
the state that it leaves in the `SqlResult`, what there is to execute, and the time it takes. -/
structure Statement where
  session : Execution.Session
  planRc : RC
  returnCode : RC
  state : CString
  work : Work
  nanoseconds : ℕ

/-- The first half of `execute`: the `SqlResult` to send, and `min_width`. -/
def Statement.sqlResult (st : Statement) : Option (SqlResult × ℕ) :=
  match st.work with
  | .operator schema oper =>
    some (⟨st.returnCode, st.state, some oper, (setOperatorSchema schema).1⟩,
      (setOperatorSchema schema).2)
  | .command rc state shown =>
    some (⟨rc, state, shown.map Prod.snd, (shown.map Prod.fst).getD []⟩, 0)
  | .nothing => none

def execute (st : Statement) : Sent :=
  match st.sqlResult with
  | some (result, minWidth) => sendResult st.session minWidth result
  | none => ⟨.internal, true, []⟩

def isBlank (s : List (BitVec 8)) : Bool :=
  s.all fun b => b == BitVec.ofNat 8 ' '.toNat || (9#8).ule b && b.ule 13#8

/-- The line of the costs, in its buffer of 64 bytes. -/
def costText (nanoseconds : ℕ) : List (BitVec 8) :=
  (ascii "Cost time: " ++ (Nat.toDigits 10 nanoseconds).map (fun c => BitVec.ofNat 8 c.toNat) ++
    ascii " ns\n").take 63

/-- `planQuery` has failed, and there is nothing to execute. -/
def Statement.planFailed (st : Statement) : Bool :=
  st.planRc.fail && st.planRc != .unimplenment

/-- `process_session_request`: the bytes of the reply, and whether the connection is closed. -/
def processSessionRequest (sql : List (BitVec 8)) (st : Statement) : List (BitVec 8) × Bool :=
  if isBlank sql then ([], true)
  else if st.planFailed then ((writeState st.returnCode st.state).bytes, false)
  else
    ((execute st).bytes ++ costText st.nanoseconds ++ messageDelimiter,
      (execute st).needDisconnect)

/-! ## The client -/

def toLower (b : BitVec 8) : BitVec 8 :=
  if (65#8).ule b && b.ule 90#8 then b + 32#8 else b

/-- `strncasecmp` of a word with as many bytes of the command. -/
def startsWith (word : String) (cmd : List (BitVec 8)) : Bool :=
  (cmd.take word.length).map toLower == ascii word

def isExitCommand (cmd : List (BitVec 8)) : Bool :=
  startsWith "exit" cmd || startsWith "bye" cmd || startsWith "\\q" cmd

/-- The room for a line and its NUL, and for what a call of `recv` gives. -/
def maxMemBufferSize : ℕ := 63335 * 2

structure Line extends CString where
  fits : bytes.length < maxMemBufferSize

def clientCommands : List Line → List (List (BitVec 8))
  | [] => []
  | line :: lines =>
    if isBlank line.bytes then clientCommands lines
    else if isExitCommand line.bytes then []
    else line.bytes :: clientCommands lines

/-- A connection of this client to a server whose statements turn out like this; a statement may
depend on the requests before it. -/
def connection (statement : List (List (BitVec 8)) → Statement) : Protocol (BitVec 8) where
  delimiter := 0#8
  clientMax := maxMemBufferSize
  serverMax := PlainCommunicator.maxPacketSize
  clientMax_pos := by decide
  serverMax_pos := by decide
  serve requests := processSessionRequest (requests.getLastD []) (statement requests)

/-! ## Delimiters in a reply -/

theorem noNul_newLine : 0#8 ∉ newLine := by decide

theorem noNul_strrc (rc : RC) : 0#8 ∉ ascii (strrc rc) := by
  cases rc <;> decide

theorem noNul_stateText (returnCode : RC) (state : CString) :
    0#8 ∉ stateText returnCode state := by
  intro hmem
  have hprinted := List.mem_of_mem_take hmem
  have hrc := noNul_strrc returnCode
  have hnewLine := noNul_newLine
  have hstate := state.noNul
  have hwords : 0#8 ∉ ascii "SUCCESS" ∧ 0#8 ∉ ascii "Failure" ∧ 0#8 ∉ ascii " : " ∧
      0#8 ∉ ascii " > " := by decide
  obtain ⟨hsuccess, hfailure, hcolon, hgreater⟩ := hwords
  split_ifs at hprinted <;> simp_all only [List.mem_append, or_self]

theorem noNul_writeToCommunicator (minWidth : ℕ) (data : CString) :
    0#8 ∉ writeToCommunicator minWidth data := by
  have hspace : 0#8 ≠ BitVec.ofNat 8 ' '.toNat := by decide
  unfold writeToCommunicator
  rw [List.mem_append, not_or]
  constructor
  · intro hmem
    exact hspace (List.eq_of_mem_replicate hmem)
  · exact data.noNul

theorem noNul_before (first : Bool) : 0#8 ∉ (if first then [] else delim) := by
  cases first <;> decide

theorem noNul_sendAliases (minWidth : ℕ) (first : Bool) (aliases : List CString) :
    0#8 ∉ sendAliases minWidth first aliases := by
  induction aliases generalizing first with
  | nil => simp [sendAliases]
  | cons name aliases ih =>
    simp only [sendAliases, List.mem_append, not_or]
    exact ⟨⟨noNul_before first, noNul_writeToCommunicator minWidth name⟩, ih false⟩

theorem noNul_sendSchema (minWidth : ℕ) (schema : List CString) :
    0#8 ∉ sendSchema minWidth schema := by
  unfold sendSchema
  rw [List.mem_append, not_or]
  constructor
  · exact noNul_sendAliases minWidth true schema
  · split_ifs
    · exact List.not_mem_nil
    · exact noNul_newLine

theorem noNul_sendCells (minWidth : ℕ) (first : Bool) (cells : List Cell) :
    0#8 ∉ (sendCells minWidth first cells).1 := by
  induction cells generalizing first with
  | nil => simp [sendCells]
  | cons c cells ih =>
    have hbefore := noNul_before first
    have htext := noNul_writeToCommunicator minWidth c.text
    have hrest := ih false
    simp only [sendCells]
    split_ifs <;> simp_all

theorem noNul_sendRows (minWidth : ℕ) (rows : List (List Cell)) :
    0#8 ∉ (sendRows minWidth rows).1 := by
  induction rows with
  | nil => simp [sendRows]
  | cons row rows ih =>
    have hcells := noNul_sendCells minWidth true row
    have hnewLine := noNul_newLine
    simp only [sendRows]
    split_ifs <;> simp_all

theorem noNul_costText (nanoseconds : ℕ) : 0#8 ∉ costText nanoseconds := by
  intro hmem
  have hprinted := List.mem_of_mem_take hmem
  have hwords : 0#8 ∉ ascii "Cost time: " ∧ 0#8 ∉ ascii " ns\n" := by decide
  simp only [List.mem_append, hwords.1, hwords.2, false_or, or_false, List.mem_map] at hprinted
  obtain ⟨c, hc, hzero⟩ := hprinted
  have hdigit := Nat.isDigit_of_mem_toDigits (by decide) (by decide) hc
  rw [Char.isDigit_iff_toNat] at hdigit
  have hval := congrArg BitVec.toNat hzero
  have hzero : '0'.toNat = 48 := rfl
  have hnine : '9'.toNat = 57 := rfl
  simp only [BitVec.toNat_ofNat] at hval
  omega

/-! ## How a reply ends -/

/-- `cell_at` and `value_to_string` both succeed. -/
def Cell.Shown (c : Cell) : Prop := c.cellAt = .success ∧ c.toText = .success

def RowsShown (rows : List (List Cell)) : Prop := ∀ row ∈ rows, ∀ c ∈ row, c.Shown

/-- The result is sent as a state, with a delimiter of its own. -/
def SqlResult.AnswersWithState (result : SqlResult) : Prop :=
  ∀ oper ∈ result.operator, result.returnCode = .success → oper.openRc = .success →
    RowsShown oper.rows ∧ (oper.lastRc = .recordEof → result.schema = [])

def SqlResult.BreaksOff (result : SqlResult) : Prop :=
  ∃ oper ∈ result.operator, result.returnCode = .success ∧ oper.openRc = .success ∧
    ¬ RowsShown oper.rows

theorem sendCells_fail (minWidth : ℕ) (first : Bool) (cells : List Cell) :
    (sendCells minWidth first cells).2.fail = false ↔ ∀ c ∈ cells, c.Shown := by
  induction cells generalizing first with
  | nil => simp [sendCells, RC.fail]
  | cons c cells ih =>
    rw [List.forall_mem_cons, ← ih false]
    by_cases hcell : c.cellAt = .success
    · by_cases htext : c.toText = .success
      · simp [sendCells, Cell.Shown, hcell, htext]
      · simp [sendCells, Cell.Shown, RC.fail, hcell, htext]
    · simp [sendCells, Cell.Shown, RC.fail, hcell]

theorem sendRows_eq_none (minWidth : ℕ) (rows : List (List Cell)) :
    (sendRows minWidth rows).2 = none ↔ RowsShown rows := by
  induction rows with
  | nil => simp [sendRows, RowsShown]
  | cons row rows ih =>
    have hrow := sendCells_fail minWidth true row
    unfold RowsShown at ih ⊢
    rw [List.forall_mem_cons, ← ih, ← hrow]
    simp only [sendRows]
    split_ifs with hfail
    · simp [hfail]
    · simp [hfail]

/-- A state ends with its delimiter and keeps the connection. -/
structure Sent.IsState (sent : Sent) : Prop where
  framed : Framed 0#8 sent.bytes
  keeps : sent.needDisconnect = false

structure Sent.IsRows (sent : Sent) (breaksOff : Prop) : Prop where
  noNul : 0#8 ∉ sent.bytes
  needDisconnect : sent.needDisconnect = true ↔ breaksOff

theorem isState_writeState (returnCode : RC) (state : CString) :
    (writeState returnCode state).IsState :=
  ⟨⟨_, noNul_stateText returnCode state, rfl⟩, rfl⟩

theorem Sent.IsState.append {sent : Sent} (h : sent.IsState) {before : List (BitVec 8)}
    (hbefore : 0#8 ∉ before) : ({ sent with bytes := before ++ sent.bytes } : Sent).IsState := by
  obtain ⟨t, ht, hbytes⟩ := h.framed
  constructor
  case framed =>
    refine ⟨before ++ t, ?_, ?_⟩
    · simp [hbefore, ht]
    · simp [hbytes]
  case keeps => exact h.keeps

theorem sendResult_isState (session : Execution.Session) (minWidth : ℕ) (result : SqlResult)
    (h : result.AnswersWithState) : (sendResult session minWidth result).IsState := by
  unfold sendResult
  cases hoper : result.operator with
  | none => exact isState_writeState _ _
  | some oper =>
    by_cases hcode : result.returnCode = .success
    · by_cases hopen : oper.openRc = .success
      · obtain ⟨hrows, hschema⟩ := h oper hoper hcode hopen
        have hsent := (sendRows_eq_none minWidth oper.rows).mpr hrows
        have hhead :
            0#8 ∉ sendSchema minWidth result.schema ++ (sendRows minWidth oper.rows).1 := by
          rw [List.mem_append, not_or]
          exact ⟨noNul_sendSchema minWidth _, noNul_sendRows minWidth _⟩
        by_cases hlast : oper.lastRc = .recordEof
        · simpa [hcode, hopen, RC.fail, hsent, hlast, hschema hlast] using
            (isState_writeState (SqlResult.close session oper) result.stateString).append hhead
        · simpa [hcode, hopen, RC.fail, hsent, hlast] using
            (isState_writeState oper.lastRc result.stateString).append hhead
      · simpa [hcode, RC.fail, hopen] using isState_writeState oper.openRc result.stateString
    · simpa [hcode] using isState_writeState result.returnCode result.stateString

theorem sendResult_isRows (session : Execution.Session) (minWidth : ℕ) (result : SqlResult)
    (h : ¬ result.AnswersWithState) :
    (sendResult session minWidth result).IsRows result.BreaksOff := by
  unfold SqlResult.AnswersWithState at h
  push Not at h
  obtain ⟨oper, hoper, hcode, hopen, hrest⟩ := h
  have hoper' : result.operator = some oper := hoper
  have hhead : 0#8 ∉ sendSchema minWidth result.schema ++ (sendRows minWidth oper.rows).1 := by
    rw [List.mem_append, not_or]
    exact ⟨noNul_sendSchema minWidth _, noNul_sendRows minWidth _⟩
  have hbreaks : result.BreaksOff ↔ ¬ RowsShown oper.rows := by
    simp [SqlResult.BreaksOff, hoper', hcode, hopen]
  rw [hbreaks]
  by_cases hrows : RowsShown oper.rows
  · obtain ⟨hlast, hschema⟩ := hrest hrows
    have hsent := (sendRows_eq_none minWidth oper.rows).mpr hrows
    constructor <;> simp [sendResult, hoper', hcode, hopen, RC.fail, hsent, hlast, hschema, hrows]
    simpa using hhead
  · have hsent : (sendRows minWidth oper.rows).2 ≠ none := by
      intro hnone
      exact hrows ((sendRows_eq_none minWidth oper.rows).mp hnone)
    obtain ⟨rc, hrc⟩ := Option.ne_none_iff_exists'.mp hsent
    constructor <;> simp [sendResult, hoper', hcode, hopen, RC.fail, hrc, hrows]
    simpa using hhead

def Cell.codes (minWidth : ℕ) (c : Cell) : Execution.Cell :=
  ⟨.success, c.cellAt, c.toText, if c.text.bytes.length < minWidth then some .success else none,
    .success⟩

def PhysicalOperator.codes (minWidth : ℕ) (oper : PhysicalOperator) : Execution.PhysicalOperator :=
  ⟨oper.openRc, oper.rows.map fun row => ⟨row.map (Cell.codes minWidth), .success⟩, oper.lastRc,
    oper.lastRc_ne, oper.closeRc⟩

def SqlResult.codes (minWidth : ℕ) (result : SqlResult) : Execution.SqlResult :=
  ⟨result.returnCode, result.operator.map (PhysicalOperator.codes minWidth), [],
    result.schema.length, .success⟩

theorem sendCells_codes (minWidth : ℕ) (first : Bool) (cells : List Cell) :
    Execution.sendCells first (cells.map (Cell.codes minWidth)) =
      (sendCells minWidth first cells).2 := by
  induction cells generalizing first with
  | nil => rfl
  | cons c cells ih =>
    rw [List.map_cons, Execution.sendCells, ih]
    simp only [sendCells, Execution.sendCell, Cell.codes, Execution.writeToCommunicator]
    by_cases hcell : c.cellAt = .success
    · by_cases htext : c.toText = .success
      · by_cases hwidth : c.text.bytes.length < minWidth <;> simp [RC.fail, hcell, htext, hwidth]
      · simp [RC.fail, hcell, htext]
    · simp [RC.fail, hcell]

theorem sendRows_codes (minWidth : ℕ) (oper : PhysicalOperator) :
    Execution.sendRows (oper.codes minWidth).rows = (sendRows minWidth oper.rows).2 := by
  unfold PhysicalOperator.codes
  induction oper.rows with
  | nil => rfl
  | cons row rows ih =>
    rw [List.map_cons, Execution.sendRows, ih]
    simp only [sendRows, Execution.sendRow, sendCells_codes]
    by_cases hrow : (sendCells minWidth true row).2 = .success
    · simp [RC.fail, hrow]
    · simp [RC.fail, hrow]

/-- The bytes belong to the calls of `send_result` as they are followed by their codes. -/
theorem sendResult_codes (session : Execution.Session) (minWidth : ℕ) (result : SqlResult) :
    (Execution.sendResult session (result.codes minWidth)).rc =
        (sendResult session minWidth result).rc ∧
      (Execution.sendResult session (result.codes minWidth)).needDisconnect =
        (sendResult session minWidth result).needDisconnect := by
  unfold Execution.sendResult sendResult
  cases hoper : result.operator with
  | none => simp [SqlResult.codes, hoper, Execution.writeState, RC.fail, writeState]
  | some oper =>
    have hcodes : (result.codes minWidth).operator = some (oper.codes minWidth) := by
      simp [SqlResult.codes, hoper]
    have hclose : (Execution.SqlResult.close session (oper.codes minWidth)).1 =
        SqlResult.close session oper := by
      simp only [Execution.SqlResult.close, SqlResult.close, PhysicalOperator.codes]
      split_ifs <;> simp_all
    rw [hcodes]
    simp only [sendRows_codes, hclose]
    by_cases hcode : result.returnCode = .success
    · by_cases hopen : oper.openRc = .success
      · cases hrows : (sendRows minWidth oper.rows).2 with
        | some rc =>
          simp [SqlResult.codes, PhysicalOperator.codes, hcode, hopen, RC.fail,
            Execution.sendSchema]
        | none =>
          by_cases hlast : oper.lastRc = .recordEof
          · by_cases hschema : result.schema = [] <;>
              simp [SqlResult.codes, PhysicalOperator.codes, hcode, hopen, RC.fail,
                Execution.sendSchema, hlast, hschema, Execution.writeState, writeState]
          · simp [SqlResult.codes, PhysicalOperator.codes, hcode, hopen, RC.fail,
              Execution.sendSchema, hlast, Execution.writeState, writeState]
      · simp [SqlResult.codes, PhysicalOperator.codes, hcode, hopen, RC.fail,
          Execution.writeState, writeState]
    · simp [SqlResult.codes, hcode, RC.fail, Execution.writeState, writeState]

end TDB.SessionReply
