import Mathlib.Algebra.Ring.Int.Defs
import TDB.LogEntry

namespace TDB.Redo

open LittleEndian

/-! ## The log file -/

/-- A `LogFile` that is written.  `faults` says how the coming `write` calls end: `some n` is a
call that fails after `n` bytes; calls that the list does not reach succeed.  `syncFaults` marks
the coming `fsync` calls that fail. -/
structure LogFile where
  content : List UInt8 := []
  faults : List (Option ℕ) := []
  syncFaults : List Bool := []

/-- `LogFile::write`.  `writen` makes no system call for an empty buffer, and gives up only while
bytes are left to write. -/
def LogFile.write (data : List UInt8) (f : LogFile) : RC × LogFile :=
  if data = [] then (.success, f)
  else match f.faults with
    | some n :: faults => (.ioerrWrite,
        { f with content := f.content ++ data.take (min n (data.length - 1)), faults := faults })
    | none :: faults => (.success, { f with content := f.content ++ data, faults := faults })
    | [] => (.success, { f with content := f.content ++ data })

def LogFile.sync (f : LogFile) : RC × LogFile :=
  (if f.syncFaults.head? = some true then .ioerrSync else .success,
    { f with syncFaults := f.syncFaults.tail })

def writeLogEntry (e : LogEntry) (f : LogFile) : RC × LogFile :=
  let (rc, f) := f.write e.header.bytes
  if rc.fail then (rc, f)
  else if e.header.type = LogEntryType.mtrBegin.toInteger ∨
      e.header.type = LogEntryType.mtrRollback.toInteger then (rc, f)
  else if e.header.type = LogEntryType.mtrCommit.toInteger then
    f.write ((encode e.commitEntry.commitXid).take e.header.logEntryLen.toNatClampNeg)
  else
    let (rc, f) := f.write e.recordEntry.headerBytes
    if rc.fail then (rc, f)
    else f.write (e.recordEntry.data.take e.recordEntry.dataLen.toNatClampNeg)

/-! ## The log manager -/

def logBufferSize : ℤ := 4 * 1024 * 1024

/-- `LogManager` with its buffer and its file.  `total_size_` is an `int32_t`; it stays below
`LOG_BUFFER_SIZE`, so that no sum overflows. -/
structure LogManager where
  logEntrys : List LogEntry := []
  totalSize : ℤ := 0
  logFile : LogFile := {}

def LogEntry.len (e : LogEntry) : ℤ := e.header.logEntryLen.toInt

/-- `append_log`, which is `LogBuffer::append_log_entry`. -/
def appendLog (e : LogEntry) (m : LogManager) : RC × LogManager :=
  if logBufferSize ≤ m.totalSize + e.len then (.logbufFull, m)
  else (.success,
    { m with logEntrys := m.logEntrys ++ [e], totalSize := m.totalSize + e.len })

/-- The loop of `flush_buffer`.  An entry leaves the queue before it is written, and the code of
the write is only looked at by an `ASSERT`, which release builds compile out. -/
def flushLoop : List LogEntry → ℤ → LogFile → ℤ × LogFile
  | [], total, f => (total, f)
  | e :: es, total, f => flushLoop es (total - e.len) (writeLogEntry e f).2

/-- `LogManager::sync`, which is `LogBuffer::flush_buffer`. -/
def sync (m : LogManager) : RC × LogManager :=
  let (total, f) := flushLoop m.logEntrys m.totalSize m.logFile
  let (rc, f) := f.sync
  (rc, ⟨[], total, f⟩)

def appendBeginTrxLog (trxId : Int32) : LogManager → RC × LogManager :=
  appendLog (buildMtrEntry .mtrBegin trxId)

def appendRollbackTrxLog (trxId : Int32) : LogManager → RC × LogManager :=
  appendLog (buildMtrEntry .mtrRollback trxId)

def appendCommitTrxLog (trxId commitXid : Int32) (m : LogManager) : RC × LogManager :=
  let (rc, m) := appendLog (buildCommitEntry trxId commitXid) m
  if rc.fail then (rc, m) else sync m

def appendRecordLog (type : LogEntryType) (trxId tableId : Int32) (rid : Int32 × Int32)
    (dataOffset : Int32) (data : List UInt8) : LogManager → RC × LogManager :=
  appendLog (buildRecordEntry type trxId tableId rid dataOffset data)

inductive LogCall where
  | appendBegin (trxId : Int32)
  | appendRecord (type : LogEntryType) (ht : type = .insert ∨ type = .delete)
      (trxId tableId : Int32) (rid : Int32 × Int32) (dataOffset : Int32) (data : List UInt8)
      (hdata : data.length ≤ 2 ^ 30)
  | appendRollback (trxId : Int32)
  | appendCommit (trxId commitXid : Int32)
  | sync

def LogCall.run : LogCall → LogManager → RC × LogManager
  | .appendBegin trxId => appendBeginTrxLog trxId
  | .appendRecord type _ trxId tableId rid dataOffset data _ =>
    appendRecordLog type trxId tableId rid dataOffset data
  | .appendRollback trxId => appendRollbackTrxLog trxId
  | .appendCommit trxId commitXid => appendCommitTrxLog trxId commitXid
  | .sync => Redo.sync

def LogCall.entry : LogCall → Option LogEntry
  | .appendBegin trxId => some (buildMtrEntry .mtrBegin trxId)
  | .appendRecord type _ trxId tableId rid dataOffset data _ =>
    some (buildRecordEntry type trxId tableId rid dataOffset data)
  | .appendRollback trxId => some (buildMtrEntry .mtrRollback trxId)
  | .appendCommit trxId commitXid => some (buildCommitEntry trxId commitXid)
  | .sync => none

def LogCall.accepted (c : LogCall) (m : LogManager) : List LogEntry :=
  match c.entry with
  | none => []
  | some e => if (appendLog e m).1 = .success then [e] else []

/-- A sequence of calls: the accepted entries in order, and the manager after the last call. -/
def runCalls : List LogCall → LogManager → List LogEntry × LogManager
  | [], m => ([], m)
  | c :: cs, m =>
    let (es, m') := runCalls cs (c.run m).2
    (c.accepted m ++ es, m')

/-! ## What a flush writes -/

def writePieces : List (List UInt8) → LogFile → RC × LogFile
  | [], f => (.success, f)
  | p :: ps, f =>
    let (rc, f) := f.write p
    if rc.fail then (rc, f) else writePieces ps f

theorem writePieces_cons (p : List UInt8) (ps : List (List UInt8)) (f : LogFile) :
    writePieces (p :: ps) f =
      if (f.write p).1.fail then f.write p else writePieces ps (f.write p).2 := rfl

theorem writePieces_singleton (p : List UInt8) (f : LogFile) : writePieces [p] f = f.write p := by
  rw [writePieces_cons]
  generalize f.write p = r
  obtain ⟨rc, g⟩ := r
  cases rc <;> rfl

theorem writeLogEntry_eq (e : LogEntry) (f : LogFile) :
    writeLogEntry e f = writePieces e.pieces f := by
  unfold writeLogEntry LogEntry.pieces
  by_cases hmtr : e.header.type = LogEntryType.mtrBegin.toInteger ∨
      e.header.type = LogEntryType.mtrRollback.toInteger
  · simp only [if_pos hmtr, ite_self, writePieces_singleton]
  · by_cases hcommit : e.header.type = LogEntryType.mtrCommit.toInteger
    · simp only [if_neg hmtr, if_pos hcommit, writePieces_cons _ (_ :: _), writePieces_singleton]
    · simp only [if_neg hmtr, if_neg hcommit, writePieces_cons _ (_ :: _), writePieces_singleton]

def writeCalls (ps : List (List UInt8)) : ℕ := ps.countP fun p => !p.isEmpty

def LogFile.Clean (n : ℕ) (f : LogFile) : Prop := ∀ o ∈ f.faults.take n, o = none

def LogFile.wrote (bytes : List UInt8) (n : ℕ) (f : LogFile) : LogFile :=
  { f with content := f.content ++ bytes, faults := f.faults.drop n }

theorem LogFile.clean_add {n k : ℕ} {f : LogFile} (bytes : List UInt8) :
    f.Clean (n + k) ↔ f.Clean n ∧ (f.wrote bytes n).Clean k := by
  simp only [LogFile.Clean, LogFile.wrote, List.take_add, List.mem_append]
  constructor
  · intro h
    exact ⟨fun o ho => h o (Or.inl ho), fun o ho => h o (Or.inr ho)⟩
  · rintro ⟨h, h'⟩ o (ho | ho)
    · exact h o ho
    · exact h' o ho

theorem LogFile.wrote_wrote (bytes bytes' : List UInt8) (n k : ℕ) (f : LogFile) :
    (f.wrote bytes n).wrote bytes' k = f.wrote (bytes ++ bytes') (n + k) := by
  simp [LogFile.wrote, List.drop_drop]

/-- One `write` call: it writes everything, or it meets a fault and leaves bytes out. -/
theorem LogFile.write_cases (data : List UInt8) (f : LogFile) :
    f.Clean (writeCalls [data]) ∧ f.write data = (.success, f.wrote data (writeCalls [data])) ∨
      ¬ f.Clean (writeCalls [data]) ∧ (f.write data).1 = .ioerrWrite ∧
        (f.write data).2.content.length < f.content.length + data.length := by
  obtain ⟨content, faults, syncFaults⟩ := f
  by_cases hd : data = []
  · subst hd
    left
    simp [LogFile.Clean, LogFile.write, LogFile.wrote, writeCalls]
  · have hpos : 0 < data.length := List.length_pos_iff.mpr hd
    have hcalls : writeCalls [data] = 1 := by simp [writeCalls, hd]
    rw [hcalls]
    match faults with
    | [] =>
      left
      simp [LogFile.Clean, LogFile.write, LogFile.wrote, hd]
    | none :: faults =>
      left
      simp [LogFile.Clean, LogFile.write, LogFile.wrote, hd]
    | some n :: faults =>
      right
      simp only [LogFile.Clean, LogFile.write, hd, ↓reduceIte, List.length_append, List.length_take]
      exact ⟨by simp, trivial, by omega⟩

theorem writePieces_cases (ps : List (List UInt8)) (f : LogFile) :
    f.Clean (writeCalls ps) ∧ writePieces ps f = (.success, f.wrote ps.flatten (writeCalls ps)) ∨
      ¬ f.Clean (writeCalls ps) ∧ (writePieces ps f).1 = .ioerrWrite ∧
        (writePieces ps f).2.content.length < f.content.length + ps.flatten.length := by
  induction ps generalizing f with
  | nil =>
    left
    simp [LogFile.Clean, LogFile.wrote, writePieces, writeCalls]
  | cons p ps ih =>
    have hcalls : writeCalls (p :: ps) = writeCalls [p] + writeCalls ps := by
      simp only [writeCalls, List.countP_cons, List.countP_nil]
      omega
    rw [hcalls, LogFile.clean_add p, writePieces]
    rcases f.write_cases p with ⟨hclean, hwrite⟩ | ⟨hclean, hrc, hlen⟩
    · rw [hwrite]
      change _ ∧ writePieces ps (f.wrote p (writeCalls [p])) = _ ∨ _ ∧
        (writePieces ps (f.wrote p (writeCalls [p]))).1 = _ ∧
        (writePieces ps (f.wrote p (writeCalls [p]))).2.content.length < _
      rcases ih (f.wrote p (writeCalls [p])) with ⟨hc, hw⟩ | ⟨hc, hr, hl⟩
      · left
        rw [hw, LogFile.wrote_wrote, List.flatten_cons]
        exact ⟨⟨hclean, hc⟩, rfl⟩
      · right
        refine ⟨fun h => hc h.2, hr, ?_⟩
        simp only [LogFile.wrote, List.length_append, List.flatten_cons] at hl ⊢
        omega
    · right
      generalize f.write p = r at hrc hlen ⊢
      obtain ⟨rc, g⟩ := r
      simp only at hrc hlen
      subst hrc
      refine ⟨fun h => hclean h.1, rfl, ?_⟩
      change g.content.length < _
      rw [List.flatten_cons, List.length_append]
      omega

/-- The system calls that flushing some entries makes when none fails. -/
def flushCalls (es : List LogEntry) : ℕ := (es.map fun e => writeCalls e.pieces).sum

def failedEntries : List LogEntry → LogFile → List LogEntry
  | [], _ => []
  | e :: es, f =>
    let (rc, f') := writeLogEntry e f
    if rc.fail then e :: failedEntries es f' else failedEntries es f'

theorem flushLoop_total (es : List LogEntry) (total : ℤ) (f : LogFile) :
    (flushLoop es total f).1 = total - (es.map LogEntry.len).sum := by
  induction es generalizing total f with
  | nil => simp [flushLoop]
  | cons e es ih =>
    rw [flushLoop, ih, List.map_cons, List.sum_cons]
    omega

/-- A flush writes every entry, or meets a fault and leaves bytes of some entry out. -/
theorem flushLoop_cases (es : List LogEntry) (total : ℤ) (f : LogFile) :
    f.Clean (flushCalls es) ∧
        (flushLoop es total f).2 = f.wrote (encodeAll es) (flushCalls es) ∧
        failedEntries es f = [] ∨
      ¬ f.Clean (flushCalls es) ∧
        (flushLoop es total f).2.content.length < f.content.length + (encodeAll es).length ∧
        failedEntries es f ≠ [] := by
  induction es generalizing total f with
  | nil =>
    left
    simp [LogFile.Clean, LogFile.wrote, flushLoop, flushCalls, encodeAll, failedEntries]
  | cons e es ih =>
    have hcalls : flushCalls (e :: es) = writeCalls e.pieces + flushCalls es := rfl
    have hbytes : encodeAll (e :: es) = e.bytes ++ encodeAll es := rfl
    rw [hcalls, hbytes, flushLoop, failedEntries, writeLogEntry_eq, LogFile.clean_add e.bytes]
    -- the entry is written in full, or its write fails and the file stays short of it
    rcases writePieces_cases e.pieces f with ⟨hclean, hwrite⟩ | ⟨hclean, hrc, hlen⟩
    · rw [hwrite]
      rcases ih (total - e.len) (f.wrote e.bytes (writeCalls e.pieces)) with
        ⟨hc, hw, hf⟩ | ⟨hc, hl, hf⟩
      · left
        refine ⟨⟨hclean, hc⟩, ?_, hf⟩
        change (flushLoop es (total - e.len) (f.wrote e.bytes (writeCalls e.pieces))).2 = _
        rw [hw, LogFile.wrote_wrote]
      · right
        refine ⟨fun h => hc h.2, ?_, hf⟩
        change (flushLoop es (total - e.len) (f.wrote e.bytes _)).2.content.length < _
        simp only [LogFile.wrote, List.length_append] at hl ⊢
        omega
    · right
      generalize writePieces e.pieces f = r at hrc hlen ⊢
      obtain ⟨rc, g⟩ := r
      simp only at hrc hlen
      subst hrc
      refine ⟨fun h => hclean h.1, ?_, List.cons_ne_nil _ _⟩
      have hle : (flushLoop es (total - e.len) g).2.content.length ≤
          g.content.length + (encodeAll es).length := by
        rcases ih (total - e.len) g with ⟨-, hw, -⟩ | ⟨-, hl, -⟩
        · rw [hw]
          simp [LogFile.wrote]
        · exact Nat.le_of_lt hl
      change (flushLoop es (total - e.len) g).2.content.length < _
      have hsize : e.bytes.length = e.pieces.flatten.length := rfl
      rw [List.length_append, hsize]
      omega

/-! ## Runs without failing writes -/

/-- The state between calls when no write fails: the file holds the first entries of `history` and
the buffer the others. -/
structure LogManager.Keeps (history : List LogEntry) (m : LogManager) : Prop where
  built : ∀ e ∈ history, Built e
  noFaults : m.logFile.faults = []
  split : ∃ written, m.logFile.content = encodeAll written ∧ written ++ m.logEntrys = history
  total : m.totalSize = (m.logEntrys.map LogEntry.len).sum
  bounds : 0 ≤ m.totalSize ∧ m.totalSize < logBufferSize

theorem Built.len_nonneg {e : LogEntry} (he : Built e) : 0 ≤ e.len := by
  cases he with
  | mtr type trxId h => exact Int.le_refl 0
  | commit trxId commitXid => exact (show (0 : ℤ) ≤ 4 by decide)
  | record type trxId tableId rid dataOffset data ht hlen =>
    have hint := (recordEntryLen hlen).1
    change 0 ≤ (Int32.ofNat recordHeaderSize + Int32.ofNat data.length).toInt
    omega

/-- `append_log` either refuses the entry and changes nothing, or puts it at the end. -/
theorem appendLog_cases (e : LogEntry) (m : LogManager) :
    logBufferSize ≤ m.totalSize + e.len ∧ appendLog e m = (.logbufFull, m) ∨
      m.totalSize + e.len < logBufferSize ∧ appendLog e m = (.success,
        { m with logEntrys := m.logEntrys ++ [e], totalSize := m.totalSize + e.len }) := by
  unfold appendLog
  by_cases h : logBufferSize ≤ m.totalSize + e.len
  · left
    exact ⟨h, if_pos h⟩
  · right
    exact ⟨by omega, if_neg h⟩

theorem LogManager.Keeps.appendLog {history : List LogEntry} {m : LogManager}
    (h : m.Keeps history) {e : LogEntry} (he : Built e) :
    (appendLog e m).2.Keeps
      (history ++ if (Redo.appendLog e m).1 = .success then [e] else []) := by
  rcases appendLog_cases e m with ⟨-, heq⟩ | ⟨hfits, heq⟩
  · simpa [heq] using h
  · obtain ⟨written, hcontent, hsplit⟩ := h.split
    rw [heq, if_pos rfl]
    constructor
    case built =>
      intro e' he'
      rcases List.mem_append.mp he' with he' | he'
      · exact h.built e' he'
      · rw [List.mem_singleton.mp he']
        exact he
    case noFaults => exact h.noFaults
    case split => exact ⟨written, hcontent, by rw [← hsplit, List.append_assoc]⟩
    case total => simp [h.total]
    case bounds => exact ⟨Int.add_nonneg h.bounds.1 he.len_nonneg, hfits⟩

theorem LogManager.Keeps.sync {history : List LogEntry} {m : LogManager}
    (h : m.Keeps history) : (sync m).2.Keeps history := by
  obtain ⟨written, hcontent, hsplit⟩ := h.split
  have hclean : m.logFile.Clean (flushCalls m.logEntrys) := by
    intro o ho
    simp [h.noFaults] at ho
  have hfile : (flushLoop m.logEntrys m.totalSize m.logFile).2 =
      m.logFile.wrote (encodeAll m.logEntrys) (flushCalls m.logEntrys) := by
    rcases flushLoop_cases m.logEntrys m.totalSize m.logFile with ⟨-, hw, -⟩ | ⟨hc, -⟩
    · exact hw
    · exact absurd hclean hc
  have hsync : (Redo.sync m).2 = ⟨[], (flushLoop m.logEntrys m.totalSize m.logFile).1,
      (flushLoop m.logEntrys m.totalSize m.logFile).2.sync.2⟩ := rfl
  rw [hsync, hfile, flushLoop_total, h.total]
  constructor
  case built => exact h.built
  case noFaults => simp [LogFile.sync, LogFile.wrote, h.noFaults]
  case split =>
    refine ⟨history, ?_, List.append_nil _⟩
    rw [← hsplit, encodeAll_append, ← hcontent]
    rfl
  case total => exact Int.sub_self _
  case bounds =>
    rw [Int.sub_self]
    exact (show (0 : ℤ) ≤ 0 ∧ 0 < logBufferSize by decide)

theorem LogManager.Keeps.run {history : List LogEntry} {m : LogManager} (h : m.Keeps history)
    (c : LogCall) : (c.run m).2.Keeps (history ++ c.accepted m) := by
  cases c with
  | appendCommit trxId commitXid =>
    have happend := h.appendLog (Built.commit trxId commitXid)
    change (appendCommitTrxLog trxId commitXid m).2.Keeps (history ++ if _ then _ else _)
    unfold appendCommitTrxLog
    rcases appendLog_cases (buildCommitEntry trxId commitXid) m with ⟨-, heq⟩ | ⟨-, heq⟩
    · rw [heq] at happend ⊢
      exact happend
    · rw [heq] at happend ⊢
      exact happend.sync
  | sync =>
    have hnil : LogCall.accepted .sync m = [] := rfl
    rw [hnil, List.append_nil]
    exact h.sync
  | appendBegin trxId => exact h.appendLog (Built.mtr _ _ (Or.inl rfl))
  | appendRecord type ht trxId tableId rid dataOffset data hdata =>
    exact h.appendLog (Built.record _ _ _ _ _ _ ht hdata)
  | appendRollback trxId => exact h.appendLog (Built.mtr _ _ (Or.inr rfl))

theorem LogManager.Keeps.runCalls {history : List LogEntry} {m : LogManager}
    (h : m.Keeps history) (cs : List LogCall) :
    (runCalls cs m).2.Keeps (history ++ (Redo.runCalls cs m).1) := by
  induction cs generalizing history m with
  | nil => simpa [Redo.runCalls] using h
  | cons c cs ih =>
    have htail := ih (h.run c)
    rw [List.append_assoc] at htail
    exact htail

/-- After any calls whose writes succeed, the log file decodes to the entries that have left the
buffer, in the order in which `append_log` accepted them, and then to `RECORD_EOF`. -/
theorem log_file_then_buffer_eq_accepted {old : List LogEntry} (hold : ∀ e ∈ old, Built e)
    (syncFaults : List Bool) (cs : List LogCall) :
    let m₀ : LogManager := { logFile := { content := encodeAll old, syncFaults := syncFaults } }
    let (accepted, m) := runCalls cs m₀
    (∃ written, m.logFile.content = encodeAll written ∧ written ++ m.logEntrys = old ++ accepted ∧
      ∀ fuel, written.length < fuel →
        LogReader.readAll fuel ⟨m.logFile.content, false⟩ = (written, .recordEof)) ∧
    m.totalSize = (m.logEntrys.map LogEntry.len).sum ∧
    0 ≤ m.totalSize ∧ m.totalSize < logBufferSize := by
  intro m₀
  have hm₀ : m₀.Keeps old :=
    ⟨hold, rfl, ⟨old, rfl, List.append_nil _⟩, rfl, show (0 : ℤ) ≤ 0 ∧ 0 < logBufferSize by decide⟩
  have h := hm₀.runCalls cs
  obtain ⟨written, hcontent, hsplit⟩ := h.split
  refine ⟨⟨written, hcontent, hsplit, ?_⟩, h.total, h.bounds⟩
  intro fuel hfuel
  rw [hcontent]
  apply readAll_encodeAll _ hfuel
  intro e he
  apply h.built
  rw [← hsplit]
  exact List.mem_append_left _ he

/-- A begin entry and a record of three bytes that stay in the buffer, behind a file that already
holds a commit entry. -/
theorem log_file_then_buffer_eq_accepted_two_calls :
    ∃ written, written ++ [buildMtrEntry .mtrBegin 7,
        buildRecordEntry .insert 7 1 (1, 0) 0 [1, 2, 3]] =
      [buildCommitEntry 6 9] ++ [buildMtrEntry .mtrBegin 7,
        buildRecordEntry .insert 7 1 (1, 0) 0 [1, 2, 3]] ∧
      ∀ fuel, written.length < fuel →
        LogReader.readAll fuel ⟨encodeAll [buildCommitEntry 6 9], false⟩ =
          (written, .recordEof) := by
  have hold : ∀ e ∈ [buildCommitEntry 6 9], Built e := by
    intro e he
    rw [List.mem_singleton.mp he]
    exact Built.commit 6 9
  obtain ⟨⟨written, -, hsplit, hread⟩, -⟩ := log_file_then_buffer_eq_accepted hold []
    [.appendBegin 7, .appendRecord .insert (Or.inl rfl) 7 1 (1, 0) 0 [1, 2, 3] (by decide)]
  exact ⟨written, hsplit, hread⟩

/-! ## What a successful commit says about the file -/

/-- If `append_commit_trx_log` returns `SUCCESS`, the buffered entries and the commit entry stand
completely in the file, and no entry whose write failed has left the buffer. -/
def CommitDurable (trxId commitXid : Int32) (m : LogManager) : Prop :=
  let es := m.logEntrys ++ [buildCommitEntry trxId commitXid]
  let (rc, m') := appendCommitTrxLog trxId commitXid m
  rc = .success → m'.logFile.content = m.logFile.content ++ encodeAll es ∧
    ∀ e ∈ failedEntries es m.logFile, e ∈ m'.logEntrys

theorem appendCommitTrxLog_accepted {trxId commitXid : Int32} {m : LogManager}
    (h : m.totalSize + 4 < logBufferSize) :
    appendCommitTrxLog trxId commitXid m = sync
      { m with logEntrys := m.logEntrys ++ [buildCommitEntry trxId commitXid]
               totalSize := m.totalSize + 4 } := by
  have hlen : (buildCommitEntry trxId commitXid).len = 4 := rfl
  unfold appendCommitTrxLog
  rcases appendLog_cases (buildCommitEntry trxId commitXid) m with ⟨hfull, -⟩ | ⟨-, heq⟩
  · omega
  · rw [heq]
    rfl

theorem appendCommitTrxLog_refused {trxId commitXid : Int32} {m : LogManager}
    (h : logBufferSize ≤ m.totalSize + 4) :
    appendCommitTrxLog trxId commitXid m = (.logbufFull, m) := by
  have hlen : (buildCommitEntry trxId commitXid).len = 4 := rfl
  unfold appendCommitTrxLog
  rcases appendLog_cases (buildCommitEntry trxId commitXid) m with ⟨-, heq⟩ | ⟨hfits, -⟩
  · rw [heq]
    rfl
  · omega

/-- A flush as a whole: the code is the one of `fsync`, and the buffer is empty. -/
theorem sync_eq (m : LogManager) :
    sync m = (if (flushLoop m.logEntrys m.totalSize m.logFile).2.syncFaults.head? = some true
        then .ioerrSync else .success,
      ⟨[], (flushLoop m.logEntrys m.totalSize m.logFile).1,
        (flushLoop m.logEntrys m.totalSize m.logFile).2.sync.2⟩) := rfl

theorem LogFile.write_syncFaults (data : List UInt8) (f : LogFile) :
    (f.write data).2.syncFaults = f.syncFaults := by
  unfold LogFile.write
  split
  · rfl
  · split <;> rfl

theorem writePieces_syncFaults (ps : List (List UInt8)) (f : LogFile) :
    (writePieces ps f).2.syncFaults = f.syncFaults := by
  induction ps generalizing f with
  | nil => rfl
  | cons p ps ih =>
    rw [writePieces_cons]
    split
    · exact f.write_syncFaults p
    · rw [ih, f.write_syncFaults]

theorem flushLoop_syncFaults (es : List LogEntry) (total : ℤ) (f : LogFile) :
    (flushLoop es total f).2.syncFaults = f.syncFaults := by
  induction es generalizing total f with
  | nil => rfl
  | cons e es ih => rw [flushLoop, ih, writeLogEntry_eq, writePieces_syncFaults]

/-- A commit reports the truth exactly when it is refused, when `fsync` fails, or when no write
of the flush fails. -/
theorem commitDurable_iff (trxId commitXid : Int32) (m : LogManager) :
    CommitDurable trxId commitXid m ↔
      logBufferSize ≤ m.totalSize + 4 ∨ m.logFile.syncFaults.head? = some true ∨
        m.logFile.Clean (flushCalls (m.logEntrys ++ [buildCommitEntry trxId commitXid])) := by
  unfold CommitDurable
  by_cases hfull : logBufferSize ≤ m.totalSize + 4
  · rw [appendCommitTrxLog_refused hfull]
    simp [hfull]
  · rw [appendCommitTrxLog_accepted (Int.lt_of_not_ge hfull), sync_eq, flushLoop_syncFaults]
    set es := m.logEntrys ++ [buildCommitEntry trxId commitXid] with hes
    by_cases hsync : m.logFile.syncFaults.head? = some true
    · simp [hsync]
    · simp only [hfull, hsync, false_or, if_false, true_implies]
      rcases flushLoop_cases es (m.totalSize + 4) m.logFile with
        ⟨hclean, hw, hf⟩ | ⟨hclean, hl, hf⟩
      · rw [hw, hf]
        simp [hclean, LogFile.sync, LogFile.wrote]
      · constructor
        · rintro ⟨hcontent, -⟩
          have hsize := congrArg List.length hcontent
          rw [List.length_append] at hsize
          exact absurd hsize (Nat.ne_of_lt hl)
        · exact fun h => absurd h hclean

/-- The first `write` of a commit fails and `fsync` succeeds: the commit is lost. -/
theorem not_commitDurable_of_failed_write :
    ¬ ∀ (trxId commitXid : Int32) (m : LogManager), CommitDurable trxId commitXid m := by
  intro h
  have hlost := (h 1 2 { logFile := { faults := [some 0] } } rfl).1
  exact absurd hlost (by decide)

/-! ## Whether a commit can make progress -/

/-- A commit returns `SUCCESS`, with the buffer empty and the commit entry in the file. -/
def CommitProceeds (trxId commitXid : Int32) (m : LogManager) : Prop :=
  let (rc, m') := appendCommitTrxLog trxId commitXid m
  rc = .success ∧ m'.logEntrys = [] ∧ m'.totalSize = 0 ∧
    m'.logFile.content = m.logFile.content ++
      encodeAll (m.logEntrys ++ [buildCommitEntry trxId commitXid])

/-- Every entry that the calls append leaves more than the four bytes of a commit entry free. -/
def LeavesRoom : List LogCall → LogManager → Prop
  | [], _ => True
  | c :: cs, m =>
    (∀ e, c.entry = some e → m.totalSize + e.len + 4 < logBufferSize) ∧
      LeavesRoom cs (c.run m).2

theorem commitProceeds_iff {history : List LogEntry} {m : LogManager} (h : m.Keeps history)
    (hsync : m.logFile.syncFaults = []) (trxId commitXid : Int32) :
    CommitProceeds trxId commitXid m ↔ m.totalSize + 4 < logBufferSize := by
  unfold CommitProceeds
  by_cases hfull : logBufferSize ≤ m.totalSize + 4
  · rw [appendCommitTrxLog_refused hfull]
    constructor
    · rintro ⟨hrc, -⟩
      cases hrc
    · intro hroom
      omega
  · have hroom : m.totalSize + 4 < logBufferSize := by omega
    rw [appendCommitTrxLog_accepted hroom, sync_eq, flushLoop_syncFaults, flushLoop_total]
    refine iff_of_true ⟨by rw [hsync]; rfl, rfl, ?_, ?_⟩ hroom
    · rw [List.map_append, List.sum_append, ← h.total]
      exact Int.sub_self _
    · rcases flushLoop_cases (m.logEntrys ++ [buildCommitEntry trxId commitXid]) (m.totalSize + 4)
        m.logFile with ⟨-, hw, -⟩ | ⟨hc, -⟩
      · exact congrArg LogFile.content hw
      · refine absurd ?_ hc
        intro o ho
        simp [h.noFaults] at ho

theorem appendLog_logFile (e : LogEntry) (m : LogManager) :
    (appendLog e m).2.logFile = m.logFile := by
  rcases appendLog_cases e m with ⟨-, heq⟩ | ⟨-, heq⟩
  · rw [heq]
  · rw [heq]

theorem sync_syncFaults {m : LogManager} (h : m.logFile.syncFaults = []) :
    (sync m).2.logFile.syncFaults = [] := by
  change (flushLoop m.logEntrys m.totalSize m.logFile).2.syncFaults.tail = []
  rw [flushLoop_syncFaults, h]
  rfl

theorem LogCall.run_syncFaults (c : LogCall) {m : LogManager} (h : m.logFile.syncFaults = []) :
    (c.run m).2.logFile.syncFaults = [] := by
  have happend : ∀ e, (appendLog e m).2.logFile.syncFaults = [] := by
    intro e
    rw [appendLog_logFile, h]
  cases c with
  | appendCommit trxId commitXid =>
    change (appendCommitTrxLog trxId commitXid m).2.logFile.syncFaults = []
    unfold appendCommitTrxLog
    rcases appendLog_cases (buildCommitEntry trxId commitXid) m with ⟨-, heq⟩ | ⟨-, heq⟩
    · rw [heq]
      exact h
    · rw [heq]
      exact sync_syncFaults h
  | sync => exact sync_syncFaults h
  | appendBegin trxId => exact happend _
  | appendRecord type ht trxId tableId rid dataOffset data hdata => exact happend _
  | appendRollback trxId => exact happend _

theorem LogManager.Keeps.sync_totalSize {history : List LogEntry} {m : LogManager}
    (h : m.Keeps history) : (Redo.sync m).2.totalSize = 0 := by
  change (flushLoop m.logEntrys m.totalSize m.logFile).1 = 0
  rw [flushLoop_total, h.total]
  exact Int.sub_self _

/-- A call that leaves room for its own entry and a commit entry leaves room for a commit. -/
theorem LogManager.Keeps.run_room {history : List LogEntry} {m : LogManager} (h : m.Keeps history)
    (c : LogCall) (hroom : ∀ e, c.entry = some e → m.totalSize + e.len + 4 < logBufferSize) :
    (c.run m).2.totalSize + 4 < logBufferSize := by
  have happend : ∀ e, c.entry = some e → (Redo.appendLog e m).2.totalSize + 4 < logBufferSize := by
    intro e he
    have hfits := hroom e he
    rcases appendLog_cases e m with ⟨hfull, -⟩ | ⟨-, heq⟩
    · omega
    · rw [heq]
      exact hfits
  have hempty : (0 : ℤ) + 4 < logBufferSize := by decide
  cases c with
  | appendCommit trxId commitXid =>
    have hfits := hroom _ rfl
    have hlen : (buildCommitEntry trxId commitXid).len = 4 := rfl
    have hkeeps := h.appendLog (Built.commit trxId commitXid)
    change (appendCommitTrxLog trxId commitXid m).2.totalSize + 4 < logBufferSize
    unfold appendCommitTrxLog
    rcases appendLog_cases (buildCommitEntry trxId commitXid) m with ⟨hfull, -⟩ | ⟨-, heq⟩
    · omega
    · rw [heq] at hkeeps ⊢
      change (Redo.sync _).2.totalSize + 4 < logBufferSize
      rw [hkeeps.sync_totalSize]
      exact hempty
  | sync =>
    change (Redo.sync m).2.totalSize + 4 < logBufferSize
    rw [h.sync_totalSize]
    exact hempty
  | appendBegin trxId => exact happend _ rfl
  | appendRecord type ht trxId tableId rid dataOffset data hdata => exact happend _ rfl
  | appendRollback trxId => exact happend _ rfl

theorem LogManager.Keeps.runCalls_room {history : List LogEntry} {m : LogManager}
    (h : m.Keeps history) {cs : List LogCall} (hroom : m.totalSize + 4 < logBufferSize)
    (hcs : LeavesRoom cs m) : (Redo.runCalls cs m).2.totalSize + 4 < logBufferSize := by
  induction cs generalizing history m with
  | nil => exact hroom
  | cons c cs ih => exact ih (h.run c) (h.run_room c hcs.1) hcs.2

theorem runCalls_syncFaults (cs : List LogCall) {m : LogManager} (h : m.logFile.syncFaults = []) :
    (runCalls cs m).2.logFile.syncFaults = [] := by
  induction cs generalizing m with
  | nil => exact h
  | cons c cs ih => exact ih (c.run_syncFaults h)

/-- Where file operations succeed, a commit proceeds in exactly those states whose buffered entries
leave room for its entry; a run whose entries all leave that room only reaches such states. -/
theorem commit_proceeds_iff_room {old : List LogEntry} (hold : ∀ e ∈ old, Built e)
    (cs : List LogCall) :
    let m := (runCalls cs { logFile := { content := encodeAll old } }).2
    (∀ trxId commitXid, CommitProceeds trxId commitXid m ↔ m.totalSize + 4 < logBufferSize) ∧
    (LeavesRoom cs { logFile := { content := encodeAll old } } →
      ∀ trxId commitXid, CommitProceeds trxId commitXid m) := by
  intro m
  let m₀ : LogManager := { logFile := { content := encodeAll old } }
  have hm₀ : m₀.Keeps old :=
    ⟨hold, rfl, ⟨old, rfl, List.append_nil _⟩, rfl, show (0 : ℤ) ≤ 0 ∧ 0 < logBufferSize by decide⟩
  have hiff := commitProceeds_iff (hm₀.runCalls cs) (runCalls_syncFaults cs rfl)
  refine ⟨hiff, fun hroom trxId commitXid => (hiff trxId commitXid).mpr ?_⟩
  exact hm₀.runCalls_room (show (0 : ℤ) + 4 < logBufferSize by decide) hroom

/-- A transaction that has begun and inserted one small record can commit. -/
theorem commit_proceeds_small_record :
    CommitProceeds 1 2 (runCalls [.appendBegin 1, .appendRecord .insert (Or.inl rfl) 1 0 (1, 0) 0
      [1, 2, 3] (by decide)] { logFile := { content := encodeAll [] } }).2 := by
  have hold : ∀ e ∈ ([] : List LogEntry), Built e := by
    intro e he
    cases he
  apply (commit_proceeds_iff_room hold _).2
  refine ⟨?_, ?_, trivial⟩
  · intro e he
    obtain rfl := Option.some.inj he
    decide
  · intro e he
    obtain rfl := Option.some.inj he
    decide

/-- After a record that fills the buffer up to a byte, no commit gets through. -/
theorem not_commitProceeds_of_length {data : List UInt8} (hdata : data.length ≤ 2 ^ 30)
    (hlength : data.length = 4194279) (trxId commitXid : Int32) :
    ¬CommitProceeds trxId commitXid
      (runCalls [.appendRecord .insert (Or.inl rfl) 1 0 (1, 0) 0 data hdata] {}).2 := by
  have hkeeps : LogManager.Keeps [] {} :=
    ⟨fun _ he => (by cases he), rfl, ⟨[], rfl, rfl⟩, rfl,
      show (0 : ℤ) ≤ 0 ∧ 0 < logBufferSize by decide⟩
  have hlen : (buildRecordEntry .insert 1 0 (1, 0) 0 data).len = 4194303 := by
    change (Int32.ofNat recordHeaderSize + Int32.ofNat data.length).toInt = 4194303
    rw [(recordEntryLen hdata).1, hlength]
    decide
  have hsize : logBufferSize = 4194304 := by decide
  rw [commitProceeds_iff (hkeeps.runCalls _) (runCalls_syncFaults _ rfl)]
  change ¬(appendLog (buildRecordEntry .insert 1 0 (1, 0) 0 data) {}).2.totalSize + 4 < _
  rcases appendLog_cases (buildRecordEntry .insert 1 0 (1, 0) 0 data) {} with ⟨hfull, -⟩ | ⟨-, heq⟩
  · rw [hlen, hsize] at hfull
    exact absurd hfull (by decide)
  · rw [heq, hsize]
    dsimp only
    rw [hlen]
    decide

theorem not_commit_proceeds_full_buffer :
    ¬ ∀ (cs : List LogCall) (trxId commitXid : Int32),
      CommitProceeds trxId commitXid (runCalls cs {}).2 := by
  intro h
  have hlength : (List.replicate 4194279 (0 : UInt8)).length = 4194279 := List.length_replicate
  generalize List.replicate 4194279 (0 : UInt8) = data at hlength
  have hdata : data.length ≤ 2 ^ 30 := by
    rw [hlength]
    decide
  exact not_commitProceeds_of_length hdata hlength 1 2 (h _ 1 2)

end TDB.Redo
