import TDB.RC
import TDB.Lib.LittleEndian

namespace TDB.Redo

open LittleEndian

inductive LogEntryType where
  | error | mtrBegin | mtrCommit | mtrRollback | insert | delete
  deriving DecidableEq, Repr

def LogEntryType.toInteger : LogEntryType → Int32
  | .error => 0
  | .mtrBegin => 1
  | .mtrCommit => 2
  | .mtrRollback => 3
  | .insert => 4
  | .delete => 5

structure LogEntryHeader where
  trxId : Int32 := -1
  type : Int32 := LogEntryType.error.toInteger
  logEntryLen : Int32 := 0
  deriving DecidableEq, Repr

structure CommitEntry where
  commitXid : Int32 := -1
  deriving DecidableEq, Repr

/-- `RecordEntry`.  The compiler puts four bytes of padding before the pointer `data_`. -/
structure RecordEntry where
  tableId : Int32 := -1
  rid : Int32 × Int32 := (0, 0)
  dataLen : Int32 := 0
  dataOffset : Int32 := 0
  padding : Int32 := 0
  data : List UInt8 := []
  deriving DecidableEq, Repr

structure LogEntry where
  header : LogEntryHeader := {}
  recordEntry : RecordEntry := {}
  commitEntry : CommitEntry := {}
  deriving DecidableEq, Repr

def recordHeaderSize : ℕ := 24

/-! ## Building entries -/

def buildMtrEntry (type : LogEntryType) (trxId : Int32) : LogEntry :=
  { header := { trxId := trxId, type := type.toInteger } }

def buildCommitEntry (trxId commitXid : Int32) : LogEntry :=
  { header := { trxId := trxId, type := LogEntryType.mtrCommit.toInteger, logEntryLen := 4 }
    commitEntry := { commitXid := commitXid } }

/-- `build_record_entry`; the argument `data_len` is the length of `data`. -/
def buildRecordEntry (type : LogEntryType) (trxId tableId : Int32) (rid : Int32 × Int32)
    (dataOffset : Int32) (data : List UInt8) : LogEntry :=
  let dataLen := Int32.ofNat data.length
  { header := { trxId := trxId, type := type.toInteger,
                logEntryLen := Int32.ofNat recordHeaderSize + dataLen }
    recordEntry := { tableId := tableId, rid := rid, dataLen := dataLen,
                     dataOffset := dataOffset, data := data } }

/-! ## Bytes -/

def LogEntryHeader.bytes (h : LogEntryHeader) : List UInt8 :=
  encodeWords [h.trxId, h.type, h.logEntryLen]

def LogEntryHeader.ofBytes (bytes : List UInt8) : LogEntryHeader :=
  { trxId := decode bytes, type := decode (bytes.drop 4), logEntryLen := decode (bytes.drop 8) }

def RecordEntry.headerBytes (r : RecordEntry) : List UInt8 :=
  encodeWords [r.tableId, r.rid.1, r.rid.2, r.dataLen, r.dataOffset, r.padding]

def RecordEntry.ofHeaderBytes (bytes : List UInt8) : RecordEntry :=
  { tableId := decode bytes, rid := (decode (bytes.drop 4), decode (bytes.drop 8)),
    dataLen := decode (bytes.drop 12), dataOffset := decode (bytes.drop 16),
    padding := decode (bytes.drop 20) }

/-- `LogEntry::build`; the assertion on the length of a commit entry is compiled out. -/
def LogEntry.build (header : LogEntryHeader) (data : List UInt8) : LogEntry :=
  if header.logEntryLen.toInt ≤ 0 then { header := header }
  else if header.type = LogEntryType.mtrCommit.toInteger then
    { header := header, commitEntry := { commitXid := decode data } }
  else
    let recordEntry := RecordEntry.ofHeaderBytes data
    if (recordHeaderSize : ℤ) < header.logEntryLen.toInt then
      let dataLen := (header.logEntryLen.toInt - recordHeaderSize).toNat
      { header := header
        recordEntry := { recordEntry with data := (data.drop recordHeaderSize).take dataLen } }
    else { header := header, recordEntry := recordEntry }

/-- The buffers that `write_log_entry` writes, one `write` call each. -/
def LogEntry.pieces (e : LogEntry) : List (List UInt8) :=
  if e.header.type = LogEntryType.mtrBegin.toInteger ∨
      e.header.type = LogEntryType.mtrRollback.toInteger then [e.header.bytes]
  else if e.header.type = LogEntryType.mtrCommit.toInteger then
    [e.header.bytes, (encode e.commitEntry.commitXid).take e.header.logEntryLen.toNatClampNeg]
  else
    [e.header.bytes, e.recordEntry.headerBytes,
      e.recordEntry.data.take e.recordEntry.dataLen.toNatClampNeg]

def LogEntry.bytes (e : LogEntry) : List UInt8 := e.pieces.flatten

/-! ## Reading entries back -/

/-- A `LogFile` that is read: the bytes behind the position, and the flag `eof_`. -/
structure LogReader where
  rest : List UInt8
  eof : Bool := false
  deriving DecidableEq, Repr

/-- `LogFile::read`.  When `readn` reaches the end of the file it has used up what was left. -/
def LogReader.read (n : ℕ) (r : LogReader) : (RC × List UInt8) × LogReader :=
  if n ≤ r.rest.length then ((.success, r.rest.take n), { r with rest := r.rest.drop n })
  else ((.ioerrRead, []), ⟨[], true⟩)

/-- `LogEntryIterator::next`: the code and the entry it built. -/
def LogReader.next (r : LogReader) : (RC × Option LogEntry) × LogReader :=
  match r.read 12 with
  | ((.success, bytes), r) =>
    let header := LogEntryHeader.ofBytes bytes
    if 0 < header.logEntryLen.toInt then
      match r.read header.logEntryLen.toNatClampNeg with
      | ((.success, data), r) => ((.success, some (LogEntry.build header data)), r)
      | ((rc, _), r) => ((rc, none), r)
    else ((.success, some (LogEntry.build header [])), r)
  | ((rc, _), r) => ((if r.eof then .recordEof else rc, none), r)

/-- `next` called until it fails, at most `fuel` times: the entries and the last code. -/
def LogReader.readAll : ℕ → LogReader → List LogEntry × RC
  | 0, _ => ([], .success)
  | fuel + 1, r =>
    match r.next with
    | ((.success, some e), r) => let (es, rc) := readAll fuel r; (e :: es, rc)
    | ((rc, _), _) => ([], rc)

/-- The entries that the three `build_` functions make, for the lengths and types they are
called with. -/
inductive Built : LogEntry → Prop where
  | mtr (type : LogEntryType) (trxId : Int32) (h : type = .mtrBegin ∨ type = .mtrRollback) :
    Built (buildMtrEntry type trxId)
  | commit (trxId commitXid : Int32) : Built (buildCommitEntry trxId commitXid)
  | record (type : LogEntryType) (trxId tableId : Int32) (rid : Int32 × Int32)
      (dataOffset : Int32) (data : List UInt8) (ht : type = .insert ∨ type = .delete)
      (hlen : data.length ≤ 2 ^ 30) :
    Built (buildRecordEntry type trxId tableId rid dataOffset data)

theorem LogReader.read_append (bytes rest : List UInt8) (eof : Bool) {n : ℕ}
    (h : n = bytes.length) :
    LogReader.read n ⟨bytes ++ rest, eof⟩ = ((.success, bytes), ⟨rest, eof⟩) := by
  subst h
  simp [LogReader.read]

@[simp] theorem LogEntryHeader.length_bytes (h : LogEntryHeader) : h.bytes.length = 12 := by
  simp [LogEntryHeader.bytes]

@[simp] theorem RecordEntry.length_headerBytes (r : RecordEntry) :
    r.headerBytes.length = recordHeaderSize := by
  simp [RecordEntry.headerBytes, recordHeaderSize]

@[simp] theorem LogEntryHeader.ofBytes_bytes (h : LogEntryHeader) :
    LogEntryHeader.ofBytes h.bytes = h := by
  have hword : ∀ i x, [h.trxId, h.type, h.logEntryLen][i]? = some x →
      decode (h.bytes.drop (4 * i)) = x := by
    intro i x hx
    simpa [LogEntryHeader.bytes] using decode_drop_encodeWords [] hx
  have h0 := hword 0 _ rfl
  have h1 := hword 1 _ rfl
  have h2 := hword 2 _ rfl
  simp only [Nat.mul_zero, List.drop_zero, Nat.mul_one, Nat.reduceMul] at h0 h1 h2
  simp only [LogEntryHeader.ofBytes, h0, h1, h2]

theorem RecordEntry.ofHeaderBytes_append (r : RecordEntry) (rest : List UInt8) :
    RecordEntry.ofHeaderBytes (r.headerBytes ++ rest) = { r with data := [] } := by
  have hword : ∀ i x,
      [r.tableId, r.rid.1, r.rid.2, r.dataLen, r.dataOffset, r.padding][i]? = some x →
      decode ((r.headerBytes ++ rest).drop (4 * i)) = x :=
    fun i x hx => decode_drop_encodeWords rest hx
  have h0 := hword 0 _ rfl
  have h1 := hword 1 _ rfl
  have h2 := hword 2 _ rfl
  have h3 := hword 3 _ rfl
  have h4 := hword 4 _ rfl
  have h5 := hword 5 _ rfl
  simp only [Nat.mul_zero, List.drop_zero, Nat.mul_one, Nat.reduceMul] at h0 h1 h2 h3 h4 h5
  simp only [RecordEntry.ofHeaderBytes, h0, h1, h2, h3, h4, h5]

/-! ## Round trip -/

/-- The length field of a record entry counts the header and the data. -/
theorem recordEntryLen {n : ℕ} (h : n ≤ 2 ^ 30) :
    (Int32.ofNat recordHeaderSize + Int32.ofNat n).toInt = recordHeaderSize + n ∧
      (Int32.ofNat recordHeaderSize + Int32.ofNat n).toNatClampNeg = recordHeaderSize + n := by
  have hlt : recordHeaderSize + n < 2 ^ 31 := by
    simp only [recordHeaderSize]
    omega
  rw [← Int32.ofNat_add]
  refine ⟨?_, Int32.toNatClampNeg_ofNat_of_lt hlt⟩
  rw [Int32.toInt_ofNat_of_lt hlt]
  push_cast
  rfl

theorem next_mtrEntry {type : LogEntryType} (trxId : Int32)
    (h : type = .mtrBegin ∨ type = .mtrRollback) (rest : List UInt8) (eof : Bool) :
    LogReader.next ⟨(buildMtrEntry type trxId).bytes ++ rest, eof⟩ =
      ((.success, some (buildMtrEntry type trxId)), ⟨rest, eof⟩) := by
  have hbytes : (buildMtrEntry type trxId).bytes = (buildMtrEntry type trxId).header.bytes := by
    rcases h with rfl | rfl <;> simp [LogEntry.bytes, LogEntry.pieces, buildMtrEntry]
  rw [hbytes, LogReader.next, LogReader.read_append _ _ _ (LogEntryHeader.length_bytes _).symm]
  simp only [LogEntryHeader.ofBytes_bytes]
  rfl

theorem next_commitEntry (trxId commitXid : Int32) (rest : List UInt8) (eof : Bool) :
    LogReader.next ⟨(buildCommitEntry trxId commitXid).bytes ++ rest, eof⟩ =
      ((.success, some (buildCommitEntry trxId commitXid)), ⟨rest, eof⟩) := by
  have hbytes : (buildCommitEntry trxId commitXid).bytes ++ rest =
      (buildCommitEntry trxId commitXid).header.bytes ++ (encode commitXid ++ rest) := by
    simp only [LogEntry.bytes, LogEntry.pieces, buildCommitEntry]
    rfl
  have hlen : (buildCommitEntry trxId commitXid).header.logEntryLen.toNatClampNeg =
      (encode commitXid).length := rfl
  have hint : (buildCommitEntry trxId commitXid).header.logEntryLen.toInt = 4 := rfl
  have htype : (buildCommitEntry trxId commitXid).header.type =
      LogEntryType.mtrCommit.toInteger := rfl
  rw [hbytes, LogReader.next, LogReader.read_append _ _ _ (LogEntryHeader.length_bytes _).symm]
  simp only [LogEntryHeader.ofBytes_bytes]
  rw [if_pos (by omega), LogReader.read_append _ _ _ hlen]
  simp only [LogEntry.build]
  rw [if_neg (by omega), if_pos htype, decode_encode]
  rfl

theorem build_record {e : LogEntry} (hcommit : e.header.type ≠ LogEntryType.mtrCommit.toInteger)
    (hlen : e.header.logEntryLen.toInt = recordHeaderSize + e.recordEntry.data.length)
    (hc : e.commitEntry = {}) :
    LogEntry.build e.header (e.recordEntry.headerBytes ++ e.recordEntry.data) = e := by
  obtain ⟨header, recordEntry, commitEntry⟩ := e
  simp only at hcommit hlen hc
  subst hc
  have hpos : (0 : ℤ) < recordHeaderSize := by decide
  simp only [LogEntry.build, RecordEntry.ofHeaderBytes_append]
  rw [if_neg (by omega), if_neg hcommit]
  by_cases hdata : recordEntry.data = []
  · rw [if_neg (by simp [hlen, hdata]), ← hdata]
  · have hne : 0 < recordEntry.data.length := List.length_pos_iff.mpr hdata
    have hdrop : (recordEntry.headerBytes ++ recordEntry.data).drop recordHeaderSize =
        recordEntry.data := by
      rw [← RecordEntry.length_headerBytes recordEntry, List.drop_left]
    have hcount : (header.logEntryLen.toInt - recordHeaderSize).toNat =
        recordEntry.data.length := by
      omega
    rw [if_pos (by omega), hdrop, hcount, List.take_length]

theorem next_recordEntry {type : LogEntryType} (trxId tableId : Int32) (rid : Int32 × Int32)
    (dataOffset : Int32) {data : List UInt8} (ht : type = .insert ∨ type = .delete)
    (hdata : data.length ≤ 2 ^ 30) (rest : List UInt8) (eof : Bool) :
    LogReader.next ⟨(buildRecordEntry type trxId tableId rid dataOffset data).bytes ++ rest, eof⟩ =
      ((.success, some (buildRecordEntry type trxId tableId rid dataOffset data)),
        ⟨rest, eof⟩) := by
  set e := buildRecordEntry type trxId tableId rid dataOffset data with he
  obtain ⟨hint, hnat⟩ := recordEntryLen hdata
  have hlen : e.header.logEntryLen.toInt = recordHeaderSize + e.recordEntry.data.length := hint
  have hsize : e.header.logEntryLen.toNatClampNeg =
      (e.recordEntry.headerBytes ++ e.recordEntry.data).length := by
    rw [List.length_append, RecordEntry.length_headerBytes]
    exact hnat
  have htake : e.recordEntry.data.take e.recordEntry.dataLen.toNatClampNeg =
      e.recordEntry.data := by
    have hd : e.recordEntry.dataLen.toNatClampNeg = data.length :=
      Int32.toNatClampNeg_ofNat_of_lt (by omega)
    rw [hd]
    exact List.take_length
  have hpieces : e.pieces =
      [e.header.bytes, e.recordEntry.headerBytes, e.recordEntry.data] := by
    simp only [LogEntry.pieces, htake]
    rcases ht with rfl | rfl <;> rfl
  have hbytes : e.bytes ++ rest =
      e.header.bytes ++ (e.recordEntry.headerBytes ++ e.recordEntry.data ++ rest) := by
    simp [LogEntry.bytes, hpieces]
  have hcommit : e.header.type ≠ LogEntryType.mtrCommit.toInteger := by
    have htype : e.header.type = type.toInteger := rfl
    rw [htype]
    rcases ht with rfl | rfl <;> decide
  have hpos : (0 : ℤ) < recordHeaderSize := by decide
  rw [hbytes, LogReader.next, LogReader.read_append _ _ _ (LogEntryHeader.length_bytes _).symm]
  simp only [LogEntryHeader.ofBytes_bytes]
  rw [if_pos (by omega), LogReader.read_append _ _ _ hsize]
  simp only [build_record hcommit hlen rfl]

/-- Reading from the start of a written entry gives back the entry and stops behind it. -/
theorem Built.next_bytes {e : LogEntry} (he : Built e) (rest : List UInt8) (eof : Bool) :
    LogReader.next ⟨e.bytes ++ rest, eof⟩ = ((.success, some e), ⟨rest, eof⟩) := by
  cases he with
  | mtr type trxId h => exact next_mtrEntry trxId h rest eof
  | commit trxId commitXid => exact next_commitEntry trxId commitXid rest eof
  | record type trxId tableId rid dataOffset data ht hlen =>
    exact next_recordEntry trxId tableId rid dataOffset ht hlen rest eof

def encodeAll (es : List LogEntry) : List UInt8 := es.flatMap LogEntry.bytes

@[simp] theorem encodeAll_append (es es' : List LogEntry) :
    encodeAll (es ++ es') = encodeAll es ++ encodeAll es' := by
  simp [encodeAll]

/-- Reading a log file from the start gives its entries in order, then `RECORD_EOF`. -/
theorem readAll_encodeAll {es : List LogEntry} (hes : ∀ e ∈ es, Built e) {fuel : ℕ}
    (hfuel : es.length < fuel) : LogReader.readAll fuel ⟨encodeAll es, false⟩ =
      (es, .recordEof) := by
  induction es generalizing fuel with
  | nil =>
    cases fuel with
    | zero => simp at hfuel
    | succ fuel => rfl
  | cons e es ih =>
    cases fuel with
    | zero => simp at hfuel
    | succ fuel =>
      have hcons : encodeAll (e :: es) = e.bytes ++ encodeAll es := by simp [encodeAll]
      have hnext := (hes e (by simp)).next_bytes (encodeAll es) false
      have htail := ih (fun e' he' => hes e' (by simp [he'])) (by simpa using hfuel)
      rw [hcons, LogReader.readAll, hnext]
      simp only [htail]

end TDB.Redo
