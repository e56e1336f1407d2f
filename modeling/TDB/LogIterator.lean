import TDB.LogEntry

namespace TDB.Redo

open LittleEndian

structure LogEntryIterator where
  logFile : LogReader
  logEntry : Option LogEntry := none
  deriving DecidableEq, Repr

def LogEntryIterator.init (logFile : LogReader) : LogEntryIterator := { logFile := logFile }

/-- `LogEntryIterator::next`.  Only a new entry replaces `log_entry_`. -/
def LogEntryIterator.next (it : LogEntryIterator) : RC × LogEntryIterator :=
  let ((rc, entry), logFile) := it.logFile.next
  (rc, { logFile := logFile, logEntry := entry.or it.logEntry })

def LogEntryIterator.valid (it : LogEntryIterator) : Bool := it.logEntry.isSome

/-- The documented loop: `next` again and again until `valid` is false, at most `fuel` times.
The entries it looked at, and whether `valid` has ended it. -/
def LogEntryIterator.visit : ℕ → LogEntryIterator → List LogEntry × Bool
  | 0, _ => ([], false)
  | fuel + 1, it =>
    let it' := it.next.2
    if it'.valid then
      let (es, stopped) := visit fuel it'
      (it'.logEntry.toList ++ es, stopped)
    else ([], true)

/-- The entries that lie completely in the first `n` bytes of the file of `es`. -/
def completeEntries : List LogEntry → ℕ → List LogEntry
  | [], _ => []
  | e :: es, n =>
    if e.bytes.length ≤ n then e :: completeEntries es (n - e.bytes.length) else []

theorem completeEntries_eq_nil {es : List LogEntry} {n : ℕ} :
    completeEntries es n = [] ↔ ∀ e ∈ es.head?, n < e.bytes.length := by
  cases es with
  | nil => simp [completeEntries]
  | cons e es => simp [completeEntries]

/-- The code with which `next` fails behind the complete entries: a cut inside a body is a read
error, any other is the end of the file. -/
def tornCode : List LogEntry → ℕ → RC
  | [], _ => .recordEof
  | e :: es, n =>
    if e.bytes.length ≤ n then tornCode es (n - e.bytes.length)
    else if n < 12 then .recordEof else .ioerrRead

/-- The complete entries are a prefix of the entries, and the cut does not reach the end of the
next one. -/
theorem completeEntries_prefix (es : List LogEntry) (n : ℕ) :
    ∃ es', es = completeEntries es n ++ es' ∧ (encodeAll (completeEntries es n)).length ≤ n ∧
      ∀ e ∈ es'.head?, n < (encodeAll (completeEntries es n)).length + e.bytes.length := by
  induction es generalizing n with
  | nil => exact ⟨[], by simp [completeEntries, encodeAll]⟩
  | cons e es ih =>
    by_cases hle : e.bytes.length ≤ n
    · obtain ⟨es', hes, hlen, hnext⟩ := ih (n - e.bytes.length)
      have hcons : (encodeAll (e :: completeEntries es (n - e.bytes.length))).length =
          e.bytes.length + (encodeAll (completeEntries es (n - e.bytes.length))).length := by
        simp [encodeAll]
      simp only [completeEntries, if_pos hle, hcons]
      refine ⟨es', by rw [List.cons_append, ← hes], by omega, fun e' he' => ?_⟩
      have := hnext e' he'
      omega
    · exact ⟨e :: es, by simp [completeEntries, hle, encodeAll]; omega⟩

/-! ## A file that ends inside an entry -/

/-- Every written entry is its header and as many bytes as the header's length field says. -/
theorem Built.bytes_eq {e : LogEntry} (he : Built e) :
    ∃ data, e.bytes = e.header.bytes ++ data ∧
      data.length = e.header.logEntryLen.toNatClampNeg := by
  cases he with
  | mtr type trxId h =>
    use []
    rcases h with rfl | rfl <;> simp [LogEntry.bytes, LogEntry.pieces, buildMtrEntry]
  | commit trxId commitXid =>
    use encode commitXid
    simp only [LogEntry.bytes, LogEntry.pieces, buildCommitEntry]
    exact ⟨rfl, rfl⟩
  | record type trxId tableId rid dataOffset data ht hlen =>
    set e := buildRecordEntry type trxId tableId rid dataOffset data with he
    have hdata : e.recordEntry.dataLen.toNatClampNeg = data.length :=
      Int32.toNatClampNeg_ofNat_of_lt (by omega)
    have hpieces : e.pieces = [e.header.bytes, e.recordEntry.headerBytes, data] := by
      have htake : e.recordEntry.data.take e.recordEntry.dataLen.toNatClampNeg = data := by
        rw [hdata]
        exact List.take_length
      simp only [LogEntry.pieces, htake]
      rcases ht with rfl | rfl <;> rfl
    use e.recordEntry.headerBytes ++ data
    constructor
    · simp [LogEntry.bytes, hpieces]
    · rw [List.length_append, RecordEntry.length_headerBytes]
      exact (recordEntryLen hlen).2.symm

/-- A read that finds too few bytes uses them up and sets the flag. -/
theorem LogReader.read_short {bytes : List UInt8} {n : ℕ} (eof : Bool) (h : bytes.length < n) :
    LogReader.read n ⟨bytes, eof⟩ = ((.ioerrRead, []), ⟨[], true⟩) := by
  simp [LogReader.read, Nat.not_le.2 h]

/-- `next` on a file that ends inside the entry it reads builds nothing and uses up what is
left: it reports the end of the file if the header is cut, and a read error if the body is. -/
theorem Built.next_torn {e : LogEntry} (he : Built e) {n : ℕ} (hn : n < e.bytes.length)
    (eof : Bool) : LogReader.next ⟨e.bytes.take n, eof⟩ =
      ((if n < 12 then .recordEof else .ioerrRead, none), ⟨[], true⟩) := by
  obtain ⟨data, hbytes, hdata⟩ := he.bytes_eq
  rw [hbytes, List.length_append, LogEntryHeader.length_bytes] at hn
  -- the cut is in the header or in the body
  by_cases hheader : n < 12
  · have hshort : (e.bytes.take n).length < 12 := by
      rw [List.length_take]
      omega
    rw [LogReader.next, LogReader.read_short eof hshort, if_pos hheader]
    rfl
  · have htake : e.bytes.take n = e.header.bytes ++ data.take (n - 12) := by
      rw [hbytes, List.take_append, LogEntryHeader.length_bytes,
        List.take_of_length_le (by rw [LogEntryHeader.length_bytes]; omega)]
    have hpos : 0 < e.header.logEntryLen.toInt := by
      have hnat : e.header.logEntryLen.toNatClampNeg = e.header.logEntryLen.toInt.toNat := rfl
      omega
    have hshort : (data.take (n - 12)).length < e.header.logEntryLen.toNatClampNeg := by
      rw [List.length_take]
      omega
    rw [htake, LogReader.next,
      LogReader.read_append _ _ _ (LogEntryHeader.length_bytes _).symm]
    simp only [LogEntryHeader.ofBytes_bytes]
    rw [if_pos hpos, LogReader.read_short eof hshort, if_neg hheader]

/-! ## Iterating over the prefix -/

theorem encodeAll_cons (e : LogEntry) (es : List LogEntry) :
    encodeAll (e :: es) = e.bytes ++ encodeAll es := by
  simp [encodeAll]

theorem next_take_complete {e : LogEntry} (he : Built e) {n : ℕ} (hn : e.bytes.length ≤ n)
    (es : List LogEntry) (eof : Bool) :
    LogReader.next ⟨(encodeAll (e :: es)).take n, eof⟩ =
      ((.success, some e), ⟨(encodeAll es).take (n - e.bytes.length), eof⟩) := by
  rw [encodeAll_cons, List.take_append, List.take_of_length_le hn]
  exact he.next_bytes _ eof

theorem next_take_torn {es : List LogEntry} (hes : ∀ e ∈ es, Built e) {n : ℕ}
    (hn : completeEntries es n = []) (eof : Bool) :
    LogReader.next ⟨(encodeAll es).take n, eof⟩ =
      ((tornCode es n, none), ⟨[], true⟩) := by
  cases es with
  | nil =>
    rw [show (encodeAll []).take n = [] from List.take_nil]
    rfl
  | cons e es =>
    have hlt : n < e.bytes.length := completeEntries_eq_nil.1 hn e rfl
    have htake : (encodeAll (e :: es)).take n = e.bytes.take n := by
      rw [encodeAll_cons, List.take_append_of_le_length (Nat.le_of_lt hlt)]
    rw [htake, (hes e List.mem_cons_self).next_torn hlt eof, tornCode,
      if_neg (Nat.not_le.2 hlt)]

/-- `next` called until it fails gives the complete entries, whatever the cut. -/
theorem readAll_take {es : List LogEntry} (hes : ∀ e ∈ es, Built e) (n : ℕ) (eof : Bool)
    {fuel : ℕ} (hfuel : es.length < fuel) :
    LogReader.readAll fuel ⟨(encodeAll es).take n, eof⟩ =
      (completeEntries es n, tornCode es n) := by
  induction es generalizing n fuel with
  | nil =>
    obtain ⟨fuel, rfl⟩ := Nat.exists_eq_succ_of_ne_zero (Nat.ne_zero_of_lt hfuel)
    rw [LogReader.readAll, next_take_torn hes rfl]
    rfl
  | cons e es ih =>
    obtain ⟨fuel, rfl⟩ := Nat.exists_eq_succ_of_ne_zero (Nat.ne_zero_of_lt hfuel)
    by_cases hle : e.bytes.length ≤ n
    · have htail := ih (fun e' he' => hes e' (List.mem_cons_of_mem e he'))
        (n - e.bytes.length) (Nat.lt_of_succ_lt_succ hfuel)
      rw [LogReader.readAll, next_take_complete (hes e List.mem_cons_self) hle]
      simp only [htail, completeEntries, tornCode, if_pos hle]
    · have hnil : completeEntries (e :: es) n = [] := by rw [completeEntries, if_neg hle]
      rw [LogReader.readAll, next_take_torn hes hnil, hnil, tornCode, if_neg hle]
      by_cases hheader : n < 12
      · rw [if_pos hheader]
      · rw [if_neg hheader]

/-- Once an entry was built, an iterator at the end of its file stays valid for ever. -/
theorem LogEntryIterator.visit_stuck (e : LogEntry) (eof : Bool) (fuel : ℕ) :
    LogEntryIterator.visit fuel ⟨⟨[], eof⟩, some e⟩ = (List.replicate fuel e, false) := by
  induction fuel generalizing eof with
  | zero => rfl
  | succ fuel ih =>
    have hnext : (LogEntryIterator.mk ⟨[], eof⟩ (some e)).next.2 = ⟨⟨[], true⟩, some e⟩ := rfl
    rw [LogEntryIterator.visit, hnext]
    simp only [LogEntryIterator.valid, ih, List.replicate_succ]
    rfl

/-- The documented loop on a prefix, when it has built an entry before or builds one: the complete
entries, then the last one again and again. -/
theorem LogEntryIterator.visit_take {es : List LogEntry} (hes : ∀ e ∈ es, Built e) (n : ℕ)
    (eof : Bool) {shown : Option LogEntry} {last : LogEntry}
    (hlast : (completeEntries es n).getLast?.or shown = some last) (fuel : ℕ) :
    LogEntryIterator.visit fuel ⟨⟨(encodeAll es).take n, eof⟩, shown⟩ =
      ((completeEntries es n ++ List.replicate fuel last).take fuel, false) := by
  induction es generalizing n shown fuel with
  | nil =>
    have hempty : (encodeAll []).take n = [] := List.take_nil
    have hshown : shown = some last := hlast
    rw [hempty, hshown, visit_stuck]
    simp [completeEntries]
  | cons e es ih =>
    cases fuel with
    | zero => rfl
    | succ fuel =>
      by_cases hle : e.bytes.length ≤ n
      · -- the step builds `e`, which is then the entry shown
        have hnext : (LogEntryIterator.mk ⟨(encodeAll (e :: es)).take n, eof⟩ shown).next.2 =
            ⟨⟨(encodeAll es).take (n - e.bytes.length), eof⟩, some e⟩ := by
          rw [LogEntryIterator.next, next_take_complete (hes e List.mem_cons_self) hle]
          rfl
        have hcons : completeEntries (e :: es) n =
            e :: completeEntries es (n - e.bytes.length) := by
          rw [completeEntries, if_pos hle]
        have hlast' : (completeEntries es (n - e.bytes.length)).getLast?.or (some e) =
            some last := by
          rw [hcons, List.getLast?_cons] at hlast
          simpa [Option.or_eq_some_iff] using hlast
        have htail := ih (fun e' he' => hes e' (List.mem_cons_of_mem e he')) _ hlast' fuel
        rw [LogEntryIterator.visit, hnext]
        simp only [LogEntryIterator.valid, Option.isSome_some, if_true, htail, hcons]
        simp only [Option.toList, List.nil_append, List.cons_append, List.take_succ_cons,
          List.take_append, List.take_replicate]
        rw [Nat.min_eq_left (Nat.sub_le fuel _), Nat.min_eq_left (by omega)]
      · have hnil : completeEntries (e :: es) n = [] := by rw [completeEntries, if_neg hle]
        have hshown : shown = some last := by
          rw [hnil] at hlast
          exact hlast
        have hnext : (LogEntryIterator.mk ⟨(encodeAll (e :: es)).take n, eof⟩ shown).next.2 =
            ⟨⟨[], true⟩, some last⟩ := by
          rw [LogEntryIterator.next, next_take_torn hes hnil, hshown]
          rfl
        rw [LogEntryIterator.visit, hnext, hnil]
        simp only [LogEntryIterator.valid, Option.isSome_some, if_true, visit_stuck]
        simp [List.replicate_succ]

/-- The documented loop on a prefix without a complete entry ends at once. -/
theorem LogEntryIterator.visit_take_nil {es : List LogEntry} (hes : ∀ e ∈ es, Built e) {n : ℕ}
    (hn : completeEntries es n = []) (eof : Bool) (fuel : ℕ) :
    (LogEntryIterator.init ⟨(encodeAll es).take n, eof⟩).visit (fuel + 1) = ([], true) := by
  have hnext : (LogEntryIterator.init ⟨(encodeAll es).take n, eof⟩).next.2 =
      ⟨⟨[], true⟩, none⟩ := by
    rw [LogEntryIterator.init, LogEntryIterator.next, next_take_torn hes hn]
    rfl
  rw [LogEntryIterator.visit, hnext]
  rfl

/-- The documented loop yields the complete entries of a prefix and then stops, if and only if
the prefix is too short for the first entry. -/
theorem LogEntryIterator.visit_stops_iff {es : List LogEntry} (hes : ∀ e ∈ es, Built e) (n : ℕ) :
    (∃ fuel, (LogEntryIterator.init ⟨(encodeAll es).take n, false⟩).visit fuel =
      (completeEntries es n, true)) ↔ ∀ e ∈ es.head?, n < e.bytes.length := by
  rw [← completeEntries_eq_nil]
  constructor
  · rintro ⟨fuel, hfuel⟩
    by_contra hne
    -- an entry was built, and from then on `valid` is true
    obtain ⟨last, hlast⟩ := List.getLast?_isSome.2 hne |> Option.isSome_iff_exists.1
    have hshown : (completeEntries es n).getLast?.or none = some last := by
      rw [hlast]
      rfl
    have hvisit := visit_take hes n false hshown fuel
    rw [LogEntryIterator.init, hvisit] at hfuel
    exact Bool.false_ne_true (congrArg Prod.snd hfuel)
  · intro hnil
    use 1
    rw [visit_take_nil hes hnil, hnil]

theorem LogEntryIterator.visit_stops_header :
    ∃ fuel, (LogEntryIterator.init ⟨(encodeAll [buildMtrEntry .mtrBegin 7]).take 5, false⟩).visit
      fuel = (completeEntries [buildMtrEntry .mtrBegin 7] 5, true) :=
  (visit_stops_iff (fun e he => by
    rw [List.mem_singleton.1 he]
    exact .mtr .mtrBegin 7 (.inl rfl)) 5).2 (by decide)

/-- A log file with one entry, not cut at all: the loop shows the entry for ever. -/
theorem LogEntryIterator.visit_one_entry :
    ¬ ∃ fuel, (LogEntryIterator.init ⟨(encodeAll [buildMtrEntry .mtrBegin 7]).take 12,
      false⟩).visit fuel = (completeEntries [buildMtrEntry .mtrBegin 7] 12, true) := by
  rintro ⟨fuel, hfuel⟩
  have hbuilt : ∀ e ∈ [buildMtrEntry .mtrBegin 7], Built e := fun e he => by
    rw [List.mem_singleton.1 he]
    exact .mtr .mtrBegin 7 (.inl rfl)
  have hlast : (completeEntries [buildMtrEntry .mtrBegin 7] 12).getLast?.or none =
      some (buildMtrEntry .mtrBegin 7) := by decide
  have hvisit := visit_take hbuilt 12 false hlast fuel
  rw [LogEntryIterator.init, hvisit] at hfuel
  exact Bool.false_ne_true (congrArg Prod.snd hfuel)

end TDB.Redo
