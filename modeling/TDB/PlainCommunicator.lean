import Mathlib.Data.List.GetD
import TDB.RC
import TDB.Lib.ByteBits
import TDB.Lib.ByteMemory

namespace TDB.PlainCommunicator

open ByteBits ByteMemory

/-! ## The connection -/

/-- What stands behind the bytes of a peer: it has closed the connection, a read fails with an error
other than `EAGAIN`, or the connection stays open and nothing more comes. -/
inductive Ending where
  | closed | failed | waiting
  deriving DecidableEq, Repr

/-- What a call of `::read` meets: at most `n + 1` bytes have come, or none yet (`EAGAIN`). -/
inductive Arrival where
  | upTo (n : ℕ)
  | again
  deriving DecidableEq, Repr

/-- A connection: the bytes that `::read` has not given out yet, what stands behind them, and what
the next calls meet; behind these calls all bytes have come. -/
structure Connection where
  incoming : List (BitVec 8)
  ending : Ending
  arrivals : List Arrival

/-- What a call of `::read` gives: the bytes it puts into the buffer, none of them at the end of the
stream, or `-1` with `EAGAIN` or another error. -/
inductive ReadResult where
  | bytes (chunk : List (BitVec 8))
  | again
  | failed

/-- `::read` behind the last byte. -/
def Ending.read : Ending → ReadResult
  | closed => .bytes []
  | failed => .failed
  | waiting => .again

/-- `::read` once at most `available` bytes have come. -/
def give (c : Connection) (count available : ℕ) : ReadResult × Connection :=
  if c.incoming = [] then (c.ending.read, c)
  else (.bytes (c.incoming.take (min available count)),
    { c with incoming := c.incoming.drop (min available count) })

/-- `::read` of at most `count` bytes.  It returns 0 at once when it is asked for none. -/
def sysRead (c : Connection) (count : ℕ) : ReadResult × Connection :=
  if count = 0 then (.bytes [], c)
  else match c.arrivals with
    | [] => give c count count
    | .upTo n :: rest => give { c with arrivals := rest } count (n + 1)
    | .again :: rest => (.again, { c with arrivals := rest })

/-! ## `read_event` -/

def maxPacketSize : ℕ := 65535 * 2

structure Reading where
  buf : ℕ → BitVec 8
  dataLen : ℕ
  readLen : ℤ

/-- The loop of `read_event`; `none` when it has not ended within the fuel. -/
def readLoop : ℕ → Connection → Reading → Option Reading
  | 0, _, _ => none
  | fuel + 1, c, r =>
    match sysRead c (maxPacketSize - r.dataLen) with
    | (.again, c') => readLoop fuel c' { r with readLen := -1 }
    | (.failed, _) => some { r with readLen := -1 }
    | (.bytes chunk, c') =>
      let buf := memcpy r.dataLen chunk.length chunk r.buf
      if chunk.length = 0 then some { r with readLen := 0 }
      else if maxPacketSize < chunk.length + r.dataLen then
        some ⟨buf, r.dataLen + chunk.length, chunk.length⟩
      else match lowest (fun i => buf (r.dataLen + i) == 0#8) 0 chunk.length with
        | some i => some ⟨buf, r.dataLen + (i + 1), chunk.length⟩
        | none => readLoop fuel c' ⟨buf, r.dataLen + chunk.length, chunk.length⟩

/-- `std::string(buf.data())`. -/
def query (buf : ℕ → BitVec 8) : List (BitVec 8) :=
  (ByteMemory.read buf 0 maxPacketSize).takeWhile (· ≠ 0#8)

/-- The end of `read_event`, behind the loop: the code and the query of the event. -/
def conclude (r : Reading) : RC × Option (List (BitVec 8)) :=
  if maxPacketSize < r.dataLen then (.ioerrTooLong, none)
  else if r.readLen = 0 then (.ioerrClose, none)
  else if r.readLen < 0 then (.ioerrRead, none)
  else (.success, some (query r.buf))

/-- `read_event`; `vector<char>` is filled with zeros. -/
def readEvent (fuel : ℕ) (c : Connection) : Option (RC × Option (List (BitVec 8))) :=
  (readLoop fuel c ⟨fun _ => 0#8, 0, 0⟩).map conclude

/-! ## What the loop has read -/

/-- The outcome over the bytes of a connection, however they are cut: a full buffer without a NUL
is taken for the end of the stream. -/
def outcome (bytes : List (BitVec 8)) (ending : Ending) : Option (RC × Option (List (BitVec 8))) :=
  if 0#8 ∈ bytes.take maxPacketSize then some (.success, some (bytes.takeWhile (· ≠ 0#8)))
  else if maxPacketSize ≤ bytes.length then some (.ioerrClose, none)
  else match ending with
    | .closed => some (.ioerrClose, none)
    | .failed => some (.ioerrRead, none)
    | .waiting => none

/-- The buffer holds these bytes, and zeros behind them. -/
structure HasRead (r : Reading) (pre : List (BitVec 8)) : Prop where
  dataLen : r.dataLen = pre.length
  buf : ∀ k, r.buf k = pre.getD k 0#8
  fits : pre.length ≤ maxPacketSize
  noNul : 0#8 ∉ pre

theorem hasRead_nil : HasRead ⟨fun _ => 0#8, 0, 0⟩ [] :=
  ⟨rfl, fun _ => rfl, Nat.zero_le _, List.not_mem_nil⟩

theorem HasRead.withReadLen {r : Reading} {pre : List (BitVec 8)} (hr : HasRead r pre) {n : ℤ} :
    HasRead { r with readLen := n } pre :=
  ⟨hr.dataLen, hr.buf, hr.fits, hr.noNul⟩

/-- A chunk that is copied behind the bytes read so far. -/
theorem HasRead.memcpy_eq {r : Reading} {pre : List (BitVec 8)} (hr : HasRead r pre)
    (chunk : List (BitVec 8)) (k : ℕ) :
    memcpy r.dataLen chunk.length chunk r.buf k = (pre ++ chunk).getD k 0#8 := by
  rw [memcpy, hr.dataLen, hr.buf]
  by_cases hk : k < pre.length
  · rw [if_neg (by omega), List.getD_append _ _ _ _ hk]
  · rw [List.getD_append_right _ _ _ _ (by omega)]
    split
    · rfl
    · rw [List.getD_eq_default _ _ (by omega), List.getD_eq_default _ _ (by omega)]

/-! ## One call of `::read` -/

def readsLeft (c : Connection) (dataLen : ℕ) : ℕ :=
  c.arrivals.length + if c.incoming = [] ∨ dataLen = maxPacketSize then 1 else 2

theorem give_cases (c : Connection) {count available : ℕ} (hcount : 0 < count)
    (havailable : 0 < available) :
    (c.incoming = [] ∧ give c count available = (c.ending.read, c)) ∨
    ∃ chunk rest, c.incoming = chunk ++ rest ∧ chunk ≠ [] ∧ chunk.length ≤ count ∧
      (count ≤ available → rest = [] ∨ chunk.length = count) ∧
      give c count available = (.bytes chunk, { c with incoming := rest }) := by
  unfold give
  by_cases hnil : c.incoming = []
  · left
    exact ⟨hnil, if_pos hnil⟩
  · right
    have hlen := List.length_pos_of_ne_nil hnil
    have htake : (c.incoming.take (min available count)).length =
        min (min available count) c.incoming.length := List.length_take
    refine ⟨_, _, (List.take_append_drop (min available count) c.incoming).symm, ?_, ?_, ?_,
      if_neg hnil⟩
    · apply List.ne_nil_of_length_pos
      omega
    · omega
    · intro hle
      by_cases hshort : c.incoming.length ≤ count
      · left
        exact List.drop_eq_nil_of_le (by omega)
      · right
        omega

/-- A call finds nothing yet, or the end of the stream, or some of its bytes. -/
theorem sysRead_cases (c : Connection) {count : ℕ} (hcount : 0 < count) :
    (∃ arrivals, arrivals.length < c.arrivals.length ∧
      sysRead c count = (.again, { c with arrivals := arrivals })) ∨
    (c.incoming = [] ∧ ∃ arrivals, sysRead c count = (c.ending.read, ⟨[], c.ending, arrivals⟩)) ∨
    ∃ chunk rest arrivals, c.incoming = chunk ++ rest ∧ chunk ≠ [] ∧ chunk.length ≤ count ∧
      (arrivals.length < c.arrivals.length ∨
        arrivals.length = c.arrivals.length ∧ (rest = [] ∨ chunk.length = count)) ∧
      sysRead c count = (.bytes chunk, ⟨rest, c.ending, arrivals⟩) := by
  obtain ⟨incoming, ending, arrivals⟩ := c
  unfold sysRead
  rw [if_neg (Nat.ne_of_gt hcount)]
  cases arrivals with
  | nil =>
    right
    obtain ⟨rfl, hgive⟩ | ⟨chunk, rest, hsplit, hne, hle, hall, hgive⟩ :=
      give_cases ⟨incoming, ending, []⟩ hcount hcount
    · left
      exact ⟨rfl, [], hgive⟩
    · right
      exact ⟨chunk, rest, [], hsplit, hne, hle, .inr ⟨rfl, hall le_rfl⟩, hgive⟩
  | cons arrival arrivals =>
    cases arrival with
    | again =>
      left
      exact ⟨arrivals, Nat.lt_succ_self _, rfl⟩
    | upTo n =>
      right
      obtain ⟨rfl, hgive⟩ | ⟨chunk, rest, hsplit, hne, hle, -, hgive⟩ :=
        give_cases ⟨incoming, ending, arrivals⟩ hcount (Nat.succ_pos n)
      · left
        exact ⟨rfl, arrivals, hgive⟩
      · right
        exact ⟨chunk, rest, arrivals, hsplit, hne, hle, .inl (Nat.lt_succ_self _), hgive⟩

/-! ## The loop -/

theorem read_buf {buf : ℕ → BitVec 8} {bytes : List (BitVec 8)}
    (hbuf : ∀ k, buf k = bytes.getD k 0#8) (hfits : bytes.length ≤ maxPacketSize) :
    ByteMemory.read buf 0 maxPacketSize =
      bytes ++ List.replicate (maxPacketSize - bytes.length) 0#8 := by
  apply List.ext_getElem
  · rw [length_read, List.length_append, List.length_replicate]
    omega
  · intro k hk hk'
    simp only [ByteMemory.read, List.getElem_map, List.getElem_range, Nat.zero_add]
    rw [hbuf]
    by_cases hlt : k < bytes.length
    · rw [List.getD_eq_getElem _ _ hlt, List.getElem_append_left hlt]
    · rw [List.getD_eq_default _ _ (by omega), List.getElem_append_right (by omega),
        List.getElem_replicate]

theorem takeWhile_append_of_mem {bytes : List (BitVec 8)} (h : 0#8 ∈ bytes)
    (rest : List (BitVec 8)) :
    (bytes ++ rest).takeWhile (· ≠ 0#8) = bytes.takeWhile (· ≠ 0#8) := by
  obtain ⟨before, behind, rfl, hbefore⟩ := List.eq_append_cons_of_mem h
  have hne : ∀ byte ∈ before, decide (byte ≠ 0#8) = true := by
    intro byte hbyte
    apply decide_eq_true
    intro hzero
    rw [hzero] at hbyte
    exact hbefore hbyte
  rw [List.append_assoc, List.takeWhile_append_of_pos hne, List.takeWhile_append_of_pos hne,
    List.cons_append, List.takeWhile_cons_of_neg (by simp), List.takeWhile_cons_of_neg (by simp)]

/-- The query is what stands in front of the first NUL of the buffer. -/
theorem query_eq {buf : ℕ → BitVec 8} {bytes : List (BitVec 8)}
    (hbuf : ∀ k, buf k = bytes.getD k 0#8) (hfits : bytes.length ≤ maxPacketSize)
    (hnul : 0#8 ∈ bytes) : query buf = bytes.takeWhile (· ≠ 0#8) := by
  unfold query
  rw [read_buf hbuf hfits, takeWhile_append_of_mem hnul]

/-- The scan for a NUL over a chunk that has been copied behind the bytes read so far. -/
theorem HasRead.scan_eq_none_iff {r : Reading} {pre : List (BitVec 8)} (hr : HasRead r pre)
    (chunk : List (BitVec 8)) :
    lowest (fun i => memcpy r.dataLen chunk.length chunk r.buf (r.dataLen + i) == 0#8) 0
      chunk.length = none ↔ 0#8 ∉ chunk := by
  have hbyte : ∀ i (hi : i < chunk.length),
      memcpy r.dataLen chunk.length chunk r.buf (r.dataLen + i) = chunk[i] := by
    intro i hi
    rw [hr.memcpy_eq, hr.dataLen, List.getD_append_right _ _ _ _ (by omega),
      Nat.add_sub_cancel_left, List.getD_eq_getElem _ _ hi]
  rw [lowest_eq_none_iff]
  constructor
  · intro hall hmem
    obtain ⟨i, hi, hzero⟩ := List.mem_iff_getElem.mp hmem
    have := hall i (Nat.zero_le i) hi
    rw [hbyte i hi, hzero] at this
    exact absurd this (by decide)
  · intro hmem i _ hi
    rw [hbyte i hi]
    apply beq_eq_false_iff_ne.mpr
    intro hzero
    exact hmem (List.mem_of_getElem hzero)

theorem outcome_of_mem {bytes : List (BitVec 8)} (h : 0#8 ∈ bytes)
    (hfits : bytes.length ≤ maxPacketSize) (rest : List (BitVec 8)) (ending : Ending) :
    outcome (bytes ++ rest) ending = some (.success, some (bytes.takeWhile (· ≠ 0#8))) := by
  unfold outcome
  rw [List.take_append, List.take_of_length_le hfits, if_pos (List.mem_append_left _ h),
    takeWhile_append_of_mem h]

theorem outcome_of_full {pre : List (BitVec 8)} (hnul : 0#8 ∉ pre)
    (hfull : pre.length = maxPacketSize) (rest : List (BitVec 8)) (ending : Ending) :
    outcome (pre ++ rest) ending = some (.ioerrClose, none) := by
  unfold outcome
  rw [← hfull, List.take_left, if_neg hnul, if_pos (by rw [List.length_append]; omega)]

/-- Behind the last byte the outcome is that of one more call. -/
theorem outcome_of_short {r : Reading} {pre : List (BitVec 8)} (hr : HasRead r pre)
    (hshort : pre.length < maxPacketSize) :
    outcome pre .closed = some (conclude { r with readLen := 0 }) ∧
      outcome pre .failed = some (conclude { r with readLen := -1 }) ∧
      outcome pre .waiting = none := by
  have hnul : ¬ 0#8 ∈ pre.take maxPacketSize := fun hmem => hr.noNul (List.mem_of_mem_take hmem)
  have hnot : ¬ maxPacketSize < r.dataLen := by
    rw [hr.dataLen]
    omega
  unfold outcome conclude
  simp only [if_neg hnul, if_neg (Nat.not_le.mpr hshort), if_neg hnot]
  exact ⟨rfl, rfl, trivial⟩

/-- Every request of no bytes is answered by 0, which the code takes for the end of the stream. -/
theorem readLoop_full {r : Reading} (hfull : r.dataLen = maxPacketSize) (fuel : ℕ)
    (c : Connection) : readLoop (fuel + 1) c r = some { r with readLen := 0 } := by
  have hread : sysRead c (maxPacketSize - r.dataLen) = (.bytes [], c) := by
    rw [hfull, Nat.sub_self]
    rfl
  simp [readLoop, hread]

theorem readLoop_of_mem {r : Reading} {pre chunk : List (BitVec 8)} (hr : HasRead r pre)
    (hfits : pre.length + chunk.length ≤ maxPacketSize) (hnul : 0#8 ∈ chunk) {c c' : Connection}
    (hread : sysRead c (maxPacketSize - r.dataLen) = (.bytes chunk, c')) (fuel : ℕ) :
    (readLoop (fuel + 1) c r).map conclude =
      some (.success, some ((pre ++ chunk).takeWhile (· ≠ 0#8))) := by
  have hlen : 0 < chunk.length := List.length_pos_of_mem hnul
  have hscan := (hr.scan_eq_none_iff chunk).not_left.mpr hnul
  obtain ⟨i, hi⟩ := Option.ne_none_iff_exists'.mp hscan
  have hle := (lowest_eq_some_iff.mp hi).2.1
  have hshort : ¬ maxPacketSize < r.dataLen + (i + 1) := by
    rw [hr.dataLen]
    omega
  have hnot : ¬ maxPacketSize < chunk.length + r.dataLen := by
    rw [hr.dataLen]
    omega
  simp only [readLoop, hread, if_neg (Nat.ne_of_gt hlen), if_neg hnot, hi, Option.map_some]
  unfold conclude
  rw [if_neg hshort, if_neg (by simpa using hlen.ne'),
    if_neg (Int.not_lt.mpr (Int.natCast_nonneg _)),
    query_eq (hr.memcpy_eq chunk) (by rwa [List.length_append]) (List.mem_append_right _ hnul)]

/-- A chunk without a NUL goes behind the bytes read so far. -/
theorem readLoop_of_notMem {r : Reading} {pre chunk : List (BitVec 8)} (hr : HasRead r pre)
    (hfits : pre.length + chunk.length ≤ maxPacketSize) (hne : chunk ≠ []) (hnul : 0#8 ∉ chunk)
    {c c' : Connection} (hread : sysRead c (maxPacketSize - r.dataLen) = (.bytes chunk, c'))
    (fuel : ℕ) :
    ∃ r', HasRead r' (pre ++ chunk) ∧ readLoop (fuel + 1) c r = readLoop fuel c' r' := by
  have hlen := List.length_pos_of_ne_nil hne
  have hnot : ¬ maxPacketSize < chunk.length + r.dataLen := by
    rw [hr.dataLen]
    omega
  refine ⟨⟨memcpy r.dataLen chunk.length chunk r.buf, r.dataLen + chunk.length, chunk.length⟩,
    ⟨?_, hr.memcpy_eq chunk, ?_, ?_⟩, ?_⟩
  · rw [hr.dataLen, List.length_append]
  · rwa [List.length_append]
  · rw [List.mem_append, not_or]
    exact ⟨hr.noNul, hnul⟩
  · simp only [readLoop, hread, if_neg (Nat.ne_of_gt hlen), if_neg hnot,
      (hr.scan_eq_none_iff chunk).mpr hnul]

/-- A call that finds nothing is made again. -/
theorem readLoop_again {r : Reading} {c c' : Connection}
    (hread : sysRead c (maxPacketSize - r.dataLen) = (.again, c')) (fuel : ℕ) :
    readLoop (fuel + 1) c r = readLoop fuel c' { r with readLen := -1 } := by
  simp only [readLoop, hread]

/-- Behind the last byte of a connection that does not stay open the loop ends. -/
theorem readLoop_of_ended {r : Reading} {pre : List (BitVec 8)} (hr : HasRead r pre)
    (hshort : pre.length < maxPacketSize) {c c' : Connection}
    (hread : sysRead c (maxPacketSize - r.dataLen) = (c.ending.read, c'))
    (hended : c.ending ≠ .waiting) (fuel : ℕ) :
    (readLoop (fuel + 1) c r).map conclude = outcome pre c.ending := by
  obtain ⟨hclosed, hfailed, -⟩ := outcome_of_short hr hshort
  cases hending : c.ending with
  | closed =>
    rw [hending] at hread
    rw [hclosed]
    simp only [readLoop, hread, Ending.read]
    rfl
  | failed =>
    rw [hending] at hread
    rw [hfailed]
    simp only [readLoop, hread, Ending.read]
    rfl
  | waiting => exact absurd hending hended

/-- Behind a chunk the next call is one of fewer calls. -/
theorem readsLeft_lt {c : Connection} {chunk rest : List (BitVec 8)} {arrivals : List Arrival}
    {dataLen : ℕ} (hnot : ¬ (c.incoming = [] ∨ dataLen = maxPacketSize))
    (hleft : arrivals.length < c.arrivals.length ∨ arrivals.length = c.arrivals.length ∧
      (rest = [] ∨ dataLen + chunk.length = maxPacketSize)) :
    readsLeft ⟨rest, c.ending, arrivals⟩ (dataLen + chunk.length) < readsLeft c dataLen := by
  unfold readsLeft
  rw [if_neg hnot]
  obtain hfewer | ⟨hsame, hlast⟩ := hleft
  · split <;> dsimp only <;> omega
  · rw [if_pos hlast]
    dsimp only
    omega

/-- However the stream is cut, the loop comes to the outcome, unless its fuel runs out first. -/
theorem readLoop_eq_outcome {fuel : ℕ} {c : Connection} {r : Reading} {pre : List (BitVec 8)}
    (hr : HasRead r pre) :
    (readLoop fuel c r).map conclude = outcome (pre ++ c.incoming) c.ending ∨
      readLoop fuel c r = none ∧ fuel < readsLeft c r.dataLen := by
  -- on the fuel, which `readsLeft` bounds while something is left to read
  induction fuel generalizing c r pre with
  | zero =>
    right
    refine ⟨rfl, ?_⟩
    unfold readsLeft
    split <;> omega
  | succ fuel ih =>
    by_cases hfull : r.dataLen = maxPacketSize
    · left
      rw [readLoop_full hfull, outcome_of_full hr.noNul (hr.dataLen.symm.trans hfull),
        Option.map_some, conclude, hfull, if_neg (Nat.lt_irrefl _), if_pos rfl]
    · have hfits := hr.fits
      have hlen := hr.dataLen
      have hlt : pre.length < maxPacketSize := by omega
      have hcount : 0 < maxPacketSize - r.dataLen := by omega
      obtain ⟨arrivals, hfewer, hread⟩ | ⟨hnil, arrivals, hread⟩ |
        ⟨chunk, rest, arrivals, hsplit, hne, hle, hleft, hread⟩ := sysRead_cases c hcount
      · -- nothing has come yet
        rw [readLoop_again hread]
        refine (ih hr.withReadLen).imp_right fun ⟨hnone, hfuel⟩ => ⟨hnone, ?_⟩
        unfold readsLeft at hfuel ⊢
        dsimp only at hfuel
        omega
      · -- behind the last byte
        left
        rw [hnil, List.append_nil]
        by_cases hended : c.ending = .waiting
        · rw [hended] at hread
          rw [readLoop_again hread, hended, (outcome_of_short hr hlt).2.2]
          obtain hout | ⟨hnone, -⟩ := ih (c := ⟨[], .waiting, arrivals⟩) hr.withReadLen
          · rw [hout, List.append_nil, (outcome_of_short hr hlt).2.2]
          · rw [hnone, Option.map_none]
        · exact readLoop_of_ended hr hlt hread hended fuel
      · have hchunk : pre.length + chunk.length ≤ maxPacketSize := by omega
        rw [hsplit, ← List.append_assoc]
        by_cases hnul : 0#8 ∈ chunk
        · left
          rw [readLoop_of_mem hr hchunk hnul hread,
            outcome_of_mem (List.mem_append_right _ hnul) (by rwa [List.length_append])]
        · obtain ⟨r', hr', hstep⟩ := readLoop_of_notMem hr hchunk hne hnul hread fuel
          rw [hstep]
          refine (ih hr').imp_right fun ⟨hnone, hfuel⟩ => ⟨hnone, ?_⟩
          have hnot : ¬ (c.incoming = [] ∨ r.dataLen = maxPacketSize) := by
            rw [hsplit, not_or]
            exact ⟨List.append_ne_nil_of_left_ne_nil hne rest, hfull⟩
          have hless := readsLeft_lt hnot (hleft.imp_right fun hlast => ⟨hlast.1,
            hlast.2.imp_right fun hcut => show r.dataLen + chunk.length = _ by omega⟩)
          rw [hr'.dataLen, List.length_append, ← hlen] at hfuel
          omega

/-! ## The framing of requests -/

/-- `read_event` ends with this code, and with this query if it made an event. -/
def Connection.Returns (c : Connection) (result : RC × Option (List (BitVec 8))) : Prop :=
  ∃ fuel, readEvent fuel c = some result

theorem readEvent_eq_outcome (fuel : ℕ) (c : Connection) :
    readEvent fuel c = outcome c.incoming c.ending ∨
      readEvent fuel c = none ∧ fuel < readsLeft c 0 := by
  refine (readLoop_eq_outcome hasRead_nil).imp_right fun ⟨hnone, hfuel⟩ => ⟨?_, hfuel⟩
  rw [readEvent, hnone, Option.map_none]

theorem returns_iff {c : Connection} {result : RC × Option (List (BitVec 8))} :
    c.Returns result ↔ outcome c.incoming c.ending = some result := by
  constructor
  · rintro ⟨fuel, hresult⟩
    obtain hout | ⟨hnone, -⟩ := readEvent_eq_outcome fuel c
    · rw [← hout, hresult]
    · rw [hnone] at hresult
      cases hresult
  · intro hout
    obtain heq | ⟨-, hfuel⟩ := readEvent_eq_outcome (readsLeft c 0) c
    · exact ⟨_, heq.trans hout⟩
    · exact absurd hfuel (Nat.lt_irrefl _)

/-- A buffer that is full is never too long. -/
theorem not_returns_tooLong (c : Connection) (query : Option (List (BitVec 8))) :
    ¬ c.Returns (.ioerrTooLong, query) := by
  rw [returns_iff]
  unfold outcome
  split
  · simp
  · split
    · simp
    · cases c.ending <;> simp

/-- A connection on which `read_event` takes what stands in front of the first NUL for the query,
refuses a request that is too long, gives up only on a peer that has closed the connection, and does
all this however the stream is cut. -/
structure FramesRequest (c : Connection) : Prop where
  success : 0#8 ∈ c.incoming.take maxPacketSize →
    c.Returns (.success, some (c.incoming.takeWhile (· ≠ 0#8)))
  tooLong : 0#8 ∉ c.incoming.take maxPacketSize → maxPacketSize ≤ c.incoming.length →
    c.Returns (.ioerrTooLong, none)
  close : ∀ query, c.Returns (.ioerrClose, query) →
    c.ending = .closed ∧ 0#8 ∉ c.incoming.take maxPacketSize ∧ c.incoming.length < maxPacketSize
  chunking : ∀ arrivals result, c.Returns result ↔ { c with arrivals := arrivals }.Returns result

/-- Requests are framed unless 131070 bytes come without a NUL. -/
theorem framesRequest_iff (c : Connection) : FramesRequest c ↔
    0#8 ∈ c.incoming.take maxPacketSize ∨ c.incoming.length < maxPacketSize := by
  constructor
  · intro hframes
    by_contra hnot
    rw [not_or, Nat.not_lt] at hnot
    exact not_returns_tooLong c none (hframes.tooLong hnot.1 hnot.2)
  · intro hcond
    refine ⟨fun hnul => ?_, fun hnul hlong => ?_, fun query hclose => ?_, fun arrivals result => ?_⟩
    · rw [returns_iff]
      exact if_pos hnul
    · exact absurd hcond (not_or.mpr ⟨hnul, Nat.not_lt.mpr hlong⟩)
    · rw [returns_iff] at hclose
      unfold outcome at hclose
      split at hclose
      · cases hclose
      · next hnul =>
        have hshort := hcond.resolve_left hnul
        rw [if_neg (Nat.not_le.mpr hshort)] at hclose
        refine ⟨?_, hnul, hshort⟩
        cases hending : c.ending with
        | closed => rfl
        | failed => rw [hending] at hclose; cases hclose
        | waiting => rw [hending] at hclose; cases hclose
    · rw [returns_iff, returns_iff]

/-- A request of 131070 bytes without a NUL on a connection that stays open. -/
def fullRequest : Connection := ⟨List.replicate maxPacketSize 97#8, .waiting, []⟩

/-- The request is taken for a connection that the peer has closed. -/
theorem fullRequest_close :
    fullRequest.Returns (.ioerrClose, none) ∧ ¬ FramesRequest fullRequest := by
  have hlen : fullRequest.incoming.length = maxPacketSize := List.length_replicate
  have hnul : 0#8 ∉ fullRequest.incoming := by
    intro hmem
    exact absurd (List.eq_of_mem_replicate hmem) (by decide)
  constructor
  · rw [returns_iff, ← List.append_nil fullRequest.incoming]
    exact outcome_of_full hnul hlen [] _
  · intro hframes
    apply not_returns_tooLong fullRequest none
    apply hframes.tooLong
    · exact fun hmem => hnul (List.mem_of_mem_take hmem)
    · exact Nat.le_of_eq hlen.symm

end TDB.PlainCommunicator
