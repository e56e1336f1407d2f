import TDB.RC
import TDB.Lib.Exec
import TDB.Lib.Int32Arith

namespace TDB

open Exec Int32Arith

/-! ## The ring buffer -/

/-- `RingBuffer`: the memory of `buffer_`, `data_size_` and `write_pos_`. -/
structure RingBuffer where
  bytes : List (BitVec 8)
  dataSize : ℤ
  writePos : ℤ

/-- An access outside an array, or a loop that did not end. -/
inductive MemoryFault where
  | outOfBounds | endless
  deriving DecidableEq, Repr

abbrev RingM := StateT RingBuffer (Except MemoryFault)

namespace RingBuffer

/-- The constructor; `vector<char>` is filled with zeros. -/
def new (size : ℕ) : RingBuffer := ⟨List.replicate size 0#8, 0, 0⟩

def capacity (rb : RingBuffer) : ℤ := rb.bytes.length

def size (rb : RingBuffer) : ℤ := rb.dataSize

def remain (rb : RingBuffer) : ℤ := int32 (rb.capacity - rb.size)

def readPos (rb : RingBuffer) : ℤ :=
  (int32 (int32 (rb.writePos - rb.size) + rb.capacity)).tmod rb.capacity

/-- The `n` bytes of an array from position `pos` on, as `memcpy` reads them. -/
def slice (bytes : List (BitVec 8)) (pos n : ℤ) : RingM (List (BitVec 8)) := fun rb =>
  if 0 ≤ pos ∧ 0 ≤ n ∧ pos + n ≤ bytes.length then
    .ok ((bytes.drop pos.toNat).take n.toNat, rb)
  else .error .outOfBounds

/-- `memcpy` into `buffer_` at position `pos`. -/
def copyIn (pos : ℤ) (chunk : List (BitVec 8)) : RingM Unit := fun rb =>
  if 0 ≤ pos ∧ pos + chunk.length ≤ rb.bytes.length then
    .ok ((), { rb with
      bytes := rb.bytes.take pos.toNat ++ chunk ++ rb.bytes.drop (pos.toNat + chunk.length) })
  else .error .outOfBounds

/-- `buffer`: the position of the first byte in `buffer_`, and how many bytes stand there. -/
def buffer (rb : RingBuffer) : RC × ℤ × ℤ :=
  if rb.size = 0 then (.success, 0, 0)
  else if rb.readPos < rb.writePos then (.success, rb.readPos, int32 (rb.writePos - rb.readPos))
  else (.success, rb.readPos, int32 (rb.capacity - rb.readPos))

def forward (size : ℤ) : RingM RC := fun rb =>
  if size ≤ 0 then .ok (.invalidArgument, rb)
  else if rb.size < size then .ok (.invalidArgument, rb)
  else .ok (.success, { rb with dataSize := int32 (rb.dataSize - size) })

/-- The loop of `read`; `buf` holds the `read_size` bytes read so far. -/
def readLoop (size : ℤ) : ℕ → List (BitVec 8) → RingM (RC × List (BitVec 8))
  | 0, _ => throw .endless
  | fuel + 1, buf => do
    let rb ← get
    if buf.length < size ∧ 0 < rb.size then
      let tmp := rb.buffer
      if tmp.1.fail then return (tmp.1, buf)
      let copySize := min (int32 (size - buf.length)) tmp.2.2
      let chunk ← slice rb.bytes tmp.2.1 copySize
      let rc ← forward copySize
      if rc.fail then return (rc, buf ++ chunk)
      readLoop size fuel (buf ++ chunk)
    else return (.success, buf)

/-- `read`: the code and the bytes put into `buf`. -/
def read (size : ℤ) : RingM (RC × List (BitVec 8)) := do
  if size < 0 then return (.invalidArgument, [])
  readLoop size (size.toNat + 1) []

/-- The room for `memcpy` behind `write_pos_`. -/
def tmpBufSize (rb : RingBuffer) : ℤ :=
  if rb.readPos ≤ rb.writePos then int32 (rb.capacity - rb.writePos)
  else int32 (rb.readPos - rb.writePos)

def writeLoop (data : List (BitVec 8)) (size : ℤ) : ℕ → ℤ → RingM (RC × ℤ)
  | 0, _ => throw .endless
  | fuel + 1, writeSize => do
    let rb ← get
    if writeSize < size ∧ 0 < rb.remain then
      let copySize := min (int32 (size - writeSize)) rb.tmpBufSize
      let chunk ← slice data writeSize copySize
      copyIn rb.writePos chunk
      modify fun rb => { rb with
        writePos := (int32 (rb.writePos + copySize)).tmod rb.capacity
        dataSize := int32 (rb.dataSize + copySize) }
      writeLoop data size fuel (int32 (writeSize + copySize))
    else return (.success, writeSize)

/-- `write`: the code and `write_size`. -/
def write (data : List (BitVec 8)) (size : ℤ) : RingM (RC × ℤ) := do
  if size < 0 then return (.invalidArgument, 0)
  writeLoop data size (size.toNat + 1) 0

/-! ## The bytes in the buffer -/

/-- The buffer holds the bytes `queue` from position `first` on, around the end of its memory. -/
structure Holds (rb : RingBuffer) (first : ℕ) (queue : List (BitVec 8)) : Prop where
  pos : 0 < rb.bytes.length
  le : rb.bytes.length ≤ 2 ^ 30
  first_lt : first < rb.bytes.length
  length_le : queue.length ≤ rb.bytes.length
  dataSize : rb.dataSize = queue.length
  writePos : rb.writePos = ((first + queue.length) % rb.bytes.length : ℕ)
  byte : ∀ i, i < queue.length →
    rb.bytes[(first + i) % rb.bytes.length]? = queue[i]?

theorem holds_new {size : ℕ} (hpos : 0 < size) (hle : size ≤ 2 ^ 30) : (new size).Holds 0 [] :=
  ⟨by simpa [new] using hpos, by simpa [new] using hle, by simpa [new] using hpos, by simp,
    by simp [new], by simp [new], by simp⟩

/-- Walking on from a position of the memory passes its end at most once. -/
theorem mod_eq {first n c : ℕ} (hfirst : first < c) (hn : n ≤ c) :
    (first + n) % c = if first + n < c then first + n else first + n - c := by
  split
  · next hlt => exact Nat.mod_eq_of_lt hlt
  · next hge => rw [Nat.mod_eq_sub_mod (by omega), Nat.mod_eq_of_lt (by omega)]

namespace Holds

variable {rb : RingBuffer} {first : ℕ} {queue : List (BitVec 8)} (hb : rb.Holds first queue)

include hb

theorem size_eq : rb.size = queue.length := hb.dataSize

theorem remain_eq : rb.remain = rb.bytes.length - queue.length := by
  have hle := hb.le
  have hlen := hb.length_le
  unfold remain capacity
  rw [hb.size_eq]
  exact int32_eq (by omega) (by omega)

theorem writePos_eq : rb.writePos = if first + queue.length < rb.bytes.length then
    (first : ℤ) + queue.length else first + queue.length - rb.bytes.length := by
  rw [hb.writePos, mod_eq hb.first_lt hb.length_le]
  have hlt := hb.first_lt
  have hlen := hb.length_le
  split <;> omega

theorem readPos_eq : rb.readPos = first := by
  have hle := hb.le
  have hlt := hb.first_lt
  have hlen := hb.length_le
  have hpos := hb.pos
  unfold readPos capacity
  rw [hb.size_eq, hb.writePos_eq]
  split
  · rw [int32_eq (n := (first : ℤ) + queue.length - queue.length) (by omega) (by omega),
      int32_eq (by omega) (by omega), Int.tmod_eq_emod_of_nonneg (by omega)]
    rw [show (first : ℤ) + queue.length - queue.length + rb.bytes.length =
      first + rb.bytes.length by omega, Int.add_emod_right, Int.emod_eq_of_lt (by omega) (by omega)]
  · rw [int32_eq (n := (first : ℤ) + queue.length - rb.bytes.length - queue.length) (by omega)
      (by omega), int32_eq (by omega) (by omega), Int.tmod_eq_emod_of_nonneg (by omega)]
    rw [show (first : ℤ) + queue.length - rb.bytes.length - queue.length + rb.bytes.length =
      first by omega, Int.emod_eq_of_lt (by omega) (by omega)]

theorem buffer_eq : queue = [] ∧ rb.buffer = (.success, 0, 0) ∨
    ∃ n : ℕ, 0 < n ∧ n ≤ queue.length ∧ first + n ≤ rb.bytes.length ∧
      rb.buffer = (.success, (first : ℤ), (n : ℤ)) := by
  have hle := hb.le
  have hlt := hb.first_lt
  have hlen := hb.length_le
  unfold buffer capacity
  rw [hb.size_eq, hb.readPos_eq, hb.writePos_eq]
  by_cases hnil : queue = []
  · exact .inl ⟨hnil, by simp [hnil]⟩
  · have hpos : 0 < queue.length := List.length_pos_iff.mpr hnil
    rw [if_neg (by omega)]
    right
    split
    · refine ⟨queue.length, hpos, le_rfl, by omega, ?_⟩
      rw [if_pos (by omega), int32_eq (by omega) (by omega), add_sub_cancel_left]
    · refine ⟨rb.bytes.length - first, by omega, by omega, by omega, ?_⟩
      rw [if_neg (by omega), int32_eq (by omega) (by omega), Nat.cast_sub (Nat.le_of_lt hlt)]

theorem slice_eq {n : ℕ} (hn : n ≤ queue.length) (hend : first + n ≤ rb.bytes.length)
    (rb' : RingBuffer) : slice rb.bytes first n rb' = .ok (queue.take n, rb') := by
  have hcond : (0 : ℤ) ≤ first ∧ (0 : ℤ) ≤ n ∧ (first : ℤ) + n ≤ rb.bytes.length := by omega
  unfold slice
  rw [if_pos hcond]
  simp only [Int.toNat_natCast]
  congr 2
  refine List.ext_getElem? fun i => ?_
  rw [List.getElem?_take, List.getElem?_take]
  split
  · next hi =>
    rw [List.getElem?_drop, ← hb.byte i (by omega), Nat.mod_eq_of_lt (by omega)]
  · rfl

theorem forward_eq {n : ℕ} (hpos : 0 < n) (hn : n ≤ queue.length) : ∃ rb',
    forward n rb = .ok (.success, rb') ∧
      rb'.Holds ((first + n) % rb.bytes.length) (queue.drop n) ∧ rb'.capacity = rb.capacity := by
  have hle := hb.le
  have hlen := hb.length_le
  have hlt := hb.first_lt
  have hsize := hb.dataSize
  refine ⟨{ rb with dataSize := int32 (rb.dataSize - n) }, ?_, ?_, rfl⟩
  · unfold forward
    rw [hb.size_eq, if_neg (by omega), if_neg (by omega)]
  · refine ⟨hb.pos, hb.le, Nat.mod_lt _ hb.pos, ?_, ?_, ?_, fun i hi => ?_⟩
    · rw [List.length_drop]
      exact Nat.le_trans (Nat.sub_le _ _) hlen
    · rw [List.length_drop, hsize]
      dsimp only
      rw [int32_eq (by omega) (by omega)]
      omega
    · rw [List.length_drop, Nat.mod_add_mod]
      dsimp only
      rw [hb.writePos]
      congr 2
      omega
    · rw [List.length_drop] at hi
      rw [List.getElem?_drop, ← hb.byte (n + i) (by omega)]
      dsimp only
      rw [Nat.mod_add_mod, Nat.add_assoc]

theorem forward_too_large {n : ℕ} (hn : n = 0 ∨ queue.length < n) :
    forward n rb = .ok (.invalidArgument, rb) := by
  unfold forward
  rw [hb.size_eq]
  split
  · rfl
  · next hpos => rw [if_pos (by omega)]

/-- The room that one round of `write` uses. -/
theorem tmpBufSize_eq (hroom : queue.length < rb.bytes.length) : ∃ n : ℕ, 0 < n ∧
    queue.length + n ≤ rb.bytes.length ∧
    (first + queue.length) % rb.bytes.length + n ≤ rb.bytes.length ∧ rb.tmpBufSize = n := by
  have hle := hb.le
  have hlt := hb.first_lt
  unfold tmpBufSize capacity
  rw [hb.readPos_eq, hb.writePos_eq, mod_eq hlt hb.length_le]
  split
  · refine ⟨rb.bytes.length - (first + queue.length), by omega, by omega, by omega, ?_⟩
    rw [if_pos (by omega), int32_eq (by omega) (by omega)]
    omega
  · refine ⟨rb.bytes.length - queue.length, by omega, by omega, by omega, ?_⟩
    rw [if_neg (by omega), int32_eq (by omega) (by omega)]
    omega

theorem append (chunk : List (BitVec 8)) (hroom : queue.length + chunk.length ≤ rb.bytes.length)
    (hend : (first + queue.length) % rb.bytes.length + chunk.length ≤ rb.bytes.length) :
    ∃ rb₁ rb₂, copyIn rb.writePos chunk rb = .ok ((), rb₁) ∧
      rb₂ = { rb₁ with
        writePos := (int32 (rb₁.writePos + chunk.length)).tmod rb₁.capacity
        dataSize := int32 (rb₁.dataSize + chunk.length) } ∧
      rb₂.Holds first (queue ++ chunk) ∧ rb₂.capacity = rb.capacity := by
  have hle := hb.le
  have hlt := hb.first_lt
  have hsize := hb.dataSize
  obtain ⟨w, hw⟩ : ∃ w, w = (first + queue.length) % rb.bytes.length := ⟨_, rfl⟩
  have hwrite : rb.writePos = (w : ℤ) := by rw [hb.writePos, hw]
  rw [← hw] at hend
  have hcond : (0 : ℤ) ≤ w ∧ (w : ℤ) + chunk.length ≤ rb.bytes.length := by omega
  have hlen : (rb.bytes.take w ++ chunk ++ rb.bytes.drop (w + chunk.length)).length =
      rb.bytes.length := by
    simp only [List.length_append, List.length_take, List.length_drop]
    omega
  refine ⟨{ rb with bytes := rb.bytes.take w ++ chunk ++ rb.bytes.drop (w + chunk.length) }, _,
    ?_, rfl, ?_, ?_⟩
  · unfold copyIn
    rw [hwrite, if_pos hcond]
    simp only [Int.toNat_natCast]
  · refine ⟨by rw [hlen]; exact hb.pos, by rw [hlen]; exact hb.le, by rw [hlen]; exact hlt, ?_, ?_,
      ?_, fun i hi => ?_⟩
    · rw [hlen, List.length_append]
      exact hroom
    · rw [List.length_append]
      dsimp only
      rw [hsize, int32_eq (by omega) (by omega), Nat.cast_add]
    · unfold capacity
      rw [hlen, List.length_append]
      dsimp only
      rw [hwrite, int32_eq (by omega) (by omega), Int.tmod_eq_emod_of_nonneg (by omega),
        ← Nat.cast_add,
        ← Int.natCast_emod, hw, Nat.mod_add_mod, Nat.add_assoc]
    · rw [hlen]
      rw [List.length_append] at hi
      dsimp only
      have hfirst := mod_eq hlt (show i ≤ rb.bytes.length by omega)
      -- both positions wrap at most once, so each index is known without `%`
      have hlast := mod_eq hlt hb.length_le
      -- the queued bytes are not overwritten, and the new ones stand behind them
      by_cases hold : i < queue.length
      · rw [List.getElem?_append_left hold, ← hb.byte i hold]
        generalize hk : (first + i) % rb.bytes.length = k at hfirst ⊢
        have hout : k < w ∨ w + chunk.length ≤ k := by
          rw [← hw] at hlast
          split at hfirst <;> split at hlast <;> omega
        rcases hout with hout | hout
        · rw [List.append_assoc, List.getElem?_append_left (by rw [List.length_take]; omega),
            List.getElem?_take_of_lt hout]
        · rw [List.getElem?_append_right (by
            rw [List.length_append, List.length_take]; omega), List.getElem?_drop,
            List.length_append, List.length_take]
          congr 1
          omega
      · have hk : (first + i) % rb.bytes.length = w + (i - queue.length) := by
          rw [← hw] at hlast
          split at hfirst <;> split at hlast <;> omega
        rw [hk, List.getElem?_append_right (not_lt.mp hold), List.append_assoc,
          List.getElem?_append_right (by rw [List.length_take]; omega), List.length_take,
          List.getElem?_append_left (by omega)]
        congr 1
        omega
  · unfold capacity
    rw [hlen]

end Holds

/-! ## The loops -/

/-- The loop of `read` moves the front of the queue behind the bytes read so far. -/
theorem Holds.returns_readLoop {size : ℕ} (hsize : size < 2 ^ 31) : ∀ (fuel : ℕ) {rb : RingBuffer}
    {first : ℕ} {queue : List (BitVec 8)} {buf : List (BitVec 8)}, rb.Holds first queue →
    buf.length ≤ size → size - buf.length < fuel →
    Returns (readLoop size fuel buf) rb fun r rb' =>
      r = (.success, buf ++ queue.take (size - buf.length)) ∧ rb'.capacity = rb.capacity ∧
        ∃ first', rb'.Holds first' (queue.drop (size - buf.length))
  | 0, _, _, _, _, _, _, hfuel => absurd hfuel (Nat.not_lt_zero _)
  | fuel + 1, rb, first, queue, buf, hb, hbuf, hfuel => by
    unfold readLoop
    rw [returns_bind, returns_get, hb.size_eq]
    rcases hb.buffer_eq with ⟨rfl, hbuffer⟩ | ⟨n, hpos, hn, hend, hbuffer⟩
    · rw [if_neg (by simp), returns_pure]
      simp only [List.take_nil, List.append_nil, List.drop_nil, true_and]
      exact ⟨first, hb⟩
    · split
      · next hmore =>
        obtain ⟨k, hk⟩ : ∃ k, k = min (size - buf.length) n := ⟨_, rfl⟩
        have hcopy : min (int32 ((size : ℤ) - buf.length)) (n : ℤ) = (k : ℤ) := by
          rw [int32_eq (by omega) (by omega)]
          omega
        have hkq : k ≤ queue.length := by omega
        have htake : (queue.take k).length = k := by
          rw [List.length_take]
          omega
        obtain ⟨rb₁, hforward, hb₁, hcap⟩ := hb.forward_eq (n := k) (by omega) hkq
        have hfail : RC.success.fail = false := rfl
        simp only [hbuffer, hcopy, hfail, Bool.false_eq_true, ↓reduceIte]
        rw [returns_bind, returns_of_eq (hb.slice_eq hkq (by omega) rb), returns_bind,
          returns_of_eq hforward]
        simp only [hfail, Bool.false_eq_true, ↓reduceIte]
        have hlen : (buf ++ queue.take k).length = buf.length + k := by
          rw [List.length_append, htake]
        refine (Holds.returns_readLoop hsize fuel hb₁ (by omega) (by omega)).mono ?_
        rintro r rb' ⟨rfl, hcap', first', hb'⟩
        have hrest : size - buf.length = k + (size - (buf ++ queue.take k).length) := by omega
        refine ⟨?_, hcap'.trans hcap, first', ?_⟩
        · rw [hrest, List.take_add, List.append_assoc]
        · rwa [hrest, ← List.drop_drop]
      · next hmore =>
        have hzero : size - buf.length = 0 := by omega
        rw [returns_pure, hzero, List.take_zero, List.append_nil, List.drop_zero]
        exact ⟨rfl, rfl, first, hb⟩

theorem Holds.returns_read {rb : RingBuffer} {first : ℕ} {queue : List (BitVec 8)}
    (hb : rb.Holds first queue) {size : ℕ} (hsize : size < 2 ^ 31) :
    Returns (read size) rb fun r rb' => r = (.success, queue.take size) ∧
      rb'.capacity = rb.capacity ∧ ∃ first', rb'.Holds first' (queue.drop size) := by
  unfold read
  rw [if_neg (by omega)]
  simpa using hb.returns_readLoop hsize (size + 1)
    (show ([] : List (BitVec 8)).length ≤ size from Nat.zero_le _) (by simp)

/-- The loop of `write` appends the next bytes of `data` as long as there is room. -/
theorem Holds.returns_writeLoop {data : List (BitVec 8)} (hsize : data.length < 2 ^ 31) :
    ∀ (fuel : ℕ) {rb : RingBuffer} {first : ℕ} {queue : List (BitVec 8)} {done : ℕ},
    rb.Holds first queue → done ≤ data.length → data.length - done < fuel →
    Returns (writeLoop data data.length fuel done) rb fun r rb' =>
      r = (.success, ((done + min (data.length - done) (rb.bytes.length - queue.length) : ℕ) : ℤ)) ∧
        rb'.capacity = rb.capacity ∧
        rb'.Holds first (queue ++ (data.drop done).take (rb.bytes.length - queue.length))
  | 0, _, _, _, _, _, _, hfuel => absurd hfuel (Nat.not_lt_zero _)
  | fuel + 1, rb, first, queue, done, hb, hdone, hfuel => by
    have hlen := hb.length_le
    unfold writeLoop
    rw [returns_bind, returns_get, hb.remain_eq]
    split
    · next hmore =>
      obtain ⟨n, hpos, hroom, hend, htmp⟩ := hb.tmpBufSize_eq (by omega)
      -- one round copies `k` bytes: to the end of the buffer, of the room, or of the data
      obtain ⟨k, hk⟩ : ∃ k, k = min (data.length - done) n := ⟨_, rfl⟩
      have hcopy : min (int32 ((data.length : ℤ) - done)) (n : ℤ) = (k : ℤ) := by
        rw [int32_eq (by omega) (by omega)]
        omega
      have hchunk : ((data.drop done).take k).length = k := by
        rw [List.length_take, List.length_drop]
        omega
      have hslice : slice data done k rb = .ok ((data.drop done).take k, rb) := by
        have hcond : (0 : ℤ) ≤ done ∧ (0 : ℤ) ≤ k ∧ (done : ℤ) + k ≤ data.length := by omega
        unfold slice
        rw [if_pos hcond]
        simp only [Int.toNat_natCast]
      obtain ⟨rb₁, rb₂, hcopyIn, hrb₂, hb₂, hcap⟩ :=
        hb.append ((data.drop done).take k) (by omega) (by omega)
      rw [hchunk] at hrb₂
      rw [htmp, hcopy, returns_bind, returns_of_eq hslice, returns_bind, returns_of_eq hcopyIn,
        returns_bind, returns_modify, ← hrb₂, int32_eq (by omega) (by omega), ← Nat.cast_add]
      have hbytes : rb₂.bytes.length = rb.bytes.length := Int.ofNat_inj.mp hcap
      have hqueue : (queue ++ (data.drop done).take k).length = queue.length + k := by
        rw [List.length_append, hchunk]
      refine (Holds.returns_writeLoop hsize fuel hb₂ (by omega) (by omega)).mono ?_
      rintro r rb' ⟨rfl, hcap', hb'⟩
      rw [hbytes, hqueue] at hb' ⊢
      have hleft : k ≤ data.length - done := by
        rw [hk]
        exact Nat.min_le_left ..
      have hright : k ≤ rb.bytes.length - queue.length := by
        have := Nat.min_le_right (data.length - done) n
        omega
      -- the rounds to come write the rest of what fits
      have hcount : done + k + min (data.length - (done + k))
          (rb.bytes.length - (queue.length + k)) =
          done + min (data.length - done) (rb.bytes.length - queue.length) := by
        rw [Nat.sub_add_eq, Nat.sub_add_eq, Nat.sub_min_sub_right, Nat.add_assoc,
          Nat.add_sub_cancel' (Nat.le_min.mpr ⟨hleft, hright⟩)]
      refine ⟨by rw [hcount], hcap'.trans hcap, ?_⟩
      have hsplit : rb.bytes.length - queue.length =
          k + (rb.bytes.length - (queue.length + k)) := by omega
      rw [hsplit, List.take_add, List.drop_drop, ← List.append_assoc]
      exact hb'
    · next hmore =>
      have hcases : data.length - done = 0 ∨ rb.bytes.length - queue.length = 0 := by omega
      rw [returns_pure]
      have hmin : min (data.length - done) (rb.bytes.length - queue.length) = 0 := by omega
      have hnone : (data.drop done).take (rb.bytes.length - queue.length) = [] := by
        rcases hcases with h | h
        · rw [List.drop_of_length_le (by omega), List.take_nil]
        · rw [h, List.take_zero]
      rw [hmin, hnone, Nat.add_zero, List.append_nil]
      exact ⟨rfl, rfl, hb⟩

theorem Holds.returns_write {rb : RingBuffer} {first : ℕ} {queue : List (BitVec 8)}
    (hb : rb.Holds first queue) {data : List (BitVec 8)} (hsize : data.length < 2 ^ 31) :
    Returns (write data data.length) rb fun r rb' =>
      r = (.success, ((min data.length (rb.bytes.length - queue.length) : ℕ) : ℤ)) ∧
        rb'.capacity = rb.capacity ∧
        rb'.Holds first (queue ++ data.take (rb.bytes.length - queue.length)) := by
  unfold write
  rw [if_neg (by omega)]
  simpa using hb.returns_writeLoop hsize (data.length + 1) (Nat.zero_le _) (by omega)

/-! ## A bounded queue -/

inductive Call where
  | write (data : List (BitVec 8))
  | read (size : ℕ)
  | buffer
  | forward (size : ℕ)

def Call.SizeOk : Call → Prop
  | .write data => data.length < 2 ^ 31
  | .read size => size < 2 ^ 31
  | .buffer => True
  | .forward size => size < 2 ^ 31

/-- What a call gives back: its code, a number of bytes, and the bytes it shows. -/
structure Reply where
  rc : RC
  count : ℤ
  bytes : List (BitVec 8)

/-- The code of a call; after `buffer` the exposed bytes are looked at. -/
def Call.run : Call → RingM Reply
  | .write data => do
    let r ← RingBuffer.write data data.length
    return ⟨r.1, r.2, []⟩
  | .read size => do
    let r ← RingBuffer.read size
    return ⟨r.1, r.2.length, r.2⟩
  | .buffer => do
    let rb ← get
    let bytes ← slice rb.bytes rb.buffer.2.1 rb.buffer.2.2
    return ⟨rb.buffer.1, rb.buffer.2.2, bytes⟩
  | .forward size => do
    let rc ← RingBuffer.forward size
    return ⟨rc, size, []⟩

def runCalls : List Call → RingM (List Reply)
  | [] => return []
  | c :: cs => do
    let reply ← c.run
    let replies ← runCalls cs
    return reply :: replies

inductive QueueStep (capacity : ℕ) :
    List (BitVec 8) → Call → Reply → List (BitVec 8) → Prop
  | write (queue data : List (BitVec 8)) :
      QueueStep capacity queue (.write data)
        ⟨.success, (min data.length (capacity - queue.length) : ℕ), []⟩
        (queue ++ data.take (capacity - queue.length))
  | read (queue : List (BitVec 8)) (size : ℕ) :
      QueueStep capacity queue (.read size)
        ⟨.success, (min size queue.length : ℕ), queue.take size⟩ (queue.drop size)
  | buffer (queue : List (BitVec 8)) (n : ℕ) (hn : n ≤ queue.length) (hpos : queue ≠ [] → 0 < n) :
      QueueStep capacity queue .buffer ⟨.success, n, queue.take n⟩ queue
  | forward (queue : List (BitVec 8)) (size : ℕ) (hpos : 0 < size) (hsize : size ≤ queue.length) :
      QueueStep capacity queue (.forward size) ⟨.success, size, []⟩ (queue.drop size)
  | refused (queue : List (BitVec 8)) (size : ℕ) (hsize : size = 0 ∨ queue.length < size) :
      QueueStep capacity queue (.forward size) ⟨.invalidArgument, size, []⟩ queue

inductive QueueRun (capacity : ℕ) :
    List (BitVec 8) → List Call → List Reply → List (BitVec 8) → Prop
  | nil (queue : List (BitVec 8)) : QueueRun capacity queue [] [] queue
  | cons {queue queue' queue'' : List (BitVec 8)} {c : Call} {cs : List Call} {reply : Reply}
      {replies : List Reply} : QueueStep capacity queue c reply queue' →
      QueueRun capacity queue' cs replies queue'' →
      QueueRun capacity queue (c :: cs) (reply :: replies) queue''

theorem Holds.returns_run {rb : RingBuffer} {first : ℕ} {queue : List (BitVec 8)}
    (hb : rb.Holds first queue) {c : Call} (hc : c.SizeOk) :
    Returns c.run rb fun reply rb' => rb'.capacity = rb.capacity ∧
      ∃ first' queue', rb'.Holds first' queue' ∧
        QueueStep rb.bytes.length queue c reply queue' := by
  cases c with
  | write data =>
    unfold Call.run
    rw [returns_bind]
    refine (hb.returns_write hc).mono ?_
    rintro r rb' ⟨rfl, hcap, hb'⟩
    exact returns_pure.mpr ⟨hcap, first, _, hb', .write queue data⟩
  | read size =>
    unfold Call.run
    rw [returns_bind]
    refine (hb.returns_read hc).mono ?_
    rintro r rb' ⟨rfl, hcap, first', hb'⟩
    rw [returns_pure, List.length_take]
    exact ⟨hcap, first', _, hb', .read queue size⟩
  | buffer =>
    unfold Call.run
    rw [returns_bind, returns_get, returns_bind]
    rcases hb.buffer_eq with ⟨rfl, hbuffer⟩ | ⟨n, hpos, hn, hend, hbuffer⟩
    · have hslice : slice rb.bytes 0 0 rb = .ok ([], rb) := by
        unfold slice
        rw [if_pos (by omega)]
        rfl
      rw [hbuffer, returns_of_eq hslice, returns_pure]
      exact ⟨rfl, first, [], hb, .buffer [] 0 le_rfl fun hne => absurd rfl hne⟩
    · rw [hbuffer, returns_of_eq (hb.slice_eq hn hend rb), returns_pure]
      exact ⟨rfl, first, queue, hb, .buffer queue n hn fun _ => hpos⟩
  | forward size =>
    unfold Call.run
    rw [returns_bind]
    by_cases hsize : size = 0 ∨ queue.length < size
    · rw [returns_of_eq (hb.forward_too_large hsize), returns_pure]
      exact ⟨rfl, first, queue, hb, .refused queue size hsize⟩
    · obtain ⟨hpos, hle⟩ := not_or.mp hsize
      obtain ⟨rb', hforward, hb', hcap⟩ := hb.forward_eq (Nat.pos_of_ne_zero hpos) (not_lt.mp hle)
      rw [returns_of_eq hforward, returns_pure]
      exact ⟨hcap, _, _, hb', .forward queue size (Nat.pos_of_ne_zero hpos) (not_lt.mp hle)⟩

theorem Holds.returns_runCalls : ∀ {calls : List Call} {rb : RingBuffer} {first : ℕ}
    {queue : List (BitVec 8)}, rb.Holds first queue → (∀ c ∈ calls, c.SizeOk) →
    Returns (runCalls calls) rb fun replies rb' => rb'.capacity = rb.capacity ∧
      ∃ first' queue', rb'.Holds first' queue' ∧
        QueueRun rb.bytes.length queue calls replies queue'
  | [], rb, first, queue, hb, _ => by
    unfold runCalls
    rw [returns_pure]
    exact ⟨rfl, first, queue, hb, .nil queue⟩
  | c :: cs, rb, first, queue, hb, hcalls => by
    unfold runCalls
    rw [returns_bind]
    refine (hb.returns_run (hcalls c (List.mem_cons_self ..))).mono ?_
    rintro reply rb₁ ⟨hcap, first₁, queue₁, hb₁, hstep⟩
    rw [returns_bind]
    refine (hb₁.returns_runCalls fun c' hc' => hcalls c' (List.mem_cons_of_mem _ hc')).mono ?_
    rintro replies rb₂ ⟨hcap₂, first₂, queue₂, hb₂, hrun⟩
    have hlen : rb₁.bytes.length = rb.bytes.length := Int.ofNat_inj.mp hcap
    rw [hlen] at hrun
    exact returns_pure.mpr ⟨hcap₂.trans hcap, first₂, queue₂, hb₂, .cons hstep hrun⟩

/-- Every sequence of calls on a new ring buffer does what it would do to a queue of at most
`capacity` bytes, and the size and the room that is left make up the capacity. -/
theorem ringBuffer_refines_queue {capacity : ℕ} (hpos : 1 ≤ capacity) (hle : capacity ≤ 2 ^ 30)
    {calls : List Call} (hcalls : ∀ c ∈ calls, c.SizeOk) :
    Returns (runCalls calls) (new capacity) fun replies rb =>
      rb.capacity = capacity ∧ rb.size + rb.remain = rb.capacity ∧
        ∃ queue, rb.size = queue.length ∧ QueueRun capacity [] calls replies queue := by
  have hcap : (new capacity).bytes.length = capacity := List.length_replicate
  refine ((holds_new hpos hle).returns_runCalls hcalls).mono ?_
  rintro replies rb ⟨hsame, first, queue, hb, hrun⟩
  rw [hcap] at hrun
  refine ⟨hsame.trans (congrArg Nat.cast hcap), ?_, queue, hb.size_eq, hrun⟩
  rw [hb.size_eq, hb.remain_eq, RingBuffer.capacity]
  omega

/-- The second `write` and the second `read` pass the end of the memory. -/
theorem ringBuffer_refines_queue_around :
    Returns (runCalls [.write [1, 2, 3], .read 2, .write [4, 5, 6, 7], .buffer, .read 9]) (new 4)
      fun replies rb => rb.capacity = (4 : ℕ) ∧ rb.size + rb.remain = rb.capacity ∧
        ∃ queue, rb.size = queue.length ∧ QueueRun 4 []
          [.write [1, 2, 3], .read 2, .write [4, 5, 6, 7], .buffer, .read 9] replies queue :=
  ringBuffer_refines_queue (by decide) (by decide) (by simp [Call.SizeOk])

end RingBuffer

end TDB
