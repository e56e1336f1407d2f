import TDB.RingBuffer

namespace TDB

open Exec Int32Arith

/-! ## The buffered writer -/

/-- What `::write` answers when it is asked to take some bytes: it takes at most `n` of them, it is
interrupted (`EAGAIN` or `EINTR`), or it fails. -/
inductive Answer where
  | taken (n : ℕ)
  | interrupted
  | failed

/-- `BufferedWriter` with its descriptor: the bytes delivered so far and the answers of the next
calls of `::write`; behind these `::write` takes all it is given. -/
structure BufferedWriter where
  fd : ℤ
  buffer : RingBuffer
  delivered : List (BitVec 8)
  answers : List Answer

abbrev WriterM := StateT BufferedWriter (Except MemoryFault)

namespace BufferedWriter

/-- The constructor; the second argument is the size of the buffer. -/
def new (fd : ℤ) (size : ℕ) (answers : List Answer) : BufferedWriter :=
  ⟨fd, RingBuffer.new size, [], answers⟩

def onBuffer {α : Type} (m : RingM α) : WriterM α := fun w =>
  match m w.buffer with
  | .ok (a, rb) => .ok (a, { w with buffer := rb })
  | .error fault => .error fault

/-- `::write`: the number of bytes taken, or the answer that is no number. -/
def sysWrite (bytes : List (BitVec 8)) : WriterM Answer := fun w =>
  match w.answers with
  | [] => .ok (.taken bytes.length, { w with delivered := w.delivered ++ bytes })
  | .taken n :: rest => .ok (.taken (min n bytes.length),
      { w with delivered := w.delivered ++ bytes.take n, answers := rest })
  | answer :: rest => .ok (answer, { w with answers := rest })

/-- The innermost loop of `flush_internal`: it ends with a positive count or a hard error. -/
def writeSome (bytes : List (BitVec 8)) : ℕ → WriterM (RC × ℤ)
  | 0 => throw .endless
  | fuel + 1 => do
    match ← sysWrite bytes with
    | .taken 0 => writeSome bytes fuel
    | .taken n => return (.success, n)
    | .interrupted => writeSome bytes fuel
    | .failed => return (.ioerrWrite, 0)

def flushLoop (size : ℤ) : ℕ → ℤ → WriterM RC
  | 0, _ => throw .endless
  | fuel + 1, writeSize => do
    let w ← get
    if 0 < w.buffer.size ∧ writeSize < size then
      let tmp := w.buffer.buffer
      if tmp.1.fail then return tmp.1
      let bytes ← onBuffer (RingBuffer.slice w.buffer.bytes tmp.2.1 tmp.2.2)
      let r ← writeSome bytes (w.answers.length + 1)
      if r.1.fail then return r.1
      let _ ← onBuffer (RingBuffer.forward r.2)
      flushLoop size fuel (int32 (writeSize + r.2))
    else return .success

def flushInternal (size : ℤ) : WriterM RC := do
  let w ← get
  if w.fd < 0 then return .invalidArgument
  flushLoop size (w.buffer.size.toNat + 1) 0

/-- `write`: the code and `write_size`. -/
def write (data : List (BitVec 8)) (size : ℤ) : WriterM (RC × ℤ) := do
  let w ← get
  if w.fd < 0 then return (.invalidArgument, 0)
  if w.buffer.remain = 0 then
    let rc ← flushInternal size
    if rc.fail then return (rc, 0)
  onBuffer (RingBuffer.write data size)

def writenLoop (data : List (BitVec 8)) (size : ℤ) : ℕ → ℤ → WriterM RC
  | 0, _ => throw .endless
  | fuel + 1, writeSize => do
    if writeSize < size then
      let r ← write (data.drop writeSize.toNat) (int32 (size - writeSize))
      if r.1.fail then return r.1
      writenLoop data size fuel (int32 (writeSize + r.2))
    else return .success

def writen (data : List (BitVec 8)) (size : ℤ) : WriterM RC := do
  if (← get).fd < 0 then return .invalidArgument
  writenLoop data size (size.toNat + 1) 0

def flushAll : ℕ → WriterM RC
  | 0 => throw .endless
  | fuel + 1 => do
    let w ← get
    if 0 < w.buffer.size then
      let rc ← flushInternal w.buffer.size
      if rc.fail then return rc
      flushAll fuel
    else return .success

def flush : WriterM RC := do
  let w ← get
  if w.fd < 0 then return .invalidArgument
  flushAll (w.buffer.size.toNat + 1)

/-! ## What is delivered and what is buffered -/

/-- The writer got from `w`, which had the bytes `queue` buffered, to `w'`, which has `queue'`, and
accepted `piece` on the way: nothing is lost or repeated. -/
structure Sends (w : BufferedWriter) (queue piece : List (BitVec 8)) (w' : BufferedWriter)
    (queue' : List (BitVec 8)) : Prop where
  holds : ∃ first, w'.buffer.Holds first queue'
  stream : w'.delivered ++ queue' = w.delivered ++ queue ++ piece
  fd : w'.fd = w.fd
  capacity : w'.buffer.capacity = w.buffer.capacity

theorem Sends.refl {w : BufferedWriter} {first : ℕ} {queue : List (BitVec 8)}
    (hb : w.buffer.Holds first queue) : Sends w queue [] w queue :=
  ⟨⟨first, hb⟩, by simp, rfl, rfl⟩

theorem Sends.trans {w w' w'' : BufferedWriter}
    {queue queue' queue'' piece piece' : List (BitVec 8)}
    (h : Sends w queue piece w' queue') (h' : Sends w' queue' piece' w'' queue'') :
    Sends w queue (piece ++ piece') w'' queue'' :=
  ⟨h'.holds, by rw [h'.stream, h.stream, List.append_assoc], h'.fd.trans h.fd,
    h'.capacity.trans h.capacity⟩

theorem returns_onBuffer {α : Type} {m : RingM α} {w : BufferedWriter}
    {Q : α → BufferedWriter → Prop} :
    Returns (onBuffer m) w Q ↔ Returns m w.buffer fun a rb => Q a { w with buffer := rb } := by
  cases hm : m w.buffer with
  | error fault =>
    have hrun : onBuffer m w = .error fault := by
      unfold onBuffer
      rw [hm]
    refine iff_of_false ?_ ?_
    · rintro ⟨a, w', h, -⟩
      rw [hrun] at h
      cases h
    · rintro ⟨a, rb, h, -⟩
      rw [hm] at h
      cases h
  | ok r =>
    have hrun : onBuffer m w = .ok (r.1, { w with buffer := r.2 }) := by
      unfold onBuffer
      rw [hm]
    have hbuffer : m w.buffer = .ok (r.1, r.2) := hm
    rw [returns_of_eq hrun, returns_of_eq hbuffer]

theorem returns_writeSome {bytes : List (BitVec 8)} (hne : bytes ≠ []) : ∀ {fuel : ℕ}
    {w : BufferedWriter}, w.answers.length < fuel →
    Returns (writeSome bytes fuel) w fun r w' => w'.fd = w.fd ∧ w'.buffer = w.buffer ∧
      ((∃ n : ℕ, r = (.success, (n : ℤ)) ∧ 0 < n ∧ n ≤ bytes.length ∧
          w'.delivered = w.delivered ++ bytes.take n) ∨
        r.1 = .ioerrWrite ∧ w'.delivered = w.delivered)
  | 0, _, hfuel => absurd hfuel (Nat.not_lt_zero _)
  | fuel + 1, w, hfuel => by
    have hpos : 0 < bytes.length := List.length_pos_iff.mpr hne
    unfold writeSome
    rw [returns_bind]
    cases hanswers : w.answers with
    | nil =>
      have hrun : sysWrite bytes w =
          .ok (.taken bytes.length, { w with delivered := w.delivered ++ bytes }) := by
        unfold sysWrite
        rw [hanswers]
      rw [returns_of_eq hrun]
      obtain ⟨n, hn⟩ := Nat.exists_eq_add_of_lt hpos
      rw [Nat.zero_add] at hn
      rw [hn]
      refine returns_pure.mpr ⟨rfl, rfl, .inl ⟨n + 1, rfl, Nat.succ_pos n, le_rfl, ?_⟩⟩
      rw [← hn, List.take_length]
    | cons answer rest =>
      rw [hanswers, List.length_cons] at hfuel
      cases answer with
      | taken k =>
        have hrun : sysWrite bytes w = .ok (.taken (min k bytes.length),
            { w with delivered := w.delivered ++ bytes.take k, answers := rest }) := by
          unfold sysWrite
          rw [hanswers]
        rw [returns_of_eq hrun]
        cases hk : min k bytes.length with
        | zero =>
          -- nothing written: the source tries again
          obtain rfl : k = 0 := by omega
          refine (returns_writeSome hne
            (w := { w with delivered := w.delivered ++ bytes.take 0, answers := rest })
            (Nat.lt_of_succ_lt_succ hfuel)).mono ?_
          simp only [List.take_zero, List.append_nil, imp_self, implies_true]
        | succ n =>
          refine returns_pure.mpr ⟨rfl, rfl, .inl ⟨n + 1, rfl, Nat.succ_pos n, by omega, ?_⟩⟩
          rw [← hk]
          dsimp only
          rw [List.take_eq_take_min]
      | interrupted =>
        have hrun : sysWrite bytes w = .ok (.interrupted, { w with answers := rest }) := by
          unfold sysWrite
          rw [hanswers]
        rw [returns_of_eq hrun]
        exact returns_writeSome hne (w := { w with answers := rest })
          (Nat.lt_of_succ_lt_succ hfuel)
      | failed =>
        have hrun : sysWrite bytes w = .ok (.failed, { w with answers := rest }) := by
          unfold sysWrite
          rw [hanswers]
        rw [returns_of_eq hrun]
        exact returns_pure.mpr ⟨rfl, rfl, .inr ⟨rfl, rfl⟩⟩

theorem returns_flushLoop {size : ℕ} : ∀ {fuel : ℕ} {w : BufferedWriter} {first : ℕ}
    {queue : List (BitVec 8)} {sent : ℕ}, w.buffer.Holds first queue →
    sent + queue.length ≤ 2 ^ 30 → queue.length < fuel →
    Returns (flushLoop size fuel sent) w fun rc w' => ∃ k,
      Sends w queue [] w' (queue.drop k) ∧
        (rc = .ioerrWrite ∨ rc = .success ∧ (queue.length ≤ k ∨ size ≤ sent + k))
  | 0, _, _, _, _, _, _, hfuel => absurd hfuel (Nat.not_lt_zero _)
  | fuel + 1, w, first, queue, sent, hb, hsent, hfuel => by
    unfold flushLoop
    rw [returns_bind, returns_get, hb.size_eq]
    split
    · next hmore =>
      rcases hb.buffer_eq with ⟨rfl, -⟩ | ⟨n, hpos, hn, hend, hbuffer⟩
      · simp at hmore
      have hfail : RC.success.fail = false := rfl
      have hne : queue.take n ≠ [] := by
        rw [← List.length_pos_iff, List.length_take]
        omega
      simp only [hbuffer, hfail, Bool.false_eq_true, ↓reduceIte]
      rw [returns_bind, returns_onBuffer, returns_of_eq (hb.slice_eq hn hend _), returns_bind]
      refine (returns_writeSome hne (Nat.lt_succ_self _)).mono ?_
      rintro r w₁ ⟨hfd, hsame, ⟨k, rfl, hk, hkn, hdelivered⟩ | ⟨hrc, hdelivered⟩⟩
      · -- some bytes were written: the rest of the queue is for the next rounds
        rw [List.length_take] at hkn
        rw [List.take_take, min_eq_left (by omega)] at hdelivered
        have hb₁ : w₁.buffer.Holds first queue := hsame ▸ hb
        obtain ⟨rb, hforward, hb₂, hcap⟩ := hb₁.forward_eq hk (by omega)
        simp only [hfail, Bool.false_eq_true, ↓reduceIte]
        rw [returns_bind, returns_onBuffer, returns_of_eq hforward,
          int32_eq (by omega) (by omega), ← Nat.cast_add]
        have hone : Sends w queue [] { w₁ with buffer := rb } (queue.drop k) := by
          refine ⟨⟨_, hb₂⟩, ?_, hfd, hcap.trans (by rw [hsame])⟩
          dsimp only
          rw [hdelivered, List.append_assoc, List.take_append_drop, List.append_nil]
        have hrest : (queue.drop k).length = queue.length - k := List.length_drop
        refine (returns_flushLoop (w := { w₁ with buffer := rb }) hb₂ (by omega)
          (by omega)).mono ?_
        rintro rc w₂ ⟨j, hsends, hrc⟩
        rw [List.drop_drop] at hsends
        refine ⟨k + j, hone.trans hsends, hrc.imp_right fun h => ⟨h.1, ?_⟩⟩
        rcases h.2 with h | h
        · exact .inl (by omega)
        · exact .inr (by omega)
      · -- the write failed, and the bytes of this round stay in the queue
        have hfailed : RC.ioerrWrite.fail = true := rfl
        rw [hrc, if_pos hfailed, returns_pure]
        refine ⟨0, ⟨⟨first, hsame ▸ hb⟩, ?_, hfd, by rw [hsame]⟩, .inl rfl⟩
        rw [hdelivered, List.drop_zero, List.append_nil]
    · next hdone =>
      rw [returns_pure]
      exact ⟨0, .refl hb, .inr ⟨rfl, by omega⟩⟩

theorem returns_flushInternal {size : ℕ} {w : BufferedWriter} {first : ℕ}
    {queue : List (BitVec 8)} (hb : w.buffer.Holds first queue) :
    Returns (flushInternal size) w fun rc w' => ∃ k, Sends w queue [] w' (queue.drop k) ∧
      (rc.fail = true ∨ rc = .success ∧ (queue.length ≤ k ∨ size ≤ k)) := by
  have hle := hb.le
  have hlen := hb.length_le
  unfold flushInternal
  rw [returns_bind, returns_get]
  split
  · rw [returns_pure]
    exact ⟨0, .refl hb, .inl rfl⟩
  · refine (@returns_flushLoop size _ w first queue 0 hb (by omega) ?_).mono ?_
    · rw [hb.size_eq]
      omega
    · rintro rc w' ⟨k, hsends, hrc⟩
      refine ⟨k, hsends, ?_⟩
      rcases hrc with rfl | ⟨rfl, hk⟩
      · exact .inl rfl
      · exact .inr ⟨rfl, by omega⟩

theorem Sends.returns_write {data : List (BitVec 8)} (hsize : data.length < 2 ^ 31)
    {w w₁ : BufferedWriter} {first : ℕ} {queue queue₁ : List (BitVec 8)}
    (hsends : Sends w queue [] w₁ queue₁) (hb : w₁.buffer.Holds first queue₁)
    (hroom : data ≠ [] → queue₁.length < w₁.buffer.bytes.length) :
    Returns (onBuffer (RingBuffer.write data data.length)) w₁ fun r w' =>
      ∃ (n : ℕ) (queue' : List (BitVec 8)), Sends w queue (data.take n) w' queue' ∧
        n ≤ data.length ∧ r.2 = n ∧
        (r.1.fail = true ∧ n = 0 ∨ r.1 = .success ∧ (data ≠ [] → 0 < n)) := by
  rw [returns_onBuffer]
  refine (hb.returns_write hsize).mono ?_
  rintro r rb ⟨rfl, hcap, hb₂⟩
  rw [List.take_eq_take_min, min_comm] at hb₂
  have hone : Sends w₁ queue₁
      (data.take (min data.length (w₁.buffer.bytes.length - queue₁.length)))
      { w₁ with buffer := rb } (queue₁ ++
        data.take (min data.length (w₁.buffer.bytes.length - queue₁.length))) :=
    ⟨⟨_, hb₂⟩, by rw [List.append_assoc], rfl, hcap⟩
  refine ⟨_, _, by simpa using hsends.trans hone, min_le_left _ _, rfl, .inr ⟨rfl, fun hne => ?_⟩⟩
  have hpos := List.length_pos_iff.mpr hne
  have hlt := hroom hne
  omega

/-- `write` accepts the first `write_size` bytes; where it succeeds it accepts at least one. -/
theorem returns_write {data : List (BitVec 8)} (hsize : data.length < 2 ^ 31)
    {w : BufferedWriter} {first : ℕ} {queue : List (BitVec 8)} (hb : w.buffer.Holds first queue) :
    Returns (write data data.length) w fun r w' => ∃ (n : ℕ) (queue' : List (BitVec 8)),
      Sends w queue (data.take n) w' queue' ∧ n ≤ data.length ∧ r.2 = n ∧
        (r.1.fail = true ∧ n = 0 ∨ r.1 = .success ∧ (data ≠ [] → 0 < n)) := by
  have hlen := hb.length_le
  have hpos := hb.pos
  unfold write
  rw [returns_bind, returns_get]
  split
  · rw [returns_pure]
    exact ⟨0, queue, by simpa using Sends.refl hb, Nat.zero_le _, rfl, .inl ⟨rfl, rfl⟩⟩
  · rw [hb.remain_eq]
    split
    · next hfull =>
      rw [returns_bind]
      refine (returns_flushInternal hb).mono ?_
      rintro rc w₁ ⟨k, hsends, hrc⟩
      rcases hrc with hfail | ⟨rfl, hk⟩
      · rw [if_pos hfail, returns_pure]
        exact ⟨0, queue.drop k, by simpa using hsends, Nat.zero_le _, rfl, .inl ⟨hfail, rfl⟩⟩
      · have hfail : RC.success.fail = false := rfl
        rw [hfail, if_neg Bool.false_ne_true]
        obtain ⟨first₁, hb₁⟩ := hsends.holds
        refine hsends.returns_write hsize hb₁ fun hne => ?_
        have hdata := List.length_pos_iff.mpr hne
        have hcap : w₁.buffer.bytes.length = w.buffer.bytes.length :=
          Int.ofNat_inj.mp hsends.capacity
        rw [hcap, List.length_drop]
        omega
    · next hroom => exact (Sends.refl hb).returns_write hsize hb fun _ => by omega

/-- The loop of `writen` accepts the rest of the bytes, or a hard error stops it. -/
theorem returns_writenLoop {data : List (BitVec 8)} (hsize : data.length < 2 ^ 31) :
    ∀ {fuel : ℕ} {w : BufferedWriter} {first : ℕ} {queue : List (BitVec 8)} {done : ℕ},
    w.buffer.Holds first queue → done ≤ data.length → data.length - done < fuel →
    Returns (writenLoop data data.length fuel done) w fun rc w' =>
      ∃ (n : ℕ) (queue' : List (BitVec 8)), Sends w queue ((data.drop done).take n) w' queue' ∧
        (rc.fail = true ∨ rc = .success ∧ n = data.length - done)
  | 0, _, _, _, _, _, _, hfuel => absurd hfuel (Nat.not_lt_zero _)
  | fuel + 1, w, first, queue, done, hb, hdone, hfuel => by
    unfold writenLoop
    split
    · next hmore =>
      have hlen : (data.drop done).length = data.length - done := List.length_drop
      have hrest : int32 ((data.length : ℤ) - done) = ((data.drop done).length : ℤ) := by
        rw [int32_eq (by omega) (by omega), hlen]
        omega
      rw [hrest, Int.toNat_natCast, returns_bind]
      refine (returns_write (by omega) hb).mono ?_
      rintro r w₁ ⟨n, queue₁, hsends, hn, hcount, hrc⟩
      obtain ⟨first₁, hb₁⟩ := hsends.holds
      rcases hrc with ⟨hfail, rfl⟩ | ⟨hrc, hprogress⟩
      · rw [if_pos hfail, returns_pure]
        exact ⟨0, queue₁, hsends, .inl hfail⟩
      · have hfail : RC.success.fail = false := rfl
        have hpos := hprogress (List.length_pos_iff.mp (by omega))
        rw [hrc, hfail, if_neg Bool.false_ne_true, hcount, int32_eq (by omega) (by omega),
          ← Nat.cast_add]
        refine (returns_writenLoop hsize hb₁ (by omega) (by omega)).mono ?_
        rintro rc w₂ ⟨k, queue₂, hsends₂, hrc₂⟩
        refine ⟨n + k, queue₂, ?_, hrc₂.imp_right fun h => ⟨h.1, by omega⟩⟩
        rw [List.take_add, List.drop_drop]
        exact hsends.trans hsends₂
    · next hdone' =>
      rw [returns_pure]
      exact ⟨0, queue, by simpa using Sends.refl hb, .inr ⟨rfl, by omega⟩⟩

theorem returns_writen {data : List (BitVec 8)} (hsize : data.length < 2 ^ 31)
    {w : BufferedWriter} {first : ℕ} {queue : List (BitVec 8)} (hb : w.buffer.Holds first queue) :
    Returns (writen data data.length) w fun rc w' => ∃ (n : ℕ) (queue' : List (BitVec 8)),
      Sends w queue (data.take n) w' queue' ∧
        (rc.fail = true ∨ rc = .success ∧ n = data.length) := by
  unfold writen
  rw [returns_bind, returns_get]
  split
  · rw [returns_pure]
    exact ⟨0, queue, by simpa using Sends.refl hb, .inl rfl⟩
  · simpa using @returns_writenLoop data hsize (data.length + 1) w first queue 0 hb
      (Nat.zero_le _) (by omega)

theorem returns_flushAll : ∀ {fuel : ℕ} {w : BufferedWriter} {first : ℕ}
    {queue : List (BitVec 8)}, w.buffer.Holds first queue → queue.length < fuel →
    Returns (flushAll fuel) w fun rc w' => ∃ queue', Sends w queue [] w' queue' ∧
      (rc.fail = true ∨ rc = .success ∧ queue' = [])
  | 0, _, _, _, _, hfuel => absurd hfuel (Nat.not_lt_zero _)
  | fuel + 1, w, first, queue, hb, hfuel => by
    unfold flushAll
    rw [returns_bind, returns_get, hb.size_eq]
    split
    · next hmore =>
      rw [returns_bind]
      refine (returns_flushInternal hb).mono ?_
      rintro rc w₁ ⟨k, hsends, hrc⟩
      rcases hrc with hfail | ⟨rfl, hk⟩
      · rw [if_pos hfail, returns_pure]
        exact ⟨_, hsends, .inl hfail⟩
      · have hfail : RC.success.fail = false := rfl
        rw [hfail, if_neg Bool.false_ne_true]
        obtain ⟨first₁, hb₁⟩ := hsends.holds
        refine (returns_flushAll hb₁ (by rw [List.length_drop]; omega)).mono ?_
        rintro rc w₂ ⟨queue₂, hsends₂, hrc₂⟩
        exact ⟨queue₂, hsends.trans hsends₂, hrc₂⟩
    · next hempty =>
      rw [returns_pure]
      exact ⟨queue, .refl hb, .inr ⟨rfl, List.length_eq_zero_iff.mp (by omega)⟩⟩

theorem returns_flush {w : BufferedWriter} {first : ℕ} {queue : List (BitVec 8)}
    (hb : w.buffer.Holds first queue) :
    Returns flush w fun rc w' => ∃ queue', Sends w queue [] w' queue' ∧
      (rc.fail = true ∨ rc = .success ∧ queue' = []) := by
  unfold flush
  rw [returns_bind, returns_get]
  split
  · rw [returns_pure]
    exact ⟨queue, .refl hb, .inl rfl⟩
  · refine returns_flushAll hb ?_
    rw [hb.size_eq]
    omega

/-! ## Sequences of calls -/

inductive Call where
  | write (data : List (BitVec 8))
  | writen (data : List (BitVec 8))
  | flush

def Call.SizeOk : Call → Prop
  | .write data => data.length < 2 ^ 31
  | .writen data => data.length < 2 ^ 31
  | .flush => True

/-- What a call gives back, and how many bytes are in the buffer when it returns. -/
structure Reply where
  rc : RC
  writeSize : ℤ
  buffered : ℤ

def Call.run : Call → WriterM Reply
  | .write data => do
    let r ← BufferedWriter.write data data.length
    return ⟨r.1, r.2, (← get).buffer.size⟩
  | .writen data => do
    let rc ← BufferedWriter.writen data data.length
    return ⟨rc, 0, (← get).buffer.size⟩
  | .flush => do
    let rc ← BufferedWriter.flush
    return ⟨rc, 0, (← get).buffer.size⟩

def runCalls : List Call → WriterM (List Reply)
  | [] => return []
  | c :: cs => do
    let reply ← c.run
    let replies ← runCalls cs
    return reply :: replies

inductive Accepts : Call → Reply → List (BitVec 8) → Prop
  | write (data : List (BitVec 8)) (rc : RC) (n : ℕ) (buffered : ℤ) (hn : n ≤ data.length)
      (hrc : rc = .success ∨ n = 0) :
      Accepts (.write data) ⟨rc, n, buffered⟩ (data.take n)
  | writen (data : List (BitVec 8)) (buffered : ℤ) :
      Accepts (.writen data) ⟨.success, 0, buffered⟩ data
  | writenStopped (data : List (BitVec 8)) (rc : RC) (n : ℕ) (buffered : ℤ)
      (hrc : rc ≠ .success) : Accepts (.writen data) ⟨rc, 0, buffered⟩ (data.take n)
  | flush (rc : RC) (buffered : ℤ) (hrc : rc = .success → buffered = 0) :
      Accepts .flush ⟨rc, 0, buffered⟩ []

inductive AcceptsAll : List Call → List Reply → List (BitVec 8) → Prop
  | nil : AcceptsAll [] [] []
  | cons {c : Call} {cs : List Call} {reply : Reply} {replies : List Reply}
      {piece rest : List (BitVec 8)} : Accepts c reply piece → AcceptsAll cs replies rest →
      AcceptsAll (c :: cs) (reply :: replies) (piece ++ rest)

theorem ne_success_of_fail {rc : RC} (h : rc.fail = true) : rc ≠ .success := by
  rintro rfl
  cases h

theorem returns_run {w : BufferedWriter} {first : ℕ} {queue : List (BitVec 8)}
    (hb : w.buffer.Holds first queue) {c : Call} (hc : c.SizeOk) :
    Returns c.run w fun reply w' => ∃ piece queue', Accepts c reply piece ∧
      Sends w queue piece w' queue' := by
  cases c with
  | write data =>
    unfold Call.run
    rw [returns_bind]
    refine (returns_write hc hb).mono ?_
    rintro ⟨rc, count⟩ w' ⟨n, queue', hsends, hn, rfl, hrc⟩
    rw [returns_bind, returns_get, returns_pure]
    refine ⟨_, queue', .write data rc n _ hn ?_, hsends⟩
    rcases hrc with ⟨-, hzero⟩ | ⟨hsuccess, -⟩
    · exact .inr hzero
    · exact .inl hsuccess
  | writen data =>
    unfold Call.run
    rw [returns_bind]
    refine (returns_writen hc hb).mono ?_
    rintro rc w' ⟨n, queue', hsends, hrc⟩
    rw [returns_bind, returns_get, returns_pure]
    rcases hrc with hfail | ⟨rfl, rfl⟩
    · exact ⟨_, queue', .writenStopped data rc n _ (ne_success_of_fail hfail), hsends⟩
    · rw [List.take_length] at hsends
      exact ⟨_, queue', .writen data _, hsends⟩
  | flush =>
    unfold Call.run
    rw [returns_bind]
    refine (returns_flush hb).mono ?_
    rintro rc w' ⟨queue', hsends, hrc⟩
    rw [returns_bind, returns_get, returns_pure]
    refine ⟨[], queue', .flush rc _ fun hsuccess => ?_, hsends⟩
    rcases hrc with hfail | ⟨-, rfl⟩
    · exact absurd hsuccess (ne_success_of_fail hfail)
    · obtain ⟨first', hb'⟩ := hsends.holds
      exact hb'.size_eq

theorem returns_runCalls : ∀ {calls : List Call} {w : BufferedWriter} {first : ℕ}
    {queue : List (BitVec 8)}, w.buffer.Holds first queue → (∀ c ∈ calls, c.SizeOk) →
    Returns (runCalls calls) w fun replies w' => ∃ accepted queue',
      AcceptsAll calls replies accepted ∧ Sends w queue accepted w' queue'
  | [], w, first, queue, hb, _ => by
    unfold runCalls
    rw [returns_pure]
    exact ⟨[], queue, .nil, .refl hb⟩
  | c :: cs, w, first, queue, hb, hcalls => by
    unfold runCalls
    rw [returns_bind]
    refine (returns_run hb (hcalls c (List.mem_cons_self ..))).mono ?_
    rintro reply w₁ ⟨piece, queue₁, haccepts, hsends⟩
    obtain ⟨first₁, hb₁⟩ := hsends.holds
    rw [returns_bind]
    refine (returns_runCalls hb₁ fun c' hc' => hcalls c' (List.mem_cons_of_mem _ hc')).mono ?_
    rintro replies w₂ ⟨rest, queue₂, hrest, hsends₂⟩
    exact returns_pure.mpr ⟨piece ++ rest, queue₂, .cons haccepts hrest, hsends.trans hsends₂⟩

/-- Whatever `::write` answers, what was delivered and what is still buffered are together what the
calls have accepted; a `writen` that succeeds has accepted all its bytes, and a `flush` that
succeeds leaves nothing in the buffer. -/
theorem bufferedWriter_loses_nothing {fd : ℤ} {size : ℕ} (hpos : 1 ≤ size) (hle : size ≤ 2 ^ 30)
    {answers : List Answer} {calls : List Call} (hcalls : ∀ c ∈ calls, c.SizeOk) :
    Returns (runCalls calls) (new fd size answers) fun replies w =>
      ∃ accepted first queue, AcceptsAll calls replies accepted ∧ w.buffer.Holds first queue ∧
        w.delivered ++ queue = accepted := by
  refine (returns_runCalls (w := new fd size answers) (RingBuffer.holds_new hpos hle)
    hcalls).mono ?_
  rintro replies w ⟨accepted, queue, haccepts, hsends⟩
  obtain ⟨first, hb⟩ := hsends.holds
  exact ⟨accepted, first, queue, haccepts, hb, hsends.stream⟩

/-- A buffer of three bytes, in front of a descriptor that takes little at a time and fails once. -/
theorem bufferedWriter_loses_nothing_partial :
    Returns (runCalls [.writen [1, 2, 3, 4, 5], .flush, .write [6], .flush])
      (new 3 3 [.taken 1, .interrupted, .taken 0, .taken 2, .failed]) fun replies w =>
      ∃ accepted first queue,
        AcceptsAll [.writen [1, 2, 3, 4, 5], .flush, .write [6], .flush] replies accepted ∧
        w.buffer.Holds first queue ∧ w.delivered ++ queue = accepted :=
  bufferedWriter_loses_nothing (by decide) (by decide) (by simp [Call.SizeOk])

end BufferedWriter

end TDB
