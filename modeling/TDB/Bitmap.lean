import TDB.Lib.ByteBits

namespace TDB.Bitmap

open ByteBits

/-! ## `Bitmap`

`get_bit`, `set_bit` and `clear_bit` are `ByteBits.bit`, `setBit` and `clearBit`.  Both searches
differ only in the bit they look for and in the byte they skip, and `none` stands for their `-1`. -/

/-- `find_first_zero` and `find_first_setted`. -/
def findFirst (b : Bool) (byte : BitVec 8) (start : ℕ) : Option ℕ :=
  lowest (fun k => test byte k == b) start 8

def bytes (size : ℕ) : ℕ := if size % 8 = 0 then size / 8 else size / 8 + 1

/-- The byte without any bit that a search looks for. -/
def skippedByte (b : Bool) : BitVec 8 := if b then 0#8 else -1#8

/-- The loop of the searches over `n` bytes from `iter` on.  A skipped byte leaves `start_in_byte`
as it is. -/
def nextLoop (b : Bool) (mem : ℕ → BitVec 8) : ℕ → ℕ → ℕ → Option ℕ
  | 0, _, _ => none
  | n + 1, iter, startInByte =>
    if mem iter = skippedByte b then nextLoop b mem n (iter + 1) startInByte
    else match findFirst b (mem iter) startInByte with
      | some k => some (iter * 8 + k)
      | none => nextLoop b mem n (iter + 1) 0

def nextBit (b : Bool) (mem : ℕ → BitVec 8) (size start : ℕ) : Option ℕ :=
  match nextLoop b mem (bytes size - start / 8) (start / 8) (start % 8) with
  | some ret => if size ≤ ret then none else some ret
  | none => none

def nextUnsettedBit : (ℕ → BitVec 8) → ℕ → ℕ → Option ℕ := nextBit false

def nextSettedBit : (ℕ → BitVec 8) → ℕ → ℕ → Option ℕ := nextBit true

variable {b : Bool} {mem : ℕ → BitVec 8}

theorem test_skippedByte {k : ℕ} (h : k < 8) : (test (skippedByte b) k == b) = false := by
  cases b with
  | false => rw [skippedByte, if_neg (by decide), test_allOnes h]; rfl
  | true => rw [skippedByte, if_pos rfl, test_zero h]; rfl

theorem lowest_byte (iter start : ℕ) :
    lowest (fun i => bit mem i == b) (iter * 8 + start) (iter * 8 + 8) =
      (findFirst b (mem iter) start).map (iter * 8 + ·) := by
  rw [lowest_shift, findFirst]
  congr 1
  apply lowest_congr
  intro k _ hk
  rw [bit, show (iter * 8 + k) / 8 = iter by omega, show (iter * 8 + k) % 8 = k by omega]

/-- The loop finds the lowest bit, unless it leaves a skipped byte with `start_in_byte` in the
middle of the next one. -/
theorem nextLoop_eq_lowest (n iter startInByte : ℕ) (hs : startInByte ≤ 8)
    (h : startInByte = 0 ∨ mem iter ≠ skippedByte b) :
    nextLoop b mem n iter startInByte =
      lowest (fun i => bit mem i == b) (iter * 8 + startInByte) ((iter + n) * 8) := by
  induction n generalizing iter startInByte with
  | zero =>
    symm
    apply lowest_eq_none_iff.mpr
    intro j hj hlt
    omega
  | succ n ih =>
    have hrest := ih (iter + 1) 0 (by omega) (Or.inl rfl)
    rw [nextLoop, lowest_eq_or (m := iter * 8 + 8) (by omega) (by omega), lowest_byte,
      show iter * 8 + 8 = (iter + 1) * 8 + 0 by omega,
      show (iter + (n + 1)) * 8 = (iter + 1 + n) * 8 by omega, ← hrest]
    by_cases hskip : mem iter = skippedByte b
    · obtain rfl : startInByte = 0 := h.resolve_right fun hne => hne hskip
      have hnone : findFirst b (mem iter) 0 = none := by
        apply lowest_eq_none_iff.mpr
        intro k _ hk
        rw [hskip]
        exact test_skippedByte hk
      rw [if_pos hskip, hnone]
      rfl
    · rw [if_neg hskip]
      cases findFirst b (mem iter) startInByte with
      | none => rfl
      | some k => rfl

theorem bit_of_skipped {i : ℕ} (h : mem (i / 8) = skippedByte b) : (bit mem i == b) = false := by
  unfold bit
  rw [h]
  exact test_skippedByte (by omega)

theorem nextLoop_skip {m : ℕ} (n iter startInByte : ℕ)
    (h : ∀ k, iter ≤ k → k < iter + m → mem k = skippedByte b) :
    nextLoop b mem (m + n) iter startInByte = nextLoop b mem n (iter + m) startInByte := by
  induction m generalizing iter with
  | zero => rw [Nat.zero_add, Nat.add_zero]
  | succ m ih =>
    rw [show m + 1 + n = m + n + 1 by omega, nextLoop, if_pos (h iter le_rfl (by omega)),
      ih (iter + 1) fun k hk hlt => h k (by omega) (by omega),
      show iter + 1 + m = iter + (m + 1) by omega]

theorem le_bytes (size : ℕ) : size ≤ bytes size * 8 := by
  unfold bytes
  split <;> omega

theorem nextBit_eq_filter (size start : ℕ) : nextBit b mem size start =
    (nextLoop b mem (bytes size - start / 8) (start / 8) (start % 8)).filter
      fun i => decide (i < size) := by
  unfold nextBit
  cases nextLoop b mem (bytes size - start / 8) (start / 8) (start % 8) with
  | none => rfl
  | some i =>
    rw [Option.filter_some]
    by_cases hi : i < size
    · simp [hi, Nat.not_le.mpr hi]
    · simp [hi, Nat.not_lt.mp hi]

/-- The search begins at the offset of `start` in the first byte that it does not skip. -/
theorem nextBit_of_skipped {size start k : ℕ} (hle : start / 8 ≤ k) (hlt : k < bytes size)
    (hskip : ∀ j, start / 8 ≤ j → j < k → mem j = skippedByte b) (hk : mem k ≠ skippedByte b) :
    nextBit b mem size start = lowest (fun i => bit mem i == b) (k * 8 + start % 8) size := by
  obtain ⟨m, rfl⟩ : ∃ m, k = start / 8 + m := ⟨k - start / 8, by omega⟩
  obtain ⟨n, hn⟩ : ∃ n, bytes size - start / 8 = m + n := ⟨bytes size - start / 8 - m, by omega⟩
  rw [nextBit_eq_filter, hn, nextLoop_skip n _ _ hskip,
    nextLoop_eq_lowest n _ _ (by omega) (Or.inr hk)]
  apply lowest_filter
  have := le_bytes size
  omega

/-! ## The bits that a search overlooks -/

/-- A bit behind skipped bytes that stands in its byte before the offset of `start`. -/
structure Overlooked (b : Bool) (mem : ℕ → BitVec 8) (start i : ℕ) : Prop where
  later : start / 8 < i / 8
  offset : i % 8 < start % 8
  skipped : ∀ j, start / 8 ≤ j → j < i / 8 → mem j = skippedByte b

/-- A search finds the lowest bit exactly when it overlooks none. -/
theorem nextBit_eq_lowest_iff {size start : ℕ} :
    nextBit b mem size start = lowest (fun i => bit mem i == b) start size ↔
      ∀ i < size, Overlooked b mem start i → (bit mem i == b) = false := by
  constructor
  · intro heq i hi hover
    by_contra hbit
    rw [Bool.not_eq_false] at hbit
    have hk : mem (i / 8) ≠ skippedByte b := by
      intro hskip
      rw [bit_of_skipped hskip] at hbit
      cases hbit
    have hlt : i / 8 < bytes size := by
      have := le_bytes size
      omega
    -- an overlooked bit is in the first byte searched, below the offset the search begins at
    rw [nextBit_of_skipped (le_of_lt hover.later) hlt hover.skipped hk] at heq
    cases hlow : lowest (fun i => bit mem i == b) start size with
    | none =>
      have := lowest_eq_none_iff.mp hlow i (by have := hover.later; omega) hi
      rw [hbit] at this
      cases this
    | some j =>
      have hj := (lowest_eq_some_iff.mp (heq.trans hlow)).1
      have hoffset := hover.offset
      have hji := (lowest_eq_some_iff.mp hlow).2.2.2 i (by have := hover.later; omega) (by omega)
      rw [hbit] at hji
      cases hji
  · intro hnone
    -- `k` is the first byte that is searched, or all bytes are skipped
    cases hfirst : lowest (fun k => mem k != skippedByte b) (start / 8) (bytes size) with
    | none =>
      have hskip : ∀ k, start / 8 ≤ k → k < bytes size → mem k = skippedByte b := by
        intro k hk hlt
        simpa using lowest_eq_none_iff.mp hfirst k hk hlt
      have hloop : nextLoop b mem (bytes size - start / 8) (start / 8) (start % 8) = none := by
        rw [← Nat.add_zero (bytes size - start / 8),
          nextLoop_skip 0 _ _ fun k hk hlt => hskip k hk (by omega)]
        rfl
      rw [nextBit_eq_filter, hloop, Option.filter_none, eq_comm, lowest_eq_none_iff]
      intro j hj hn
      have := le_bytes size
      exact bit_of_skipped (hskip (j / 8) (by omega) (by omega))
    | some k =>
      obtain ⟨hle, hlt, hk, hlower⟩ := lowest_eq_some_iff.mp hfirst
      have hskip : ∀ j, start / 8 ≤ j → j < k → mem j = skippedByte b := by
        intro j hj hjk
        simpa using hlower j hj hjk
      rw [nextBit_of_skipped hle hlt hskip (by simpa using hk)]
      symm
      apply lowest_skip
      · omega
      · intro j hj hjk hn
        by_cases hbyte : j / 8 < k
        · exact bit_of_skipped (hskip (j / 8) (by omega) hbyte)
        · have hsame : j / 8 = k := by omega
          refine hnone j hn ⟨by omega, by omega, fun i hi hij => hskip i hi ?_⟩
          rwa [← hsame]

theorem nextSettedBit_eq_lowest_iff {size start : ℕ} :
    nextSettedBit mem size start = lowest (bit mem) start size ↔
      ∀ i < size, Overlooked true mem start i → bit mem i = false := by
  have hiff := @nextBit_eq_lowest_iff true mem size start
  unfold nextSettedBit
  simpa only [beq_true] using hiff

theorem nextUnsettedBit_eq_lowest_iff {size start : ℕ} :
    nextUnsettedBit mem size start = lowest (fun i => !bit mem i) start size ↔
      ∀ i < size, Overlooked false mem start i → bit mem i = true := by
  have hiff := @nextBit_eq_lowest_iff false mem size start
  unfold nextUnsettedBit
  simpa only [beq_false, Bool.not_eq_false'] using hiff

/-- A search that starts between two bytes, or in a byte that it does not skip, overlooks none. -/
theorem not_overlooked {start i : ℕ} (h : start % 8 = 0 ∨ mem (start / 8) ≠ skippedByte b) :
    ¬ Overlooked b mem start i := by
  intro hover
  obtain hzero | hne := h
  · have := hover.offset
    omega
  · exact hne (hover.skipped _ le_rfl hover.later)

/-- A search for a free bit starts at 0. -/
theorem nextUnsettedBit_zero (size : ℕ) :
    nextUnsettedBit mem size 0 = lowest (fun i => !bit mem i) 0 size :=
  nextUnsettedBit_eq_lowest_iff.mpr fun _ _ hover => absurd hover (not_overlooked (Or.inl rfl))

theorem nextSettedBit_zero (size : ℕ) : nextSettedBit mem size 0 = lowest (bit mem) 0 size :=
  nextSettedBit_eq_lowest_iff.mpr fun _ _ hover => absurd hover (not_overlooked (Or.inl rfl))

/-- A search behind a bit that is set does not start inside a byte it skips. -/
theorem nextSettedBit_succ {i : ℕ} (size : ℕ) (h : bit mem i = true) :
    nextSettedBit mem size (i + 1) = lowest (bit mem) (i + 1) size := by
  have hbyte : (i + 1) % 8 = 0 ∨ mem ((i + 1) / 8) ≠ skippedByte true := by
    by_cases h8 : (i + 1) % 8 = 0
    · exact Or.inl h8
    · right
      intro hzero
      rw [show (i + 1) / 8 = i / 8 by omega] at hzero
      have hclear := bit_of_skipped hzero
      rw [h] at hclear
      cases hclear
  exact nextSettedBit_eq_lowest_iff.mpr fun _ _ hover => absurd hover (not_overlooked hbyte)

end TDB.Bitmap
