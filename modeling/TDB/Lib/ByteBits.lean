import Mathlib.Data.Nat.Count
import Mathlib.Logic.Function.Basic

namespace ByteBits

/-! ## One bit of a signed `char`

The operands of `&`, `|` and `~` are promoted to `int`, and the result is cut back to a byte. -/

/-- `(byte & (1 << k)) != 0`. -/
def test (byte : BitVec 8) (k : ℕ) : Bool := byte.signExtend 32 &&& (1#32 <<< k) != 0#32

/-- `byte |= 1 << k`. -/
def set (byte : BitVec 8) (k : ℕ) : BitVec 8 := (byte.signExtend 32 ||| (1#32 <<< k)).setWidth 8

/-- `byte &= ~(1 << k)`. -/
def clear (byte : BitVec 8) (k : ℕ) : BitVec 8 :=
  (byte.signExtend 32 &&& ~~~(1#32 <<< k)).setWidth 8

/-- `char tmp = 1 << k; byte &= ~tmp`. -/
def clearChar (byte : BitVec 8) (k : ℕ) : BitVec 8 :=
  let tmp : BitVec 8 := (1#32 <<< k).setWidth 8
  (byte.signExtend 32 &&& ~~~(tmp.signExtend 32)).setWidth 8

theorem twoPow_ne_zero {k : ℕ} (h : k < 32) : BitVec.twoPow 32 k ≠ 0#32 := by
  intro h0
  have hk := congrArg (fun x : BitVec 32 => x.getLsbD k) h0
  simp [h] at hk

theorem test_eq_getLsbD {byte : BitVec 8} {k : ℕ} (h : k < 8) :
    test byte k = byte.getLsbD k := by
  have hsign : (byte.signExtend 32).getLsbD k = byte.getLsbD k := by
    rw [BitVec.getLsbD_signExtend, decide_eq_true (show k < 32 by omega), if_pos h, Bool.true_and]
  rw [test, ← BitVec.twoPow_eq, BitVec.and_twoPow, hsign]
  cases byte.getLsbD k with
  | false => rfl
  | true => exact bne_iff_ne.mpr (twoPow_ne_zero (by omega))

theorem test_set {byte : BitVec 8} {k j : ℕ} (hk : k < 8) (hj : j < 8) :
    test (set byte k) j = (decide (j = k) || test byte j) := by
  rw [test_eq_getLsbD hj, test_eq_getLsbD hj, set, BitVec.getLsbD_setWidth, BitVec.getLsbD_or,
    BitVec.getLsbD_signExtend, ← BitVec.twoPow_eq, BitVec.getLsbD_twoPow]
  simp [hj, show j < 32 by omega, show k < 32 by omega, eq_comm, Bool.or_comm]

theorem test_clear {byte : BitVec 8} {k j : ℕ} (hk : k < 8) (hj : j < 8) :
    test (clear byte k) j = (!decide (j = k) && test byte j) := by
  rw [test_eq_getLsbD hj, test_eq_getLsbD hj, clear, BitVec.getLsbD_setWidth, BitVec.getLsbD_and,
    BitVec.getLsbD_signExtend, BitVec.getLsbD_not, ← BitVec.twoPow_eq, BitVec.getLsbD_twoPow]
  simp [hj, show j < 32 by omega, show k < 32 by omega, eq_comm, Bool.and_comm]

/-- The mask of bit 7 is negative as a `char`, which its promotion undoes. -/
theorem clearChar_eq_clear (byte : BitVec 8) (k : ℕ) :
    clearChar byte k = clear byte k := by
  apply BitVec.eq_of_getLsbD_eq
  intro j hj
  have h32 : j < 32 := by omega
  simp [clearChar, clear, BitVec.getElem_signExtend, hj, h32]

@[simp] theorem test_zero {k : ℕ} (h : k < 8) : test 0#8 k = false := by
  rw [test_eq_getLsbD h]
  simp

@[simp] theorem test_allOnes {k : ℕ} (h : k < 8) : test (-1#8) k = true := by
  rw [test_eq_getLsbD h, show -1#8 = BitVec.allOnes 8 from rfl, BitVec.getLsbD_allOnes]
  exact decide_eq_true h

/-! ## A bit of a sequence of bytes -/

def bit (mem : ℕ → BitVec 8) (i : ℕ) : Bool := test (mem (i / 8)) (i % 8)

def setBit (mem : ℕ → BitVec 8) (i : ℕ) : ℕ → BitVec 8 :=
  Function.update mem (i / 8) (set (mem (i / 8)) (i % 8))

def clearBit (mem : ℕ → BitVec 8) (i : ℕ) : ℕ → BitVec 8 :=
  Function.update mem (i / 8) (clear (mem (i / 8)) (i % 8))

theorem bit_setBit (mem : ℕ → BitVec 8) (i : ℕ) :
    bit (setBit mem i) = Function.update (bit mem) i true := by
  funext j
  unfold bit setBit
  by_cases hbyte : j / 8 = i / 8
  · rw [hbyte, Function.update_self, test_set (by omega) (by omega)]
    by_cases hji : j = i
    · subst hji
      simp
    · rw [Function.update_of_ne hji, decide_eq_false (by omega), Bool.false_or, ← hbyte]
  · rw [Function.update_of_ne hbyte, Function.update_of_ne (by rintro rfl; exact hbyte rfl)]

theorem bit_clearBit (mem : ℕ → BitVec 8) (i : ℕ) :
    bit (clearBit mem i) = Function.update (bit mem) i false := by
  funext j
  unfold bit clearBit
  by_cases hbyte : j / 8 = i / 8
  · rw [hbyte, Function.update_self, test_clear (by omega) (by omega)]
    by_cases hji : j = i
    · subst hji
      simp
    · rw [Function.update_of_ne hji, decide_eq_false (by omega), Bool.not_false, Bool.true_and,
        ← hbyte]
  · rw [Function.update_of_ne hbyte, Function.update_of_ne (by rintro rfl; exact hbyte rfl)]

/-! ## Counting bits -/

/-- The number of set bits below `n`. -/
def popcount (p : ℕ → Bool) (n : ℕ) : ℕ := Nat.count (fun i => p i = true) n

theorem popcount_succ (p : ℕ → Bool) (n : ℕ) :
    popcount p (n + 1) = popcount p n + if p n then 1 else 0 :=
  Nat.count_succ _ n

theorem popcount_le (p : ℕ → Bool) (n : ℕ) : popcount p n ≤ n := Nat.count_le _

theorem popcount_congr {p q : ℕ → Bool} {n : ℕ} (h : ∀ i < n, p i = q i) :
    popcount p n = popcount q n := by
  induction n with
  | zero => rfl
  | succ n ih =>
    rw [popcount_succ, popcount_succ, ih fun i hi => h i (by omega), h n (by omega)]

theorem popcount_update_of_le {p : ℕ → Bool} {i n : ℕ} (b : Bool) (h : n ≤ i) :
    popcount (Function.update p i b) n = popcount p n :=
  popcount_congr fun _ hj => Function.update_of_ne (by omega) _ _

theorem popcount_set {p : ℕ → Bool} {i n : ℕ} (hi : i < n) (hp : p i = false) :
    popcount (Function.update p i true) n = popcount p n + 1 := by
  induction n with
  | zero => omega
  | succ n ih =>
    rw [popcount_succ, popcount_succ]
    by_cases hin : i = n
    · subst hin
      simp [popcount_update_of_le, hp]
    · rw [ih (by omega), Function.update_of_ne (Ne.symm hin)]
      omega

theorem popcount_clear {p : ℕ → Bool} {i n : ℕ} (hi : i < n) (hp : p i = true) :
    popcount (Function.update p i false) n + 1 = popcount p n := by
  have hset := popcount_set hi (Function.update_self i false p)
  rw [Function.update_idem, ← hp, Function.update_eq_self] at hset
  exact hset.symm

theorem popcount_eq_of_le {p : ℕ → Bool} {m n : ℕ} (hmn : m ≤ n)
    (h : ∀ i, m ≤ i → i < n → p i = false) : popcount p n = popcount p m := by
  induction n, hmn using Nat.le_induction with
  | base => rfl
  | succ n hmn ih =>
    rw [popcount_succ, h n hmn (by omega), ih fun i hi hin => h i hi (by omega)]
    rfl

theorem popcount_eq_self_iff {p : ℕ → Bool} {n : ℕ} :
    popcount p n = n ↔ ∀ i < n, p i = true := by
  induction n with
  | zero => simp [popcount]
  | succ n ih =>
    have hle := popcount_le p n
    rw [popcount_succ]
    constructor
    · intro h i hi
      have hn : p n = true := by
        by_contra hn
        rw [if_neg hn] at h
        omega
      rw [if_pos hn] at h
      by_cases hin : i = n
      · rwa [hin]
      · exact ih.mp (by omega) i (by omega)
    · intro h
      rw [if_pos (h n (by omega)), ih.mpr fun i hi => h i (by omega)]

theorem popcount_eq_zero_iff {p : ℕ → Bool} {n : ℕ} :
    popcount p n = 0 ↔ ∀ i < n, p i = false := by
  induction n with
  | zero => simp [popcount]
  | succ n ih =>
    rw [popcount_succ]
    constructor
    · intro h i hi
      have hn : p n = false := by
        by_contra hn
        simp [hn] at h
      by_cases hin : i = n
      · rwa [hin]
      · exact ih.mp (by omega) i (by omega)
    · intro h
      rw [h n (by omega), ih.mpr fun i hi => h i (by omega)]
      rfl

/-! ## The lowest index with a property -/

/-- The lowest index from `start` on, below `n`, of which `p` holds. -/
def lowest (p : ℕ → Bool) (start n : ℕ) : Option ℕ :=
  (List.range' start (n - start)).find? p

theorem lowest_eq_some_iff {p : ℕ → Bool} {start n i : ℕ} :
    lowest p start n = some i ↔
      start ≤ i ∧ i < n ∧ p i = true ∧ ∀ j, start ≤ j → j < i → p j = false := by
  unfold lowest
  rw [List.find?_range'_eq_some]
  simp only [List.mem_range'_1, Bool.not_eq_true']
  constructor
  · rintro ⟨hp, hi, hj⟩
    exact ⟨hi.1, by omega, hp, hj⟩
  · rintro ⟨hstart, hn, hp, hj⟩
    exact ⟨hp, ⟨hstart, by omega⟩, hj⟩

theorem lowest_eq_none_iff {p : ℕ → Bool} {start n : ℕ} :
    lowest p start n = none ↔ ∀ j, start ≤ j → j < n → p j = false := by
  unfold lowest
  rw [List.find?_eq_none]
  simp only [List.mem_range'_1, Bool.not_eq_true]
  constructor
  · intro h j hs hn
    exact h j ⟨hs, by omega⟩
  · intro h j hj
    exact h j hj.1 (by omega)

theorem lowest_eq_or {p : ℕ → Bool} {start m n : ℕ} (hm : start ≤ m) (hn : m ≤ n) :
    lowest p start n = (lowest p start m).or (lowest p m n) := by
  unfold lowest
  have hsplit : List.range' start (n - start) =
      List.range' start (m - start) ++ List.range' m (n - m) := by
    have happend : List.range' start (m - start) ++ List.range' (start + 1 * (m - start)) (n - m) =
        List.range' start (m - start + (n - m)) := List.range'_append
    rw [show start + 1 * (m - start) = m by omega,
      show m - start + (n - m) = n - start by omega] at happend
    exact happend.symm
  rw [hsplit, List.find?_append]

theorem lowest_shift (p : ℕ → Bool) (a start n : ℕ) :
    lowest p (a + start) (a + n) = (lowest (fun k => p (a + k)) start n).map (a + ·) := by
  unfold lowest
  rw [show a + n - (a + start) = n - start by omega, ← List.map_add_range' start (n - start) 1,
    List.find?_map]
  rfl

theorem lowest_congr {p q : ℕ → Bool} {start n : ℕ}
    (h : ∀ i, start ≤ i → i < n → p i = q i) : lowest p start n = lowest q start n := by
  cases hq : lowest q start n with
  | none =>
    have hnone := lowest_eq_none_iff.mp hq
    apply lowest_eq_none_iff.mpr
    intro j hj hn
    rw [h j hj hn, hnone j hj hn]
  | some i =>
    obtain ⟨hs, hn, hi, hlow⟩ := lowest_eq_some_iff.mp hq
    apply lowest_eq_some_iff.mpr
    refine ⟨hs, hn, by rw [h i hs hn, hi], ?_⟩
    intro j hj hji
    rw [h j hj (by omega), hlow j hj hji]

/-- Indices of which `p` does not hold may be left out. -/
theorem lowest_skip {p : ℕ → Bool} {start start' n : ℕ} (hle : start ≤ start')
    (h : ∀ j, start ≤ j → j < start' → j < n → p j = false) :
    lowest p start n = lowest p start' n := by
  cases hlow : lowest p start' n with
  | none =>
    apply lowest_eq_none_iff.mpr
    intro j hj hn
    by_cases hlt : j < start'
    · exact h j hj hlt hn
    · exact lowest_eq_none_iff.mp hlow j (by omega) hn
  | some i =>
    obtain ⟨hs, hn, hi, hlower⟩ := lowest_eq_some_iff.mp hlow
    apply lowest_eq_some_iff.mpr
    refine ⟨by omega, hn, hi, ?_⟩
    intro j hj hji
    by_cases hlt : j < start'
    · exact h j hj hlt (by omega)
    · exact hlower j (by omega) hji

/-- What a search over more indices finds below `n`. -/
theorem lowest_filter {p : ℕ → Bool} {start n m : ℕ} (h : n ≤ m) :
    (lowest p start m).filter (fun i => decide (i < n)) = lowest p start n := by
  symm
  cases hlow : lowest p start m with
  | none =>
    apply lowest_eq_none_iff.mpr
    intro j hj hn
    exact lowest_eq_none_iff.mp hlow j hj (by omega)
  | some i =>
    obtain ⟨hs, -, hi, hlower⟩ := lowest_eq_some_iff.mp hlow
    by_cases hn : i < n
    · rw [Option.filter_some, if_pos (decide_eq_true hn)]
      exact lowest_eq_some_iff.mpr ⟨hs, hn, hi, hlower⟩
    · rw [Option.filter_some, if_neg (by simpa using hn)]
      apply lowest_eq_none_iff.mpr
      intro j hj hjn
      exact hlower j hj (by omega)

/-! ## All indices with a property -/

/-- The indices from `start` on, below `n`, of which `p` holds, in increasing order. -/
def indices (p : ℕ → Bool) (start n : ℕ) : List ℕ := (List.range' start (n - start)).filter p

theorem mem_indices {p : ℕ → Bool} {start n i : ℕ} :
    i ∈ indices p start n ↔ start ≤ i ∧ i < n ∧ p i = true := by
  unfold indices
  rw [List.mem_filter, List.mem_range'_1]
  constructor
  · rintro ⟨hi, hp⟩
    exact ⟨hi.1, by omega, hp⟩
  · rintro ⟨hs, hn, hp⟩
    exact ⟨⟨hs, by omega⟩, hp⟩

theorem indices_eq_nil {p : ℕ → Bool} {start n : ℕ} (h : lowest p start n = none) :
    indices p start n = [] := by
  rw [List.eq_nil_iff_forall_not_mem]
  intro i hi
  obtain ⟨hs, hn, hp⟩ := mem_indices.mp hi
  rw [lowest_eq_none_iff.mp h i hs hn] at hp
  cases hp

/-- A search finds the head of the list, and the tail is what follows it. -/
theorem indices_eq_cons {p : ℕ → Bool} {start n i : ℕ} (h : lowest p start n = some i) :
    indices p start n = i :: indices p (i + 1) n := by
  obtain ⟨hs, hn, hp, hlow⟩ := lowest_eq_some_iff.mp h
  unfold indices
  have hsplit : List.range' start (n - start) =
      List.range' start (i - start) ++ i :: List.range' (i + 1) (n - (i + 1)) := by
    have happend : List.range' start (i - start) ++ List.range' (start + 1 * (i - start)) (n - i) =
        List.range' start (i - start + (n - i)) := List.range'_append
    rw [show start + 1 * (i - start) = i by omega,
      show i - start + (n - i) = n - start by omega,
      show n - i = n - (i + 1) + 1 by omega, List.range'_succ] at happend
    exact happend.symm
  have hnil : (List.range' start (i - start)).filter p = [] := by
    rw [List.filter_eq_nil_iff]
    intro j hj
    rw [List.mem_range'_1] at hj
    rw [hlow j hj.1 (by omega)]
    exact Bool.false_ne_true
  rw [hsplit, List.filter_append, hnil, List.nil_append, List.filter_cons, if_pos hp]

theorem length_indices_le (p : ℕ → Bool) (start n : ℕ) : (indices p start n).length ≤
    n - start := by
  unfold indices
  apply (List.length_filter_le _ _).trans
  rw [List.length_range']

theorem pairwise_indices (p : ℕ → Bool) (start n : ℕ) :
    (indices p start n).Pairwise (· < ·) :=
  List.Pairwise.filter _ List.pairwise_lt_range'

/-! ## The bytes of a sequence of bits -/

/-- The byte whose bits are the values of `f` at 0 to 7. -/
def byteOf (f : ℕ → Bool) : BitVec 8 :=
  (List.range 8).foldl (fun byte k => if f k then set byte k else byte) 0#8

theorem test_byteOf (f : ℕ → Bool) {k : ℕ} (hk : k < 8) : test (byteOf f) k = f k := by
  have hfold : ∀ n ≤ 8, ∀ j < 8,
      test ((List.range n).foldl (fun byte k => if f k then set byte k else byte) 0#8) j =
        (decide (j < n) && f j) := by
    intro n
    induction n with
    | zero =>
      intro _ j hj
      simp [test_zero hj]
    | succ n ih =>
      intro hn j hj
      have hprev := ih (by omega) j hj
      rw [List.range_succ, List.foldl_append, List.foldl_cons, List.foldl_nil]
      by_cases hjn : j = n
      · subst hjn
        cases hf : f j with
        | true => rw [if_pos rfl, test_set (by omega) hj]; simp
        | false => rw [if_neg Bool.false_ne_true, hprev]; simp [hf]
      · have hlt : decide (j < n + 1) = decide (j < n) := by
          rw [decide_eq_decide]
          omega
        rw [hlt, ← hprev]
        split
        · rw [test_set (by omega) hj, decide_eq_false hjn, Bool.false_or]
        · rfl
  have h8 := hfold 8 le_rfl k hk
  rw [decide_eq_true hk, Bool.true_and] at h8
  exact h8

theorem byte_ext {x y : BitVec 8} (h : ∀ k < 8, test x k = test y k) : x = y := by
  apply BitVec.eq_of_getLsbD_eq
  intro k hk
  rw [← test_eq_getLsbD hk, ← test_eq_getLsbD hk, h k hk]

def bytesOf (p : ℕ → Bool) : ℕ → BitVec 8 := fun i => byteOf fun k => p (i * 8 + k)

theorem bit_bytesOf (p : ℕ → Bool) : bit (bytesOf p) = p := by
  funext i
  rw [bit, bytesOf, test_byteOf _ (by omega), show i / 8 * 8 + i % 8 = i by omega]

theorem bytesOf_bit (mem : ℕ → BitVec 8) : bytesOf (bit mem) = mem := by
  funext i
  apply byte_ext
  intro k hk
  rw [bytesOf, test_byteOf _ hk, bit, show (i * 8 + k) / 8 = i by omega,
    show (i * 8 + k) % 8 = k by omega]

end ByteBits
