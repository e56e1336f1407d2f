import Mathlib.Algebra.Ring.Nat
import Mathlib.Data.List.Basic

namespace LittleEndian

/-- The four bytes of a 32-bit integer, the least significant one first. -/
def encode (x : Int32) : List UInt8 :=
  let n := x.toUInt32.toNat
  [UInt8.ofNat n, UInt8.ofNat (n / 2 ^ 8), UInt8.ofNat (n / 2 ^ 16), UInt8.ofNat (n / 2 ^ 24)]

/-- The integer whose bytes stand at the front of a list; missing bytes count as zero. -/
def decode (bytes : List UInt8) : Int32 :=
  let byte (i : ℕ) : ℕ := (bytes.getD i 0).toNat
  .ofUInt32 (.ofNat (byte 0 + byte 1 * 2 ^ 8 + byte 2 * 2 ^ 16 + byte 3 * 2 ^ 24))

@[simp] theorem length_encode (x : Int32) : (encode x).length = 4 := rfl

@[simp] theorem decode_encode_append (x : Int32) (rest : List UInt8) :
    decode (encode x ++ rest) = x := by
  have hlt : x.toUInt32.toNat < 2 ^ 32 := x.toUInt32.toNat_lt
  have hn : x.toUInt32.toNat % 2 ^ 8 + x.toUInt32.toNat / 2 ^ 8 % 2 ^ 8 * 2 ^ 8 +
      x.toUInt32.toNat / 2 ^ 16 % 2 ^ 8 * 2 ^ 16 + x.toUInt32.toNat / 2 ^ 24 % 2 ^ 8 * 2 ^ 24 =
      x.toUInt32.toNat := by
    omega
  have hu : UInt32.ofNat (x.toUInt32.toNat % 2 ^ 8 + x.toUInt32.toNat / 2 ^ 8 % 2 ^ 8 * 2 ^ 8 +
      x.toUInt32.toNat / 2 ^ 16 % 2 ^ 8 * 2 ^ 16 +
      x.toUInt32.toNat / 2 ^ 24 % 2 ^ 8 * 2 ^ 24) = x.toUInt32 := by
    rw [hn]
    exact UInt32.ofNat_toNat
  exact congrArg Int32.ofUInt32 hu

@[simp] theorem decode_encode (x : Int32) : decode (encode x) = x := by
  simpa using decode_encode_append x []

theorem encode_decode : ∀ {bytes : List UInt8}, bytes.length = 4 → encode (decode bytes) = bytes
  | [a, b, c, d], _ => by
    have ha := a.toNat_lt
    have hb := b.toNat_lt
    have hc := c.toNat_lt
    have hd := d.toNat_lt
    obtain ⟨n, hn⟩ : ∃ n, n = a.toNat + b.toNat * 2 ^ 8 + c.toNat * 2 ^ 16 + d.toNat * 2 ^ 24 :=
      ⟨_, rfl⟩
    have hdecode : decode [a, b, c, d] = .ofUInt32 (.ofNat n) := by
      rw [hn]
      rfl
    have htoNat : (Int32.ofUInt32 (.ofNat n)).toUInt32.toNat = n := by
      change n % 2 ^ 32 = n
      omega
    have hbyte : ∀ (x : UInt8) (m : ℕ), m % 2 ^ 8 = x.toNat → UInt8.ofNat m = x := by
      intro x m hm
      exact UInt8.toNat_inj.mp (UInt8.toNat_ofNat'.trans hm)
    rw [hdecode]
    unfold encode
    rw [htoNat]
    simp only [hbyte a n (by omega), hbyte b (n / 2 ^ 8) (by omega),
      hbyte c (n / 2 ^ 16) (by omega), hbyte d (n / 2 ^ 24) (by omega)]

def encodeWords (words : List Int32) : List UInt8 := words.flatMap encode

@[simp] theorem length_encodeWords (words : List Int32) :
    (encodeWords words).length = 4 * words.length := by
  induction words with
  | nil => rfl
  | cons x words ih =>
    rw [encodeWords, List.flatMap_cons, List.length_append, length_encode, List.length_cons]
    change 4 + (encodeWords words).length = _
    omega

theorem decode_drop_encodeWords {words : List Int32} {i : ℕ} {x : Int32} (rest : List UInt8)
    (h : words[i]? = some x) : decode ((encodeWords words ++ rest).drop (4 * i)) = x := by
  induction words generalizing i with
  | nil => simp at h
  | cons y words ih =>
    have hcons : encodeWords (y :: words) ++ rest = encode y ++ (encodeWords words ++ rest) := by
      simp [encodeWords]
    rw [hcons]
    cases i with
    | zero =>
      obtain rfl : y = x := by simpa using h
      simp
    | succ i =>
      have hdrop : (encode y ++ (encodeWords words ++ rest)).drop (4 * (i + 1)) =
          (encodeWords words ++ rest).drop (4 * i) := by
        rw [show 4 * (i + 1) = 4 + 4 * i by omega, ← List.drop_drop]
        rfl
      rw [hdrop]
      exact ih (by simpa using h)

end LittleEndian
