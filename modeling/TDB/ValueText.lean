import Mathlib.Data.List.DropRight
import TDB.CalendarDates

namespace TDB.Value

open Recorder

/-! ## `Value::to_string` -/

/-- The bytes of the characters of a text; the characters here are below 256. -/
def asciiBytes (text : List Char) : List UInt8 := text.map fun c => UInt8.ofNat c.toNat

def asciiChars (bytes : List UInt8) : List Char := bytes.map fun b => Char.ofNat b.toNat

def intText (v : ℤ) : List Char :=
  if v < 0 then '-' :: Nat.toDigits 10 v.natAbs else Nat.toDigits 10 v.natAbs

/-- `%0nd`: the sign counts for the width, and the zeros stand behind it. -/
def paddedText (width : ℕ) (v : ℤ) : List Char :=
  if v < 0 then '-' :: (Nat.toDigits 10 v.natAbs).leftpad (width - 1) '0'
  else (Nat.toDigits 10 v.natAbs).leftpad width '0'

/-- The `snprintf` for a date into its buffer of 16 bytes. -/
def dateText (v : Int32) : List Char :=
  (paddedText 4 (v.toInt.tdiv 10000) ++ '-' :: (paddedText 2 ((v.toInt.tmod 10000).tdiv 100) ++
    '-' :: paddedText 2 (v.toInt.tmod 100))).take 15

/-- `Value::to_string`; `floatText` is `double_to_str`, which prints with `%f`. -/
def toText (floatText : UInt32 → List UInt8) : Value → List UInt8
  | .undefined => []
  | .chars str => str
  | .ints val => asciiBytes (intText val.toInt)
  | .dates val => asciiBytes (dateText val)
  | .nulls => asciiBytes ['N', 'U', 'L', 'L']
  | .floats bits => floatText bits
  | .booleans val => asciiBytes (if val then ['1'] else ['0'])
  | .texts text => text

/-! ## Reading a text back -/

def readDigits (negative : Bool) (digits : List Char) : Option Int32 :=
  if digits = [] ∨ ¬ digits.all Char.isDigit then none
  else
    let n : ℤ := if negative then -(Nat.ofDigitChars 10 digits 0 : ℤ)
      else Nat.ofDigitChars 10 digits 0
    if -2 ^ 31 ≤ n ∧ n < 2 ^ 31 then some (Int32.ofInt n) else none

/-- `>>` into an `int` that has to reach the end of the stream, on a text without blanks. -/
def extractInt (text : List UInt8) : Option Int32 :=
  match asciiChars text with
  | '-' :: digits => readDigits true digits
  | '+' :: digits => readDigits false digits
  | digits => readDigits false digits

theorem asciiChars_asciiBytes {text : List Char} (h : ∀ c ∈ text, c.toNat < 256) :
    asciiChars (asciiBytes text) = text := by
  unfold asciiChars asciiBytes
  rw [List.map_map]
  conv_rhs => rw [← List.map_id text]
  apply List.map_congr_left
  intro c hc
  have hlt := h c hc
  simp [Nat.mod_eq_of_lt hlt]

theorem digits_toDigits {n : ℕ} : ∀ c ∈ Nat.toDigits 10 n, c.isDigit = true :=
  fun _ hc => Nat.isDigit_of_mem_toDigits (by decide) (by decide) hc

theorem Char.lt_of_isDigit {c : Char} (h : c.isDigit = true) : 48 ≤ c.toNat ∧ c.toNat ≤ 57 := by
  rw [Char.isDigit_iff_toNat] at h
  have hzero : '0'.toNat = 48 := rfl
  have hnine : '9'.toNat = 57 := rfl
  omega

theorem mem_intText {v : ℤ} {c : Char} (hc : c ∈ intText v) : c = '-' ∨ c.isDigit = true := by
  unfold intText at hc
  split_ifs at hc
  · rcases List.mem_cons.mp hc with rfl | hc
    · exact .inl rfl
    · exact .inr (digits_toDigits c hc)
  · exact .inr (digits_toDigits c hc)

theorem readDigits_toDigits (negative : Bool) {n : ℕ}
    (hrange : -2 ^ 31 ≤ (if negative then -(n : ℤ) else n) ∧
      (if negative then -(n : ℤ) else n) < 2 ^ 31) :
    readDigits negative (Nat.toDigits 10 n) =
      some (Int32.ofInt (if negative then -(n : ℤ) else n)) := by
  have hall : (Nat.toDigits 10 n).all Char.isDigit = true := List.all_eq_true.mpr digits_toDigits
  unfold readDigits
  rw [if_neg (by simp [hall]), Nat.ofDigitChars_ten_toDigits, if_pos hrange]

/-- A printed integer reads back. -/
theorem extractInt_intText (v : Int32) : extractInt (asciiBytes (intText v.toInt)) = some v := by
  have hle := v.le_toInt
  have hlt := v.toInt_lt
  have hascii : ∀ c ∈ intText v.toInt, c.toNat < 256 := by
    intro c hc
    rcases mem_intText hc with rfl | hdigit
    · decide
    · have := Char.lt_of_isDigit hdigit
      omega
  unfold extractInt
  rw [asciiChars_asciiBytes hascii]
  by_cases hneg : v.toInt < 0
  · have hv : -(v.toInt.natAbs : ℤ) = v.toInt := by omega
    rw [intText, if_pos hneg]
    change readDigits true (Nat.toDigits 10 v.toInt.natAbs) = some v
    rw [readDigits_toDigits true (by simp only [if_true]; omega), if_pos rfl, hv,
      Int32.ofInt_toInt]
  · have hv : (v.toInt.natAbs : ℤ) = v.toInt := by omega
    have hdigits := readDigits_toDigits false (n := v.toInt.natAbs) (by
      simp only [Bool.false_eq_true, if_false]
      omega)
    rw [if_neg Bool.false_ne_true, hv, Int32.ofInt_toInt] at hdigits
    rw [intText, if_neg hneg]
    have hsign : ∀ c ∈ ['-', '+'], c ∉ Nat.toDigits 10 v.toInt.natAbs := by
      intro c hc hmem
      have hdigit := digits_toDigits c hmem
      simp only [List.mem_cons, List.not_mem_nil, or_false] at hc
      rcases hc with rfl | rfl <;> exact absurd hdigit (by decide)
    split
    · next heq => exact absurd (by rw [heq]; simp) (hsign '-' (by simp))
    · next heq => exact absurd (by rw [heq]; simp) (hsign '+' (by simp))
    · exact hdigits

/-! ## Dates -/

theorem digits_leftpad {width n : ℕ} :
    ∀ c ∈ (Nat.toDigits 10 n).leftpad width '0', c.isDigit = true := by
  intro c hc
  rw [List.leftpad, List.mem_append] at hc
  rcases hc with hc | hc
  · rw [List.eq_of_mem_replicate hc]
    decide
  · exact digits_toDigits c hc

theorem length_leftpad_toDigits {width n : ℕ} (hpos : 0 < width) (h : n < 10 ^ width) :
    ((Nat.toDigits 10 n).leftpad width '0').length = width := by
  have hle : (Nat.toDigits 10 n).length ≤ width := by
    exact (Nat.length_toDigits_le_iff (by decide) hpos).mpr h
  rw [List.length_leftpad]
  omega

theorem sscanfDate_digits {year month day : List Char} (hyear : ∀ c ∈ year, c.isDigit = true)
    (hmonth : ∀ c ∈ month, c.isDigit = true) (hday : ∀ c ∈ day, c.isDigit = true) :
    sscanfDate (year ++ '-' :: (month ++ '-' :: day)) =
      some (Nat.ofDigitChars 10 year 0, Nat.ofDigitChars 10 month 0,
        Nat.ofDigitChars 10 day 0) := by
  obtain ⟨hyear₁, hyear₂⟩ := takeWhile_digits hyear (month ++ '-' :: day)
  obtain ⟨hmonth₁, hmonth₂⟩ := takeWhile_digits hmonth day
  have hday₁ := List.takeWhile_eq_self_iff.mpr hday
  unfold sscanfDate scanInt
  rw [hyear₂]
  simp only [hmonth₂]
  rw [hyear₁, hmonth₁, hday₁]

theorem ofDigitChars_leftpad {width n : ℕ} :
    Nat.ofDigitChars 10 ((Nat.toDigits 10 n).leftpad width '0') 0 = n := by
  rw [List.leftpad, Nat.ofDigitChars_append, Nat.ofDigitChars_replicate_zero, Nat.mul_zero,
    Nat.ofDigitChars_ten_toDigits]

theorem paddedText_natCast (width n : ℕ) :
    paddedText width n = (Nat.toDigits 10 n).leftpad width '0' := by
  rw [paddedText, if_neg (by omega), Int.natAbs_natCast]

theorem dateText_of_nonneg {v : Int32} (h : 0 ≤ v.toInt) :
    dateText v = (Nat.toDigits 10 (v.toInt.toNat / 10000)).leftpad 4 '0' ++
      '-' :: ((Nat.toDigits 10 (v.toInt.toNat / 100 % 100)).leftpad 2 '0' ++
        '-' :: (Nat.toDigits 10 (v.toInt.toNat % 100)).leftpad 2 '0') := by
  have hlt := v.toInt_lt
  obtain ⟨n, hn⟩ := Int.eq_ofNat_of_zero_le h
  have hyear : (n : ℤ).tdiv 10000 = (n / 10000 : ℕ) := by
    rw [Int.tdiv_eq_ediv_of_nonneg (by omega)]
    rfl
  have hmonth : ((n : ℤ).tmod 10000).tdiv 100 = (n / 100 % 100 : ℕ) := by
    rw [Int.tmod_eq_emod_of_nonneg (by omega), Int.tdiv_eq_ediv_of_nonneg (by omega)]
    omega
  have hday : (n : ℤ).tmod 100 = (n % 100 : ℕ) := by
    rw [Int.tmod_eq_emod_of_nonneg (by omega)]
    rfl
  unfold dateText
  rw [hn, hyear, hmonth, hday, paddedText_natCast, paddedText_natCast, paddedText_natCast,
    Int.toNat_natCast]
  apply List.take_of_length_le
  have hwide : ((Nat.toDigits 10 (n / 10000)).leftpad 4 '0').length ≤ 6 := by
    have hdigits : (Nat.toDigits 10 (n / 10000)).length ≤ 6 :=
      (Nat.length_toDigits_le_iff (by decide) (by decide)).mpr (by omega)
    rw [List.length_leftpad]
    omega
  have htwo : ∀ k < 100, ((Nat.toDigits 10 k).leftpad 2 '0').length = 2 :=
    fun k hk => length_leftpad_toDigits (by decide) hk
  rw [List.length_append, List.length_cons, List.length_append, List.length_cons,
    htwo _ (Nat.mod_lt _ (by decide)), htwo _ (Nat.mod_lt _ (by decide))]
  omega

/-- Two rows of as many digits are one if they are one number. -/
theorem eq_of_ofDigitChars_eq {cs ds : List Char} (hlen : cs.length = ds.length)
    (hcs : ∀ c ∈ cs, c.isDigit = true) (hds : ∀ c ∈ ds, c.isDigit = true)
    (h : Nat.ofDigitChars 10 cs 0 = Nat.ofDigitChars 10 ds 0) : cs = ds := by
  induction cs generalizing ds with
  | nil => exact (List.eq_nil_of_length_eq_zero hlen.symm).symm
  | cons c cs ih =>
    obtain ⟨d, ds, rfl⟩ := List.exists_cons_of_length_eq_add_one hlen.symm
    rw [List.forall_mem_cons] at hcs hds
    rw [List.length_cons, List.length_cons, Nat.add_right_cancel_iff] at hlen
    have hc := Char.lt_of_isDigit hcs.1
    have hd := Char.lt_of_isDigit hds.1
    have hltc := ofDigitChars_lt hcs.2
    have hltd := ofDigitChars_lt hds.2
    have hzero : '0'.toNat = 48 := rfl
    rw [Nat.ofDigitChars_cons, Nat.ofDigitChars_cons, Nat.ofDigitChars_eq_ofDigitChars_zero,
      @Nat.ofDigitChars_eq_ofDigitChars_zero ds, hlen, hzero, Nat.mul_zero, Nat.zero_add,
      Nat.zero_add] at h
    rw [hlen] at hltc
    have hpos : 0 < 10 ^ ds.length := Nat.pow_pos (by decide)
    have hhead := congrArg (· / 10 ^ ds.length) h
    have htail := congrArg (· % 10 ^ ds.length) h
    simp only [Nat.mul_add_div hpos, Nat.div_eq_of_lt hltc, Nat.div_eq_of_lt hltd,
      Nat.mul_add_mod, Nat.mod_eq_of_lt hltc, Nat.mod_eq_of_lt hltd, Nat.add_zero] at hhead htail
    rw [ih hlen hcs.2 hds.2 htail]
    congr 1
    apply Char.toNat_inj.mp
    omega

/-- What `to_string` prints for a number of digits is the digits, filled up with zeros. -/
theorem leftpad_ofDigitChars {width : ℕ} {cs : List Char} (hpos : 0 < width)
    (hlen : cs.length ≤ width) (hcs : ∀ c ∈ cs, c.isDigit = true) :
    (Nat.toDigits 10 (Nat.ofDigitChars 10 cs 0)).leftpad width '0' = cs.leftpad width '0' := by
  have hlt : Nat.ofDigitChars 10 cs 0 < 10 ^ width :=
    (ofDigitChars_lt hcs).trans_le (Nat.pow_le_pow_right (by decide) hlen)
  apply eq_of_ofDigitChars_eq
  · rw [length_leftpad_toDigits hpos hlt, List.length_leftpad]
    omega
  · exact digits_leftpad
  · intro c hc
    rw [List.leftpad, List.mem_append] at hc
    rcases hc with hc | hc
    · rw [List.eq_of_mem_replicate hc]
      decide
    · exact hcs c hc
  · rw [ofDigitChars_leftpad, List.leftpad, Nat.ofDigitChars_append,
      Nat.ofDigitChars_replicate_zero, Nat.mul_zero]

/-- Dates and their texts: every valid date reads back from what it prints, and what the date of a
valid literal prints is the literal with its month and day filled up to two digits. -/
theorem dates_round_trip :
    (∀ v : Int32, ValidDate v → setDateString (dateText v) = some (.dates v)) ∧
    ∀ (str : DateStr) (v : Int32), setDateString str.text = some (.dates v) → ValidDate v →
      dateText v =
        str.year ++ '-' :: (str.month.leftpad 2 '0' ++ '-' :: str.day.leftpad 2 '0') := by
  constructor
  · intro v hv
    have hpos := hv.pos
    have hlt := v.toInt_lt
    have hval : Int32.ofNat (v.toInt.toNat / 10000 * 10000 + v.toInt.toNat / 100 % 100 * 100 +
        v.toInt.toNat % 100) = v := by
      have hsum : v.toInt.toNat / 10000 * 10000 + v.toInt.toNat / 100 % 100 * 100 +
          v.toInt.toNat % 100 = v.toInt.toNat := by omega
      apply Int32.toInt_inj.mp
      rw [hsum, Int32.toInt_ofNat_of_lt (by omega)]
      omega
    rw [dateText_of_nonneg (by omega), setDateString,
      sscanfDate_digits digits_leftpad digits_leftpad digits_leftpad]
    simp only [ofDigitChars_leftpad, Option.map_some]
    rw [if_pos ((checkDate_iff _ _ _).mpr hv.date), hval]
  · intro str v hset hv
    have hyear := ofDigitChars_lt (List.all_eq_true.mp str.year_digits.2)
    rw [str.year_digits.1] at hyear
    rw [setDateString, sscanfDate_text, Option.map_some, Option.some.injEq] at hset
    dsimp only at hset
    split_ifs at hset with hcheck
    · obtain ⟨-, -, hm, -, hd⟩ := (checkDate_iff _ _ _).mp hcheck
      have hd' := hd.trans (daysInMonth_le _ _)
      cases hset
      rw [dateText_of_nonneg hv.pos.le, Int32.toInt_ofNat_of_lt (by omega), Int.toNat_natCast]
      have hy : ∀ y m d : ℕ, m ≤ 12 → d ≤ 31 → (y * 10000 + m * 100 + d) / 10000 = y ∧
          (y * 10000 + m * 100 + d) / 100 % 100 = m ∧ (y * 10000 + m * 100 + d) % 100 = d := by
        omega
      obtain ⟨hyear', hmonth', hday'⟩ := hy _ _ _ hm hd'
      rw [hyear', hmonth', hday',
        leftpad_ofDigitChars (by decide) str.year_digits.1.le
          (List.all_eq_true.mp str.year_digits.2),
        leftpad_ofDigitChars (by decide) (by rcases str.month_digits.1 with h | h <;> omega)
          (List.all_eq_true.mp str.month_digits.2),
        leftpad_ofDigitChars (by decide) (by rcases str.day_digits.1 with h | h <;> omega)
          (List.all_eq_true.mp str.day_digits.2)]
      congr 1
      rw [List.leftpad, str.year_digits.1]
      rfl
    · cases hset
      exact absurd hv.pos (by decide)

end TDB.Value
