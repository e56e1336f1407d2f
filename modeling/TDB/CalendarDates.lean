import Mathlib.Data.List.TakeWhile
import Mathlib.Tactic.IntervalCases
import TDB.TableRecord

namespace TDB.Recorder

/-! ## Date literals -/

/-- A `DATE_STR` of the lexer without its quotes, `[0-9]{4}-[0-9]{1,2}-[0-9]{1,2}`. -/
structure DateStr where
  year : List Char
  month : List Char
  day : List Char
  year_digits : year.length = 4 ∧ year.all Char.isDigit = true
  month_digits : (month.length = 1 ∨ month.length = 2) ∧ month.all Char.isDigit = true
  day_digits : (day.length = 1 ∨ day.length = 2) ∧ day.all Char.isDigit = true

def DateStr.text (s : DateStr) : List Char := s.year ++ '-' :: (s.month ++ '-' :: s.day)

/-- `%d` of `sscanf` where a digit is next. -/
def scanInt (s : List Char) : ℕ := Nat.ofDigitChars 10 (s.takeWhile Char.isDigit) 0

/-- `sscanf(s, "%d-%d-%d", &y, &m, &d)`; `none` leaves variables uninitialized. -/
def sscanfDate (s : List Char) : Option (ℕ × ℕ × ℕ) :=
  match s.dropWhile Char.isDigit with
  | '-' :: s' =>
    match s'.dropWhile Char.isDigit with
    | '-' :: s'' => some (scanInt s, scanInt s', scanInt s'')
    | _ => none
  | _ => none

def checkDate (y m d : ℕ) : Bool :=
  let mon := [0, 31, 28, 31, 30, 31, 30, 31, 31, 30, 31, 30, 31]
  let leap := y % 400 = 0 ∨ y % 100 ≠ 0 ∧ y % 4 = 0
  0 < y && 0 < m && m ≤ 12 && 0 < d && d ≤ (if m = 2 ∧ leap then 1 else 0) + mon.getD m 0

def setDateString (s : List Char) : Option Value :=
  (sscanfDate s).map fun (y, m, d) =>
    .dates (if checkDate y m d then Int32.ofNat (y * 10000 + m * 100 + d) else -1)

theorem takeWhile_digits {cs : List Char} (h : ∀ c ∈ cs, c.isDigit = true) (rest : List Char) :
    (cs ++ '-' :: rest).takeWhile Char.isDigit = cs ∧
    (cs ++ '-' :: rest).dropWhile Char.isDigit = '-' :: rest := by
  have hdash : ¬ Char.isDigit '-' = true := by decide
  constructor
  · rw [List.takeWhile_append_of_pos h, List.takeWhile_cons_of_neg hdash, List.append_nil]
  · rw [List.dropWhile_append_of_pos h, List.dropWhile_cons_of_neg hdash]

theorem sscanfDate_text (s : DateStr) : sscanfDate s.text =
    some (Nat.ofDigitChars 10 s.year 0, Nat.ofDigitChars 10 s.month 0,
      Nat.ofDigitChars 10 s.day 0) := by
  obtain ⟨hyear, hyear'⟩ := takeWhile_digits (List.all_eq_true.mp s.year_digits.2)
    (s.month ++ '-' :: s.day)
  obtain ⟨hmonth, hmonth'⟩ := takeWhile_digits (List.all_eq_true.mp s.month_digits.2) s.day
  have hday := List.takeWhile_eq_self_iff.mpr (List.all_eq_true.mp s.day_digits.2)
  unfold sscanfDate DateStr.text scanInt
  rw [hyear']
  simp only
  rw [hmonth']
  simp only
  rw [hyear, hmonth, hday]

theorem ofDigitChars_lt {cs : List Char} (h : ∀ c ∈ cs, c.isDigit = true) :
    Nat.ofDigitChars 10 cs 0 < 10 ^ cs.length := by
  induction cs with
  | nil => decide
  | cons c cs ih =>
    have hlt := ih fun d hd => h d (List.mem_cons_of_mem _ hd)
    have hdigit := Char.isDigit_iff_toNat.mp (h c List.mem_cons_self)
    have hzero : '0'.toNat = 48 := rfl
    have hnine : '9'.toNat = 57 := rfl
    rw [hzero, hnine] at hdigit
    have hle : 10 ^ cs.length * (c.toNat - 48) ≤ 10 ^ cs.length * 9 :=
      Nat.mul_le_mul_left _ (by omega)
    rw [Nat.ofDigitChars_cons, Nat.ofDigitChars_eq_ofDigitChars_zero, hzero, List.length_cons,
      Nat.pow_succ, Nat.mul_zero, Nat.zero_add]
    omega

/-! ## Calendar dates -/

/-- The length of a month of the Gregorian calendar. -/
def daysInMonth (y m : ℕ) : ℕ :=
  match m with
  | 1 | 3 | 5 | 7 | 8 | 10 | 12 => 31
  | 4 | 6 | 9 | 11 => 30
  | 2 => if 4 ∣ y ∧ (100 ∣ y → 400 ∣ y) then 29 else 28
  | _ => 0

theorem daysInMonth_le (y m : ℕ) : daysInMonth y m ≤ 31 := by
  unfold daysInMonth
  split <;> try split_ifs
  all_goals omega

def IsDate (y m d : ℕ) : Prop := 0 < y ∧ 1 ≤ m ∧ m ≤ 12 ∧ 1 ≤ d ∧ d ≤ daysInMonth y m

theorem leap_iff (y : ℕ) :
    (y % 400 = 0 ∨ y % 100 ≠ 0 ∧ y % 4 = 0) ↔ 4 ∣ y ∧ (100 ∣ y → 400 ∣ y) := by
  omega

theorem checkDate_iff (y m d : ℕ) : checkDate y m d = true ↔ IsDate y m d := by
  unfold checkDate IsDate
  simp only [Bool.and_eq_true, decide_eq_true_eq, and_assoc]
  refine and_congr_right fun _ => ?_
  refine and_congr_right fun hm => ?_
  refine and_congr_right fun hm' => ?_
  refine and_congr_right fun _ => ?_
  interval_cases m
  case «2» =>
    unfold daysInMonth
    simp only [leap_iff, true_and]
    split_ifs <;> rfl
  all_goals simp [daysInMonth]

/-- A number of the form `yyyymmdd`. -/
structure ValidDate (v : Int32) : Prop where
  pos : 0 < v.toInt
  date : IsDate (v.toInt.toNat / 10000) (v.toInt.toNat / 100 % 100) (v.toInt.toNat % 100)

def Earlier (v w : Int32) : Prop :=
  let y := v.toInt.toNat / 10000
  let y' := w.toInt.toNat / 10000
  let m := v.toInt.toNat / 100 % 100
  let m' := w.toInt.toNat / 100 % 100
  y < y' ∨ y = y' ∧ (m < m' ∨ m = m' ∧ v.toInt.toNat % 100 < w.toInt.toNat % 100)

theorem ValidDate.compare_neg_iff {v w : Int32} (hv : ValidDate v) (hw : ValidDate w)
    (lib : StdLib) : (Value.dates v).compare lib (.dates w) < 0 ↔ Earlier v w := by
  have hsub : (v - w).toInt = v.toInt - w.toInt := by
    have hpos := hv.pos
    have hpos' := hw.pos
    have hle := v.toInt_lt
    have hle' := w.toInt_lt
    rw [Int32.toInt_sub, Int.bmod_eq_of_le (by omega) (by omega)]
  have hpos := hv.pos
  have hpos' := hw.pos
  rw [Value.compare_dates, Value.compareInt, hsub]
  unfold Earlier
  dsimp only
  omega

theorem validDate_ofNat {y m d : ℕ} (h : IsDate y m d) (hy : y < 10000) :
    ValidDate (Int32.ofNat (y * 10000 + m * 100 + d)) := by
  obtain ⟨hpos, hm, hm', hd, hd'⟩ := h
  have hle := hd'.trans (daysInMonth_le y m)
  have hval : (Int32.ofNat (y * 10000 + m * 100 + d)).toInt =
      ((y * 10000 + m * 100 + d : ℕ) : ℤ) := by
    rw [Int32.toInt_ofNat_of_lt]
    omega
  have hnat : (Int32.ofNat (y * 10000 + m * 100 + d)).toInt.toNat = y * 10000 + m * 100 + d := by
    rw [hval, Int.toNat_natCast]
  refine ⟨by rw [hval]; omega, ?_⟩
  have hyear : (y * 10000 + m * 100 + d) / 10000 = y := by omega
  have hmonth : (y * 10000 + m * 100 + d) / 100 % 100 = m := by omega
  have hday : (y * 10000 + m * 100 + d) % 100 = d := by omega
  rw [hnat, hyear, hmonth, hday]
  exact ⟨hpos, hm, hm', hd, hd'⟩

/-- The value of a literal: a valid date, or minus one. -/
theorem setDateString_text (s : DateStr) : ∃ v, setDateString s.text = some (.dates v) ∧
    (ValidDate v ∨ v = -1) := by
  have hyear := ofDigitChars_lt (List.all_eq_true.mp s.year_digits.2)
  rw [s.year_digits.1] at hyear
  unfold setDateString
  rw [sscanfDate_text]
  refine ⟨_, rfl, ?_⟩
  split_ifs with hcheck
  · exact .inl (validDate_ofNat ((checkDate_iff _ _ _).mp hcheck) hyear)
  · exact .inr rfl

end TDB.Recorder
