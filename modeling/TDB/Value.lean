import Mathlib.Algebra.Ring.Int.Defs
import Mathlib.Algebra.Ring.Nat
import Mathlib.Data.List.Basic
import TDB.RC

namespace TDB

inductive AttrType where
  | undefined | chars | ints | dates | nulls | floats | booleans | texts
  deriving DecidableEq, Repr

/-- A `Value`: its type with the member of the union, or the string, that the type selects.
A float is kept as its bits. -/
inductive Value where
  | undefined
  | chars (str : List UInt8)
  | ints (val : Int32)
  | dates (val : Int32)
  | nulls
  | floats (bits : UInt32)
  | booleans (val : Bool)
  | texts (text : List UInt8)
  deriving DecidableEq, Repr

namespace Value

def attrType : Value → AttrType
  | .undefined => .undefined
  | .chars _ => .chars
  | .ints _ => .ints
  | .dates _ => .dates
  | .nulls => .nulls
  | .floats _ => .floats
  | .booleans _ => .booleans
  | .texts _ => .texts

def isNull (v : Value) : Bool := v.attrType = .nulls

end Value

/-- How a call ends that does not succeed: with a return code, with an exception of the C++
library, or with an invalid memory access. -/
inductive Failure where
  | code (rc : RC)
  | exception
  | crash
  deriving DecidableEq, Repr

/-- The functions of the C++ library that work on the text of a value; `none` is an exception. -/
structure StdLib where
  stof : List UInt8 → Option Float32
  stol : List UInt8 → Option ℤ
  /-- `std::regex_match` with the flags `ECMAScript | icase`. -/
  regexMatch (text pattern : List UInt8) : Option Bool
  /-- The memory at a value's `data()` when that is the union and not a string. -/
  numBytes : Value → List UInt8

namespace Value

/-! ## Comparison -/

def epsilon : Float := 1e-6

/-- `compare_int`; the subtraction is the machine's, which wraps around. -/
def compareInt (v1 v2 : Int32) : ℤ := (v1 - v2).toInt

def compareFloat (v1 v2 : Float32) : ℤ :=
  let cmp := (v1 - v2).toFloat
  if cmp > epsilon then 1 else if cmp < -epsilon then -1 else 0

/-- `memcmp` on two buffers of one length, by unsigned bytes. -/
def memcmp : List UInt8 → List UInt8 → ℤ
  | a :: s, b :: t => if a = b then memcmp s t else (a.toNat : ℤ) - b.toNat
  | _, _ => 0

def signedChar (c : UInt8) : ℤ := c.toInt8.toInt

/-- `compare_string`: behind the common length the next byte of the longer string decides, as a
signed character. -/
def compareString (s1 s2 : List UInt8) : ℤ :=
  let maxlen := min s1.length s2.length
  let result := memcmp (s1.take maxlen) (s2.take maxlen)
  if result ≠ 0 then result
  else if maxlen < s1.length then signedChar (s1.getD maxlen 0) - 0
  else if maxlen < s2.length then 0 - signedChar (s2.getD maxlen 0)
  else 0

def getFloat (lib : StdLib) : Value → Float32
  | .chars s => (lib.stof s).getD 0
  | .ints v => v.toFloat32
  | .floats bits => .ofBits bits
  | .booleans b => if b then 1 else 0
  | .dates v => v.toFloat32
  | _ => 0

/-- `get_int`; a `long` and a rounded float are cut to an `int`. -/
def getInt (lib : StdLib) : Value → Int32
  | .chars s => ((lib.stol s).map Int32.ofInt).getD 0
  | .ints v => v
  | .floats bits => (Float32.ofBits bits).round.toInt32
  | .booleans b => if b then 1 else 0
  | .dates v => v
  | _ => 0

/-- `compare`.  The integer that is read for a boolean has its other bytes taken as zero. -/
def compare (lib : StdLib) : Value → Value → ℤ
  | .ints a, .ints b => compareInt a b
  | .floats a, .floats b => compareFloat (.ofBits a) (.ofBits b)
  | .chars s, .chars t => compareString s t
  | .texts s, .texts t => compareString s t
  | .booleans a, .booleans b => compareInt (if a then 1 else 0) (if b then 1 else 0)
  | .dates a, .dates b => compareInt a b
  | .nulls, .nulls => -1
  | .undefined, .undefined => -1
  | a, b => compareFloat (a.getFloat lib) (b.getFloat lib)

@[simp] theorem compare_ints (lib : StdLib) (a b : Int32) :
    (Value.ints a).compare lib (.ints b) = compareInt a b := rfl

@[simp] theorem compare_dates (lib : StdLib) (a b : Int32) :
    (Value.dates a).compare lib (.dates b) = compareInt a b := rfl

@[simp] theorem compare_chars (lib : StdLib) (s t : List UInt8) :
    (Value.chars s).compare lib (.chars t) = compareString s t := rfl

def getBoolean (lib : StdLib) : Value → Bool
  | .chars s =>
    match lib.stof s with
    | none => !s.isEmpty
    | some val =>
      if val.toFloat ≥ epsilon ∨ val.toFloat ≤ -epsilon then true
      else match lib.stol s with
        | none => !s.isEmpty
        | some val => if (Int32.ofInt val) ≠ 0 then true else !s.isEmpty
  | .ints v => v ≠ 0
  | .floats bits =>
    let val := (Float32.ofBits bits).toFloat
    val ≥ epsilon ∨ val ≤ -epsilon
  | .booleans b => b
  | .dates v => v ≠ 0
  | _ => false

@[simp] theorem getBoolean_booleans (lib : StdLib) (b : Bool) :
    (Value.booleans b).getBoolean lib = b := rfl

/-! ## When the machine's comparison has the right sign -/

@[simp] theorem compareInt_self (a : Int32) : compareInt a a = 0 := by
  simp [compareInt]

theorem compareInt_eq (a b : Int32) : compareInt a b = (a.toInt - b.toInt).bmod (2 ^ 32) :=
  Int32.toInt_sub a b

/-- The sign is right for two integers less than `2 ^ 31` apart. -/
theorem compareInt_of_near {a b : Int32} (h : (a.toInt - b.toInt).natAbs < 2 ^ 31) :
    compareInt a b = a.toInt - b.toInt := by
  rw [compareInt_eq, Int.bmod_def]
  omega

/-- For integers farther apart the larger one counts as the smaller. -/
theorem compareInt_of_far {a b : Int32} (h : (2 : ℤ) ^ 31 ≤ b.toInt - a.toInt) :
    compareInt b a < 0 := by
  have ha := a.le_toInt
  have hb := b.toInt_lt
  rw [compareInt_eq, Int.bmod_def]
  omega

@[simp] theorem compareString_nil_nil : compareString [] [] = 0 := rfl

@[simp] theorem compareString_cons_nil (a : UInt8) (s : List UInt8) :
    compareString (a :: s) [] = signedChar a := by
  simp [compareString, memcmp]

@[simp] theorem compareString_nil_cons (b : UInt8) (t : List UInt8) :
    compareString [] (b :: t) = -signedChar b := by
  simp [compareString, memcmp]

theorem compareString_cons_cons (a b : UInt8) (s t : List UInt8) :
    compareString (a :: s) (b :: t) =
      if a = b then compareString s t else (a.toNat : ℤ) - b.toNat := by
  have hmin : min (s.length + 1) (t.length + 1) = min s.length t.length + 1 := by
    omega
  by_cases hab : a = b
  · simp only [compareString, List.length_cons, hmin, List.take_succ_cons, memcmp, if_pos hab,
      Nat.add_lt_add_iff_right, List.getD_cons_succ]
  · have hne : (a.toNat : ℤ) - b.toNat ≠ 0 := by
      have hnat : a.toNat ≠ b.toNat := fun h => hab (UInt8.toNat_inj.mp h)
      omega
    simp only [compareString, List.length_cons, hmin, List.take_succ_cons, memcmp, if_neg hab,
      if_pos hne]

theorem compareString_neg (s t : List UInt8) : compareString t s = -compareString s t := by
  induction s generalizing t with
  | nil => cases t <;> simp
  | cons a s ih =>
    cases t with
    | nil => simp
    | cons b t =>
      rw [compareString_cons_cons, compareString_cons_cons]
      by_cases hab : a = b
      · rw [if_pos hab, if_pos hab.symm, ih]
      · rw [if_neg hab, if_neg (Ne.symm hab)]
        omega

/-- The bytes above 127 are the negative characters. -/
theorem signedChar_sign (c : UInt8) :
    c.toNat ≤ 127 ∧ signedChar c = c.toNat ∨ 127 < c.toNat ∧ signedChar c < 0 := by
  have hbmod : signedChar c = (c.toNat : ℤ).bmod (2 ^ 8) :=
    BitVec.toInt_eq_toNat_bmod c.toBitVec
  have hlt : c.toNat < 2 ^ 8 := c.toNat_lt
  rw [hbmod, Int.bmod_def]
  omega

end Value

end TDB
