import Mathlib.Data.List.Basic
import Mathlib.Logic.Function.Basic

namespace ByteMemory

def read (mem : ℕ → BitVec 8) (addr n : ℕ) : List (BitVec 8) :=
  (List.range n).map fun k => mem (addr + k)

/-- `memcpy(addr, src, n)`; bytes that the source does not have are zero. -/
def memcpy (addr n : ℕ) (src : List (BitVec 8)) (mem : ℕ → BitVec 8) : ℕ → BitVec 8 :=
  fun k => if addr ≤ k ∧ k < addr + n then src.getD (k - addr) 0#8 else mem k

def memset (addr n : ℕ) (mem : ℕ → BitVec 8) : ℕ → BitVec 8 :=
  fun k => if addr ≤ k ∧ k < addr + n then 0#8 else mem k

variable {mem mem' : ℕ → BitVec 8} {addr n : ℕ} {src : List (BitVec 8)}

@[simp] theorem length_read : (read mem addr n).length = n := by simp [read]

theorem read_congr (h : ∀ k, addr ≤ k → k < addr + n → mem k = mem' k) :
    read mem addr n = read mem' addr n := by
  apply List.map_congr_left
  intro k hk
  rw [List.mem_range] at hk
  exact h (addr + k) (by omega) (by omega)

theorem memcpy_of_lt {k : ℕ} (h : k < addr) : memcpy addr n src mem k = mem k :=
  if_neg (by omega)

theorem memcpy_of_le {k : ℕ} (h : addr + n ≤ k) : memcpy addr n src mem k = mem k :=
  if_neg (by omega)

theorem read_memcpy (h : n ≤ src.length) : read (memcpy addr n src mem) addr n = src.take n := by
  apply List.ext_getElem
  · rw [length_read, List.length_take, Nat.min_eq_left h]
  · intro k hk hsrc
    rw [length_read] at hk
    have hcond : addr ≤ addr + k ∧ addr + k < addr + n := ⟨by omega, by omega⟩
    simp only [read, List.getElem_map, List.getElem_range, memcpy, List.getElem_take]
    rw [if_pos hcond, Nat.add_sub_cancel_left, List.getD_eq_getElem?_getD,
      List.getElem?_eq_getElem (by omega), Option.getD_some]

theorem read_memcpy_self (h : src.length = n) : read (memcpy addr n src mem) addr n = src := by
  rw [read_memcpy (Nat.le_of_eq h.symm), List.take_of_length_le (Nat.le_of_eq h)]

theorem read_memcpy_append {behind : List (BitVec 8)} (h : src.length = n) :
    read (memcpy addr n (src ++ behind) mem) addr n = src := by
  rw [read_memcpy (by rw [List.length_append]; omega), ← h, List.take_left]

theorem read_add (m : ℕ) : read mem addr (n + m) = read mem addr n ++ read mem (addr + n) m := by
  unfold read
  rw [List.range_add, List.map_append, List.map_map]
  simp only [Function.comp_def, Nat.add_assoc]

theorem read_memcpy_disjoint {addr' n' : ℕ} (h : addr' + n' ≤ addr ∨ addr + n ≤ addr') :
    read (memcpy addr n src mem) addr' n' = read mem addr' n' := by
  apply read_congr
  intro k hk hlt
  rcases h with h | h
  · exact memcpy_of_lt (by omega)
  · exact memcpy_of_le (by omega)

end ByteMemory
