import Mathlib.Data.Prod.Lex
import TDB.NodeSearch
import TDB.BplusTree

namespace TDB

/-! ## Indexes over one column -/

/-- The keys of a column whose values compare like integers: by value, then by `RID`. -/
instance : LinearOrder (Key ℤ) :=
  LinearOrder.lift'
    (fun k => (toLex (k.attr, toLex (k.rid.pageNum.val, k.rid.slotNum.val)) : ℤ ×ₗ ℕ ×ₗ ℕ))
    fun a b hab => by
      obtain ⟨x, ⟨p, q⟩⟩ := a
      obtain ⟨y, ⟨p', q'⟩⟩ := b
      simp only [EmbeddingLike.apply_eq_iff_eq, Prod.mk.injEq] at hab
      obtain ⟨rfl, hp, hq⟩ := hab
      rw [Fin.ext hp, Fin.ext hq]

theorem key_lt_iff (a b : Key ℤ) : a < b ↔ a.attr < b.attr ∨
    a.attr = b.attr ∧ (a.rid.pageNum.val < b.rid.pageNum.val ∨
      a.rid.pageNum.val = b.rid.pageNum.val ∧ a.rid.slotNum.val < b.rid.slotNum.val) := by
  change (toLex (a.attr, toLex (a.rid.pageNum.val, a.rid.slotNum.val)) : ℤ ×ₗ ℕ ×ₗ ℕ) <
    toLex (b.attr, toLex (b.rid.pageNum.val, b.rid.slotNum.val)) ↔ _
  rw [Prod.Lex.toLex_lt_toLex, Prod.Lex.toLex_lt_toLex]

/-- `compare_int`, on values whose difference is an `int` again. -/
def compareInt (v1 v2 : ℤ) : ℤ := v1 - v2

def columnIndex (attrsLength internalMaxSize leafMaxSize : ℕ) : IndexFileHeader ℤ :=
  ⟨internalMaxSize, leafMaxSize, attrsLength, 0, ⟨compareInt⟩⟩

/-- The comparator of an index over one column decides the order of the keys. -/
theorem columnIndex_orders (attrsLength internalMaxSize leafMaxSize : ℕ) :
    (columnIndex attrsLength internalMaxSize leafMaxSize).Orders := by
  have hcompare : ∀ a b : Key ℤ,
      (columnIndex attrsLength internalMaxSize leafMaxSize).compare a b =
        if a.attr - b.attr ≠ 0 then a.attr - b.attr else RID.compare a.rid b.rid := fun _ _ => rfl
  constructor
  · intro a b
    rw [hcompare, key_lt_iff, RID.compare]
    split_ifs <;> omega
  · intro a b
    rw [hcompare, RID.compare]
    constructor
    · intro heq
      obtain ⟨x, ⟨p, q⟩⟩ := a
      obtain ⟨y, ⟨p', q'⟩⟩ := b
      simp only at heq
      have hx : x = y := by
        split_ifs at heq <;> omega
      have hp : p = p' := by
        apply Fin.ext
        split_ifs at heq <;> omega
      have hq : q = q' := by
        apply Fin.ext
        split_ifs at heq <;> omega
      rw [hx, hp, hq]
    · rintro rfl
      simp

theorem one_lt_two_pow_thirtyOne : 1 < 2 ^ 31 := by decide

def recordOne : RID := ⟨⟨1, one_lt_two_pow_thirtyOne⟩, ⟨1, one_lt_two_pow_thirtyOne⟩⟩

end TDB
