import Mathlib.Order.Bounds.Defs
import TDB.BplusTree
import TDB.IntIndex

namespace TDB

open BplusTreeHandler

/-! ## The positions that the searches of a node find -/

section Positions

variable {A V : Type} [LinearOrder (Key A)] {items : List (Key A × V)} {key : Key A}

def KeysIncreasing (items : List (Key A × V)) : Prop := items.Pairwise fun a b => a.1 < b.1

/-- The least index whose key is not less than `key`, or the size if there is none. -/
def IsLowerBound (items : List (Key A × V)) (key : Key A) (i : ℕ) : Prop :=
  IsLeast {i | ∀ item ∈ items[i]?, key ≤ item.1} i

/-- `key i ≤ key < key (i + 1)`, where key 0 counts as minus infinity and the key behind the last
one as infinity. -/
structure Covers (items : List (Key A × V)) (key : Key A) (i : ℕ) : Prop where
  lt_length : i < items.length
  le : i ≠ 0 → ∀ item ∈ items[i]?, item.1 ≤ key
  lt : ∀ item ∈ items[i + 1]?, key < item.1

theorem isLowerBound_append {lo hi : List (Key A × V)} (hlo : ∀ x ∈ lo, x.1 < key)
    (hhi : ∀ x ∈ hi, key ≤ x.1) : IsLowerBound (lo ++ hi) key lo.length := by
  constructor
  · intro item hitem
    rw [Option.mem_def, List.getElem?_append_right le_rfl] at hitem
    exact hhi item (List.mem_of_getElem? hitem)
  · intro i hleast
    by_contra hlt
    rw [not_le] at hlt
    have hitem : (lo ++ hi)[i]? = some lo[i] := by
      rw [List.getElem?_append_left hlt, List.getElem?_eq_getElem hlt]
    exact absurd (hleast lo[i] hitem) (not_le.mpr (hlo lo[i] (List.getElem_mem hlt)))

theorem IsLowerBound.le_length {i : ℕ} (hi : IsLowerBound items key i) : i ≤ items.length := by
  apply hi.2
  intro item hitem
  rw [Option.mem_def, List.getElem?_eq_none le_rfl] at hitem
  cases hitem

theorem IsLowerBound.lt_key {i j : ℕ} (hi : IsLowerBound items key i)
    (hij : j < i) {item : Key A × V} (hitem : item ∈ items[j]?) : item.1 < key := by
  by_contra hge
  refine absurd (hi.2 fun other hother => ?_) (Nat.not_le.mpr hij)
  rw [Option.mem_unique hother hitem]
  exact not_lt.mp hge

/-- Two covering indices in order leave the key below a key that is not above it. -/
theorem Covers.not_lt (hs : KeysIncreasing items.tail) {i j : ℕ} (hi : Covers items key i)
    (hj : Covers items key j) : ¬ i < j := by
  intro hij
  obtain ⟨j, rfl⟩ : ∃ n, j = n + 1 := ⟨j - 1, by omega⟩
  cases items with
  | nil => exact absurd hj.lt_length (Nat.not_lt_zero _)
  | cons first rest =>
    rw [List.tail_cons] at hs
    have hlt : j < rest.length := by
      have := hj.lt_length
      rw [List.length_cons] at this
      omega
    have hle : rest[j].1 ≤ key := by
      apply hj.le (Nat.succ_ne_zero j)
      rw [Option.mem_def, List.getElem?_cons_succ, List.getElem?_eq_getElem hlt]
    have hgt : key < rest[i].1 := by
      apply hi.lt
      rw [Option.mem_def, List.getElem?_cons_succ, List.getElem?_eq_getElem (by omega)]
    obtain heq | hlt' := Nat.eq_or_lt_of_le (Nat.le_of_lt_succ hij)
    · subst heq
      exact absurd hgt (not_lt.mpr hle)
    · have hpair := List.pairwise_iff_getElem.mp hs i j (by omega) hlt hlt'
      exact lt_irrefl key (hgt.trans (hpair.trans_le hle))

theorem Covers.unique (hs : KeysIncreasing items.tail) {i j : ℕ} (hi : Covers items key i)
    (hj : Covers items key j) : i = j := by
  have h1 := hi.not_lt hs hj
  have h2 := hj.not_lt hs hi
  omega

end Positions

/-! ## The lookups -/

section Lookups

variable {A V : Type} [LinearOrder (Key A)] {h : IndexFileHeader A}

theorem lowerBound_cut (hh : h.Orders) {lo hi : List (Key A × V)} {key : Key A}
    (hlo : ∀ x ∈ lo, x.1 < key) (hhi : ∀ x ∈ hi, key ≤ x.1) (htail : ∀ x ∈ hi.tail, key < x.1) :
    lowerBound (fun item => h.compare item.1 key) (lo ++ hi) =
      (lo.length, headIsZero (fun item => h.compare item.1 key) hi) := by
  apply lowerBound_append
  · exact fun x hx => (hh.lt_iff _ _).mpr (hlo x hx)
  · intro x hx
    by_contra hlt
    exact absurd ((hh.lt_iff _ _).mp (Int.not_le.mp hlt)) (not_lt.mpr (hhi x hx))
  · exact fun x hx => (hh.gt_iff _ _).mpr (htail x hx)

theorem lowerBound_items (hh : h.Orders) {items : List (Key A × V)} (hs : KeysIncreasing items)
    (key : Key A) {i : ℕ} {found : Bool}
    (hlookup : lowerBound (fun item => h.compare item.1 key) items = (i, found)) :
    IsLowerBound items key i ∧ (found = true ↔ ∃ item ∈ items[i]?, item.1 = key) := by
  obtain ⟨lo, hi, rfl, hlo, hhi, htail⟩ := exists_cut key hs
  rw [lowerBound_cut hh hlo hhi htail, Prod.mk.injEq] at hlookup
  obtain ⟨rfl, rfl⟩ := hlookup
  refine ⟨isLowerBound_append hlo hhi, ?_⟩
  rw [List.getElem?_append_right le_rfl, Nat.sub_self]
  cases hi with
  | nil => simp [headIsZero]
  | cons item rest => simp [headIsZero, hh.eq_iff]

theorem leafLookup_isLowerBound (hh : h.Orders) {items : List (Key A × RID)}
    (hs : KeysIncreasing items) (key : Key A) :
    IsLowerBound items key (leafLookup h items key).1 ∧
      ((leafLookup h items key).2 = true ↔
        ∃ item ∈ items[(leafLookup h items key).1]?, item.1 = key) :=
  lowerBound_items hh hs key rfl

theorem internalLookup_covers (hh : h.Orders) {items : List (Key A × PageNum)} (hne : items ≠ [])
    (hs : KeysIncreasing items.tail) (key : Key A) :
    Covers items key (internalLookup h items key) := by
  cases items with
  | nil => exact absurd rfl hne
  | cons first rest =>
    rw [List.tail_cons] at hs
    obtain ⟨p, hp⟩ : ∃ p, (lowerBound (fun item => h.compare item.1 key) rest).1 = p := ⟨_, rfl⟩
    have hbound : IsLowerBound rest key p := by
      rw [← hp]
      exact (lowerBound_items hh hs key rfl).1
    have hbefore : p ≠ 0 → ∀ item ∈ (first :: rest)[p]?, item.1 ≤ key := by
      intro hzero item hitem
      obtain ⟨n, rfl⟩ := Nat.exists_eq_succ_of_ne_zero hzero
      exact le_of_lt (hbound.lt_key (Nat.lt_succ_self n) hitem)
    -- behind `key 0` the lower bound is at `p`; `lookup` steps back unless that key is equal
    cases hitem : rest[p]? with
    | none =>
      have hlookup : internalLookup h (first :: rest) key = p := by
        simp [internalLookup, internalPosition, hp, hitem]
      rw [hlookup]
      refine ⟨Nat.lt_succ_of_le hbound.le_length, hbefore, fun item hnext => ?_⟩
      rw [List.getElem?_cons_succ, hitem] at hnext
      cases hnext
    | some item =>
      obtain ⟨hlt, rfl⟩ := List.getElem?_eq_some_iff.mp hitem
      by_cases hcompare : h.compare key rest[p].1 < 0
      · have hlookup : internalLookup h (first :: rest) key = p := by
          simp [internalLookup, internalPosition, hp, hitem, hcompare]
        rw [hlookup]
        refine ⟨Nat.lt_succ_of_lt hlt, hbefore, fun other hnext => ?_⟩
        rw [List.getElem?_cons_succ, hitem] at hnext
        rw [← Option.some.inj hnext]
        exact (hh.lt_iff _ _).mp hcompare
      · have hkey : rest[p].1 = key := by
          apply le_antisymm
          · exact not_lt.mp fun hgt => hcompare ((hh.lt_iff _ _).mpr hgt)
          · exact hbound.1 rest[p] hitem
        have hlookup : internalLookup h (first :: rest) key = p + 1 := by
          simp [internalLookup, internalPosition, hp, hitem, hcompare]
        rw [hlookup]
        refine ⟨Nat.succ_lt_succ hlt, fun _ other hother => ?_, fun other hnext => ?_⟩
        · rw [List.getElem?_cons_succ, hitem] at hother
          rw [← Option.some.inj hother, hkey]
        · obtain ⟨hlt', rfl⟩ := List.getElem?_eq_some_iff.mp hnext
          have := List.pairwise_iff_getElem.mp hs p (p + 1) hlt (Nat.lt_of_succ_lt_succ hlt')
            (Nat.lt_succ_self p)
          rwa [hkey] at this

/-- A new item at the position that `InternalIndexNodeHandler::lookup` reports. -/
theorem insertItem_internalPosition (hh : h.Orders) {items : List (Key A × PageNum)}
    (hne : items ≠ []) (hs : KeysIncreasing items.tail) (key : Key A) (pageNum : PageNum)
    (s : BplusTreeHandler A) :
    ∃ items', insertItem items (internalPosition h items key) (key, pageNum) s = .ok (items', s) ∧
      items'.head? = items.head? ∧ items'.tail.Pairwise (fun a b => a.1 ≤ b.1) ∧
      ((∀ item ∈ items.tail, item.1 ≠ key) → KeysIncreasing items'.tail) := by
  cases items with
  | nil => exact absurd rfl hne
  | cons first rest =>
    rw [List.tail_cons] at hs
    obtain ⟨lo, hi, rfl, hlo, hhi, htail⟩ := exists_cut key hs
    have hpos : internalPosition h (first :: (lo ++ hi)) key = lo.length + 1 := by
      simp [internalPosition, lowerBound_cut hh hlo hhi htail]
    obtain ⟨hlos, his, hcross⟩ := List.pairwise_append.mp hs
    refine ⟨first :: (lo ++ (key, pageNum) :: hi), ?_, rfl, ?_, fun hnew => ?_⟩
    · simp [insertItem, hpos]
    · rw [List.tail_cons, List.pairwise_append, List.pairwise_cons]
      refine ⟨hlos.imp le_of_lt, ⟨hhi, his.imp le_of_lt⟩, ?_⟩
      intro a ha b hb
      obtain rfl | hb := List.mem_cons.mp hb
      · exact le_of_lt (hlo a ha)
      · exact le_of_lt (hcross a ha b hb)
    · rw [List.tail_cons] at hnew ⊢
      unfold KeysIncreasing
      rw [List.pairwise_append, List.pairwise_cons]
      refine ⟨hlos, ⟨fun b hb => ?_, his⟩, ?_⟩
      · exact lt_of_le_of_ne (hhi b hb) (hnew b (List.mem_append_right lo hb)).symm
      · intro a ha b hb
        obtain rfl | hb := List.mem_cons.mp hb
        · exact hlo a ha
        · exact hcross a ha b hb

/-- The searches of a leaf and of an internal node, for every order of the keys. -/
theorem nodeSearch (hh : h.Orders) (key : Key A) :
    (∀ items : List (Key A × RID), KeysIncreasing items →
      IsLowerBound items key (leafLookup h items key).1 ∧
      ((leafLookup h items key).2 = true ↔
        ∃ item ∈ items[(leafLookup h items key).1]?, item.1 = key)) ∧
    ∀ items : List (Key A × PageNum), items ≠ [] → KeysIncreasing items.tail →
      (∀ i, Covers items key i ↔ internalLookup h items key = i) ∧
      ∀ (pageNum : PageNum) (s : BplusTreeHandler A), ∃ items',
        insertItem items (internalPosition h items key) (key, pageNum) s = .ok (items', s) ∧
        items'.head? = items.head? ∧ items'.tail.Pairwise (fun a b => a.1 ≤ b.1) ∧
        ((∀ item ∈ items.tail, item.1 ≠ key) → KeysIncreasing items'.tail) := by
  refine ⟨fun items hs => leafLookup_isLowerBound hh hs key, fun items hne hs => ⟨fun i => ?_, ?_⟩⟩
  · constructor
    · exact fun hi => (internalLookup_covers hh hne hs key).unique hs hi
    · rintro rfl
      exact internalLookup_covers hh hne hs key
  · exact insertItem_internalPosition hh hne hs key

end Lookups

def oddKeys {V : Type} (v : V) : List (Key ℤ × V) :=
  [(⟨1, RID.min⟩, v), (⟨3, RID.min⟩, v), (⟨5, RID.min⟩, v)]

theorem nodeSearch_columnIndex :
    IsLowerBound (oddKeys RID.min) ⟨4, RID.min⟩
      (leafLookup (columnIndex 4 4 4) (oddKeys RID.min) ⟨4, RID.min⟩).1 ∧
    internalLookup (columnIndex 4 4 4) (oddKeys 0) ⟨4, RID.min⟩ = 1 := by
  obtain ⟨hleaf, hinternal⟩ := nodeSearch (columnIndex_orders 4 4 4) ⟨4, RID.min⟩
  have hodd : ∀ {V : Type} (v : V), KeysIncreasing (oddKeys v) := by
    intro V v
    simp [oddKeys, KeysIncreasing, key_lt_iff]
  refine ⟨(hleaf _ (hodd _)).1, ((hinternal _ ?_ (hodd _).tail).1 1).mp ⟨?_, ?_, ?_⟩⟩
  · simp [oddKeys]
  · simp [oddKeys]
  · simp [oddKeys, le_iff_lt_or_eq, key_lt_iff]
  · simp [oddKeys, key_lt_iff]

end TDB
