import Mathlib.Data.List.Basic

namespace StdSort

variable {α : Type}

/-- `lt` is a strict weak order on the elements of `l`, as `std::sort` requires. -/
structure StrictWeakOn (lt : α → α → Bool) (l : List α) : Prop where
  irrefl : ∀ a ∈ l, lt a a = false
  trans : ∀ a ∈ l, ∀ b ∈ l, ∀ c ∈ l, lt a b = true → lt b c = true → lt a c = true
  equiv_trans : ∀ a ∈ l, ∀ b ∈ l, ∀ c ∈ l, lt a b = false → lt b a = false →
    lt b c = false → lt c b = false → lt a c = false

/-- An implementation of `std::sort` that is correct for strict weak orders and may do anything
for other comparators. -/
structure Sorter (α : Type) where
  sort : (α → α → Bool) → List α → List α
  perm : ∀ lt l, StrictWeakOn lt l → (sort lt l).Perm l
  sorted : ∀ lt l, StrictWeakOn lt l → (sort lt l).Pairwise fun a b => lt b a = false

variable {lt : α → α → Bool} {l : List α}

theorem StrictWeakOn.asymm (h : StrictWeakOn lt l) {a b : α} (ha : a ∈ l) (hb : b ∈ l)
    (hab : lt a b = true) : lt b a = false := by
  by_contra hba
  rw [Bool.not_eq_false] at hba
  have hirrefl := h.irrefl a ha
  rw [h.trans a ha b hb a ha hab hba] at hirrefl
  exact Bool.noConfusion hirrefl

theorem StrictWeakOn.not_lt_trans (h : StrictWeakOn lt l) {a b c : α} (ha : a ∈ l) (hb : b ∈ l)
    (hc : c ∈ l) (hab : lt b a = false) (hbc : lt c b = false) : lt c a = false := by
  by_contra hca
  rw [Bool.not_eq_false] at hca
  have hab' : lt a b = false := by
    by_contra h'
    rw [Bool.not_eq_false] at h'
    rw [h.trans c hc a ha b hb hca h'] at hbc
    exact Bool.noConfusion hbc
  have hbc' : lt b c = false := by
    by_contra h'
    rw [Bool.not_eq_false] at h'
    rw [h.trans b hb c hc a ha h' hca] at hab
    exact Bool.noConfusion hab
  rw [h.equiv_trans c hc b hb a ha hbc hbc' hab hab'] at hca
  exact Bool.noConfusion hca

theorem Sorter.sort_eq_self (s : Sorter α) (h : StrictWeakOn lt l)
    (hsorted : l.Pairwise fun a b => lt a b = true) : s.sort lt l = l := by
  apply List.Perm.eq_of_pairwise _ (s.sorted lt l h) _ (s.perm lt l h)
  · intro a b ha hb hba hab
    obtain ⟨i, hi, rfl⟩ := List.getElem_of_mem ((s.perm lt l h).mem_iff.mp ha)
    obtain ⟨j, hj, rfl⟩ := List.getElem_of_mem hb
    have hlt := List.pairwise_iff_getElem.mp hsorted
    rcases Nat.lt_trichotomy i j with hij | rfl | hij
    · rw [hlt i j hi hj hij] at hab
      cases hab
    · rfl
    · rw [hlt j i hj hi hij] at hba
      cases hba
  · apply hsorted.imp_of_mem
    intro a b ha hb hab
    exact h.asymm ha hb hab

/-- Merge sort on the elements of `l`, whose order before the sort is `arrange l`. -/
def mergeSort (arrange : List α → List α) (lt : α → α → Bool) (l : List α) : List α :=
  ((arrange l).attach.mergeSort fun a b => !lt b.1 a.1).map Subtype.val

section

variable {arrange : List α → List α} (harrange : ∀ l, (arrange l).Perm l)

theorem mergeSort_perm (lt : α → α → Bool) (l : List α) :
    (mergeSort arrange lt l).Perm (arrange l) := by
  have h := (List.mergeSort_perm (arrange l).attach fun a b => !lt b.1 a.1).map Subtype.val
  rwa [List.attach_map_subtype_val] at h

include harrange

theorem le_trans_attach (h : StrictWeakOn lt l) (a b c : { x // x ∈ arrange l })
    (hab : (!lt b.1 a.1) = true) (hbc : (!lt c.1 b.1) = true) : (!lt c.1 a.1) = true := by
  have hmem : ∀ x : { x // x ∈ arrange l }, x.1 ∈ l := fun x => (harrange l).mem_iff.mp x.2
  rw [Bool.not_eq_true'] at hab hbc ⊢
  exact h.not_lt_trans (hmem a) (hmem b) (hmem c) hab hbc

theorem le_total_attach (h : StrictWeakOn lt l) (a b : { x // x ∈ arrange l }) :
    ((!lt b.1 a.1) || (!lt a.1 b.1)) = true := by
  have hmem : ∀ x : { x // x ∈ arrange l }, x.1 ∈ l := fun x => (harrange l).mem_iff.mp x.2
  by_cases hba : lt b.1 a.1 = true
  · rw [h.asymm (hmem b) (hmem a) hba]
    simp
  · simp [hba]

theorem pairwise_mergeSort (h : StrictWeakOn lt l) :
    (mergeSort arrange lt l).Pairwise fun a b => lt b a = false := by
  have hsorted := List.pairwise_mergeSort (le_trans_attach harrange h) (le_total_attach harrange h)
    (arrange l).attach
  rw [mergeSort, List.pairwise_map]
  exact hsorted.imp fun hab => by rwa [Bool.not_eq_true'] at hab

/-- Two elements that may stand in their order before the sort keep it. -/
theorem pair_sublist_mergeSort (h : StrictWeakOn lt l) {a b : α} (hab : lt b a = false)
    (hsub : [a, b].Sublist (arrange l)) : [a, b].Sublist (mergeSort arrange lt l) := by
  obtain ⟨pair, hpair, hval⟩ : ∃ pair : List { x // x ∈ arrange l },
      pair.Sublist (arrange l).attach ∧ pair.map Subtype.val = [a, b] := by
    rw [← List.attach_map_subtype_val (arrange l)] at hsub
    obtain ⟨pair, hpair, hval⟩ := List.sublist_map_iff.mp hsub
    exact ⟨pair, hpair, hval.symm⟩
  rw [← hval]
  apply List.Sublist.map
  apply List.sublist_mergeSort (le_trans_attach harrange h) (le_total_attach harrange h) _ hpair
  have hpairwise : (pair.map Subtype.val).Pairwise fun a b => (!lt b a) = true := by
    rw [hval, List.pairwise_pair, hab]
    rfl
  exact List.pairwise_map.mp hpairwise

end

def mergeSorter : Sorter α where
  sort := mergeSort id
  perm lt l _ := mergeSort_perm lt l
  sorted _ _ h := pairwise_mergeSort (fun l => List.Perm.refl l) h

/-- Elements that compare as equal can come out of a correct sort in either order. -/
theorem exists_sorter_pair [DecidableEq α] (h : StrictWeakOn lt l) {a b : α} (ha : a ∈ l)
    (hb : b ∈ l) (hne : a ≠ b) (hab : lt b a = false) :
    ∃ s : Sorter α, [a, b].Sublist (s.sort lt l) := by
  let arrange : List α → List α := fun l =>
    if a ∈ l ∧ b ∈ l.erase a then a :: b :: (l.erase a).erase b else l
  have harrange : ∀ l, (arrange l).Perm l := by
    intro l
    by_cases hl : a ∈ l ∧ b ∈ l.erase a
    · simp only [arrange, if_pos hl]
      exact ((List.perm_cons_erase hl.2).symm.cons a).trans (List.perm_cons_erase hl.1).symm
    · simp only [arrange, if_neg hl]
      exact List.Perm.refl l
  refine ⟨⟨mergeSort arrange, fun lt l _ => (mergeSort_perm lt l).trans (harrange l),
    fun lt l h => pairwise_mergeSort harrange h⟩, ?_⟩
  apply pair_sublist_mergeSort harrange h hab
  have hb' : b ∈ l.erase a := (List.mem_erase_of_ne (Ne.symm hne)).mpr hb
  simp only [arrange, if_pos (And.intro ha hb')]
  simp

end StdSort
