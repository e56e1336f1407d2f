import Mathlib.Data.Int.LeastGreatest

namespace Int32Circle

/-- The order that the sign of a 32-bit difference gives: antisymmetric and transitive. -/
structure OrderedBySub (S : Set Int32) : Prop where
  antisymm : ∀ a ∈ S, ∀ b ∈ S, (a - b).toInt.sign = -(b - a).toInt.sign
  trans : ∀ a ∈ S, ∀ b ∈ S, ∀ c ∈ S, (a - b).toInt < 0 → (b - c).toInt < 0 → (a - c).toInt < 0

/-- The integers lie in the half of the circle of 32-bit integers that begins at some `c`. -/
def HalfCircle (S : Set Int32) : Prop := ∃ c : ℤ, ∀ a ∈ S, (a.toInt - c) % 2 ^ 32 < 2 ^ 31

/-- The place of an integer on the circle behind `c`. -/
def place (c : ℤ) (a : Int32) : ℤ := (a.toInt - c) % 2 ^ 32

/-- Within a half of the circle the difference of two integers is that of their places. -/
theorem toInt_sub_eq_place {c : ℤ} {a b : Int32} (ha : place c a < 2 ^ 31)
    (hb : place c b < 2 ^ 31) : (a - b).toInt = place c a - place c b := by
  unfold place at *
  rw [Int32.toInt_sub, Int.bmod_def]
  omega

theorem place_injective (c : ℤ) : Function.Injective (place c) := by
  intro a b hab
  have ha := a.le_toInt
  have ha' := a.toInt_lt
  have hb := b.le_toInt
  have hb' := b.toInt_lt
  unfold place at hab
  exact Int32.toInt_inj.mp (by omega)

/-- An integer that is not before `m` lies in the half of the circle behind it. -/
theorem place_of_sub_nonneg {a m : Int32} (h : 0 ≤ (a - m).toInt) :
    place m.toInt a < 2 ^ 31 := by
  unfold place
  rw [Int32.toInt_sub, Int.bmod_def] at h
  omega

theorem OrderedBySub.pos_of_neg {S : Set Int32} (hs : OrderedBySub S) {a b : Int32} (ha : a ∈ S)
    (hb : b ∈ S) (h : (a - b).toInt < 0) : 0 < (b - a).toInt := by
  have hsign := hs.antisymm a ha b hb
  rw [Int.sign_eq_neg_one_of_neg h] at hsign
  exact Int.sign_eq_one_iff_pos.mp (by omega)

theorem OrderedBySub.neg_of_pos {S : Set Int32} (hs : OrderedBySub S) {a b : Int32} (ha : a ∈ S)
    (hb : b ∈ S) (h : 0 < (a - b).toInt) : (b - a).toInt < 0 := by
  have hsign := hs.antisymm a ha b hb
  rw [Int.sign_eq_one_of_pos h] at hsign
  exact Int.sign_eq_neg_one_iff_neg.mp (by omega)

/-- The integer that is farthest before some `b` is before all others. -/
theorem OrderedBySub.exists_first {S : Set Int32} (hs : OrderedBySub S) {b : Int32} (hb : b ∈ S) :
    ∃ m ∈ S, ∀ a ∈ S, 0 ≤ (a - m).toInt := by
  obtain ⟨_, ⟨m, hm, rfl⟩, hleast⟩ := Int.exists_least_of_bdd
    (P := fun z => ∃ m ∈ S, (m - b).toInt = z) ⟨-2 ^ 31, by
      rintro _ ⟨m, -, rfl⟩
      exact (m - b).le_toInt⟩ ⟨_, b, hb, rfl⟩
  refine ⟨m, hm, fun a ha => not_lt.mp fun hneg => ?_⟩
  have hle := hleast _ ⟨a, ha, rfl⟩
  have hpos := hs.pos_of_neg ha hm hneg
  have hm' := (m - b).le_toInt
  have ha' := (a - b).toInt_lt
  have hfar : (m - b).toInt < 0 ∧ 2 ^ 31 ≤ (a - b).toInt - (m - b).toInt := by
    simp only [Int32.toInt_sub, Int.bmod_def] at hneg hle hm' ha' ⊢
    omega
  have hafter := hs.pos_of_neg hm hb hfar.1
  by_cases hzero : (a - b).toInt = 0
  · have hopposite := hfar.2
    rw [hzero] at hopposite
    simp only [Int32.toInt_sub, Int.bmod_def] at hafter hopposite hm'
    omega
  · have hbefore := hs.neg_of_pos ha hb (by omega)
    exact absurd (hs.trans m hm b hb a ha hfar.1 hbefore) (not_lt.mpr (Int.le_of_lt hpos))

theorem orderedBySub_iff {S : Set Int32} : OrderedBySub S ↔ HalfCircle S := by
  constructor
  · intro hs
    by_cases hempty : ∃ b, b ∈ S
    · obtain ⟨b, hb⟩ := hempty
      obtain ⟨m, hm, hfirst⟩ := hs.exists_first hb
      exact ⟨m.toInt, fun a ha => place_of_sub_nonneg (hfirst a ha)⟩
    · exact ⟨0, fun a ha => absurd ⟨a, ha⟩ hempty⟩
  · rintro ⟨c, hc⟩
    refine ⟨fun a ha b hb => ?_, fun a ha b hb d hd => ?_⟩
    · rw [toInt_sub_eq_place (hc a ha) (hc b hb), toInt_sub_eq_place (hc b hb) (hc a ha),
        ← Int.sign_neg, neg_sub]
    · rw [toInt_sub_eq_place (hc a ha) (hc b hb), toInt_sub_eq_place (hc b hb) (hc d hd),
        toInt_sub_eq_place (hc a ha) (hc d hd)]
      omega

end Int32Circle
