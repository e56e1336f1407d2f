import Mathlib.Order.WithBot
import Mathlib.Data.List.Pairwise
import TDB.IndexNode

namespace TDB

/-! ## `common::lower_bound` -/

section lowerBound

variable {α : Type} {comp : α → ℤ} {lo hi : List α}

/-- The element at the lower bound equals the searched value. -/
def headIsZero (comp : α → ℤ) : List α → Bool
  | [] => false
  | x :: _ => decide (comp x = 0)

theorem lowerBoundLoop_append (hlo : ∀ x ∈ lo, comp x < 0) (hhi : ∀ x ∈ hi, 0 ≤ comp x)
    (htail : ∀ x ∈ hi.tail, 0 < comp x) (fuel first count : ℕ) (h1 : first ≤ lo.length)
    (h2 : lo.length ≤ first + count)
    (h3 : headIsZero comp hi = true → lo.length < first + count)
    (h4 : first + count ≤ (lo ++ hi).length) (h5 : count ≤ fuel) :
    lowerBoundLoop comp (lo ++ hi) fuel first count = (lo.length, headIsZero comp hi) := by
  -- the lower bound stays inside the window of `count` elements from `first`
  have hdone : count = 0 → first = lo.length ∧ headIsZero comp hi = false := by
    intro hcount
    refine ⟨by omega, ?_⟩
    by_contra hne
    have := h3 (by simpa using hne)
    omega
  induction fuel generalizing first count with
  | zero =>
    obtain ⟨hfirst, hz⟩ := hdone (by omega)
    simp [lowerBoundLoop, hfirst, hz]
  | succ fuel ih =>
    unfold lowerBoundLoop
    by_cases hcount : count = 0
    · obtain ⟨hfirst, hz⟩ := hdone hcount
      simp [hcount, hfirst, hz]
    · rw [if_neg hcount]
      have hstep : count / 2 < count := Nat.div_lt_self (by omega) (by omega)
      have hlt : first + count / 2 < (lo ++ hi).length := by omega
      obtain ⟨x, hx⟩ : ∃ x, (lo ++ hi)[first + count / 2]? = some x :=
        ⟨_, List.getElem?_eq_getElem hlt⟩
      simp only [hx]
      have hnext : ∀ first' count', first' ≤ lo.length → lo.length ≤ first' + count' →
          (headIsZero comp hi = true → lo.length < first' + count') →
          first' + count' ≤ (lo ++ hi).length → count' ≤ fuel →
          lowerBoundLoop comp (lo ++ hi) fuel first' count' = (lo.length, headIsZero comp hi) := by
        intro first' count' g1 g2 g3 g4 g5
        refine ih first' count' g1 g2 g3 g4 g5 fun hc => ⟨by omega, ?_⟩
        by_contra hne
        have := g3 (by simpa using hne)
        omega
      by_cases hside : first + count / 2 < lo.length
      · rw [List.getElem?_append_left hside] at hx
        have hneg := hlo x (List.mem_of_getElem? hx)
        rw [if_neg hneg.ne, if_pos hneg]
        exact hnext _ _ (by omega) (by omega) (fun hz => by have := h3 hz; omega) (by omega)
          (by omega)
      · rw [List.getElem?_append_right (by omega)] at hx
        have hnn := hhi x (List.mem_of_getElem? hx)
        by_cases hat : first + count / 2 = lo.length
        · have hz : headIsZero comp hi = decide (comp x = 0) := by
            cases hi with
            | nil => simp at hx
            | cons y rest =>
              have hxy : y = x := by simpa [hat] using hx
              simp [headIsZero, hxy]
          by_cases hzero : comp x = 0
          · simp [hzero, hz, hat]
          · rw [if_neg hzero, if_neg (by omega)]
            exact hnext _ _ (by omega) (by omega) (fun h => by simp [hz, hzero] at h) (by omega)
              (by omega)
        · have hpos : 0 < comp x := by
            apply htail
            obtain ⟨n, hn⟩ : ∃ n, first + count / 2 - lo.length = n + 1 :=
              ⟨first + count / 2 - lo.length - 1, by omega⟩
            rw [hn, ← List.getElem?_tail] at hx
            exact List.mem_of_getElem? hx
          rw [if_neg hpos.ne', if_neg (by omega)]
          exact hnext _ _ (by omega) (by omega) (fun _ => by omega) (by omega) (by omega)

theorem lowerBound_append (hlo : ∀ x ∈ lo, comp x < 0) (hhi : ∀ x ∈ hi, 0 ≤ comp x)
    (htail : ∀ x ∈ hi.tail, 0 < comp x) :
    lowerBound comp (lo ++ hi) = (lo.length, headIsZero comp hi) := by
  refine lowerBoundLoop_append hlo hhi htail _ _ _ (by omega) (by simp) ?_ (by omega) le_rfl
  cases hi with
  | nil => simp [headIsZero]
  | cons y rest => simp

theorem lowerBound_absent (hlo : ∀ x ∈ lo, comp x < 0) (hhi : ∀ x ∈ hi, 0 < comp x) :
    lowerBound comp (lo ++ hi) = (lo.length, false) := by
  rw [lowerBound_append hlo (fun x hx => (hhi x hx).le)
    (fun x hx => hhi x (List.mem_of_mem_tail hx))]
  cases hi with
  | nil => rfl
  | cons y rest => simp [headIsZero, (hhi y (by simp)).ne']

theorem lowerBound_present {y : α} (hlo : ∀ x ∈ lo, comp x < 0) (hy : comp y = 0)
    (hhi : ∀ x ∈ hi, 0 < comp x) : lowerBound comp (lo ++ y :: hi) = (lo.length, true) := by
  rw [lowerBound_append hlo]
  · simp [headIsZero, hy]
  · intro x hx
    rcases List.mem_cons.mp hx with rfl | hx
    · exact hy.ge
    · exact (hhi x hx).le
  · simpa using hhi

end lowerBound

/-! ## Keys in order -/

variable {A : Type}

structure IndexFileHeader.Orders (h : IndexFileHeader A) [LinearOrder (Key A)] : Prop where
  lt_iff : ∀ a b, h.compare a b < 0 ↔ a < b
  eq_iff : ∀ a b, h.compare a b = 0 ↔ a = b

theorem IndexFileHeader.Orders.gt_iff {h : IndexFileHeader A} [LinearOrder (Key A)]
    (hh : h.Orders) (a b : Key A) : 0 < h.compare a b ↔ b < a := by
  have h1 := hh.lt_iff a b
  have h2 := hh.eq_iff a b
  rcases lt_trichotomy a b with hab | hab | hab
  · have := h1.mpr hab
    exact ⟨fun h => by omega, fun h => absurd hab h.asymm⟩
  · have := h2.mpr hab
    exact ⟨fun h => by omega, fun h => absurd hab h.ne'⟩
  · refine ⟨fun _ => hab, fun _ => ?_⟩
    have h3 : ¬ h.compare a b < 0 := fun h => absurd (h1.mp h) hab.asymm
    have h4 : ¬ h.compare a b = 0 := fun h => absurd (h2.mp h) hab.ne'
    omega

section search

variable [LinearOrder (Key A)] {h : IndexFileHeader A}

theorem leafLookup_absent (hh : h.Orders) {lo hi : List (Key A × RID)} {key : Key A}
    (hlo : ∀ x ∈ lo, x.1 < key) (hhi : ∀ x ∈ hi, key < x.1) :
    leafLookup h (lo ++ hi) key = (lo.length, false) :=
  lowerBound_absent (fun x hx => (hh.lt_iff _ _).mpr (hlo x hx))
    (fun x hx => (hh.gt_iff _ _).mpr (hhi x hx))

theorem leafLookup_present (hh : h.Orders) {lo hi : List (Key A × RID)} {key : Key A} {rid : RID}
    (hlo : ∀ x ∈ lo, x.1 < key) (hhi : ∀ x ∈ hi, key < x.1) :
    leafLookup h (lo ++ (key, rid) :: hi) key = (lo.length, true) :=
  lowerBound_present (fun x hx => (hh.lt_iff _ _).mpr (hlo x hx)) ((hh.eq_iff _ _).mpr rfl)
    (fun x hx => (hh.gt_iff _ _).mpr (hhi x hx))

/-- A key cuts a strictly increasing list of items in two. -/
theorem exists_cut {V : Type} (key : Key A) : ∀ {items : List (Key A × V)},
    items.Pairwise (fun a b => a.1 < b.1) →
    ∃ lo hi, items = lo ++ hi ∧ (∀ x ∈ lo, x.1 < key) ∧ (∀ x ∈ hi, key ≤ x.1) ∧
      (∀ x ∈ hi.tail, key < x.1)
  | [], _ => ⟨[], [], by simp⟩
  | item :: rest, hs => by
    obtain ⟨hhead, hrest⟩ := List.pairwise_cons.mp hs
    by_cases hlt : item.1 < key
    · obtain ⟨lo, hi, rfl, h1, h2, h3⟩ := exists_cut key hrest
      refine ⟨item :: lo, hi, rfl, ?_, h2, h3⟩
      intro x hx
      rcases List.mem_cons.mp hx with rfl | hx
      · exact hlt
      · exact h1 x hx
    · rw [not_lt] at hlt
      refine ⟨[], item :: rest, rfl, by simp, ?_, fun x hx => hlt.trans_lt (hhead x hx)⟩
      intro x hx
      rcases List.mem_cons.mp hx with rfl | hx
      · exact hlt
      · exact (hlt.trans_lt (hhead x hx)).le

/-! ## Children of an internal node

A child is a page with the separator below it; the leftmost child of the whole tree has `⊥`.
-/

abbrev Child (A : Type) := WithBot (Key A) × PageNum

/-- The items an internal node stores for its children; `⊥` is stored as the zero key. -/
def stored (h : IndexFileHeader A) (kids : List (Child A)) : List (Key A × PageNum) :=
  kids.map fun c => (c.1.unbotD h.zeroKey, c.2)

omit [LinearOrder (Key A)] in
@[simp] theorem stored_append (kids kids' : List (Child A)) :
    stored h (kids ++ kids') = stored h kids ++ stored h kids' := List.map_append

omit [LinearOrder (Key A)] in
@[simp] theorem stored_cons (c : Child A) (kids : List (Child A)) :
    stored h (c :: kids) = (c.1.unbotD h.zeroKey, c.2) :: stored h kids := rfl

omit [LinearOrder (Key A)] in
@[simp] theorem stored_nil : stored h ([] : List (Child A)) = [] := rfl

omit [LinearOrder (Key A)] in
@[simp] theorem length_stored (kids : List (Child A)) : (stored h kids).length = kids.length :=
  List.length_map ..

omit [LinearOrder (Key A)] in
theorem stored_take (kids : List (Child A)) (n : ℕ) :
    (stored h kids).take n = stored h (kids.take n) := List.map_take.symm

omit [LinearOrder (Key A)] in
theorem stored_drop (kids : List (Child A)) (n : ℕ) :
    (stored h kids).drop n = stored h (kids.drop n) := List.map_drop.symm

omit [LinearOrder (Key A)] in
theorem map_snd_stored (kids : List (Child A)) :
    (stored h kids).map Prod.snd = kids.map Prod.snd := by
  simp [stored]

theorem compare_stored_neg (hh : h.Orders) {key : Key A} {kids : List (Child A)}
    {b : WithBot (Key A)}
    (hb : ∀ c ∈ kids, b < c.1 ∧ c.1 < key) :
    ∀ x ∈ stored h kids, h.compare x.1 key < 0 := by
  intro x hx
  obtain ⟨c, hc, rfl⟩ := List.mem_map.mp hx
  obtain ⟨k, hk⟩ := WithBot.ne_bot_iff_exists.mp (bot_le.trans_lt (hb c hc).1).ne'
  have := (hb c hc).2
  rw [← hk, WithBot.coe_lt_coe] at this
  simpa [← hk] using (hh.lt_iff _ _).mpr this

theorem compare_stored_pos (hh : h.Orders) {key : Key A} {kids : List (Child A)}
    (hb : ∀ c ∈ kids, (key : WithBot (Key A)) < c.1) :
    ∀ x ∈ stored h kids, 0 < h.compare x.1 key := by
  intro x hx
  obtain ⟨c, hc, rfl⟩ := List.mem_map.mp hx
  obtain ⟨k, hk⟩ := WithBot.ne_bot_iff_exists.mp (bot_le.trans_lt (hb c hc)).ne'
  have := hb c hc
  rw [← hk, WithBot.coe_lt_coe] at this
  simpa [← hk] using (hh.gt_iff _ _).mpr this

/-- Where `InternalIndexNodeHandler::insert` puts a key that is above the separators of `lo` and
below those of `hi`. -/
theorem internalPosition_eq (hh : h.Orders) {key : Key A} {lo hi : List (Child A)}
    (hne : lo ≠ []) (hlo : lo.Pairwise fun a b => a.1 < b.1) (hlt : ∀ c ∈ lo, c.1 < key)
    (hhi : ∀ c ∈ hi, (key : WithBot (Key A)) < c.1) :
    internalPosition h (stored h (lo ++ hi)) key = lo.length := by
  cases lo with
  | nil => exact absurd rfl hne
  | cons a lo =>
    unfold internalPosition
    rw [if_neg (by simp)]
    have hb := compare_stored_neg hh (b := a.1)
      fun c hc => ⟨(List.pairwise_cons.mp hlo).1 c hc, hlt c (by simp [hc])⟩
    have := lowerBound_absent hb (compare_stored_pos hh hhi)
    simp [this]

/-- `InternalIndexNodeHandler::lookup` finds the last child whose separator is not above the key. -/
theorem internalLookup_eq (hh : h.Orders) {key : Key A} {lo hi : List (Child A)} {c : Child A}
    (hlo : (lo ++ [c]).Pairwise fun a b => a.1 < b.1) (hc : c.1 ≤ key)
    (hhi : ∀ c ∈ hi, (key : WithBot (Key A)) < c.1) :
    internalLookup h (stored h (lo ++ c :: hi)) key = lo.length := by
  have hpos := compare_stored_pos hh hhi
  have hnext : ∀ item, (stored h hi)[0]? = some item → h.compare key item.1 < 0 := by
    intro item hitem
    exact (hh.lt_iff _ _).mpr ((hh.gt_iff _ _).mp (hpos item (List.mem_of_getElem? hitem)))
  unfold internalLookup
  rw [if_neg (by cases lo <;> simp)]
  -- `lookup` never compares with key 0: child 0 is found when key 1 is above the key
  cases lo with
  | nil =>
    have hp : internalPosition h (stored h ([] ++ c :: hi)) key = 1 := by
      have hl := lowerBound_absent (List.forall_mem_nil _) hpos
      unfold internalPosition
      simpa using congrArg Prod.fst hl
    rw [hp]
    simp only [List.nil_append, stored_cons, List.getElem?_cons_succ, List.length_nil]
    cases hx : (stored h hi)[0]? with
    | none => rfl
    | some item => simp [hnext item hx]
  | cons a lo =>
    obtain ⟨ha, hlo⟩ := List.pairwise_cons.mp hlo
    have hneg : ∀ x ∈ stored h lo, h.compare x.1 key < 0 := by
      refine compare_stored_neg hh (b := a.1) fun x hx => ⟨ha x (by simp [hx]), ?_⟩
      exact ((List.pairwise_append.mp hlo).2.2 x hx c (by simp)).trans_le hc
    obtain ⟨k, hk⟩ := WithBot.ne_bot_iff_exists.mp (bot_le.trans_lt (ha c (by simp))).ne'
    rw [← hk, WithBot.coe_le_coe] at hc
    -- the lower bound is behind the separator if that is below the key, and at it if equal
    rcases hc.lt_or_eq with hlt | heq
    · have hp : internalPosition h (stored h (a :: lo ++ c :: hi)) key = lo.length + 2 := by
        have hlow : ∀ x ∈ stored h lo ++ stored h [c], h.compare x.1 key < 0 := by
          intro x hx
          rcases List.mem_append.mp hx with hx | hx
          · exact hneg x hx
          · have hxk : x.1 = k := by simp [← hk] at hx; simp [hx]
            rw [hxk]
            exact (hh.lt_iff _ _).mpr hlt
        have hl := lowerBound_absent hlow hpos
        unfold internalPosition
        simpa using congrArg Prod.fst hl
      rw [hp]
      have hget : (stored h (a :: lo ++ c :: hi))[lo.length + 2]? = (stored h hi)[0]? := by
        simp only [List.cons_append, stored_cons, stored_append, List.getElem?_cons_succ]
        rw [List.getElem?_append_right (by simp)]
        simp
      simp only [hget]
      cases hx : (stored h hi)[0]? with
      | none => simp
      | some item => simp [hnext item hx]
    · have hp : internalPosition h (stored h (a :: lo ++ c :: hi)) key = lo.length + 1 := by
        have hl := lowerBound_present
          (y := (c.1.unbotD h.zeroKey, c.2)) hneg ?_ hpos
        · unfold internalPosition
          simpa using congrArg Prod.fst hl
        · exact (hh.eq_iff _ _).mpr (by simp [← hk, heq])
      rw [hp]
      have hget : (stored h (a :: lo ++ c :: hi))[lo.length + 1]? =
          some (c.1.unbotD h.zeroKey, c.2) := by
        simp only [List.cons_append, stored_cons, stored_append, List.getElem?_cons_succ]
        rw [List.getElem?_append_right (by simp)]
        simp
      simp only [hget]
      have hzero : h.compare key (c.1.unbotD h.zeroKey) = 0 :=
        (hh.eq_iff _ _).mpr (by simp [← hk, heq])
      simp [hzero]

end search

end TDB
