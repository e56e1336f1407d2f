import TDB.TreeLeaves

namespace TDB

open BplusTreeHandler Exec

variable {A : Type}

/-! ## The descent to a leaf -/

/-- One page was pinned and nothing else changed. -/
structure Reaches (s : BplusTreeHandler A) (p : PageNum) (s' : BplusTreeHandler A) : Prop where
  quiet : Quiet s s' (ref p)
  page : s'.page = s.page
  cached : s'.cached p

theorem reaches_pin {s : BplusTreeHandler A} {p : PageNum} (hp : s.page p ≠ none) :
    Reaches s p (s.update p Frame.pin) :=
  ⟨Quiet.pin hp, page_pin s p, (cached_update s p p _).mpr (Or.inr ⟨rfl, hp⟩)⟩

/-- The step of the loop: the page goes back and the next one is pinned. -/
theorem Reaches.step {s s₁ : BplusTreeHandler A} {p q : PageNum} (hr : Reaches s p s₁)
    (hp : s.page p ≠ none) (hq : s.page q ≠ none) :
    Reaches s q ((s₁.update p Frame.unpin).update q Frame.pin) := by
  have hp₁ : s₁.page p ≠ none := by rwa [hr.page]
  have hq₁ : (s₁.update p Frame.unpin).page q ≠ none := by simpa [hr.page] using hq
  have hpin := reaches_pin hq₁
  refine ⟨((hr.quiet.trans (Quiet.unpin hp₁)).trans hpin.quiet).congr (by simp), ?_, hpin.cached⟩
  rw [page_pin, page_unpin, hr.page]

variable [LinearOrder (Key A)] {h : IndexFileHeader A} {r : Regime A}
  {s : BplusTreeHandler A} {lo : ℕ}

/-- What a `child_page_getter` looks for: `P front c back` says that `c` is the wanted child of a
row, and the getter finds it among the children of its parent. -/
structure Descent (h : IndexFileHeader A) (getter : List (Key A × PageNum) → TreeM A PageNum)
    (P : List (Child A) → Child A → List (Child A) → Prop) : Prop where
  up : ∀ {pre post : Level A} {y : Inner A} {a b : List (Child A)} {c : Child A},
    (∀ z ∈ pre ++ y :: post, z.kids ≠ []) → Increasing (kidsOf (pre ++ y :: post)) →
    y.kids = a ++ c :: b → P (kidsOf pre ++ a) c (b ++ kidsOf post) →
    P (heads pre) y.asChild (heads post)
  choose : ∀ {pre post : Level A} {a b : List (Child A)} {c : Child A},
    Increasing (a ++ c :: b) → P (kidsOf pre ++ a) c (b ++ kidsOf post) →
    ∀ (s : BplusTreeHandler A) (Q : PageNum → BplusTreeHandler A → Prop),
      Returns (getter (stored h (a ++ c :: b))) s Q ↔ Q c.2 s

/-- The loop of `find_leaf_internal` comes from the root to the wanted child of a row. -/
theorem Descent.returns_descend {getter : List (Key A × PageNum) → TreeM A PageNum}
    {P : List (Child A) → Child A → List (Child A) → Prop} (hd : Descent h getter P)
    {short : Option PageNum} : ∀ {levs : List (Level A)} {front back : List (Child A)}
      {c : Child A} (fuel : ℕ), Over h s lo short (front ++ c :: back) levs → P front c back →
      ∃ s₁, Reaches s c.2 s₁ ∧ ∀ Q, Returns (descend getter fuel c.2) s₁ Q →
        Returns (descend getter (fuel + levs.length) s.rootPage)
          (s.update s.rootPage Frame.pin) Q
  | [], front, back, c, fuel, ho, _ => by
    obtain ⟨k, hcur, hroot⟩ := ho.above
    have hc : c.2 = s.rootPage := by
      have hmem : c ∈ front ++ c :: back := by simp
      rw [hcur] at hmem
      rw [List.mem_singleton.mp hmem]
    refine ⟨s.update s.rootPage Frame.pin, ?_, fun Q hQ => by simpa [hc] using hQ⟩
    rw [hc]
    exact reaches_pin (page_ne_none_of_parentPage (by simp [hroot]))
  | lev :: rest, front, back, c, fuel, ho, hP => by
    obtain ⟨pre, y, post, a, b, rfl, hkids, rfl, rfl⟩ := ho.locate
    have hnodes := ho.above.2.1
    have hinc : Increasing (kidsOf (pre ++ y :: post)) := by
      rw [ho.above.1]
      exact ho.increasing
    have hup := hd.up (fun z hz => (hnodes z hz).nonempty) hinc hkids hP
    have hover : Over h s lo short (heads pre ++ y.asChild :: heads post) rest := by
      simpa using ho.up
    -- on the rows from the bottom: the steps above end at `y`, and one more chooses its child `c`
    obtain ⟨s₁, hr, hrun⟩ := hd.returns_descend (fuel + 1) hover hup
    have hy := hnodes y (by simp)
    obtain ⟨par, hpar⟩ := ho.above.row_page (y := y) (by simp)
    have hpage : s₁.page y.page = some (.internal par (stored h (a ++ c :: b))) := by
      rw [hr.page, hpar, hkids]
    have hypage : s.page y.page ≠ none := by rw [← hr.page, hpage]; simp
    have hcpage : s.page c.2 ≠ none :=
      page_ne_none_of_parentPage (by rw [hy.parent c (by simp [hkids])]; simp)
    refine ⟨_, hr.step hypage hcpage, fun Q hQ => ?_⟩
    rw [List.length_cons, Nat.add_comm rest.length 1, ← Nat.add_assoc]
    apply hrun
    have hincKids : Increasing (a ++ c :: b) := by
      rw [← hkids]
      exact ho.increasing_kids (by simp)
    unfold descend
    simp only [Inner.asChild, returns_bind]
    rw [returns_node hpage (by simp [Page.isLeaf])]
    simp only [returns_bind]
    rw [hd.choose hincKids hP]
    simp only [returns_unpinPage]
    rw [returns_getThisPage (by simpa [hr.page] using hcpage)]
    simpa [Inner.asChild] using hQ

theorem Over.root_page_ne_none {short : Option PageNum} {cur : List (Child A)}
    {levs : List (Level A)} (ho : Over h s lo short cur levs) : s.page s.rootPage ≠ none := by
  rcases List.mem_append.mp ho.above.rootPage_mem with hm | hm
  · exact page_ne_none_of_parentPage (ho.above.parentPage_ne_none hm)
  · obtain ⟨lev, hlev, hm⟩ := List.mem_flatMap.mp hm
    obtain ⟨y, hy, heq⟩ := List.mem_map.mp hm
    rw [← heq]
    exact page_ne_none_of_body (ho.above.nodeAt hlev hy).body

theorem Descent.returns_findLeafInternal {getter : List (Key A × PageNum) → TreeM A PageNum}
    {P : List (Child A) → Child A → List (Child A) → Prop} (hd : Descent h getter P)
    {pre post : List (Leaf A)} {l : Leaf A} {levs : List (Level A)}
    (ht : Shape h r s lo (pre ++ l :: post) levs)
    (hP : P (leafHeads pre) l.asChild (leafHeads post)) :
    Returns (findLeafInternal getter) s fun r s' => r = (.success, l.page) ∧
      Reaches s l.page s' := by
  obtain ⟨fuel, hfuel⟩ : ∃ fuel, s.fileBufferPool.fileHeader.pageCount =
      fuel + 1 + levs.length := by
    have := ht.isOver.length_lt
    exact ⟨s.fileBufferPool.fileHeader.pageCount - levs.length - 1, by omega⟩
  have hrootpage := ht.isOver.root_page_ne_none
  have hover : Over h s lo none (leafHeads pre ++ l.asChild :: leafHeads post) levs := by
    simpa using ht.isOver
  obtain ⟨s₁, hr, hrun⟩ := hd.returns_descend (fuel + 1) hover hP
  obtain ⟨par, next, -, hpage, -⟩ := ht.page_leaf
  unfold findLeafInternal
  simp only [returns_bind, returns_get, ht.isOver.isEmpty_eq, Bool.false_eq_true, ↓reduceIte]
  rw [returns_getThisPage hrootpage]
  simp only [fail_success, Bool.false_eq_true, ↓reduceIte, returns_bind, returns_linkBound,
    fileHeader_update, hfuel]
  apply hrun
  unfold descend
  rw [returns_bind, returns_node (d := .leaf par next l.items) (by rw [hr.page]; exact hpage)
    (by simp [Page.isLeaf])]
  simpa using hr

/-! ## `find_leaf` and `left_most_page` -/

/-- The child to descend to for a key: the last one whose separator is not above it. -/
def Holds (key : Key A) (_front : List (Child A)) (c : Child A) (back : List (Child A)) : Prop :=
  c.1 ≤ (key : WithBot (Key A)) ∧ ∀ x ∈ back, (key : WithBot (Key A)) < x.1

theorem descent_findLeaf (hh : h.Orders) (key : Key A) :
    Descent h (fun items => do
      let item ← itemAt items (internalLookup h items key)
      return item.2) (Holds key) where
  up := by
    intro pre post y a b c hne hinc hkids hP
    rw [kidsOf_append, kidsOf_cons, hkids] at hinc
    constructor
    · have hsep : y.sep ≤ c.1 := by
        cases a with
        | nil => rw [Inner.sep_eq hkids]
        | cons x a =>
          rw [Inner.sep_eq hkids]
          have := (List.pairwise_append.mp (List.pairwise_append.mp hinc).2.1).1
          exact ((List.pairwise_append.mp this).2.2 x (by simp) c (by simp)).le
      exact hsep.trans hP.1
    · intro x hx
      obtain ⟨z, hz, rfl⟩ := List.mem_map.mp hx
      obtain ⟨c', rest, hzk⟩ := List.exists_cons_of_ne_nil (hne z (by simp [hz]))
      have : c' ∈ kidsOf post := List.mem_flatMap.mpr ⟨z, hz, by simp [hzk]⟩
      have hlt := hP.2 c' (by simp [this])
      simpa [Inner.asChild, Inner.sep_eq hzk] using hlt
  choose := by
    intro pre post a b c hinc hP s Q
    have hlo : Increasing (a ++ [c]) := by
      refine hinc.sublist (List.Sublist.append_left ?_ a)
      simp
    rw [internalLookup_eq hh hlo hP.1 fun x hx => hP.2 x (by simp [hx]), returns_bind,
      returns_itemAt (i := a.length) (x := (c.1.unbotD h.zeroKey, c.2)) rfl (by simp)]
    simp

theorem descent_leftMostPage :
    Descent h (fun items => do
      let item ← itemAt items 0
      return item.2) (fun front (_ : Child A) _ => front = []) where
  up := by
    intro pre post y a b c hne _ _ hP
    have hpre : kidsOf pre = [] := (List.append_eq_nil_iff.mp hP).1
    cases pre with
    | nil => rfl
    | cons z pre =>
      rw [kidsOf_cons, List.append_eq_nil_iff] at hpre
      exact absurd hpre.1 (hne z (by simp))
  choose := by
    intro pre post a b c _ hP s Q
    obtain rfl : a = [] := (List.append_eq_nil_iff.mp hP).2
    rw [returns_bind, returns_itemAt (i := 0) (x := (c.1.unbotD h.zeroKey, c.2)) (by simp)
      (by simp)]
    simp

def LeafFor (key : Key A) (l : Leaf A) (post : List (Leaf A)) : Prop :=
  l.sep ≤ (key : WithBot (Key A)) ∧ ∀ l' ∈ post, (key : WithBot (Key A)) < l'.sep

theorem returns_findLeaf (hh : h.Orders) {key : Key A} {pre post : List (Leaf A)} {l : Leaf A}
    {levs : List (Level A)} (ht : Shape h r s lo (pre ++ l :: post) levs)
    (hl : LeafFor key l post) :
    Returns (findLeaf h key) s fun r s' => r = (.success, l.page) ∧ Reaches s l.page s' := by
  refine (descent_findLeaf hh key).returns_findLeafInternal ht ⟨hl.1, fun x hx => ?_⟩
  obtain ⟨l', hl', rfl⟩ := List.mem_map.mp hx
  exact hl.2 l' hl'

theorem returns_leftMostPage {post : List (Leaf A)} {l : Leaf A} {levs : List (Level A)}
    (ht : Shape h r s lo (l :: post) levs) :
    Returns leftMostPage s fun r s' => r = (.success, l.page) ∧ Reaches s l.page s' :=
  descent_leftMostPage.returns_findLeafInternal
    (show Shape h r s lo ([] ++ l :: post) levs from ht) rfl

theorem Shape.exists_leafFor {leaves : List (Leaf A)} {levs : List (Level A)}
    (ht : Shape h r s lo leaves levs) (key : Key A) :
    ∃ pre l post, leaves = pre ++ l :: post ∧ LeafFor key l post := by
  -- the last leaf whose separator is not above the key; the first one has none below it
  have hsuff : ∀ {leaves : List (Leaf A)}, (∀ l ∈ leaves.head?, l.sep ≤ (key : WithBot (Key A))) →
      (leafHeads leaves).Pairwise (fun a b => a.1 < b.1) → leaves ≠ [] →
      ∃ pre l post, leaves = pre ++ l :: post ∧ LeafFor key l post := by
    intro leaves
    induction leaves with
    | nil => exact fun _ _ hne => absurd rfl hne
    | cons l rest ih =>
      intro hhead hinc _
      rw [leafHeads_cons, List.pairwise_cons] at hinc
      cases rest with
      | nil => exact ⟨[], l, [], rfl, hhead l (by simp), by simp⟩
      | cons l₂ rest =>
        by_cases hle : l₂.sep ≤ (key : WithBot (Key A))
        · obtain ⟨pre, l', post, heq, hfor⟩ := ih (by simpa using hle) hinc.2 (by simp)
          exact ⟨l :: pre, l', post, by simp [heq], hfor⟩
        · refine ⟨[], l, l₂ :: rest, rfl, hhead l (by simp), fun l' hl' => ?_⟩
          rw [not_le] at hle
          rcases List.mem_cons.mp hl' with rfl | hl'
          · exact hle
          · have := (List.pairwise_cons.mp hinc.2).1 l'.asChild (List.mem_map_of_mem hl')
            exact hle.trans this
  refine hsuff ?_ ht.isOver.increasing ht.ne_nil
  intro l hl
  have := ht.isOver.leftmost l.asChild (by
    cases leaves with
    | nil => simp at hl
    | cons x xs => simpa using congrArg Leaf.asChild (by simpa using hl : x = l))
  rw [asChild_fst] at this
  simp [this]

end TDB
