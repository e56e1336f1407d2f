import Mathlib.Algebra.Order.BigOperators.Group.List
import TDB.RangeScan
import TDB.WellFormed

namespace TDB

open BplusTreeHandler BplusTreeScanner Exec

variable {A : Type}

/-! ## The pages of a well-formed tree -/

def pagesUnder (s : BplusTreeHandler A) : ℕ → PageNum → List PageNum
  | 0, p => [p]
  | depth + 1, p =>
    match s.page p with
    | some (.internal _ items) => p :: items.flatMap fun item => pagesUnder s depth item.2
    | _ => [p]

def InFile (s : BplusTreeHandler A) : Prop :=
  ∀ depth, ∀ p ∈ pagesUnder s depth s.rootPage,
    0 ≤ p ∧ p < s.fileBufferPool.fileHeader.pageCount

def leafItems (s : BplusTreeHandler A) (p : PageNum) : List (Key A × RID) :=
  match s.page p with
  | some (.leaf _ _ items) => items
  | _ => []

theorem leafItems_eq {s : BplusTreeHandler A} {p parent next : PageNum}
    {items : List (Key A × RID)} (hp : s.page p = some (.leaf parent next items)) :
    leafItems s p = items := by
  rw [leafItems, hp]

def rowUnder (s : BplusTreeHandler A) (depth : ℕ) (p : PageNum) : LeafRow A :=
  (leavesUnder s depth p).map fun q => (q, leafItems s q)

section pages

variable {s : BplusTreeHandler A} {p parent : PageNum} {items : List (Key A × PageNum)}

theorem leavesUnder_succ (depth : ℕ) (hp : s.page p = some (.internal parent items)) :
    leavesUnder s (depth + 1) p = items.flatMap fun item => leavesUnder s depth item.2 := by
  rw [leavesUnder, hp]

theorem pagesUnder_succ (depth : ℕ) (hp : s.page p = some (.internal parent items)) :
    pagesUnder s (depth + 1) p = p :: items.flatMap fun item => pagesUnder s depth item.2 := by
  rw [pagesUnder, hp]

theorem keysUnder_succ (depth : ℕ) (hp : s.page p = some (.internal parent items)) :
    keysUnder s (depth + 1) p =
      items.tail.map Prod.fst ++ items.flatMap fun item => keysUnder s depth item.2 := by
  rw [keysUnder, hp]

theorem rowUnder_succ (depth : ℕ) (hp : s.page p = some (.internal parent items)) :
    rowUnder s (depth + 1) p = items.flatMap fun item => rowUnder s depth item.2 := by
  rw [rowUnder, leavesUnder_succ depth hp, List.map_flatMap]
  rfl

theorem self_mem_pagesUnder (s : BplusTreeHandler A) (depth : ℕ) (p : PageNum) :
    p ∈ pagesUnder s depth p := by
  cases depth with
  | zero => exact List.mem_cons_self
  | succ depth =>
    unfold pagesUnder
    split
    · exact List.mem_cons_self
    · exact List.mem_cons_self

end pages

variable {h : IndexFileHeader A} {s : BplusTreeHandler A}

theorem SubtreeOk.mem_keysUnder {depth : ℕ} {spine : Prop} {parent p : PageNum}
    (hok : SubtreeOk h s depth spine parent p) {x : Key A × RID}
    (hx : x ∈ rowEntries (rowUnder s depth p)) : x.1 ∈ keysUnder s depth p := by
  induction depth generalizing spine parent p with
  | zero =>
    obtain ⟨next, items, hp, -⟩ := hok
    rw [rowUnder, leavesUnder, List.map_singleton, rowEntries_cons, rowEntries_nil,
      List.append_nil, leafItems_eq hp] at hx
    rw [keysUnder, hp]
    exact List.mem_map_of_mem hx
  | succ depth ih =>
    obtain ⟨items, hp, -, -, -, hchildren⟩ := hok
    rw [rowUnder_succ depth hp, rowEntries, List.flatMap_assoc, List.mem_flatMap] at hx
    obtain ⟨item, hitem, hx⟩ := hx
    obtain ⟨i, hi⟩ := List.getElem?_of_mem hitem
    rw [keysUnder_succ depth hp]
    exact List.mem_append_right _ (List.mem_flatMap.mpr
      ⟨item, hitem, ih (hchildren i item hi).1 hx⟩)

/-- The leaves of a subtree stand on pages of its own, are not empty and not too large. -/
theorem SubtreeOk.row_leaf {depth : ℕ} {spine : Prop} {parent p : PageNum}
    (hok : SubtreeOk h s depth spine parent p) {l : PageNum × List (Key A × RID)}
    (hl : l ∈ rowUnder s depth p) :
    l.1 ∈ pagesUnder s depth p ∧ l.2 ≠ [] ∧ l.2.length ≤ h.leafMaxSize := by
  induction depth generalizing spine parent p with
  | zero =>
    obtain ⟨next, items, hp, -, hne, hsize⟩ := hok
    rw [rowUnder, leavesUnder, List.map_singleton, List.mem_singleton] at hl
    subst hl
    refine ⟨self_mem_pagesUnder s 0 p, ?_⟩
    rw [leafItems_eq hp]
    exact ⟨hne, hsize⟩
  | succ depth ih =>
    obtain ⟨items, hp, -, -, -, hchildren⟩ := hok
    rw [rowUnder_succ depth hp, List.mem_flatMap] at hl
    obtain ⟨item, hitem, hl⟩ := hl
    obtain ⟨i, hi⟩ := List.getElem?_of_mem hitem
    obtain ⟨hpage, hne⟩ := ih (hchildren i item hi).1 hl
    refine ⟨?_, hne⟩
    rw [pagesUnder_succ depth hp]
    exact List.mem_cons_of_mem _ (List.mem_flatMap.mpr ⟨item, hitem, hpage⟩)

theorem SubtreeOk.depth_eq {depth depth' : ℕ} {spine spine' : Prop} {parent parent' p : PageNum}
    (hok : SubtreeOk h s depth spine parent p) (hok' : SubtreeOk h s depth' spine' parent' p) :
    depth = depth' := by
  induction depth generalizing depth' spine spine' parent parent' p with
  | zero =>
    cases depth' with
    | zero => rfl
    | succ depth' =>
      obtain ⟨next, items, hp, -⟩ := hok
      obtain ⟨items', hp', -⟩ := hok'
      rw [hp] at hp'
      cases hp'
  | succ depth ih =>
    obtain ⟨items, hp, -, hne, -, hchildren⟩ := hok
    cases depth' with
    | zero =>
      obtain ⟨next, items', hp', -⟩ := hok'
      rw [hp] at hp'
      cases hp'
    | succ depth' =>
      obtain ⟨items', hp', -, -, -, hchildren'⟩ := hok'
      rw [hp, Option.some.injEq, Page.internal.injEq] at hp'
      obtain ⟨-, rfl⟩ := hp'
      obtain ⟨item, rest, rfl⟩ := List.exists_cons_of_ne_nil hne
      exact congrArg (· + 1) (ih (hchildren 0 item rfl).1 (hchildren' 0 item rfl).1)

/-- A subtree has more pages than internal nodes above each leaf. -/
theorem SubtreeOk.exists_path {depth : ℕ} {spine : Prop} {parent p : PageNum}
    (hok : SubtreeOk h s depth spine parent p) :
    ∃ path : List PageNum, path.Nodup ∧ path.length = depth + 1 ∧
      (∀ q ∈ path, q ∈ pagesUnder s depth p) ∧
      ∀ q ∈ path, ∃ d ≤ depth, ∃ spine' parent', SubtreeOk h s d spine' parent' q := by
  induction depth generalizing spine parent p with
  | zero =>
    refine ⟨[p], by simp, rfl, ?_, ?_⟩
    · intro q hq
      rw [List.mem_singleton.mp hq]
      exact self_mem_pagesUnder s 0 p
    · intro q hq
      rw [List.mem_singleton.mp hq]
      exact ⟨0, le_rfl, spine, parent, hok⟩
  | succ depth ih =>
    have hroot := hok
    obtain ⟨items, hp, -, hne, -, hchildren⟩ := hok
    obtain ⟨item, rest, rfl⟩ := List.exists_cons_of_ne_nil hne
    obtain ⟨path, hnodup, hlength, hmem, hdepth⟩ := ih (hchildren 0 item rfl).1
    refine ⟨p :: path, ?_, by rw [List.length_cons, hlength], ?_, ?_⟩
    · refine List.nodup_cons.mpr ⟨fun hp' => ?_, hnodup⟩
      obtain ⟨d, hd, spine', parent', hok'⟩ := hdepth p hp'
      have heq := hroot.depth_eq hok'
      omega
    · intro q hq
      rw [pagesUnder_succ depth hp]
      rcases List.mem_cons.mp hq with rfl | hq
      · exact List.mem_cons_self
      · exact List.mem_cons_of_mem _ (List.mem_flatMap.mpr ⟨item, List.mem_cons_self, hmem q hq⟩)
    · intro q hq
      rcases List.mem_cons.mp hq with rfl | hq
      · exact ⟨depth + 1, le_rfl, spine, parent, hroot⟩
      · obtain ⟨d, hd, hok'⟩ := hdepth q hq
        exact ⟨d, by omega, hok'⟩

theorem SubtreeOk.depth_lt {depth : ℕ} {spine : Prop} {parent : PageNum}
    (hok : SubtreeOk h s depth spine parent s.rootPage) (hfile : InFile s) :
    depth < s.fileBufferPool.fileHeader.pageCount := by
  obtain ⟨path, hnodup, hlength, hmem, -⟩ := hok.exists_path
  have hle := length_le_pageCount hnodup fun q hq => hfile depth q (hmem q hq)
  rwa [hlength] at hle

/-! ## The descent in a well-formed tree -/

section descent

variable [LinearOrder (Key A)]

/-- `InternalIndexNodeHandler::lookup` over the items of a node, whose key 0 it does not read. -/
theorem exists_internalLookup (hh : h.Orders) {items : List (Key A × PageNum)} (hne : items ≠ [])
    (hinc : items.tail.Pairwise fun a b => a.1 < b.1) (key : Key A) :
    ∃ front item back, items = front ++ item :: back ∧
      internalLookup h items key = front.length ∧ (front ≠ [] → item.1 ≤ key) ∧
      ∀ x ∈ back, key < x.1 := by
  obtain ⟨c, tail, rfl⟩ := List.exists_cons_of_ne_nil hne
  rw [List.tail_cons] at hinc
  obtain ⟨lo, hi, rfl, hlo, hhi, htail⟩ := exists_cut key hinc
  have hposition : internalPosition h (c :: (lo ++ hi)) key = lo.length + 1 := by
    have hbound := lowerBound_append (fun x hx => (hh.lt_iff _ _).mpr (hlo x hx))
      (fun x hx => not_lt.mp fun hneg => (hhi x hx).not_gt ((hh.lt_iff _ _).mp hneg))
      fun x hx => (hh.gt_iff _ _).mpr (htail x hx)
    unfold internalPosition
    rw [if_neg hne, List.tail_cons, hbound]
  have hget : (c :: (lo ++ hi))[lo.length + 1]? = hi[0]? := by
    rw [List.getElem?_cons_succ, List.getElem?_append_right le_rfl, Nat.sub_self]
  have hlast : ∃ front item, c :: lo = front ++ [item] ∧ front.length = lo.length ∧
      (front ≠ [] → item.1 ≤ key) := by
    rcases List.eq_nil_or_concat lo with rfl | ⟨lo', item, rfl⟩
    · exact ⟨[], c, rfl, rfl, fun hne => absurd rfl hne⟩
    · exact ⟨c :: lo', item, by simp, by simp, fun _ => (hlo item (by simp)).le⟩
  obtain ⟨front, item, hfront, hlength, hle⟩ := hlast
  have hsplit : c :: (lo ++ hi) = front ++ item :: hi := by
    rw [← List.cons_append, hfront, List.append_assoc]
    rfl
  unfold internalLookup
  rw [if_neg hne]
  dsimp only
  rw [hposition, hget]
  -- the separator at the cut decides whether `lookup` steps back
  cases hi with
  | nil => exact ⟨front, item, [], hsplit, hlength.symm, hle, by simp⟩
  | cons y hi =>
    simp only [List.getElem?_cons_zero]
    by_cases hlt : h.compare key y.1 < 0
    · rw [if_pos hlt]
      refine ⟨front, item, y :: hi, hsplit, hlength.symm, hle, fun x hx => ?_⟩
      rcases List.mem_cons.mp hx with rfl | hx
      · exact (hh.lt_iff _ _).mp hlt
      · exact htail x hx
    · rw [if_neg hlt]
      have hley : y.1 ≤ key := not_lt.mp fun hgt => hlt ((hh.lt_iff _ _).mpr hgt)
      exact ⟨c :: lo, y, hi, rfl, rfl, fun _ => hley, htail⟩

/-- A node of a well-formed tree: the entries under its children lie between its keys. -/
theorem SubtreeOk.node (hh : h.Orders) {depth : ℕ} {spine : Prop} {parent p : PageNum}
    (hok : SubtreeOk h s (depth + 1) spine parent p) :
    ∃ items, s.page p = some (.internal parent items) ∧ items ≠ [] ∧
      (items.tail.Pairwise fun a b => a.1 < b.1) ∧
      (∀ item ∈ items, ∃ spine', SubtreeOk h s depth spine' p item.2) ∧
      items.Pairwise fun a b => (∀ x ∈ rowEntries (rowUnder s depth a.2), x.1 < b.1) ∧
        ∀ y ∈ rowEntries (rowUnder s depth b.2), b.1 ≤ y.1 := by
  obtain ⟨items, hp, hinc, hne, -, hchildren⟩ := hok
  have hinc' : items.tail.Pairwise fun a b => a.1 < b.1 := hinc.imp fun hlt =>
    (hh.lt_iff _ _).mp hlt
  refine ⟨items, hp, hne, hinc', ?_, ?_⟩
  · intro item hitem
    obtain ⟨i, hi⟩ := List.getElem?_of_mem hitem
    exact ⟨_, (hchildren i item hi).1⟩
  · refine List.pairwise_iff_getElem.mpr fun i j hi hj hij => ⟨fun x hx => ?_, fun y hy => ?_⟩
    · obtain ⟨hchild, hkeys⟩ := hchildren i items[i] (List.getElem?_eq_getElem hi)
      have hi' : i + 1 < items.length := by omega
      have hlt := (hkeys x.1 (hchild.mem_keysUnder hx)).2 items[i + 1]
        (List.getElem?_eq_getElem hi')
      refine ((hh.lt_iff _ _).mp hlt).trans_le ?_
      rcases Nat.eq_or_lt_of_le (Nat.succ_le_of_lt hij) with heq | hlt
      · exact le_of_eq (by simp only [← heq, Nat.succ_eq_add_one])
      · have hpair := List.pairwise_iff_getElem.mp hinc' i (j - 1) (by rw [List.length_tail]; omega)
          (by rw [List.length_tail]; omega) (by omega)
        simp only [List.getElem_tail, Nat.sub_add_cancel (show 1 ≤ j by omega)] at hpair
        exact hpair.le
    · obtain ⟨hchild, hkeys⟩ := hchildren j items[j] (List.getElem?_eq_getElem hj)
      have hle := (hkeys y.1 (hchild.mem_keysUnder hy)).1.resolve_left fun hspine => by omega
      exact (hh.le_iff _ _).mp hle

omit [LinearOrder (Key A)] in
theorem rowEntries_flatMap {α : Type} (f : α → LeafRow A) (items : List α) :
    rowEntries (items.flatMap f) = items.flatMap fun item => rowEntries (f item) :=
  List.flatMap_assoc

theorem SubtreeOk.increasing (hh : h.Orders) {depth : ℕ} {spine : Prop} {parent p : PageNum}
    (hok : SubtreeOk h s depth spine parent p) :
    (rowEntries (rowUnder s depth p)).Pairwise fun a b => a.1 < b.1 := by
  induction depth generalizing spine parent p with
  | zero =>
    obtain ⟨next, items, hp, hinc, -⟩ := hok
    rw [rowUnder, leavesUnder, List.map_singleton, rowEntries_cons, rowEntries_nil,
      List.append_nil, leafItems_eq hp]
    exact hinc.imp fun hlt => (hh.lt_iff _ _).mp hlt
  | succ depth ih =>
    obtain ⟨items, hp, -, -, hchildren, hbetween⟩ := hok.node hh
    rw [rowUnder_succ depth hp, rowEntries_flatMap, List.pairwise_flatMap]
    refine ⟨fun item hitem => ?_, hbetween.imp fun hab x hx y hy => ?_⟩
    · obtain ⟨spine', hchild⟩ := hchildren item hitem
      exact ih hchild
    · exact (hab.1 x hx).trans_le (hab.2 y hy)

/-- What a `child_page_getter` chooses in a well-formed tree: `F` holds of the leaves in front of
the wanted one and `B` of those behind it. -/
structure Chooses (h : IndexFileHeader A) (s : BplusTreeHandler A)
    (getter : List (Key A × PageNum) → TreeM A PageNum) (F B : LeafRow A → Prop) : Prop where
  front_nil : F []
  back_nil : B []
  front_append : ∀ row row', F row → F row' → F (row ++ row')
  back_append : ∀ row row', B row → B row' → B (row ++ row')
  choose : ∀ {depth : ℕ} {spine : Prop} {parent p : PageNum} {items : List (Key A × PageNum)},
    SubtreeOk h s (depth + 1) spine parent p → s.page p = some (.internal parent items) →
    ∃ front item back, items = front ++ item :: back ∧
      F (front.flatMap fun i => rowUnder s depth i.2) ∧
      B (back.flatMap fun i => rowUnder s depth i.2) ∧
      ∀ (s' : BplusTreeHandler A) (Q : PageNum → BplusTreeHandler A → Prop),
        Returns (getter items) s' Q ↔ Q item.2 s'

omit [LinearOrder (Key A)] in
theorem SubtreeOk.page_ne_none {depth : ℕ} {spine : Prop} {parent p : PageNum}
    (hok : SubtreeOk h s depth spine parent p) : s.page p ≠ none := by
  cases depth with
  | zero =>
    obtain ⟨next, items, hp, -⟩ := hok
    rw [hp]
    simp
  | succ depth =>
    obtain ⟨items, hp, -⟩ := hok
    rw [hp]
    simp

/-- The loop of `find_leaf_internal` in a well-formed subtree. -/
theorem SubtreeOk.returns_descend (hh : h.Orders)
    {getter : List (Key A × PageNum) → TreeM A PageNum} {F B : LeafRow A → Prop}
    (hc : Chooses h s getter F B) {depth : ℕ} {spine : Prop} {parent p : PageNum}
    (hok : SubtreeOk h s depth spine parent p) {s₁ : BplusTreeHandler A} (hr : Reaches s p s₁)
    {fuel : ℕ} (hfuel : depth < fuel) :
    ∃ pre l post, rowUnder s depth p = pre ++ l :: post ∧ F pre ∧ B post ∧
      Returns (descend getter fuel p) s₁ fun r s' => r = (.success, l.1) ∧ Reaches s l.1 s' := by
  obtain ⟨fuel, rfl⟩ := Nat.exists_eq_add_of_lt hfuel
  induction depth generalizing spine parent p s₁ fuel with
  | zero =>
    obtain ⟨next, items, hp, -⟩ := hok
    refine ⟨[], (p, leafItems s p), [], rfl, hc.front_nil, hc.back_nil, ?_⟩
    rw [Nat.zero_add]
    unfold descend
    rw [returns_bind, returns_node (d := .leaf parent next items) (by rw [hr.page]; exact hp)
      (by simp [Page.isLeaf])]
    simpa using hr
  | succ depth ih =>
    obtain ⟨items, hp, -, -, hchildren, -⟩ := hok.node hh
    obtain ⟨front, item, back, hitems, hF, hB, hget⟩ := hc.choose hok hp
    obtain ⟨spine', hchild⟩ := hchildren item (by rw [hitems]; simp)
    have hstep := hr.step hok.page_ne_none hchild.page_ne_none
    obtain ⟨pre, l, post, hrow, hpre, hpost, hdescend⟩ := ih hchild hstep fuel (by omega)
    refine ⟨front.flatMap (fun i => rowUnder s depth i.2) ++ pre, l,
      post ++ back.flatMap (fun i => rowUnder s depth i.2), ?_, hc.front_append _ _ hF hpre,
      hc.back_append _ _ hpost hB, ?_⟩
    · rw [rowUnder_succ depth hp, hitems, List.flatMap_append, List.flatMap_cons, hrow]
      simp
    · rw [show depth + 1 + fuel + 1 = (depth + fuel + 1) + 1 by omega]
      unfold descend
      rw [returns_bind, returns_node (d := .internal parent items) (by rw [hr.page]; exact hp)
        (by simp [Page.isLeaf])]
      simp only [returns_bind]
      rw [hget]
      simp only [returns_unpinPage]
      rw [returns_getThisPage (by simpa [hr.page] using hchild.page_ne_none)]
      simpa using hdescend

/-- `find_leaf` keeps smaller keys in front of its leaf and greater ones behind it. -/
theorem chooses_findLeaf (hh : h.Orders) (s : BplusTreeHandler A) (key : Key A) :
    Chooses h s (fun items => do
      let item ← itemAt items (internalLookup h items key)
      return item.2) (fun row => ∀ x ∈ rowEntries row, x.1 < key)
      (fun row => ∀ x ∈ rowEntries row, key < x.1) where
  front_nil := by simp
  back_nil := by simp
  front_append row row' hrow hrow' := by
    rw [rowEntries_append]
    exact fun x hx => (List.mem_append.mp hx).elim (hrow x) (hrow' x)
  back_append row row' hrow hrow' := by
    rw [rowEntries_append]
    exact fun x hx => (List.mem_append.mp hx).elim (hrow x) (hrow' x)
  choose := by
    intro depth spine parent p items hok hp
    obtain ⟨items', hp', hne, hinc, -, hbetween⟩ := hok.node hh
    rw [hp, Option.some.injEq, Page.internal.injEq] at hp'
    obtain ⟨-, rfl⟩ := hp'
    obtain ⟨front, item, back, rfl, hlookup, hle, hback⟩ := exists_internalLookup hh hne hinc key
    obtain ⟨-, hpair, hfront⟩ := List.pairwise_append.mp hbetween
    refine ⟨front, item, back, rfl, fun x hx => ?_, fun x hx => ?_, fun s' Q => ?_⟩
    · rw [rowEntries_flatMap] at hx
      obtain ⟨a, ha, hx⟩ := List.mem_flatMap.mp hx
      exact ((hfront a ha item List.mem_cons_self).1 x hx).trans_le (hle (List.ne_nil_of_mem ha))
    · rw [rowEntries_flatMap] at hx
      obtain ⟨b, hb, hx⟩ := List.mem_flatMap.mp hx
      exact (hback b hb).trans_le (((List.pairwise_cons.mp hpair).1 b hb).2 x hx)
    · rw [hlookup, returns_bind, returns_itemAt (i := front.length) (x := item) rfl (by simp)]
      simp

omit [LinearOrder (Key A)] in
theorem chooses_leftMostPage (s : BplusTreeHandler A) :
    Chooses h s (fun items => do
      let item ← itemAt items 0
      return item.2) (fun row => row = []) (fun _ => True) where
  front_nil := rfl
  back_nil := trivial
  front_append row row' hrow hrow' := by rw [hrow, hrow']; rfl
  back_append _ _ _ _ := trivial
  choose := by
    intro depth spine parent p items hok hp
    obtain ⟨items', hp', -, hne, -⟩ := hok
    rw [hp, Option.some.injEq, Page.internal.injEq] at hp'
    obtain ⟨-, rfl⟩ := hp'
    obtain ⟨item, back, rfl⟩ := List.exists_cons_of_ne_nil hne
    refine ⟨[], item, back, rfl, rfl, trivial, fun s' Q => ?_⟩
    rw [returns_bind, returns_itemAt (i := 0) (x := item) (by simp) (by simp)]
    simp

theorem SubtreeOk.returns_findLeafInternal (hh : h.Orders)
    {getter : List (Key A × PageNum) → TreeM A PageNum} {F B : LeafRow A → Prop}
    (hc : Chooses h s getter F B) {depth : ℕ} {spine : Prop} {parent : PageNum}
    (hok : SubtreeOk h s depth spine parent s.rootPage) (hroot : s.rootPage ≠ invalidPageNum)
    (hfile : InFile s) :
    ∃ pre l post, rowUnder s depth s.rootPage = pre ++ l :: post ∧ F pre ∧ B post ∧
      Returns (findLeafInternal getter) s fun r s' => r = (.success, l.1) ∧ Reaches s l.1 s' := by
  have hpin := reaches_pin hok.page_ne_none
  obtain ⟨pre, l, post, hrow, hF, hB, hdescend⟩ :=
    hok.returns_descend hh hc hpin (hok.depth_lt hfile)
  refine ⟨pre, l, post, hrow, hF, hB, ?_⟩
  have hempty : s.isEmpty = false := decide_eq_false hroot
  unfold findLeafInternal
  simp only [returns_bind, returns_get, hempty, Bool.false_eq_true, ↓reduceIte]
  rw [returns_getThisPage hok.page_ne_none]
  simpa only [fail_success, Bool.false_eq_true, ↓reduceIte, returns_bind, returns_linkBound,
    fileHeader_update] using hdescend

omit [LinearOrder (Key A)] in
theorem NextChain.page_leaf : ∀ {pages : List PageNum} {pre post : List PageNum} {p : PageNum},
    NextChain s pages → pages = pre ++ p :: post →
    ∃ parent, s.page p = some (.leaf parent (post.headD invalidPageNum) (leafItems s p))
  | _, [], post, p, hchain, rfl => by
    obtain ⟨⟨parent, items, hp⟩, -⟩ := hchain
    exact ⟨parent, by rw [leafItems_eq hp, hp]⟩
  | _, _ :: _, _, _, hchain, rfl => hchain.2.page_leaf rfl

omit [LinearOrder (Key A)] in
theorem SubtreeOk.entriesUnder_eq {depth fuel : ℕ} {spine : Prop} {parent p : PageNum}
    (hok : SubtreeOk h s depth spine parent p) (hfuel : depth < fuel) :
    entriesUnder s fuel p = rowEntries (rowUnder s depth p) := by
  obtain ⟨fuel, rfl⟩ := Nat.exists_eq_add_of_lt hfuel
  induction depth generalizing spine parent p with
  | zero =>
    obtain ⟨next, items, hp, -⟩ := hok
    rw [rowUnder, leavesUnder, List.map_singleton, rowEntries_cons, rowEntries_nil,
      List.append_nil, leafItems_eq hp, Nat.zero_add, entriesUnder, hp]
  | succ depth ih =>
    obtain ⟨items, hp, -, -, -, hchildren⟩ := hok
    rw [rowUnder_succ depth hp, rowEntries_flatMap,
      show depth + 1 + fuel + 1 = (depth + fuel + 1) + 1 by omega, entriesUnder, hp]
    refine List.flatMap_congr fun item hitem => ?_
    obtain ⟨i, hi⟩ := List.getElem?_of_mem hitem
    exact ih (hchildren i item hi).1 (by omega)

/-- A well-formed tree can be scanned, and its leaves hold the entries. -/
theorem WellFormed.readable (hh : h.Orders) {spine : Prop} (hw : WellFormed h s spine)
    (hroot : s.rootPage ≠ invalidPageNum) (hfile : InFile s) :
    ∃ row, Readable h s row ∧ rowEntries row = entries s := by
  obtain ⟨depth, hok, hchain⟩ := hw.resolve_left hroot
  have hdepth := hok.depth_lt hfile
  have hleaf : ∀ l ∈ rowUnder s depth s.rootPage,
      l.1 ∈ pagesUnder s depth s.rootPage ∧ l.2 ≠ [] ∧ l.2.length ≤ h.leafMaxSize :=
    fun l hl => hok.row_leaf hl
  refine ⟨rowUnder s depth s.rootPage, ⟨⟨?_, fun l hl => (hleaf l hl).2.1, ?_, by omega⟩,
    hok.increasing hh, fun key => ?_, ?_⟩, ?_⟩
  · intro pre l post hrow
    obtain ⟨pre', rest, hleaves, rfl, hrest⟩ := List.map_eq_append_iff.mp hrow
    obtain ⟨p, post', rfl, rfl, rfl⟩ := List.map_eq_cons_iff.mp hrest
    obtain ⟨parent', hp⟩ := hchain.page_leaf hleaves
    refine ⟨parent', ?_⟩
    rw [hp, rowHead, List.map_map]
    exact congrArg (fun next => some (Page.leaf parent' next (leafItems s p)))
      (congrArg (List.headD · invalidPageNum) (List.map_id post').symm)
  · intro l hl heq
    have hpos := (hfile depth l.1 (hleaf l hl).1).1
    rw [heq] at hpos
    exact absurd hpos (by decide)
  · exact hok.returns_findLeafInternal hh (chooses_findLeaf hh s key) hroot hfile
  · obtain ⟨pre, l, post, hrow, rfl, -, hdescend⟩ :=
      hok.returns_findLeafInternal hh (chooses_leftMostPage s) hroot hfile
    exact ⟨l, post, hrow, hdescend⟩
  · have hempty : s.isEmpty = false := decide_eq_false hroot
    rw [entries, hempty, hok.entriesUnder_eq hdepth]
    rfl

omit [LinearOrder (Key A)] in
/-- Leaves that share no entry stand on different pages. -/
theorem nodup_pages {f : PageNum → List (Key A × RID)} : ∀ {row : LeafRow A},
    (rowEntries row).Nodup → (∀ l ∈ row, l.2 = f l.1 ∧ l.2 ≠ []) → (row.map Prod.fst).Nodup
  | [], _, _ => List.nodup_nil
  | l :: rest, hnodup, hrow => by
    rw [rowEntries_cons, List.nodup_append] at hnodup
    obtain ⟨-, hrest, hdisjoint⟩ := hnodup
    refine List.nodup_cons.mpr ⟨fun hmem => ?_, nodup_pages hrest fun l' hl' =>
      hrow l' (List.mem_cons_of_mem _ hl')⟩
    obtain ⟨l', hl', hpage⟩ := List.mem_map.mp hmem
    obtain ⟨x, hx⟩ := List.exists_mem_of_ne_nil _ (hrow l (List.mem_cons_self ..)).2
    refine hdisjoint x hx x (List.mem_flatMap.mpr ⟨l', hl', ?_⟩) rfl
    rw [(hrow l' (List.mem_cons_of_mem _ hl')).1, hpage,
      ← (hrow l (List.mem_cons_self ..)).1]
    exact hx

/-- A well-formed tree has no more entries than fit into the leaves of its file. -/
theorem WellFormed.length_entries_le (hh : h.Orders) {spine : Prop} (hw : WellFormed h s spine)
    (hroot : s.rootPage ≠ invalidPageNum) (hfile : InFile s) :
    (entries s).length ≤ s.fileBufferPool.fileHeader.pageCount * h.leafMaxSize := by
  obtain ⟨depth, hok, -⟩ := hw.resolve_left hroot
  have hempty : s.isEmpty = false := decide_eq_false hroot
  have hentries : entries s = rowEntries (rowUnder s depth s.rootPage) := by
    rw [entries, hempty, ← hok.entriesUnder_eq (hok.depth_lt hfile)]
    rfl
  have hincreasing := hok.increasing hh
  have hnodup : ((rowUnder s depth s.rootPage).map Prod.fst).Nodup := by
    refine nodup_pages (f := leafItems s) ?_ fun l hl => ⟨?_, (hok.row_leaf hl).2.1⟩
    · refine hincreasing.imp ?_
      rintro a b hlt rfl
      exact lt_irrefl _ hlt
    · obtain ⟨q, hq, rfl⟩ := List.mem_map.mp hl
      rfl
  have hpages := length_le_pageCount hnodup fun p hp => by
    obtain ⟨l, hl, rfl⟩ := List.mem_map.mp hp
    exact hfile depth l.1 (hok.row_leaf hl).1
  have hsum : (rowEntries (rowUnder s depth s.rootPage)).length ≤
      (rowUnder s depth s.rootPage).length * h.leafMaxSize := by
    unfold rowEntries
    rw [List.length_flatMap]
    have hle : ∀ n ∈ (rowUnder s depth s.rootPage).map fun l => l.2.length,
        n ≤ h.leafMaxSize := by
      intro n hn
      obtain ⟨l, hl, rfl⟩ := List.mem_map.mp hn
      exact (hok.row_leaf hl).2.2
    simpa using List.sum_le_card_nsmul _ _ hle
  rw [List.length_map] at hpages
  rw [hentries]
  exact hsum.trans (Nat.mul_le_mul_right _ hpages)

end descent

end TDB
