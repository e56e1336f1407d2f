import Mathlib.Data.Finset.Card
import Mathlib.Order.Interval.Finset.Nat
import TDB.TreeLevels

namespace TDB

open BplusTreeHandler Exec

variable {A : Type}

/-! ## The leaves of a tree -/

structure Leaf (A : Type) where
  sep : WithBot (Key A)
  page : PageNum
  items : List (Key A × RID)

def Leaf.asChild (l : Leaf A) : Child A := (l.sep, l.page)

def leafHeads (leaves : List (Leaf A)) : List (Child A) := leaves.map Leaf.asChild

def entriesOf (leaves : List (Leaf A)) : List (Key A × RID) := leaves.flatMap Leaf.items

/-- The first page of a chain of leaves that goes on at `last`. -/
def chainHead (last : PageNum) : List (Leaf A) → PageNum
  | [] => last
  | l :: _ => l.page

section lists

variable {leaves leaves' : List (Leaf A)} {l : Leaf A}

@[simp] theorem leafHeads_nil : leafHeads ([] : List (Leaf A)) = [] := rfl

@[simp] theorem leafHeads_cons : leafHeads (l :: leaves) = l.asChild :: leafHeads leaves := rfl

@[simp] theorem leafHeads_append :
    leafHeads (leaves ++ leaves') = leafHeads leaves ++ leafHeads leaves' := List.map_append

@[simp] theorem entriesOf_nil : entriesOf ([] : List (Leaf A)) = [] := rfl

@[simp] theorem entriesOf_cons : entriesOf (l :: leaves) = l.items ++ entriesOf leaves :=
  List.flatMap_cons

@[simp] theorem entriesOf_append :
    entriesOf (leaves ++ leaves') = entriesOf leaves ++ entriesOf leaves' := List.flatMap_append

@[simp] theorem asChild_fst : l.asChild.1 = l.sep := rfl

@[simp] theorem asChild_snd : l.asChild.2 = l.page := rfl

theorem mem_leafPages (hl : l ∈ leaves) : l.page ∈ childPages (leafHeads leaves) :=
  mem_childPages.mpr ⟨l.asChild, List.mem_map_of_mem hl, rfl⟩

theorem mem_entriesOf {x : Key A × RID} : x ∈ entriesOf leaves ↔ ∃ l ∈ leaves, x ∈ l.items :=
  List.mem_flatMap

end lists

/-- The leaves stand on their pages.  If `chained`, they are linked in this order and the last
names `last`; an insertion that ran out of pages breaks the chain. -/
def Linked (s : BplusTreeHandler A) (chained : Prop) (last : PageNum) : List (Leaf A) → Prop
  | [] => True
  | l :: rest => (∃ next, s.body l.page = some (.leaf 0 next l.items) ∧
      (chained → next = chainHead last rest)) ∧ Linked s chained last rest

section linked

variable {s s' : BplusTreeHandler A} {chained : Prop} {last : PageNum}

theorem chainHead_append (xs ys : List (Leaf A)) :
    chainHead last (xs ++ ys) = chainHead (chainHead last ys) xs := by
  cases xs <;> rfl

theorem linked_append : ∀ {xs ys : List (Leaf A)},
    Linked s chained last (xs ++ ys) ↔
      Linked s chained (chainHead last ys) xs ∧ Linked s chained last ys
  | [], ys => by simp [Linked]
  | x :: xs, ys => by
    simp only [List.cons_append, Linked, chainHead_append, linked_append, and_assoc]

theorem Linked.congr : ∀ {leaves : List (Leaf A)}, Linked s chained last leaves →
    (∀ l ∈ leaves, s'.body l.page = s.body l.page) → Linked s' chained last leaves
  | [], _, _ => trivial
  | l :: rest, ⟨⟨next, hl, hnext⟩, hrest⟩, hb =>
    ⟨⟨next, (hb l (by simp)).trans hl, hnext⟩, hrest.congr fun x hx => hb x (by simp [hx])⟩

theorem linked_unchained : ∀ {leaves : List (Leaf A)},
    (∀ l ∈ leaves, ∃ next, s.body l.page = some (.leaf 0 next l.items)) →
    Linked s False last leaves
  | [], _ => trivial
  | l :: rest, hb => by
    obtain ⟨next, hl⟩ := hb l (by simp)
    exact ⟨⟨next, hl, False.elim⟩, linked_unchained fun x hx => hb x (by simp [hx])⟩

theorem Linked.body {pre post : List (Leaf A)} {l : Leaf A}
    (hl : Linked s chained last (pre ++ l :: post)) :
    ∃ next, s.body l.page = some (.leaf 0 next l.items) ∧
      (chained → next = chainHead last post) :=
  (linked_append.mp hl).2.1

/-- Some leaves of the chain are replaced by others; the first page stays the same. -/
theorem Linked.replace {pre post : List (Leaf A)} (mid mid' : List (Leaf A))
    (hl : Linked s chained last (pre ++ (mid ++ post)))
    (hhead : ∀ e, chainHead e mid' = chainHead e mid)
    (hmid : Linked s' chained (chainHead last post) mid')
    (hb : ∀ l, l ∈ pre ∨ l ∈ post → s'.body l.page = s.body l.page) :
    Linked s' chained last (pre ++ (mid' ++ post)) := by
  obtain ⟨hpre, hrest⟩ := linked_append.mp hl
  obtain ⟨-, hpost⟩ := linked_append.mp hrest
  rw [linked_append, linked_append, chainHead_append, hhead, ← chainHead_append]
  exact ⟨hpre.congr fun l h => hb l (Or.inl h), hmid, hpost.congr fun l h => hb l (Or.inr h)⟩

end linked

/-! ## Trees -/

/-- What is known of the calls that made a tree: `good` holds of every key that was put into it
(as a separator a key may outlive its entry), and if `chained`, no insertion has broken the chain
of the leaves. -/
structure Regime (A : Type) where
  good : Key A → Prop
  chained : Prop

/-- The regime after an insertion that may have broken the chain. -/
def Regime.unchained (r : Regime A) : Regime A := ⟨r.good, False⟩

variable [LinearOrder (Key A)] {h : IndexFileHeader A} {r : Regime A} {good : Key A → Prop}
  {s : BplusTreeHandler A} {lo leafLo : ℕ}

/-- The items of a leaf: increasing keys, none below the separator, each with its own `RID`. -/
structure LeafOk (good : Key A → Prop) (l : Leaf A) : Prop where
  increasing : l.items.Pairwise fun a b => a.1 < b.1
  sep_le : ∀ x ∈ l.items, l.sep ≤ (x.1 : WithBot (Key A))
  value : ∀ x ∈ l.items, x.2 = x.1.rid
  good_items : ∀ x ∈ l.items, good x.1
  good_sep : ∀ k : Key A, l.sep = (k : WithBot (Key A)) → good k

/-- The keys of the leaves on the left of a leaf are below its separator. -/
def Apart (leaves : List (Leaf A)) : Prop :=
  leaves.Pairwise fun l l' => ∀ x ∈ l.items, (x.1 : WithBot (Key A)) < l'.sep

/-- Leaves under rows of internal nodes.  An internal node other than the root has at least `lo`
children; the sizes of the leaves are left open. -/
structure Shape (h : IndexFileHeader A) (r : Regime A) (s : BplusTreeHandler A) (lo : ℕ)
    (leaves : List (Leaf A)) (levs : List (Level A)) : Prop where
  isOver : Over h s lo none (leafHeads leaves) levs
  linked : Linked s r.chained invalidPageNum leaves
  leafOk : ∀ l ∈ leaves, LeafOk r.good l
  apart : Apart leaves

/-- A tree: a leaf other than the root has at least `leafLo` items. -/
structure Tree (h : IndexFileHeader A) (r : Regime A) (s : BplusTreeHandler A) (lo leafLo : ℕ)
    (leaves : List (Leaf A)) (levs : List (Level A)) : Prop extends Shape h r s lo leaves levs where
  sized : ∀ l ∈ leaves, l.items.length ≤ h.leafMaxSize ∧
    (if levs = [] then 1 else leafLo) ≤ l.items.length

omit [LinearOrder (Key A)] in
/-- Rows over children end in one root, so there is a child. -/
theorem Above.ne_nil : ∀ {levs : List (Level A)} {cur : List (Child A)},
    Above h s cur levs → cur ≠ []
  | [], cur, ⟨k, hcur, _⟩ => by simp [hcur]
  | lev :: rest, cur, ⟨hkids, hnodes, habove⟩ => by
    obtain ⟨y, lev', rfl⟩ := List.exists_cons_of_ne_nil (l := lev) (by
      rintro rfl
      exact habove.ne_nil rfl)
    rw [← hkids, kidsOf_cons]
    simp [(hnodes y (by simp)).nonempty]

theorem Shape.ne_nil {leaves : List (Leaf A)} {levs : List (Level A)}
    (ht : Shape h r s lo leaves levs) : leaves ≠ [] := by
  rintro rfl
  exact ht.isOver.above.ne_nil rfl

theorem entriesOf_increasing {leaves : List (Leaf A)} (hok : ∀ l ∈ leaves, LeafOk good l)
    (hapart : Apart leaves) : (entriesOf leaves).Pairwise fun a b => a.1 < b.1 := by
  unfold entriesOf
  rw [List.pairwise_flatMap]
  refine ⟨fun l hl => (hok l hl).increasing, ?_⟩
  refine hapart.imp_of_mem fun {l l'} _ hl' hlt x hx y hy => ?_
  exact WithBot.coe_lt_coe.mp ((hlt x hx).trans_le ((hok l' hl').sep_le y hy))

theorem Shape.congr {s' : BplusTreeHandler A} {leaves : List (Leaf A)} {levs : List (Level A)}
    (ht : Shape h r s lo leaves levs) (hroot : s'.rootPage = s.rootPage)
    (hp : ∀ p, s.allocated p → s'.page p = s.page p)
    (ha : ∀ p, s.allocated p → s'.allocated p) : Shape h r s' lo leaves levs := by
  have halloc := ht.isOver.allocated
  refine ⟨ht.isOver.congr hroot ?_ ?_ ?_, ht.linked.congr ?_, ht.leafOk, ht.apart⟩
  · exact fun p hp' => body_congr (hp p (halloc p (List.mem_append_right _ hp')))
  · exact fun p hp' => parentPage_congr (hp p (halloc p hp'))
  · exact fun p hp' => ha p (halloc p hp')
  · exact fun l hl => body_congr (hp _ (halloc _ (List.mem_append_left _ (mem_leafPages hl))))

theorem Tree.congr {s' : BplusTreeHandler A} {leaves : List (Leaf A)} {levs : List (Level A)}
    (ht : Tree h r s lo leafLo leaves levs) (hroot : s'.rootPage = s.rootPage)
    (hp : ∀ p, s.allocated p → s'.page p = s.page p)
    (ha : ∀ p, s.allocated p → s'.allocated p) : Tree h r s' lo leafLo leaves levs :=
  ⟨ht.toShape.congr hroot hp ha, ht.sized⟩

section order

variable {pre post : List (Leaf A)}

theorem leaves_setItems {l : Leaf A} {items : List (Key A × RID)}
    (hoks : ∀ m ∈ pre ++ l :: post, LeafOk good m) (hapart : Apart (pre ++ l :: post))
    (hok : LeafOk good ⟨l.sep, l.page, items⟩)
    (hlt : ∀ x ∈ items, ∀ l' ∈ post, (x.1 : WithBot (Key A)) < l'.sep) :
    (∀ m ∈ pre ++ ⟨l.sep, l.page, items⟩ :: post, LeafOk good m) ∧
      Apart (pre ++ ⟨l.sep, l.page, items⟩ :: post) := by
  constructor
  · intro m hm
    obtain rfl | hm := mem_row.mp hm
    · exact hok
    · exact hoks m (mem_row_of_other hm)
  · obtain ⟨h1, h2, h3⟩ := List.pairwise_append.mp hapart
    refine List.pairwise_append.mpr ⟨h1, List.pairwise_cons.mpr
      ⟨fun l' hl' x hx => hlt x hx l' hl', (List.pairwise_cons.mp h2).2⟩, fun x hx y hy => ?_⟩
    rcases List.mem_cons.mp hy with rfl | hy
    · exact h3 x hx l (by simp)
    · exact h3 x hx y (by simp [hy])

/-- A leaf cut in two, in order with the other leaves. -/
theorem leaves_split {p newFrame : PageNum} {sep : WithBot (Key A)} {key' : Key A} {v : RID}
    {left right : List (Key A × RID)}
    (hoks : ∀ m ∈ pre ++ ⟨sep, p, left ++ (key', v) :: right⟩ :: post, LeafOk good m)
    (hapart : Apart (pre ++ ⟨sep, p, left ++ (key', v) :: right⟩ :: post)) (hleft : left ≠ []) :
    (∀ m ∈ pre ++ ⟨sep, p, left⟩ :: ⟨key', newFrame, (key', v) :: right⟩ :: post, LeafOk good m) ∧
      Apart (pre ++ ⟨sep, p, left⟩ :: ⟨key', newFrame, (key', v) :: right⟩ :: post) := by
  obtain ⟨hinc, hsep, hval, hgood, hgsep⟩ := hoks ⟨sep, p, left ++ (key', v) :: right⟩ (by simp)
  simp only at hinc hsep hval hgood hgsep
  obtain ⟨h1, h2, h3⟩ := List.pairwise_append.mp hinc
  obtain ⟨h4, h5⟩ := List.pairwise_cons.mp h2
  obtain ⟨g1, g2, g3⟩ := List.pairwise_append.mp hapart
  obtain ⟨g4, g5⟩ := List.pairwise_cons.mp g2
  constructor
  · intro m hm
    obtain rfl | rfl | hm := mem_row_two.mp hm
    · exact ⟨h1, fun x hx => hsep x (by simp [hx]), fun x hx => hval x (by simp [hx]),
        fun x hx => hgood x (by simp [hx]), hgsep⟩
    · refine ⟨h2, fun x hx => ?_, fun x hx => hval x (List.mem_append_right _ hx),
        fun x hx => hgood x (List.mem_append_right _ hx), fun k hk => ?_⟩
      · rcases List.mem_cons.mp hx with rfl | hx
        · exact le_rfl
        · exact (WithBot.coe_lt_coe.mpr (h4 x hx)).le
      · rw [← WithBot.coe_injective hk]
        exact hgood (key', v) (by simp)
    · exact hoks m (mem_row_of_other hm)
  · refine List.pairwise_append.mpr ⟨g1, List.pairwise_cons.mpr ⟨?_, List.pairwise_cons.mpr
      ⟨?_, g5⟩⟩, ?_⟩
    · intro m hm x hx
      rcases List.mem_cons.mp hm with rfl | hm
      · exact WithBot.coe_lt_coe.mpr (h3 x hx (key', v) (by simp))
      · exact g4 m hm x (by simp [hx])
    · exact fun m hm x hx => g4 m hm x (List.mem_append_right _ hx)
    · intro m hm m' hm' x hx
      have hml := g3 m hm _ (List.mem_cons_self ..) x hx
      rcases List.mem_cons.mp hm' with rfl | hm'
      · exact hml
      · rcases List.mem_cons.mp hm' with rfl | hm'
        · obtain ⟨y, left', rfl⟩ := List.exists_cons_of_ne_nil hleft
          refine hml.trans ((hsep y (by simp)).trans_lt ?_)
          exact WithBot.coe_lt_coe.mpr (h3 y (by simp) (key', v) (by simp))
        · exact g3 m hm m' (by simp [hm']) x hx

/-- Two neighbouring leaves put together, in order with the other leaves. -/
theorem leaves_merge {L R : Leaf A} (hoks : ∀ m ∈ pre ++ L :: R :: post, LeafOk good m)
    (hapart : Apart (pre ++ L :: R :: post)) (hsep : L.sep < R.sep) :
    (∀ m ∈ pre ++ ⟨L.sep, L.page, L.items ++ R.items⟩ :: post, LeafOk good m) ∧
      Apart (pre ++ ⟨L.sep, L.page, L.items ++ R.items⟩ :: post) := by
  have hL := hoks L (by simp)
  have hR := hoks R (by simp)
  obtain ⟨g1, g2, g3⟩ := List.pairwise_append.mp hapart
  obtain ⟨g4, g5⟩ := List.pairwise_cons.mp g2
  obtain ⟨g6, g7⟩ := List.pairwise_cons.mp g5
  constructor
  · intro m hm
    obtain rfl | hm := mem_row.mp hm
    · refine ⟨List.pairwise_append.mpr ⟨hL.increasing, hR.increasing, fun x hx y hy => ?_⟩,
        fun x hx => ?_, fun x hx => ?_, fun x hx => ?_, hL.good_sep⟩
      · exact WithBot.coe_lt_coe.mp ((g4 R (by simp) x hx).trans_le (hR.sep_le y hy))
      · rcases List.mem_append.mp hx with hx | hx
        · exact hL.sep_le x hx
        · exact hsep.le.trans (hR.sep_le x hx)
      · rcases List.mem_append.mp hx with hx | hx
        · exact hL.value x hx
        · exact hR.value x hx
      · rcases List.mem_append.mp hx with hx | hx
        · exact hL.good_items x hx
        · exact hR.good_items x hx
    · exact hoks m (mem_row_of_other (hm.imp_right (List.mem_cons_of_mem R)))
  · refine List.pairwise_append.mpr ⟨g1, List.pairwise_cons.mpr ⟨fun m hm x hx => ?_, g7⟩, ?_⟩
    · rcases List.mem_append.mp hx with hx | hx
      · exact g4 m (by simp [hm]) x hx
      · exact g6 m hm x hx
    · intro m hm m' hm' x hx
      rcases List.mem_cons.mp hm' with rfl | hm'
      · exact g3 m hm L (by simp) x hx
      · exact g3 m hm m' (by simp [hm']) x hx

end order

theorem Shape.setItems {s' : BplusTreeHandler A} {pre post : List (Leaf A)} {l : Leaf A}
    {levs : List (Level A)} {items : List (Key A × RID)} {next : PageNum}
    (ht : Shape h r s lo (pre ++ l :: post) levs) (hroot : s'.rootPage = s.rootPage)
    (ha : ∀ p, s.allocated p → s'.allocated p)
    (hb : s'.body = Function.update s.body l.page (some (.leaf 0 next items)))
    (hnext : r.chained → next = chainHead invalidPageNum post)
    (hp : s'.parentPage = s.parentPage) (hok : LeafOk r.good ⟨l.sep, l.page, items⟩)
    (hlt : ∀ x ∈ items, ∀ l' ∈ post, (x.1 : WithBot (Key A)) < l'.sep) :
    Shape h r s' lo (pre ++ ⟨l.sep, l.page, items⟩ :: post) levs := by
  have hheads : leafHeads (pre ++ ⟨l.sep, l.page, items⟩ :: post) = leafHeads
    (pre ++ l :: post) := by
    simp [Leaf.asChild]
  have hpages := (List.nodup_append.mp ht.isOver.nodup).1
  simp only [leafHeads_append, leafHeads_cons, childPages_append, childPages_cons,
    asChild_snd] at hpages
  have hother : ∀ l', l' ∈ pre ∨ l' ∈ post → l'.page ≠ l.page := by
    rintro l' (hl' | hl') he
    · exact (List.nodup_append.mp hpages).2.2 _ (mem_leafPages hl') _ (by simp) he
    · exact (List.nodup_cons.mp (List.nodup_append.mp hpages).2.1).1 (he ▸ mem_leafPages hl')
  obtain ⟨hoks, hapart⟩ := leaves_setItems ht.leafOk ht.apart hok hlt
  refine ⟨?_, ?_, hoks, hapart⟩
  · rw [hheads]
    refine ht.isOver.congr hroot (fun p hm => ?_) (fun p _ => by rw [hp])
      fun p hm => ha p (ht.isOver.allocated p hm)
    have hne : p ≠ l.page := by
      rintro rfl
      exact ht.isOver.not_mem_levelPages (mem_leafPages (by simp)) hm
    rw [hb, Function.update_of_ne hne]
  · refine ht.linked.replace [l] [⟨l.sep, l.page, items⟩] (fun _ => rfl) ?_ ?_
    · exact ⟨⟨next, by rw [hb, Function.update_self], hnext⟩, trivial⟩
    · intro l' hl'
      rw [hb, Function.update_of_ne (hother l' hl')]

omit [LinearOrder (Key A)] in
theorem length_le_pageCount {pages : List PageNum} (hnodup : pages.Nodup)
    (hfile : ∀ p ∈ pages, 0 ≤ p ∧ p < s.fileBufferPool.fileHeader.pageCount) :
    pages.length ≤ s.fileBufferPool.fileHeader.pageCount := by
  have hinj : (pages.map Int.toNat).Nodup := by
    refine hnodup.map_on fun p hp q hq hpq => ?_
    exact (Int.toNat_of_nonneg (hfile p hp).1).symm.trans
      ((congrArg Int.ofNat hpq).trans (Int.toNat_of_nonneg (hfile q hq).1))
  have hsub : (pages.map Int.toNat).toFinset ⊆
      Finset.range s.fileBufferPool.fileHeader.pageCount := by
    intro n hn
    obtain ⟨p, hp, rfl⟩ := List.mem_map.mp (List.mem_toFinset.mp hn)
    rw [Finset.mem_range]
    exact (Int.toNat_lt (hfile p hp).1).mpr (hfile p hp).2
  have := Finset.card_le_card hsub
  rwa [List.toFinset_card_of_nodup hinj, List.length_map, Finset.card_range] at this

omit [LinearOrder (Key A)] in
theorem Above.length_le : ∀ {levs : List (Level A)} {cur : List (Child A)},
    Above h s cur levs → levs.length ≤ (levelPages levs).length
  | [], _, _ => by simp
  | lev :: rest, cur, ⟨_, _, habove⟩ => by
    have hpos : 0 < (heads lev).length := List.length_pos_iff.mpr habove.ne_nil
    have := habove.length_le
    simp only [heads, List.length_map] at hpos
    simp only [levelPages_cons, List.length_append, List.length_map, List.length_cons]
    omega

theorem Over.inFile {short : Option PageNum} {cur : List (Child A)} {levs : List (Level A)}
    (ho : Over h s lo short cur levs) {p : PageNum} (hp : p ∈ childPages cur ++ levelPages levs) :
    0 ≤ p ∧ p < s.fileBufferPool.fileHeader.pageCount := by
  obtain ⟨hpos, hlt, -⟩ := ho.allocated p hp
  exact ⟨hpos, hlt⟩

theorem Over.length_lt {short : Option PageNum} {cur : List (Child A)} {levs : List (Level A)}
    (ho : Over h s lo short cur levs) :
    levs.length < s.fileBufferPool.fileHeader.pageCount := by
  have h1 := length_le_pageCount ho.nodup fun p hp => ho.inFile hp
  have h2 := ho.above.length_le
  have h3 : 0 < cur.length := List.length_pos_iff.mpr ho.above.ne_nil
  rw [List.length_append] at h1
  have h4 : (childPages cur).length = cur.length := List.length_map _
  omega

/-! ## The walk over a tree -/

/-- The items under a page, read from left to right down to depth `fuel`. -/
def entriesUnder (s : BplusTreeHandler A) : ℕ → PageNum → List (Key A × RID)
  | 0, _ => []
  | fuel + 1, p =>
    match s.page p with
    | some (.leaf _ _ items) => items
    | some (.internal _ items) => items.flatMap fun item => entriesUnder s fuel item.2
    | _ => []

/-- The entries of the index: what a walk from the root page finds. -/
def entries (s : BplusTreeHandler A) : List (Key A × RID) :=
  if s.isEmpty then []
  else entriesUnder s s.fileBufferPool.fileHeader.pageCount s.rootPage

omit [LinearOrder (Key A)] in
/-- A walk from the root of rows is a walk from each of the children below them. -/
theorem Above.entriesUnder_root (fuel : ℕ) : ∀ {levs : List (Level A)} {cur : List (Child A)},
    Above h s cur levs →
    entriesUnder s (fuel + levs.length) s.rootPage = cur.flatMap fun c => entriesUnder s fuel c.2
  | [], cur, ⟨k, hcur, _⟩ => by simp [hcur]
  | lev :: rest, cur, ⟨hkids, hnodes, habove⟩ => by
    have ih := habove.entriesUnder_root (fuel + 1)
    rw [List.length_cons, Nat.add_comm rest.length 1, ← Nat.add_assoc, ih, ← hkids]
    unfold heads kidsOf
    rw [List.flatMap_map, List.flatMap_assoc]
    refine List.flatMap_congr fun y hy => ?_
    have hmem : y.page ∈ childPages (heads lev) := by
      rw [childPages_heads]
      exact List.mem_map_of_mem hy
    obtain ⟨par, hpar⟩ := Option.ne_none_iff_exists'.mp (habove.parentPage_ne_none hmem)
    have hpage := page_eq_internal (hnodes y hy).body hpar
    simp [entriesUnder, Inner.asChild, hpage, stored, List.flatMap_map]

omit [LinearOrder (Key A)] in
theorem entriesUnder_leaf {fuel : ℕ} {p par next : PageNum} {items : List (Key A × RID)}
    (hp : s.page p = some (.leaf par next items)) : entriesUnder s (fuel + 1) p = items := by
  simp [entriesUnder, hp]

omit [LinearOrder (Key A)] in
theorem Above.rootPage_mem : ∀ {levs : List (Level A)} {cur : List (Child A)},
    Above h s cur levs → s.rootPage ∈ childPages cur ++ levelPages levs
  | [], cur, ⟨k, hcur, _⟩ => by simp [hcur]
  | lev :: rest, cur, ⟨_, _, habove⟩ => by
    have := habove.rootPage_mem
    rw [childPages_heads_append_levelPages] at this
    exact List.mem_append_right _ this

theorem Over.isEmpty_eq {short : Option PageNum} {cur : List (Child A)} {levs : List (Level A)}
    (ho : Over h s lo short cur levs) : s.isEmpty = false := by
  have := ne_invalidPageNum (ho.allocated _ ho.above.rootPage_mem)
  simp [isEmpty, this]

theorem Shape.page_leaf {pre post : List (Leaf A)} {l : Leaf A} {levs : List (Level A)}
    (ht : Shape h r s lo (pre ++ l :: post) levs) :
    ∃ par next, s.parentPage l.page = some par ∧ s.page l.page = some (.leaf par next l.items) ∧
      (r.chained → next = chainHead invalidPageNum post) := by
  obtain ⟨par, hpar⟩ := Option.ne_none_iff_exists'.mp
    (ht.isOver.above.parentPage_ne_none (mem_leafPages (l := l) (by simp)))
  obtain ⟨next, hbody, hnext⟩ := ht.linked.body
  exact ⟨par, next, hpar, page_eq_leaf hbody hpar, hnext⟩

omit [LinearOrder (Key A)] in
theorem exists_page_leaf {p next : PageNum} {items : List (Key A × RID)}
    (hb : s.body p = some (.leaf 0 next items)) : ∃ par, s.page p = some
    (.leaf par next items) := by
  unfold body at hb
  cases hd : s.page p with
  | none => simp [hd] at hb
  | some d => cases d <;> simp_all [Page.setParent]

omit [LinearOrder (Key A)] in
/-- A walk over rows that stand over some leaves finds the items of these. -/
theorem Above.entriesUnder_leaves {leaves : List (Leaf A)} {levs : List (Level A)}
    (ha : Above h s (leafHeads leaves) levs)
    (hb : ∀ l ∈ leaves, ∃ next, s.body l.page = some (.leaf 0 next l.items)) {n : ℕ}
    (hn : levs.length < n) : entriesUnder s n s.rootPage = entriesOf leaves := by
  obtain ⟨fuel, rfl⟩ : ∃ fuel, n = fuel + 1 + levs.length := ⟨n - levs.length - 1, by omega⟩
  rw [ha.entriesUnder_root]
  unfold leafHeads entriesOf
  rw [List.flatMap_map]
  refine List.flatMap_congr fun l hl => ?_
  obtain ⟨next, hbody⟩ := hb l hl
  obtain ⟨par, hpage⟩ := exists_page_leaf hbody
  exact entriesUnder_leaf hpage

theorem Shape.entries_eq {leaves : List (Leaf A)} {levs : List (Level A)}
    (ht : Shape h r s lo leaves levs) : entries s = entriesOf leaves := by
  unfold entries
  rw [ht.isOver.isEmpty_eq]
  refine ht.isOver.above.entriesUnder_leaves (fun l hl => ?_) ht.isOver.length_lt
  obtain ⟨pre, post, rfl⟩ := List.append_of_mem hl
  obtain ⟨next, hbody, -⟩ := ht.linked.body
  exact ⟨next, hbody⟩

end TDB
