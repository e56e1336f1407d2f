import TDB.Lib.FlatMap
import TDB.NodeMoves
import TDB.NodeSearch

namespace TDB

open BplusTreeHandler

variable {A : Type}

/-! ## The internal levels of a tree

All leaves of a tree have the same depth, so the internal nodes of each depth form a row.  A row
is listed from left to right; the children of its nodes, put together, are the row below it.  The
separator of a child is the key its parent holds for it, and for an internal child it is also the
child's own key 0.
-/

/-- A row with its other nodes before and behind one of them. -/
theorem mem_row {α : Type} {pre post : List α} {x y : α} :
    x ∈ pre ++ y :: post ↔ x = y ∨ x ∈ pre ∨ x ∈ post := by
  rw [List.mem_append, List.mem_cons]
  exact or_left_comm

theorem mem_row_two {α : Type} {pre post : List α} {x y z : α} :
    x ∈ pre ++ y :: z :: post ↔ x = y ∨ x = z ∨ x ∈ pre ∨ x ∈ post := by
  rw [mem_row, List.mem_cons]
  exact or_congr_right or_left_comm

theorem mem_row_of_other {α : Type} {pre post : List α} {x y : α} (h : x ∈ pre ∨ x ∈ post) :
    x ∈ pre ++ y :: post :=
  mem_row.mpr (Or.inr h)

structure Inner (A : Type) where
  page : PageNum
  kids : List (Child A)

def Inner.sep (y : Inner A) : WithBot (Key A) :=
  match y.kids with
  | [] => ⊥
  | c :: _ => c.1

def Inner.asChild (y : Inner A) : Child A := (y.sep, y.page)

abbrev Level (A : Type) := List (Inner A)

def heads (lev : Level A) : List (Child A) := lev.map Inner.asChild

def kidsOf (lev : Level A) : List (Child A) := lev.flatMap Inner.kids

def childPages (cur : List (Child A)) : List PageNum := cur.map Prod.snd

def levelPages (levs : List (Level A)) : List PageNum :=
  levs.flatMap fun lev => lev.map Inner.page

section lists

variable {lev lev' : Level A} {cur cur' : List (Child A)} {levs : List (Level A)}

@[simp] theorem heads_nil : heads ([] : Level A) = [] := rfl

@[simp] theorem heads_cons (y : Inner A) : heads (y :: lev) = y.asChild :: heads lev := rfl

@[simp] theorem heads_append : heads (lev ++ lev') = heads lev ++ heads lev' := List.map_append

@[simp] theorem kidsOf_nil : kidsOf ([] : Level A) = [] := rfl

@[simp] theorem kidsOf_cons (y : Inner A) : kidsOf (y :: lev) = y.kids ++ kidsOf lev :=
  List.flatMap_cons

@[simp] theorem kidsOf_append : kidsOf (lev ++ lev') = kidsOf lev ++ kidsOf lev' :=
  List.flatMap_append

@[simp] theorem childPages_nil : childPages ([] : List (Child A)) = [] := rfl

@[simp] theorem childPages_cons (c : Child A) : childPages (c :: cur) = c.2 :: childPages cur := rfl

@[simp] theorem childPages_append :
    childPages (cur ++ cur') = childPages cur ++ childPages cur' := List.map_append

@[simp] theorem levelPages_nil : levelPages ([] : List (Level A)) = [] := rfl

@[simp] theorem levelPages_cons :
    levelPages (lev :: levs) = lev.map Inner.page ++ levelPages levs := List.flatMap_cons

theorem childPages_heads : childPages (heads lev) = lev.map Inner.page := by
  simp [childPages, heads, Inner.asChild]

theorem childPages_heads_append_levelPages :
    childPages (heads lev) ++ levelPages levs = levelPages (lev :: levs) := by
  rw [childPages_heads, levelPages_cons]

theorem mem_childPages {p : PageNum} : p ∈ childPages cur ↔ ∃ c ∈ cur, c.2 = p := List.mem_map

theorem mem_levelPages_of_mem {y : Inner A} (hlev : lev ∈ levs) (hy : y ∈ lev) :
    y.page ∈ levelPages levs :=
  List.mem_flatMap.mpr ⟨lev, hlev, List.mem_map_of_mem hy⟩

theorem mem_levelPages_head {pre post : Level A} {y : Inner A} :
    y.page ∈ levelPages ((pre ++ y :: post) :: levs) := by
  simp

theorem Inner.sep_eq {y : Inner A} {c : Child A} {rest : List (Child A)} (h : y.kids = c :: rest) :
    y.sep = c.1 := by
  simp [Inner.sep, h]

theorem Inner.sep_append {p q : PageNum} {l r r' : List (Child A)} (hl : l ≠ []) :
    (⟨p, l ++ r⟩ : Inner A).sep = (⟨q, l ++ r'⟩ : Inner A).sep := by
  cases l with
  | nil => exact absurd rfl hl
  | cons c l => rfl

/-- The separators of a row are among those of its children, in the same order. -/
theorem heads_sublist : ∀ {lev : Level A}, (∀ y ∈ lev, y.kids ≠ []) →
    ((heads lev).map Prod.fst).Sublist ((kidsOf lev).map Prod.fst)
  | [], _ => by simp
  | y :: lev, hne => by
    obtain ⟨c, rest, hkids⟩ := List.exists_cons_of_ne_nil (hne y (by simp))
    have ih := heads_sublist fun z (hz : z ∈ lev) => hne z (by simp [hz])
    have hy : y.asChild.1 = c.1 := Inner.sep_eq hkids
    rw [heads_cons, kidsOf_cons, hkids]
    simp only [List.map_cons, List.cons_append, List.map_append, hy]
    exact (ih.trans (List.sublist_append_right _ _)).cons_cons _

end lists

/-! ## What the pages hold -/

variable [LinearOrder (Key A)] (h : IndexFileHeader A) (s : BplusTreeHandler A)

def Increasing (cur : List (Child A)) : Prop := cur.Pairwise fun a b => a.1 < b.1

/-- The page of `y` holds its children, and they name it as their parent. -/
structure NodeAt (y : Inner A) : Prop where
  nonempty : y.kids ≠ []
  body : s.body y.page = some (.internal 0 (stored h y.kids))
  parent : ∀ c ∈ y.kids, s.parentPage c.2 = some y.page

/-- The rows `levs` stand over the children `cur`, up to the root. -/
def Above : List (Child A) → List (Level A) → Prop
  | cur, [] => ∃ k, cur = [(k, s.rootPage)] ∧ s.parentPage s.rootPage = some invalidPageNum
  | cur, lev :: rest => kidsOf lev = cur ∧ (∀ y ∈ lev, NodeAt h s y) ∧ Above (heads lev) rest

/-- No node has too many children; the root has at least two if `lo` asks for as many, every other
node at least `lo`, only the node `short` may lack one. -/
def Sized (lo : ℕ) (short : Option PageNum) : List (Level A) → Prop
  | [] => True
  | lev :: rest => (∀ y ∈ lev, y.kids.length ≤ h.internalMaxSize ∧
      (if rest = [] then min 2 lo else lo) ≤ y.kids.length + if short = some y.page then 1 else 0) ∧
      Sized lo short rest

/-- The internal part of a well-formed tree over the children `cur`. -/
structure Over (lo : ℕ) (short : Option PageNum) (cur : List (Child A))
    (levs : List (Level A)) : Prop where
  above : Above h s cur levs
  nodup : (childPages cur ++ levelPages levs).Nodup
  allocated : ∀ p ∈ childPages cur ++ levelPages levs, s.allocated p
  increasing : Increasing cur
  leftmost : ∀ c ∈ cur.head?, c.1 = ⊥
  sized : Sized h lo short levs

variable {h s} {lo : ℕ}

omit [LinearOrder (Key A)] in
theorem NodeAt.congr {s' : BplusTreeHandler A} {y : Inner A} (hy : NodeAt h s y)
    (hb : s'.body y.page = s.body y.page)
    (hp : ∀ c ∈ y.kids, s'.parentPage c.2 = s.parentPage c.2) : NodeAt h s' y :=
  ⟨hy.nonempty, hb.trans hy.body, fun c hc => (hp c hc).trans (hy.parent c hc)⟩

omit [LinearOrder (Key A)] in
/-- The rows depend only on their own pages and on the parent fields below them. -/
theorem Above.congr {s' : BplusTreeHandler A} (hroot : s'.rootPage = s.rootPage) :
    ∀ {levs : List (Level A)} {cur : List (Child A)}, Above h s cur levs →
      (∀ p ∈ levelPages levs, s'.body p = s.body p) →
      (∀ p ∈ childPages cur ++ levelPages levs, s'.parentPage p = s.parentPage p) →
      Above h s' cur levs
  | [], cur, ⟨k, hcur, hpar⟩, _, hp => by
    refine ⟨k, by rw [hroot, hcur], ?_⟩
    rw [hroot, hp _ (by simp [hcur]), hpar]
  | lev :: rest, cur, ⟨hkids, hnodes, habove⟩, hb, hp => by
    refine ⟨hkids, ?_, habove.congr hroot ?_ ?_⟩
    · intro y hy
      refine (hnodes y hy).congr (hb _ (mem_levelPages_of_mem (by simp) hy)) fun c hc => hp _ ?_
      rw [List.mem_append, mem_childPages]
      exact Or.inl ⟨c, by rw [← hkids]; exact List.mem_flatMap.mpr ⟨y, hy, hc⟩, rfl⟩
    · exact fun p hp' => hb p (by simp [hp'])
    · intro p hp'
      rw [childPages_heads_append_levelPages] at hp'
      exact hp p (List.mem_append_right _ hp')

omit [LinearOrder (Key A)] in
theorem Above.nodeAt : ∀ {levs : List (Level A)} {cur : List (Child A)} {lev : Level A}
    {y : Inner A}, Above h s cur levs → lev ∈ levs → y ∈ lev → NodeAt h s y
  | [], _, _, _, _, hlev, _ => by simp at hlev
  | lev' :: rest, _, lev, y, ⟨_, hnodes, habove⟩, hlev, hy => by
    rcases List.mem_cons.mp hlev with rfl | hlev
    · exact hnodes y hy
    · exact habove.nodeAt hlev hy

theorem increasing_heads {lev : Level A} {cur : List (Child A)} (hkids : kidsOf lev = cur)
    (hne : ∀ y ∈ lev, y.kids ≠ []) (hs : Increasing cur) : Increasing (heads lev) := by
  have hsub := heads_sublist hne
  rw [hkids] at hsub
  exact List.pairwise_map.mp ((List.pairwise_map.mpr hs).sublist hsub)

omit [LinearOrder (Key A)] in
theorem leftmost_heads {lev : Level A} {cur : List (Child A)} (hkids : kidsOf lev = cur)
    (hne : ∀ y ∈ lev, y.kids ≠ []) (hl : ∀ c ∈ cur.head?, c.1 = ⊥) :
    ∀ c ∈ (heads lev).head?, c.1 = ⊥ := by
  cases lev with
  | nil => simp
  | cons y lev =>
    obtain ⟨c, rest, hy⟩ := List.exists_cons_of_ne_nil (hne y (by simp))
    rw [kidsOf_cons, hy] at hkids
    have hc : c.1 = ⊥ := hl c (by rw [← hkids]; rfl)
    simpa [Inner.asChild, Inner.sep_eq hy] using hc

/-- The rows above a row, seen from it. -/
theorem Over.up {short : Option PageNum} {cur : List (Child A)} {lev : Level A}
    {rest : List (Level A)} (ho : Over h s lo short cur (lev :: rest)) :
    Over h s lo short (heads lev) rest := by
  obtain ⟨hkids, hnodes, habove⟩ := ho.above
  have hne : ∀ y ∈ lev, y.kids ≠ [] := fun y hy => (hnodes y hy).nonempty
  refine ⟨habove, ?_, ?_, increasing_heads hkids hne ho.increasing,
    leftmost_heads hkids hne ho.leftmost, ho.sized.2⟩
  · rw [childPages_heads_append_levelPages]
    exact (List.nodup_append.mp ho.nodup).2.1
  · intro p hp
    rw [childPages_heads_append_levelPages] at hp
    exact ho.allocated p (List.mem_append_right _ hp)

/-- A row put under the rows above it. -/
theorem Over.down {short : Option PageNum} {cur : List (Child A)} {lev : Level A}
    {rest : List (Level A)} (ho : Over h s lo short (heads lev) rest)
    (hnodes : ∀ y ∈ lev, NodeAt h s y) (hkids : kidsOf lev = cur)
    (hnodup : (childPages cur ++ levelPages (lev :: rest)).Nodup)
    (halloc : ∀ p ∈ childPages cur, s.allocated p) (hinc : Increasing cur)
    (hleft : ∀ c ∈ cur.head?, c.1 = ⊥)
    (hsized : ∀ y ∈ lev, y.kids.length ≤ h.internalMaxSize ∧
      (if rest = [] then min 2 lo else lo) ≤ y.kids.length + if short = some y.page then 1 else 0) :
    Over h s lo short cur (lev :: rest) := by
  refine ⟨⟨hkids, hnodes, ho.above⟩, hnodup, ?_, hinc, hleft, hsized, ho.sized⟩
  intro p hp
  rcases List.mem_append.mp hp with hp | hp
  · exact halloc p hp
  · rw [← childPages_heads_append_levelPages] at hp
    exact ho.allocated p hp

omit [LinearOrder (Key A)] in
/-- A node that is in no row may be named as the short one. -/
theorem Sized.congr_short {short short' : Option PageNum} : ∀ {levs : List (Level A)},
    (∀ p ∈ levelPages levs, (short = some p ↔ short' = some p)) →
    Sized h lo short levs → Sized h lo short' levs
  | [], _, _ => trivial
  | lev :: rest, hp, ⟨hlev, hrest⟩ => by
    refine ⟨fun y hy => ?_, hrest.congr_short fun p hp' => hp p (by simp [hp'])⟩
    have hpage := hp y.page (mem_levelPages_of_mem (by simp) hy)
    simpa [hpage] using hlev y hy

/-- The rows stay as they are when their pages and the parent fields below them do. -/
theorem Over.congr {s' : BplusTreeHandler A} {short : Option PageNum} {cur : List (Child A)}
    {levs : List (Level A)} (ho : Over h s lo short cur levs) (hroot : s'.rootPage = s.rootPage)
    (hb : ∀ p ∈ levelPages levs, s'.body p = s.body p)
    (hp : ∀ p ∈ childPages cur ++ levelPages levs, s'.parentPage p = s.parentPage p)
    (ha : ∀ p ∈ childPages cur ++ levelPages levs, s'.allocated p) : Over h s' lo short cur levs :=
  ⟨ho.above.congr hroot hb hp, ho.nodup, ha, ho.increasing, ho.leftmost, ho.sized⟩

omit [LinearOrder (Key A)] in
theorem Above.parentPage_ne_none {cur : List (Child A)} {levs : List (Level A)}
    (ha : Above h s cur levs) {p : PageNum} (hp : p ∈ childPages cur) : s.parentPage p ≠ none := by
  obtain ⟨c, hc, rfl⟩ := mem_childPages.mp hp
  cases levs with
  | nil =>
    obtain ⟨k, rfl, hroot⟩ := ha
    obtain rfl := List.mem_singleton.mp hc
    simp [hroot]
  | cons lev rest =>
    obtain ⟨rfl, hnodes, -⟩ := ha
    obtain ⟨y, hy, hcy⟩ := List.mem_flatMap.mp hc
    simp [(hnodes y hy).parent c hcy]

omit [LinearOrder (Key A)] in
theorem ne_invalidPageNum {p : PageNum} (hp : s.allocated p) : p ≠ invalidPageNum := by
  rintro rfl
  exact absurd hp.1 (by decide)

theorem Over.locate {short : Option PageNum} {front back : List (Child A)} {c : Child A}
    {lev : Level A} {rest : List (Level A)} (ho : Over h s lo short (front ++ c :: back)
    (lev :: rest)) :
    ∃ pre y post a b, lev = pre ++ y :: post ∧ y.kids = a ++ c :: b ∧
      front = kidsOf pre ++ a ∧ back = b ++ kidsOf post :=
  ListLevels.flatMap_eq_append_cons ho.above.1

theorem Over.rows_nodup {short : Option PageNum} {cur : List (Child A)} {lev : Level A}
    {rest : List (Level A)} (ho : Over h s lo short cur (lev :: rest)) :
    (lev.map Inner.page ++ levelPages rest).Nodup := by
  have := (List.nodup_append.mp ho.nodup).2.1
  rwa [levelPages_cons] at this

/-- The other nodes of a row have other pages. -/
theorem Over.page_ne {short : Option PageNum} {cur : List (Child A)} {pre post : Level A}
    {y z : Inner A} {rest : List (Level A)} (ho : Over h s lo short cur
    ((pre ++ y :: post) :: rest))
    (hz : z ∈ pre ∨ z ∈ post) : z.page ≠ y.page := by
  have hrow := (List.nodup_append.mp ho.rows_nodup).1
  rw [List.map_append, List.map_cons, List.nodup_append] at hrow
  rcases hz with hz | hz
  · exact fun he => hrow.2.2 z.page (List.mem_map_of_mem hz) y.page (by simp) he
  · exact fun he => (List.nodup_cons.mp hrow.2.1).1 (he ▸ List.mem_map_of_mem hz)

theorem Over.not_mem_rest {short : Option PageNum} {cur : List (Child A)} {lev : Level A}
    {y : Inner A} {rest : List (Level A)} (ho : Over h s lo short cur (lev :: rest))
    (hy : y ∈ lev) :
    y.page ∉ levelPages rest :=
  fun hm => (List.nodup_append.mp ho.rows_nodup).2.2 y.page (List.mem_map_of_mem hy) y.page hm rfl

/-- The children of one node are a part of the row below. -/
theorem Over.kids_sublist {short : Option PageNum} {cur : List (Child A)} {lev : Level A}
    {y : Inner A} {rest : List (Level A)} (ho : Over h s lo short cur (lev :: rest))
    (hy : y ∈ lev) :
    y.kids.Sublist cur := by
  obtain ⟨pre, post, rfl⟩ := List.append_of_mem hy
  rw [← ho.above.1, kidsOf_append, kidsOf_cons]
  exact (List.sublist_append_left _ _).trans (List.sublist_append_right _ _)

theorem Over.increasing_kids {short : Option PageNum} {cur : List (Child A)} {lev : Level A}
    {y : Inner A} {rest : List (Level A)} (ho : Over h s lo short cur (lev :: rest))
    (hy : y ∈ lev) :
    Increasing y.kids :=
  ho.increasing.sublist (ho.kids_sublist hy)

omit [LinearOrder (Key A)] in
theorem Above.row_page {cur : List (Child A)} {lev : Level A} {y : Inner A}
    {rest : List (Level A)} (ha : Above h s cur (lev :: rest)) (hy : y ∈ lev) :
    ∃ par, s.page y.page = some (.internal par (stored h y.kids)) := by
  obtain ⟨-, hnodes, habove⟩ := ha
  have hchild : y.page ∈ childPages (heads lev) := by
    rw [childPages_heads]
    exact List.mem_map_of_mem hy
  obtain ⟨par, hpar⟩ := Option.ne_none_iff_exists'.mp (habove.parentPage_ne_none hchild)
  exact ⟨par, page_eq_internal (hnodes y hy).body hpar⟩

theorem Over.kids_nodup {short : Option PageNum} {cur : List (Child A)} {lev : Level A}
    {y : Inner A} {rest : List (Level A)} (ho : Over h s lo short cur (lev :: rest))
    (hy : y ∈ lev) :
    (childPages y.kids).Nodup :=
  (List.nodup_append.mp ho.nodup).1.sublist ((ho.kids_sublist hy).map Prod.snd)

theorem Over.mem_childPages {short : Option PageNum} {cur : List (Child A)} {lev : Level A}
    {y : Inner A} {rest : List (Level A)} (ho : Over h s lo short cur (lev :: rest)) (hy : y ∈ lev)
    {q : PageNum} (hq : q ∈ childPages y.kids) : q ∈ childPages cur :=
  ((ho.kids_sublist hy).map Prod.snd).subset hq

theorem Over.not_mem_levelPages {short : Option PageNum} {cur : List (Child A)}
    {levs : List (Level A)} (ho : Over h s lo short cur levs) {q : PageNum}
    (hq : q ∈ childPages cur) : q ∉ levelPages levs :=
  fun hm => (List.nodup_append.mp ho.nodup).2.2 q hq q hm rfl

/-- One node of the lowest row gets other children, the first of them with the old separator. -/
theorem Over.replace {s' : BplusTreeHandler A} {short short' : Option PageNum}
    {cur kids : List (Child A)} {pre post : Level A} {y : Inner A} {rest : List (Level A)}
    (ho : Over h s lo short cur ((pre ++ y :: post) :: rest)) (hroot : s'.rootPage = s.rootPage)
    (hsep : (⟨y.page, kids⟩ : Inner A).sep = y.sep) (hy : NodeAt h s' ⟨y.page, kids⟩)
    (hb : ∀ p ∈ levelPages ((pre ++ y :: post) :: rest), p ≠ y.page → s'.body p = s.body p)
    (hp : ∀ p ∈ levelPages ((pre ++ y :: post) :: rest), s'.parentPage p = s.parentPage p)
    (hk : ∀ c ∈ kidsOf pre ++ kidsOf post, s'.parentPage c.2 = s.parentPage c.2)
    (hnodup : (childPages (kidsOf pre ++ kids ++ kidsOf post) ++
      levelPages ((pre ++ y :: post) :: rest)).Nodup)
    (halloc : ∀ p ∈ childPages (kidsOf pre ++ kids ++ kidsOf post) ++
      levelPages ((pre ++ y :: post) :: rest), s'.allocated p)
    (hinc : Increasing (kidsOf pre ++ kids ++ kidsOf post))
    (hleft : ∀ c ∈ (kidsOf pre ++ kids ++ kidsOf post).head?, c.1 = ⊥)
    (hsized : Sized h lo short' ((pre ++ ⟨y.page, kids⟩ :: post) :: rest)) :
    Over h s' lo short' (kidsOf pre ++ kids ++ kidsOf post)
      ((pre ++ ⟨y.page, kids⟩ :: post) :: rest) := by
  obtain ⟨-, hnodes, habove⟩ := ho.above
  have hpages : levelPages ((pre ++ ⟨y.page, kids⟩ :: post) :: rest) =
      levelPages ((pre ++ y :: post) :: rest) := by simp
  have hheads : heads (pre ++ ⟨y.page, kids⟩ :: post) = heads (pre ++ y :: post) := by
    simp [Inner.asChild, hsep]
  refine ⟨⟨by simp, ?_, ?_⟩, by rwa [hpages], by rwa [hpages], hinc, hleft, hsized⟩
  · intro z hz
    have hother : z ∈ pre ∨ z ∈ post → NodeAt h s' z := by
      intro hz'
      have hmem : z ∈ pre ++ y :: post := mem_row_of_other hz'
      refine (hnodes z hmem).congr (hb _ (mem_levelPages_of_mem (by simp) hmem)
        (ho.page_ne hz')) fun c hc => ?_
      apply hk
      rw [List.mem_append]
      exact hz'.imp (fun h => List.mem_flatMap.mpr ⟨z, h, hc⟩) fun h =>
        List.mem_flatMap.mpr ⟨z, h, hc⟩
    obtain rfl | hz := mem_row.mp hz
    · exact hy
    · exact hother hz
  · rw [hheads]
    refine habove.congr hroot ?_ ?_
    · intro p hp'
      exact hb p (by simp [hp']) fun he => ho.not_mem_rest (by simp) (he ▸ hp')
    · intro p hp'
      rw [childPages_heads_append_levelPages] at hp'
      exact hp p hp'

/-! ## What a change of the rows leaves alone -/

/-- The pages outside the rows: they stay allocated, and at most the parent fields of the
children change. -/
structure Untouched (s s' : BplusTreeHandler A) (cur : List (Child A)) (levs : List (Level A)) :
    Prop where
  allocated : ∀ p, s.allocated p → p ∉ levelPages levs → s'.allocated p
  body : ∀ p, s.allocated p → p ∉ levelPages levs → s'.body p = s.body p
  parentPage : ∀ p, s.allocated p → p ∉ levelPages levs → p ∉ childPages cur →
    s'.parentPage p = s.parentPage p
  pageCount : s.fileBufferPool.fileHeader.pageCount ≤ s'.fileBufferPool.fileHeader.pageCount

/-- The rows were rebuilt: nothing else was touched, and the pages that are new in the rows come
from the free ones. -/
structure Rebuilt (s s' : BplusTreeHandler A) (cur : List (Child A)) (levs levs' : List (Level A)) :
    Prop extends Untouched s s' cur levs where
  fresh : ∀ p ∈ levelPages levs', p ∈ levelPages levs ∨ ¬ s.allocated p

end TDB
