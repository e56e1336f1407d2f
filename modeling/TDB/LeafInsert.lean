import TDB.TreeInsert
import TDB.TreeSearch

namespace TDB

open BplusTreeHandler Exec

variable {A : Type}

/-! ## Splitting a leaf -/

theorem returns_leafInsert {s : BplusTreeHandler A} {p par next : PageNum} {i : ℕ} {key : Key A}
    {rid : RID} {a b : List (Key A × RID)} {Q : Unit → BplusTreeHandler A → Prop}
    (hpage : s.page p = some (.leaf par next (a ++ b))) (hi : i = a.length) :
    Returns (leafInsert p i key rid) s Q ↔
      Q () (s.update p (Frame.setData (.leaf par next (a ++ (key, rid) :: b)))) := by
  unfold leafInsert
  rw [returns_bind, returns_leafNode hpage]
  simp only [returns_bind]
  rw [returns_insertItem (by simp [hi])]
  simp [hi]

/-- The leaf on `frame` was split: `left` stands there, `right` on the new page behind it. -/
structure LeafSplit (s : BplusTreeHandler A) (frame newFrame next : PageNum)
    (left right : List (Key A × RID)) (s' : BplusTreeHandler A) : Prop where
  fresh : ¬ s.allocated newFrame
  allocated_iff : ∀ q, s'.allocated q ↔ s.allocated q ∨ q = newFrame
  body_left : s'.body frame = some (.leaf 0 newFrame left)
  body_right : s'.body newFrame = some (.leaf 0 next right)
  body : ∀ q, q ≠ frame → q ≠ newFrame → s'.body q = s.body q
  parent_new : s'.parentPage newFrame ≠ none
  parentPage : ∀ q, q ≠ newFrame → s'.parentPage q = s.parentPage q
  pinCount : ∀ q, s'.pinCount q = s.pinCount q + ref newFrame q
  rootPage : s'.rootPage = s.rootPage
  allocFailures : s'.fileBufferPool.allocFailures = s.fileBufferPool.allocFailures
  pinnedFrees : s'.fileBufferPool.pinnedFrees = s.fileBufferPool.pinnedFrees
  pageCount : s.fileBufferPool.fileHeader.pageCount ≤ s'.fileBufferPool.fileHeader.pageCount
  canAllocate : ∀ n, s.fileBufferPool.canAllocate (n + 1) = s'.fileBufferPool.canAllocate n

/-- A split followed by other contents of the two leaves. -/
theorem leafSplit_of_splits {s s₁ s' : BplusTreeHandler A} {frame newFrame par next : PageNum}
    {thisBody newBody : Page A} {left right : List (Key A × RID)}
    (hsp : Splits s frame newFrame par thisBody newBody [] s₁) (hq : Quiet s₁ s' 0)
    (hpar : s.parentPage frame = some par)
    (hl : s'.page frame = some (.leaf par newFrame left))
    (hr : s'.page newFrame = some (.leaf par next right))
    (hp : ∀ q, q ≠ frame → q ≠ newFrame → s'.page q = s₁.page q) :
    LeafSplit s frame newFrame next left right s' where
  fresh := hsp.fresh
  allocated_iff := fun q => (hq.allocated_iff q).trans (hsp.allocated_iff q)
  body_left := by simp [body, hl, Page.setParent]
  body_right := by simp [body, hr, Page.setParent]
  body := fun q h1 h2 => (body_congr (hp q h1 h2)).trans (hsp.body q h1 h2)
  parent_new := by simp [parentPage, hr, Page.parent?]
  parentPage := by
    intro q hqn
    by_cases hqf : q = frame
    · rw [hqf, hpar]
      simp [parentPage, hl, Page.parent?]
    · rw [parentPage_congr (hp q hqf hqn), hsp.parentPage q hqn]
      simp
  pinCount := fun q => by rw [hq.pinCount, hsp.pinCount]; simp
  rootPage := hq.rootPage.trans hsp.rootPage
  allocFailures := hq.allocFailures.trans hsp.allocFailures
  pinnedFrees := hq.pinnedFrees.trans hsp.pinnedFrees
  pageCount := by rw [hq.fileHeader]; exact hsp.pageCount
  canAllocate := fun n => by rw [hsp.canAllocate, hq.canAllocate]

/-- The two halves of a leaf's items `a ++ b` with `x` put between `a` and `b`. -/
structure LeafHalves (a b : List (Key A × RID)) (x : Key A × RID)
    (left right : List (Key A × RID)) : Prop where
  append : left ++ right = a ++ x :: b
  le_left : (a ++ b).length / 2 ≤ left.length
  le_right : (a ++ b).length - (a ++ b).length / 2 ≤ right.length
  left_le : left.length ≤ (a ++ b).length / 2 + 1
  right_le : right.length ≤ (a ++ b).length - (a ++ b).length / 2 + 1
  left_old : ∀ y ∈ (a ++ b).take ((a ++ b).length / 2), y ∈ left
  right_old : ∀ y ∈ (a ++ b).drop ((a ++ b).length / 2), y ∈ right

theorem leafHalves_left {a b : List (Key A × RID)} {x : Key A × RID}
    (hlt : a.length < (a ++ b).length / 2) :
    LeafHalves a b x (a ++ x :: b.take ((a ++ b).length / 2 - a.length))
      ((a ++ b).drop ((a ++ b).length / 2)) := by
  have htake : (a ++ b).take ((a ++ b).length / 2) =
      a ++ b.take ((a ++ b).length / 2 - a.length) := by
    rw [List.take_append, List.take_of_length_le (by omega)]
  have hdrop : (a ++ b).drop ((a ++ b).length / 2) =
      b.drop ((a ++ b).length / 2 - a.length) := by
    rw [List.drop_append, List.drop_eq_nil_of_le (by omega), List.nil_append]
  have hlen := congrArg List.length hdrop
  have hold : ∀ y ∈ (a ++ b).take ((a ++ b).length / 2),
      y ∈ a ++ x :: b.take ((a ++ b).length / 2 - a.length) := by
    intro y hy
    rw [htake] at hy
    simp only [List.mem_append, List.mem_cons] at hy ⊢
    exact hy.imp_right Or.inr
  refine ⟨?_, ?_, ?_, ?_, ?_, hold, fun y hy => hy⟩
  · rw [hdrop]
    simp [List.take_append_drop]
  all_goals
    simp only [List.length_append, List.length_cons, List.length_take, List.length_drop] at *
    omega

theorem leafHalves_right {a b : List (Key A × RID)} {x : Key A × RID}
    (hle : (a ++ b).length / 2 ≤ a.length) :
    LeafHalves a b x ((a ++ b).take ((a ++ b).length / 2))
      (a.drop ((a ++ b).length / 2) ++ x :: b) := by
  have htake : (a ++ b).take ((a ++ b).length / 2) = a.take ((a ++ b).length / 2) :=
    List.take_append_of_le_length hle
  have hdrop : (a ++ b).drop ((a ++ b).length / 2) = a.drop ((a ++ b).length / 2) ++ b :=
    List.drop_append_of_le_length hle
  have hold : ∀ y ∈ (a ++ b).drop ((a ++ b).length / 2),
      y ∈ a.drop ((a ++ b).length / 2) ++ x :: b := by
    intro y hy
    rw [hdrop] at hy
    simp only [List.mem_append, List.mem_cons] at hy ⊢
    exact hy.imp_right Or.inr
  refine ⟨?_, ?_, ?_, ?_, ?_, fun y hy => hy, hold⟩
  · rw [htake, ← List.append_assoc, List.take_append_drop]
  all_goals
    simp only [List.length_append, List.length_cons, List.length_take, List.length_drop] at *
    omega

section leafNode

variable [LinearOrder (Key A)] {h : IndexFileHeader A} {s : BplusTreeHandler A}
  {frame par next : PageNum} {key : Key A} {rid : RID} {a b : List (Key A × RID)}

theorem returns_insertEntryIntoLeafNode_dup (hh : h.Orders) {v : RID}
    (hpage : s.page frame = some (.leaf par next (a ++ (key, v) :: b)))
    (ha : ∀ x ∈ a, x.1 < key) (hb : ∀ x ∈ b, key < x.1) {Q : RC → BplusTreeHandler A → Prop} :
    Returns (insertEntryIntoLeafNode h frame key rid) s Q ↔ Q .recordDuplicateKey s := by
  unfold insertEntryIntoLeafNode
  rw [returns_bind, returns_leafNode hpage]
  simp only [leafLookup_present hh ha hb, ↓reduceIte, returns_pure]

theorem returns_insertEntryIntoLeafNode_room (hh : h.Orders)
    (hpage : s.page frame = some (.leaf par next (a ++ b))) (ha : ∀ x ∈ a, x.1 < key)
    (hb : ∀ x ∈ b, key < x.1) (hroom : (a ++ b).length < h.leafMaxSize) :
    Returns (insertEntryIntoLeafNode h frame key rid) s fun rc s' => rc = .success ∧
      s'.body = Function.update s.body frame (some (.leaf 0 next (a ++ (key, rid) :: b))) ∧
      s'.parentPage = s.parentPage ∧ Quiet s s' (-ref frame) := by
  have hne : s.page frame ≠ none := by simp [hpage]
  unfold insertEntryIntoLeafNode
  rw [returns_bind, returns_leafNode hpage]
  simp only [leafLookup_absent hh ha hb, Bool.false_eq_true, ↓reduceIte, hroom, returns_bind]
  rw [returns_leafInsert hpage rfl]
  simp only [returns_markDirty, returns_unpinPage, returns_pure, true_and, body_unpin,
    body_markDirty, parentPage_unpin, parentPage_markDirty]
  refine ⟨body_setData hne _, ?_, ?_⟩
  · rw [parentPage_setData hne]
    exact Function.update_eq_self_iff.mpr (by simp [parentPage, hpage, Page.parent?])
  · refine (((Quiet.setData _ _ _).trans (Quiet.markDirty _ _)).trans (Quiet.unpin ?_)).congr
      (by simp)
    simp [hpage]

/-- The leaf is full: it is split, and the new leaf goes to the parent. -/
theorem returns_insertEntryIntoLeafNode_full (hh : h.Orders)
    (hpage : s.page frame = some (.leaf par next (a ++ b))) (halloc : s.allocated frame)
    (ha : ∀ x ∈ a, x.1 < key) (hb : ∀ x ∈ b, key < x.1) (hfull : ¬ (a ++ b).length < h.leafMaxSize)
    {Q : RC → BplusTreeHandler A → Prop}
    (hfail : ∀ rc s', rc.fail = true → AllocFails s s' → Q rc s')
    (hsplit : ∀ newFrame left right s', LeafSplit s frame newFrame next left right s' →
      LeafHalves a b (key, rid) left right →
      Returns (do
        let (_, _, newItems) ← leafNode newFrame
        let first ← itemAt newItems 0
        insertEntryIntoParent h (← linkBound) frame newFrame first.1) s' Q) :
    Returns (insertEntryIntoLeafNode h frame key rid) s Q := by
  have hpar : s.parentPage frame = some par := by simp [parentPage, hpage, Page.parent?]
  unfold insertEntryIntoLeafNode
  rw [returns_bind, returns_leafNode hpage]
  simp only [leafLookup_absent hh ha hb, Bool.false_eq_true, ↓reduceIte, hfull]
  refine (returns_split_leaf hpage halloc).bind ?_
  rintro ⟨rc, nf⟩ s₁ (⟨rfl, hsp⟩ | ⟨hf, haf⟩)
  -- the split fails only when no page can be allocated
  swap
  · simp only at hf haf
    simp only [hf, ↓reduceIte, returns_pure]
    exact hfail rc s₁ hf haf
  simp only at hsp
  simp only [fail_success, Bool.false_eq_true, ↓reduceIte]
  have hne : frame ≠ nf := fun he => hsp.fresh (he ▸ halloc)
  obtain ⟨n, hn⟩ : ∃ n, n = (a ++ b).length / 2 := ⟨_, rfl⟩
  rw [← hn] at hsp
  have hframe₁ : s₁.page frame = some (.leaf par next ((a ++ b).take n)) :=
    page_eq_leaf hsp.body_this (by rw [hsp.parentPage _ hne]; simpa using hpar)
  have hnew₁ : s₁.page nf = some (.leaf par invalidPageNum ((a ++ b).drop n)) :=
    page_eq_leaf hsp.body_new (hsp.parent_new (by simp))
  rw [returns_bind, returns_leafNode hframe₁]
  dsimp only
  rw [returns_bind, returns_leafNode hnew₁]
  simp only [returns_bind, returns_setPage]
  -- the new leaf takes over the link to the next leaf, and the old one links to it
  generalize hs₂ : (s₁.update nf (Frame.setData _)).update frame (Frame.setData _) = s₂
  have hframe₂ : s₂.page frame = some (.leaf par nf ((a ++ b).take n)) := by
    simp [← hs₂, hne, hframe₁]
  have hnew₂ : s₂.page nf = some (.leaf par next ((a ++ b).drop n)) := by
    simp [← hs₂, hne.symm, hnew₁]
  have hother₂ : ∀ q, q ≠ frame → q ≠ nf → s₂.page q = s₁.page q := by
    intro q h1 h2
    simp [← hs₂, h1, h2]
  have hq₂ : Quiet s₁ s₂ 0 := by
    rw [← hs₂]
    simpa using (Quiet.setData _ _ _).trans (Quiet.setData _ _ _)
  have hlen : ((a ++ b).take n).length = n := by
    rw [List.length_take, hn]
    omega
  rw [hlen, returns_ite]
  -- an insert position below the cut is in the left half, one at the cut in the right half
  by_cases hlt : a.length < n
  · rw [if_pos hlt]
    have htake : (a ++ b).take n = a ++ b.take (n - a.length) := by
      rw [List.take_append, List.take_of_length_le (by omega)]
    rw [htake] at hframe₂
    rw [returns_bind, returns_leafInsert hframe₂ rfl]
    refine hsplit nf (a ++ (key, rid) :: b.take (n - a.length)) ((a ++ b).drop n) _
      (leafSplit_of_splits hsp ?_ hpar ?_ ?_ ?_) ?_
    · simpa using hq₂.trans (Quiet.setData _ _ _)
    · simp [hframe₂]
    · simp [hne.symm, hnew₂]
    · intro q h1 h2
      simp [h1, hother₂ q h1 h2]
    · rw [hn]
      exact leafHalves_left (by omega)
  · rw [if_neg hlt]
    have hdrop : (a ++ b).drop n = a.drop n ++ b := List.drop_append_of_le_length (by omega)
    rw [hdrop] at hnew₂
    rw [returns_bind, returns_leafInsert hnew₂ (by simp)]
    refine hsplit nf ((a ++ b).take n) (a.drop n ++ (key, rid) :: b) _
      (leafSplit_of_splits hsp ?_ hpar ?_ ?_ ?_) ?_
    · simpa using hq₂.trans (Quiet.setData _ _ _)
    · simp [hne, hframe₂]
    · simp [hnew₂]
    · intro q h1 h2
      simp [h2, hother₂ q h1 h2]
    · rw [hn]
      exact leafHalves_right (by omega)

end leafNode

/-! ## The leaves after an insertion -/

variable [LinearOrder (Key A)] {h : IndexFileHeader A} {r : Regime A}
  {s s' : BplusTreeHandler A} {lo leafLo : ℕ}
  {key : Key A} {pre post : List (Leaf A)} {l : Leaf A} {levs : List (Level A)}
  {a b left right : List (Key A × RID)}

theorem LeafOk.cut (hok : LeafOk r.good l) (key : Key A) :
    (∃ a b, l.items = a ++ (key, key.rid) :: b ∧ (∀ x ∈ a, x.1 < key) ∧ ∀ x ∈ b, key < x.1) ∨
      ∃ a b, l.items = a ++ b ∧ (∀ x ∈ a, x.1 < key) ∧ ∀ x ∈ b, key < x.1 := by
  obtain ⟨a, hi, heq, ha, hge, htail⟩ := exists_cut key hok.increasing
  cases hi with
  | nil => exact Or.inr ⟨a, [], heq, ha, by simp⟩
  | cons x b =>
    rcases (hge x (by simp)).eq_or_lt with hx | hx
    · refine Or.inl ⟨a, b, ?_, ha, by simpa using htail⟩
      have hv := hok.value x (by simp [heq])
      obtain ⟨k, v⟩ := x
      simp only at hx hv
      rw [heq, hv, ← hx]
    · refine Or.inr ⟨a, x :: b, heq, ha, fun y hy => ?_⟩
      rcases List.mem_cons.mp hy with rfl | hy
      · exact hx
      · exact htail y (by simpa using hy)

theorem LeafOk.insert (hok : LeafOk r.good l) (hitems : l.items = a ++ b) (ha : ∀ x ∈ a, x.1 < key)
    (hb : ∀ x ∈ b, key < x.1) (hsep : l.sep ≤ (key : WithBot (Key A))) (hgood : r.good key) :
    LeafOk r.good ⟨l.sep, l.page, a ++ (key, key.rid) :: b⟩ := by
  have hinc := hok.increasing
  have hle := hok.sep_le
  have hv := hok.value
  have hg := hok.good_items
  rw [hitems] at hinc hle hv hg
  obtain ⟨h1, h2, h3⟩ := List.pairwise_append.mp hinc
  have hmem : ∀ {P : Key A × RID → Prop}, (∀ x ∈ a ++ b, P x) → P (key, key.rid) →
      ∀ x ∈ a ++ (key, key.rid) :: b, P x := by
    intro P hP hk x hx
    obtain rfl | hx := mem_row.mp hx
    · exact hk
    · exact hP x (List.mem_append.mpr hx)
  refine ⟨List.pairwise_append.mpr ⟨h1, List.pairwise_cons.mpr ⟨hb, h2⟩, ?_⟩, hmem hle hsep,
    hmem hv rfl, hmem hg hgood, hok.good_sep⟩
  intro x hx y hy
  rcases List.mem_cons.mp hy with rfl | hy
  · exact ha x hx
  · exact h3 x hx y hy

/-- The keys of a leaf with a new key stay below the leaves behind it. -/
theorem Shape.below_post (ht : Shape h r s lo (pre ++ l :: post) levs) (hitems : l.items = a ++ b)
    (hl : LeafFor key l post) :
    ∀ x ∈ a ++ (key, key.rid) :: b, ∀ l' ∈ post, (x.1 : WithBot (Key A)) < l'.sep := by
  intro x hx l' hl'
  have hold : x ∈ l.items → (x.1 : WithBot (Key A)) < l'.sep :=
    (List.pairwise_cons.mp (List.pairwise_append.mp ht.apart).2.1).1 l' hl' x
  rw [hitems] at hold
  obtain rfl | hx := mem_row.mp hx
  · exact hl.2 l' hl'
  · exact hold (List.mem_append.mpr hx)

theorem LeafSplit.pending {newFrame next : PageNum} {key' : Key A} {v : RID}
    (hs : LeafSplit s l.page newFrame next left ((key', v) :: right) s')
    (ht : Shape h r s lo (pre ++ l :: post) levs)
    (hok : LeafOk r.good ⟨l.sep, l.page, left ++ (key', v) :: right⟩) (hleft : left ≠ [])
    (hpost : ∀ l' ∈ post, (key' : WithBot (Key A)) < l'.sep) :
    Pending h lo s' (leafHeads pre) l.sep l.page newFrame key' (leafHeads post) levs := by
  have hover : Over h s lo none (leafHeads pre ++ (l.sep, l.page) :: leafHeads post) levs := by
    simpa [Leaf.asChild] using ht.isOver
  have hfresh : ∀ p ∈ childPages (leafHeads pre ++ (l.sep, l.page) :: leafHeads post) ++
      levelPages levs, p ≠ newFrame :=
    fun p hp => ne_of_not_allocated (hover.allocated p hp) hs.fresh
  refine ⟨hover.congr hs.rootPage ?_ ?_ ?_, (hs.allocated_iff _).mpr (Or.inr rfl), ?_, ?_,
    hs.parent_new, ?_⟩
  · intro p hp
    refine hs.body p ?_ (hfresh p (List.mem_append_right _ hp))
    rintro rfl
    exact hover.not_mem_levelPages (by simp) hp
  · exact fun p hp => hs.parentPage p (hfresh p hp)
  · exact fun p hp => (hs.allocated_iff p).mpr (Or.inl (hover.allocated p hp))
  · exact fun hm => hfresh _ (List.mem_append_left _ hm) rfl
  · exact fun hm => hfresh _ (List.mem_append_right _ hm) rfl
  · obtain ⟨x, left', rfl⟩ := List.exists_cons_of_ne_nil hleft
    have hsep : l.sep < (key' : WithBot (Key A)) := by
      refine (hok.sep_le x (by simp)).trans_lt (WithBot.coe_lt_coe.mpr ?_)
      exact (List.pairwise_cons.mp hok.increasing).1 (key', v) (by simp)
    obtain ⟨h1, h2, h3⟩ := List.pairwise_append.mp hover.increasing
    obtain ⟨h4, h5⟩ := List.pairwise_cons.mp h2
    refine List.pairwise_append.mpr ⟨h1, List.pairwise_cons.mpr ⟨?_, List.pairwise_cons.mpr
      ⟨?_, h5⟩⟩, ?_⟩
    · intro c hc
      rcases List.mem_cons.mp hc with rfl | hc
      · exact hsep
      · exact h4 c hc
    · intro c hc
      obtain ⟨l', hl', rfl⟩ := List.mem_map.mp hc
      exact hpost l' hl'
    · intro c hc c' hc'
      rcases List.mem_cons.mp hc' with rfl | hc'
      · exact h3 c hc _ (by simp)
      · rcases List.mem_cons.mp hc' with rfl | hc'
        · exact (h3 c hc (l.sep, l.page) (by simp)).trans hsep
        · exact h3 c hc c' (by simp [hc'])

theorem LeafSplit.linked {newFrame next : PageNum} (key' : WithBot (Key A))
    (hs : LeafSplit s l.page newFrame next left right s')
    (hnext : r.chained → next = chainHead invalidPageNum post)
    (ht : Shape h r s lo (pre ++ l :: post) levs) :
    Linked s' r.chained invalidPageNum
      (pre ++ ⟨l.sep, l.page, left⟩ :: ⟨key', newFrame, right⟩ :: post) := by
  have hpages := (List.nodup_append.mp ht.isOver.nodup).1
  simp only [leafHeads_append, leafHeads_cons, childPages_append, childPages_cons,
    asChild_snd] at hpages
  refine ht.linked.replace [l]
    [⟨l.sep, l.page, left⟩, ⟨key', newFrame, right⟩] (fun _ => rfl) ?_ ?_
  · exact ⟨⟨_, hs.body_left, fun _ => rfl⟩, ⟨_, hs.body_right, hnext⟩, trivial⟩
  · intro m hm
    refine hs.body _ ?_ (ne_of_not_allocated (ht.isOver.allocated _ (List.mem_append_left _
      (mem_leafPages (mem_row_of_other hm)))) hs.fresh)
    rcases hm with hm | hm
    · exact fun he => (List.nodup_append.mp hpages).2.2 _ (mem_leafPages hm) _ (by simp) he
    · exact fun he => (List.nodup_cons.mp (List.nodup_append.mp hpages).2.1).1
        (he ▸ mem_leafPages hm)

/-! ## `insert_entry_into_leaf_node` -/

/-- The entries `es'` are those of `es` and the one of `key` in its place. -/
def Adds (key : Key A) (es es' : List (Key A × RID)) : Prop :=
  ∃ a b, es = a ++ b ∧ es' = a ++ (key, key.rid) :: b

def leafPagesNeeded (h : IndexFileHeader A) (s : BplusTreeHandler A) (frame : PageNum)
    (key : Key A) : ℕ :=
  match s.page frame with
  | some (.leaf _ _ items) =>
    if (leafLookup h items key).2 then 0
    else if items.length < h.leafMaxSize then 0
    else 1 + pagesNeeded h s s.fileBufferPool.fileHeader.pageCount frame
  | _ => 0

/-- The result of inserting an absent key into the leaf on the pinned page `frame`: with every
allocation served the tree has the key; when the first fails nothing has happened, when a later
one fails an entry is lost. -/
structure InsertsEntry (h : IndexFileHeader A) (r : Regime A) (lo leafLo : ℕ)
    (s : BplusTreeHandler A) (need : ℕ)
    (key : Key A) (leaves : List (Leaf A)) (frame : PageNum) (rc : RC) (s' : BplusTreeHandler A) :
    Prop where
  le : s.fileBufferPool.allocFailures ≤ s'.fileBufferPool.allocFailures
  served : s'.fileBufferPool.allocFailures = s.fileBufferPool.allocFailures ↔
    s.fileBufferPool.canAllocate need = true
  done : s'.fileBufferPool.allocFailures = s.fileBufferPool.allocFailures → rc = .success ∧
    ∃ leaves' levs', Tree h r s' lo leafLo leaves' levs' ∧
      Adds key (entriesOf leaves) (entriesOf leaves') ∧
      (∀ q, s'.pinCount q = s.pinCount q - ref frame q) ∧
      s'.fileBufferPool.pinnedFrees = s.fileBufferPool.pinnedFrees
  failed : s'.fileBufferPool.allocFailures ≠ s.fileBufferPool.allocFailures → rc.fail = true ∧
    (s.fileBufferPool.canAllocate 1 = false ∧ AllocFails s s' ∨
      s.fileBufferPool.canAllocate 1 = true ∧ ∃ leaves' levs',
        Tree h r.unchained s' lo leafLo leaves' levs' ∧
        ∃ x ∈ entriesOf leaves, x ∉ entriesOf leaves')

theorem not_mem_of_lost {fn ln bn : List (Leaf A)} {m : Leaf A} {good : Key A → Prop}
    (hok : ∀ l ∈ fn ++ ln ++ bn, LeafOk good l) (hapart : Apart (fn ++ ln ++ bn)) (hm : m ∈ ln) :
    ∀ x ∈ m.items, x ∉ entriesOf (fn ++ bn) := by
  intro x hx hmem
  have hinc := entriesOf_increasing hok hapart
  simp only [entriesOf_append] at hinc hmem
  obtain ⟨h1, -, h3⟩ := List.pairwise_append.mp hinc
  have hxl : x ∈ entriesOf ln := mem_entriesOf.mpr ⟨m, hm, hx⟩
  rcases List.mem_append.mp hmem with hmem | hmem
  · exact lt_irrefl _ ((List.pairwise_append.mp h1).2.2 x hmem x hxl)
  · exact lt_irrefl _ (h3 x (List.mem_append_right _ hxl) x hmem)

omit [LinearOrder (Key A)] in
theorem adds_leaf (hitems : l.items = a ++ b) :
    Adds key (entriesOf (pre ++ l :: post))
      (entriesOf pre ++ (a ++ (key, key.rid) :: b) ++ entriesOf post) :=
  ⟨entriesOf pre ++ a, b ++ entriesOf post, by simp [hitems], by simp⟩

/-- A tree whose leaf took in the key. -/
theorem Tree.insertsEntry_room (ht : Tree h r s lo leafLo (pre ++ l :: post) levs)
    (hl : LeafFor key l post) (hgood : r.good key) (hitems : l.items = a ++ b)
    (ha : ∀ x ∈ a, x.1 < key) (hb : ∀ x ∈ b, key < x.1) (hroom : l.items.length < h.leafMaxSize)
    {next : PageNum} (hbody : s'.body = Function.update s.body l.page
      (some (.leaf 0 next (a ++ (key, key.rid) :: b))))
    (hnext : r.chained → next = chainHead invalidPageNum post)
    (hparent : s'.parentPage = s.parentPage) (hq : Quiet s s' (-ref l.page)) :
    InsertsEntry h r lo leafLo s 0 key (pre ++ l :: post) l.page .success s' := by
  have hok := (ht.leafOk l (by simp)).insert hitems ha hb hl.1 hgood
  have hshape := ht.toShape.setItems hq.rootPage (fun p hp => (hq.allocated_iff p).mpr hp) hbody
    hnext hparent hok (ht.toShape.below_post hitems hl)
  refine ⟨hq.allocFailures.ge, by simp [hq.allocFailures, FileBufferPool.canAllocate],
    fun _ => ⟨rfl, _, levs, ⟨hshape, ?_⟩, ?_, ?_, hq.pinnedFrees⟩,
    fun hne => absurd hq.allocFailures hne⟩
  · intro m hm
    obtain rfl | hm := mem_row.mp hm
    · have := (ht.sized l (by simp)).2
      simp only [hitems, List.length_append, List.length_cons] at this hroom ⊢
      omega
    · exact ht.sized m (mem_row_of_other hm)
  · simpa using adds_leaf hitems
  · intro q
    rw [hq.pinCount, Pi.neg_apply, sub_eq_add_neg]

/-- A tree with a single row of leaves, none beside the root, has no other leaf. -/
theorem Shape.levs_ne_nil {leaves : List (Leaf A)}
    (hover : Over h s lo none (leafHeads leaves) levs)
    (hlen : 2 ≤ leaves.length) : levs ≠ [] := by
  rintro rfl
  obtain ⟨k, hk, -⟩ := hover.above
  have := congrArg List.length hk
  simp only [leafHeads, List.length_map, List.length_cons, List.length_nil] at this
  omega

theorem Tree.sized_other {m : Leaf A} (ht : Tree h r s lo leafLo (pre ++ l :: post) levs)
    (hm : m ∈ pre ∨ m ∈ post) : m.items.length ≤ h.leafMaxSize ∧ leafLo ≤ m.items.length := by
  have hlevs : levs ≠ [] := by
    refine Shape.levs_ne_nil ht.isOver ?_
    simp only [List.length_append, List.length_cons]
    rcases hm with hm | hm
    · have := List.length_pos_of_mem hm
      omega
    · have := List.length_pos_of_mem hm
      omega
  simpa only [hlevs, ↓reduceIte] using ht.sized m (mem_row_of_other hm)

omit [LinearOrder (Key A)] in
/-- Every leaf of the split row holds an entry that was there before. -/
theorem LeafHalves.old_entry {m : Leaf A} {x : Key A × RID} {sep : WithBot (Key A)}
    {newFrame : PageNum} (hhalves : LeafHalves a b x left right) (hitems : l.items = a ++ b)
    (hlen : 2 ≤ (a ++ b).length) (hne : ∀ m ∈ pre ++ l :: post, m.items ≠ [])
    (hm : m ∈ pre ++ ⟨l.sep, l.page, left⟩ :: ⟨sep, newFrame, right⟩ :: post) :
    ∃ y ∈ m.items, y ∈ entriesOf (pre ++ l :: post) := by
  have hother : m ∈ pre ++ l :: post → ∃ y ∈ m.items, y ∈ entriesOf (pre ++ l :: post) := by
    intro hm'
    obtain ⟨y, items', hy⟩ := List.exists_cons_of_ne_nil (hne m hm')
    exact ⟨y, by simp [hy], mem_entriesOf.mpr ⟨m, hm', by simp [hy]⟩⟩
  have hhalf : ∀ {old new : List (Key A × RID)}, 0 < old.length → (∀ y ∈ old, y ∈ a ++ b) →
      (∀ y ∈ old, y ∈ new) → ∃ y ∈ new, y ∈ entriesOf (pre ++ l :: post) := by
    intro old new hpos hsub hnew
    obtain ⟨y, rest, hy⟩ := List.exists_cons_of_length_pos hpos
    refine ⟨y, hnew y (by simp [hy]), mem_entriesOf.mpr ⟨l, by simp, ?_⟩⟩
    rw [hitems]
    exact hsub y (by simp [hy])
  obtain rfl | rfl | hm := mem_row_two.mp hm
  · refine hhalf ?_ (fun y hy => List.mem_of_mem_take hy) hhalves.left_old
    rw [List.length_take]
    omega
  · refine hhalf ?_ (fun y hy => List.mem_of_mem_drop hy) hhalves.right_old
    rw [List.length_drop]
    omega
  · exact hother (mem_row_of_other hm)

/-- A tree whose full leaf was split, after the call for the parent. -/
theorem Tree.insertsEntry_split {newFrame next : PageNum} {key' : Key A} {v : RID} {rc : RC}
    {s₁ : BplusTreeHandler A} (ht : Tree h r s lo leafLo (pre ++ l :: post) levs)
    (hl : LeafFor key l post) (hgood : r.good key) (hitems : l.items = a ++ b)
    (ha : ∀ x ∈ a, x.1 < key) (hb : ∀ x ∈ b, key < x.1) (hfull : ¬ l.items.length < h.leafMaxSize)
    (hpos : 1 ≤ leafLo) (hleafLo : leafLo ≤ h.leafMaxSize / 2)
    (hs : LeafSplit s l.page newFrame next left ((key', v) :: right) s₁)
    (hnext : r.chained → next = chainHead invalidPageNum post)
    (hhalves : LeafHalves a b (key, key.rid) left ((key', v) :: right))
    (hpend : Pending h lo s₁ (leafHeads pre) l.sep l.page newFrame key' (leafHeads post) levs)
    {need : ℕ} (hins : InsertsChild h lo s₁ need l.page newFrame
      (leafHeads pre ++ (l.sep, l.page) :: ((key' : WithBot (Key A)), newFrame) :: leafHeads post)
      levs rc s') :
    InsertsEntry h r lo leafLo s (1 + need) key (pre ++ l :: post) l.page rc s' := by
  have hok := (ht.leafOk l (by simp)).insert hitems ha hb hl.1 hgood
  have hlt := ht.toShape.below_post hitems hl
  rw [← hhalves.append] at hok hlt
  have hlen : (a ++ b).length = h.leafMaxSize := by
    rw [← hitems]
    exact le_antisymm (ht.sized l (by simp)).1 (not_lt.mp hfull)
  have hleft : left ≠ [] := by
    have := hhalves.le_left
    exact List.ne_nil_of_length_pos (by omega)
  obtain ⟨hoks₁, hapart₁⟩ := leaves_setItems ht.leafOk ht.apart hok hlt
  obtain ⟨hoks, hapart⟩ := leaves_split hoks₁ hapart₁ hleft
  have hlinked := hs.linked (key' : WithBot (Key A)) hnext ht.toShape
  set leaves' := pre ++ ⟨l.sep, l.page, left⟩ :: ⟨key', newFrame, (key', v) :: right⟩ :: post
    with hleaves'
  have hcur : leafHeads leaves' = leafHeads pre ++ (l.sep, l.page) ::
      ((key' : WithBot (Key A)), newFrame) :: leafHeads post := by
    simp [hleaves', Leaf.asChild]
  have hlow : ∀ m ∈ leaves', s₁.allocated m.page ∧ m.page ∉ levelPages levs := by
    intro m hm
    exact hpend.child_low (hcur ▸ mem_leafPages hm)
  rw [← hcur] at hins
  obtain ⟨hle, hserved, hok', hbad⟩ := hins
  rw [hs.allocFailures] at hle hserved hok' hbad
  have hsized : ∀ m ∈ leaves', m.items.length ≤ h.leafMaxSize ∧ leafLo ≤ m.items.length := by
    have h1 := hhalves.le_left
    have h2 := hhalves.le_right
    have h3 := hhalves.left_le
    have h4 := hhalves.right_le
    rw [hlen] at h1 h2 h3 h4
    intro m hm
    obtain rfl | rfl | hm := mem_row_two.mp hm
    · exact ⟨by simp only; omega, by simp only; omega⟩
    · exact ⟨by simp only; omega, by simp only; omega⟩
    · exact ht.sized_other hm
  refine ⟨hle, ?_, fun he => ?_, fun hne => ?_⟩
  · rw [hserved, Nat.add_comm, hs.canAllocate]
  · -- the parent has taken in the new leaf
    obtain ⟨rfl, levs', hdone⟩ := hok' he
    have hne' : levs' ≠ [] := Shape.levs_ne_nil hdone.isOver (by simp [hleaves']; omega)
    refine ⟨rfl, leaves', levs', ⟨⟨hdone.isOver, ?_, hoks, hapart⟩, ?_⟩, ?_, ?_, ?_⟩
    · exact hlinked.congr fun m hm => hdone.rebuilt.body _ (hlow m hm).1 (hlow m hm).2
    · simpa only [if_neg hne'] using hsized
    · have : Adds key (entriesOf (pre ++ l :: post)) _ := adds_leaf hitems
      rw [← hhalves.append] at this
      simpa [hleaves'] using this
    · intro q
      rw [hdone.pinCount, hs.pinCount]
      ring
    · rw [hdone.pinnedFrees, hs.pinnedFrees]
  · -- an allocation further up failed: the leaves `ln` are lost, those before and behind stay
    obtain ⟨hfail, f, lost, bk, levs', hcut, hloses⟩ := hbad hne
    refine ⟨hfail, Or.inr ⟨by rw [hs.canAllocate]; rfl, ?_⟩⟩
    have hbodies : ∀ m ∈ leaves', ∃ next, s'.body m.page = some (.leaf 0 next m.items) := by
      intro m hm
      obtain ⟨p, q, hpq⟩ := List.append_of_mem hm
      rw [hpq] at hlinked
      obtain ⟨next, hbody, -⟩ := hlinked.body
      have hun := hloses.rebuilt.body _ (hlow m hm).1 (hlow m hm).2
      exact ⟨next, hun.trans hbody⟩
    have hnonempty : ∀ m ∈ pre ++ l :: post, m.items ≠ [] := by
      intro m hm
      have := (ht.sized m hm).2
      refine List.ne_nil_of_length_pos ?_
      split at this <;> omega
    clear_value leaves'
    obtain ⟨fl, bn, rfl, hfl, rfl⟩ := List.map_eq_append_iff.mp hcut
    obtain ⟨fn, ln, rfl, rfl, rfl⟩ := List.map_eq_append_iff.mp hfl
    have hsub : (fn ++ bn).Sublist (fn ++ ln ++ bn) :=
      (List.sublist_append_left _ _).append (List.Sublist.refl _)
    refine ⟨fn ++ bn, levs', ⟨⟨?_, linked_unchained fun m hm => hbodies m (hsub.subset hm),
      fun m hm => hoks m (hsub.subset hm), hapart.sublist hsub⟩, fun m hm => ?_⟩, ?_⟩
    · rw [leafHeads_append]
      exact hloses.isOver
    · have := hsized m (hsub.subset hm)
      refine ⟨this.1, ?_⟩
      split <;> omega
    · obtain ⟨m, ln', rfl⟩ := List.exists_cons_of_ne_nil (l := ln) (by
        rintro rfl
        exact hloses.lost_ne rfl)
      obtain ⟨x, hx, hmem⟩ := hhalves.old_entry hitems (by omega) hnonempty
        (hleaves' ▸ (by simp : m ∈ fn ++ m :: ln' ++ bn))
      exact ⟨x, hmem, not_mem_of_lost hoks hapart (by simp) x hx⟩

theorem returns_insertEntryIntoLeafNode (hh : h.Orders)
    (ht : Tree h r s lo leafLo (pre ++ l :: post) levs) (hl : LeafFor key l post)
    (hgood : r.good key) (hitems : l.items = a ++ b) (ha : ∀ x ∈ a, x.1 < key)
    (hb : ∀ x ∈ b, key < x.1) (hmax : 2 ≤ h.internalMaxSize) (hlo : lo ≤ h.internalMaxSize / 2)
    (hpos : 1 ≤ leafLo) (hleafLo : leafLo ≤ h.leafMaxSize / 2) :
    Returns (insertEntryIntoLeafNode h l.page key key.rid) s
      (InsertsEntry h r lo leafLo s (leafPagesNeeded h s l.page key) key (pre ++ l :: post)
        l.page) := by
  obtain ⟨par, next, hpar, hpage, hnext⟩ := ht.page_leaf
  rw [hitems] at hpage
  have halloc : s.allocated l.page :=
    ht.isOver.allocated _ (List.mem_append_left _ (mem_leafPages (by simp)))
  by_cases hroom : (a ++ b).length < h.leafMaxSize
  · have hneed : leafPagesNeeded h s l.page key = 0 := by
      unfold leafPagesNeeded
      rw [hpage]
      simp only [leafLookup_absent hh ha hb, Bool.false_eq_true, ↓reduceIte, hroom]
    rw [hneed]
    refine (returns_insertEntryIntoLeafNode_room hh hpage ha hb hroom).mono ?_
    rintro rc s' ⟨rfl, hbody, hparent, hq⟩
    exact ht.insertsEntry_room hl hgood hitems ha hb (by rwa [hitems]) hbody hnext
      hparent hq
  · have hneed : leafPagesNeeded h s l.page key =
        1 + pagesNeeded h s s.fileBufferPool.fileHeader.pageCount l.page := by
      unfold leafPagesNeeded
      rw [hpage]
      simp only [leafLookup_absent hh ha hb, Bool.false_eq_true, ↓reduceIte, hroom]
    rw [hneed]
    refine returns_insertEntryIntoLeafNode_full hh hpage halloc ha hb hroom ?_ ?_
    · -- the leaf is full and cannot be split
      intro rc s' hfail hf
      refine ⟨by rw [hf.allocFailures]; omega, ?_, fun he => ?_, fun _ =>
        ⟨hfail, Or.inl ⟨hf.canAllocate 0, hf⟩⟩⟩
      · rw [Nat.add_comm, hf.canAllocate]
        simp [hf.allocFailures]
      · rw [hf.allocFailures] at he
        omega
    · intro newFrame left right s₁ hs hhalves
      have hlen : (a ++ b).length = h.leafMaxSize := by
        rw [← hitems] at hroom ⊢
        exact le_antisymm (ht.sized l (by simp)).1 (not_lt.mp hroom)
      obtain ⟨x, right', rfl⟩ := List.exists_cons_of_ne_nil (l := right) (by
        have := hhalves.le_right
        exact List.ne_nil_of_length_pos (by omega))
      obtain ⟨key', v⟩ := x
      have hok := (ht.leafOk l (by simp)).insert hitems ha hb hl.1 hgood
      have hlt := ht.toShape.below_post hitems hl
      rw [← hhalves.append] at hok hlt
      have hleft : left ≠ [] := by
        have := hhalves.le_left
        exact List.ne_nil_of_length_pos (by omega)
      have hpend := hs.pending ht.toShape hok hleft fun l' hl' => hlt (key', v) (by simp) l' hl'
      obtain ⟨par', hpage'⟩ := exists_page_leaf hs.body_right
      rw [returns_bind, returns_leafNode hpage']
      dsimp only
      rw [returns_bind, returns_itemAt (i := 0) (x := (key', v)) (by simp) (by simp)]
      rw [returns_bind, returns_linkBound]
      have hrows := ht.isOver.length_lt
      -- the split has not changed how many pages the rows above need
      have hneed' : pagesNeeded h s₁ s₁.fileBufferPool.fileHeader.pageCount l.page =
          pagesNeeded h s s.fileBufferPool.fileHeader.pageCount l.page := by
        have hover' : Over h s₁ lo none (leafHeads (pre ++ l :: post)) levs := by
          simpa [Leaf.asChild] using hpend.isOver
        exact pagesNeeded_congr (Or.inr (lt_min hrows (hrows.trans_le hs.pageCount))) ht.isOver
          hover' (mem_leafPages (by simp))
      rw [← hneed']
      refine (returns_insertEntryIntoParent hh hmax hlo levs (hrows.trans_le hs.pageCount)
        hpend).mono ?_
      intro rc s' hins
      exact ht.insertsEntry_split hl hgood hitems ha hb (by rwa [hitems]) hpos hleafLo
        hs hnext hhalves
        hpend hins

end TDB
