import TDB.TreeLeaves
import TDB.TreeInsert

namespace TDB

open BplusTreeHandler Exec

variable {A : Type} {h : IndexFileHeader A} {s : BplusTreeHandler A}

/-! ## Changing the parent of two siblings -/

theorem returns_internalRemove {p par : PageNum} {index : ℕ} {a b : List (Child A)} {c : Child A}
    {Q : Unit → BplusTreeHandler A → Prop}
    (hpage : s.page p = some (.internal par (stored h (a ++ c :: b)))) (hi : index = a.length) :
    Returns (internalRemove p index) s Q ↔
      Q () (s.update p (Frame.setData (.internal par (stored h (a ++ b))))) := by
  unfold internalRemove
  rw [returns_bind, returns_internalNode hpage]
  simp only [returns_bind]
  rw [returns_itemAt (i := index) (x := (c.1.unbotD h.zeroKey, c.2)) rfl (by simp [hi])]
  simp only [returns_setPage]
  have herase : (stored h (a ++ c :: b)).eraseIdx index = stored h (a ++ b) := by
    rw [hi, stored_append, stored_cons, List.eraseIdx_append_of_length_le (by simp)]
    simp
  rw [herase]

theorem returns_setKeyAt {p par : PageNum} {index : ℕ} {a b : List (Child A)} {c : Child A}
    {key : Key A} {Q : Unit → BplusTreeHandler A → Prop}
    (hpage : s.page p = some (.internal par (stored h (a ++ c :: b)))) (hi : index = a.length) :
    Returns (setKeyAt p index key) s Q ↔ Q () (s.update p (Frame.setData
      (.internal par (stored h (a ++ ((key : WithBot (Key A)), c.2) :: b))))) := by
  unfold setKeyAt
  rw [returns_bind, returns_internalNode hpage]
  simp only [returns_bind]
  rw [returns_itemAt (i := index) (x := (c.1.unbotD h.zeroKey, c.2)) rfl (by simp [hi])]
  simp only [returns_setPage]
  have hset : (stored h (a ++ c :: b)).set index (key, c.2) =
      stored h (a ++ ((key : WithBot (Key A)), c.2) :: b) := by
    rw [hi, stored_append, stored_cons, List.set_append_right _ _ (by simp)]
    simp
  rw [hset]

/-- A node read through its page, given all but its parent field. -/
theorem exists_page_of_body {p : PageNum} {d : Page A} (hb : s.body p = some d)
    (hd : d.isLeaf ≠ none) : ∃ e, s.page p = some e ∧ e.isLeaf ≠ none ∧ e.keys = d.keys := by
  unfold body at hb
  obtain ⟨e, he, rfl⟩ := Option.map_eq_some_iff.mp hb
  refine ⟨e, he, ?_, ?_⟩
  · cases e <;> simp_all [Page.setParent, Page.isLeaf]
  · cases e <;> rfl

/-- What `redistribute` leaves of the siblings on pages `l` and `r` and of their parent `y`. -/
structure Borrowed (s : BplusTreeHandler A) (l r y : PageNum) (left right parent : Page A)
    (moved : List PageNum) (dest : PageNum) (s' : BplusTreeHandler A) : Prop where
  body_left : s'.body l = some left
  body_right : s'.body r = some right
  body_parent : s'.body y = some parent
  body : ∀ q, q ≠ l → q ≠ r → q ≠ y → s'.body q = s.body q
  parentPage : ∀ q, s'.parentPage q = if q ∈ moved then some dest else s.parentPage q
  quiet : Quiet s s' (-ref l - ref r - ref y)

section redistribute

variable {T : NodeType} {l r y par : PageNum} {left right : Page A} {moved : List PageNum}
  {a b : List (Child A)} {cl cr : Child A} {first : Key A}

structure Siblings (l r y : PageNum) : Prop where
  ne : l ≠ r
  left_ne : l ≠ y
  right_ne : r ≠ y

/-- The end of `redistribute`: the separator of the right node is set and the pins go back. -/
theorem returns_redistribute_end {s₁ : BplusTreeHandler A} {dest nb frame : PageNum} {index : ℕ}
    (hs : Siblings l r y) (hypage : s.page y = some (.internal par (stored h (a ++ cl :: cr :: b))))
    (hymoved : y ∉ moved) (hindex : index = a.length + 1)
    (hmv : Moved s r l right left moved s₁ ∧ dest = l ∨ Moved s l r left right moved s₁ ∧ dest = r)
    (hsides : frame = l ∧ nb = r ∨ frame = r ∧ nb = l) :
    Returns (do
      setKeyAt y index first
      markDirty nb
      markDirty frame
      markDirty y
      unpinPage nb
      unpinPage frame
      unpinPage y
      return RC.success) s₁ fun rc s' => rc = .success ∧ Borrowed s l r y left right
        (.internal 0 (stored h (a ++ cl :: ((first : WithBot (Key A)), cr.2) :: b)))
          moved dest s' := by
  have hypar : s.parentPage y = some par := by simp [parentPage, hypage, Page.parent?]
  -- both directions of the move leave the same to show
  have hkeep : ∀ q, (q ≠ l → q ≠ r → s₁.body q = s.body q) ∧
      s₁.parentPage q = if q ∈ moved then some dest else s.parentPage q := by
    rcases hmv with ⟨hmv, rfl⟩ | ⟨hmv, rfl⟩
    · refine fun q => ⟨fun h1 h2 => ?_, hmv.parentPage q⟩
      rw [hmv.body, Function.update_of_ne h2, Function.update_of_ne h1]
    · refine fun q => ⟨fun h1 h2 => ?_, hmv.parentPage q⟩
      rw [hmv.body, Function.update_of_ne h1, Function.update_of_ne h2]
  obtain ⟨hl₁, hr₁, hq₁⟩ : s₁.body l = some left ∧ s₁.body r = some right ∧ Quiet s s₁ 0 := by
    rcases hmv with ⟨hmv, -⟩ | ⟨hmv, -⟩
    · exact ⟨by simp [hmv.body, hs.ne], by simp [hmv.body], hmv.quiet⟩
    · exact ⟨by simp [hmv.body], by simp [hmv.body, hs.ne.symm], hmv.quiet⟩
  have hypar₁ : s₁.parentPage y = some par := by rw [(hkeep y).2, if_neg hymoved, hypar]
  have hypage₁ : s₁.page y = some (.internal par (stored h ((a ++ [cl]) ++ cr :: b))) := by
    refine page_eq_internal ?_ hypar₁
    rw [(hkeep y).1 hs.left_ne.symm hs.right_ne.symm]
    simp [body, hypage, Page.setParent]
  rw [returns_bind, returns_setKeyAt hypage₁ (by simp [hindex])]
  simp only [returns_bind, returns_markDirty, returns_unpinPage, returns_pure, true_and]
  generalize hs₂ : s₁.update y (Frame.setData _) = s₂
  have hb₂ : s₂.body = Function.update s₁.body y (some (.internal 0
      (stored h (a ++ cl :: ((first : WithBot (Key A)), cr.2) :: b)))) := by
    rw [← hs₂, body_setData (by simp [hypage₁])]
    simp [Page.setParent]
  have hp₂ : s₂.parentPage = s₁.parentPage := by
    rw [← hs₂, parentPage_setData (by simp [hypage₁])]
    exact Function.update_eq_self_iff.mpr hypar₁.symm
  have hq₂ : Quiet s s₂ 0 := by
    rw [← hs₂]
    simpa using hq₁.trans (Quiet.setData _ _ _)
  have hpages : ∀ q, q = l ∨ q = r ∨ q = y → s₂.page q ≠ none := by
    rintro q (rfl | rfl | rfl)
    · exact page_ne_none_of_body (d := left) (by rw [hb₂, Function.update_of_ne hs.left_ne, hl₁])
    · exact page_ne_none_of_body (d := right) (by rw [hb₂, Function.update_of_ne hs.right_ne, hr₁])
    · exact page_ne_none_of_parentPage (by rw [hp₂, hypar₁]; simp)
  have hnb : s₂.page nb ≠ none ∧ s₂.page frame ≠ none := by
    rcases hsides with ⟨rfl, rfl⟩ | ⟨rfl, rfl⟩
    · exact ⟨hpages _ (by simp), hpages _ (by simp)⟩
    · exact ⟨hpages _ (by simp), hpages _ (by simp)⟩
  have hdirty : Quiet s (((s₂.update nb Frame.markDirty).update frame Frame.markDirty).update y
      Frame.markDirty) 0 := by
    simpa using ((hq₂.trans (Quiet.markDirty _ _)).trans (Quiet.markDirty _ _)).trans
      (Quiet.markDirty _ _)
  refine ⟨?_, ?_, ?_, ?_, ?_, ?_⟩
  · simp [hb₂, hs.left_ne, hl₁]
  · simp [hb₂, hs.right_ne, hr₁]
  · simp [hb₂]
  · intro q h1 h2 h3
    simp [hb₂, h3, (hkeep q).1 h1 h2]
  · intro q
    simp only [parentPage_unpin, parentPage_markDirty, hp₂]
    exact (hkeep q).2
  · refine (((hdirty.trans (Quiet.unpin ?_)).trans (Quiet.unpin ?_)).trans
      (Quiet.unpin ?_)).congr ?_
    · simpa using hnb.1
    · simpa using hnb.2
    · simpa using hpages y (by simp)
    · funext q
      simp only [Pi.add_apply, Pi.sub_apply, Pi.neg_apply, Pi.zero_apply]
      rcases hsides with ⟨rfl, rfl⟩ | ⟨rfl, rfl⟩ <;> ring

/-- `redistribute` for the first child: the right sibling gives its first item. -/
theorem returns_redistribute_first (hs : Siblings l r y)
    (hypage : s.page y = some (.internal par (stored h (cl :: cr :: b)))) (hymoved : y ∉ moved)
    (hright : right.isLeaf ≠ none) (hfirst : right.keys[0]? = some first)
    (hmove : Returns (moveFirstToEnd T r l) s fun rc s₁ => rc = .success ∧
      Moved s r l right left moved s₁) :
    Returns (redistribute T r l y 0) s fun rc s' => rc = .success ∧ Borrowed s l r y left right
      (.internal 0 (stored h (cl :: ((first : WithBot (Key A)), cr.2) :: b))) moved l s' := by
  unfold redistribute
  simp only [↓reduceIte]
  refine hmove.bind ?_
  rintro rc s₁ ⟨rfl, hmv⟩
  obtain ⟨e, he, hnode, hkeys⟩ := exists_page_of_body (p := r) (d := right)
    (by rw [hmv.body, Function.update_self]) hright
  rw [returns_bind, returns_node he hnode, returns_bind,
    returns_itemAt (i := 0) (x := first) (by simp) (by rw [hkeys]; exact hfirst)]
  exact returns_redistribute_end (a := []) hs hypage hymoved rfl (Or.inl ⟨hmv, rfl⟩)
    (Or.inl ⟨rfl, rfl⟩)

/-- `redistribute` for another child: the left sibling gives its last item. -/
theorem returns_redistribute_last (hs : Siblings l r y)
    (hypage : s.page y = some (.internal par (stored h (a ++ cl :: cr :: b)))) (hymoved : y ∉ moved)
    (hright : right.isLeaf ≠ none) (hfirst : right.keys[0]? = some first)
    (hmove : Returns (moveLastToFront T l r) s fun rc s₁ => rc = .success ∧
      Moved s l r left right moved s₁) :
    Returns (redistribute T l r y (a.length + 1)) s fun rc s' => rc = .success ∧
      Borrowed s l r y left right
        (.internal 0 (stored h (a ++ cl :: ((first : WithBot (Key A)), cr.2) :: b)))
          moved r s' := by
  unfold redistribute
  simp only [Nat.add_eq_zero_iff, one_ne_zero, and_false, ↓reduceIte]
  refine hmove.bind ?_
  rintro rc s₁ ⟨rfl, hmv⟩
  obtain ⟨e, he, hnode, hkeys⟩ := exists_page_of_body (p := r) (d := right)
    (by rw [hmv.body, Function.update_of_ne hs.ne.symm, Function.update_self]) hright
  rw [returns_bind, returns_node he hnode, returns_bind,
    returns_itemAt (i := 0) (x := first) (by simp) (by rw [hkeys]; exact hfirst)]
  exact returns_redistribute_end hs hypage hymoved rfl (Or.inr ⟨hmv, rfl⟩) (Or.inr ⟨rfl, rfl⟩)

end redistribute

/-! ## Merging two siblings -/

/-- What `coalesce` leaves of the siblings on pages `l` and `r` and of their parent `y`, before it
looks at the parent. -/
structure Merged (s : BplusTreeHandler A) (l r y : PageNum) (left parent : Page A)
    (moved : List PageNum) (s' : BplusTreeHandler A) : Prop where
  body_left : s'.body l = some left
  body_parent : s'.body y = some parent
  body : ∀ q, q ≠ l → q ≠ r → q ≠ y → s'.body q = s.body q
  parentPage : ∀ q, q ≠ r → s'.parentPage q = if q ∈ moved then some l else s.parentPage q
  allocated_iff : ∀ q, s'.allocated q ↔ s.allocated q ∧ q ≠ r
  rootPage : s'.rootPage = s.rootPage
  allocFailures : s'.fileBufferPool.allocFailures = s.fileBufferPool.allocFailures
  pageCount : s'.fileBufferPool.fileHeader.pageCount = s.fileBufferPool.fileHeader.pageCount
  pinCount : ∀ q, q ≠ r → s'.pinCount q = s.pinCount q - ref l q
  pinCount_right : s'.pinCount r = 0
  pinnedFrees : s.pinCount r = 1 →
    s'.fileBufferPool.pinnedFrees = s.fileBufferPool.pinnedFrees

theorem Merged.pins {l r y : PageNum} {left parent : Page A} {moved : List PageNum}
    (hm : Merged s l r y left parent moved s') (hs : Siblings l r y)
    (hpins : ∀ q, s.pinCount q = (ref l + ref r + ref y) q) :
    (∀ q, s'.pinCount q = ref y q) ∧
      s'.fileBufferPool.pinnedFrees = s.fileBufferPool.pinnedFrees := by
  constructor
  · intro q
    by_cases hq : q = r
    · rw [hq, hm.pinCount_right]
      simp [ref, hs.right_ne]
    · rw [hm.pinCount q hq, hpins]
      simp [ref, hq]
  · apply hm.pinnedFrees
    rw [hpins]
    simp [ref, hs.ne.symm, hs.right_ne]

section coalesce

variable {T : NodeType} {l r y par : PageNum} {left right : Page A} {moved : List PageNum}
  {a b : List (Child A)} {cl cr : Child A}

/-- The end of `coalesce`: the pins of the siblings go back and the right page is freed. -/
theorem returns_coalesce_end {s₂ : BplusTreeHandler A} {parent : Page A} {m : TreeM A RC}
    {Q : RC → BplusTreeHandler A → Prop} (hs : Siblings l r y)
    (hq : Quiet s s₂ 0) (hl : s₂.body l = some left) (hr : s₂.page r ≠ none)
    (hy : s₂.body y = some parent)
    (hb : ∀ q, q ≠ l → q ≠ r → q ≠ y → s₂.body q = s.body q)
    (hp : ∀ q, s₂.parentPage q = if q ∈ moved then some l else s.parentPage q)
    (hm : ∀ s', Merged s l r y left parent moved s' → Returns m s' Q) :
    Returns (do
      markDirty l
      markDirty y
      unpinPage l
      unpinPage r
      let _ ← disposePage r
      m) s₂ Q := by
  simp only [returns_bind, returns_markDirty, returns_unpinPage]
  -- the right sibling is given back with no pin of this call on it
  generalize hs₃ : BplusTreeHandler.update _ r Frame.unpin = s₃
  have hbody : s₃.body = s₂.body := by simp [← hs₃]
  have hparent : s₃.parentPage = s₂.parentPage := by simp [← hs₃]
  have hq₃ : Quiet s s₃ (-ref l - ref r) := by
    rw [← hs₃]
    refine ((((hq.trans (Quiet.markDirty _ _)).trans (Quiet.markDirty _ _)).trans
      (Quiet.unpin ?_)).trans (Quiet.unpin ?_)).congr ?_
    · simpa using page_ne_none_of_body hl
    · simpa using hr
    · funext q
      simp only [Pi.add_apply, Pi.sub_apply, Pi.neg_apply, Pi.zero_apply]
      ring
  have hcached : s₃.cached r := by
    rw [← hs₃]
    exact (cached_update _ _ _ _).mpr (Or.inr ⟨rfl, by simpa using hr⟩)
  refine (returns_disposePage hcached).mono ?_
  intro rc s' hd
  have hpages : ∀ q, q ≠ r → s'.body q = s₂.body q ∧ s'.parentPage q = s₂.parentPage q := by
    intro q hqr
    rw [body_congr (hd.page_eq q hqr), parentPage_congr (hd.page_eq q hqr), hbody, hparent]
    exact ⟨rfl, rfl⟩
  apply hm
  refine
    { body_left := by rw [(hpages l hs.ne).1, hl]
      body_parent := by rw [(hpages y hs.right_ne.symm).1, hy]
      body := fun q h1 h2 h3 => by rw [(hpages q h2).1, hb q h1 h2 h3]
      parentPage := fun q hqr => by rw [(hpages q hqr).2, hp]
      allocated_iff := fun q => by rw [hd.allocated_iff, hq₃.allocated_iff]
      rootPage := hd.rootPage.trans hq₃.rootPage
      allocFailures := hd.allocFailures.trans hq₃.allocFailures
      pageCount := by rw [hd.pageCount, hq₃.fileHeader]
      pinCount := ?_
      pinCount_right := hd.pinCount_self
      pinnedFrees := ?_ }
  · intro q hqr
    rw [hd.pinCount q hqr, hq₃.pinCount]
    simp only [Pi.sub_apply, Pi.neg_apply, ref, if_neg hqr]
    ring
  · intro hpin
    rw [hd.pinnedFrees ?_, hq₃.pinnedFrees]
    rw [hq₃.pinCount, hpin]
    simp [ref, hs.ne.symm]

variable (left right moved) in
theorem returns_coalesce {recur : PageNum → TreeM A RC} {nb frame : PageNum} {index : ℕ}
    {Q : RC → BplusTreeHandler A → Prop} (hs : Siblings l r y)
    (hypage : s.page y = some (.internal par (stored h (a ++ cl :: cr :: b))))
    (hsides : index = 0 ∧ a = [] ∧ frame = l ∧ nb = r ∨
      index = a.length + 1 ∧ frame = r ∧ nb = l)
    (hmove : ∀ s₁ : BplusTreeHandler A, (∀ q, q ≠ y → s₁.page q = s.page q) →
      s₁.parentPage = s.parentPage → Returns (moveTo T r l) s₁ fun rc s₂ => rc = .success ∧
        Moved s₁ r l right left moved s₂)
    (hleaf : T = .leaf → ∃ next items items', left = .leaf 0 next items ∧
      right = .leaf 0 next items')
    (hrec : ∀ s', Merged s l r y left (.internal 0 (stored h (a ++ cl :: b))) moved s' →
      Returns (recur y) s' Q) :
    Returns (coalesce recur T nb frame y index) s Q := by
  have hpair : (if index = 0 then (frame, nb, index + 1) else (nb, frame, index)) =
      (l, r, a.length + 1) := by
    rcases hsides with ⟨rfl, rfl, rfl, rfl⟩ | ⟨rfl, rfl, rfl⟩ <;> simp
  have hypar : s.parentPage y = some par := by simp [parentPage, hypage, Page.parent?]
  unfold coalesce
  rw [hpair]
  dsimp only
  rw [returns_bind, returns_internalRemove (a := a ++ [cl]) (c := cr) (b := b)
    (by simpa using hypage) (by simp)]
  generalize hs₁ : s.update y (Frame.setData _) = s₁
  have hb₁ : s₁.body = Function.update s.body y
      (some (.internal 0 (stored h (a ++ cl :: b)))) := by
    rw [← hs₁, body_setData (by simp [hypage])]
    simp [Page.setParent]
  have hp₁ : s₁.parentPage = s.parentPage := by
    rw [← hs₁, parentPage_setData (by simp [hypage])]
    exact Function.update_eq_self_iff.mpr hypar.symm
  have hq₁ : Quiet s s₁ 0 := by
    rw [← hs₁]
    exact Quiet.setData _ _ _
  refine (hmove s₁ (fun q hqy => by simp [← hs₁, hqy]) hp₁).bind ?_
  rintro rc s₂ ⟨rfl, hmv⟩
  simp only [fail_success, Bool.false_eq_true, ↓reduceIte]
  have hl₂ : s₂.body l = some left := by simp [hmv.body, hs.ne]
  have hr₂ : s₂.body r = some right := by simp [hmv.body]
  have hy₂ : s₂.body y = some (.internal 0 (stored h (a ++ cl :: b))) := by
    simp [hmv.body, hs.left_ne.symm, hs.right_ne.symm, hb₁]
  have hb₂ : ∀ q, q ≠ l → q ≠ r → q ≠ y → s₂.body q = s.body q := by
    intro q h1 h2 h3
    simp [hmv.body, h1, h2, h3, hb₁]
  have hp₂ : ∀ q, s₂.parentPage q = if q ∈ moved then some l else s.parentPage q := by
    intro q
    rw [hmv.parentPage, hp₁]
  have hq₂ : Quiet s s₂ 0 := by simpa using hq₁.trans hmv.quiet
  cases T with
  | internal =>
    simp only [reduceCtorEq, ↓reduceIte]
    exact returns_coalesce_end hs hq₂ hl₂ (page_ne_none_of_body hr₂) hy₂ hb₂ hp₂ hrec
  | leaf =>
    obtain ⟨next, items, items', rfl, rfl⟩ := hleaf rfl
    obtain ⟨par₁, hlpage⟩ := exists_page_leaf hl₂
    obtain ⟨par₂, hrpage⟩ := exists_page_leaf hr₂
    simp only [↓reduceIte, returns_bind]
    rw [returns_leafNode hlpage]
    dsimp only
    rw [returns_leafNode hrpage]
    dsimp only
    rw [returns_setPage]
    -- the left leaf has the next page of the right one since `move_to`
    generalize hs₃ : s₂.update l (Frame.setData _) = s₃
    have hb₃ : s₃.body = s₂.body := by
      rw [← hs₃, body_setData (by simp [hlpage])]
      exact Function.update_eq_self_iff.mpr hl₂.symm
    have hp₃ : s₃.parentPage = s₂.parentPage := by
      rw [← hs₃, parentPage_setData (by simp [hlpage])]
      exact Function.update_eq_self_iff.mpr (by simp [parentPage, hlpage, Page.parent?])
    have hq₃ : Quiet s s₃ 0 := by
      rw [← hs₃]
      simpa using hq₂.trans (Quiet.setData _ _ _)
    have hend := returns_coalesce_end (Q := Q) (m := recur y) hs hq₃ (by rw [hb₃, hl₂])
      (page_ne_none_of_body (by rw [hb₃, hr₂])) (by rw [hb₃, hy₂])
      (fun q h1 h2 h3 => by rw [hb₃, hb₂ q h1 h2 h3]) (fun q => by rw [hp₃, hp₂]) hrec
    simpa using hend

end coalesce

end TDB
