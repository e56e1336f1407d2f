import TDB.LeafInsert

namespace TDB

open BplusTreeHandler Exec

variable {A : Type} [LinearOrder (Key A)] {h : IndexFileHeader A} {r : Regime A}
  {s s' : BplusTreeHandler A}
  {lo leafLo : ℕ} {key : Key A} {es : List (Key A × RID)}

/-! ## Handlers and their entries -/

/-- The handler holds the entries `es`, in an empty index or in a tree. -/
def Index (h : IndexFileHeader A) (r : Regime A) (lo leafLo : ℕ) (s : BplusTreeHandler A)
    (es : List (Key A × RID)) : Prop :=
  s.rootPage = invalidPageNum ∧ es = [] ∨
    ∃ leaves levs, Tree h r s lo leafLo leaves levs ∧ es = entriesOf leaves

theorem Index.entries_eq (hi : Index h r lo leafLo s es) : entries s = es := by
  rcases hi with ⟨hroot, rfl⟩ | ⟨leaves, levs, ht, rfl⟩
  · simp [entries, isEmpty, hroot]
  · exact ht.entries_eq

theorem Index.increasing (hi : Index h r lo leafLo s es) : es.Pairwise fun a b => a.1 < b.1 := by
  rcases hi with ⟨-, rfl⟩ | ⟨leaves, levs, ht, rfl⟩
  · exact List.Pairwise.nil
  · exact entriesOf_increasing ht.leafOk ht.apart

theorem Index.value (hi : Index h r lo leafLo s es) : ∀ x ∈ es, x.2 = x.1.rid := by
  rcases hi with ⟨-, rfl⟩ | ⟨leaves, levs, ht, rfl⟩
  · simp
  · intro x hx
    obtain ⟨l, hl, hxl⟩ := mem_entriesOf.mp hx
    exact (ht.leafOk l hl).value x hxl

theorem Index.congr (hi : Index h r lo leafLo s es) (hroot : s'.rootPage = s.rootPage)
    (hp : ∀ p, s.allocated p → s'.page p = s.page p)
    (ha : ∀ p, s.allocated p → s'.allocated p) : Index h r lo leafLo s' es := by
  rcases hi with ⟨hr, rfl⟩ | ⟨leaves, levs, ht, rfl⟩
  · exact Or.inl ⟨hroot.trans hr, rfl⟩
  · exact Or.inr ⟨leaves, levs, ht.congr hroot hp ha, rfl⟩

theorem Index.reaches {p : PageNum} (hi : Index h r lo leafLo s es) (hr : Reaches s p s') :
    Index h r lo leafLo s' es :=
  hi.congr hr.quiet.rootPage (fun q _ => by rw [hr.page]) fun q hq =>
    (hr.quiet.allocated_iff q).mpr hq

theorem Index.allocFails (hi : Index h r lo leafLo s es) (hf : AllocFails s s') :
    Index h r lo leafLo s' es :=
  hi.congr hf.rootPage hf.page_eq hf.allocated_of

/-! ## `insert_entry` -/

def insertPagesNeeded (h : IndexFileHeader A) (s : BplusTreeHandler A) (key : Key A) : ℕ :=
  if s.isEmpty then 1
  else match findLeaf h key s with
    | .ok ((_, frame), _) => leafPagesNeeded h s frame key
    | .error _ => 0

omit [LinearOrder (Key A)] in
theorem pagesNeeded_of_page (hp : s'.page = s.page) :
    ∀ (fuel : ℕ) (p : PageNum), pagesNeeded h s' fuel p = pagesNeeded h s fuel p
  | 0, _ => rfl
  | fuel + 1, p => by
    simp only [pagesNeeded, parentPage, hp, pagesNeeded_of_page hp fuel]

omit [LinearOrder (Key A)] in
theorem Reaches.leafPagesNeeded {p frame : PageNum} (hr : Reaches s p s') :
    leafPagesNeeded h s' frame key = leafPagesNeeded h s frame key := by
  simp only [TDB.leafPagesNeeded, hr.page, hr.quiet.fileHeader, pagesNeeded_of_page hr.page]

structure Inserts (h : IndexFileHeader A) (r : Regime A) (lo leafLo : ℕ) (s : BplusTreeHandler A)
    (key : Key A) (es : List (Key A × RID)) (rc : RC) (s' : BplusTreeHandler A) : Prop where
  le : s.fileBufferPool.allocFailures ≤ s'.fileBufferPool.allocFailures
  served : s'.fileBufferPool.allocFailures = s.fileBufferPool.allocFailures ↔
    s.fileBufferPool.canAllocate (insertPagesNeeded h s key) = true
  done : s'.fileBufferPool.allocFailures = s.fileBufferPool.allocFailures → rc = .success ∧
    ∃ es', Index h r lo leafLo s' es' ∧ Adds key es es' ∧
      (∀ q, s'.pinCount q = s.pinCount q) ∧
      s'.fileBufferPool.pinnedFrees = s.fileBufferPool.pinnedFrees
  failed : s'.fileBufferPool.allocFailures ≠ s.fileBufferPool.allocFailures → rc.fail = true ∧
    (s.fileBufferPool.canAllocate 1 = false ∧ Index h r lo leafLo s' es ∨
      s.fileBufferPool.canAllocate 1 = true ∧ ∃ es', Index h r.unchained lo leafLo s' es' ∧
        ∃ x ∈ es, x ∉ es')

theorem returns_createNewTree (hroot : s.rootPage = invalidPageNum) (hmax : 1 ≤ h.leafMaxSize)
    (hgood : r.good key) : Returns (createNewTree key key.rid) s
    (Inserts h r lo leafLo s key []) := by
  have hneed : insertPagesNeeded h s key = 1 := by simp [insertPagesNeeded, isEmpty, hroot]
  unfold createNewTree
  simp only [returns_bind, returns_get, hroot, ne_eq, not_true_eq_false, ↓reduceIte]
  refine (returns_allocatePage s).mono ?_
  rintro ⟨rc, p⟩ s₁ (⟨hrc, ha⟩ | ⟨hfail, hf⟩)
  -- without a page there is still no tree
  swap
  · simp only at hfail hf
    simp only [hfail, ↓reduceIte, returns_pure]
    refine ⟨by rw [hf.allocFailures]; omega, ?_, fun he => ?_, fun _ => ⟨hfail, Or.inl
      ⟨hf.canAllocate 0, Or.inl ⟨hf.rootPage.trans hroot, rfl⟩⟩⟩⟩
    · rw [hneed, hf.canAllocate 0]
      simp [hf.allocFailures]
    · rw [hf.allocFailures] at he
      omega
  simp only at hrc ha
  subst hrc
  simp only [fail_success, Bool.false_eq_true, ↓reduceIte, returns_bind, initEmpty, returns_setPage]
  obtain ⟨d, hd⟩ := Option.ne_none_iff_exists'.mp ha.page_ne_none
  have hempty : (s₁.update p (Frame.setData (.leaf invalidPageNum invalidPageNum []))).page p =
      some (.leaf invalidPageNum invalidPageNum ([] ++ [])) := by
    simp [hd]
  rw [returns_leafInsert (i := 0) hempty rfl]
  simp only [returns_updateRootPageNum, returns_markDirty, returns_unpinPage, returns_pure,
    List.nil_append]
  generalize hs' : BplusTreeHandler.update _ _ Frame.unpin = s'
  have hroot' : s'.rootPage = p := by simp [← hs']
  have hpage : s'.page p = some (.leaf invalidPageNum invalidPageNum [(key, key.rid)]) := by
    simp [← hs', hd]
  have halloc : s'.allocated p := by
    have := (ha.allocated_iff p).mpr (Or.inr rfl)
    simpa [← hs'] using this
  have hfails : s'.fileBufferPool.allocFailures = s.fileBufferPool.allocFailures := by
    rw [← ha.allocFailures]
    simp [← hs']
  have hpins : ∀ q, s'.pinCount q = s.pinCount q := by
    intro q
    have hq : s'.pinCount q = s₁.pinCount q - ref p q := by
      rw [← hs', pinCount_unpin _ _ _ (by simp [hd])]
      simp
    rw [hq, ha.pinCount]
    ring
  have hfrees : s'.fileBufferPool.pinnedFrees = s.fileBufferPool.pinnedFrees := by
    rw [← ha.pinnedFrees]
    simp [← hs']
  -- a tree of one leaf with one item
  refine ⟨hfails.ge, ?_, fun _ => ⟨rfl, [(key, key.rid)], Or.inr
    ⟨[⟨⊥, p, [(key, key.rid)]⟩], [], ⟨⟨⟨?_, ?_, ?_, ?_, ?_, trivial⟩, ?_, ?_, ?_⟩, ?_⟩, by simp⟩,
    ⟨[], [], rfl, rfl⟩, hpins, hfrees⟩, fun hne => absurd hfails hne⟩
  · rw [hneed, ha.canAllocate]
    simp [hfails, FileBufferPool.canAllocate]
  · exact ⟨⊥, by simp [Leaf.asChild, hroot'], by rw [hroot']; simp
      [parentPage, hpage, Page.parent?]⟩
  · simp
  · simpa [Leaf.asChild] using halloc
  · simp [Increasing]
  · simp [Leaf.asChild]
  · simp [Linked, body, hpage, Page.setParent, chainHead]
  · intro l hl
    obtain rfl := List.mem_singleton.mp hl
    exact ⟨by simp, by simp, by simp, by simpa using hgood, by simp⟩
  · exact List.pairwise_singleton _ _
  · simpa using hmax

theorem Shape.key_cases {pre post : List (Leaf A)} {l : Leaf A} {levs : List (Level A)}
    (ht : Shape h r s lo (pre ++ l :: post) levs) (hl : LeafFor key l post) :
    ((key, key.rid) ∈ entriesOf (pre ++ l :: post) ∧ ∃ a b, l.items = a ++ (key, key.rid) :: b ∧
        (∀ x ∈ a, x.1 < key) ∧ ∀ x ∈ b, key < x.1) ∨
      ((∀ x ∈ entriesOf (pre ++ l :: post), x.1 ≠ key) ∧ ∃ a b, l.items = a ++ b ∧
        (∀ x ∈ a, x.1 < key) ∧ ∀ x ∈ b, key < x.1) := by
  rcases (ht.leafOk l (by simp)).cut key with ⟨a, b, hitems, ha, hb⟩ | ⟨a, b, hitems, ha, hb⟩
  · exact Or.inl ⟨mem_entriesOf.mpr ⟨l, by simp, by simp [hitems]⟩, a, b, hitems, ha, hb⟩
  · refine Or.inr ⟨fun x hx => ?_, a, b, hitems, ha, hb⟩
    obtain ⟨m, hm, hxm⟩ := mem_entriesOf.mp hx
    rcases List.mem_append.mp hm with hm | hm
    · have hlt := (List.pairwise_append.mp ht.apart).2.2 m hm l (by simp) x hxm
      exact (WithBot.coe_lt_coe.mp (hlt.trans_le hl.1)).ne
    · rcases List.mem_cons.mp hm with rfl | hm
      · rw [hitems] at hxm
        rcases List.mem_append.mp hxm with hxm | hxm
        · exact (ha x hxm).ne
        · exact (hb x hxm).ne'
      · have hlt := (hl.2 m hm).trans_le ((ht.leafOk m (by simp [hm])).sep_le x hxm)
        exact (WithBot.coe_lt_coe.mp hlt).ne'

/-- `insert_entry` of a key that is in the index: the leaf stays pinned. -/
theorem Index.returns_insertEntry_present (hh : h.Orders) {attr : A} {rid : RID}
    (hi : Index h r lo leafLo s es) (hmem : (⟨attr, rid⟩, rid) ∈ es) :
    Returns (insertEntry h attr rid) s fun rc s' => rc = .recordDuplicateKey ∧
      ∃ p, Reaches s p s' := by
  rcases hi with ⟨-, rfl⟩ | ⟨leaves, levs, ht, rfl⟩
  · simp at hmem
  · obtain ⟨pre, l, post, rfl, hl⟩ := ht.toShape.exists_leafFor ⟨attr, rid⟩
    rcases ht.toShape.key_cases hl with ⟨-, a, b, hitems, ha, hb⟩ | ⟨hne, -⟩
    · unfold insertEntry
      simp only [returns_bind, returns_get, ht.isOver.isEmpty_eq, Bool.false_eq_true, ↓reduceIte]
      refine (returns_findLeaf hh ht.toShape hl).mono ?_
      rintro _ s₁ ⟨rfl, hr⟩
      obtain ⟨par, next, -, hpage, -⟩ := ht.page_leaf
      rw [hitems, ← hr.page] at hpage
      simp only [fail_success, Bool.false_eq_true, ↓reduceIte]
      rw [returns_insertEntryIntoLeafNode_dup hh hpage ha hb]
      exact ⟨rfl, l.page, hr⟩
    · exact absurd rfl (hne _ hmem)

theorem Index.returns_insertEntry_absent (hh : h.Orders) {attr : A} {rid : RID}
    (hi : Index h r lo leafLo s es) (habs : ∀ x ∈ es, x.1 ≠ ⟨attr, rid⟩)
    (hgood : r.good ⟨attr, rid⟩)
    (hint : 2 ≤ h.internalMaxSize) (hlo : lo ≤ h.internalMaxSize / 2) (hpos : 1 ≤ leafLo)
    (hleafLo : leafLo ≤ h.leafMaxSize / 2) :
    Returns (insertEntry h attr rid) s (Inserts h r lo leafLo s ⟨attr, rid⟩ es) := by
  have hmax : 1 ≤ h.leafMaxSize := (hpos.trans hleafLo).trans (Nat.div_le_self _ _)
  rcases hi with ⟨hroot, rfl⟩ | ⟨leaves, levs, ht, rfl⟩
  · unfold insertEntry
    simp only [returns_bind, returns_get, isEmpty, hroot, decide_true, ↓reduceIte]
    simpa using returns_createNewTree hroot hmax hgood
  · obtain ⟨pre, l, post, rfl, hl⟩ := ht.toShape.exists_leafFor ⟨attr, rid⟩
    rcases ht.toShape.key_cases hl with ⟨hmem, -⟩ | ⟨-, a, b, hitems, ha, hb⟩
    · exact absurd rfl (habs _ hmem)
    have hfind := returns_findLeaf hh ht.toShape hl
    have hneed : insertPagesNeeded h s ⟨attr, rid⟩ = leafPagesNeeded h s l.page ⟨attr, rid⟩ := by
      obtain ⟨r, s₁, hrun, rfl, -⟩ := hfind
      simp [insertPagesNeeded, ht.isOver.isEmpty_eq, hrun]
    unfold insertEntry
    simp only [returns_bind, returns_get, ht.isOver.isEmpty_eq, Bool.false_eq_true, ↓reduceIte]
    refine hfind.mono ?_
    rintro _ s₁ ⟨rfl, hr⟩
    have hi₁ : Index h r lo leafLo s₁ (entriesOf (pre ++ l :: post)) :=
      Index.reaches (Or.inr ⟨_, levs, ht, rfl⟩) hr
    have ht₁ : Tree h r s₁ lo leafLo (pre ++ l :: post) levs :=
      ht.congr hr.quiet.rootPage (fun q _ => by rw [hr.page])
        fun q hq => (hr.quiet.allocated_iff q).mpr hq
    simp only [fail_success, Bool.false_eq_true, ↓reduceIte]
    refine (returns_insertEntryIntoLeafNode hh ht₁ hl hgood hitems ha hb hint hlo hpos
      hleafLo).mono ?_
    rintro rc s' ⟨hle, hserved, hdone, hfailed⟩
    rw [hr.leafPagesNeeded, ← hneed] at hserved
    rw [hr.quiet.allocFailures] at hle hserved hdone hfailed
    rw [hr.quiet.canAllocate] at hserved hfailed
    refine ⟨hle, hserved, fun he => ?_, fun hne => ?_⟩
    · obtain ⟨rfl, leaves', levs', ht', hadds, hpins, hfrees⟩ := hdone he
      refine ⟨rfl, _, Or.inr ⟨leaves', levs', ht', rfl⟩, hadds, fun q => ?_,
        hfrees.trans hr.quiet.pinnedFrees⟩
      rw [hpins, hr.quiet.pinCount]
      ring
    · obtain ⟨hfail, ⟨hcan, hf⟩ | ⟨hcan, leaves', levs', ht', hlost⟩⟩ := hfailed hne
      · exact ⟨hfail, Or.inl ⟨hcan, hi₁.allocFails hf⟩⟩
      · exact ⟨hfail, Or.inr ⟨hcan, _, Or.inr ⟨leaves', levs', ht', rfl⟩, hlost⟩⟩

end TDB
