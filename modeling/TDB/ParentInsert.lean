import TDB.TreeLevels

namespace TDB

open BplusTreeHandler Exec

variable {A : Type} [LinearOrder (Key A)] {h : IndexFileHeader A} {lo : ℕ}

theorem returns_internalInsert (hh : h.Orders) {s : BplusTreeHandler A} {p par pageNum : PageNum}
    {key : Key A} {lo hi : List (Child A)} {Q : Unit → BplusTreeHandler A → Prop}
    (hpage : s.page p = some (.internal par (stored h (lo ++ hi)))) (hne : lo ≠ [])
    (hinc : Increasing (lo ++ ((key : WithBot (Key A)), pageNum) :: hi)) :
    Returns (internalInsert h p key pageNum) s Q ↔
      Q () (s.update p (Frame.setData
        (.internal par (stored h (lo ++ ((key : WithBot (Key A)), pageNum) :: hi))))) := by
  have hpos : internalPosition h (stored h (lo ++ hi)) key = lo.length := by
    obtain ⟨h1, h2, h3⟩ := List.pairwise_append.mp hinc
    exact internalPosition_eq hh hne h1 (fun c hc => h3 c hc (key, pageNum) (by simp))
      (List.pairwise_cons.mp h2).1
  unfold internalInsert
  rw [returns_bind, returns_internalNode hpage]
  simp only [hpos, returns_bind]
  rw [returns_insertItem (by simp)]
  simp

/-- What `insert_entry_into_parent` has done: the rows stand over the children with the new one
among them. -/
structure ParentDone (h : IndexFileHeader A) (lo : ℕ) (s s' : BplusTreeHandler A)
    (frame newFrame : PageNum)
    (cur : List (Child A)) (levs levs' : List (Level A)) : Prop where
  isOver : Over h s' lo none cur levs'
  rebuilt : Rebuilt s s' cur levs levs'
  pinCount : ∀ q, s'.pinCount q = s.pinCount q - ref frame q - ref newFrame q
  pinnedFrees : s'.fileBufferPool.pinnedFrees = s.fileBufferPool.pinnedFrees

/-- The rows `levs` have become `levs'`, which stand over the children but for the part `lost` of
them. -/
structure Loses (h : IndexFileHeader A) (lo : ℕ) (s s' : BplusTreeHandler A)
    (front lost back : List (Child A)) (levs levs' : List (Level A)) : Prop where
  front_ne : front ≠ []
  lost_ne : lost ≠ []
  length_eq : levs'.length = levs.length
  isOver : Over h s' lo none (front ++ back) levs'
  rebuilt : Rebuilt s s' (front ++ lost ++ back) levs levs'

/-- The number of pages `insert_entry_into_parent` allocates for a node: one for each full
ancestor in a row, and one more for a new root. -/
def pagesNeeded (h : IndexFileHeader A) (s : BplusTreeHandler A) : ℕ → PageNum → ℕ
  | 0, _ => 0
  | fuel + 1, p =>
    match s.parentPage p with
    | none => 0
    | some par =>
      if par = invalidPageNum then 1
      else match s.page par with
        | some (.internal _ items) =>
          if items.length < h.internalMaxSize then 0 else 1 + pagesNeeded h s fuel par
        | _ => 0

/-- The result of `insert_entry_into_parent`: all is done when every allocation succeeds; when one
fails, a part of the children is lost.  `need` is the number of allocations. -/
structure InsertsChild (h : IndexFileHeader A) (lo : ℕ) (s : BplusTreeHandler A) (need : ℕ)
    (frame newFrame : PageNum) (cur : List (Child A)) (levs : List (Level A)) (rc : RC)
    (s' : BplusTreeHandler A) : Prop where
  le : s.fileBufferPool.allocFailures ≤ s'.fileBufferPool.allocFailures
  served : s'.fileBufferPool.allocFailures = s.fileBufferPool.allocFailures ↔
    s.fileBufferPool.canAllocate need = true
  done : s'.fileBufferPool.allocFailures = s.fileBufferPool.allocFailures → rc = .success ∧
    ∃ levs', ParentDone h lo s s' frame newFrame cur levs levs'
  failed : s'.fileBufferPool.allocFailures ≠ s.fileBufferPool.allocFailures → rc.fail = true ∧
    ∃ front lost back levs', cur = front ++ lost ++ back ∧ Loses h lo s s' front lost
      back levs levs'

/-- What `insert_entry_into_parent` is called with: `newFrame` is a node next to `frame` that the
rows do not know yet. -/
structure Pending (h : IndexFileHeader A) (lo : ℕ) (s : BplusTreeHandler A) (front : List (Child A))
    (k : WithBot (Key A)) (frame newFrame : PageNum) (key : Key A) (back : List (Child A))
    (levs : List (Level A)) : Prop where
  isOver : Over h s lo none (front ++ (k, frame) :: back) levs
  allocated : s.allocated newFrame
  notChild : newFrame ∉ childPages (front ++ (k, frame) :: back)
  notLevel : newFrame ∉ levelPages levs
  isNode : s.parentPage newFrame ≠ none
  increasing : Increasing (front ++ (k, frame) :: ((key : WithBot (Key A)), newFrame) :: back)

/-- A call of `insert_entry_into_parent` puts any new child into these rows. -/
def TakesChild (h : IndexFileHeader A) (lo fuel : ℕ) (levs : List (Level A)) : Prop :=
  ∀ {s : BplusTreeHandler A} {front back : List (Child A)} {k : WithBot (Key A)}
    {frame newFrame : PageNum} {key : Key A},
    Pending h lo s front k frame newFrame key back levs →
    Returns (insertEntryIntoParent h fuel frame newFrame key) s (InsertsChild h lo s
      (pagesNeeded h s fuel frame) frame newFrame
      (front ++ (k, frame) :: ((key : WithBot (Key A)), newFrame) :: back) levs)

section

variable {s : BplusTreeHandler A} {front back : List (Child A)} {k : WithBot (Key A)}
  {frame newFrame : PageNum} {key : Key A}

omit [LinearOrder (Key A)] in
theorem ne_of_not_allocated {p q : PageNum} (hp : s.allocated p) (hq : ¬ s.allocated q) : p ≠ q :=
  fun he => hq (he ▸ hp)

theorem Pending.nodup {levs : List (Level A)}
    (hpend : Pending h lo s front k frame newFrame key back levs) :
    (childPages (front ++ (k, frame) :: ((key : WithBot (Key A)), newFrame) :: back) ++
      levelPages levs).Nodup := by
  have hperm : (childPages (front ++ (k, frame) :: ((key : WithBot (Key A)), newFrame) :: back) ++
      levelPages levs).Perm
      (newFrame :: (childPages (front ++ (k, frame) :: back) ++ levelPages levs)) := by
    have : (childPages front ++ [frame] ++ newFrame :: (childPages back ++
        levelPages levs)).Perm _ := List.perm_middle
    simpa using this
  rw [hperm.nodup_iff, List.nodup_cons]
  refine ⟨?_, hpend.isOver.nodup⟩
  rw [List.mem_append]
  exact not_or.mpr ⟨hpend.notChild, hpend.notLevel⟩

theorem Pending.all_allocated {levs : List (Level A)}
    (hpend : Pending h lo s front k frame newFrame key back levs) :
    ∀ p ∈ childPages (front ++ (k, frame) :: ((key : WithBot (Key A)), newFrame) :: back) ++
      levelPages levs, s.allocated p := by
  intro p hp
  by_cases hpn : p = newFrame
  · exact hpn ▸ hpend.allocated
  · apply hpend.isOver.allocated
    simp only [childPages_append, childPages_cons, List.mem_append, List.mem_cons] at hp ⊢
    tauto

theorem Pending.leftmost {levs : List (Level A)}
    (hpend : Pending h lo s front k frame newFrame key back levs) :
    ∀ c ∈ (front ++ (k, frame) :: ((key : WithBot (Key A)), newFrame) :: back).head?, c.1 = ⊥ := by
  have := hpend.isOver.leftmost
  cases front <;> simpa using this

/-- An insertion that changed no page has lost the new child. -/
theorem Pending.loses {s' : BplusTreeHandler A} {levs : List (Level A)}
    (hpend : Pending h lo s front k frame newFrame key back levs)
    (hroot : s'.rootPage = s.rootPage) (hpage : ∀ q, s.allocated q → s'.page q = s.page q)
    (halloc : ∀ q, s.allocated q → s'.allocated q)
    (hcount : s.fileBufferPool.fileHeader.pageCount ≤ s'.fileBufferPool.fileHeader.pageCount) :
    Loses h lo s s' (front ++ [(k, frame)]) [((key : WithBot (Key A)), newFrame)] back levs
      levs := by
  refine ⟨by simp, by simp, rfl, ?_, ⟨fun p hp _ => halloc p hp,
    fun p hp _ => body_congr (hpage p hp), fun p hp _ _ => parentPage_congr (hpage p hp), hcount⟩,
    fun p hp => Or.inl hp⟩
  rw [List.append_assoc, List.singleton_append]
  exact hpend.isOver.congr hroot
    (fun p hp => body_congr (hpage p (hpend.isOver.allocated p (List.mem_append_right _ hp))))
    (fun p hp => parentPage_congr (hpage p (hpend.isOver.allocated p hp)))
    fun p hp => halloc p (hpend.isOver.allocated p hp)

/-- The rows after a new root has taken both nodes. -/
theorem Pending.parentDone_of_newRoot {rp : PageNum} {s' : BplusTreeHandler A}
    (hmax : 2 ≤ h.internalMaxSize) (hpend : Pending h lo s [] ⊥ s.rootPage newFrame key [] [])
    (hfresh : ¬ s.allocated rp)
    (hnew : s'.body rp = some (.internal 0 [(h.zeroKey, s.rootPage), (key, newFrame)]))
    (hbody : ∀ q, q ≠ rp → s'.body q = s.body q)
    (htop : s'.parentPage rp = some invalidPageNum)
    (hparent : ∀ q, q ≠ rp → s'.parentPage q = Function.update
      (Function.update s.parentPage s.rootPage (some rp)) newFrame (some rp) q)
    (hroot : s'.rootPage = rp) (halloc : ∀ q, s'.allocated q ↔ s.allocated q ∨ q = rp)
    (hcount : s.fileBufferPool.fileHeader.pageCount ≤ s'.fileBufferPool.fileHeader.pageCount)
    (hpins : ∀ q, s'.pinCount q = s.pinCount q - ref s.rootPage q - ref newFrame q)
    (hfree : s'.fileBufferPool.pinnedFrees = s.fileBufferPool.pinnedFrees) :
    ParentDone h lo s s' s.rootPage newFrame
      [((⊥ : WithBot (Key A)), s.rootPage), ((key : WithBot (Key A)), newFrame)] []
      [[⟨rp, [(⊥, s.rootPage), (key, newFrame)]⟩]] := by
  have hold : s.allocated s.rootPage := hpend.isOver.allocated _ (by simp)
  have hfn : s.rootPage ≠ newFrame := by
    intro he
    exact hpend.notChild (by simp [he])
  have hfr : s.rootPage ≠ rp := ne_of_not_allocated hold hfresh
  have hnr : newFrame ≠ rp := ne_of_not_allocated hpend.allocated hfresh
  refine ⟨⟨⟨by simp, ?_, ?_⟩, ?_, ?_, hpend.increasing, by simp, ?_⟩, ⟨⟨?_, ?_, ?_, hcount⟩, ?_⟩,
    hpins, hfree⟩
  · intro y hy
    obtain rfl := List.mem_singleton.mp hy
    refine ⟨by simp, ?_, ?_⟩
    · rw [hnew]
      simp
    · intro c hc
      simp only [List.mem_cons, List.not_mem_nil, or_false] at hc
      rcases hc with rfl | rfl
      · rw [hparent _ hfr, Function.update_of_ne hfn, Function.update_self]
      · rw [hparent _ hnr, Function.update_self]
  · exact ⟨⊥, by simp [Inner.asChild, Inner.sep, hroot], by rw [hroot, htop]⟩
  · simp [hfn, hfr, hnr]
  · intro p hp
    simp only [childPages_cons, childPages_nil, levelPages_cons, List.map_cons,
      List.map_nil, levelPages_nil, List.append_nil, List.cons_append, List.nil_append,
      List.mem_cons, List.not_mem_nil, or_false] at hp
    rw [halloc]
    rcases hp with rfl | rfl | rfl
    · exact Or.inl hold
    · exact Or.inl hpend.allocated
    · exact Or.inr rfl
  · simp [Sized, hmax]
  · exact fun p hp _ => (halloc p).mpr (Or.inl hp)
  · exact fun p hp _ => hbody p (ne_of_not_allocated hp hfresh)
  · intro p hp _ hc
    simp only [childPages_cons, childPages_nil, List.mem_cons, List.not_mem_nil, or_false,
      not_or] at hc
    rw [hparent p (ne_of_not_allocated hp hfresh), Function.update_of_ne hc.2,
      Function.update_of_ne hc.1]
  · intro p hp
    simp only [levelPages_cons, List.map_cons, List.map_nil, levelPages_nil, List.append_nil,
      List.mem_singleton] at hp
    exact Or.inr (hp ▸ hfresh)

/-- No parent: a new root takes both nodes. -/
theorem returns_insertEntryIntoParent_root {fuel : ℕ} (hmax : 2 ≤ h.internalMaxSize)
    (hpend : Pending h lo s front k frame newFrame key back []) :
    Returns (insertEntryIntoParent h (fuel + 1) frame newFrame key) s
      (InsertsChild h lo s (pagesNeeded h s (fuel + 1) frame) frame newFrame
        (front ++ (k, frame) :: ((key : WithBot (Key A)), newFrame) :: back) []) := by
  obtain ⟨k', hcur, hroot⟩ := hpend.isOver.above
  obtain ⟨rfl, hc, rfl⟩ : front = [] ∧ (k, frame) = (k', s.rootPage) ∧ back = [] := by
    cases front with
    | nil => simpa using hcur
    | cons c front => simp at hcur
  obtain ⟨rfl, rfl⟩ := Prod.mk.inj hc
  obtain rfl : k = ⊥ := hpend.isOver.leftmost (k, s.rootPage) (by simp)
  obtain ⟨d, hd, hnode, hpar⟩ := node_of_parentPage hroot
  have hfalloc : s.allocated s.rootPage := hpend.isOver.allocated _ (by simp)
  have hfn : s.rootPage ≠ newFrame := by
    intro he
    exact hpend.notChild (by simp [he])
  have hneed : pagesNeeded h s (fuel + 1) s.rootPage = 1 := by simp [pagesNeeded, hroot]
  rw [hneed]
  unfold insertEntryIntoParent
  rw [returns_bind, returns_node hd hnode]
  simp only [hpar, ↓reduceIte]
  -- the only step that can fail is the allocation of the new root
  refine (returns_allocatePage s).bind ?_
  rintro ⟨rc, rp⟩ s₁ (⟨rfl, ha⟩ | ⟨hfail, hf⟩)
  · have hfr : s.rootPage ≠ rp := ne_of_not_allocated hfalloc ha.fresh
    have hnr : newFrame ≠ rp := ne_of_not_allocated hpend.allocated ha.fresh
    have hpf : s₁.parentPage s.rootPage ≠ none := by
      rw [parentPage_congr (ha.page_eq _ hfr), hroot]; simp
    have hpn : s₁.parentPage newFrame ≠ none := by
      rw [parentPage_congr (ha.page_eq _ hnr)]; exact hpend.isNode
    simp only [fail_success, Bool.false_eq_true, ↓reduceIte, returns_bind, initEmpty,
      returns_setPage]
    -- `init_empty` first writes an empty node, then `create_new_root` fills it
    generalize hs₂ : (s₁.update rp (Frame.setData (.internal invalidPageNum []))).update rp
      (Frame.setData (.internal invalidPageNum [(h.zeroKey, s.rootPage), (key, newFrame)])) = s₂
    have hpages : ∀ q, q ≠ rp → s₂.page q = s₁.page q := by
      intro q hq
      simp [← hs₂, hq]
    have hrp : s₂.page rp =
        some (.internal invalidPageNum [(h.zeroKey, s.rootPage), (key, newFrame)]) := by
      obtain ⟨e, he⟩ := Option.ne_none_iff_exists'.mp ha.page_ne_none
      simp [← hs₂, he]
    have hq₂ : Quiet s₁ s₂ 0 := by
      rw [← hs₂]
      simpa using (Quiet.setData _ _ _).trans (Quiet.setData _ _ _)
    rw [← parentPage_congr (hpages _ hfr)] at hpf
    rw [← parentPage_congr (hpages _ hnr)] at hpn
    rw [returns_withParent hpf, returns_withParent (by
      rw [parentPage_withParent hpf, Function.update_of_ne hfn.symm]; exact hpn)]
    simp only [returns_markDirty, returns_unpinPage, returns_updateRootPageNum, returns_pure]
    generalize hs' : BplusTreeHandler.update _ _ Frame.unpin = s'
    have hbody : s'.body = s₂.body := by simp [← hs']
    have hparent : s'.parentPage = Function.update (Function.update s₂.parentPage s.rootPage
        (some rp)) newFrame (some rp) := by
      rw [← hs']
      simp only [parentPage_unpin, parentPage_markDirty, parentPage_withRoot]
      rw [parentPage_withParent, parentPage_withParent hpf]
      rw [parentPage_withParent hpf, Function.update_of_ne hfn.symm]
      exact hpn
    have hne₂ : ∀ q, q = rp ∨ q = s.rootPage ∨ q = newFrame → s₂.page q ≠ none := by
      rintro q (rfl | rfl | rfl)
      · simp [hrp]
      · exact page_ne_none_of_parentPage hpf
      · exact page_ne_none_of_parentPage hpn
    have hpins : ∀ q, s'.pinCount q = s₂.pinCount q - ref s.rootPage q - ref newFrame q -
      ref rp q := by
      intro q
      rw [← hs']
      simp [pinCount_unpin, hne₂]
    have hroot' : s'.rootPage = rp := by simp [← hs']
    have halloc' : ∀ q, s'.allocated q ↔ s.allocated q ∨ q = rp := by
      intro q
      rw [← ha.allocated_iff q, ← hq₂.allocated_iff q]
      simp [← hs']
    have hfail' : s'.fileBufferPool.allocFailures = s.fileBufferPool.allocFailures := by
      rw [← ha.allocFailures, ← hq₂.allocFailures]
      simp [← hs']
    have hfree' : s'.fileBufferPool.pinnedFrees = s.fileBufferPool.pinnedFrees := by
      rw [← ha.pinnedFrees, ← hq₂.pinnedFrees]
      simp [← hs']
    have hcount : s.fileBufferPool.fileHeader.pageCount ≤
        s'.fileBufferPool.fileHeader.pageCount := by
      refine ha.pageCount.trans (le_of_eq ?_)
      rw [← hq₂.fileHeader]
      simp [← hs']
    have hpar_rp : s'.parentPage rp = some invalidPageNum := by
      rw [hparent, Function.update_of_ne hnr.symm, Function.update_of_ne hfr.symm]
      simp [parentPage, hrp, Page.parent?]
    refine ⟨hfail'.ge, ?_, fun _ => ⟨rfl, _, hpend.parentDone_of_newRoot hmax ha.fresh ?_ ?_ hpar_rp
      ?_ hroot' halloc' hcount ?_ hfree'⟩, fun hne => absurd hfail' hne⟩
    · rw [ha.canAllocate]
      simp [hfail', FileBufferPool.canAllocate]
    · rw [hbody]
      simp [BplusTreeHandler.body, hrp, Page.setParent]
    · intro q hq
      rw [hbody]
      exact body_congr (by rw [hpages q hq, ha.page_eq q hq])
    · intro q hq
      have hsame : s₂.parentPage q = s.parentPage q :=
        parentPage_congr (by rw [hpages q hq, ha.page_eq q hq])
      rw [hparent]
      by_cases hqn : q = newFrame
      · rw [hqn, Function.update_self, Function.update_self]
      · rw [Function.update_of_ne hqn, Function.update_of_ne hqn]
        by_cases hqr : q = s.rootPage
        · rw [hqr, Function.update_self, Function.update_self]
        · rw [Function.update_of_ne hqr, Function.update_of_ne hqr, hsame]
    · intro q
      rw [hpins, hq₂.pinCount, ha.pinCount]
      simp only [Pi.zero_apply]
      ring
  · -- no page for the root: the two nodes keep their parents and the new child is lost
    simp only at hfail hf
    simp only [hfail, ↓reduceIte, returns_pure]
    have hfailed := hf.allocFailures
    refine ⟨by omega, ?_, fun he => by omega, fun _ => ⟨hfail, _, _, _, _, by simp,
      hpend.loses hf.rootPage hf.page_eq hf.allocated_of hf.pageCount.le⟩⟩
    rw [hf.canAllocate]
    simp [hfailed]

structure ParentAt (h : IndexFileHeader A) (s : BplusTreeHandler A) (frame newFrame : PageNum)
    (y : Inner A) (par : PageNum) : Prop where
  node : NodeAt h s y
  page : s.page y.page = some (.internal par (stored h y.kids))
  parentPage : s.parentPage y.page = some par
  parent_frame : s.parentPage frame = some y.page
  allocated : s.allocated y.page
  ne_frame : y.page ≠ frame
  ne_newFrame : y.page ≠ newFrame

theorem Pending.parentAt {pre post : Level A} {y : Inner A} {rest : List (Level A)}
    (hpend : Pending h lo s front k frame newFrame key back ((pre ++ y :: post) :: rest))
    (hmem : (k, frame) ∈ y.kids) : ∃ par, ParentAt h s frame newFrame y par := by
  have hy : y ∈ pre ++ y :: post := by simp
  have hnode := hpend.isOver.above.2.1 y hy
  have hlevel : y.page ∈ levelPages ((pre ++ y :: post) :: rest) := mem_levelPages_head
  have hpar : s.parentPage y.page ≠ none :=
    hpend.isOver.up.above.parentPage_ne_none
      (by rw [childPages_heads]; exact List.mem_map_of_mem hy)
  obtain ⟨par, hpar⟩ := Option.ne_none_iff_exists'.mp hpar
  refine ⟨par, hnode, page_eq_internal hnode.body hpar, hpar, hnode.parent _ hmem,
    hpend.isOver.allocated _ (List.mem_append_right _ hlevel), ?_, ?_⟩
  · intro he
    exact (List.nodup_append.mp hpend.isOver.nodup).2.2 frame (by simp) y.page hlevel he.symm
  · exact fun he => hpend.notLevel (he ▸ hlevel)

/-- The keys of the parent's children, with the new one among them. -/
theorem Pending.increasing_kids {pre post : Level A} {a b : List (Child A)} {levs : List (Level A)}
    (hpend : Pending h lo s (kidsOf pre ++ a) k frame newFrame key (b ++ kidsOf post)
      levs) :
    Increasing (a ++ (k, frame) :: ((key : WithBot (Key A)), newFrame) :: b) := by
  have := hpend.increasing
  unfold Increasing at this ⊢
  refine this.sublist ?_
  simp only [List.append_assoc, ← List.cons_append]
  exact (List.Sublist.append_left (List.sublist_append_left _ _) a).trans
    (List.sublist_append_right _ _)

/-- The rows after the new child has gone into a parent with room. -/
theorem Pending.parentDone_of_room {pre post : Level A} {y : Inner A} {a b : List (Child A)}
    {rest : List (Level A)} {par : PageNum} {s' : BplusTreeHandler A}
    (hkids : y.kids = a ++ (k, frame) :: b) (hroom : y.kids.length < h.internalMaxSize)
    (hpend : Pending h lo s (kidsOf pre ++ a) k frame newFrame key (b ++ kidsOf post)
      ((pre ++ y :: post) :: rest)) (hy : ParentAt h s frame newFrame y par)
    (hbody : s'.body = Function.update s.body y.page (some (.internal 0
      (stored h (a ++ [(k, frame)] ++ ((key : WithBot (Key A)), newFrame) :: b)))))
    (hparent : s'.parentPage = Function.update s.parentPage newFrame (some y.page))
    (hq : Quiet s s' (-ref frame + -ref newFrame)) :
    ParentDone h lo s s' frame newFrame
      (kidsOf pre ++ a ++ (k, frame) :: ((key : WithBot (Key A)), newFrame) :: (b ++ kidsOf post))
      ((pre ++ y :: post) :: rest)
      ((pre ++ ⟨y.page, a ++ [(k, frame)] ++ ((key : WithBot (Key A)), newFrame) :: b⟩ :: post) ::
        rest) := by
  have hcur : kidsOf pre ++ (a ++ [(k, frame)] ++ ((key : WithBot (Key A)), newFrame) :: b) ++
      kidsOf post = kidsOf pre ++ a ++ (k, frame) :: ((key : WithBot (Key A)), newFrame) ::
        (b ++ kidsOf post) := by simp
  have hnodup := hpend.nodup
  have hallocs := hpend.all_allocated
  have hincs := hpend.increasing
  have hleft := hpend.leftmost
  rw [← hcur] at hnodup hallocs hincs hleft ⊢
  have hy' : y = ⟨y.page, a ++ [(k, frame)] ++ b⟩ := by
    cases y
    simpa using hkids
  have halloc := hq.allocated_iff
  -- only the contents of `y` and the parent field of `newFrame` have changed
  refine ⟨hpend.isOver.replace hq.rootPage ?_ ?_ ?_ ?_ ?_ hnodup ?_ hincs hleft ?_, ?_,
    fun q => ?_, hq.pinnedFrees⟩
  · rw [hy']
    exact Inner.sep_append (by simp)
  · refine ⟨by simp, ?_, fun c hc => ?_⟩
    · rw [hbody, Function.update_self]
    · rw [hparent]
      by_cases hcn : c.2 = newFrame
      · rw [hcn, Function.update_self]
      · rw [Function.update_of_ne hcn]
        apply hy.node.parent
        simp only [List.append_assoc, List.cons_append, List.nil_append, List.mem_append,
          List.mem_cons] at hc
        rw [hkids]
        simp only [List.mem_append, List.mem_cons]
        rcases hc with hc | hc | hc | hc
        · exact Or.inl hc
        · exact Or.inr (Or.inl hc)
        · exact absurd (by rw [hc]) hcn
        · exact Or.inr (Or.inr hc)
  · intro p _ hpy
    rw [hbody, Function.update_of_ne hpy]
  · intro p hp
    have hpn' : p ≠ newFrame := fun he => hpend.notLevel (he ▸ hp)
    rw [hparent, Function.update_of_ne hpn']
  · intro c hc
    have hcn : c.2 ≠ newFrame := by
      intro he
      refine hpend.notChild (mem_childPages.mpr ⟨c, ?_, he⟩)
      simp only [List.mem_append, List.mem_cons] at hc ⊢
      tauto
    rw [hparent, Function.update_of_ne hcn]
  · exact fun p hp => (halloc p).mpr (hallocs p hp)
  · obtain ⟨hlev, hrest⟩ := hpend.isOver.sized
    refine ⟨fun z hz => ?_, hrest⟩
    have hyz := hlev y (by simp)
    obtain rfl | hz := mem_row.mp hz
    · have hlen : (a ++ [(k, frame)] ++ ((key : WithBot (Key A)), newFrame) :: b).length =
          y.kids.length + 1 := by
        rw [hkids]
        simp only [List.length_append, List.length_cons, List.length_nil]
        omega
      have hlow := hyz.2
      simp only [hlen]
      simp only [reduceCtorEq, ↓reduceIte, add_zero] at hlow ⊢
      omega
    · exact hlev z (mem_row_of_other hz)
  · have hlevel : y.page ∈ levelPages ((pre ++ y :: post) :: rest) := mem_levelPages_head
    refine ⟨⟨fun p hp _ => (halloc p).mpr hp, fun p _ hp => ?_, fun p _ _ hp => ?_,
      by rw [hq.fileHeader]⟩, fun p hp => ?_⟩
    · have hpy : p ≠ y.page := fun he => hp (he ▸ hlevel)
      rw [hbody, Function.update_of_ne hpy]
    · have hpn' : p ≠ newFrame := fun he => hp (by simp [he])
      rw [hparent, Function.update_of_ne hpn']
    · left
      simpa using hp
  · rw [hq.pinCount]
    simp only [Pi.add_apply, Pi.neg_apply]
    ring

theorem returns_insertEntryIntoParent_room (hh : h.Orders) {fuel : ℕ} {pre post : Level A}
    {y : Inner A} {a b : List (Child A)} {rest : List (Level A)}
    (hkids : y.kids = a ++ (k, frame) :: b) (hroom : y.kids.length < h.internalMaxSize)
    (hpend : Pending h lo s (kidsOf pre ++ a) k frame newFrame key (b ++ kidsOf post)
      ((pre ++ y :: post) :: rest)) :
    Returns (insertEntryIntoParent h (fuel + 1) frame newFrame key) s
      (InsertsChild h lo s (pagesNeeded h s (fuel + 1) frame) frame newFrame
        (kidsOf pre ++ a ++ (k, frame) :: ((key : WithBot (Key A)), newFrame) :: (b ++ kidsOf post))
        ((pre ++ y :: post) :: rest)) := by
  obtain ⟨par, hy⟩ := hpend.parentAt (by simp [hkids])
  obtain ⟨d, hd, hnode, hpar⟩ := node_of_parentPage hy.parent_frame
  have hypage : s.page y.page ≠ none := by simp [hy.page]
  have hneed : pagesNeeded h s (fuel + 1) frame = 0 := by
    simp [pagesNeeded, hy.parent_frame, ne_invalidPageNum hy.allocated, hy.page, hroom]
  rw [hneed]
  unfold insertEntryIntoParent
  rw [returns_bind, returns_node hd hnode]
  simp only [hpar, ne_invalidPageNum hy.allocated, ↓reduceIte]
  rw [returns_bind, returns_getThisPage hypage]
  simp only [fail_success, Bool.false_eq_true, ↓reduceIte]
  rw [returns_bind, returns_internalNode (by simpa using hy.page)]
  simp only [length_stored, hroom, ↓reduceIte]
  have hinc : Increasing (a ++ [(k, frame)] ++ ((key : WithBot (Key A)), newFrame) :: b) := by
    rw [List.append_assoc, List.singleton_append]
    exact hpend.increasing_kids
  rw [returns_bind, returns_internalInsert hh
    (by simpa [hkids] using hy.page) (by simp) hinc]
  generalize hs₁ : (s.update y.page Frame.pin).update y.page (Frame.setData _) = s₁
  have hb₁ : s₁.body = Function.update s.body y.page (some (.internal 0
      (stored h (a ++ [(k, frame)] ++ ((key : WithBot (Key A)), newFrame) :: b)))) := by
    rw [← hs₁, body_setData (by simpa using hypage), body_pin]
    rfl
  have hp₁ : s₁.parentPage = s.parentPage := by
    rw [← hs₁, parentPage_setData (by simpa using hypage), parentPage_pin]
    exact Function.update_eq_self_iff.mpr hy.parentPage.symm
  have hq₁ : Quiet s s₁ (ref y.page) := by
    rw [← hs₁]
    exact ((Quiet.pin hypage).trans (Quiet.setData _ _ _)).congr (by simp)
  have hpn : s₁.parentPage newFrame ≠ none := by rw [hp₁]; exact hpend.isNode
  rw [returns_bind, returns_withParent hpn]
  simp only [returns_bind, returns_markDirty, returns_unpinPage, returns_pure]
  generalize hs' : BplusTreeHandler.update _ y.page Frame.unpin = s'
  have hne₁ : ∀ q, q = y.page ∨ q = frame ∨ q = newFrame → s₁.page q ≠ none := by
    rintro q (rfl | rfl | rfl)
    · apply page_ne_none_of_parentPage
      simp [hp₁, hy.parentPage]
    · apply page_ne_none_of_parentPage
      simp [hp₁, hy.parent_frame]
    · exact page_ne_none_of_parentPage hpn
  have hbody : s'.body = s₁.body := by simp [← hs']
  have hparent : s'.parentPage = Function.update s.parentPage newFrame (some y.page) := by
    rw [← hs', ← hp₁]
    simp [parentPage_withParent hpn]
  have hq : Quiet s s' (-ref frame + -ref newFrame) := by
    rw [← hs']
    refine ((((((hq₁.trans (Quiet.withParent _ _ _)).trans (Quiet.markDirty _ _)).trans
      (Quiet.markDirty _ _)).trans (Quiet.markDirty _ _)).trans (Quiet.unpin ?_)).trans
      (Quiet.unpin ?_)).trans (Quiet.unpin ?_) |>.congr ?_
    · simp [hne₁]
    · simp [hne₁]
    · simp [hne₁]
    · funext q
      simp only [Pi.add_apply, Pi.neg_apply, Pi.zero_apply]
      ring
  exact ⟨hq.allocFailures.ge, by simp [hq.allocFailures, FileBufferPool.canAllocate],
    fun _ => ⟨rfl, _, hpend.parentDone_of_room hkids hroom hy (hbody.trans hb₁) hparent hq⟩,
    fun hne => absurd hq.allocFailures hne⟩

end

end TDB
