import Mathlib.Data.List.Basic
import TDB.HandlerViews

namespace TDB

open Exec

variable {A : Type}

namespace BplusTreeHandler

/-! ## Pages that closing the file writes back -/

/-- What is kept of a page: all but the parent field of a node.  A page that is not there and one
that was never read count the same. -/
def kept (page : Option (Page A)) : Page A := (page.getD .unread).setParent invalidPageNum

/-- The page stands in the closed file as it stands now, up to its parent field. -/
def SavedAt (s : BplusTreeHandler A) (p : PageNum) : Prop :=
  kept ((closeFile s.fileBufferPool).file p) = kept (s.page p)

def dirtyAt (s : BplusTreeHandler A) (p : PageNum) : Prop :=
  ∃ f, s.fileBufferPool.frames p = some f ∧ f.dirty = true

def nodeAt (s : BplusTreeHandler A) (p : PageNum) : Prop :=
  ∃ page, s.page p = some page ∧ page.isLeaf ≠ none

theorem file_closeFile (s : BplusTreeHandler A) (p : PageNum) :
    (closeFile s.fileBufferPool).file p =
      match s.fileBufferPool.frames p with
      | some f => if f.dirty then some f.data else s.fileBufferPool.file p
      | none => s.fileBufferPool.file p := rfl

theorem page_of_frames {s : BplusTreeHandler A} {p : PageNum} {f : Frame (Page A)}
    (hf : s.fileBufferPool.frames p = some f) : s.page p = some f.data := by
  unfold page FileBufferPool.frame
  rw [hf]
  rfl

theorem page_of_frames_none {s : BplusTreeHandler A} {p : PageNum}
    (hf : s.fileBufferPool.frames p = none) : s.page p = s.fileBufferPool.file p := by
  unfold page FileBufferPool.frame
  rw [hf]
  cases s.fileBufferPool.file p <;> rfl

theorem savedAt_of_frames_none {s : BplusTreeHandler A} {p : PageNum}
    (hf : s.fileBufferPool.frames p = none) : s.SavedAt p := by
  unfold SavedAt
  rw [file_closeFile, hf, page_of_frames_none hf]

theorem dirtyAt.savedAt {s : BplusTreeHandler A} {p : PageNum} (hd : s.dirtyAt p) :
    s.SavedAt p := by
  obtain ⟨f, hf, hdirty⟩ := hd
  unfold SavedAt
  rw [file_closeFile, hf, page_of_frames hf]
  simp [hdirty]

theorem SavedAt.congr {s s' : BplusTreeHandler A} {p : PageNum} (hs : s.SavedAt p)
    (hframes : s'.fileBufferPool.frames p = s.fileBufferPool.frames p)
    (hfile : s'.fileBufferPool.file p = s.fileBufferPool.file p) : s'.SavedAt p := by
  have hpage : s'.page p = s.page p := by
    unfold page FileBufferPool.frame
    rw [hframes, hfile]
  unfold SavedAt at *
  rw [file_closeFile, hframes, hfile, hpage, ← file_closeFile, hs]

section update

variable {s : BplusTreeHandler A} {p q : PageNum} {g : Frame (Page A) → Frame (Page A)}

theorem frames_update_of_ne (hq : q ≠ p) :
    (s.update p g).fileBufferPool.frames q = s.fileBufferPool.frames q := by
  rw [frames_update, if_neg hq]

@[simp] theorem file_update : (s.update p g).fileBufferPool.file = s.fileBufferPool.file := by
  simp [update, onPool]

theorem SavedAt.update_of_ne (hs : s.SavedAt q) (hq : q ≠ p) : (s.update p g).SavedAt q :=
  hs.congr (frames_update_of_ne hq) (by rw [file_update])

theorem dirtyAt.update (hd : s.dirtyAt q) (hg : ∀ f, f.dirty = true → (g f).dirty = true) :
    (s.update p g).dirtyAt q := by
  obtain ⟨f, hf, hdirty⟩ := hd
  by_cases hq : q = p
  · subst hq
    have hframe : s.fileBufferPool.frame q = some f := by
      unfold FileBufferPool.frame
      rw [hf]
    exact ⟨g f, by rw [frames_update, if_pos rfl, hframe]; rfl, hg f hdirty⟩
  · exact ⟨f, (frames_update_of_ne hq).trans hf, hdirty⟩

/-- A change of a frame that neither marks it nor changes what is kept of its page. -/
theorem SavedAt.update (hs : s.SavedAt q)
    (hdirty : ∀ f, (g f).dirty = f.dirty)
    (hdata : ∀ f, s.fileBufferPool.frame p = some f → kept (some (g f).data) = kept (some f.data)) :
    (s.update p g).SavedAt q := by
  by_cases hq : q = p
  · subst hq
    cases hframe : s.fileBufferPool.frame q with
    | none =>
      have hsame : s.update q g = s := by
        unfold BplusTreeHandler.update onPool FileBufferPool.modify
        rw [hframe]
      rwa [hsame]
    | some f =>
      have hframes : (s.update q g).fileBufferPool.frames q = some (g f) := by
        rw [frames_update, if_pos rfl, hframe]
        rfl
      unfold SavedAt at *
      rw [file_closeFile, hframes, page_of_frames hframes, hdata f hframe, file_update]
      dsimp only
      rw [hdirty]
      cases hf : s.fileBufferPool.frames q with
      | none =>
        unfold FileBufferPool.frame at hframe
        rw [hf] at hframe
        obtain ⟨d, hd, rfl⟩ := Option.map_eq_some_iff.mp hframe
        rw [hd]
        rfl
      | some f' =>
        have heq : f' = f := by
          unfold FileBufferPool.frame at hframe
          rw [hf] at hframe
          exact Option.some.inj hframe
        subst heq
        rw [file_closeFile, hf, page_of_frames hf] at hs
        dsimp only at hs
        split
        · exact hdata f' hframe
        · next hclean => rwa [if_neg hclean] at hs
  · exact hs.update_of_ne hq

end update

/-! ## Which pages a step leaves unsaved -/

/-- The header page holds the root page number `root`, the pages `nodes` are nodes, the pages
`dirty` are marked dirty, and all pages but `changed` are saved. -/
structure Keeps (root : PageNum) (nodes dirty changed : List PageNum) (s : BplusTreeHandler A) :
    Prop where
  header : s.page 1 = some (.header root)
  header_saved : s.SavedAt 1
  allocated : s.allocated 1
  node : ∀ p ∈ nodes, s.nodeAt p
  dirty : ∀ p ∈ dirty, s.dirtyAt p
  saved : ∀ p, p ∉ changed → s.SavedAt p

variable {s : BplusTreeHandler A} {root p : PageNum} {N N' D D' C C' : List PageNum}

/-- Less is remembered; a changed page that is marked counts as saved. -/
theorem Keeps.mono (hk : Keeps root N D C s)
    (hsub : (∀ p ∈ N', p ∈ N) ∧ (∀ p ∈ D', p ∈ D) ∧ ∀ p ∈ C, p ∈ D ∨ p ∈ C') :
    Keeps root N' D' C' s := by
  obtain ⟨hN, hD, hC⟩ := hsub
  refine ⟨hk.header, hk.header_saved, hk.allocated, fun p hp => hk.node p (hN p hp),
    fun p hp => hk.dirty p (hD p hp), fun p hp => ?_⟩
  by_cases hc : p ∈ C
  · exact (hk.dirty p ((hC p hc).resolve_right hp)).savedAt
  · exact hk.saved p hc

/-- Once all changed pages are marked, nothing else has to be remembered. -/
theorem Keeps.forget (hk : Keeps root N D C s) (hC : ∀ p ∈ C, p ∈ D) : Keeps root [] [] [] s :=
  hk.mono ⟨by simp, by simp, fun p hp => .inl (hC p hp)⟩

theorem Keeps.ne_one (hk : Keeps root N D C s) (hp : p ∈ N) : p ≠ 1 := by
  rintro rfl
  obtain ⟨page, hpage, hnode⟩ := hk.node 1 hp
  rw [hk.header] at hpage
  cases hpage
  exact hnode rfl

/-- A change of the frame of a page that is not the header page, after which a node stands there. -/
theorem Keeps.update {g : Frame (Page A) → Frame (Page A)} (hk : Keeps root N D C s) (hp : p ≠ 1)
    (hdirty : ∀ f, f.dirty = true → (g f).dirty = true)
    (hnode : ∀ f, (g f).data.isLeaf ≠ none) :
    Keeps root N D (p :: C) (s.update p g) := by
  refine ⟨?_, hk.header_saved.update_of_ne hp.symm, (allocated_update _ _ _ _).mpr hk.allocated,
    fun q hq => ?_, fun q hq => (hk.dirty q hq).update hdirty, fun q hq => ?_⟩
  · rw [page_update, if_neg hp.symm, hk.header]
  · obtain ⟨page, hpage, hpageNode⟩ := hk.node q hq
    by_cases hqp : q = p
    · subst hqp
      obtain ⟨f, hf, -⟩ := Option.map_eq_some_iff.mp hpage
      exact ⟨_, by rw [page_update, if_pos rfl, hf]; rfl, hnode f⟩
    · exact ⟨page, by rw [page_update, if_neg hqp, hpage], hpageNode⟩
  · rw [List.mem_cons, not_or] at hq
    exact (hk.saved q hq.2).update_of_ne hq.1

theorem Keeps.update_same {g : Frame (Page A) → Frame (Page A)} (hk : Keeps root N D C s)
    (hdirty : ∀ f, (g f).dirty = f.dirty) (hdata : ∀ f, (g f).data = f.data) :
    Keeps root N D C (s.update p g) := by
  have hpage := page_update_of_data s p g hdata
  have hsaved : ∀ q, s.SavedAt q → (s.update p g).SavedAt q := fun q hq =>
    hq.update hdirty fun f _ => by rw [hdata]
  refine ⟨by rw [hpage]; exact hk.header, hsaved 1 hk.header_saved,
    (allocated_update _ _ _ _).mpr hk.allocated, fun q hq => ?_,
    fun q hq => (hk.dirty q hq).update fun f hf => (hdirty f).trans hf,
    fun q hq => hsaved q (hk.saved q hq)⟩
  unfold nodeAt
  rw [hpage]
  exact hk.node q hq

/-- The handler's own copy of the header plays no part. -/
theorem Keeps.withRoot (hk : Keeps root N D C s) : Keeps root N D C (s.withRoot p) :=
  ⟨hk.header, hk.header_saved, hk.allocated, hk.node, hk.dirty, hk.saved⟩

/-! ## The steps -/

theorem ensures_unpinPage (hk : Keeps root N D C s) :
    Ensures (unpinPage p) s fun _ s' => Keeps root N D C s' := by
  refine (ensures_of_eq rfl).mpr ?_
  change Keeps root N D C (s.update p Frame.unpin)
  exact hk.update_same (fun _ => rfl) fun _ => rfl

theorem ensures_updateRootPageNum (hk : Keeps root N D C s) :
    Ensures (updateRootPageNum p) s fun _ s' => Keeps root N D C s' :=
  (ensures_of_eq rfl).mpr hk.withRoot

theorem nodeAt.dirtyAt_markDirty (hn : s.nodeAt p) : (s.update p Frame.markDirty).dirtyAt p := by
  obtain ⟨page, hpage, -⟩ := hn
  obtain ⟨f, hf, -⟩ := Option.map_eq_some_iff.mp hpage
  exact ⟨f.markDirty, by rw [frames_update, if_pos rfl, hf]; rfl, rfl⟩

theorem ensures_markDirty (hk : Keeps root N D C s) (hp : p ∈ N) :
    Ensures (markDirty p) s fun _ s' => Keeps root N (p :: D) C s' := by
  refine (ensures_of_eq rfl).mpr ?_
  change Keeps root N (p :: D) C (s.update p Frame.markDirty)
  have hdirty := (hk.node p hp).dirtyAt_markDirty
  have hpage := page_markDirty s p
  refine ⟨by rw [hpage]; exact hk.header, hk.header_saved.update_of_ne (hk.ne_one hp).symm,
    (allocated_update _ _ _ _).mpr hk.allocated, fun q hq => ?_, fun q hq => ?_, fun q hq => ?_⟩
  · unfold nodeAt
    rw [hpage]
    exact hk.node q hq
  · rcases List.mem_cons.mp hq with rfl | hq
    · exact hdirty
    · exact (hk.dirty q hq).update fun _ _ => rfl
  · by_cases hqp : q = p
    · rw [hqp]
      exact hdirty.savedAt
    · exact (hk.saved q hq).update_of_ne hqp

theorem ensures_setPage (hk : Keeps root N D C s) {page : Page A} (hp : p ∈ N)
    (hnode : page.isLeaf ≠ none) :
    Ensures (setPage p page) s fun _ s' => Keeps root N D (p :: C) s' := by
  refine (ensures_of_eq rfl).mpr ?_
  exact hk.update (g := Frame.setData page) (hk.ne_one hp) (fun _ h => h) fun _ => hnode

theorem ensures_initEmpty (hk : Keeps root N D C s) (hp : p ≠ 1) (hpage : s.page p ≠ none)
    (T : NodeType) : Ensures (initEmpty T p) s fun _ s' => Keeps root (p :: N) D (p :: C) s' := by
  have hset : ∀ page : Page A, page.isLeaf ≠ none →
      Keeps root (p :: N) D (p :: C) (s.update p (Frame.setData page)) := by
    intro page hnode
    have hk' := hk.update hp (fun _ h => h) (g := Frame.setData page) fun _ => hnode
    refine { hk' with node := fun q hq => ?_ }
    rcases List.mem_cons.mp hq with rfl | hq
    · obtain ⟨d, hd⟩ := Option.ne_none_iff_exists'.mp hpage
      exact ⟨page, by simp [hd], hnode⟩
    · exact hk'.node q hq
  cases T with
  | leaf => exact (ensures_of_eq rfl).mpr (hset _ (by rintro ⟨⟩))
  | internal => exact (ensures_of_eq rfl).mpr (hset _ (by rintro ⟨⟩))

theorem Keeps.cons_node (hk : Keeps root N D C s) (hp : s.nodeAt p) : Keeps root (p :: N) D C s :=
  { hk with node := List.forall_mem_cons.mpr ⟨hp, hk.node⟩ }

theorem ensures_node (hk : Keeps root N D C s) :
    Ensures (node p) s fun page s' => s' = s ∧ s.page p = some page ∧ page.isLeaf ≠ none ∧
      Keeps root (p :: N) D C s := by
  intro page s' hrun
  unfold node at hrun
  split at hrun
  · next hpage =>
    cases hrun
    exact ⟨rfl, hpage, by rintro ⟨⟩, hk.cons_node ⟨_, hpage, by rintro ⟨⟩⟩⟩
  · next hpage =>
    cases hrun
    exact ⟨rfl, hpage, by rintro ⟨⟩, hk.cons_node ⟨_, hpage, by rintro ⟨⟩⟩⟩
  · cases hrun

theorem ensures_leafNode (hk : Keeps root N D C s) :
    Ensures (leafNode p) s fun _ s' => Keeps root (p :: N) D C s' := by
  intro r s' hrun
  unfold leafNode at hrun
  split at hrun
  · next hpage =>
    cases hrun
    exact hk.cons_node ⟨_, hpage, by rintro ⟨⟩⟩
  · cases hrun

theorem ensures_internalNode (hk : Keeps root N D C s) :
    Ensures (internalNode p) s fun _ s' => Keeps root (p :: N) D C s' := by
  intro r s' hrun
  unfold internalNode at hrun
  split at hrun
  · next hpage =>
    cases hrun
    exact hk.cons_node ⟨_, hpage, by rintro ⟨⟩⟩
  · cases hrun

theorem ensures_itemAt (hk : Keeps root N D C s) {α : Type} (items : List α) (index : ℤ) :
    Ensures (itemAt items index) s fun _ s' => Keeps root N D C s' := by
  intro r s' hrun
  unfold itemAt at hrun
  split at hrun <;> cases hrun
  exact hk

theorem ensures_insertItem (hk : Keeps root N D C s) {α : Type} (items : List α) (index : ℕ)
    (item : α) : Ensures (insertItem items index item) s fun _ s' => Keeps root N D C s' := by
  intro r s' hrun
  unfold insertItem at hrun
  split at hrun <;> cases hrun
  exact hk

theorem ensures_setParentPageNum (hk : Keeps root N D C s) (parent : PageNum) :
    Ensures (setParentPageNum p parent) s fun _ s' => Keeps root (p :: N) D C s' := by
  unfold setParentPageNum
  rw [ensures_bind]
  refine (ensures_node hk).mono ?_
  rintro page _ ⟨rfl, hpage, hnode, hk⟩
  refine (ensures_of_eq rfl).mpr ?_
  have hnode' : (page.setParent parent).isLeaf ≠ none := by
    cases page with
    | leaf | internal => rintro ⟨⟩
    | header | unread => exact hnode
  have hk' := hk.update (g := Frame.setData (page.setParent parent))
    (hk.ne_one List.mem_cons_self) (fun _ h => h) fun _ => hnode'
  refine { hk' with saved := fun q hq => (hk.saved q hq).update (fun _ => rfl) fun f hf => ?_ }
  obtain ⟨f', hf', rfl⟩ := Option.map_eq_some_iff.mp hpage
  rw [hf] at hf'
  cases hf'
  change ((f.data.setParent parent).setParent invalidPageNum) = f.data.setParent invalidPageNum
  cases f.data <;> rfl

/-- Another frame, or none, for one page. -/
theorem Keeps.replace {s' : BplusTreeHandler A} (hk : Keeps root N D C s) (hp : p ≠ 1)
    (hframes : ∀ q, q ≠ p → s'.fileBufferPool.frames q = s.fileBufferPool.frames q)
    (hfile : s'.fileBufferPool.file = s.fileBufferPool.file) (halloc : s'.allocated 1)
    (hN : ∀ q ∈ N', q ∈ N ∧ q ≠ p ∨ s'.nodeAt q) (hD : ∀ q ∈ D', q ∈ D ∧ q ≠ p ∨ s'.dirtyAt q) :
    Keeps root N' D' (p :: C) s' := by
  have hpage : ∀ q, q ≠ p → s'.page q = s.page q := by
    intro q hq
    unfold page FileBufferPool.frame
    rw [hframes q hq, hfile]
  have hsaved : ∀ q, q ≠ p → s.SavedAt q → s'.SavedAt q := fun q hq hs =>
    hs.congr (hframes q hq) (by rw [hfile])
  refine ⟨(hpage 1 hp.symm).trans hk.header, hsaved 1 hp.symm hk.header_saved, halloc,
    fun q hq => ?_, fun q hq => ?_, fun q hq => ?_⟩
  · rcases hN q hq with ⟨hq, hqp⟩ | hnode
    · obtain ⟨page, hq, hnode⟩ := hk.node q hq
      exact ⟨page, (hpage q hqp).trans hq, hnode⟩
    · exact hnode
  · rcases hD q hq with ⟨hq, hqp⟩ | hdirty
    · obtain ⟨f, hf, hdirty⟩ := hk.dirty q hq
      exact ⟨f, (hframes q hqp).trans hf, hdirty⟩
    · exact hdirty
  · rw [List.mem_cons, not_or] at hq
    exact hsaved q hq.1 (hk.saved q hq.2)

theorem Keeps.of_saved (hk : Keeps root N D (p :: C) s) (hs : s.SavedAt p) : Keeps root N D C s :=
  { hk with
    saved := fun q hq => by
      by_cases hqp : q = p
      · exact hqp ▸ hs
      · exact hk.saved q fun hmem => (List.mem_cons.mp hmem).elim hqp hq }

theorem frames_eq_none_of_page (hp : s.page p = none) : s.fileBufferPool.frames p = none := by
  have hframe := (s.frame_eq_none p).mpr hp
  unfold FileBufferPool.frame at hframe
  split at hframe
  · cases hframe
  · next hnone => exact hnone

theorem Keeps.unread {s' : BplusTreeHandler A} (hk : Keeps root N D C s) (hp : s.page p = none)
    {n : ℤ} (hframes : s'.fileBufferPool.frames =
      Function.update s.fileBufferPool.frames p (some ⟨PageData.unread, false, n⟩))
    (hfile : s'.fileBufferPool.file = s.fileBufferPool.file)
    (halloc : s'.allocated 1) : Keeps root N D C s' := by
  have hnone := frames_eq_none_of_page hp
  have hone : p ≠ 1 := by
    rintro rfl
    rw [hk.header] at hp
    cases hp
  have hself : s'.fileBufferPool.frames p = some ⟨PageData.unread, false, n⟩ := by
    rw [hframes, Function.update_self]
  refine (hk.replace hone (fun q hq => by rw [hframes, Function.update_of_ne hq]) hfile halloc
    (fun q hq => .inl ⟨hq, ?_⟩) fun q hq => .inl ⟨hq, ?_⟩).of_saved ?_
  · rintro rfl
    obtain ⟨page, hpage, -⟩ := hk.node q hq
    rw [hp] at hpage
    cases hpage
  · rintro rfl
    obtain ⟨f, hf, -⟩ := hk.dirty q hq
    rw [hnone] at hf
    cases hf
  · unfold SavedAt
    rw [file_closeFile, page_of_frames hself, hself, hfile, ← page_of_frames_none hnone, hp]
    rfl

theorem ensures_getThisPage (hk : Keeps root N D C s) : Ensures (getThisPage p) s fun rc s' =>
    (rc = .success ∨ rc = .ioerrRead) ∧ Keeps root N D C s' := by
  by_cases hp : s.page p = none
  · have hrun : getThisPage p s = .ok (.ioerrRead, s.onPool fun bp =>
        { bp with frames := Function.update bp.frames p (some ⟨PageData.unread, false, 1⟩) }) := by
      unfold getThisPage FileBufferPool.getThisPage
      rw [(s.frame_eq_none p).mpr hp]
      rfl
    exact (ensures_of_eq hrun).mpr ⟨.inr rfl, hk.unread hp rfl rfl hk.allocated⟩
  · have hpin : Keeps root N D C (s.update p Frame.pin) :=
      hk.update_same (fun _ => rfl) fun _ => rfl
    exact ((returns_getThisPage hp).mpr ⟨.inl rfl, hpin⟩).ensures

theorem Keeps.of_frames {s' : BplusTreeHandler A} (hk : Keeps root N D C s)
    (hframes : s'.fileBufferPool.frames = s.fileBufferPool.frames)
    (hfile : s'.fileBufferPool.file = s.fileBufferPool.file) (halloc : s'.allocated 1) :
    Keeps root N D C s' := by
  have hpage : s'.page = s.page := by
    funext q
    unfold page FileBufferPool.frame
    rw [hframes, hfile]
  have hsaved : ∀ q, s.SavedAt q → s'.SavedAt q := fun q hs =>
    hs.congr (by rw [hframes]) (by rw [hfile])
  refine ⟨by rw [hpage]; exact hk.header, hsaved 1 hk.header_saved, halloc, fun q hq => ?_,
    fun q hq => ?_, fun q hq => hsaved q (hk.saved q hq)⟩
  · unfold nodeAt
    rw [hpage]
    exact hk.node q hq
  · unfold dirtyAt
    rw [hframes]
    exact hk.dirty q hq

theorem Keeps.extend (hk : Keeps root N D C s) :
    (s.onPool FileBufferPool.extend).page s.fileBufferPool.fileHeader.pageCount ≠ none ∧
    Keeps root N D (s.fileBufferPool.fileHeader.pageCount :: C)
      (s.onPool FileBufferPool.extend) := by
  obtain ⟨hpos, hlt, hbit⟩ := hk.allocated
  generalize hp : (s.fileBufferPool.fileHeader.pageCount : PageNum) = p at *
  have hframe : ∃ f, (s.onPool FileBufferPool.extend).fileBufferPool.frames p = some f ∧
      f.data = PageData.cleared ∧ (s.dirtyAt p → f.dirty = true) := by
    unfold dirtyAt onPool FileBufferPool.extend FileBufferPool.setBit
    rw [hp]
    refine ⟨_, Function.update_self .., ?_, ?_⟩
    · split <;> rfl
    · rintro ⟨f, hf, hdirty⟩
      rw [hf]
      exact hdirty
  obtain ⟨f, hf, hdata, hdirty⟩ := hframe
  have hpage : (s.onPool FileBufferPool.extend).page p = some PageData.cleared := by
    rw [page_of_frames hf, hdata]
  refine ⟨by rw [hpage]; rintro ⟨⟩, hk.replace hlt.ne' (fun q hq => ?_) rfl ?_ (fun q hq => ?_)
    fun q hq => ?_⟩
  · rw [← hp] at hq
    exact Function.update_of_ne hq _ _
  · refine ⟨hpos, hlt.trans ?_, ?_⟩
    · rw [← hp]
      exact Int.ofNat_lt.mpr (Nat.lt_succ_self _)
    · change Function.update s.fileBufferPool.fileHeader.bitmap _ true 1 = true
      rw [hp, Function.update_of_ne hlt.ne, hbit]
  · by_cases hqp : q = p
    · exact .inr ⟨_, hqp ▸ hpage, by rintro ⟨⟩⟩
    · exact .inl ⟨hq, hqp⟩
  · by_cases hqp : q = p
    · subst hqp
      exact .inr ⟨f, hf, hdirty (hk.dirty q hq)⟩
    · exact .inl ⟨hq, hqp⟩

theorem ensures_allocatePage (hk : Keeps root N D C s) : Ensures allocatePage s fun r s' =>
    r.1.fail = true ∧ Keeps root N D C s' ∨
    r.1.fail = false ∧ r.2 ≠ 1 ∧ s'.page r.2 ≠ none ∧ Keeps root N D (r.2 :: C) s' := by
  have hrun : allocatePage s = .ok (s.fileBufferPool.allocatePage.1,
      s.onPool fun _ => s.fileBufferPool.allocatePage.2) := rfl
  rw [ensures_of_eq hrun]
  unfold FileBufferPool.allocatePage
  -- a freed page is used again if there is one; else the file grows by a page
  cases hfree : s.fileBufferPool.freeBit with
  | some i =>
    obtain ⟨hlt, hbit, -⟩ := FileBufferPool.freeBit_eq_some hfree
    have hone : (i : PageNum) ≠ 1 := by
      intro hi
      rw [hi, hk.allocated.2.2] at hbit
      cases hbit
    have hset : (s.onPool (FileBufferPool.setBit i)).allocated 1 :=
      (setBit_allocated_iff s hlt 1).mpr (.inl hk.allocated)
    dsimp only
    unfold FileBufferPool.getThisPage
    have hframe : (s.fileBufferPool.setBit i).frame i = s.fileBufferPool.frame i := rfl
    cases hf : s.fileBufferPool.frame i with
    | some f =>
      right
      rw [hframe, hf]
      have hk' : Keeps root N D C (s.onPool (FileBufferPool.setBit i)) :=
        hk.of_frames rfl rfl hset
      have hpin : Keeps root N D C ((s.onPool (FileBufferPool.setBit i)).update i Frame.pin) :=
        hk'.update_same (fun _ => rfl) fun _ => rfl
      refine ⟨rfl, hone, ?_, hpin.mono ⟨fun _ h => h, fun _ h => h, fun q hq =>
        .inr (List.mem_cons_of_mem _ hq)⟩⟩
      change ((s.onPool (FileBufferPool.setBit i)).update i Frame.pin).page i ≠ none
      rw [page_pin]
      change s.page i ≠ none
      simp [page, hf]
    | none =>
      left
      rw [hframe, hf]
      exact ⟨rfl, hk.unread ((s.frame_eq_none i).mp hf) rfl rfl hset⟩
  | none =>
    dsimp only
    split
    · exact .inl ⟨rfl, hk.of_frames rfl rfl hk.allocated⟩
    · right
      have hone : (s.fileBufferPool.fileHeader.pageCount : PageNum) ≠ 1 := hk.allocated.2.1.ne'
      have hext := hk.extend
      exact ⟨rfl, hone, hext.1, hext.2⟩

theorem ensures_disposePage (hk : Keeps root N D C s) (hp : p ≠ 1)
    (hC : ∀ q ∈ C, q ∈ D ∨ q = p) :
    Ensures (disposePage p) s fun _ s' => Keeps root [] [] [] s' := by
  have hrun : disposePage p s = .ok ((s.fileBufferPool.disposePage p).1,
      s.onPool fun _ => (s.fileBufferPool.disposePage p).2) := rfl
  have hk : Keeps root [] [] [p] s :=
    hk.mono ⟨by simp, by simp, fun q hq => (hC q hq).imp_right List.mem_singleton.mpr⟩
  rw [ensures_of_eq hrun]
  unfold FileBufferPool.disposePage
  cases hf : s.fileBufferPool.frames p with
  | none => exact hk.of_saved (savedAt_of_frames_none hf)
  | some f =>
    dsimp only
    generalize hs' : s.onPool _ = s'
    have hframes : s'.fileBufferPool.frames = Function.update s.fileBufferPool.frames p none := by
      rw [← hs']
      rfl
    have halloc : s'.allocated 1 := by
      obtain ⟨hpos, hlt, hbit⟩ := hk.allocated
      rw [← hs']
      exact ⟨hpos, hlt, (Function.update_of_ne hp.symm _ _).trans hbit⟩
    have hk' : Keeps root [] [] [p, p] s' :=
      hk.replace hp (fun q hq => by rw [hframes, Function.update_of_ne hq]) (by rw [← hs']; rfl)
        halloc (by simp) (by simp)
    have hsaved : s'.SavedAt p := savedAt_of_frames_none (by rw [hframes, Function.update_self])
    exact (hk'.of_saved hsaved).of_saved hsaved

end BplusTreeHandler

end TDB
