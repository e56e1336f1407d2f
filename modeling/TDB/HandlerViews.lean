import Mathlib.Tactic.Ring
import TDB.BplusTree
import TDB.Lib.Exec

namespace TDB

variable {D : Type}

namespace FileBufferPool

/-- Two pools that the next calls of `allocate_page` cannot tell apart. -/
def Similar (bp bp' : FileBufferPool D) : Prop :=
  bp'.fileHeader = bp.fileHeader ∧ ∀ p, bp'.frame p = none ↔ bp.frame p = none

theorem similar_modify (bp : FileBufferPool D) (p : PageNum) (g : Frame D → Frame D) :
    Similar bp (bp.modify p g) := by
  refine ⟨fileHeader_modify bp p g, fun q => ?_⟩
  rw [frame_modify]
  split
  · next hq => subst hq; simp
  · rfl

theorem Similar.allocatePage [PageData D] {bp bp' : FileBufferPool D} (hs : Similar bp bp') :
    bp'.allocatePage.1 = bp.allocatePage.1 ∧ Similar bp.allocatePage.2 bp'.allocatePage.2 := by
  obtain ⟨hh, hf⟩ := hs
  have hfree : bp'.freeBit = bp.freeBit := by
    unfold freeBit
    rw [hh]
  unfold FileBufferPool.allocatePage
  rw [hfree]
  cases bp.freeBit with
  | some i =>
    have hsim : Similar (bp.setBit i) (bp'.setBit i) := ⟨by simp [setBit, hh], hf⟩
    dsimp only
    unfold getThisPage
    cases h1 : (bp.setBit i).frame i with
    | none =>
      have h2 : (bp'.setBit i).frame i = none := (hsim.2 i).mpr h1
      rw [h2]
      refine ⟨rfl, by simp [setBit, hh, RC.fail, noteFailure], fun q => ?_⟩
      simp only [RC.fail, noteFailure, setBit, bne_iff_ne, ne_eq, reduceCtorEq,
        not_false_eq_true, ↓reduceIte]
      rw [frame_update_frames, frame_update_frames]
      split
      · simp
      · exact hf q
    | some f =>
      obtain ⟨f', h2⟩ := Option.ne_none_iff_exists'.mp
        (fun h => by simp [(hsim.2 i).mp h] at h1 : (bp'.setBit i).frame i ≠ none)
      rw [h2]
      refine ⟨rfl, ?_, fun q => ?_⟩
      · simp [RC.fail, setBit, hh]
      · simp only [RC.fail, bne_self_eq_false, Bool.false_eq_true, ↓reduceIte, frame_modify, h1, h2]
        split
        · simp
        · exact hf q
  | none =>
    dsimp only
    rw [hh]
    split
    · exact ⟨rfl, by simp [noteFailure, hh], hf⟩
    · refine ⟨rfl, by simp [extend, setBit, hh], fun q => ?_⟩
      unfold extend setBit
      simp only [hh]
      rw [frame_update_frames, frame_update_frames]
      split
      · simp
      · exact hf q

theorem Similar.canAllocate [PageData D] : ∀ (n : ℕ) {bp bp' : FileBufferPool D},
    Similar bp bp' → bp'.canAllocate n = bp.canAllocate n
  | 0, _, _, _ => rfl
  | n + 1, bp, bp', hs => by
    obtain ⟨h1, h2⟩ := hs.allocatePage
    unfold FileBufferPool.canAllocate
    rw [h1, Similar.canAllocate n h2]

end FileBufferPool

namespace BplusTreeHandler

variable {A : Type}

def update (s : BplusTreeHandler A) (p : PageNum) (g : Frame (Page A) → Frame (Page A)) :
    BplusTreeHandler A :=
  s.onPool (FileBufferPool.modify p g)

def withRoot (s : BplusTreeHandler A) (p : PageNum) : BplusTreeHandler A :=
  { s with rootPage := p, headerDirty := true }

def pinCount (s : BplusTreeHandler A) (p : PageNum) : ℤ :=
  match s.fileBufferPool.frames p with
  | some f => f.pinCount
  | none => 0

def cached (s : BplusTreeHandler A) (p : PageNum) : Prop := s.fileBufferPool.frames p ≠ none

def allocated (s : BplusTreeHandler A) (p : PageNum) : Prop :=
  0 ≤ p ∧ p < s.fileBufferPool.fileHeader.pageCount ∧ s.fileBufferPool.fileHeader.bitmap p = true

/-- One reference to page `p`, as a function of the page. -/
def ref (p q : PageNum) : ℤ := if q = p then 1 else 0

section withRoot

variable (s : BplusTreeHandler A) (p q : PageNum)

@[simp] theorem rootPage_withRoot : (s.withRoot p).rootPage = p := rfl

@[simp] theorem fileBufferPool_withRoot : (s.withRoot p).fileBufferPool = s.fileBufferPool := rfl

@[simp] theorem page_withRoot : (s.withRoot p).page = s.page := rfl

@[simp] theorem allocated_withRoot : (s.withRoot p).allocated q ↔ s.allocated q := Iff.rfl

@[simp] theorem cached_withRoot : (s.withRoot p).cached q ↔ s.cached q := Iff.rfl

@[simp] theorem pinCount_withRoot : (s.withRoot p).pinCount q = s.pinCount q := rfl

end withRoot

section update

variable (s : BplusTreeHandler A) (p q : PageNum) (g : Frame (Page A) → Frame (Page A))

@[simp] theorem rootPage_update : (s.update p g).rootPage = s.rootPage := rfl

@[simp] theorem fileHeader_update :
    (s.update p g).fileBufferPool.fileHeader = s.fileBufferPool.fileHeader := by
  simp [update, onPool]

@[simp] theorem allocFailures_update :
    (s.update p g).fileBufferPool.allocFailures = s.fileBufferPool.allocFailures := by
  simp [update, onPool]

@[simp] theorem pinnedFrees_update :
    (s.update p g).fileBufferPool.pinnedFrees = s.fileBufferPool.pinnedFrees := by
  simp [update, onPool]

@[simp] theorem canAllocate_update (n : ℕ) :
    (s.update p g).fileBufferPool.canAllocate n = s.fileBufferPool.canAllocate n :=
  (FileBufferPool.similar_modify s.fileBufferPool p g).canAllocate n

@[simp] theorem allocated_update : (s.update p g).allocated q ↔ s.allocated q := by
  simp [allocated]

theorem page_update : (s.update p g).page q =
    if q = p then (s.fileBufferPool.frame p).map (fun f => (g f).data) else s.page q := by
  unfold update onPool page
  rw [FileBufferPool.frame_modify]
  split <;> simp [Function.comp_def]

theorem page_update_of_data (hg : ∀ f, (g f).data = f.data) : (s.update p g).page = s.page := by
  funext q
  rw [page_update]
  split
  · next h => subst h; simp [page, hg]
  · rfl

@[simp] theorem page_pin : (s.update p Frame.pin).page = s.page :=
  page_update_of_data s p _ fun _ => rfl

@[simp] theorem page_unpin : (s.update p Frame.unpin).page = s.page :=
  page_update_of_data s p _ fun _ => rfl

@[simp] theorem page_markDirty : (s.update p Frame.markDirty).page = s.page :=
  page_update_of_data s p _ fun _ => rfl

@[simp] theorem page_setData (d : Page A) : (s.update p (Frame.setData d)).page =
    Function.update s.page p ((s.page p).map fun _ => d) := by
  funext q; rw [page_update]
  by_cases h : q = p
  · subst h; simp [page, Function.comp_def, Frame.setData]
  · simp [h]

theorem frames_update : (s.update p g).fileBufferPool.frames q =
    if q = p then (s.fileBufferPool.frame p).map g else s.fileBufferPool.frames q :=
  FileBufferPool.frames_modify _ _ _ _

theorem frame_eq_none : s.fileBufferPool.frame p = none ↔ s.page p = none := by
  simp [page]

theorem cached_update : (s.update p g).cached q ↔ s.cached q ∨ (q = p ∧ s.page p ≠ none) := by
  unfold cached
  rw [frames_update]
  by_cases h : q = p
  · subst h
    simp only [↓reduceIte, ne_eq, Option.map_eq_none_iff, frame_eq_none, true_and]
    constructor
    · exact Or.inr
    · rintro (h | h)
      · intro h'
        rw [← frame_eq_none] at h'
        unfold FileBufferPool.frame at h'
        split at h' <;> simp_all
      · exact h
  · simp [h]

/-- The pins of the frame that stands for a page, cached or not. -/
theorem pinCount_update : (s.update p g).pinCount q =
    if q = p then
      match s.fileBufferPool.frame p with
      | some f => (g f).pinCount
      | none => 0
    else s.pinCount q := by
  unfold pinCount
  rw [frames_update]
  by_cases h : q = p
  · subst h
    cases s.fileBufferPool.frame q <;> simp
  · simp [h]

theorem frame_pinCount {f : Frame (Page A)} (h : s.fileBufferPool.frame p = some f) :
    f.pinCount = s.pinCount p := by
  unfold FileBufferPool.frame at h
  unfold pinCount
  split at h
  · next g hg => cases h; simp [hg]
  · next hg =>
    rw [Option.map_eq_some_iff] at h
    obtain ⟨d, -, rfl⟩ := h
    simp [hg]

theorem pinCount_eq_zero_of_page (h : s.page p = none) : s.pinCount p = 0 := by
  rw [← frame_eq_none] at h
  unfold FileBufferPool.frame at h
  unfold pinCount
  split at h
  · cases h
  · next hg => simp [hg]

theorem pinCount_update_of_pin (k : ℤ) (hg : ∀ f, (g f).pinCount = f.pinCount + k)
    (h : s.page p ≠ none) : (s.update p g).pinCount q = s.pinCount q + k * ref p q := by
  rw [pinCount_update]
  unfold ref
  by_cases hq : q = p
  · subst hq
    cases hf : s.fileBufferPool.frame q with
    | none => exact absurd ((s.frame_eq_none q).mp hf) h
    | some f => simp [hg, s.frame_pinCount q hf]
  · simp [hq]

theorem pinCount_pin (h : s.page p ≠ none) :
    (s.update p Frame.pin).pinCount q = s.pinCount q + ref p q := by
  rw [s.pinCount_update_of_pin p q _ 1 (fun _ => rfl) h, one_mul]

theorem pinCount_unpin (h : s.page p ≠ none) :
    (s.update p Frame.unpin).pinCount q = s.pinCount q - ref p q := by
  rw [s.pinCount_update_of_pin p q _ (-1) (fun _ => rfl) h]
  ring

theorem pinCount_update_of_same (hg : ∀ f, (g f).pinCount = f.pinCount) :
    (s.update p g).pinCount q = s.pinCount q := by
  by_cases h : s.page p = none
  · rw [pinCount_update, (s.frame_eq_none p).mpr h]
    split
    · next hq => subst hq; exact (s.pinCount_eq_zero_of_page q h).symm
    · rfl
  · rw [s.pinCount_update_of_pin p q g 0 (by simpa using hg) h]
    ring

@[simp] theorem pinCount_markDirty : (s.update p Frame.markDirty).pinCount q = s.pinCount q :=
  s.pinCount_update_of_same p q _ fun _ => rfl

@[simp] theorem pinCount_setData (d : Page A) :
    (s.update p (Frame.setData d)).pinCount q = s.pinCount q :=
  s.pinCount_update_of_same p q _ fun _ => rfl

end update

/-! ## Rules for the steps of the handler's code -/

open Exec

section rules

variable {s : BplusTreeHandler A} {p : PageNum}

theorem returns_getThisPage {Q : RC → BplusTreeHandler A → Prop} (h : s.page p ≠ none) :
    Returns (getThisPage p) s Q ↔ Q .success (s.update p Frame.pin) := by
  apply returns_of_eq
  unfold getThisPage FileBufferPool.getThisPage
  cases hf : s.fileBufferPool.frame p with
  | none => exact absurd ((s.frame_eq_none p).mp hf) h
  | some f => rfl

@[simp] theorem returns_unpinPage {Q : Unit → BplusTreeHandler A → Prop} :
    Returns (unpinPage p) s Q ↔ Q () (s.update p Frame.unpin) :=
  returns_of_eq rfl

@[simp] theorem returns_markDirty {Q : Unit → BplusTreeHandler A → Prop} :
    Returns (markDirty p) s Q ↔ Q () (s.update p Frame.markDirty) :=
  returns_of_eq rfl

@[simp] theorem returns_setPage {d : Page A} {Q : Unit → BplusTreeHandler A → Prop} :
    Returns (setPage p d) s Q ↔ Q () (s.update p (Frame.setData d)) :=
  returns_of_eq rfl

@[simp] theorem returns_updateRootPageNum {Q : Unit → BplusTreeHandler A → Prop} :
    Returns (updateRootPageNum p) s Q ↔ Q () (s.withRoot p) :=
  returns_of_eq rfl

@[simp] theorem returns_linkBound {Q : ℕ → BplusTreeHandler A → Prop} :
    Returns linkBound s Q ↔ Q s.fileBufferPool.fileHeader.pageCount s :=
  returns_of_eq rfl

theorem returns_node {d : Page A} {Q : Page A → BplusTreeHandler A → Prop}
    (h : s.page p = some d) (hd : d.isLeaf ≠ none) : Returns (node p) s Q ↔ Q d s := by
  apply returns_of_eq
  unfold node
  rw [h]
  cases d <;> first | rfl | exact absurd rfl hd

theorem returns_leafNode {par next : PageNum} {items : List (Key A × RID)}
    {Q : PageNum × PageNum × List (Key A × RID) → BplusTreeHandler A → Prop}
    (h : s.page p = some (.leaf par next items)) :
    Returns (leafNode p) s Q ↔ Q (par, next, items) s := by
  apply returns_of_eq
  unfold leafNode
  rw [h]

theorem returns_internalNode {par : PageNum} {items : List (Key A × PageNum)}
    {Q : PageNum × List (Key A × PageNum) → BplusTreeHandler A → Prop}
    (h : s.page p = some (.internal par items)) :
    Returns (internalNode p) s Q ↔ Q (par, items) s := by
  apply returns_of_eq
  unfold internalNode
  rw [h]

theorem returns_itemAt {α : Type} {items : List α} {x : α} {index : ℤ} {i : ℕ}
    {Q : α → BplusTreeHandler A → Prop} (hi : index = i) (h : items[i]? = some x) :
    Returns (itemAt items index) s Q ↔ Q x s := by
  apply returns_of_eq
  unfold itemAt
  rw [hi, if_neg (by omega), Int.toNat_natCast, h]

theorem returns_insertItem {α : Type} {items : List α} {x : α} {i : ℕ}
    {Q : List α → BplusTreeHandler A → Prop} (h : i ≤ items.length) :
    Returns (insertItem items i x) s Q ↔ Q (items.take i ++ x :: items.drop i) s := by
  apply returns_of_eq
  unfold insertItem
  rw [if_pos h]

theorem returns_setParentPageNum {d : Page A} {x : PageNum}
    {Q : Unit → BplusTreeHandler A → Prop} (h : s.page p = some d) (hd : d.isLeaf ≠ none) :
    Returns (setParentPageNum p x) s Q ↔ Q () (s.update p (Frame.setData (d.setParent x))) := by
  unfold setParentPageNum
  rw [returns_bind, returns_node h hd, returns_setPage]

end rules

/-! ## Allocating and disposing -/

/-- The handler after an `allocate_page` that gave out `p`. -/
structure Allocates (s : BplusTreeHandler A) (p : PageNum) (s' : BplusTreeHandler A) : Prop where
  fresh : ¬ s.allocated p
  allocated_iff : ∀ q, s'.allocated q ↔ s.allocated q ∨ q = p
  page_ne_none : s'.page p ≠ none
  page_eq : ∀ q, q ≠ p → s'.page q = s.page q
  cached : s'.cached p
  cached_of : ∀ q, s.cached q → s'.cached q
  pinCount : ∀ q, s'.pinCount q = s.pinCount q + ref p q
  rootPage : s'.rootPage = s.rootPage
  allocFailures : s'.fileBufferPool.allocFailures = s.fileBufferPool.allocFailures
  pinnedFrees : s'.fileBufferPool.pinnedFrees = s.fileBufferPool.pinnedFrees
  pageCount : s.fileBufferPool.fileHeader.pageCount ≤ s'.fileBufferPool.fileHeader.pageCount
  canAllocate : ∀ n, s.fileBufferPool.canAllocate (n + 1) = s'.fileBufferPool.canAllocate n

structure AllocFails (s s' : BplusTreeHandler A) : Prop where
  page_eq : ∀ q, s.allocated q → s'.page q = s.page q
  allocated_of : ∀ q, s.allocated q → s'.allocated q
  rootPage : s'.rootPage = s.rootPage
  allocFailures : s'.fileBufferPool.allocFailures = s.fileBufferPool.allocFailures + 1
  pageCount : s.fileBufferPool.fileHeader.pageCount = s'.fileBufferPool.fileHeader.pageCount
  canAllocate : ∀ n, s.fileBufferPool.canAllocate (n + 1) = false

theorem setBit_allocated_iff (s : BplusTreeHandler A) {i : ℕ}
    (hi : i < s.fileBufferPool.fileHeader.pageCount) (q : PageNum) :
    (s.onPool (FileBufferPool.setBit i)).allocated q ↔ s.allocated q ∨ q = i := by
  unfold allocated onPool FileBufferPool.setBit
  by_cases hq : q = i
  · subst hq; simp [hi]
  · simp [hq]

/-- The free page that `allocate_page` loads again. -/
theorem allocates_reload {s : BplusTreeHandler A} {i : ℕ}
    (hi : s.fileBufferPool.freeBit = some i) (hp : s.page i ≠ none)
    (hc : ∀ n, s.fileBufferPool.canAllocate (n + 1) =
      ((s.onPool (FileBufferPool.setBit i)).update i Frame.pin).fileBufferPool.canAllocate n) :
    Allocates s i ((s.onPool (FileBufferPool.setBit i)).update i Frame.pin) := by
  obtain ⟨hlt, hbit, -⟩ := FileBufferPool.freeBit_eq_some hi
  have hp' : (s.onPool (FileBufferPool.setBit i)).page i ≠ none := hp
  refine ⟨?_, ?_, by simpa using hp', ?_, ?_, ?_, ?_, rfl, ?_, ?_, ?_, hc⟩
  · rintro ⟨-, -, hb⟩
    simp [hbit] at hb
  · intro q
    rw [allocated_update, setBit_allocated_iff s hlt]
  · intro q _
    rw [page_pin]
    rfl
  · exact (cached_update _ _ _ _).mpr (Or.inr ⟨rfl, hp'⟩)
  · exact fun q hq => (cached_update _ _ _ _).mpr (Or.inl hq)
  · intro q
    rw [pinCount_pin _ _ _ hp']
    rfl
  · rw [allocFailures_update]
    rfl
  · rw [pinnedFrees_update]
    rfl
  · rw [fileHeader_update]
    exact le_rfl

theorem allocates_extend (s : BplusTreeHandler A)
    (hc : ∀ n, s.fileBufferPool.canAllocate (n + 1) =
      (s.onPool FileBufferPool.extend).fileBufferPool.canAllocate n) :
    Allocates s s.fileBufferPool.fileHeader.pageCount (s.onPool FileBufferPool.extend) := by
  have hframes : ∀ q : PageNum, q ≠ s.fileBufferPool.fileHeader.pageCount →
      (s.onPool FileBufferPool.extend).fileBufferPool.frames q = s.fileBufferPool.frames q :=
    fun q hq => Function.update_of_ne hq _ _
  refine ⟨?_, ?_, ?_, ?_, ?_, ?_, ?_, rfl, rfl, rfl, Nat.le_succ _, hc⟩
  · rintro ⟨-, hlt, -⟩
    exact lt_irrefl _ hlt
  · intro q
    unfold allocated onPool FileBufferPool.extend FileBufferPool.setBit
    by_cases hq : q = s.fileBufferPool.fileHeader.pageCount
    · subst hq; simp
    · have hlt : q < s.fileBufferPool.fileHeader.pageCount + 1 ↔
          q < s.fileBufferPool.fileHeader.pageCount :=
        ⟨fun h => lt_of_le_of_ne (Int.lt_add_one_iff.mp h) hq, fun h => h.trans (lt_add_one _)⟩
      simp [hq, hlt]
  · unfold page onPool FileBufferPool.extend FileBufferPool.frame
    simp
  · intro q hq
    unfold page FileBufferPool.frame
    rw [hframes q hq]
    rfl
  · unfold cached onPool FileBufferPool.extend
    simp
  · intro q hq
    by_cases hqp : q = s.fileBufferPool.fileHeader.pageCount
    · subst hqp
      unfold cached onPool FileBufferPool.extend
      simp
    · unfold cached
      rw [hframes q hqp]
      exact hq
  · intro q
    unfold ref
    by_cases hq : q = s.fileBufferPool.fileHeader.pageCount
    · subst hq
      unfold pinCount onPool FileBufferPool.extend FileBufferPool.setBit
      cases hf : s.fileBufferPool.frames s.fileBufferPool.fileHeader.pageCount <;> simp [hf]
    · unfold pinCount
      rw [hframes q hq]
      simp [hq]

theorem returns_allocatePage (s : BplusTreeHandler A) :
    Returns allocatePage s fun r s' =>
      (r.1 = .success ∧ Allocates s r.2 s') ∨ (r.1.fail = true ∧ AllocFails s s') := by
  have hrun : allocatePage s = .ok (s.fileBufferPool.allocatePage.1,
      s.onPool fun _ => s.fileBufferPool.allocatePage.2) := rfl
  rw [returns_of_eq hrun]
  have hcan : ∀ n, s.fileBufferPool.canAllocate (n + 1) =
      (!s.fileBufferPool.allocatePage.1.1.fail &&
        s.fileBufferPool.allocatePage.2.canAllocate n) := fun _ => rfl
  unfold FileBufferPool.allocatePage at hcan ⊢
  -- a page that was freed is used again if there is one, else the file grows by one
  cases hfree : s.fileBufferPool.freeBit with
  | some i =>
    -- the page's bit is set before the page is read, and the read can fail
    obtain ⟨hlt, hbit, -⟩ := FileBufferPool.freeBit_eq_some hfree
    rw [hfree] at hcan
    dsimp only at hcan ⊢
    unfold FileBufferPool.getThisPage at hcan ⊢
    have hframe : (s.fileBufferPool.setBit i).frame i = s.fileBufferPool.frame i := rfl
    cases hf : s.fileBufferPool.frame i with
    | some f =>
      left
      rw [hframe, hf] at hcan ⊢
      exact ⟨rfl, allocates_reload hfree (by simp [page, hf]) hcan⟩
    | none =>
      right
      rw [hframe, hf] at hcan ⊢
      refine ⟨rfl, ?_, ?_, rfl, rfl, rfl, hcan⟩
      · rintro q ⟨-, -, hb⟩
        have hq : q ≠ i := by
          rintro rfl
          simp [hbit] at hb
        unfold page FileBufferPool.frame
        simp [onPool, FileBufferPool.noteFailure, RC.fail, FileBufferPool.setBit, hq]
      · exact fun q hq => (setBit_allocated_iff s hlt q).mpr (Or.inl hq)
  | none =>
    rw [hfree] at hcan
    dsimp only at hcan ⊢
    split
    · next hmax =>
      right
      rw [if_pos hmax] at hcan
      exact ⟨rfl, fun _ _ => rfl, fun _ h => h, rfl, rfl, rfl, hcan⟩
    · next hmax =>
      left
      rw [if_neg hmax] at hcan
      exact ⟨rfl, allocates_extend s hcan⟩

structure Disposes (s : BplusTreeHandler A) (p : PageNum) (s' : BplusTreeHandler A) : Prop where
  allocated_iff : ∀ q, s'.allocated q ↔ s.allocated q ∧ q ≠ p
  page_eq : ∀ q, q ≠ p → s'.page q = s.page q
  cached_of : ∀ q, q ≠ p → s.cached q → s'.cached q
  pinCount_self : s'.pinCount p = 0
  pinCount : ∀ q, q ≠ p → s'.pinCount q = s.pinCount q
  rootPage : s'.rootPage = s.rootPage
  allocFailures : s'.fileBufferPool.allocFailures = s.fileBufferPool.allocFailures
  pinnedFrees : s.pinCount p = 0 → s'.fileBufferPool.pinnedFrees = s.fileBufferPool.pinnedFrees
  pageCount : s'.fileBufferPool.fileHeader.pageCount = s.fileBufferPool.fileHeader.pageCount

theorem returns_disposePage {s : BplusTreeHandler A} {p : PageNum} (h : s.cached p) :
    Returns (disposePage p) s fun _ s' => Disposes s p s' := by
  have hrun : disposePage p s = .ok ((s.fileBufferPool.disposePage p).1,
      s.onPool fun _ => (s.fileBufferPool.disposePage p).2) := rfl
  rw [returns_of_eq hrun]
  unfold FileBufferPool.disposePage
  cases hf : s.fileBufferPool.frames p with
  | none => exact absurd hf h
  | some f =>
    dsimp only
    refine ⟨?_, ?_, ?_, ?_, ?_, rfl, rfl, ?_, rfl⟩
    · intro q
      unfold allocated onPool
      by_cases hq : q = p
      · subst hq; simp
      · simp [hq]
    · intro q hq
      unfold page FileBufferPool.frame
      simp [onPool, hq]
    · intro q hq hc
      unfold cached at hc ⊢
      simpa [onPool, hq] using hc
    · simp [pinCount, onPool]
    · intro q hq
      simp [pinCount, onPool, hq]
    · intro hpin
      have : f.pinCount = 0 := by simpa [pinCount, hf] using hpin
      simp [onPool, this]

theorem frames_created_of_ne {p : PageNum} (hp : p ≠ 1) :
    (created : BplusTreeHandler A).fileBufferPool.frames p = none := by
  change (Function.update (Function.update (Function.update (Function.update _ 1 _) 1 _) 1 _) 1 _ :
    PageNum → Option (Frame _)) p = none
  simp only [Function.update_of_ne hp]
  rfl

end BplusTreeHandler

end TDB
