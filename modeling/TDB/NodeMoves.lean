import TDB.HandlerViews

namespace TDB

/-- The parent field of a node, `none` for a page that is no node. -/
def Page.parent? {A : Type} : Page A → Option PageNum
  | .leaf p _ _ => some p
  | .internal p _ => some p
  | _ => none

namespace BplusTreeHandler

open Exec

variable {A : Type}

/-! ## Pages as a parent field and the rest -/

def body (s : BplusTreeHandler A) (p : PageNum) : Option (Page A) :=
  (s.page p).map (Page.setParent 0)

def parentPage (s : BplusTreeHandler A) (p : PageNum) : Option PageNum :=
  (s.page p).bind Page.parent?

def withParent (s : BplusTreeHandler A) (p x : PageNum) : BplusTreeHandler A :=
  match s.page p with
  | some d => s.update p (Frame.setData (d.setParent x))
  | none => s

section views

variable {s : BplusTreeHandler A} {p q x : PageNum}

theorem page_ne_none_of_parentPage (h : s.parentPage p ≠ none) : s.page p ≠ none := by
  intro h'
  simp [parentPage, h'] at h

theorem page_ne_none_of_body {d : Page A} (h : s.body p = some d) : s.page p ≠ none := by
  intro h'
  simp [body, h'] at h

theorem node_of_parentPage {par : PageNum} (hp : s.parentPage p = some par) :
    ∃ d, s.page p = some d ∧ d.isLeaf ≠ none ∧ d.parent = par := by
  unfold parentPage at hp
  obtain ⟨d, hd, hpar⟩ := Option.bind_eq_some_iff.mp hp
  refine ⟨d, hd, ?_⟩
  cases d <;> simp_all [Page.parent?, Page.isLeaf, Page.parent]

theorem page_eq_leaf {par next : PageNum} {items : List (Key A × RID)}
    (hb : s.body p = some (.leaf 0 next items)) (hp : s.parentPage p = some par) :
    s.page p = some (.leaf par next items) := by
  unfold body at hb
  unfold parentPage at hp
  cases hd : s.page p with
  | none => simp [hd] at hb
  | some d => cases d <;> simp_all [Page.setParent, Page.parent?]

theorem page_eq_internal {par : PageNum} {items : List (Key A × PageNum)}
    (hb : s.body p = some (.internal 0 items)) (hp : s.parentPage p = some par) :
    s.page p = some (.internal par items) := by
  unfold body at hb
  unfold parentPage at hp
  cases hd : s.page p with
  | none => simp [hd] at hb
  | some d => cases d <;> simp_all [Page.setParent, Page.parent?]

theorem body_of_internal {par : PageNum} {items : List (Key A × PageNum)}
    (hpage : s.page p = some (.internal par items)) : s.body p = some (.internal 0 items) := by
  simp [body, hpage, Page.setParent]

theorem parentPage_of_internal {par : PageNum} {items : List (Key A × PageNum)}
    (hpage : s.page p = some (.internal par items)) : s.parentPage p = some par := by
  simp [parentPage, hpage, Page.parent?]

theorem body_congr {s s' : BplusTreeHandler A} (h : s'.page p = s.page p) :
    s'.body p = s.body p := by
  rw [body, h, body]

theorem parentPage_congr {s s' : BplusTreeHandler A} (h : s'.page p = s.page p) :
    s'.parentPage p = s.parentPage p := by
  rw [parentPage, h, parentPage]

theorem body_update_of_data {g : Frame (Page A) → Frame (Page A)} (hg : ∀ f, (g f).data = f.data) :
    (s.update p g).body = s.body := by
  funext q
  exact body_congr (by rw [page_update_of_data s p g hg])

theorem parentPage_update_of_data {g : Frame (Page A) → Frame (Page A)}
    (hg : ∀ f, (g f).data = f.data) : (s.update p g).parentPage = s.parentPage := by
  funext q
  exact parentPage_congr (by rw [page_update_of_data s p g hg])

@[simp] theorem body_pin : (s.update p Frame.pin).body = s.body :=
  body_update_of_data fun _ => rfl

@[simp] theorem body_unpin : (s.update p Frame.unpin).body = s.body :=
  body_update_of_data fun _ => rfl

@[simp] theorem body_markDirty : (s.update p Frame.markDirty).body = s.body :=
  body_update_of_data fun _ => rfl

@[simp] theorem parentPage_pin : (s.update p Frame.pin).parentPage = s.parentPage :=
  parentPage_update_of_data fun _ => rfl

@[simp] theorem parentPage_unpin : (s.update p Frame.unpin).parentPage = s.parentPage :=
  parentPage_update_of_data fun _ => rfl

@[simp] theorem parentPage_markDirty : (s.update p Frame.markDirty).parentPage = s.parentPage :=
  parentPage_update_of_data fun _ => rfl

@[simp] theorem body_withRoot : (s.withRoot p).body = s.body := rfl

@[simp] theorem parentPage_withRoot : (s.withRoot p).parentPage = s.parentPage := rfl

theorem body_setData (h : s.page p ≠ none) (d : Page A) :
    (s.update p (Frame.setData d)).body = Function.update s.body p (some (d.setParent 0)) := by
  funext q
  obtain ⟨e, he⟩ := Option.ne_none_iff_exists'.mp h
  by_cases hq : q = p
  · subst hq; simp [body, he]
  · simp [body, hq]

theorem parentPage_setData (h : s.page p ≠ none) (d : Page A) :
    (s.update p (Frame.setData d)).parentPage = Function.update s.parentPage p d.parent? := by
  funext q
  obtain ⟨e, he⟩ := Option.ne_none_iff_exists'.mp h
  by_cases hq : q = p
  · subst hq; simp [parentPage, he]
  · simp [parentPage, hq]

theorem withParent_eq (h : s.parentPage p ≠ none) : ∃ d, s.page p = some d ∧ d.isLeaf ≠ none ∧
    s.withParent p x = s.update p (Frame.setData (d.setParent x)) := by
  obtain ⟨d, hd⟩ := Option.ne_none_iff_exists'.mp (page_ne_none_of_parentPage h)
  refine ⟨d, hd, ?_, by simp [withParent, hd]⟩
  unfold parentPage at h
  rw [hd] at h
  cases d <;> simp_all [Page.parent?, Page.isLeaf]

@[simp] theorem body_withParent : (s.withParent p x).body = s.body := by
  unfold withParent
  cases hd : s.page p with
  | none => rfl
  | some d =>
    dsimp only
    rw [body_setData (by simp [hd])]
    have hself : s.body p = some ((d.setParent x).setParent 0) := by
      unfold body
      rw [hd]
      cases d <;> rfl
    rw [← hself, Function.update_eq_self]

theorem parentPage_withParent (h : s.parentPage p ≠ none) :
    (s.withParent p x).parentPage = Function.update s.parentPage p (some x) := by
  obtain ⟨d, hd, hnode, heq⟩ := withParent_eq (x := x) h
  rw [heq, parentPage_setData (by simp [hd])]
  congr 1
  cases d <;> simp_all [Page.setParent, Page.parent?, Page.isLeaf]

@[simp] theorem page_withParent_eq_none : (s.withParent p x).page q = none ↔ s.page q = none := by
  unfold withParent
  cases hd : s.page p with
  | none => rfl
  | some d =>
    by_cases hq : q = p
    · subst hq; simp [hd]
    · simp [hq]

theorem returns_withParent {Q : Unit → BplusTreeHandler A → Prop} (h : s.parentPage p ≠ none) :
    Returns (setParentPageNum p x) s Q ↔ Q () (s.withParent p x) := by
  obtain ⟨d, hd, hnode, heq⟩ := withParent_eq (x := x) h
  rw [returns_setParentPageNum hd hnode, heq]

end views

/-! ## Steps that only change frames -/

/-- Nothing changed but the contents of frames; `d` is the change of the pin counts. -/
structure Quiet (s s' : BplusTreeHandler A) (d : PageNum → ℤ) : Prop where
  rootPage : s'.rootPage = s.rootPage
  fileHeader : s'.fileBufferPool.fileHeader = s.fileBufferPool.fileHeader
  allocFailures : s'.fileBufferPool.allocFailures = s.fileBufferPool.allocFailures
  pinnedFrees : s'.fileBufferPool.pinnedFrees = s.fileBufferPool.pinnedFrees
  cached : ∀ q, s.cached q → s'.cached q
  pinCount : ∀ q, s'.pinCount q = s.pinCount q + d q
  canAllocate : ∀ n, s'.fileBufferPool.canAllocate n = s.fileBufferPool.canAllocate n

namespace Quiet

variable {s s' s'' : BplusTreeHandler A} {d d' : PageNum → ℤ}

theorem refl (s : BplusTreeHandler A) : Quiet s s 0 :=
  ⟨rfl, rfl, rfl, rfl, fun _ h => h, fun q => by simp, fun _ => rfl⟩

theorem trans (h : Quiet s s' d) (h' : Quiet s' s'' d') : Quiet s s'' (d + d') :=
  ⟨h'.rootPage.trans h.rootPage, h'.fileHeader.trans h.fileHeader,
    h'.allocFailures.trans h.allocFailures, h'.pinnedFrees.trans h.pinnedFrees,
    fun q hq => h'.cached q (h.cached q hq),
    fun q => by rw [h'.pinCount, h.pinCount, Pi.add_apply, add_assoc],
    fun n => (h'.canAllocate n).trans (h.canAllocate n)⟩

theorem congr (h : Quiet s s' d) (hd : d = d') : Quiet s s' d' := hd ▸ h

theorem allocated_iff (h : Quiet s s' d) (q : PageNum) : s'.allocated q ↔ s.allocated q := by
  unfold allocated
  rw [h.fileHeader]

theorem update (s : BplusTreeHandler A) (p : PageNum) {g : Frame (Page A) → Frame (Page A)}
    (hd : ∀ q, (s.update p g).pinCount q = s.pinCount q + d q) : Quiet s (s.update p g) d :=
  ⟨rfl, by simp, by simp, by simp, fun q hq => (cached_update _ _ _ _).mpr (Or.inl hq), hd,
    by simp⟩

theorem pin {p : PageNum} (h : s.page p ≠ none) : Quiet s (s.update p Frame.pin) (ref p) :=
  update s p fun q => pinCount_pin s p q h

theorem unpin {p : PageNum} (h : s.page p ≠ none) : Quiet s (s.update p Frame.unpin) (-ref p) :=
  update s p fun q => by rw [pinCount_unpin s p q h, Pi.neg_apply, sub_eq_add_neg]

theorem markDirty (s : BplusTreeHandler A) (p : PageNum) :
    Quiet s (s.update p Frame.markDirty) 0 :=
  update s p fun q => by simp

theorem setData (s : BplusTreeHandler A) (p : PageNum) (e : Page A) :
    Quiet s (s.update p (Frame.setData e)) 0 :=
  update s p fun q => by simp

theorem withParent (s : BplusTreeHandler A) (p x : PageNum) : Quiet s (s.withParent p x) 0 := by
  unfold BplusTreeHandler.withParent
  split
  · exact setData s p _
  · exact refl s

end Quiet

@[simp] theorem pinCount_withParent (s : BplusTreeHandler A) (p x q : PageNum) :
    (s.withParent p x).pinCount q = s.pinCount q := by
  simpa using (Quiet.withParent s p x).pinCount q

@[simp] theorem rootPage_withParent (s : BplusTreeHandler A) (p x : PageNum) :
    (s.withParent p x).rootPage = s.rootPage := (Quiet.withParent s p x).rootPage

@[simp] theorem allocated_withParent (s : BplusTreeHandler A) (p x q : PageNum) :
    (s.withParent p x).allocated q ↔ s.allocated q := (Quiet.withParent s p x).allocated_iff q

@[simp] theorem allocFailures_withParent (s : BplusTreeHandler A) (p x : PageNum) :
    (s.withParent p x).fileBufferPool.allocFailures = s.fileBufferPool.allocFailures :=
  (Quiet.withParent s p x).allocFailures

@[simp] theorem pinnedFrees_withParent (s : BplusTreeHandler A) (p x : PageNum) :
    (s.withParent p x).fileBufferPool.pinnedFrees = s.fileBufferPool.pinnedFrees :=
  (Quiet.withParent s p x).pinnedFrees

@[simp] theorem fileHeader_withParent (s : BplusTreeHandler A) (p x : PageNum) :
    (s.withParent p x).fileBufferPool.fileHeader = s.fileBufferPool.fileHeader :=
  (Quiet.withParent s p x).fileHeader

/-! ## Moving items -/

@[simp] theorem fail_success : RC.success.fail = false := rfl

/-- `adopt_children`: only the parent fields of the children change. -/
theorem returns_adoptChildren (t : PageNum) : ∀ (items : List (Key A × PageNum))
    (s : BplusTreeHandler A), (∀ item ∈ items, s.parentPage item.2 ≠ none) →
    Returns (adoptChildren t items) s fun rc s' => rc = .success ∧ s'.body = s.body ∧
      (∀ q, s'.parentPage q = if q ∈ items.map Prod.snd then some t else s.parentPage q) ∧
      Quiet s s' 0
  | [], s, _ => by simpa [adoptChildren] using Quiet.refl s
  | item :: rest, s, hs => by
    have hitem : s.parentPage item.2 ≠ none := hs item (by simp)
    have hpage := page_ne_none_of_parentPage hitem
    unfold adoptChildren
    rw [returns_bind, returns_getThisPage hpage]
    simp only [fail_success, Bool.false_eq_true, ↓reduceIte, returns_bind]
    rw [returns_withParent (by simpa using hitem)]
    simp only [returns_markDirty, returns_unpinPage]
    generalize hs₁ : (((s.update item.2 Frame.pin).withParent item.2 t).update item.2
      Frame.markDirty).update item.2 Frame.unpin = s₁
    have hbody : s₁.body = s.body := by simp [← hs₁]
    have hparent : s₁.parentPage = Function.update s.parentPage item.2 (some t) := by
      rw [← hs₁]
      simp [parentPage_withParent, hitem]
    have hq : Quiet s s₁ 0 := by
      rw [← hs₁]
      have hp3 : (((s.update item.2 Frame.pin).withParent item.2 t).update item.2
          Frame.markDirty).page item.2 ≠ none := by
        apply page_ne_none_of_parentPage
        simp [parentPage_withParent, hitem]
      refine ((((Quiet.pin hpage).trans (Quiet.withParent _ _ _)).trans
        (Quiet.markDirty _ _)).trans (Quiet.unpin hp3)).congr ?_
      simp
    -- on the children: the first is done, and its parent field is not written again
    refine (returns_adoptChildren t rest s₁ ?_).mono ?_
    · intro x hx
      rw [hparent]
      by_cases hxi : x.2 = item.2
      · simp [hxi]
      · simpa [hxi] using hs x (by simp [hx])
    · rintro rc s' ⟨rfl, hb, hp, hq'⟩
      refine ⟨rfl, hb.trans hbody, ?_, by simpa using hq.trans hq'⟩
      intro q
      rw [hp, hparent]
      by_cases h1 : q ∈ rest.map Prod.snd
      · simp [h1]
      · by_cases h2 : q = item.2
        · simp [h2]
        · simp [h1, h2]

/-- What a move of items between two nodes leaves: new contents of both, and the children `moved`
have `other` as their parent. -/
structure Moved (s : BplusTreeHandler A) (this other : PageNum) (thisBody otherBody : Page A)
    (moved : List PageNum) (s' : BplusTreeHandler A) : Prop where
  body : s'.body =
    Function.update (Function.update s.body other (some otherBody)) this (some thisBody)
  parentPage : ∀ q, s'.parentPage q = if q ∈ moved then some other else s.parentPage q
  quiet : Quiet s s' 0

section moves

variable {s : BplusTreeHandler A} {this other par opar next onext : PageNum}

/-- A node that has adopted some children gets a new content. -/
theorem adopted_setData {s₁ : BplusTreeHandler A} {items own : List (Key A × PageNum)}
    (hb₁ : s₁.body = s.body)
    (hp₁ : ∀ q, s₁.parentPage q = if q ∈ items.map Prod.snd then some other else s.parentPage q)
    (hq₁ : Quiet s s₁ 0) (hpage : s₁.page other = some (.internal opar own))
    (hp : s.parentPage other = some opar) (hother : other ∉ items.map Prod.snd)
    (content : List (Key A × PageNum)) :
    let s' := s₁.update other (Frame.setData (.internal opar content))
    s'.body = Function.update s.body other (some (.internal 0 content)) ∧
      (∀ q, s'.parentPage q = if q ∈ items.map Prod.snd then some other else s.parentPage q) ∧
      Quiet s s' 0 := by
  refine ⟨?_, ?_, by simpa using hq₁.trans (Quiet.setData _ _ _)⟩
  · rw [body_setData (by simp [hpage]), hb₁]
    rfl
  · intro q
    rw [parentPage_setData (by simp [hpage])]
    by_cases hq : q = other
    · subst hq
      simp only [Page.parent?, Function.update_self]
      rw [if_neg hother, hp]
    · rw [Function.update_of_ne hq, hp₁]

theorem returns_copyFrom {items own : List (Key A × PageNum)}
    (hb : s.body other = some (.internal 0 own)) (hp : s.parentPage other = some opar)
    (hkids : ∀ item ∈ items, s.parentPage item.2 ≠ none) (hother : other ∉ items.map Prod.snd) :
    Returns (copyFrom other items) s fun rc s' => rc = .success ∧
      s'.body = Function.update s.body other (some (.internal 0 (own ++ items))) ∧
      (∀ q, s'.parentPage q = if q ∈ items.map Prod.snd then some other else s.parentPage q) ∧
      Quiet s s' 0 := by
  unfold copyFrom
  refine (returns_adoptChildren other items s hkids).bind ?_
  rintro rc s₁ ⟨rfl, hb₁, hp₁, hq₁⟩
  have hpar : s₁.parentPage other = some opar := by rw [hp₁, if_neg hother, hp]
  have hpage : s₁.page other = some (.internal opar own) :=
    page_eq_internal (by rw [hb₁, hb]) hpar
  simp only [fail_success, Bool.false_eq_true, ↓reduceIte, returns_bind]
  rw [returns_internalNode hpage]
  simp only [returns_setPage, returns_pure, true_and]
  exact adopted_setData hb₁ hp₁ hq₁ hpage hp hother (own ++ items)

theorem returns_preappend {item : Key A × PageNum} {own : List (Key A × PageNum)}
    (hb : s.body other = some (.internal 0 own)) (hp : s.parentPage other = some opar)
    (hkid : s.parentPage item.2 ≠ none) (hother : other ≠ item.2) :
    Returns (preappend other item) s fun rc s' => rc = .success ∧
      s'.body = Function.update s.body other (some (.internal 0 (item :: own))) ∧
      (∀ q, s'.parentPage q = if q = item.2 then some other else s.parentPage q) ∧
      Quiet s s' 0 := by
  -- the first half is the loop of `copy_from` for one item
  have hone : preappend other item = (do
      let rc ← adoptChildren other [item]
      if rc.fail then return rc
      let node ← internalNode other
      setPage other (.internal node.1 (item :: node.2))
      return .success) := by
    unfold preappend adoptChildren
    simp only [adoptChildren, bind_assoc]
    congr 1
    funext rc
    split
    · next h => simp [h]
    · simp
  rw [hone]
  refine (returns_adoptChildren other [item] s (by simpa using hkid)).bind ?_
  rintro rc s₁ ⟨rfl, hb₁, hp₁, hq₁⟩
  have hpar : s₁.parentPage other = some opar := by rw [hp₁, if_neg (by simpa using hother), hp]
  have hpage : s₁.page other = some (.internal opar own) :=
    page_eq_internal (by rw [hb₁, hb]) hpar
  simp only [fail_success, Bool.false_eq_true, ↓reduceIte, returns_bind]
  rw [returns_internalNode hpage]
  simp only [returns_setPage, returns_pure, true_and]
  obtain ⟨hbody, hparent, hquiet⟩ := adopted_setData hb₁ hp₁ hq₁ hpage hp
    (by simpa using hother) (item :: own)
  refine ⟨hbody, ?_, hquiet⟩
  intro q
  rw [hparent]
  simp

/-- The last steps of a move between leaves: both nodes are written. -/
theorem moved_leaf {items oitems items' oitems' : List (Key A × RID)} {next' onext' : PageNum}
    (hthis : s.page this = some (.leaf par next items))
    (hother : s.page other = some (.leaf opar onext oitems)) (hne : this ≠ other) :
    Moved s this other (.leaf 0 next' items') (.leaf 0 onext' oitems') []
      ((s.update other (Frame.setData (.leaf opar onext' oitems'))).update this
        (Frame.setData (.leaf par next' items'))) := by
  have hpage : (s.update other (Frame.setData (.leaf opar onext' oitems'))).page this ≠ none := by
    simp [hne, hthis]
  refine ⟨?_, ?_, by simpa using (Quiet.setData _ _ _).trans (Quiet.setData _ _ _)⟩
  · rw [body_setData hpage, body_setData (by simp [hother])]
    rfl
  · intro q
    rw [parentPage_setData hpage, parentPage_setData (by simp [hother])]
    by_cases h1 : q = this
    · subst h1; simp [parentPage, hthis, Page.parent?]
    · by_cases h2 : q = other
      · subst h2; simp [parentPage, hother, Page.parent?, h1]
      · simp [h1, h2]

/-- The last step of a move between internal nodes: the items are gone from the first. -/
theorem moved_internal {s₁ : BplusTreeHandler A} {items items' own : List (Key A × PageNum)}
    {moved : List PageNum} (hthis : s.page this = some (.internal par items)) (hne : this ≠ other)
    (hmoved : this ∉ moved)
    (hb : s₁.body = Function.update s.body other (some (.internal 0 own)))
    (hp : ∀ q, s₁.parentPage q = if q ∈ moved then some other else s.parentPage q)
    (hq : Quiet s s₁ 0) :
    Moved s this other (.internal 0 items') (.internal 0 own) moved
      (s₁.update this (Frame.setData (.internal par items'))) := by
  have hbody : s₁.body this = some (.internal 0 items) := by
    rw [hb, Function.update_of_ne hne]
    simp [body, hthis, Page.setParent]
  have hpage := page_ne_none_of_body hbody
  refine ⟨?_, ?_, by simpa using hq.trans (Quiet.setData _ _ _)⟩
  · rw [body_setData hpage, hb]
    rfl
  · intro q
    rw [parentPage_setData hpage]
    by_cases h1 : q = this
    · subst h1; simp [hmoved, parentPage, hthis, Page.parent?]
    · rw [Function.update_of_ne h1, hp]

section leafMoves

variable {items oitems : List (Key A × RID)}

theorem returns_moveHalfTo_leaf (hthis : s.page this = some (.leaf par next items))
    (hother : s.page other = some (.leaf opar onext oitems)) (hne : this ≠ other) :
    Returns (moveHalfTo .leaf this other) s fun rc s' => rc = .success ∧
      Moved s this other (.leaf 0 next (items.take (items.length / 2)))
        (.leaf 0 onext (oitems ++ items.drop (items.length / 2))) [] s' := by
  unfold moveHalfTo
  rw [returns_bind, returns_leafNode hthis, returns_bind, returns_leafNode hother]
  simp only [returns_bind, returns_setPage, returns_pure, true_and]
  exact moved_leaf hthis hother hne

theorem returns_moveTo_leaf (hthis : s.page this = some (.leaf par next items))
    (hother : s.page other = some (.leaf opar onext oitems)) (hne : this ≠ other) :
    Returns (moveTo .leaf this other) s fun rc s' => rc = .success ∧
      Moved s this other (.leaf 0 next []) (.leaf 0 next (oitems ++ items)) [] s' := by
  unfold moveTo
  rw [returns_bind, returns_leafNode hthis, returns_bind, returns_leafNode hother]
  simp only [returns_bind, returns_setPage, returns_pure, true_and]
  exact moved_leaf hthis hother hne

theorem returns_moveFirstToEnd_leaf {x : Key A × RID}
    (hthis : s.page this = some (.leaf par next (x :: items)))
    (hother : s.page other = some (.leaf opar onext oitems)) (hne : this ≠ other) :
    Returns (moveFirstToEnd .leaf this other) s fun rc s' => rc = .success ∧
      Moved s this other (.leaf 0 next items) (.leaf 0 onext (oitems ++ [x])) [] s' := by
  unfold moveFirstToEnd
  rw [returns_bind, returns_leafNode hthis, returns_bind, returns_leafNode hother, returns_bind,
    returns_itemAt (i := 0) (x := x) (by simp) (by simp)]
  simp only [returns_bind, returns_setPage, returns_pure, true_and, List.tail_cons]
  exact moved_leaf hthis hother hne

theorem returns_moveLastToFront_leaf {x : Key A × RID}
    (hthis : s.page this = some (.leaf par next (items ++ [x])))
    (hother : s.page other = some (.leaf opar onext oitems)) (hne : this ≠ other) :
    Returns (moveLastToFront .leaf this other) s fun rc s' => rc = .success ∧
      Moved s this other (.leaf 0 next items) (.leaf 0 onext (x :: oitems)) [] s' := by
  unfold moveLastToFront
  rw [returns_bind, returns_leafNode hthis, returns_bind, returns_leafNode hother, returns_bind,
    returns_itemAt (i := items.length) (x := x) (by simp) (by simp)]
  simp only [returns_bind, returns_setPage, returns_pure, true_and, List.dropLast_concat]
  exact moved_leaf hthis hother hne

end leafMoves

section internalMoves

variable {items own : List (Key A × PageNum)}

theorem returns_moveHalfTo_internal (hthis : s.page this = some (.internal par items))
    (hother : s.page other = some (.internal opar own)) (hne : this ≠ other)
    (hkids : ∀ item ∈ items, s.parentPage item.2 ≠ none ∧ item.2 ≠ this ∧ item.2 ≠ other) :
    Returns (moveHalfTo .internal this other) s fun rc s' => rc = .success ∧
      Moved s this other (.internal 0 (items.take (items.length / 2)))
        (.internal 0 (own ++ items.drop (items.length / 2)))
        ((items.drop (items.length / 2)).map Prod.snd) s' := by
  have hdrop : ∀ item ∈ items.drop (items.length / 2), item ∈ items :=
    fun item => List.mem_of_mem_drop
  unfold moveHalfTo
  rw [returns_bind, returns_internalNode hthis]
  refine (returns_copyFrom (body_of_internal hother) (parentPage_of_internal hother)
    (fun item hi => (hkids item (hdrop item hi)).1)
    ?_).bind ?_
  · simp only [List.mem_map, not_exists, not_and]
    exact fun item hi => (hkids item (hdrop item hi)).2.2
  · rintro rc s₁ ⟨rfl, hb, hp, hq⟩
    simp only [fail_success, Bool.false_eq_true, ↓reduceIte, returns_bind, returns_setPage,
      returns_pure, true_and]
    refine moved_internal hthis hne ?_ hb hp hq
    simp only [List.mem_map, not_exists, not_and]
    exact fun item hi => (hkids item (hdrop item hi)).2.1

theorem returns_moveTo_internal (hthis : s.page this = some (.internal par items))
    (hother : s.page other = some (.internal opar own)) (hne : this ≠ other)
    (hkids : ∀ item ∈ items, s.parentPage item.2 ≠ none ∧ item.2 ≠ this ∧ item.2 ≠ other) :
    Returns (moveTo .internal this other) s fun rc s' => rc = .success ∧
      Moved s this other (.internal 0 []) (.internal 0 (own ++ items)) (items.map Prod.snd) s' := by
  unfold moveTo
  rw [returns_bind, returns_internalNode hthis]
  refine (returns_copyFrom (body_of_internal hother) (parentPage_of_internal hother)
    (fun item hi => (hkids item hi).1) ?_).bind ?_
  · simp only [List.mem_map, not_exists, not_and]
    exact fun item hi => (hkids item hi).2.2
  · rintro rc s₁ ⟨rfl, hb, hp, hq⟩
    simp only [fail_success, Bool.false_eq_true, ↓reduceIte, returns_bind, returns_setPage,
      returns_pure, true_and]
    refine moved_internal hthis hne ?_ hb hp hq
    simp only [List.mem_map, not_exists, not_and]
    exact fun item hi => (hkids item hi).2.1

theorem returns_moveFirstToEnd_internal {x : Key A × PageNum}
    (hthis : s.page this = some (.internal par (x :: items)))
    (hother : s.page other = some (.internal opar own)) (hne : this ≠ other)
    (hkid : s.parentPage x.2 ≠ none ∧ x.2 ≠ this ∧ x.2 ≠ other) :
    Returns (moveFirstToEnd .internal this other) s fun rc s' => rc = .success ∧
      Moved s this other (.internal 0 items) (.internal 0 (own ++ [x])) [x.2] s' := by
  unfold moveFirstToEnd
  rw [returns_bind, returns_internalNode hthis, returns_bind,
    returns_itemAt (i := 0) (x := x) (by simp) (by simp)]
  refine (returns_copyFrom (body_of_internal hother) (parentPage_of_internal hother)
    (by simpa using hkid.1)
    (by simpa using hkid.2.2.symm)).bind ?_
  rintro rc s₁ ⟨rfl, hb, hp, hq⟩
  simp only [fail_success, Bool.false_eq_true, ↓reduceIte, returns_bind, returns_setPage,
    returns_pure, true_and, List.tail_cons]
  exact moved_internal hthis hne (by simpa using hkid.2.1.symm) hb hp hq

theorem returns_moveLastToFront_internal {x : Key A × PageNum}
    (hthis : s.page this = some (.internal par (items ++ [x])))
    (hother : s.page other = some (.internal opar own)) (hne : this ≠ other)
    (hkid : s.parentPage x.2 ≠ none ∧ x.2 ≠ this ∧ x.2 ≠ other) :
    Returns (moveLastToFront .internal this other) s fun rc s' => rc = .success ∧
      Moved s this other (.internal 0 items) (.internal 0 (x :: own)) [x.2] s' := by
  unfold moveLastToFront
  rw [returns_bind, returns_internalNode hthis, returns_bind,
    returns_itemAt (i := items.length) (x := x) (by simp) (by simp)]
  refine (returns_preappend (body_of_internal hother) (parentPage_of_internal hother) hkid.1
      hkid.2.2.symm).bind ?_
  rintro rc s₁ ⟨rfl, hb, hp, hq⟩
  simp only [fail_success, Bool.false_eq_true, ↓reduceIte, returns_bind, returns_setPage,
    returns_pure, true_and, List.dropLast_concat]
  exact moved_internal hthis hne (by simpa using hkid.2.1.symm) hb (by simpa using hp) hq

end internalMoves

end moves

/-! ## Splitting a node -/

/-- The handler after a successful `split` of `frame` into `frame` and the new page `newFrame`. -/
structure Splits (s : BplusTreeHandler A) (frame newFrame par : PageNum)
    (thisBody newBody : Page A) (moved : List PageNum) (s' : BplusTreeHandler A) : Prop where
  fresh : ¬ s.allocated newFrame
  allocated_iff : ∀ q, s'.allocated q ↔ s.allocated q ∨ q = newFrame
  body_this : s'.body frame = some thisBody
  body_new : s'.body newFrame = some newBody
  body : ∀ q, q ≠ frame → q ≠ newFrame → s'.body q = s.body q
  parent_new : newFrame ∉ moved → s'.parentPage newFrame = some par
  parentPage : ∀ q, q ≠ newFrame →
    s'.parentPage q = if q ∈ moved then some newFrame else s.parentPage q
  pinCount : ∀ q, s'.pinCount q = s.pinCount q + ref newFrame q
  cached : ∀ q, s.cached q ∨ q = newFrame → s'.cached q
  rootPage : s'.rootPage = s.rootPage
  allocFailures : s'.fileBufferPool.allocFailures = s.fileBufferPool.allocFailures
  pinnedFrees : s'.fileBufferPool.pinnedFrees = s.fileBufferPool.pinnedFrees
  pageCount : s.fileBufferPool.fileHeader.pageCount ≤ s'.fileBufferPool.fileHeader.pageCount
  canAllocate : ∀ n, s.fileBufferPool.canAllocate (n + 1) = s'.fileBufferPool.canAllocate n

/-- The node that `init_empty` and `set_parent_page_num` leave on the new page of a split. -/
def emptyNode (par : PageNum) : NodeType → Page A
  | .leaf => .leaf par invalidPageNum []
  | .internal => .internal par []

/-- `split`, given what `move_half_to` does from the node and an empty new one. -/
theorem returns_split {s : BplusTreeHandler A} {T : NodeType} {frame : PageNum}
    {d thisBody newBody : Page A} {moved : List PageNum} (hframe : s.page frame = some d)
    (hnode : d.isLeaf ≠ none) (halloc : s.allocated frame)
    (hmove : ∀ newFrame s₂, ¬ s.allocated newFrame → frame ≠ newFrame →
      (∀ q, q ≠ newFrame → s₂.page q = s.page q) →
      s₂.page newFrame = some (emptyNode d.parent T) →
      Returns (moveHalfTo T frame newFrame) s₂ fun rc s' => rc = .success ∧
        Moved s₂ frame newFrame thisBody newBody moved s') :
    Returns (split T frame) s fun r s' =>
      (r.1 = .success ∧ Splits s frame r.2 d.parent thisBody newBody moved s') ∨
      (r.1.fail = true ∧ AllocFails s s') := by
  unfold split
  refine (returns_allocatePage s).bind ?_
  rintro ⟨rc, nf⟩ s₁ (⟨rfl, ha⟩ | ⟨hfail, hf⟩)
  · have hne : frame ≠ nf := fun h => ha.fresh (h ▸ halloc)
    have hinit : (initEmpty T nf : TreeM A Unit) = setPage nf (emptyNode invalidPageNum T) := by
      cases T <;> rfl
    have hempty : ∀ par : PageNum, (emptyNode par T : Page A).isLeaf ≠ none := by
      intro par
      cases T <;> simp [emptyNode, Page.isLeaf]
    have hset : ∀ par par' : PageNum,
        (emptyNode par T : Page A).setParent par' = emptyNode par' T := by
      intro par par'
      cases T <;> rfl
    have hnf : ∀ e : Page A, (s₁.update nf (Frame.setData e)).page nf = some e := by
      intro e
      obtain ⟨d', hd'⟩ := Option.ne_none_iff_exists'.mp ha.page_ne_none
      simp [hd']
    have hold : ∀ e : Page A, (s₁.update nf (Frame.setData e)).page frame = some d := by
      intro e
      rw [page_setData, Function.update_of_ne hne, ha.page_eq frame hne, hframe]
    simp only [fail_success, Bool.false_eq_true, ↓reduceIte, returns_bind, hinit, returns_setPage]
    rw [returns_node (hold _) hnode, returns_setParentPageNum (hnf _) (hempty _), hset]
    -- `init_empty` and then the parent of the split node
    generalize hs₂ : (s₁.update nf (Frame.setData (emptyNode invalidPageNum T))).update nf
      (Frame.setData (emptyNode d.parent T)) = s₂
    have hpages : ∀ q, q ≠ nf → s₂.page q = s₁.page q := by
      intro q hq
      simp [← hs₂, hq]
    have hpage : s₂.page nf = some (emptyNode d.parent T) := by
      rw [← hs₂, page_setData, Function.update_self, hnf]
      rfl
    have hq₂ : Quiet s₁ s₂ 0 := by
      rw [← hs₂]
      simpa using (Quiet.setData _ _ _).trans (Quiet.setData _ _ _)
    -- the move sees a handler that differs from `s` in the new page only
    have hmv := hmove nf s₂ ha.fresh hne
      (fun q hq => by rw [hpages q hq, ha.page_eq q hq]) hpage
    refine hmv.mono ?_
    rintro rc s₃ ⟨-, hb, hp, hq₃⟩
    simp only [returns_markDirty, returns_pure]
    left
    have hquiet : Quiet s₁ ((s₃.update frame Frame.markDirty).update nf Frame.markDirty) 0 := by
      simpa using ((hq₂.trans hq₃).trans (Quiet.markDirty _ _)).trans (Quiet.markDirty _ _)
    refine ⟨trivial, ha.fresh, ?_, ?_, ?_, ?_, ?_, ?_, ?_, ?_, ?_, ?_, ?_, ?_, ?_⟩
    · intro q
      rw [hquiet.allocated_iff, ha.allocated_iff]
    · simp [hb]
    · simp [hb, hne.symm]
    · intro q h1 h2
      simp only [body_markDirty, hb, Function.update_of_ne h1, Function.update_of_ne h2]
      exact body_congr (by rw [hpages q h2, ha.page_eq q h2])
    · intro hm
      simp only [parentPage_markDirty, hp, if_neg hm]
      rw [BplusTreeHandler.parentPage, hpage]
      cases T <;> rfl
    · intro q hq
      simp only [parentPage_markDirty, hp]
      rw [parentPage_congr (s := s) (by rw [hpages q hq, ha.page_eq q hq])]
    · intro q
      rw [hquiet.pinCount, ha.pinCount]
      simp
    · rintro q (hc | rfl)
      · exact hquiet.cached q (ha.cached_of q hc)
      · exact hquiet.cached q ha.cached
    · rw [hquiet.rootPage, ha.rootPage]
    · rw [hquiet.allocFailures, ha.allocFailures]
    · rw [hquiet.pinnedFrees, ha.pinnedFrees]
    · rw [hquiet.fileHeader]
      exact ha.pageCount
    · intro n
      rw [ha.canAllocate, hquiet.canAllocate]
  · simp only at hfail hf
    simp only [hfail, ↓reduceIte, returns_pure]
    exact Or.inr ⟨trivial, hf⟩

theorem returns_split_leaf {s : BplusTreeHandler A} {frame par next : PageNum}
    {items : List (Key A × RID)} (hframe : s.page frame = some (.leaf par next items))
    (halloc : s.allocated frame) :
    Returns (split .leaf frame) s fun r s' =>
      (r.1 = .success ∧ Splits s frame r.2 par (.leaf 0 next (items.take (items.length / 2)))
        (.leaf 0 invalidPageNum (items.drop (items.length / 2))) [] s') ∨
      (r.1.fail = true ∧ AllocFails s s') := by
  refine returns_split hframe (by simp [Page.isLeaf]) halloc ?_
  intro nf s₂ _ hne hpages hnf
  have hthis : s₂.page frame = some (.leaf par next items) := by rw [hpages _ hne, hframe]
  exact returns_moveHalfTo_leaf hthis hnf hne

theorem returns_split_internal {s : BplusTreeHandler A} {frame par : PageNum}
    {items : List (Key A × PageNum)} (hframe : s.page frame = some (.internal par items))
    (halloc : s.allocated frame)
    (hkids : ∀ item ∈ items, s.parentPage item.2 ≠ none ∧ item.2 ≠ frame ∧ s.allocated item.2) :
    Returns (split .internal frame) s fun r s' =>
      (r.1 = .success ∧ Splits s frame r.2 par (.internal 0 (items.take (items.length / 2)))
        (.internal 0 (items.drop (items.length / 2)))
        ((items.drop (items.length / 2)).map Prod.snd) s') ∨
      (r.1.fail = true ∧ AllocFails s s') := by
  refine returns_split hframe (by simp [Page.isLeaf]) halloc ?_
  intro nf s₂ hfresh hne hpages hnf
  have hthis : s₂.page frame = some (.internal par items) := by rw [hpages _ hne, hframe]
  refine returns_moveHalfTo_internal hthis hnf hne fun item hi => ?_
  obtain ⟨h1, h2, h3⟩ := hkids item hi
  have hitem : item.2 ≠ nf := fun h => hfresh (h ▸ h3)
  refine ⟨?_, h2, hitem⟩
  rwa [parentPage_congr (hpages _ hitem)]

end BplusTreeHandler

end TDB
