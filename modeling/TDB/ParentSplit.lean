import TDB.ParentInsert

namespace TDB

open BplusTreeHandler Exec

variable {A : Type} [LinearOrder (Key A)] {h : IndexFileHeader A} {lo : ℕ}

section

variable {s : BplusTreeHandler A} {front back : List (Child A)} {k : WithBot (Key A)}
  {frame newFrame : PageNum} {key : Key A}

/-- The full parent `y` was split into `y` and `newParent`, and the new child is in one of the
halves `left` and `right`. -/
structure SplitDone (h : IndexFileHeader A) (s : BplusTreeHandler A) (y newParent par : PageNum)
    (left right : List (Child A)) (s' : BplusTreeHandler A) : Prop where
  fresh : ¬ s.allocated newParent
  allocated_iff : ∀ q, s'.allocated q ↔ s.allocated q ∨ q = newParent
  body_left : s'.body y = some (.internal 0 (stored h left))
  body_right : s'.body newParent = some (.internal 0 (stored h right))
  body : ∀ q, q ≠ y → q ≠ newParent → s'.body q = s.body q
  parent_left : ∀ c ∈ left, s'.parentPage c.2 = some y
  parent_right : ∀ c ∈ right, s'.parentPage c.2 = some newParent
  parent_new : s'.parentPage newParent = some par
  parentPage : ∀ q, q ∉ childPages (left ++ right) → q ≠ newParent →
    s'.parentPage q = s.parentPage q
  rootPage : s'.rootPage = s.rootPage
  allocFailures : s'.fileBufferPool.allocFailures = s.fileBufferPool.allocFailures
  pinnedFrees : s'.fileBufferPool.pinnedFrees = s.fileBufferPool.pinnedFrees
  pageCount : s.fileBufferPool.fileHeader.pageCount ≤ s'.fileBufferPool.fileHeader.pageCount

/-- The two halves of a split parent, where the row below has the new child already. -/
structure Halves (h : IndexFileHeader A) (lo : ℕ) (pre : Level A) (y : Inner A) (post : Level A)
    (cur left right : List (Child A)) : Prop where
  kids : cur = kidsOf pre ++ (left ++ right) ++ kidsOf post
  sep : (⟨y.page, left⟩ : Inner A).sep = y.sep
  left_ne : left ≠ []
  right_ne : right ≠ []
  left_le : left.length ≤ h.internalMaxSize
  right_le : right.length ≤ h.internalMaxSize
  le_left : lo ≤ left.length
  le_right : lo ≤ right.length

section up

variable {pre post : Level A} {y : Inner A} {rest : List (Level A)} {left right : List (Child A)}
  {newParent par : PageNum} {s₂ s₃ : BplusTreeHandler A} {d : PageNum → ℤ} {key' : Key A}

omit [LinearOrder (Key A)] in
theorem SplitDone.congr {p : PageNum} (hdone : SplitDone h s p newParent par left right s₂)
    (hq : Quiet s₂ s₃ d) (hb : s₃.body = s₂.body) (hp : s₃.parentPage = s₂.parentPage) :
    SplitDone h s p newParent par left right s₃ :=
  { fresh := hdone.fresh
    allocated_iff := fun q => (hq.allocated_iff q).trans (hdone.allocated_iff q)
    body_left := by rw [hb, hdone.body_left]
    body_right := by rw [hb, hdone.body_right]
    body := fun q h1 h2 => by rw [hb, hdone.body q h1 h2]
    parent_left := fun c hc => by rw [hp, hdone.parent_left c hc]
    parent_right := fun c hc => by rw [hp, hdone.parent_right c hc]
    parent_new := by rw [hp, hdone.parent_new]
    parentPage := fun q h1 h2 => by rw [hp, hdone.parentPage q h1 h2]
    rootPage := hq.rootPage.trans hdone.rootPage
    allocFailures := hq.allocFailures.trans hdone.allocFailures
    pinnedFrees := hq.pinnedFrees.trans hdone.pinnedFrees
    pageCount := by rw [hq.fileHeader]; exact hdone.pageCount }

theorem Pending.disjoint {levs : List (Level A)}
    (hpend : Pending h lo s front k frame newFrame key back levs) {p : PageNum}
    (hp : p ∈ childPages (front ++ (k, frame) :: ((key : WithBot (Key A)), newFrame) :: back)) :
    p ∉ levelPages levs :=
  fun hp' => (List.nodup_append.mp hpend.nodup).2.2 p hp p hp' rfl

def halvesRow (pre : Level A) (y : Inner A) (post : Level A) (newParent : PageNum)
    (left right : List (Child A)) : Level A :=
  pre ++ ⟨y.page, left⟩ :: ⟨newParent, right⟩ :: post

omit [LinearOrder (Key A)] in
theorem Halves.kidsOf_row {cur : List (Child A)} (hh : Halves h lo pre y post cur left right) :
    kidsOf (halvesRow pre y post newParent left right) = cur := by
  rw [hh.kids]
  simp [halvesRow]

omit [LinearOrder (Key A)] in
theorem Halves.heads_row {cur : List (Child A)} (hh : Halves h lo pre y post cur left right)
    (hkey : (⟨newParent, right⟩ : Inner A).sep = (key' : WithBot (Key A))) :
    heads (halvesRow pre y post newParent left right) =
      heads pre ++ (y.sep, y.page) :: ((key' : WithBot (Key A)), newParent) :: heads post := by
  simp [halvesRow, Inner.asChild, hh.sep, hkey]

theorem SplitDone.nodeAt (hpend : Pending h lo s front k frame newFrame key back
      ((pre ++ y :: post) :: rest))
    (hhalves : Halves h lo pre y post
      (front ++ (k, frame) :: ((key : WithBot (Key A)), newFrame) :: back) left right)
    (hdone : SplitDone h s y.page newParent par left right s₃) :
    ∀ z ∈ halvesRow pre y post newParent left right, NodeAt h s₃ z := by
  have hkidsNodup := (List.nodup_append.mp hpend.nodup).1
  have hother : ∀ z, z ∈ pre ∨ z ∈ post → NodeAt h s₃ z := by
    intro z hz
    have hmem : z ∈ pre ++ y :: post := mem_row_of_other hz
    have hzlev : z.page ∈ levelPages ((pre ++ y :: post) :: rest) :=
      mem_levelPages_of_mem (by simp) hmem
    have hzalloc : s.allocated z.page := hpend.isOver.allocated _ (List.mem_append_right _ hzlev)
    have hzy := hpend.isOver.page_ne hz
    refine (hpend.isOver.above.2.1 z hmem).congr
      (hdone.body _ hzy (ne_of_not_allocated hzalloc hdone.fresh)) fun c hc => ?_
    have hcz : c ∈ kidsOf pre ∨ c ∈ kidsOf post :=
      hz.imp (fun h => List.mem_flatMap.mpr ⟨z, h, hc⟩) fun h => List.mem_flatMap.mpr ⟨z, h, hc⟩
    rw [hhalves.kids] at hkidsNodup
    simp only [childPages_append, List.nodup_append, List.mem_append] at hkidsNodup
    have hnot : c.2 ∉ childPages (left ++ right) := by
      rw [childPages_append]
      intro hm
      rcases hcz with hcz | hcz
      · exact hkidsNodup.1.2.2 c.2 (mem_childPages.mpr ⟨c, hcz, rfl⟩) c.2
          (List.mem_append.mp hm) rfl
      · exact hkidsNodup.2.2 c.2 (Or.inr (List.mem_append.mp hm)) c.2
          (mem_childPages.mpr ⟨c, hcz, rfl⟩) rfl
    refine hdone.parentPage _ hnot (ne_of_not_allocated ?_ hdone.fresh)
    apply hpend.all_allocated
    rw [hhalves.kids]
    refine List.mem_append_left _ (mem_childPages.mpr ⟨c, ?_, rfl⟩)
    simp only [List.mem_append]
    tauto
  intro z hz
  obtain rfl | rfl | hz := mem_row_two.mp hz
  · exact ⟨hhalves.left_ne, hdone.body_left, hdone.parent_left⟩
  · exact ⟨hhalves.right_ne, hdone.body_right, hdone.parent_right⟩
  · exact hother z hz

/-- The split parent is in turn a pending insertion for the row above. -/
theorem SplitDone.pending (hpend : Pending h lo s front k frame newFrame key back
      ((pre ++ y :: post) :: rest))
    (hhalves : Halves h lo pre y post
      (front ++ (k, frame) :: ((key : WithBot (Key A)), newFrame) :: back) left right)
    (hdone : SplitDone h s y.page newParent par left right s₃)
    (hkey : (⟨newParent, right⟩ : Inner A).sep = (key' : WithBot (Key A))) :
    Pending h lo s₃ (heads pre) y.sep y.page newParent key' (heads post) rest := by
  have hheads : heads pre ++ (y.sep, y.page) :: heads post = heads (pre ++ y :: post) := by
    simp [Inner.asChild]
  have hlevAlloc : ∀ p ∈ levelPages ((pre ++ y :: post) :: rest), s.allocated p :=
    fun p hp => hpend.isOver.allocated p (List.mem_append_right _ hp)
  have hnotLev : newParent ∉ levelPages ((pre ++ y :: post) :: rest) :=
    fun hm => hdone.fresh (hlevAlloc _ hm)
  refine ⟨?_, (hdone.allocated_iff _).mpr (Or.inr rfl), ?_, ?_, by simp [hdone.parent_new], ?_⟩
  · rw [hheads]
    refine hpend.isOver.up.congr hdone.rootPage ?_ ?_ ?_
    · intro p hp
      have hpy : p ≠ y.page := fun he => hpend.isOver.not_mem_rest (by simp) (he ▸ hp)
      exact hdone.body p hpy
        (ne_of_not_allocated (hlevAlloc p (by simp [hp])) hdone.fresh)
    · intro p hp
      rw [childPages_heads_append_levelPages] at hp
      refine hdone.parentPage p (fun hm => ?_) (ne_of_not_allocated (hlevAlloc p hp) hdone.fresh)
      refine hpend.disjoint (p := p) ?_ hp
      rw [hhalves.kids]
      simp only [childPages_append, List.mem_append] at hm ⊢
      tauto
    · intro p hp
      rw [childPages_heads_append_levelPages] at hp
      exact (hdone.allocated_iff p).mpr (Or.inl (hlevAlloc p hp))
  · rw [hheads, childPages_heads]
    intro hm
    exact hnotLev (by rw [levelPages_cons]; exact List.mem_append_left _ hm)
  · intro hm
    exact hnotLev (by rw [levelPages_cons]; exact List.mem_append_right _ hm)
  · rw [← hhalves.heads_row hkey]
    exact increasing_heads hhalves.kidsOf_row
      (fun z hz => (hdone.nodeAt hpend hhalves z hz).nonempty) hpend.increasing

omit [LinearOrder (Key A)] in
theorem mem_halvesRow {p : PageNum}
    (hp : p ∈ childPages (heads (halvesRow pre y post newParent left right))) :
    p ∈ (pre ++ y :: post).map Inner.page ∨ p = newParent := by
  rw [childPages_heads] at hp
  simp only [halvesRow, List.map_append, List.map_cons, List.mem_append, List.mem_cons] at hp ⊢
  tauto

section lift

variable {s' : BplusTreeHandler A}

omit [LinearOrder (Key A)] in
/-- A page outside the rows is outside the rows seen from the split row. -/
theorem SplitDone.low (hdone : SplitDone h s y.page newParent par left right s₃) {p : PageNum}
    (hp : s.allocated p) (hlev : p ∉ levelPages ((pre ++ y :: post) :: rest)) :
    s₃.allocated p ∧ p ∉ levelPages rest ∧
      p ∉ childPages (heads (halvesRow pre y post newParent left right)) := by
  rw [levelPages_cons, List.mem_append, not_or] at hlev
  refine ⟨(hdone.allocated_iff p).mpr (Or.inl hp), hlev.2, fun hm => ?_⟩
  rcases mem_halvesRow hm with hm | hm
  · exact hlev.1 hm
  · exact hdone.fresh (hm ▸ hp)

theorem Pending.child_low {levs : List (Level A)}
    (hpend : Pending h lo s front k frame newFrame key back levs) {p : PageNum}
    (hp : p ∈ childPages (front ++ (k, frame) :: ((key : WithBot (Key A)), newFrame) :: back)) :
    s.allocated p ∧ p ∉ levelPages levs :=
  ⟨hpend.all_allocated p (List.mem_append_left _ hp), hpend.disjoint hp⟩

/-- The call for the row above leaves the nodes of the split row in place. -/
theorem SplitDone.nodeAt_lift
    (hpend : Pending h lo s front k frame newFrame key back ((pre ++ y :: post) :: rest))
    (hhalves : Halves h lo pre y post
      (front ++ (k, frame) :: ((key : WithBot (Key A)), newFrame) :: back) left right)
    (hdone : SplitDone h s y.page newParent par left right s₃)
    (hun : Untouched s₃ s' (heads (halvesRow pre y post newParent left right)) rest) :
    ∀ z ∈ halvesRow pre y post newParent left right, NodeAt h s' z := by
  intro z hz
  have hz₃ : s₃.allocated z.page ∧ z.page ∉ levelPages rest := by
    have hmem : z.page ∈ childPages (heads (halvesRow pre y post newParent left right)) := by
      rw [childPages_heads]
      exact List.mem_map_of_mem hz
    have hlevAlloc : ∀ p ∈ levelPages ((pre ++ y :: post) :: rest), s.allocated p :=
      fun p hp => hpend.isOver.allocated p (List.mem_append_right _ hp)
    rcases mem_halvesRow hmem with hm | hm
    · have hlev : z.page ∈ levelPages ((pre ++ y :: post) :: rest) := by
        rw [levelPages_cons]
        exact List.mem_append_left _ hm
      refine ⟨(hdone.allocated_iff _).mpr (Or.inl (hlevAlloc _ hlev)), fun hr => ?_⟩
      exact (List.nodup_append.mp hpend.isOver.rows_nodup).2.2 _ hm _ hr rfl
    · refine ⟨(hdone.allocated_iff _).mpr (Or.inr hm), fun hr => hdone.fresh ?_⟩
      rw [← hm]
      exact hlevAlloc _ (by rw [levelPages_cons]; exact List.mem_append_right _ hr)
  refine (hdone.nodeAt hpend hhalves z hz).congr (hun.body _ hz₃.1 hz₃.2) fun c hc => ?_
  have hcur : c.2 ∈ childPages (front ++ (k, frame) ::
      ((key : WithBot (Key A)), newFrame) :: back) := by
    rw [← hhalves.kidsOf_row]
    exact mem_childPages.mpr ⟨c, List.mem_flatMap.mpr ⟨z, hz, hc⟩, rfl⟩
  obtain ⟨h1, h2, h3⟩ := hdone.low (hpend.child_low hcur).1 (hpend.child_low hcur).2
  exact hun.parentPage _ h1 h2 h3

omit [LinearOrder (Key A)] in
theorem SplitDone.untouched_lift {cur : List (Child A)}
    (hhalves : Halves h lo pre y post cur left right)
    (hdone : SplitDone h s y.page newParent par left right s₃)
    (hun : Untouched s₃ s' (heads (halvesRow pre y post newParent left right)) rest) :
    Untouched s s' cur ((pre ++ y :: post) :: rest) := by
  refine ⟨?_, ?_, ?_, hdone.pageCount.trans hun.pageCount⟩
  · intro p hp hlev
    obtain ⟨h1, h2, -⟩ := hdone.low hp hlev
    exact hun.allocated p h1 h2
  · intro p hp hlev
    obtain ⟨h1, h2, -⟩ := hdone.low hp hlev
    rw [hun.body p h1 h2]
    refine hdone.body p (fun he => hlev ?_) (ne_of_not_allocated hp hdone.fresh)
    rw [he]
    exact mem_levelPages_head
  · intro p hp hlev hc
    obtain ⟨h1, h2, h3⟩ := hdone.low hp hlev
    rw [hun.parentPage p h1 h2 h3]
    refine hdone.parentPage p (fun hm => hc ?_) (ne_of_not_allocated hp hdone.fresh)
    rw [hhalves.kids]
    simp only [childPages_append, List.mem_append] at hm ⊢
    tauto

omit [LinearOrder (Key A)] in
/-- The pages of the new rows come from the old ones and from the free pages. -/
theorem SplitDone.fresh_lift {rest' : List (Level A)}
    (hdone : SplitDone h s y.page newParent par left right s₃)
    (hfresh : ∀ p ∈ levelPages rest', p ∈ levelPages rest ∨ ¬ s₃.allocated p) :
    ∀ p ∈ levelPages (halvesRow pre y post newParent left right :: rest'),
      p ∈ levelPages ((pre ++ y :: post) :: rest) ∨ ¬ s.allocated p := by
  intro p hp
  rw [← childPages_heads_append_levelPages, List.mem_append] at hp
  rcases hp with hp | hp
  · rcases mem_halvesRow hp with hp | rfl
    · exact Or.inl (by rw [levelPages_cons]; exact List.mem_append_left _ hp)
    · exact Or.inr hdone.fresh
  · rcases hfresh p hp with hp | hp
    · exact Or.inl (by rw [levelPages_cons]; exact List.mem_append_right _ hp)
    · exact Or.inr fun hs => hp ((hdone.allocated_iff p).mpr (Or.inl hs))

theorem Halves.sized_row
    (hpend : Pending h lo s front k frame newFrame key back ((pre ++ y :: post) :: rest))
    (hhalves : Halves h lo pre y post
      (front ++ (k, frame) :: ((key : WithBot (Key A)), newFrame) :: back) left right) :
    ∀ z ∈ halvesRow pre y post newParent left right,
      z.kids.length ≤ h.internalMaxSize ∧ lo ≤ z.kids.length := by
  intro z hz
  have hother : z ∈ pre ∨ z ∈ post →
      z.kids.length ≤ h.internalMaxSize ∧ lo ≤ z.kids.length := by
    intro hz'
    have hzlev := hpend.isOver.sized.1 z (mem_row_of_other hz')
    have hrest : rest ≠ [] := by
      rintro rfl
      obtain ⟨k', hk', -⟩ := hpend.isOver.up.above
      have := congrArg List.length hk'
      simp only [heads, List.length_append, List.length_cons, List.length_nil,
        List.length_map] at this
      rcases hz' with hz' | hz'
      · have := List.length_pos_of_mem hz'
        omega
      · have := List.length_pos_of_mem hz'
        omega
    simpa [hrest] using hzlev
  obtain rfl | rfl | hz := mem_row_two.mp hz
  · exact ⟨hhalves.left_le, hhalves.le_left⟩
  · exact ⟨hhalves.right_le, hhalves.le_right⟩
  · exact hother hz

/-- What a failed call for the row above has lost, seen from the row below. -/
theorem SplitDone.loses_lift {f l b : List (Child A)} {rest' : List (Level A)}
    (hpend : Pending h lo s front k frame newFrame key back ((pre ++ y :: post) :: rest))
    (hhalves : Halves h lo pre y post
      (front ++ (k, frame) :: ((key : WithBot (Key A)), newFrame) :: back) left right)
    (hdone : SplitDone h s y.page newParent par left right s₃)
    (hcut : heads (halvesRow pre y post newParent left right) = f ++ l ++ b)
    (hl : Loses h lo s₃ s' f l b rest rest') :
    ∃ front' lost back' levs',
      front ++ (k, frame) :: ((key : WithBot (Key A)), newFrame) :: back =
        front' ++ lost ++ back' ∧
      Loses h lo s s' front' lost back' ((pre ++ y :: post) :: rest) levs' := by
  obtain ⟨hf, hne, hlen, hover, hre⟩ := hl
  rw [← hcut] at hre
  have hnodes := hdone.nodeAt_lift hpend hhalves hre.toUntouched
  have hkids : kidsOf (halvesRow pre y post newParent left right) = _ := hhalves.kidsOf_row
  have hsized : ∀ z ∈ halvesRow pre y post newParent left right,
      z.kids.length ≤ h.internalMaxSize ∧ lo ≤ z.kids.length := hhalves.sized_row hpend
  have hfresh : ∀ p ∈ levelPages (halvesRow pre y post newParent left right :: _),
      p ∈ levelPages ((pre ++ y :: post) :: rest) ∨ ¬ s.allocated p := hdone.fresh_lift hre.fresh
  have hun := hdone.untouched_lift hhalves hre.toUntouched
  -- what is lost of the row above is lost with all children: cut this row at the same nodes
  obtain ⟨fl, bn, hrow, hfl, rfl⟩ := List.map_eq_append_iff.mp hcut
  obtain ⟨fn, ln, rfl, rfl, rfl⟩ := List.map_eq_append_iff.mp hfl
  rw [hrow] at hnodes hkids hsized hfresh
  have hcur : front ++ (k, frame) :: ((key : WithBot (Key A)), newFrame) :: back =
      kidsOf fn ++ kidsOf ln ++ kidsOf bn := by rw [← hkids]; simp
  have hsub : (kidsOf (fn ++ bn)).Sublist
      (front ++ (k, frame) :: ((key : WithBot (Key A)), newFrame) :: back) := by
    rw [hcur, kidsOf_append]
    exact (List.sublist_append_left _ _).append (List.Sublist.refl _)
  have hlow : ∀ p ∈ childPages (kidsOf (fn ++ bn)), s.allocated p ∧
      p ∉ levelPages ((pre ++ y :: post) :: rest) :=
    fun p hp => hpend.child_low ((hsub.map Prod.snd).subset hp)
  have hfresh' : ∀ p ∈ levelPages ((fn ++ bn) :: rest'),
      p ∈ levelPages ((pre ++ y :: post) :: rest) ∨ ¬ s.allocated p := by
    intro p hp
    apply hfresh
    simp only [levelPages_cons, List.map_append, List.mem_append] at hp ⊢
    tauto
  have hover' : Over h s' lo none (heads (fn ++ bn)) rest' := by
    rw [heads_append]
    exact hover
  have hnonempty : ∀ zs : Level A, zs ⊆ fn ++ ln ++ bn → zs.map Inner.asChild ≠ [] →
      kidsOf zs ≠ [] := by
    intro zs hzs hzne
    obtain ⟨z, zs', rfl⟩ := List.exists_cons_of_ne_nil (l := zs) (by rintro rfl; simp at hzne)
    have := (hnodes z (hzs (by simp))).nonempty
    simp [this]
  have hfront : kidsOf fn ≠ [] := hnonempty fn (by simp) hf
  refine ⟨kidsOf fn, kidsOf ln, kidsOf bn, (fn ++ bn) :: rest', hcur, hfront,
    hnonempty ln (fun z hz => by simp [hz]) hne, by simp [hlen], ?_, by rw [← hcur]; exact hun,
    hfresh'⟩
  rw [← kidsOf_append]
  refine hover'.down (fun z hz => hnodes z ?_) rfl ?_ ?_ (hpend.increasing.sublist hsub) ?_ ?_
  · simp only [List.mem_append] at hz ⊢
    tauto
  · rw [List.nodup_append]
    refine ⟨(List.nodup_append.mp hpend.nodup).1.sublist (hsub.map Prod.snd), ?_, ?_⟩
    · rw [← childPages_heads_append_levelPages]
      exact hover'.nodup
    · rintro p hp q hq rfl
      rcases hfresh' p hq with hm | hm
      · exact (hlow p hp).2 hm
      · exact hm (hlow p hp).1
  · intro p hp
    obtain ⟨h1, h2, -⟩ := hdone.low (hlow p hp).1 (hlow p hp).2
    exact hre.allocated p h1 h2
  · have hleft := hpend.leftmost
    obtain ⟨c, t, hct⟩ := List.exists_cons_of_ne_nil hfront
    rw [hcur, hct] at hleft
    rw [kidsOf_append, hct]
    simpa using hleft
  · intro z hz
    have := hsized z (by simp only [List.mem_append] at hz ⊢; tauto)
    refine ⟨this.1, ?_⟩
    simp only [reduceCtorEq, ↓reduceIte, add_zero]
    split <;> omega

/-- What the call for the row above has done, seen from the row below. -/
theorem SplitDone.lift {rest' : List (Level A)}
    (hpend : Pending h lo s front k frame newFrame key back ((pre ++ y :: post) :: rest))
    (hhalves : Halves h lo pre y post
      (front ++ (k, frame) :: ((key : WithBot (Key A)), newFrame) :: back) left right)
    (hdone : SplitDone h s y.page newParent par left right s₃)
    (hover : Over h s' lo none (heads (halvesRow pre y post newParent left right)) rest')
    (hre : Rebuilt s₃ s' (heads (halvesRow pre y post newParent left right)) rest rest') :
    Over h s' lo none (front ++ (k, frame) :: ((key : WithBot (Key A)), newFrame) :: back)
      (halvesRow pre y post newParent left right :: rest') ∧
    Rebuilt s s' (front ++ (k, frame) :: ((key : WithBot (Key A)), newFrame) :: back)
      ((pre ++ y :: post) :: rest) (halvesRow pre y post newParent left right :: rest') := by
  have hfresh : ∀ p ∈ levelPages (halvesRow pre y post newParent left right :: _),
      p ∈ levelPages ((pre ++ y :: post) :: rest) ∨ ¬ s.allocated p := hdone.fresh_lift hre.fresh
  refine ⟨hover.down (hdone.nodeAt_lift hpend hhalves hre.toUntouched) hhalves.kidsOf_row ?_ ?_
    hpend.increasing hpend.leftmost ?_, hdone.untouched_lift hhalves hre.toUntouched, hfresh⟩
  · rw [List.nodup_append]
    refine ⟨(List.nodup_append.mp hpend.nodup).1, ?_, ?_⟩
    · rw [← childPages_heads_append_levelPages]
      exact hover.nodup
    · rintro p hp q hq rfl
      rcases hfresh p hq with hm | hm
      · exact (hpend.child_low hp).2 hm
      · exact hm (hpend.child_low hp).1
  · intro p hp
    obtain ⟨h1, h2, -⟩ := hdone.low (hpend.child_low hp).1 (hpend.child_low hp).2
    exact hre.allocated p h1 h2
  · intro z hz
    obtain ⟨h1, h2⟩ := hhalves.sized_row hpend z hz
    refine ⟨h1, ?_⟩
    simp only [reduceCtorEq, ↓reduceIte, add_zero]
    split <;> omega

end lift

theorem pagesNeeded_congr {s' : BplusTreeHandler A} :
    ∀ {levs : List (Level A)} {cur : List (Child A)} {short short' : Option PageNum} {lo lo' : ℕ}
      {p : PageNum} {fuel fuel' : ℕ}, fuel = fuel' ∨ levs.length < min fuel fuel' →
      Over h s lo short cur levs → Over h s' lo' short' cur levs →
      p ∈ childPages cur → pagesNeeded h s' fuel' p = pagesNeeded h s fuel p
  | _, _, _, _, _, _, _, 0, 0, _, _, _, _ => rfl
  | _, _, _, _, _, _, _, 0, _ + 1, hf, _, _, _ => by simp at hf
  | _, _, _, _, _, _, _, _ + 1, 0, hf, _, _, _ => by simp at hf
  | [], cur, _, _, _, _, p, fuel + 1, fuel' + 1, _, ho, ho', hp => by
    obtain ⟨k, rfl, hroot⟩ := ho.above
    obtain ⟨k', hk, hroot'⟩ := ho'.above
    have hp : p = s.rootPage := by simpa using hp
    have hs : s'.rootPage = s.rootPage := by simpa using (congrArg childPages hk).symm
    rw [hs] at hroot'
    simp [pagesNeeded, hp, hroot, hroot']
  | lev :: rest, cur, _, _, _, _, p, fuel + 1, fuel' + 1, hf, ho, ho', hp => by
    obtain ⟨c, hc, rfl⟩ := mem_childPages.mp hp
    have hmem := hc
    rw [← ho.above.1] at hmem
    obtain ⟨z, hz, hcz⟩ := List.mem_flatMap.mp hmem
    have hzc : z.page ∈ childPages (heads lev) := by
      rw [childPages_heads]
      exact List.mem_map_of_mem hz
    have hzAlloc : s.allocated z.page := ho.up.allocated _ (List.mem_append_left _ hzc)
    have hn := ho.above.2.1 z hz
    have hn' := ho'.above.2.1 z hz
    obtain ⟨q, hq⟩ := Option.ne_none_iff_exists'.mp (ho.up.above.parentPage_ne_none hzc)
    obtain ⟨q', hq'⟩ := Option.ne_none_iff_exists'.mp (ho'.up.above.parentPage_ne_none hzc)
    have hf' : fuel = fuel' ∨ rest.length < min fuel fuel' := by
      simp only [List.length_cons] at hf
      omega
    have ih := pagesNeeded_congr hf' ho.up ho'.up hzc
    simp [pagesNeeded, hn.parent c hcz, hn'.parent c hcz, page_eq_internal hn.body hq,
      page_eq_internal hn'.body hq', ih]

/-- The recursive call of `insert_entry_into_parent`, with the steps before it. -/
theorem returns_insertEntryIntoParent_up {fuel : ℕ}
    (ih : TakesChild h lo fuel rest)
    (hpend : Pending h lo s front k frame newFrame key back ((pre ++ y :: post) :: rest))
    (hhalves : Halves h lo pre y post
      (front ++ (k, frame) :: ((key : WithBot (Key A)), newFrame) :: back) left right)
    (hdone : SplitDone h s y.page newParent par left right s₂)
    (hcan : ∀ n, s.fileBufferPool.canAllocate (n + 1) = s₂.fileBufferPool.canAllocate n)
    (hpins : ∀ q, s₂.pinCount q = s.pinCount q + ref y.page q + ref newParent q)
    (hframe : s₂.page frame ≠ none) (hnew : s₂.page newFrame ≠ none) :
    Returns (do
      unpinPage frame
      unpinPage newFrame
      let (_, newItems) ← internalNode newParent
      let first ← itemAt newItems 0
      insertEntryIntoParent h fuel y.page newParent first.1) s₂
      (InsertsChild h lo s (1 + pagesNeeded h s fuel y.page) frame newFrame
        (front ++ (k, frame) :: ((key : WithBot (Key A)), newFrame) :: back)
        ((pre ++ y :: post) :: rest)) := by
  obtain ⟨c, right', rfl⟩ := List.exists_cons_of_ne_nil hhalves.right_ne
  obtain ⟨l, left', rfl⟩ := List.exists_cons_of_ne_nil hhalves.left_ne
  have hlt : l.1 < c.1 := by
    have hinc := hpend.increasing
    rw [hhalves.kids] at hinc
    have hleftRight := (List.pairwise_append.mp (List.pairwise_append.mp hinc).1).2.1
    exact (List.pairwise_append.mp hleftRight).2.2 l (by simp) c (by simp)
  obtain ⟨key', hkey'⟩ := WithBot.ne_bot_iff_exists.mp (bot_le.trans_lt hlt).ne'
  have hsep : (⟨newParent, c :: right'⟩ : Inner A).sep = (key' : WithBot (Key A)) := hkey'.symm
  simp only [returns_bind, returns_unpinPage]
  generalize hs₃ : (s₂.update frame Frame.unpin).update newFrame Frame.unpin = s₃
  have hq : Quiet s₂ s₃ (-ref frame + -ref newFrame) := by
    rw [← hs₃]
    exact (Quiet.unpin hframe).trans (Quiet.unpin (by simpa using hnew))
  have hdone₃ := hdone.congr hq (by simp [← hs₃]) (by simp [← hs₃])
  have hpage : s₃.page newParent = some (.internal par (stored h (c :: right'))) :=
    page_eq_internal hdone₃.body_right hdone₃.parent_new
  rw [returns_internalNode hpage]
  dsimp only
  rw [returns_itemAt (i := 0) (x := (key', c.2)) (by simp) (by simp [← hkey'])]
  have hpend₃ := hdone₃.pending hpend hhalves hsep
  have hneed : pagesNeeded h s₃ fuel y.page = pagesNeeded h s fuel y.page := by
    have hover₃ : Over h s₃ lo none (heads (pre ++ y :: post)) rest := by
      simpa [Inner.asChild] using hpend₃.isOver
    exact pagesNeeded_congr (Or.inl rfl) hpend.isOver.up hover₃ (by simp [Inner.asChild])
  refine (ih hpend₃).mono ?_
  rintro rc s' ⟨hle, hserved, hok, hbad⟩
  rw [hdone₃.allocFailures] at hle hok hbad hserved
  rw [← hhalves.heads_row hsep] at hok hbad
  refine ⟨hle, ?_, fun he => ?_, fun he => ?_⟩
  · rw [hserved, hneed, Nat.add_comm, hcan, hq.canAllocate]
  · obtain ⟨rfl, rest', hup⟩ := hok he
    obtain ⟨hover, hre⟩ := hdone₃.lift hpend hhalves hup.isOver hup.rebuilt
    refine ⟨rfl, _, hover, hre, fun q => ?_, hup.pinnedFrees.trans hdone₃.pinnedFrees⟩
    rw [hup.pinCount, hq.pinCount, hpins]
    simp only [Pi.add_apply, Pi.neg_apply]
    ring
  · obtain ⟨hfail, f, l, b, rest', hcut, hl⟩ := hbad he
    exact ⟨hfail, hdone₃.loses_lift hpend hhalves hcut hl⟩

end up

end

end TDB
