import TDB.ParentSplit

namespace TDB

open BplusTreeHandler Exec

variable {A : Type} [LinearOrder (Key A)] {h : IndexFileHeader A} {lo : ℕ}

section

variable {s : BplusTreeHandler A} {front back : List (Child A)} {k : WithBot (Key A)}
  {frame newFrame : PageNum} {key : Key A}

section up

variable {pre post : Level A} {y : Inner A} {rest : List (Level A)} {left right : List (Child A)}
  {newParent par : PageNum} {s₂ s₃ : BplusTreeHandler A} {d : PageNum → ℤ} {key' : Key A}

theorem returns_insertHalf (hh : h.Orders) {p : PageNum} {lo hi : List (Child A)}
    (hpage : s.page p = some (.internal par (stored h (lo ++ hi)))) (hne : lo ≠ [])
    (hinc : Increasing (lo ++ ((key : WithBot (Key A)), newFrame) :: hi))
    (hnew : s.parentPage newFrame ≠ none)
    {m : TreeM A RC} {Q : RC → BplusTreeHandler A → Prop}
    (hm : ∀ s', s'.body = Function.update s.body p (some (.internal 0
        (stored h (lo ++ ((key : WithBot (Key A)), newFrame) :: hi)))) →
      s'.parentPage = Function.update s.parentPage newFrame (some p) → Quiet s s' 0 →
      Returns m s' Q) :
    Returns (do
      internalInsert h p key newFrame
      setParentPageNum newFrame p
      m) s Q := by
  rw [returns_bind, returns_internalInsert hh hpage hne hinc]
  have hp : s.page p ≠ none := by simp [hpage]
  have hself : s.parentPage p = some par := by simp [parentPage, hpage, Page.parent?]
  generalize hs₁ : s.update p (Frame.setData _) = s₁
  have hp₁ : s₁.parentPage = s.parentPage := by
    rw [← hs₁, parentPage_setData hp]
    exact Function.update_eq_self_iff.mpr hself.symm
  rw [returns_bind, returns_withParent (by rw [hp₁]; exact hnew)]
  apply hm
  · rw [body_withParent, ← hs₁, body_setData hp]
    rfl
  · rw [parentPage_withParent (by rw [hp₁]; exact hnew), hp₁]
  · rw [← hs₁]
    simpa using (Quiet.setData _ _ _).trans (Quiet.withParent _ _ _)

omit [LinearOrder (Key A)] in
/-- A split of the parent followed by `returns_insertHalf` in one of the halves. -/
theorem Splits.splitDone {s₀ s₁ : BplusTreeHandler A} {l r lo hi : List (Child A)} {p : PageNum}
    (hq₀ : Quiet s s₀ d) (hb₀ : s₀.body = s.body) (hp₀ : s₀.parentPage = s.parentPage)
    (hsp : Splits s₀ y.page newParent par (.internal 0 (stored h l)) (.internal 0 (stored h r))
      (childPages r) s₁)
    (hb : s₂.body = Function.update s₁.body p (some (.internal 0
      (stored h (lo ++ ((key : WithBot (Key A)), newFrame) :: hi)))))
    (hp : s₂.parentPage = Function.update s₁.parentPage newFrame (some p)) (hq : Quiet s₁ s₂ 0)
    (hside : (p = y.page ∧ l = lo ++ hi ∧ left = lo ++ ((key : WithBot (Key A)), newFrame) :: hi ∧
        right = r) ∨
      (p = newParent ∧ r = lo ++ hi ∧ right = lo ++ ((key : WithBot (Key A)), newFrame) :: hi ∧
        left = l))
    (hyAlloc : s.allocated y.page) (hnew : newFrame ∉ childPages (l ++ r))
    (hnewAlloc : s.allocated newFrame)
    (hparents : ∀ c ∈ l, s.parentPage c.2 = some y.page)
    (hkidsAlloc : ∀ q ∈ childPages (l ++ r), s.allocated q ∧ q ≠ y.page)
    (hdisj : ∀ q ∈ childPages l, q ∉ childPages r) :
    SplitDone h s y.page newParent par left right s₂ := by
  have hfresh : ¬ s.allocated newParent := fun hs => hsp.fresh ((hq₀.allocated_iff _).mpr hs)
  have hynp : y.page ≠ newParent := ne_of_not_allocated hyAlloc hfresh
  have hnnp : newFrame ≠ newParent := ne_of_not_allocated hnewAlloc hfresh
  have hmoved : newParent ∉ childPages r := by
    intro hm
    exact hfresh (hkidsAlloc _ (by simp [hm])).1
  have hnew' : newFrame ∉ childPages l ∧ newFrame ∉ childPages r := by simpa using hnew
  -- the parent fields of the old children, after the split
  have hl : ∀ c ∈ l, s₂.parentPage c.2 = some y.page := by
    intro c hc
    have hcl : c.2 ∈ childPages l := mem_childPages.mpr ⟨c, hc, rfl⟩
    have h1 : c.2 ≠ newFrame := fun he => hnew'.1 (he ▸ hcl)
    have h2 : c.2 ≠ newParent :=
      ne_of_not_allocated (hkidsAlloc _ (by simp [hcl])).1 hfresh
    rw [hp, Function.update_of_ne h1, hsp.parentPage _ h2, if_neg (hdisj _ hcl), hp₀]
    exact hparents c hc
  have hr : ∀ c ∈ r, s₂.parentPage c.2 = some newParent := by
    intro c hc
    have hcr : c.2 ∈ childPages r := mem_childPages.mpr ⟨c, hc, rfl⟩
    have h1 : c.2 ≠ newFrame := fun he => hnew'.2 (he ▸ hcr)
    have h2 : c.2 ≠ newParent :=
      ne_of_not_allocated (hkidsAlloc _ (by simp [hcr])).1 hfresh
    rw [hp, Function.update_of_ne h1, hsp.parentPage _ h2, if_pos hcr]
  have hside_pages : childPages l ⊆ childPages (left ++ right) ∧
      childPages r ⊆ childPages (left ++ right) ∧ newFrame ∈ childPages (left ++ right) := by
    rcases hside with ⟨-, rfl, rfl, rfl⟩ | ⟨-, rfl, rfl, rfl⟩
    · refine ⟨?_, ?_, by simp⟩ <;> intro q hq' <;> simp at hq' ⊢ <;> tauto
    · refine ⟨?_, ?_, by simp⟩ <;> intro q hq' <;> simp at hq' ⊢ <;> tauto
  refine
    { fresh := hfresh
      allocated_iff := fun q => by
        rw [hq.allocated_iff, hsp.allocated_iff, hq₀.allocated_iff]
      body_left := ?_
      body_right := ?_
      body := ?_
      parent_left := ?_
      parent_right := ?_
      parent_new := ?_
      parentPage := ?_
      rootPage := hq.rootPage.trans (hsp.rootPage.trans hq₀.rootPage)
      allocFailures := hq.allocFailures.trans (hsp.allocFailures.trans hq₀.allocFailures)
      pinnedFrees := hq.pinnedFrees.trans (hsp.pinnedFrees.trans hq₀.pinnedFrees)
      pageCount := ?_ }
  · rcases hside with ⟨rfl, -, rfl, -⟩ | ⟨rfl, -, -, rfl⟩
    · rw [hb, Function.update_self]
    · rw [hb, Function.update_of_ne hynp, hsp.body_this]
  · rcases hside with ⟨rfl, -, -, rfl⟩ | ⟨rfl, -, rfl, -⟩
    · rw [hb, Function.update_of_ne hynp.symm, hsp.body_new]
    · rw [hb, Function.update_self]
  · intro q h1 h2
    have hqp : q ≠ p := by
      rcases hside with ⟨rfl, -⟩ | ⟨rfl, -⟩
      · exact h1
      · exact h2
    rw [hb, Function.update_of_ne hqp, hsp.body q h1 h2, hb₀]
  · intro c hc
    rcases hside with ⟨rfl, rfl, rfl, -⟩ | ⟨-, -, -, rfl⟩
    · obtain rfl | hc := mem_row.mp hc
      · rw [hp, Function.update_self]
      · exact hl c (List.mem_append.mpr hc)
    · exact hl c hc
  · intro c hc
    rcases hside with ⟨-, -, -, rfl⟩ | ⟨rfl, rfl, rfl, -⟩
    · exact hr c hc
    · obtain rfl | hc := mem_row.mp hc
      · rw [hp, Function.update_self]
      · exact hr c (List.mem_append.mpr hc)
  · rw [hp, Function.update_of_ne hnnp.symm, hsp.parent_new hmoved]
  · intro q hq' hqn
    have h1 : q ≠ newFrame := fun he => hq' (he ▸ hside_pages.2.2)
    have h2 : q ∉ childPages r := fun hm => hq' (hside_pages.2.1 hm)
    rw [hp, Function.update_of_ne h1, hsp.parentPage q hqn, if_neg h2, hp₀]
  · rw [hq.fileHeader, ← hq₀.fileHeader]
    exact hsp.pageCount

omit [LinearOrder (Key A)] in
/-- Where the child `x` of a list lands when the list is cut at `n`. -/
theorem cut_cases {a b : List (Child A)} {x : Child A} (n : ℕ) :
    (∃ a₁ a₂, a = a₁ ++ a₂ ∧ a₁.length = n ∧ (a ++ x :: b).take n = a₁ ∧
      (a ++ x :: b).drop n = a₂ ++ [x] ++ b) ∨
    (∃ b₁ b₂, b = b₁ ++ b₂ ∧ (a ++ x :: b).take n = a ++ [x] ++ b₁ ∧
      (a ++ x :: b).drop n = b₂) := by
  rcases le_or_gt n a.length with hn | hn
  · refine Or.inl ⟨a.take n, a.drop n, (List.take_append_drop n a).symm, by simp [hn], ?_, ?_⟩
    · rw [List.take_append_of_le_length hn]
    · rw [List.drop_append_of_le_length hn]
      simp
  · obtain ⟨m, rfl⟩ : ∃ m, n = a.length + 1 + m := ⟨n - a.length - 1, by omega⟩
    refine Or.inr ⟨b.take m, b.drop m, (List.take_append_drop m b).symm, ?_, ?_⟩
    · rw [Nat.add_assoc, List.take_append, List.take_of_length_le (by omega)]
      simp [Nat.add_comm 1 m]
    · rw [Nat.add_assoc, List.drop_append]
      simp [Nat.add_comm 1 m]

/-- The new key against the first separator of the new node. -/
theorem compare_separator_iff (hh : h.Orders) {sep : WithBot (Key A)} (hsep : sep ≠ ⊥) :
    h.compare key (sep.unbotD h.zeroKey) > 0 ↔ sep < (key : WithBot (Key A)) := by
  obtain ⟨k', rfl⟩ := WithBot.ne_bot_iff_exists.mp hsep
  rw [WithBot.unbotD_coe, WithBot.coe_lt_coe, gt_iff_lt, hh.gt_iff]

omit [LinearOrder (Key A)] in
theorem BplusTreeHandler.Splits.parentPage_ne_none {s₀ s₁ : BplusTreeHandler A} {p np q : PageNum}
    {thisBody newBody : Page A} {moved : List PageNum}
    (hsp : Splits s₀ p np par thisBody newBody moved s₁) (hq : q ≠ np)
    (hparent : s₀.parentPage q ≠ none) : s₁.parentPage q ≠ none := by
  rw [hsp.parentPage _ hq]
  split
  · simp
  · exact hparent

section cut

variable {a a₁ a₂ b b₁ b₂ : List (Child A)}

theorem Pending.kid_allocated
    (hpend : Pending h lo s front k frame newFrame key back ((pre ++ y :: post) :: rest)) :
    ∀ q ∈ childPages y.kids, s.allocated q ∧ q ≠ y.page := by
  intro q hq
  have hmem := hpend.isOver.mem_childPages (y := y) (by simp) hq
  refine ⟨hpend.isOver.allocated q (List.mem_append_left _ hmem), fun heq => ?_⟩
  exact hpend.isOver.not_mem_levelPages hmem (heq ▸ mem_levelPages_head)

/-- The page of the split was not allocated: the new child is lost and nothing else changes. -/
theorem Pending.insertsChild_of_allocFails {need : ℕ} {rc : RC} {s₁ : BplusTreeHandler A}
    (hpend : Pending h lo s front k frame newFrame key back ((pre ++ y :: post) :: rest))
    (hfail : rc.fail = true) (hf : AllocFails (s.update y.page Frame.pin) s₁) :
    InsertsChild h lo s (1 + need) frame newFrame
      (front ++ (k, frame) :: ((key : WithBot (Key A)), newFrame) :: back)
      ((pre ++ y :: post) :: rest) rc
      (((s₁.update frame Frame.unpin).update newFrame Frame.unpin).update y.page Frame.unpin) := by
  have hfailed := hf.allocFailures
  rw [allocFailures_update] at hfailed
  have hpageEq : ∀ q, s.allocated q → (((s₁.update frame Frame.unpin).update newFrame
      Frame.unpin).update y.page Frame.unpin).page q = s.page q := by
    intro q hq
    simpa using hf.page_eq q ((allocated_update _ _ _ _).mpr hq)
  have hallocOf : ∀ q, s.allocated q → (((s₁.update frame Frame.unpin).update newFrame
      Frame.unpin).update y.page Frame.unpin).allocated q := by
    intro q hq
    simpa using hf.allocated_of q ((allocated_update _ _ _ _).mpr hq)
  refine ⟨?_, ?_, fun he' => ?_, fun _ => ⟨hfail, _, _, _, _, by simp,
    hpend.loses (by simpa using hf.rootPage) hpageEq hallocOf ?_⟩⟩
  · simp [hfailed]
  · have := hf.canAllocate need
    rw [canAllocate_update] at this
    rw [Nat.add_comm, this]
    simp [hfailed]
  · simp [hfailed] at he'
  · have := hf.pageCount
    simp only [fileHeader_update] at this ⊢
    exact this.le

omit [LinearOrder (Key A)] in
/-- The new child goes into the right half, behind the child that was split. -/
theorem Halves.of_right (hkids : y.kids = a₁ ++ a₂ ++ (k, frame) :: b) (hne : a₁ ≠ [])
    (hleft : lo ≤ a₁.length) (hleft' : a₁.length ≤ h.internalMaxSize)
    (hright : lo ≤ a₂.length + b.length + 2)
    (hright' : a₂.length + b.length + 2 ≤ h.internalMaxSize) :
    Halves h lo pre y post (kidsOf pre ++ (a₁ ++ a₂) ++ (k, frame) ::
        ((key : WithBot (Key A)), newFrame) :: (b ++ kidsOf post)) a₁
      (a₂ ++ [(k, frame)] ++ ((key : WithBot (Key A)), newFrame) :: b) := by
  have hy : y = ⟨y.page, y.kids⟩ := rfl
  refine ⟨by simp, ?_, hne, by simp, hleft', ?_, hleft, ?_⟩
  · rw [hy, hkids, List.append_assoc]
    simpa using Inner.sep_append (p := y.page) (q := y.page) (l := a₁) (r := []) hne
  · simp only [List.length_append, List.length_cons, List.length_nil]
    omega
  · simp only [List.length_append, List.length_cons, List.length_nil]
    omega

omit [LinearOrder (Key A)] in
/-- The new child goes into the left half, behind the child that was split. -/
theorem Halves.of_left (hkids : y.kids = a ++ (k, frame) :: (b₁ ++ b₂)) (hne : b₂ ≠ [])
    (hleft : lo ≤ a.length + b₁.length + 2)
    (hleft' : a.length + b₁.length + 2 ≤ h.internalMaxSize)
    (hright : lo ≤ b₂.length) (hright' : b₂.length ≤ h.internalMaxSize) :
    Halves h lo pre y post (kidsOf pre ++ a ++ (k, frame) ::
        ((key : WithBot (Key A)), newFrame) :: (b₁ ++ b₂ ++ kidsOf post))
      (a ++ [(k, frame)] ++ ((key : WithBot (Key A)), newFrame) :: b₁) b₂ := by
  have hy : y = ⟨y.page, y.kids⟩ := rfl
  refine ⟨by simp, ?_, by simp, hne, ?_, hright', ?_, hright⟩
  · rw [hy, hkids]
    have : _ = (Inner.mk y.page (a ++ [(k, frame)] ++ (b₁ ++ b₂))).sep :=
      Inner.sep_append (p := y.page) (q := y.page) (l := a ++ [(k, frame)])
        (r := ((key : WithBot (Key A)), newFrame) :: b₁) (by simp)
    simpa using this
  · simp only [List.length_append, List.length_cons, List.length_nil]
    omega
  · simp only [List.length_append, List.length_cons, List.length_nil]
    omega

end cut

/-- What is left to do once the new child is in the half on page `p` of the parent's split. -/
theorem returns_insertEntryIntoParent_fromHalf {fuel n : ℕ} {np p : PageNum}
    {s₁ s₂ : BplusTreeHandler A} {left right front' back' : List (Child A)}
    (ih : TakesChild h lo fuel rest)
    (hpend : Pending h lo s front k frame newFrame key back ((pre ++ y :: post) :: rest))
    (hy : ParentAt h s frame newFrame y par)
    (hsp : Splits (s.update y.page Frame.pin) y.page np par
      (.internal 0 (stored h (y.kids.take n))) (.internal 0 (stored h (y.kids.drop n)))
      (childPages (y.kids.drop n)) s₁)
    (hb : s₂.body = Function.update s₁.body p (some (.internal 0
      (stored h (front' ++ ((key : WithBot (Key A)), newFrame) :: back')))))
    (hp : s₂.parentPage = Function.update s₁.parentPage newFrame (some p)) (hq : Quiet s₁ s₂ 0)
    (hside : (p = y.page ∧ y.kids.take n = front' ++ back' ∧
        left = front' ++ ((key : WithBot (Key A)), newFrame) :: back' ∧ right = y.kids.drop n) ∨
      (p = np ∧ y.kids.drop n = front' ++ back' ∧
        right = front' ++ ((key : WithBot (Key A)), newFrame) :: back' ∧ left = y.kids.take n))
    (hhalves : Halves h lo pre y post
      (front ++ (k, frame) :: ((key : WithBot (Key A)), newFrame) :: back) left right) :
    Returns (do
      unpinPage frame
      unpinPage newFrame
      let (_, newItems) ← internalNode np
      let first ← itemAt newItems 0
      insertEntryIntoParent h fuel y.page np first.1) s₂
      (InsertsChild h lo s (1 + pagesNeeded h s fuel y.page) frame newFrame
        (front ++ (k, frame) :: ((key : WithBot (Key A)), newFrame) :: back)
        ((pre ++ y :: post) :: rest)) := by
  have hq₀ := Quiet.pin (s := s) (p := y.page) (by simp [hy.page])
  have hsplit : y.kids.take n ++ y.kids.drop n = y.kids := List.take_append_drop _ _
  have hdisj : ∀ q ∈ childPages (y.kids.take n), q ∉ childPages (y.kids.drop n) := by
    have hnodup : (childPages y.kids).Nodup := hpend.isOver.kids_nodup (by simp)
    rw [← hsplit, childPages_append] at hnodup
    exact fun q h1 h2 => (List.nodup_append.mp hnodup).2.2 q h1 q h2 rfl
  have hnewKids : newFrame ∉ childPages y.kids := fun hm =>
    hpend.notChild (hpend.isOver.mem_childPages (by simp) hm)
  have hframeParent : s₁.parentPage frame ≠ none := by
    have hframenp : frame ≠ np := fun heq => hsp.fresh ((allocated_update _ _ _ _).mpr
      (heq ▸ hpend.isOver.allocated frame (by simp)))
    exact hsp.parentPage_ne_none hframenp (by simp [hy.parent_frame])
  have hpins : ∀ q, s₁.pinCount q = s.pinCount q + ref y.page q + ref np q := by
    intro q
    rw [hsp.pinCount, hq₀.pinCount]
  have hdone := Splits.splitDone hq₀ body_pin parentPage_pin
    hsp hb hp hq hside hy.allocated (by rwa [hsplit]) hpend.allocated
    (fun c hc => hy.node.parent c (List.mem_of_mem_take hc))
    (by rw [hsplit]; exact hpend.kid_allocated) hdisj
  refine returns_insertEntryIntoParent_up ih hpend hhalves hdone ?_ ?_ ?_ ?_
  · intro m
    rw [hq.canAllocate, ← hsp.canAllocate, canAllocate_update]
  · intro q
    rw [hq.pinCount, hpins]
    simp
  · apply page_ne_none_of_parentPage
    rw [hp]
    by_cases hfn : frame = newFrame
    · simp [hfn]
    · rw [Function.update_of_ne hfn]
      exact hframeParent
  · apply page_ne_none_of_parentPage
    simp [hp]

/-- The old child is in the right half: the first key of that half is below the new key. -/
theorem first_lt_of_right {a₁ a₂ b r' : List (Child A)} {c : Child A}
    (hinc : Increasing (a₁ ++ a₂ ++ (k, frame) :: ((key : WithBot (Key A)), newFrame) :: b))
    (hr : a₂ ++ [(k, frame)] ++ b = c :: r') :
    c.1 < (key : WithBot (Key A)) ∧ (∀ l ∈ a₁, l.1 < c.1) ∧
      Increasing (a₂ ++ [(k, frame)] ++ ((key : WithBot (Key A)), newFrame) :: b) := by
  have hc : c ∈ a₂ ++ [(k, frame)] := by
    cases a₂ with
    | nil =>
      simp only [List.nil_append, List.cons_append, List.cons.injEq] at hr
      simp [hr.1]
    | cons x a₂ =>
      simp only [List.cons_append, List.cons.injEq] at hr
      simp [hr.1]
  have hright : Increasing (a₂ ++ [(k, frame)] ++ ((key : WithBot (Key A)), newFrame) :: b) := by
    unfold Increasing at hinc ⊢
    simp only [List.append_assoc, List.cons_append, List.nil_append] at hinc ⊢
    exact hinc.sublist (List.sublist_append_right _ _)
  refine ⟨(List.pairwise_append.mp hright).2.2 c hc (key, newFrame) (by simp), ?_, hright⟩
  intro l hl
  rw [List.append_assoc] at hinc
  refine (List.pairwise_append.mp hinc).2.2 l hl c ?_
  simp only [List.mem_append, List.mem_cons] at hc ⊢
  tauto

/-- The old child is in the left half: the keys of the right half are above the new key. -/
theorem lt_first_of_left {a b₁ b₂ : List (Child A)} {c : Child A}
    (hinc : Increasing (a ++ (k, frame) :: ((key : WithBot (Key A)), newFrame) :: (b₁ ++ b₂)))
    (hc : c ∈ b₂) : (key : WithBot (Key A)) < c.1 ∧
      Increasing (a ++ [(k, frame)] ++ ((key : WithBot (Key A)), newFrame) :: b₁) := by
  have hinc' : Increasing
      (a ++ [(k, frame)] ++ ((key : WithBot (Key A)), newFrame) :: (b₁ ++ b₂)) := by
    simpa only [List.append_assoc, List.cons_append, List.nil_append] using hinc
  refine ⟨(List.pairwise_cons.mp (List.pairwise_append.mp hinc').2.1).1 c (by simp [hc]), ?_⟩
  unfold Increasing at hinc' ⊢
  rw [← List.cons_append, ← List.append_assoc] at hinc'
  exact hinc'.sublist (List.sublist_append_left _ _)

/-- The parent was split: the new child goes into one of its halves, and the other half goes up. -/
theorem returns_insertEntryIntoParent_halves (hh : h.Orders) (hmax : 2 ≤ h.internalMaxSize)
    (hlo : lo ≤ h.internalMaxSize / 2) {fuel n : ℕ} {a b : List (Child A)} {np : PageNum}
    {s₁ : BplusTreeHandler A} (ih : TakesChild h lo fuel rest)
    (hkids : y.kids = a ++ (k, frame) :: b) (hlen : y.kids.length = h.internalMaxSize)
    (hn : n = y.kids.length / 2)
    (hpend : Pending h lo s (kidsOf pre ++ a) k frame newFrame key (b ++ kidsOf post)
      ((pre ++ y :: post) :: rest)) (hy : ParentAt h s frame newFrame y par)
    (hsp : Splits (s.update y.page Frame.pin) y.page np par
      (.internal 0 (stored h (y.kids.take n))) (.internal 0 (stored h (y.kids.drop n)))
      (childPages (y.kids.drop n)) s₁) :
    Returns (do
      let (_, newItems) ← internalNode np
      let first ← itemAt newItems 0
      if h.compare key first.1 > 0 then
        internalInsert h np key newFrame
        setParentPageNum newFrame np
      else
        internalInsert h y.page key newFrame
        setParentPageNum newFrame y.page
      unpinPage frame
      unpinPage newFrame
      let (_, newItems) ← internalNode np
      let first ← itemAt newItems 0
      insertEntryIntoParent h fuel y.page np first.1) s₁
      (InsertsChild h lo s (1 + pagesNeeded h s fuel y.page) frame newFrame
        (kidsOf pre ++ a ++ (k, frame) :: ((key : WithBot (Key A)), newFrame) :: (b ++ kidsOf post))
        ((pre ++ y :: post) :: rest)) := by
  -- the page of the new half is none of the pages the rows had
  have hdropKids : ∀ q ∈ childPages (y.kids.drop n), s.allocated q ∧ q ≠ y.page := fun q hq =>
    hpend.kid_allocated q (((List.drop_sublist n y.kids).map Prod.snd).subset hq)
  have hold : ∀ q, s.allocated q → q ≠ np := fun q hq heq =>
    hsp.fresh ((allocated_update _ _ _ _).mpr (heq ▸ hq))
  have hnp : np ∉ childPages (y.kids.drop n) := fun hm => hold np (hdropKids np hm).1 rfl
  have hnppage : s₁.page np = some (.internal par (stored h (y.kids.drop n))) :=
    page_eq_internal hsp.body_new (hsp.parent_new hnp)
  have hnewParent : s₁.parentPage newFrame ≠ none :=
    hsp.parentPage_ne_none (hold newFrame hpend.allocated) (by simpa using hpend.isNode)
  have hinc := hpend.increasing_kids
  have hkidsLen : y.kids.length = a.length + b.length + 1 := by
    rw [hkids]
    simp only [List.length_append, List.length_cons]
    omega
  have hdrop : (y.kids.drop n).length = y.kids.length - n := List.length_drop
  obtain ⟨c, r', hr⟩ := List.exists_cons_of_ne_nil
    (List.ne_nil_of_length_pos (l := y.kids.drop n) (by omega))
  rw [returns_bind, returns_internalNode hnppage]
  dsimp only
  rw [returns_bind, returns_itemAt (i := 0) (x := (c.1.unbotD h.zeroKey, c.2)) (by simp)
    (by simp [hr])]
  -- the code compares the new key with the first key of the new half to choose the half
  rcases cut_cases (a := a) (b := b) (x := (k, frame)) n with
    ⟨a₁, a₂, rfl, hlen₁, htake, hdrop'⟩ | ⟨b₁, b₂, rfl, htake, hdrop'⟩
  · -- the old child is in the right half
    rw [← hkids] at htake hdrop'
    obtain ⟨l, left', hl⟩ := List.exists_cons_of_ne_nil
      (List.ne_nil_of_length_pos (l := a₁) (by omega))
    obtain ⟨hck, hlc, hincRight⟩ := first_lt_of_right hinc (hdrop'.symm.trans hr)
    have hcompare : h.compare key (c.1.unbotD h.zeroKey) > 0 :=
      (compare_separator_iff hh (bot_le.trans_lt (hlc l (by simp [hl]))).ne').mpr hck
    simp only [hcompare, ↓reduceIte]
    refine returns_insertHalf hh (by rw [hnppage, hdrop'])
      (by simp) hincRight hnewParent fun s₂ hb hp hq => ?_
    refine returns_insertEntryIntoParent_fromHalf ih hpend hy hsp hb hp hq
      (Or.inr ⟨rfl, hdrop', rfl, rfl⟩) ?_
    rw [htake]
    simp only [List.length_append] at hkidsLen
    exact Halves.of_right hkids (by simp [hl]) (by omega) (by omega) (by omega) (by omega)
  · -- the old child is in the left half
    rw [← hkids] at htake hdrop'
    have hcb : c ∈ b₂ := by
      rw [← hdrop', hr]
      simp
    obtain ⟨hkc, hincLeft⟩ := lt_first_of_left hinc hcb
    have hcompare : ¬ h.compare key (c.1.unbotD h.zeroKey) > 0 := by
      rw [compare_separator_iff hh (bot_le.trans_lt hkc).ne']
      exact hkc.asymm
    have hypage₁ : s₁.page y.page = some (.internal par
      (stored h (a ++ [(k, frame)] ++ b₁))) := by
      rw [← htake]
      refine page_eq_internal hsp.body_this ?_
      rw [hsp.parentPage _ (hold y.page hy.allocated), parentPage_pin, hy.parentPage]
      exact if_neg fun hm => (hdropKids y.page hm).2 rfl
    simp only [hcompare, ↓reduceIte]
    refine returns_insertHalf hh hypage₁ (by simp) hincLeft hnewParent fun s₂ hb hp hq => ?_
    refine returns_insertEntryIntoParent_fromHalf ih hpend hy hsp hb hp hq
      (Or.inl ⟨rfl, htake, rfl, rfl⟩) ?_
    rw [hdrop']
    have hlenTake := congrArg List.length htake
    have hlenDrop := congrArg List.length hdrop'
    simp only [List.length_append, List.length_cons, List.length_nil, List.length_take,
      List.length_drop] at hkidsLen hlenTake hlenDrop
    exact Halves.of_left hkids (List.ne_nil_of_mem hcb) (by omega) (by omega) (by omega)
      (by omega)

theorem returns_insertEntryIntoParent_split (hh : h.Orders) (hmax : 2 ≤ h.internalMaxSize)
    (hlo : lo ≤ h.internalMaxSize / 2) {fuel : ℕ} {a b : List (Child A)}
    (ih : TakesChild h lo fuel rest)
    (hkids : y.kids = a ++ (k, frame) :: b) (hfull : h.internalMaxSize ≤ y.kids.length)
    (hpend : Pending h lo s (kidsOf pre ++ a) k frame newFrame key (b ++ kidsOf post)
      ((pre ++ y :: post) :: rest)) :
    Returns (insertEntryIntoParent h (fuel + 1) frame newFrame key) s
      (InsertsChild h lo s (pagesNeeded h s (fuel + 1) frame) frame newFrame
        (kidsOf pre ++ a ++ (k, frame) :: ((key : WithBot (Key A)), newFrame) :: (b ++ kidsOf post))
        ((pre ++ y :: post) :: rest)) := by
  obtain ⟨par, hy⟩ := hpend.parentAt (by simp [hkids])
  obtain ⟨e, he, hnode, hpar⟩ := node_of_parentPage hy.parent_frame
  have hypage : s.page y.page ≠ none := by simp [hy.page]
  have hlen : y.kids.length = h.internalMaxSize :=
    le_antisymm (hpend.isOver.sized.1 y (by simp)).1 hfull
  have hneed : pagesNeeded h s (fuel + 1) frame = 1 + pagesNeeded h s fuel y.page := by
    simp [pagesNeeded, hy.parent_frame, ne_invalidPageNum hy.allocated, hy.page, hfull.not_gt]
  rw [hneed]
  unfold insertEntryIntoParent
  rw [returns_bind, returns_node he hnode]
  simp only [hpar, ne_invalidPageNum hy.allocated, ↓reduceIte]
  rw [returns_bind, returns_getThisPage hypage]
  simp only [fail_success, Bool.false_eq_true, ↓reduceIte]
  rw [returns_bind, returns_internalNode (by simpa using hy.page)]
  simp only [length_stored, hfull.not_gt, ↓reduceIte]
  refine (returns_split_internal (s := s.update y.page Frame.pin) (by simpa using hy.page)
    (by simpa using hy.allocated) ?_).bind ?_
  · intro item hitem
    obtain ⟨c, hc, rfl⟩ := List.mem_map.mp hitem
    have hcp := hpend.kid_allocated c.2 (mem_childPages.mpr ⟨c, hc, rfl⟩)
    exact ⟨by simp [hy.node.parent c hc], hcp.2, by simpa using hcp.1⟩
  rintro ⟨rc, np⟩ s₁ (⟨rfl, hsp⟩ | ⟨hfail, hf⟩)
  swap
  · simp only at hfail hf
    simp only [hfail, ↓reduceIte, returns_bind, returns_unpinPage, returns_pure]
    exact hpend.insertsChild_of_allocFails hfail hf
  · simp only [fail_success, Bool.false_eq_true, ↓reduceIte]
    simp only [length_stored, stored_take, stored_drop, map_snd_stored] at hsp
    exact returns_insertEntryIntoParent_halves hh hmax hlo ih hkids hlen rfl hpend hy hsp

end up

/-- `insert_entry_into_parent`: the rows take in the new child, unless an allocation fails. -/
theorem returns_insertEntryIntoParent (hh : h.Orders) (hmax : 2 ≤ h.internalMaxSize)
    (hlo : lo ≤ h.internalMaxSize / 2) :
    ∀ (levs : List (Level A)) {fuel : ℕ} {s : BplusTreeHandler A} {front back : List (Child A)}
      {k : WithBot (Key A)} {frame newFrame : PageNum} {key : Key A}, levs.length < fuel →
      Pending h lo s front k frame newFrame key back levs →
      Returns (insertEntryIntoParent h fuel frame newFrame key) s (InsertsChild h lo s
        (pagesNeeded h s fuel frame) frame newFrame
        (front ++ (k, frame) :: ((key : WithBot (Key A)), newFrame) :: back) levs)
  | [], fuel, s, front, back, k, frame, newFrame, key, hfuel, hpend => by
    obtain ⟨m, rfl⟩ : ∃ m, fuel = m + 1 := ⟨fuel - 1, by omega⟩
    exact returns_insertEntryIntoParent_root hmax hpend
  | lev :: rest, fuel, s, front, back, k, frame, newFrame, key, hfuel, hpend => by
    obtain ⟨m, rfl⟩ : ∃ m, fuel = m + 1 := ⟨fuel - 1, by omega⟩
    obtain ⟨pre, y, post, a, b, rfl, hkids, rfl, rfl⟩ := hpend.isOver.locate
    rcases lt_or_ge y.kids.length h.internalMaxSize with hroom | hfull
    · exact returns_insertEntryIntoParent_room hh hkids hroom hpend
    · refine returns_insertEntryIntoParent_split hh hmax hlo (fun hp => ?_) hkids hfull hpend
      exact returns_insertEntryIntoParent hh hmax hlo rest (by simpa using hfuel) hp

end

end TDB
