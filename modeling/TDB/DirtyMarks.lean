import TDB.SavedPages

namespace TDB

open Exec

variable {A : Type}

namespace BplusTreeHandler

variable {s : BplusTreeHandler A} {root p this other : PageNum} {N N' D D' C C' : List PageNum}
  {h : IndexFileHeader A}

/-! ## Moving items between nodes -/

theorem ensures_adoptChildren : ∀ (items : List (Key A × PageNum)) {s : BplusTreeHandler A},
    Keeps root N D C s → Ensures (adoptChildren this items) s fun rc s' =>
      (rc = .success ∨ rc = .ioerrRead) ∧ Keeps root N D C s'
  | [], s, hk => by
    unfold adoptChildren
    exact ensures_pure.mpr ⟨.inl rfl, hk⟩
  | item :: items, s, hk => by
    unfold adoptChildren
    refine (ensures_getThisPage hk).bind ?_
    rintro rc s₁ ⟨hrc, hk⟩
    split
    · exact ensures_pure.mpr ⟨hrc, hk⟩
    · refine (ensures_setParentPageNum hk this).bind fun _ s₂ hk => ?_
      refine (ensures_markDirty hk (by grind)).bind fun _ s₃ hk => ?_
      refine (ensures_unpinPage hk).bind fun _ s₄ hk => ?_
      exact ensures_adoptChildren items (hk.mono (by grind))

theorem ensures_copyFrom (hk : Keeps root N D C s) (items : List (Key A × PageNum)) :
    Ensures (copyFrom p items) s fun rc s' =>
      (rc = .success ∨ rc = .ioerrRead) ∧ Keeps root N D (p :: C) s' := by
  unfold copyFrom
  refine (ensures_adoptChildren items hk).bind ?_
  rintro rc s₁ ⟨hrc, hk⟩
  split
  · exact ensures_pure.mpr ⟨hrc, hk.mono (by grind)⟩
  · refine (ensures_internalNode hk).bind fun _ s₂ hk => ?_
    refine (ensures_setPage hk (by grind) (by rintro ⟨⟩)).bind fun _ s₃ hk => ?_
    exact ensures_pure.mpr ⟨hrc, hk.mono (by grind)⟩

theorem ensures_preappend (hk : Keeps root N D C s) (item : Key A × PageNum) :
    Ensures (preappend p item) s fun rc s' =>
      (rc = .success ∨ rc = .ioerrRead) ∧ Keeps root N D (p :: C) s' := by
  unfold preappend
  refine (ensures_getThisPage hk).bind ?_
  rintro rc s₁ ⟨hrc, hk⟩
  split
  · exact ensures_pure.mpr ⟨hrc, hk.mono (by grind)⟩
  · refine (ensures_setParentPageNum hk p).bind fun _ s₂ hk => ?_
    refine (ensures_markDirty hk (by grind)).bind fun _ s₃ hk => ?_
    refine (ensures_unpinPage hk).bind fun _ s₄ hk => ?_
    refine (ensures_internalNode hk).bind fun _ s₅ hk => ?_
    refine (ensures_setPage hk (by grind) (by rintro ⟨⟩)).bind fun _ s₆ hk => ?_
    exact ensures_pure.mpr ⟨.inl rfl, hk.mono (by grind)⟩

/-- Both leaves of a move are written once they have been read. -/
theorem ensures_setLeaves (hk : Keeps root (other :: this :: N) D C s)
    {par next par' next' : PageNum} {items items' : List (Key A × RID)} :
    Ensures (do
      setPage other (.leaf par' next' items')
      setPage this (.leaf par next items)
      return RC.success) s fun rc s' =>
      (rc = .success ∨ rc = .ioerrRead) ∧ Keeps root N D (this :: other :: C) s' := by
  refine (ensures_setPage hk (by grind) (by rintro ⟨⟩)).bind fun _ s₁ hk => ?_
  refine (ensures_setPage hk (by grind) (by rintro ⟨⟩)).bind fun _ s₂ hk => ?_
  exact ensures_pure.mpr ⟨.inl rfl, hk.mono (by grind)⟩

/-- The inner node that items are moved to is written, and if that succeeds the other one, which
has been read. -/
theorem ensures_setInternal {m : TreeM A RC} {rcs : RC → RC} {par : PageNum}
    {items : List (Key A × PageNum)} (hm : Ensures m s fun rc s' =>
      (rc = .success ∨ rc = .ioerrRead) ∧ Keeps root (this :: N) D (other :: C) s')
    (hrcs : ∀ rc, rcs rc = rc ∨ rcs rc = .success) :
    Ensures (do
      let rc ← m
      if rc.fail then return rc
      setPage this (.internal par items)
      return rcs rc) s fun rc s' =>
      (rc = .success ∨ rc = .ioerrRead) ∧ Keeps root N D (this :: other :: C) s' := by
  refine hm.bind ?_
  rintro rc s₁ ⟨hrc, hk⟩
  split
  · exact ensures_pure.mpr ⟨hrc, hk.mono (by grind)⟩
  · refine (ensures_setPage hk (by grind) (by rintro ⟨⟩)).bind fun _ s₂ hk => ?_
    exact ensures_pure.mpr ⟨by grind, hk.mono (by grind)⟩

theorem ensures_moveHalfTo (hk : Keeps root N D C s) (T : NodeType) :
    Ensures (moveHalfTo T this other) s fun rc s' =>
      (rc = .success ∨ rc = .ioerrRead) ∧ Keeps root N D (this :: other :: C) s' := by
  unfold moveHalfTo
  cases T with
  | leaf =>
    refine (ensures_leafNode hk).bind ?_
    rintro ⟨par, next, items⟩ s₁ hk
    refine (ensures_leafNode hk).bind ?_
    rintro ⟨opar, onext, oitems⟩ s₂ hk
    exact ensures_setLeaves hk
  | internal =>
    refine (ensures_internalNode hk).bind ?_
    rintro ⟨par, items⟩ s₁ hk
    exact ensures_setInternal (ensures_copyFrom hk _) fun _ => .inl rfl

theorem ensures_moveTo (hk : Keeps root N D C s) (T : NodeType) :
    Ensures (moveTo T this other) s fun rc s' =>
      (rc = .success ∨ rc = .ioerrRead) ∧ Keeps root N D (this :: other :: C) s' := by
  unfold moveTo
  cases T with
  | leaf =>
    refine (ensures_leafNode hk).bind ?_
    rintro ⟨par, next, items⟩ s₁ hk
    refine (ensures_leafNode hk).bind ?_
    rintro ⟨opar, onext, oitems⟩ s₂ hk
    exact ensures_setLeaves hk
  | internal =>
    refine (ensures_internalNode hk).bind ?_
    rintro ⟨par, items⟩ s₁ hk
    exact ensures_setInternal (ensures_copyFrom hk _) fun _ => .inr rfl

theorem ensures_moveFirstToEnd (hk : Keeps root N D C s) (T : NodeType) :
    Ensures (moveFirstToEnd T this other) s fun rc s' =>
      (rc = .success ∨ rc = .ioerrRead) ∧ Keeps root N D (this :: other :: C) s' := by
  unfold moveFirstToEnd
  cases T with
  | leaf =>
    refine (ensures_leafNode hk).bind ?_
    rintro ⟨par, next, items⟩ s₁ hk
    refine (ensures_leafNode hk).bind ?_
    rintro ⟨opar, onext, oitems⟩ s₂ hk
    refine (ensures_itemAt hk _ _).bind fun item s₃ hk => ?_
    exact ensures_setLeaves hk
  | internal =>
    refine (ensures_internalNode hk).bind ?_
    rintro ⟨par, items⟩ s₁ hk
    refine (ensures_itemAt hk _ _).bind fun item s₂ hk => ?_
    exact ensures_setInternal (ensures_copyFrom hk _) fun _ => .inl rfl

theorem ensures_moveLastToFront (hk : Keeps root N D C s) (T : NodeType) :
    Ensures (moveLastToFront T this other) s fun rc s' =>
      (rc = .success ∨ rc = .ioerrRead) ∧ Keeps root N D (this :: other :: C) s' := by
  unfold moveLastToFront
  cases T with
  | leaf =>
    refine (ensures_leafNode hk).bind ?_
    rintro ⟨par, next, items⟩ s₁ hk
    refine (ensures_leafNode hk).bind ?_
    rintro ⟨opar, onext, oitems⟩ s₂ hk
    refine (ensures_itemAt hk _ _).bind fun item s₃ hk => ?_
    exact ensures_setLeaves hk
  | internal =>
    refine (ensures_internalNode hk).bind ?_
    rintro ⟨par, items⟩ s₁ hk
    refine (ensures_itemAt hk _ _).bind fun item s₂ hk => ?_
    exact ensures_setInternal (ensures_preappend hk _) fun _ => .inl rfl

theorem ensures_leafInsert (hk : Keeps root N D C s) (index : ℕ) (key : Key A) (rid : RID) :
    Ensures (leafInsert p index key rid) s fun _ s' => Keeps root N D (p :: C) s' := by
  unfold leafInsert
  refine (ensures_leafNode hk).bind ?_
  rintro ⟨par, next, items⟩ s₁ hk
  refine (ensures_insertItem hk _ _ _).bind fun items s₂ hk => ?_
  refine (ensures_setPage hk (by grind) (by rintro ⟨⟩)).mono fun _ s₃ hk => ?_
  exact hk.mono (by grind)

theorem ensures_internalInsert (hk : Keeps root N D C s) (key : Key A) (pageNum : PageNum) :
    Ensures (internalInsert h p key pageNum) s fun _ s' => Keeps root N D (p :: C) s' := by
  unfold internalInsert
  refine (ensures_internalNode hk).bind ?_
  rintro ⟨par, items⟩ s₁ hk
  refine (ensures_insertItem hk _ _ _).bind fun items s₂ hk => ?_
  refine (ensures_setPage hk (by grind) (by rintro ⟨⟩)).mono fun _ s₃ hk => ?_
  exact hk.mono (by grind)

theorem ensures_internalRemove (hk : Keeps root N D C s) (index : ℕ) :
    Ensures (internalRemove p index) s fun _ s' => Keeps root N D (p :: C) s' := by
  unfold internalRemove
  refine (ensures_internalNode hk).bind ?_
  rintro ⟨par, items⟩ s₁ hk
  refine (ensures_itemAt hk _ _).bind fun item s₂ hk => ?_
  refine (ensures_setPage hk (by grind) (by rintro ⟨⟩)).mono fun _ s₃ hk => ?_
  exact hk.mono (by grind)

theorem ensures_setKeyAt (hk : Keeps root N D C s) (index : ℕ) (key : Key A) :
    Ensures (setKeyAt p index key) s fun _ s' => Keeps root N D (p :: C) s' := by
  unfold setKeyAt
  refine (ensures_internalNode hk).bind ?_
  rintro ⟨par, items⟩ s₁ hk
  refine (ensures_itemAt hk _ _).bind fun item s₂ hk => ?_
  refine (ensures_setPage hk (by grind) (by rintro ⟨⟩)).mono fun _ s₃ hk => ?_
  exact hk.mono (by grind)

/-! ## Finding a leaf -/

theorem ensures_linkBound (hk : Keeps root N D C s) :
    Ensures linkBound s fun _ s' => Keeps root N D C s' :=
  (ensures_of_eq rfl).mpr hk

theorem ensures_descend {getter : List (Key A × PageNum) → TreeM A PageNum}
    (hgetter : ∀ {s : BplusTreeHandler A} (items), Keeps root [] [] [] s →
      Ensures (getter items) s fun _ s' => Keeps root [] [] [] s') :
    ∀ (fuel : ℕ) (frame : PageNum) {s : BplusTreeHandler A}, Keeps root [] [] [] s →
      Ensures (descend getter fuel frame) s fun _ s' => Keeps root [] [] [] s'
  | 0, frame, s, hk => ensures_throw
  | fuel + 1, frame, s, hk => by
    unfold descend
    refine (ensures_node hk).bind ?_
    rintro page _ ⟨rfl, -, -, -⟩
    split
    · refine (hgetter _ hk).bind fun nextPageId s₁ hk => ?_
      refine (ensures_unpinPage hk).bind fun _ s₂ hk => ?_
      refine (ensures_getThisPage hk).bind ?_
      rintro rc s₃ ⟨-, hk⟩
      split
      · exact ensures_pure.mpr hk
      · exact ensures_descend hgetter fuel nextPageId hk
    · exact ensures_pure.mpr hk

theorem ensures_findLeaf (hk : Keeps root [] [] [] s) (key : Key A) :
    Ensures (findLeaf h key) s fun _ s' => Keeps root [] [] [] s' := by
  unfold findLeaf findLeafInternal
  rw [ensures_bind, ensures_get]
  split
  · exact ensures_pure.mpr hk
  · refine (ensures_getThisPage hk).bind ?_
    rintro rc s₁ ⟨-, hk⟩
    split
    · exact ensures_pure.mpr hk
    · refine (ensures_linkBound hk).bind fun bound s₂ hk => ?_
      refine ensures_descend (fun items hk => ?_) _ _ hk
      exact (ensures_itemAt hk _ _).bind fun item s₃ hk => ensures_pure.mpr hk

/-! ## Insertion -/

theorem ensures_split (hk : Keeps root N D C s) (T : NodeType) :
    Ensures (split T p) s fun r s' => r.1.fail = true ∧ Keeps root N D C s' ∨
      r.1.fail = false ∧ Keeps root (p :: r.2 :: N) (p :: r.2 :: D) C s' := by
  unfold split
  refine (ensures_allocatePage hk).bind ?_
  rintro ⟨rc, newFrame⟩ s₁ (⟨hfail, hk⟩ | ⟨hrc, hone, hpage, hk⟩) <;> dsimp only at *
  · rw [if_pos hfail]
    exact ensures_pure.mpr (.inl ⟨hfail, hk⟩)
  · rw [if_neg (by simp [hrc])]
    refine (ensures_initEmpty hk hone hpage T).bind fun _ s₂ hk => ?_
    refine (ensures_node hk).bind ?_
    rintro old _ ⟨rfl, -, -, hk⟩
    refine (ensures_setParentPageNum hk _).bind fun _ s₃ hk => ?_
    refine (ensures_moveHalfTo hk T).bind ?_
    rintro rc' s₄ ⟨-, hk⟩
    refine (ensures_markDirty hk (by grind)).bind fun _ s₅ hk => ?_
    refine (ensures_markDirty hk (by grind)).bind fun _ s₆ hk => ?_
    exact ensures_pure.mpr (.inr ⟨rfl, hk.mono (by grind)⟩)

/-- Both nodes come in marked. -/
theorem ensures_insertEntryIntoParent : ∀ (fuel : ℕ) (frame newFrame : PageNum) (key : Key A)
    {s : BplusTreeHandler A}, Keeps root [frame, newFrame] [frame, newFrame] [] s →
    Ensures (insertEntryIntoParent h fuel frame newFrame key) s fun _ s' => Keeps root [] [] [] s'
  | 0, _, _, _, s, hk => ensures_throw
  | fuel + 1, frame, newFrame, key, s, hk => by
    unfold insertEntryIntoParent
    refine (ensures_node hk).bind ?_
    rintro page _ ⟨rfl, -, -, -⟩
    dsimp only
    split
    · -- no parent: a new root is created and marked
      refine (ensures_allocatePage hk).bind ?_
      rintro ⟨rc, rootFrame⟩ s₁ (⟨hfail, hk⟩ | ⟨hrc, hone, hpage, hk⟩) <;> dsimp only at *
      · rw [if_pos hfail]
        exact ensures_pure.mpr (hk.forget (by grind))
      · rw [if_neg (by simp [hrc])]
        refine (ensures_initEmpty hk hone hpage _).bind fun _ s₂ hk => ?_
        refine (ensures_setPage hk (by grind) (by rintro ⟨⟩)).bind fun _ s₃ hk => ?_
        refine (ensures_setParentPageNum hk _).bind fun _ s₄ hk => ?_
        refine (ensures_setParentPageNum hk _).bind fun _ s₅ hk => ?_
        refine (ensures_markDirty hk (by grind)).bind fun _ s₆ hk => ?_
        refine (ensures_markDirty hk (by grind)).bind fun _ s₇ hk => ?_
        refine (ensures_unpinPage hk).bind fun _ s₈ hk => ?_
        refine (ensures_unpinPage hk).bind fun _ s₉ hk => ?_
        refine (ensures_updateRootPageNum hk).bind fun _ s₁₀ hk => ?_
        refine (ensures_markDirty hk (by grind)).bind fun _ s₁₁ hk => ?_
        refine (ensures_unpinPage hk).bind fun _ s₁₂ hk => ?_
        exact ensures_pure.mpr (hk.forget (by grind))
    · refine (ensures_getThisPage hk).bind ?_
      rintro rc s₁ ⟨-, hk⟩
      split
      · exact ensures_pure.mpr (hk.forget (by grind))
      refine (ensures_internalNode hk).bind ?_
      rintro ⟨_, parentItems⟩ s₂ hk
      split
      · -- the parent has room
        refine (ensures_internalInsert hk key newFrame).bind fun _ s₃ hk => ?_
        refine (ensures_setParentPageNum hk _).bind fun _ s₄ hk => ?_
        refine (ensures_markDirty hk (by grind)).bind fun _ s₅ hk => ?_
        refine (ensures_markDirty hk (by grind)).bind fun _ s₆ hk => ?_
        refine (ensures_markDirty hk (by grind)).bind fun _ s₇ hk => ?_
        refine (ensures_unpinPage hk).bind fun _ s₈ hk => ?_
        refine (ensures_unpinPage hk).bind fun _ s₉ hk => ?_
        refine (ensures_unpinPage hk).bind fun _ s₁₀ hk => ?_
        exact ensures_pure.mpr (hk.forget (by grind))
      · -- the parent is split: `split` marks both halves
        refine (ensures_split hk .internal).bind ?_
        rintro ⟨rc, newParentFrame⟩ s₃ (⟨hfail, hk⟩ | ⟨hrc, hk⟩) <;> dsimp only at *
        · rw [if_pos hfail]
          refine (ensures_unpinPage hk).bind fun _ s₄ hk => ?_
          refine (ensures_unpinPage hk).bind fun _ s₅ hk => ?_
          refine (ensures_unpinPage hk).bind fun _ s₆ hk => ?_
          exact ensures_pure.mpr (hk.forget (by grind))
        · rw [if_neg (by simp [hrc])]
          refine (ensures_internalNode hk).bind ?_
          rintro ⟨_, newItems⟩ s₄ hk
          refine (ensures_itemAt hk _ _).bind fun first s₅ hk => ?_
          have hrest : ∀ {s : BplusTreeHandler A},
              Keeps root [page.parent, newParentFrame] [page.parent, newParentFrame] [] s →
              Ensures (do
                unpinPage frame
                unpinPage newFrame
                let newNode ← internalNode newParentFrame
                let first ← itemAt newNode.2 0
                insertEntryIntoParent h fuel page.parent newParentFrame first.1) s
                fun _ s' => Keeps root [] [] [] s' := by
            intro s hk
            refine (ensures_unpinPage hk).bind fun _ s₁ hk => ?_
            refine (ensures_unpinPage hk).bind fun _ s₂ hk => ?_
            refine (ensures_internalNode hk).bind ?_
            rintro ⟨_, newItems⟩ s₃ hk
            refine (ensures_itemAt hk _ _).bind fun first s₄ hk => ?_
            exact ensures_insertEntryIntoParent fuel _ _ _ (hk.mono (by grind))
          split
          · refine (ensures_internalInsert hk key newFrame).bind fun _ s₆ hk => ?_
            refine (ensures_setParentPageNum hk _).bind fun _ s₇ hk => ?_
            exact hrest (hk.mono (by grind))
          · refine (ensures_internalInsert hk key newFrame).bind fun _ s₆ hk => ?_
            refine (ensures_setParentPageNum hk _).bind fun _ s₇ hk => ?_
            exact hrest (hk.mono (by grind))

theorem ensures_insertEntryIntoLeafNode (hk : Keeps root [] [] [] s) (frame : PageNum)
    (key : Key A) (rid : RID) : Ensures (insertEntryIntoLeafNode h frame key rid) s
      fun _ s' => Keeps root [] [] [] s' := by
  unfold insertEntryIntoLeafNode
  refine (ensures_leafNode hk).bind ?_
  rintro ⟨par, next, items⟩ s₁ hk
  dsimp only
  split
  · exact ensures_pure.mpr (hk.forget (by grind))
  split
  · refine (ensures_leafInsert hk _ _ _).bind fun _ s₂ hk => ?_
    refine (ensures_markDirty hk (by grind)).bind fun _ s₃ hk => ?_
    refine (ensures_unpinPage hk).bind fun _ s₄ hk => ?_
    exact ensures_pure.mpr (hk.forget (by grind))
  · refine (ensures_split hk .leaf).bind ?_
    rintro ⟨rc, newFrame⟩ s₂ (⟨hfail, hk⟩ | ⟨hrc, hk⟩) <;> dsimp only at *
    · rw [if_pos hfail]
      exact ensures_pure.mpr (hk.forget (by grind))
    · rw [if_neg (by simp [hrc])]
      refine (ensures_leafNode hk).bind ?_
      rintro ⟨par, next, items⟩ s₃ hk
      refine (ensures_leafNode hk).bind ?_
      rintro ⟨_, _, newItems⟩ s₄ hk
      refine (ensures_setPage hk (by grind) (by rintro ⟨⟩)).bind fun _ s₅ hk => ?_
      refine (ensures_setPage hk (by grind) (by rintro ⟨⟩)).bind fun _ s₆ hk => ?_
      have hrest : ∀ {s : BplusTreeHandler A}, Keeps root [frame, newFrame] [frame, newFrame] [] s →
          Ensures (do
            let newNode ← leafNode newFrame
            let first ← itemAt newNode.2.2 0
            insertEntryIntoParent h (← linkBound) frame newFrame first.1) s
            fun _ s' => Keeps root [] [] [] s' := by
        intro s hk
        refine (ensures_leafNode hk).bind ?_
        rintro ⟨_, _, newItems⟩ s₁ hk
        refine (ensures_itemAt hk _ _).bind fun first s₂ hk => ?_
        refine (ensures_linkBound hk).bind fun bound s₃ hk => ?_
        exact ensures_insertEntryIntoParent bound _ _ _ (hk.mono (by grind))
      split
      · refine (ensures_leafInsert hk _ _ _).bind fun _ s₇ hk => ?_
        exact hrest (hk.mono (by grind))
      · refine (ensures_leafInsert hk _ _ _).bind fun _ s₇ hk => ?_
        exact hrest (hk.mono (by grind))

theorem ensures_createNewTree (hk : Keeps root [] [] [] s) (key : Key A) (rid : RID) :
    Ensures (createNewTree key rid) s fun _ s' => Keeps root [] [] [] s' := by
  unfold createNewTree
  rw [ensures_bind, ensures_get]
  split
  · exact ensures_pure.mpr hk
  · refine (ensures_allocatePage hk).bind ?_
    rintro ⟨rc, frame⟩ s₁ (⟨hfail, hk⟩ | ⟨hrc, hone, hpage, hk⟩) <;> dsimp only at *
    · rw [if_pos hfail]
      exact ensures_pure.mpr hk
    · rw [if_neg (by simp [hrc])]
      refine (ensures_initEmpty hk hone hpage _).bind fun _ s₂ hk => ?_
      refine (ensures_leafInsert hk _ _ _).bind fun _ s₃ hk => ?_
      refine (ensures_updateRootPageNum hk).bind fun _ s₄ hk => ?_
      refine (ensures_markDirty hk (by grind)).bind fun _ s₅ hk => ?_
      refine (ensures_unpinPage hk).bind fun _ s₆ hk => ?_
      exact ensures_pure.mpr (hk.forget (by grind))

/-- An insertion leaves every page saved, whatever it returns. -/
theorem ensures_insertEntry (hk : Keeps root [] [] [] s) (attr : A) (rid : RID) :
    Ensures (insertEntry h attr rid) s fun _ s' => Keeps root [] [] [] s' := by
  unfold insertEntry
  rw [ensures_bind, ensures_get]
  split
  · exact ensures_createNewTree hk _ rid
  · refine (ensures_findLeaf hk _).bind ?_
    rintro ⟨rc, frame⟩ s₁ hk
    dsimp only
    split
    · exact ensures_pure.mpr hk
    · exact ensures_insertEntryIntoLeafNode hk frame _ rid


/-! ## Deletion -/

/-- The child that becomes the root loses its parent without a mark; nothing else changes. -/
theorem ensures_adjustRoot (hk : Keeps root [] [] [] s) (rootFrame : PageNum) :
    Ensures (adjustRoot rootFrame) s fun _ s' => Keeps root [] [] [] s' := by
  unfold adjustRoot
  refine (ensures_node hk).bind ?_
  rintro page _ ⟨rfl, -, -, hk⟩
  have hone : rootFrame ≠ 1 := hk.ne_one List.mem_cons_self
  split
  · refine (ensures_itemAt hk _ _).bind fun child s₁ hk => ?_
    refine (ensures_getThisPage hk).bind ?_
    rintro rc s₂ ⟨-, hk⟩
    split
    · refine (ensures_unpinPage hk).bind fun _ s₃ hk => ?_
      exact ensures_pure.mpr (hk.forget (by grind))
    · refine (ensures_setParentPageNum hk _).bind fun _ s₃ hk => ?_
      refine (ensures_unpinPage hk).bind fun _ s₄ hk => ?_
      refine (ensures_updateRootPageNum hk).bind fun _ s₅ hk => ?_
      refine (ensures_unpinPage hk).bind fun _ s₆ hk => ?_
      refine (ensures_disposePage hk hone (by simp)).bind ?_
      exact fun _ s₇ hk => ensures_pure.mpr hk
  · split
    · refine (ensures_markDirty hk (by grind)).bind fun _ s₁ hk => ?_
      refine (ensures_unpinPage hk).bind fun _ s₂ hk => ?_
      exact ensures_pure.mpr (hk.forget (by grind))
    · refine (ensures_updateRootPageNum hk).bind fun _ s₁ hk => ?_
      refine (ensures_unpinPage hk).bind fun _ s₂ hk => ?_
      refine (ensures_disposePage hk hone (by simp)).bind ?_
      exact fun _ s₃ hk => ensures_pure.mpr hk

theorem ensures_redistribute {neighborFrame frame parentFrame : PageNum}
    (hk : Keeps root [neighborFrame, frame, parentFrame] [] [] s) (T : NodeType) (index : ℕ) :
    Ensures (redistribute T neighborFrame frame parentFrame index) s
      fun _ s' => Keeps root [] [] [] s' := by
  have hrest : ∀ {s : BplusTreeHandler A},
      Keeps root [neighborFrame, frame, parentFrame] [] [parentFrame, neighborFrame, frame] s →
      Ensures (do
        markDirty neighborFrame
        markDirty frame
        markDirty parentFrame
        unpinPage neighborFrame
        unpinPage frame
        unpinPage parentFrame
        return RC.success) s fun _ s' => Keeps root [] [] [] s' := by
    intro s hk
    refine (ensures_markDirty hk (by grind)).bind fun _ s₁ hk => ?_
    refine (ensures_markDirty hk (by grind)).bind fun _ s₂ hk => ?_
    refine (ensures_markDirty hk (by grind)).bind fun _ s₃ hk => ?_
    refine (ensures_unpinPage hk).bind fun _ s₄ hk => ?_
    refine (ensures_unpinPage hk).bind fun _ s₅ hk => ?_
    refine (ensures_unpinPage hk).bind fun _ s₆ hk => ?_
    exact ensures_pure.mpr (hk.forget (by grind))
  unfold redistribute
  split
  · refine (ensures_moveFirstToEnd hk T).bind ?_
    rintro rc s₁ ⟨-, hk⟩
    refine (ensures_node hk).bind ?_
    rintro page _ ⟨rfl, -, -, hk⟩
    refine (ensures_itemAt hk _ _).bind fun first s₂ hk => ?_
    refine (ensures_setKeyAt hk _ _).bind fun _ s₃ hk => ?_
    exact hrest (hk.mono (by grind))
  · refine (ensures_moveLastToFront hk T).bind ?_
    rintro rc s₁ ⟨-, hk⟩
    refine (ensures_node hk).bind ?_
    rintro page _ ⟨rfl, -, -, hk⟩
    refine (ensures_itemAt hk _ _).bind fun first s₂ hk => ?_
    refine (ensures_setKeyAt hk _ _).bind fun _ s₃ hk => ?_
    exact hrest (hk.mono (by grind))

theorem ensures_coalesce {neighborFrame frame parentFrame : PageNum} {recur : PageNum → TreeM A RC}
    (hrecur : ∀ {s : BplusTreeHandler A} (p), Keeps root [] [] [] s →
      Ensures (recur p) s fun rc s' => rc = .ioerrRead ∨ Keeps root [] [] [] s')
    (hk : Keeps root [neighborFrame, frame, parentFrame] [] [] s) (T : NodeType) (index : ℕ) :
    Ensures (coalesce recur T neighborFrame frame parentFrame index) s
      fun rc s' => rc = .ioerrRead ∨ Keeps root [] [] [] s' := by
  unfold coalesce
  generalize hsides : (if index = 0 then (frame, neighborFrame, index + 1)
    else (neighborFrame, frame, index)) = sides
  have hnodes : Keeps root [sides.1, sides.2.1, parentFrame] [] [] s := by
    rw [← hsides]
    split
    · exact hk.mono (by grind)
    · exact hk
  obtain ⟨leftFrame, rightFrame, index⟩ := sides
  dsimp only at hnodes ⊢
  have hone : rightFrame ≠ 1 := hnodes.ne_one (by grind)
  have hrest : ∀ {s : BplusTreeHandler A},
      Keeps root [leftFrame, rightFrame, parentFrame] [] [leftFrame, rightFrame, parentFrame] s →
      Ensures (do
        markDirty leftFrame
        markDirty parentFrame
        unpinPage leftFrame
        unpinPage rightFrame
        let _ ← disposePage rightFrame
        recur parentFrame) s fun rc s' => rc = .ioerrRead ∨ Keeps root [] [] [] s' := by
    intro s hk
    refine (ensures_markDirty hk (by grind)).bind fun _ s₁ hk => ?_
    refine (ensures_markDirty hk (by grind)).bind fun _ s₂ hk => ?_
    refine (ensures_unpinPage hk).bind fun _ s₃ hk => ?_
    refine (ensures_unpinPage hk).bind fun _ s₄ hk => ?_
    exact (ensures_disposePage hk hone (by grind)).bind fun _ s₅ hk => hrecur _ hk
  refine (ensures_internalRemove hnodes _).bind fun _ s₁ hk => ?_
  refine (ensures_moveTo hk T).bind ?_
  rintro rc s₂ ⟨hrc, hk⟩
  split
  · next hfail =>
    have hread : rc = .ioerrRead := by
      refine hrc.resolve_left ?_
      rintro rfl
      exact absurd hfail (by decide)
    refine (ensures_unpinPage hk).bind fun _ s₃ hk => ?_
    refine (ensures_unpinPage hk).bind fun _ s₄ hk => ?_
    refine (ensures_unpinPage hk).bind fun _ s₅ hk => ?_
    exact ensures_pure.mpr (.inl hread)
  split
  · refine (ensures_leafNode hk).bind ?_
    rintro ⟨par, _, items⟩ s₃ hk
    refine (ensures_leafNode hk).bind ?_
    rintro ⟨_, next, _⟩ s₄ hk
    refine (ensures_setPage hk (by grind) (by rintro ⟨⟩)).bind fun _ s₅ hk => ?_
    exact hrest (hk.mono (by grind))
  · exact hrest (hk.mono (by grind))

theorem ensures_coalesceOrRedistribute : ∀ (fuel : ℕ) (T : NodeType) (frame : PageNum)
    {s : BplusTreeHandler A}, Keeps root [] [] [] s →
    Ensures (coalesceOrRedistribute h fuel T frame) s
      fun rc s' => rc = .ioerrRead ∨ Keeps root [] [] [] s'
  | 0, _, _, s, hk => ensures_throw
  | fuel + 1, T, frame, s, hk => by
    unfold coalesceOrRedistribute
    refine (ensures_node hk).bind ?_
    rintro page _ ⟨rfl, -, -, hk⟩
    split
    · refine (ensures_unpinPage hk).bind fun _ s₁ hk => ?_
      exact ensures_pure.mpr (.inr (hk.forget (by grind)))
    dsimp only
    split
    · split
      · refine (ensures_unpinPage hk).bind fun _ s₁ hk => ?_
        exact ensures_pure.mpr (.inr (hk.forget (by grind)))
      · exact (ensures_adjustRoot (hk.forget (by grind)) frame).mono fun rc s₁ hk => .inr hk
    refine (ensures_getThisPage hk).bind ?_
    rintro rc s₁ ⟨-, hk⟩
    split
    · refine (ensures_unpinPage hk).bind fun _ s₂ hk => ?_
      exact ensures_pure.mpr (.inr (hk.forget (by grind)))
    refine (ensures_internalNode hk).bind ?_
    rintro ⟨_, parentItems⟩ s₂ hk
    refine (ensures_itemAt hk _ _).bind fun lastKey s₃ hk => ?_
    refine (ensures_itemAt hk _ _).bind fun item s₄ hk => ?_
    split
    · exact ensures_throw.bind fun _ _ h => h
    -- both siblings are balanced in the same way
    have hrest : ∀ (neighborPageNum : PageNum) (index : ℕ) {s : BplusTreeHandler A},
        Keeps root [page.parent, frame] [] [] s →
        Ensures (do
          let rc ← getThisPage neighborPageNum
          if rc.fail then
            unpinPage frame
            unpinPage page.parent
            return rc
          let neighborNode ← node neighborPageNum
          if page.maxSize h < page.size + neighborNode.size then
            redistribute T neighborPageNum frame page.parent index
          else
            coalesce (coalesceOrRedistribute h fuel .internal) T neighborPageNum frame page.parent
              index) s fun rc s' => rc = .ioerrRead ∨ Keeps root [] [] [] s' := by
      intro neighborPageNum index s hk
      refine (ensures_getThisPage hk).bind ?_
      rintro rc s₁ ⟨-, hk⟩
      split
      · refine (ensures_unpinPage hk).bind fun _ s₂ hk => ?_
        refine (ensures_unpinPage hk).bind fun _ s₃ hk => ?_
        exact ensures_pure.mpr (.inr (hk.forget (by grind)))
      refine (ensures_node hk).bind ?_
      rintro neighbor _ ⟨rfl, -, -, hk⟩
      have hk : Keeps root [neighborPageNum, frame, page.parent] [] [] _ := hk.mono (by grind)
      split
      · exact (ensures_redistribute hk T index).mono fun rc s₂ hk => .inr hk
      · exact ensures_coalesce (fun p hk => ensures_coalesceOrRedistribute fuel .internal p hk) hk T
          index
    split
    · exact (ensures_itemAt hk _ _).bind fun neighbor s₅ hk => hrest _ _ hk
    · exact (ensures_itemAt hk _ _).bind fun neighbor s₅ hk => hrest _ _ hk

theorem ensures_deleteEntryInternal (hk : Keeps root [] [] [] s) (leafFrame : PageNum)
    (key : Key A) : Ensures (deleteEntryInternal h leafFrame key) s
      fun rc s' => rc = .ioerrRead ∨ Keeps root [] [] [] s' := by
  unfold deleteEntryInternal
  refine (ensures_leafNode hk).bind ?_
  rintro ⟨par, next, items⟩ s₁ hk
  dsimp only
  split
  · refine (ensures_unpinPage hk).bind fun _ s₂ hk => ?_
    exact ensures_pure.mpr (.inr (hk.forget (by grind)))
  refine (ensures_itemAt hk _ _).bind fun item s₂ hk => ?_
  refine (ensures_setPage hk (by grind) (by rintro ⟨⟩)).bind fun _ s₃ hk => ?_
  refine (ensures_markDirty hk (by grind)).bind fun _ s₄ hk => ?_
  refine (ensures_node hk).bind ?_
  rintro leaf _ ⟨rfl, -, -, hk⟩
  split
  · refine (ensures_unpinPage hk).bind fun _ s₅ hk => ?_
    exact ensures_pure.mpr (.inr (hk.forget (by grind)))
  · refine (ensures_linkBound hk).bind fun bound s₅ hk => ?_
    exact ensures_coalesceOrRedistribute bound .leaf leafFrame (hk.forget (by grind))

/-- A deletion leaves every page saved, unless it stops at a page that cannot be read. -/
theorem ensures_deleteEntry (hk : Keeps root [] [] [] s) (attr : A) (rid : RID) :
    Ensures (deleteEntry h attr rid) s
      fun rc s' => rc = .ioerrRead ∨ Keeps root [] [] [] s' := by
  unfold deleteEntry
  refine (ensures_findLeaf hk _).bind ?_
  rintro ⟨rc, leafFrame⟩ s₁ hk
  dsimp only
  split
  · exact ensures_pure.mpr (.inr hk)
  split
  · exact ensures_pure.mpr (.inr hk)
  · exact ensures_deleteEntryInternal hk leafFrame _

end BplusTreeHandler

end TDB
