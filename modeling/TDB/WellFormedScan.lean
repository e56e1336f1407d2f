import TDB.IndexRuns
import TDB.WellFormedDescent

namespace TDB

open BplusTreeHandler BplusTreeScanner Exec

variable {A : Type} {h : IndexFileHeader A} {s : BplusTreeHandler A}

/-! ## The pages of a tree -/

section inFile

theorem Above.child_mem : ∀ {levs : List (Level A)} {cur : List (Child A)} {lev : Level A}
    {y : Inner A} {c : Child A}, Above h s cur levs → lev ∈ levs → y ∈ lev → c ∈ y.kids →
    c.2 ∈ childPages cur ++ levelPages levs
  | lev' :: rest, cur, lev, y, c, ⟨hkids, _, habove⟩, hlev, hy, hc => by
    rcases List.mem_cons.mp hlev with rfl | hlev
    · refine List.mem_append_left _ (mem_childPages.mpr ⟨c, ?_, rfl⟩)
      rw [← hkids]
      exact List.mem_flatMap.mpr ⟨y, hy, hc⟩
    · have hmem := habove.child_mem hlev hy hc
      rw [childPages_heads_append_levelPages] at hmem
      exact List.mem_append_right _ hmem

variable [LinearOrder (Key A)] {r : Regime A} {lo leafLo : ℕ}

theorem Shape.pagesUnder_subset {leaves : List (Leaf A)} {levs : List (Level A)}
    (ht : Shape h r s lo leaves levs) (depth : ℕ) {p : PageNum}
    (hp : p ∈ childPages (leafHeads leaves) ++ levelPages levs) :
    ∀ q ∈ pagesUnder s depth p, q ∈ childPages (leafHeads leaves) ++ levelPages levs := by
  induction depth generalizing p with
  | zero =>
    intro q hq
    rwa [List.mem_singleton.mp hq]
  | succ depth ih =>
    intro q hq
    unfold pagesUnder at hq
    split at hq
    · next parent items hpage =>
      rcases List.mem_cons.mp hq with rfl | hq
      · exact hp
      · obtain ⟨item, hitem, hq⟩ := List.mem_flatMap.mp hq
        refine ih ?_ q hq
        rcases List.mem_append.mp hp with hleaf | hnode
        · obtain ⟨c, hc, rfl⟩ := mem_childPages.mp hleaf
          obtain ⟨l, hl, rfl⟩ := List.mem_map.mp hc
          obtain ⟨pre, post, rfl⟩ := List.append_of_mem hl
          obtain ⟨par, next, -, hpage', -⟩ := ht.page_leaf
          rw [asChild_snd, hpage'] at hpage
          cases hpage
        · obtain ⟨lev, hlev, hy⟩ := List.mem_flatMap.mp hnode
          obtain ⟨y, hmem, rfl⟩ := List.mem_map.mp hy
          have hbody := (ht.isOver.above.nodeAt hlev hmem).body
          have hkids : items = stored h y.kids := by
            rw [body, hpage] at hbody
            simpa [Page.setParent] using hbody
          rw [hkids] at hitem
          obtain ⟨c, hc, rfl⟩ := List.mem_map.mp hitem
          exact ht.isOver.above.child_mem hlev hmem hc
    · rwa [List.mem_singleton.mp hq]

theorem Index.inFile {es : List (Key A × RID)} (hi : Index h r lo leafLo s es)
    (hroot : s.rootPage ≠ invalidPageNum) : InFile s := by
  obtain ⟨leaves, levs, ht, -⟩ := hi.resolve_left fun hempty => hroot hempty.1
  exact fun depth p hp => ht.isOver.inFile
    (ht.pagesUnder_subset depth ht.isOver.above.rootPage_mem p hp)

end inFile

/-! ## Scans with bounds -/

def inRange (h : IndexFileHeader A) (left right : Option (Bound A)) (attr : A) : Bool :=
  (left.all fun l => if l.inclusive then decide (h.keyComparator.attrComparator l.userKey attr ≤ 0)
    else decide (h.keyComparator.attrComparator l.userKey attr < 0)) &&
  right.all fun r => if r.inclusive then decide (h.keyComparator.attrComparator attr r.userKey ≤ 0)
    else decide (h.keyComparator.attrComparator attr r.userKey < 0)

/-- Bounds in order: left before right, or both at one included value. -/
def BoundsOk (h : IndexFileHeader A) (left right : Option (Bound A)) : Prop :=
  ∀ l ∈ left, ∀ r ∈ right, h.keyComparator.attrComparator l.userKey r.userKey < 0 ∨
    h.keyComparator.attrComparator l.userKey r.userKey = 0 ∧ l.inclusive = true ∧
      r.inclusive = true

theorem badRange_eq_false {left right : Option (Bound A)} (hb : BoundsOk h left right) :
    badRange h left right = false := by
  unfold badRange
  split
  · next l r =>
    rcases hb l rfl r rfl with hlt | ⟨hzero, hl, hr⟩
    · have hpos : ¬ h.keyComparator.attrComparator l.userKey r.userKey > 0 := by omega
      simp [hlt.ne, hpos]
    · simp [hzero, hl, hr]
  · rfl

theorem RID.compare_min_le (rid : RID) : RID.compare RID.min rid ≤ 0 := by
  unfold RID.compare RID.min
  simp only [Fin.val_zero]
  split_ifs <;> omega

theorem RID.compare_min_pos {rid : RID} (hrid : 1 ≤ rid.pageNum.val) :
    0 < RID.compare rid RID.min := by
  unfold RID.compare RID.min
  simp only [Fin.val_zero]
  split_ifs <;> omega

theorem RID.compare_max_le (rid : RID) : RID.compare rid RID.max ≤ 0 := by
  have hp := rid.pageNum.isLt
  have hs := rid.slotNum.isLt
  unfold RID.compare RID.max
  dsimp only
  split_ifs <;> omega

theorem RID.compare_max_pos {rid : RID} (hrid : rid ≠ RID.max) :
    0 < RID.compare RID.max rid := by
  have hp := rid.pageNum.isLt
  have hs := rid.slotNum.isLt
  have hne : rid.pageNum.val ≠ 2 ^ 31 - 1 ∨ rid.slotNum.val ≠ 2 ^ 31 - 1 := by
    by_contra hnot
    rw [not_or, not_not, not_not] at hnot
    refine hrid ?_
    obtain ⟨p, q⟩ := rid
    exact congrArg₂ RID.mk (Fin.ext hnot.1) (Fin.ext hnot.2)
  unfold RID.compare RID.max
  dsimp only
  split_ifs <;> omega

theorem compare_eq (h : IndexFileHeader A) (a b : Key A) : h.compare a b =
    if h.keyComparator.attrComparator a.attr b.attr ≠ 0 then
      h.keyComparator.attrComparator a.attr b.attr
    else RID.compare a.rid b.rid := rfl

variable [LinearOrder (Key A)]

theorem betweenKeys_eq_inRange (hh : h.Orders) {x : Key A × RID} {left right : Option (Bound A)}
    (hmin : ∀ r ∈ right, r.inclusive = false → 1 ≤ x.1.rid.pageNum.val)
    (hmax : ∀ l ∈ left, l.inclusive = false → x.1.rid ≠ RID.max) :
    betweenKeys (left.map leftKey) (right.map rightKeyOf) x = inRange h left right x.1.attr := by
  have hleft : ∀ l ∈ left, decide (leftKey l ≤ x.1) =
      if l.inclusive then decide (h.keyComparator.attrComparator l.userKey x.1.attr ≤ 0)
      else decide (h.keyComparator.attrComparator l.userKey x.1.attr < 0) := by
    intro l hl
    unfold leftKey
    cases hincl : l.inclusive with
    | true =>
      have hrid := RID.compare_min_le x.1.rid
      simp only [↓reduceIte, decide_eq_decide]
      rw [← hh.le_iff, compare_eq]
      dsimp only
      split_ifs <;> omega
    | false =>
      have hrid := RID.compare_max_pos (hmax l hl hincl)
      simp only [Bool.false_eq_true, ↓reduceIte, decide_eq_decide]
      rw [← hh.le_iff, compare_eq]
      dsimp only
      split_ifs <;> omega
  have hright : ∀ r ∈ right, decide (x.1 ≤ rightKeyOf r) =
      if r.inclusive then decide (h.keyComparator.attrComparator x.1.attr r.userKey ≤ 0)
      else decide (h.keyComparator.attrComparator x.1.attr r.userKey < 0) := by
    intro r hr
    unfold rightKeyOf
    cases hincl : r.inclusive with
    | true =>
      have hrid := RID.compare_max_le x.1.rid
      simp only [↓reduceIte, decide_eq_decide]
      rw [← hh.le_iff, compare_eq]
      dsimp only
      split_ifs <;> omega
    | false =>
      have hrid := RID.compare_min_pos (hmin r hr hincl)
      simp only [Bool.false_eq_true, ↓reduceIte, decide_eq_decide]
      rw [← hh.le_iff, compare_eq]
      dsimp only
      split_ifs <;> omega
  unfold betweenKeys withinRight inRange
  rw [Option.all_map, Option.all_map]
  refine congrArg₂ (· && ·) ?_ ?_
  · cases left with
    | none => rfl
    | some l => exact hleft l rfl
  · cases right with
    | none => rfl
    | some r => exact hright r rfl

theorem attrComparator_self (hh : h.Orders) (attr : A) :
    h.keyComparator.attrComparator attr attr = 0 := by
  have hzero := (hh.eq_iff ⟨attr, RID.min⟩ ⟨attr, RID.min⟩).mpr rfl
  rw [compare_eq] at hzero
  by_contra hne
  rw [if_pos hne] at hzero
  exact hne hzero

/-- Between the least and the greatest key with an attribute lie the entries that have it. -/
theorem betweenKeys_attr (hh : h.Orders) (attr : A) (x : Key A × RID) :
    betweenKeys (some ⟨attr, RID.min⟩) (some ⟨attr, RID.max⟩) x = true ↔ x.1.attr = attr := by
  have hmin := RID.compare_min_le x.1.rid
  have hmax := RID.compare_max_le x.1.rid
  have hdecided : betweenKeys (some ⟨attr, RID.min⟩) (some ⟨attr, RID.max⟩) x = true ↔
      h.compare ⟨attr, RID.min⟩ x.1 ≤ 0 ∧ h.compare x.1 ⟨attr, RID.max⟩ ≤ 0 := by
    rw [hh.le_iff, hh.le_iff]
    simp [betweenKeys, withinRight]
  rw [hdecided]
  constructor
  · rintro ⟨hleft, hright⟩
    by_cases hzero : h.keyComparator.attrComparator attr x.1.attr = 0
    · have heq := (hh.eq_iff ⟨attr, RID.min⟩ ⟨x.1.attr, RID.min⟩).mp (by
        rw [compare_eq, if_neg (by simpa using hzero)]
        rfl)
      exact (congrArg Key.attr heq).symm
    · -- a smaller attribute puts every key with it below the entry
      rw [compare_eq, if_pos hzero] at hleft
      have hlt := (hh.lt_iff ⟨attr, RID.max⟩ x.1).mp (by
        rw [compare_eq, if_pos hzero]
        dsimp only at hleft ⊢
        omega)
      exact absurd ((hh.le_iff _ _).mp hright) hlt.not_ge
  · intro heq
    rw [compare_eq, compare_eq, heq]
    simp only [attrComparator_self hh, ne_eq, not_true_eq_false, ↓reduceIte]
    exact ⟨hmin, hmax⟩

/-- Scanning a range returns the entries in it, in key order, and then the end. -/
theorem returns_scan_inRange (hh : h.Orders) (hw : WellFormed h s True) (hfile : InFile s)
    (hroot : s.rootPage ≠ invalidPageNum)
    (hrids : ∀ x ∈ entries s, 1 ≤ x.1.rid.pageNum.val ∧ x.1.rid ≠ RID.max)
    {left right : Option (Bound A)} (hbounds : BoundsOk h left right) :
    ((entries s).Pairwise fun a b => a.1 < b.1) ∧
      Returns (openScan h new left right) s fun r s₁ => r.1 = .success ∧
        ∀ fuel > (entries s).length, Returns (drain h fuel r.2) s₁ fun r _ =>
          r.1 = .recordEof ∧
            r.2.1 = ((entries s).filter fun x => inRange h left right x.1.attr).map Prod.snd := by
  obtain ⟨row, hr, hrow⟩ := hw.readable hh hroot hfile
  have hfilter : (entries s).filter (betweenKeys (left.map leftKey) (right.map rightKeyOf)) =
      (entries s).filter fun x => inRange h left right x.1.attr :=
    List.filter_congr fun x hx => betweenKeys_eq_inRange hh (fun _ _ _ => (hrids x hx).1)
      fun _ _ _ => (hrids x hx).2
  refine ⟨hrow ▸ hr.increasing, ?_⟩
  unfold openScan
  simp only [new, Bool.false_eq_true, ↓reduceIte, badRange_eq_false hbounds]
  rw [← hfilter, ← hrow]
  exact hr.returns_scanKeys hh _ _

theorem scan_insertNegatives : ∃ s,
    runServed (columnIndex 4 6 4) (insertNegatives 9) created = some s ∧
      ((entries s).Pairwise fun a b => a.1 < b.1) ∧
      Returns (openScan (columnIndex 4 6 4) new (some ⟨-7, false⟩) (some ⟨-2, true⟩)) s
        fun r s₁ => r.1 = .success ∧ ∀ fuel > (entries s).length,
          Returns (drain (columnIndex 4 6 4) fuel r.2) s₁ fun r _ => r.1 = .recordEof ∧
            r.2.1 = ((entries s).filter fun x =>
              inRange (columnIndex 4 6 4) (some ⟨-7, false⟩) (some ⟨-2, true⟩) x.1.attr).map
                Prod.snd := by
  have hrun : (runServed (columnIndex 4 6 4) (insertNegatives 9) created).any (fun s =>
      decide (s.rootPage ≠ invalidPageNum ∧
        ∀ x ∈ entries s, 1 ≤ x.1.rid.pageNum.val ∧ x.1.rid ≠ RID.max)) = true := by
    decide +kernel
  obtain ⟨s, hs, hcond⟩ := (Option.any_eq_true _ _).mp hrun
  obtain ⟨hroot, hrids⟩ := of_decide_eq_true hcond
  have hh := columnIndex_orders 4 6 4
  have hf : Fanout (columnIndex 4 6 4) anyKeys 3 2 := fanout_of_sizes (by decide) (by decide)
  obtain ⟨es, hi⟩ := index_of_served hh hf rfl (reflTransGen_runServed hs)
  refine ⟨s, hs, returns_scan_inRange hh (hi.wellFormed hh rfl hf.sizes.pos) (hi.inFile hroot)
    hroot hrids ?_⟩
  intro l hl r hr
  obtain rfl := Option.some.inj hl
  obtain rfl := Option.some.inj hr
  exact .inl (by decide)

/-- The one stored `RID` is the one an excluded left bound is made with: the scan returns the entry
whose attribute is the bound. -/
theorem not_scan_inRange_ridMax : ∃ s,
    runServed (columnIndex 4 6 4) [.insertEntry 5 RID.max] created = some s ∧
      WellFormed (columnIndex 4 6 4) s True ∧ InFile s ∧ s.rootPage ≠ invalidPageNum ∧
      (∀ x ∈ entries s, 1 ≤ x.1.rid.pageNum.val) ∧
      ((entries s).filter fun x => inRange (columnIndex 4 6 4) (some ⟨5, false⟩) none x.1.attr) =
        [] ∧
      Returns (openScan (columnIndex 4 6 4) new (some ⟨5, false⟩) none) s fun r s₁ =>
        Returns (drain (columnIndex 4 6 4) 3 r.2) s₁ fun r _ =>
          r.1 = .recordEof ∧ r.2.1 = [RID.max] := by
  have hrun : (runServed (columnIndex 4 6 4) [.insertEntry 5 RID.max] created).any (fun s =>
      decide (s.rootPage ≠ invalidPageNum ∧ (∀ x ∈ entries s, 1 ≤ x.1.rid.pageNum.val) ∧
        ((entries s).filter fun x =>
          inRange (columnIndex 4 6 4) (some ⟨5, false⟩) none x.1.attr) = [] ∧
        Returns (openScan (columnIndex 4 6 4) new (some ⟨5, false⟩) none) s fun r s₁ =>
          Returns (drain (columnIndex 4 6 4) 3 r.2) s₁ fun r _ =>
            r.1 = .recordEof ∧ r.2.1 = [RID.max])) = true := by
    decide +kernel
  obtain ⟨s, hs, hcond⟩ := (Option.any_eq_true _ _).mp hrun
  obtain ⟨hroot, hrids, hfilter, hscan⟩ := of_decide_eq_true hcond
  have hh := columnIndex_orders 4 6 4
  have hf : Fanout (columnIndex 4 6 4) anyKeys 3 2 := fanout_of_sizes (by decide) (by decide)
  obtain ⟨es, hi⟩ := index_of_served hh hf rfl (reflTransGen_runServed hs)
  exact ⟨s, hs, hi.wellFormed hh rfl hf.sizes.pos, hi.inFile hroot, hroot, hrids, hfilter, hscan⟩

end TDB
