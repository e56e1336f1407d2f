import TDB.ScanDelete

namespace TDB

open BplusTreeHandler BplusTreeScanner Exec

variable {A : Type} [LinearOrder (Key A)] {h : IndexFileHeader A} {r : Regime A}
  {s s' : BplusTreeHandler A} {lo leafLo : ℕ} {es rem : List (Key A × RID)}
  {sc : BplusTreeScanner A}

/-! ## Scanners over an index -/

/-- The scanner has the entries `rem` before it, on leaves that stand on their pages. -/
def StandsBefore (s : BplusTreeHandler A) (sc : BplusTreeScanner A) (rem : List (Key A × RID)) :
    Prop :=
  sc.currentFrame = none ∧ rem = [] ∨ ∃ row, RowOnPages s row ∧ Scans row sc rem

theorem StandsBefore.returns_nextEntry (hh : h.Orders) (hb : StandsBefore s sc rem)
    (isDelete : Bool) :
    Returns (nextEntry h sc isDelete) s fun r s' => s'.page = s.page ∧
      Quiet s s' (held r.2.2 - held sc) ∧ ∃ rem', StandsBefore s' r.2.2 rem' := by
  rcases hb with ⟨hframe, rfl⟩ | ⟨row, hrow, hscans⟩
  · unfold nextEntry nextEntryLoop
    simp only [returns_bind, returns_linkBound, hframe, returns_pure, true_and]
    exact ⟨(Quiet.refl s).congr (by simp), [], .inl ⟨hframe, rfl⟩⟩
  · refine (hrow.returns_nextEntry hh hscans isDelete).mono ?_
    rintro r s' he
    have hrow' := hrow.congr he.quiet he.page
    refine ⟨he.page, he.quiet, ?_⟩
    rcases he.result with ⟨-, -, -, hended⟩ | ⟨pre, l, post, i, x, heq, hx, -, -, rfl⟩
    · exact ⟨[], .inr ⟨row, hrow', hended⟩⟩
    · have hlt := (List.getElem?_eq_some_iff.mp hx).1
      refine ⟨_, .inr ⟨row, hrow', .within heq rfl ?_ fun hfalse => by cases hfalse⟩⟩
      dsimp only
      split <;> omega

theorem StandsBefore.returns_closeScan (hb : StandsBefore s sc rem) :
    Returns (closeScan sc) s fun _ s' => s'.page = s.page ∧ Quiet s s' (-held sc) := by
  unfold closeScan
  cases hframe : sc.currentFrame with
  | none =>
    simp only [returns_pure, true_and]
    exact (Quiet.refl s).congr (by simp [held, hframe])
  | some p =>
    have hp : s.page p ≠ none := by
      rcases hb with ⟨hnone, -⟩ | ⟨row, hrow, hscans⟩
      · rw [hframe] at hnone
        cases hnone
      · cases hscans with
        | ended hnone =>
          rw [hframe] at hnone
          cases hnone
        | @within pre post l heq hsome =>
          rw [hframe] at hsome
          obtain rfl := Option.some.inj hsome
          obtain ⟨parent, hpage⟩ := hrow.leaf pre l post heq
          simp [hpage]
    simp only [returns_bind, returns_unpinPage, returns_pure, page_unpin, true_and]
    exact (Quiet.unpin hp).congr (by simp [held, hframe])

/-- Opening a scan at the left key keeps the pin of the leaf the key is looked up in. -/
def keepsLeaf (h : IndexFileHeader A) (s : BplusTreeHandler A) (left : Option (Key A)) : Bool :=
  !s.isEmpty && left.any (fallsPastLeaf h s)

theorem Index.returns_openKeys (hh : h.Orders) (hc : r.chained) (hpos : 1 ≤ leafLo)
    (hi : Index h r lo leafLo s es) (left right : Option (Key A)) :
    Returns (openKeys h sc left right) s fun r s' => (left ≠ none → r.1 = .success) ∧
      s'.page = s.page ∧ StandsBefore s' r.2 (es.filter (betweenKeys left right)) ∧
      ∃ p, Quiet s s' (held r.2 + if keepsLeaf h s left then ref p else 0) := by
  unfold keepsLeaf
  rcases hi with ⟨hroot, rfl⟩ | ⟨leaves, levs, ht, rfl⟩
  · have hempty : s.isEmpty = true := decide_eq_true hroot
    have hfind : ∀ getter : List (Key A × PageNum) → TreeM A PageNum,
        findLeafInternal getter s = .ok ((.empty, invalidPageNum), s) := by
      intro getter
      unfold findLeafInternal
      change (if s.isEmpty = true then _ else _ : TreeM A (RC × PageNum)) s = _
      rw [if_pos hempty]
      rfl
    have hquiet : Quiet s s (held { sc with currentFrame := none } + 0) :=
      (Quiet.refl s).congr (by simp [held])
    unfold openKeys
    cases left with
    | none =>
      unfold leftMostPage
      rw [returns_bind, returns_of_eq (hfind _)]
      simp only [RC.fail, bne_iff_ne, ne_eq, reduceCtorEq, not_false_eq_true, ↓reduceIte,
        returns_pure, not_true_eq_false, false_implies, true_and, hempty, Bool.not_true,
        Bool.false_and, Bool.false_eq_true]
      exact ⟨.inl ⟨rfl, rfl⟩, invalidPageNum, hquiet⟩
    | some key =>
      unfold BplusTreeHandler.findLeaf
      rw [returns_bind, returns_of_eq (hfind _)]
      simp only [↓reduceIte, returns_pure, true_and, hempty, Bool.not_true, Bool.false_and,
        Bool.false_eq_true, implies_true]
      exact ⟨.inl ⟨rfl, rfl⟩, invalidPageNum, hquiet⟩
  · have hr := ht.readable hh hc hpos
    refine (hr.returns_openKeys hh left right).mono ?_
    rintro res s' ⟨hrc, hpage, hscans, p, hquiet⟩
    rw [rowEntries_leafRow] at hscans
    rw [ht.isOver.isEmpty_eq, Bool.not_false, Bool.true_and]
    exact ⟨fun _ => hrc, hpage, .inr ⟨_, hr.toRowOnPages.congr hquiet hpage, hscans⟩, p, hquiet⟩

/-! ## `get_entry` -/

/-- The loop over `next_entry` from a scanner of an index. -/
theorem StandsBefore.returns_drain (hh : h.Orders) (hb : StandsBefore s sc rem) {fuel : ℕ}
    (hfuel : rem.length < fuel) :
    Returns (drain h fuel sc) s fun r s' => r.1 = .recordEof ∧ r.2.1 = rem.map Prod.snd ∧
      s'.page = s.page ∧ Quiet s s' (held r.2.2 - held sc) ∧ StandsBefore s' r.2.2 [] := by
  rcases hb with ⟨hframe, rfl⟩ | ⟨row, hrow, hscans⟩
  · obtain ⟨fuel, rfl⟩ := Nat.exists_eq_add_of_lt hfuel
    unfold drain nextEntry nextEntryLoop
    simp only [returns_bind, returns_linkBound, hframe, returns_pure, List.map_nil, true_and]
    exact ⟨(Quiet.refl s).congr (by simp), .inl ⟨hframe, rfl⟩⟩
  · refine (hrow.returns_drain hh hscans hfuel).mono ?_
    rintro r s' ⟨hrc, hrids, hpage, hquiet, hended⟩
    exact ⟨hrc, hrids, hpage, hquiet, .inr ⟨row, hrow.congr hquiet hpage, hended⟩⟩

def withAttr (attr : A) : Key A × RID → Bool :=
  betweenKeys (some ⟨attr, RID.min⟩) (some ⟨attr, RID.max⟩)

/-- `get_entry` where its scan can be opened: `leaks` says whether that keeps a pin. -/
theorem returns_getEntry_of_openKeys (hh : h.Orders) {attr : A} (leaks : Bool)
    (hlength : es.length ≤ s.fileBufferPool.fileHeader.pageCount * h.leafMaxSize)
    (hopen : ∀ sc, Returns (openKeys h sc (some ⟨attr, RID.min⟩) (some ⟨attr, RID.max⟩)) s
      fun r s' => r.1 = .success ∧ s'.page = s.page ∧
        StandsBefore s' r.2 (es.filter (withAttr attr)) ∧
        ∃ p, Quiet s s' (held r.2 + if leaks then ref p else 0)) :
    Returns (getEntry h attr) s fun res s' =>
      res = (.success, (es.filter (withAttr attr)).map Prod.snd) ∧ s'.page = s.page ∧
      ∃ p, Quiet s s' (if leaks then ref p else 0) := by
  have hrange : badRange h (some (⟨attr, true⟩ : Bound A)) (some ⟨attr, true⟩) = false := by
    simp [badRange, attrComparator_self hh]
  have hfilter := List.length_filter_le (withAttr attr) es
  unfold getEntry openScan
  simp only [new, Bool.false_eq_true, ↓reduceIte, hrange, returns_bind]
  refine (hopen _).mono ?_
  rintro ⟨rc, sc⟩ s₁ ⟨hrc, hpage₁, hbefore, p, hquiet₁⟩
  obtain rfl : rc = .success := hrc
  simp only [fail_success, Bool.false_eq_true, ↓reduceIte, returns_bind, returns_linkBound]
  refine (hbefore.returns_drain hh ?_).mono ?_
  · rw [hquiet₁.fileHeader]
    have hbound : s.fileBufferPool.fileHeader.pageCount * h.leafMaxSize ≤
        s.fileBufferPool.fileHeader.pageCount * (h.leafMaxSize + 1) :=
      Nat.mul_le_mul_left _ (Nat.le_succ _)
    exact Nat.lt_succ_of_le (hfilter.trans (hlength.trans hbound))
  rintro ⟨rc, rids, sc'⟩ s₂ ⟨hrc₂, hrids, hpage₂, hquiet₂, hended⟩
  obtain rfl : rc = .recordEof := hrc₂
  simp only at hrids hquiet₂ hended
  refine hended.returns_closeScan.mono ?_
  rintro _ s₃ ⟨hpage₃, hquiet₃⟩
  rw [returns_pure]
  refine ⟨by rw [hrids]; rfl, hpage₃.trans (hpage₂.trans hpage₁), p,
    ((hquiet₁.trans hquiet₂).trans hquiet₃).congr ?_⟩
  funext q
  simp only [Pi.add_apply, Pi.sub_apply, Pi.neg_apply]
  ring

/-- `get_entry` returns the `RID`s of the entries with the attribute and changes no page. -/
theorem Index.returns_getEntry (hh : h.Orders) (hc : r.chained) (hpos : 1 ≤ leafLo)
    (hi : Index h r lo leafLo s es) (attr : A) :
    Returns (getEntry h attr) s fun res s' =>
      res = (.success, (es.filter (withAttr attr)).map Prod.snd) ∧ s'.page = s.page ∧
      ∃ p, Quiet s s' (if keepsLeaf h s (some ⟨attr, RID.min⟩) then ref p else 0) := by
  refine returns_getEntry_of_openKeys hh _ ?_ fun sc =>
    (hi.returns_openKeys hh hc hpos _ _).mono fun r s' ho => ⟨ho.1 (by simp), ho.2⟩
  by_cases hroot : s.rootPage = invalidPageNum
  · have hempty : s.isEmpty = true := decide_eq_true hroot
    rw [← hi.entries_eq, entries, hempty]
    exact Nat.zero_le _
  · rw [← hi.entries_eq]
    exact (hi.wellFormed hh (eq_true hc) hpos).length_entries_le hh hroot (hi.inFile hroot)

/-- `get_entry` in a well-formed tree. -/
theorem WellFormed.returns_getEntry (hh : h.Orders) {spine : Prop} (hw : WellFormed h s spine)
    (hfile : s.rootPage ≠ invalidPageNum → InFile s) (attr : A) :
    Returns (getEntry h attr) s fun res _ =>
      res = (.success, ((entries s).filter (withAttr attr)).map Prod.snd) := by
  by_cases hroot : s.rootPage = invalidPageNum
  · have hempty : s.isEmpty = true := decide_eq_true hroot
    have hentries : entries s = [] := by rw [entries, hempty]; rfl
    refine (returns_getEntry_of_openKeys hh false (show (entries s).length ≤ _ from ?_)
      fun sc => ?_).mono fun res s' h => h.1
    · rw [hentries]
      exact Nat.zero_le _
    · unfold openKeys findLeaf findLeafInternal
      simp only [returns_bind, returns_get, hempty, ↓reduceIte, returns_pure, true_and]
      refine ⟨.inl ⟨rfl, by rw [hentries]; rfl⟩, 0, (Quiet.refl s).congr ?_⟩
      simp [held]
  · obtain ⟨row, hr, hrow⟩ := hw.readable hh hroot (hfile hroot)
    refine (returns_getEntry_of_openKeys hh (fallsPastLeaf h s ⟨attr, RID.min⟩)
      (hw.length_entries_le hh hroot (hfile hroot)) fun sc =>
        (hr.returns_openKeys hh _ _).mono ?_).mono fun res s' h => h.1
    rintro res s' ⟨hrc, hpage, hscans, p, hq⟩
    rw [hrow] at hscans
    exact ⟨hrc, hpage, .inr ⟨row, hr.toRowOnPages.congr hq hpage, hscans⟩, p, hq⟩

end TDB
