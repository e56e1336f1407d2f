import TDB.SiblingRows

namespace TDB

open BplusTreeHandler Exec

variable {A : Type} [LinearOrder (Key A)] {h : IndexFileHeader A} {s s' : BplusTreeHandler A}
  {lo : ℕ}

/-! ## `coalesce_or_redistribute` of internal nodes -/

/-- The two pins taken before the siblings are changed. -/
theorem Shrinks.of_pins {p q : PageNum} {d : PageNum → ℤ} {s₁ : BplusTreeHandler A}
    {cur : List (Child A)} {levs levs' : List (Level A)} (hp : PinsTwo s p q s₁)
    (hsh : Shrinks h lo s₁ (d + ref p + ref q) cur levs s' levs') :
    Shrinks h lo s d cur levs s' levs' := by
  have hb : s₁.body = s.body := by
    funext q
    exact body_congr (by rw [hp.page])
  have hpar : s₁.parentPage = s.parentPage := by
    funext q
    exact parentPage_congr (by rw [hp.page])
  refine ⟨hsh.isOver, ⟨?_, ?_, ?_, ?_⟩, hsh.sub, hsh.allocFailures.trans hp.quiet.allocFailures, ?_⟩
  · exact fun q hq hn => hsh.untouched.allocated q ((hp.quiet.allocated_iff q).mpr hq) hn
  · intro q hq hn
    rw [hsh.untouched.body q ((hp.quiet.allocated_iff q).mpr hq) hn, hb]
  · intro q hq hn hc
    rw [hsh.untouched.parentPage q ((hp.quiet.allocated_iff q).mpr hq) hn hc, hpar]
  · rw [← hp.quiet.fileHeader]
    exact hsh.untouched.pageCount
  · intro hpins
    obtain ⟨h1, h2⟩ := hsh.pins fun q => by
      rw [hp.quiet.pinCount, hpins]
      simp only [Pi.add_apply]
      ring
    exact ⟨h1, h2.trans hp.quiet.pinnedFrees⟩

/-- Nothing to do: the node is large enough, only its pin goes back. -/
theorem Over.shrinks_unpin {x : Inner A} {cur : List (Child A)} {levs : List (Level A)}
    (ho : Over h s lo (some x.page) cur levs) (hpage : s.page x.page ≠ none)
    (hsized : Sized h lo none levs) :
    Shrinks h lo s (ref x.page) cur levs (s.update x.page Frame.unpin) levs := by
  have hq := Quiet.unpin hpage
  refine ⟨⟨ho.above.congr (rootPage_update _ _ _) (fun p _ => by simp)
    (fun p _ => by simp), ho.nodup,
      fun p hp => (hq.allocated_iff p).mpr (ho.allocated p hp), ho.increasing, ho.leftmost, hsized⟩,
    ⟨fun p hp _ => (hq.allocated_iff p).mpr hp, fun p _ _ => by simp, fun p _ _ _ => by simp,
      by simp⟩, fun p hp => hp, hq.allocFailures, fun hpins => ⟨fun q => ?_, hq.pinnedFrees⟩⟩
  rw [hq.pinCount, hpins]
  simp

omit [LinearOrder (Key A)] in
theorem Above.root_row {cur : List (Child A)} {pre post : Level A} {x : Inner A}
    (ha : Above h s cur [pre ++ x :: post]) : pre = [] ∧ post = [] ∧ s.rootPage = x.page ∧
      s.parentPage x.page = some invalidPageNum := by
  obtain ⟨-, -, k, hk, hroot⟩ := ha
  have hlen := congrArg List.length hk
  simp only [heads, List.length_map, List.length_append, List.length_cons, List.length_nil] at hlen
  obtain rfl : pre = [] := List.eq_nil_of_length_eq_zero (by omega)
  obtain rfl : post = [] := List.eq_nil_of_length_eq_zero (by omega)
  have hpage : x.page = s.rootPage := (by simpa [heads, Inner.asChild] using hk : x.sep = k ∧ _).2
  exact ⟨rfl, rfl, hpage.symm, by rw [hpage]; exact hroot⟩

/-- `adjust_root` of an internal root with one child: the child becomes the root. -/
theorem Over.returns_adjustRoot {short : Option PageNum} {cur : List (Child A)} {x : Inner A}
    {c : Child A} (ho : Over h s lo short cur [[x]]) (hkids : x.kids = [c]) :
    Returns (adjustRoot x.page) s fun rc s' => rc = .success ∧
      Shrinks h lo s (ref x.page) cur [[x]] s' [] := by
  obtain ⟨-, -, hroot, hpar⟩ := Above.root_row (show Above h s cur [[] ++ x :: []] from ho.above)
  have hx := ho.above.2.1 x (by simp)
  have hcur : cur = [c] := by rw [← ho.above.1]; simp [hkids]
  subst hcur
  have hpage : s.page x.page = some (.internal invalidPageNum (stored h [c])) := by
    rw [← hkids]
    exact page_eq_internal hx.body hpar
  have hcpar : s.parentPage c.2 ≠ none := by simp [hx.parent c (by simp [hkids])]
  have hcpage := page_ne_none_of_parentPage hcpar
  have hne : c.2 ≠ x.page := by
    intro he
    exact ho.not_mem_levelPages (q := c.2) (by simp) (by simp [he])
  unfold adjustRoot
  rw [returns_bind, returns_node hpage (by simp [Page.isLeaf])]
  dsimp only
  rw [returns_bind, returns_itemAt (i := 0) (x := (c.1.unbotD h.zeroKey, c.2)) (by simp)
    (by simp)]
  rw [returns_bind, returns_getThisPage hcpage]
  simp only [fail_success, Bool.false_eq_true, ↓reduceIte]
  rw [returns_bind, returns_withParent (by simpa using hcpar)]
  simp only [returns_bind, returns_unpinPage, returns_updateRootPageNum]
  -- the only child is the root now; the old root page is still pinned once
  generalize hs₁ : BplusTreeHandler.update _ x.page Frame.unpin = s₁
  have hb₁ : s₁.body = s.body := by simp [← hs₁]
  have hp₁ : s₁.parentPage = Function.update s.parentPage c.2 (some invalidPageNum) := by
    rw [← hs₁]
    simp [parentPage_withParent, hcpar]
  have hpins₁ : ∀ q, s₁.pinCount q = s.pinCount q - ref x.page q := by
    intro q
    rw [← hs₁, pinCount_unpin _ _ _ (by simp [hpage]), pinCount_withRoot,
      pinCount_unpin _ _ _ (by simp [hcpage]), pinCount_withParent, pinCount_pin _ _ _ hcpage]
    ring
  have hroot₁ : s₁.rootPage = c.2 := by simp [← hs₁]
  have halloc₁ : ∀ q, s₁.allocated q ↔ s.allocated q := by
    intro q
    simp [← hs₁]
  have hcached₁ : s₁.cached x.page := by
    rw [← hs₁]
    refine (cached_update _ _ _ _).mpr (Or.inr ⟨rfl, ?_⟩)
    simp [hpage]
  have hfails₁ : s₁.fileBufferPool.allocFailures = s.fileBufferPool.allocFailures := by
    simp [← hs₁]
  have hfrees₁ : s₁.fileBufferPool.pinnedFrees = s.fileBufferPool.pinnedFrees := by
    simp [← hs₁]
  have hcount₁ : s₁.fileBufferPool.fileHeader = s.fileBufferPool.fileHeader := by
    simp [← hs₁]
  refine (returns_disposePage hcached₁).mono ?_
  intro rc s' hd
  rw [returns_pure]
  have hb : ∀ q, q ≠ x.page → s'.body q = s.body q := by
    intro q hq
    rw [body_congr (hd.page_eq q hq), hb₁]
  have hp : ∀ q, q ≠ x.page → s'.parentPage q =
      Function.update s.parentPage c.2 (some invalidPageNum) q := by
    intro q hq
    rw [parentPage_congr (hd.page_eq q hq), hp₁]
  have halloc : ∀ q, q ≠ x.page → s.allocated q → s'.allocated q := fun q hq ha =>
    (hd.allocated_iff q).mpr ⟨(halloc₁ q).mpr ha, hq⟩
  have hroot' : s'.rootPage = c.2 := hd.rootPage.trans hroot₁
  refine ⟨rfl, ⟨⟨c.1, by rw [hroot'], ?_⟩, by simp, ?_, ho.increasing, ho.leftmost, trivial⟩,
    ⟨?_, ?_, ?_, ?_⟩, by simp, hd.allocFailures.trans hfails₁, fun hpins => ?_⟩
  · rw [hroot', hp c.2 hne, Function.update_self]
  · intro p hpm
    simp only [childPages_cons, childPages_nil, levelPages_nil, List.append_nil,
      List.mem_singleton] at hpm
    rw [hpm]
    exact halloc _ hne (ho.allocated _ (by simp))
  · intro p hpa hnot
    exact halloc p (by rintro rfl; exact hnot (by simp)) hpa
  · intro p _ hnot
    exact hb p (by rintro rfl; exact hnot (by simp))
  · intro p _ hnot hc
    rw [hp p (by rintro rfl; exact hnot (by simp)), Function.update_of_ne]
    rintro rfl
    exact hc (by simp)
  · rw [hd.pageCount, hcount₁]
  · have hzero : ∀ q, s₁.pinCount q = 0 := by
      intro q
      rw [hpins₁, hpins]
      ring
    refine ⟨fun q => ?_, (hd.pinnedFrees (hzero _)).trans hfrees₁⟩
    by_cases hq : q = x.page
    · rw [hq, hd.pinCount_self]
    · rw [hd.pinCount q hq, hzero]

omit [LinearOrder (Key A)] in
/-- A row whose short node is large enough. -/
theorem Sized.of_short {short : Option PageNum} {lev : Level A} {rest : List (Level A)}
    (hs : Sized h lo short (lev :: rest)) (hrest : ∀ p ∈ levelPages rest, short ≠ some p)
    (hx : ∀ x ∈ lev, short = some x.page → (if rest = [] then min 2 lo else lo) ≤ x.kids.length) :
    Sized h lo none (lev :: rest) := by
  refine ⟨fun y hy => ?_, hs.2.congr_short fun p hp => by simp [hrest p hp]⟩
  obtain ⟨h1, h2⟩ := hs.1 y hy
  refine ⟨h1, ?_⟩
  by_cases hshort : short = some y.page
  · simpa using hx y hy hshort
  · simpa [hshort] using h2

omit [LinearOrder (Key A)] in
theorem length_le_minSize {par : PageNum} {items : List (Key A × PageNum)} :
    h.internalMaxSize / 2 ≤ (Page.internal par items).minSize h := by
  simp only [Page.minSize, Page.maxSize]
  omega

/-- The two pins and then `balance`, for a node whose sibling is known. -/
theorem Neighbours.returns_balance {short : Option PageNum} {cur : List (Child A)}
    {P S pre post : Level A} {L R y x : Inner A} {rest : List (Level A)} {a b : List (Child A)}
    {s₁ : BplusTreeHandler A} {fuel index : ℕ} {nb parX : PageNum} {e : Page A}
    (hn : Neighbours h s lo short cur P L R S pre y post rest a b)
    (hlo : lo = h.internalMaxSize / 2) (h2 : 2 ≤ lo) (hz : ZeroBelow h lo cur)
    (hsides : index = 0 ∧ a = [] ∧ x = L ∧ nb = R.page ∨
      index = a.length + 1 ∧ x = R ∧ nb = L.page)
    (hshort : short = some x.page) (hmin : x.kids.length <
      (Page.internal parX (stored h x.kids)).minSize h)
    (he : s.page nb = some e) (hp : PinsTwo s y.page nb s₁)
    (ih : ∀ {s : BplusTreeHandler A} {pre : Level A} {y : Inner A} {post : Level A}
      {cur : List (Child A)}, Over h s lo (some y.page) cur ((pre ++ y :: post) :: rest) →
      ZeroBelow h lo cur →
      Returns (coalesceOrRedistribute h fuel .internal y.page) s fun rc s' => rc = .success ∧
        ∃ levs', Shrinks h lo s (ref y.page) cur ((pre ++ y :: post) :: rest) s' levs') :
    Returns (balance h fuel .internal (.internal parX (stored h x.kids)) e nb x.page y.page index)
      s₁ fun rc s' => rc = .success ∧ ∃ levs', Shrinks h lo s (ref x.page) cur
        ((P ++ L :: R :: S) :: (pre ++ y :: post) :: rest) s' levs' := by
  have hn₁ : Neighbours h s₁ lo short cur P L R S pre y post rest a b := by
    refine ⟨hn.isOver.congr hp.quiet.rootPage ?_ ?_ ?_, hn.kids, hn.front, hn.back, hn.short⟩
    · exact fun p _ => body_congr (by rw [hp.page])
    · exact fun p _ => parentPage_congr (by rw [hp.page])
    · exact fun p hm => (hp.quiet.allocated_iff p).mpr (hn.isOver.allocated p hm)
  obtain ⟨parL, -, hLpage⟩ := hn.page_eq (z := L) (by simp)
  obtain ⟨parR, -, hRpage⟩ := hn.page_eq (z := R) (by simp)
  have hsib := hn.siblings
  have hsizeL := hn.isOver.sized.1 L (by simp)
  have hsizeR := hn.isOver.sized.1 R (by simp)
  simp only [Page.minSize, Page.maxSize] at hmin
  -- both orders of the siblings give back the same three pins
  have hpins : ∀ {d : PageNum → ℤ}, d = ref x.page + ref y.page + ref nb → ∀ {s' levs'},
      Shrinks h lo s₁ d cur ((P ++ L :: R :: S) :: (pre ++ y :: post) :: rest) s' levs' →
      Shrinks h lo s (ref x.page) cur ((P ++ L :: R :: S) :: (pre ++ y :: post) :: rest) s'
        levs' := by
    rintro d rfl s' levs' hsh
    exact hsh.of_pins hp
  -- the sibling is the right one for the first child of the parent, else the left one
  rcases hsides with ⟨rfl, rfl, rfl, rfl⟩ | ⟨rfl, rfl, rfl⟩
  · obtain rfl : e = .internal parR (stored h R.kids) :=
      Option.some.inj (he.symm.trans hRpage)
    have hRshort : short ≠ some R.page := by
      rw [hshort]
      exact fun hs => hsib.ne (Option.some.inj hs)
    simp only [reduceCtorEq, ↓reduceIte, hshort] at hsizeL
    simp only [reduceCtorEq, ↓reduceIte, hRshort, add_zero] at hsizeR
    have hd : ref x.page + ref R.page + ref y.page = ref x.page + ref y.page + ref R.page := by
      ac_rfl
    unfold balance
    simp only [Page.maxSize, size_internal]
    split
    · refine (hn₁.returns_redistribute_toLeft rfl ?_ ?_ ?_ ?_).mono ?_
      · omega
      · omega
      · omega
      · omega
      · rintro rc s' ⟨rfl, levs', hsh⟩
        exact ⟨rfl, levs', hpins hd hsh⟩
    · refine (hn₁.returns_coalesce h2 hz (Or.inl ⟨rfl, rfl, rfl, rfl⟩) ?_ ?_ ih).mono ?_
      · rw [List.length_append]
        omega
      · rw [List.length_append]
        omega
      · rintro rc s' ⟨rfl, levs', hsh⟩
        exact ⟨rfl, levs', hpins hd hsh⟩
  · obtain rfl : e = .internal parL (stored h L.kids) :=
      Option.some.inj (he.symm.trans hLpage)
    have hLshort : short ≠ some L.page := by
      rw [hshort]
      exact fun hs => hsib.ne (Option.some.inj hs).symm
    simp only [reduceCtorEq, ↓reduceIte, hLshort, add_zero] at hsizeL
    simp only [reduceCtorEq, ↓reduceIte, hshort] at hsizeR
    have hd : ref L.page + ref x.page + ref y.page = ref x.page + ref y.page + ref L.page := by
      ac_rfl
    unfold balance
    simp only [Page.maxSize, size_internal]
    split
    · refine (hn₁.returns_redistribute_toRight ?_ ?_ ?_ ?_).mono ?_
      · omega
      · omega
      · omega
      · omega
      · rintro rc s' ⟨rfl, levs', hsh⟩
        exact ⟨rfl, levs', hpins hd hsh⟩
    · refine (hn₁.returns_coalesce h2 hz (Or.inr ⟨rfl, rfl, rfl⟩) ?_ ?_ ih).mono ?_
      · rw [List.length_append]
        omega
      · rw [List.length_append]
        omega
      · rintro rc s' ⟨rfl, levs', hsh⟩
        exact ⟨rfl, levs', hpins hd hsh⟩

/-- `coalesce_or_redistribute` of a root that is an internal node: with one child left, that child
becomes the root. -/
theorem Over.returns_coalesceOrRedistribute_root {pre post : Level A} {x : Inner A}
    {cur : List (Child A)} {fuel : ℕ} (h2 : 2 ≤ h.internalMaxSize / 2)
    (ho : Over h s lo (some x.page) cur [pre ++ x :: post]) :
    Returns (coalesceOrRedistribute h (fuel + 1) .internal x.page) s fun rc s' => rc = .success ∧
      ∃ levs', Shrinks h lo s (ref x.page) cur [pre ++ x :: post] s' levs' := by
  obtain ⟨rfl, rfl, hroot, hpar⟩ := ho.above.root_row
  rw [List.nil_append] at ho ⊢
  have hx := ho.above.2.1 x (by simp)
  have hpage := page_eq_internal hx.body hpar
  have hmin : 2 ≤ (Page.internal invalidPageNum (stored h x.kids)).minSize h :=
    h2.trans length_le_minSize
  have hdone : 2 ≤ x.kids.length → Shrinks h lo s (ref x.page) cur [[x]]
      (s.update x.page Frame.unpin) [[x]] := fun hlen => by
    refine ho.shrinks_unpin (by simp [hpage]) (ho.sized.of_short (by simp) fun z hz _ => ?_)
    obtain rfl := List.mem_singleton.mp hz
    simpa using Or.inl hlen
  unfold coalesceOrRedistribute
  rw [returns_bind, returns_node hpage (by simp [Page.isLeaf])]
  simp only [size_internal, Page.parent, ↓reduceIte]
  split
  · next hle =>
    simp only [returns_bind, returns_unpinPage, returns_pure, true_and]
    exact ⟨_, hdone (hmin.trans hle)⟩
  · -- a root is not merged with a sibling: it may be short as long as it has two children
    split
    · next hlt =>
      simp only [returns_bind, returns_unpinPage, returns_pure, true_and]
      exact ⟨_, hdone hlt⟩
    · next hlt =>
      obtain ⟨c, t, hk⟩ := List.exists_cons_of_ne_nil hx.nonempty
      obtain rfl : t = [] := by
        rw [hk, List.length_cons] at hlt
        exact List.eq_nil_of_length_eq_zero (by omega)
      refine (ho.returns_adjustRoot hk).mono ?_
      rintro rc s' ⟨rfl, hsh⟩
      exact ⟨rfl, [], hsh⟩

theorem Over.returns_coalesceOrRedistribute_enough {pre post : Level A} {x : Inner A}
    {cur : List (Child A)} {rest : List (Level A)} {fuel : ℕ} {par : PageNum}
    (hlo : lo = h.internalMaxSize / 2)
    (ho : Over h s lo (some x.page) cur ((pre ++ x :: post) :: rest))
    (hpar : s.parentPage x.page = some par)
    (hmin : (Page.internal par (stored h x.kids)).minSize h ≤ x.kids.length) :
    Returns (coalesceOrRedistribute h (fuel + 1) .internal x.page) s fun rc s' => rc = .success ∧
      ∃ levs', Shrinks h lo s (ref x.page) cur ((pre ++ x :: post) :: rest) s' levs' := by
  have hpage := page_eq_internal (ho.above.2.1 x (by simp)).body hpar
  unfold coalesceOrRedistribute
  rw [returns_bind, returns_node hpage (by simp [Page.isLeaf])]
  simp only [size_internal, hmin, ↓reduceIte, returns_bind, returns_unpinPage, returns_pure,
    true_and]
  refine ⟨_, ho.shrinks_unpin (by simp [hpage]) (ho.sized.of_short ?_ fun z hz' he => ?_)⟩
  · rintro p hp he
    obtain rfl := Option.some.inj he
    exact ho.not_mem_rest (by simp) hp
  · have hzx : z = x := by
      by_contra hne
      exact ho.page_ne (z := z) ((mem_row.mp hz').resolve_left hne) (Option.some.inj he).symm
    have hlow := hlo.le.trans (length_le_minSize.trans hmin)
    rw [hzx]
    split
    · omega
    · exact hlow

theorem returns_coalesceOrRedistribute_internal (hh : h.Orders)
    (hlo : lo = h.internalMaxSize / 2) (h2 : 2 ≤ lo) : ∀ (rest : List (Level A)) {fuel : ℕ}
      {s : BplusTreeHandler A} {pre : Level A} {x : Inner A} {post : Level A}
      {cur : List (Child A)}, rest.length < fuel →
      Over h s lo (some x.page) cur ((pre ++ x :: post) :: rest) → ZeroBelow h lo cur →
      Returns (coalesceOrRedistribute h fuel .internal x.page) s fun rc s' => rc = .success ∧
        ∃ levs', Shrinks h lo s (ref x.page) cur ((pre ++ x :: post) :: rest) s' levs' := by
  intro rest
  induction rest with
  | nil =>
    intro fuel s pre x post cur hfuel ho hz
    obtain ⟨f, rfl⟩ : ∃ f, fuel = f + 1 := ⟨fuel - 1, by omega⟩
    exact ho.returns_coalesceOrRedistribute_root (hlo ▸ h2)
  | cons lev rest ih =>
    intro fuel s P₀ x S₀ cur hfuel ho hz
    obtain ⟨f, rfl⟩ : ∃ f, fuel = f + 1 := ⟨fuel - 1, by omega⟩
    have hup : Over h s lo (some x.page) (heads P₀ ++ x.asChild :: heads S₀) (lev :: rest) := by
      simpa using ho.up
    -- `y` is the parent of `x` in the row above
    obtain ⟨pre, y, post, a, b, rfl, hkids, hfront, hback⟩ := hup.locate
    have hx := ho.above.2.1 x (by simp)
    have hy := hup.above.2.1 y (by simp)
    have hpar : s.parentPage x.page = some y.page := hy.parent x.asChild (by simp [hkids])
    have hpage := page_eq_internal hx.body hpar
    have hsx := ho.sized.1 x (by simp)
    simp only [reduceCtorEq, ↓reduceIte] at hsx
    by_cases hmin : (Page.internal y.page (stored h x.kids)).minSize h ≤ x.kids.length
    · exact ho.returns_coalesceOrRedistribute_enough hlo hpar hmin
    · have hmin' := not_le.mp hmin
      obtain ⟨q, hypage⟩ := hup.above.row_page (y := y) (by simp)
      rw [hkids] at hypage
      have hyinc : Increasing (a ++ x.asChild :: b) := by
        rw [← hkids]
        exact hup.increasing_kids (by simp)
      obtain ⟨t, m, hxk, hlook⟩ := ho.lookup_last hh hz hsx.2 hback hyinc
      have hysize := hup.sized.1 y (by simp)
      have hyshort : some x.page ≠ some y.page := by
        intro he
        exact ho.not_mem_rest (y := x) (by simp) (by
          rw [Option.some.inj he]
          exact mem_levelPages_head)
      have htwo : 2 ≤ y.kids.length := by
        have := hysize.2
        simp only [hyshort, ↓reduceIte, add_zero] at this
        split at this <;> omega
      have hfuel' : rest.length < f := by
        rw [List.length_cons] at hfuel
        omega
      -- the parent has another child, so there is a sibling to balance with
      refine returns_coalesceOrRedistribute_siblings (a := a) (b := b) (c := x.asChild)
        hpage (by simp [Page.isLeaf]) (by simpa using hmin') rfl
        (ne_invalidPageNum (hup.allocated _ (List.mem_append_right _ mem_levelPages_head)))
        hypage rfl ?_ ?_ hlook ?_ ?_ ?_ ?_
      · rw [size_internal]
        exact List.length_pos_iff.mpr hx.nonempty
      · rw [size_internal]
        simp [Page.keys, hxk]
      · intro c hc
        rw [← hkids] at hc
        simp [hy.parent c hc]
      · rw [hkids] at htwo
        by_contra hnone
        simp only [ne_eq, not_or, not_not] at hnone
        simp [hnone.1, hnone.2] at htwo
      · rintro r b' e s₁ rfl rfl he hp
        have hcut : heads S₀ = r :: (b' ++ kidsOf post) := by simpa using hback
        obtain ⟨R, S, rfl, rfl, hS⟩ := List.map_eq_cons_iff.mp hcut
        have hn : Neighbours h s lo (some x.page) cur P₀ x R S pre y post rest [] b' :=
          ⟨ho, hkids, by simpa using hfront, hS, Or.inl rfl⟩
        exact hn.returns_balance hlo h2 hz (Or.inl ⟨rfl, rfl, rfl, rfl⟩) rfl hmin' he hp
          fun ho' hz' => ih hfuel' ho' hz'
      · rintro a' l e s₁ rfl he hp
        have hcut : heads P₀ = (kidsOf pre ++ a') ++ l :: [] := by simpa using hfront
        obtain ⟨P, L, Z, rfl, hP, rfl, hZ⟩ := ListLevels.map_eq_append_cons hcut
        obtain rfl : Z = [] := List.map_eq_nil_iff.mp hZ
        have hn : Neighbours h s lo (some x.page) cur P L x S₀ pre y post rest a' b :=
          ⟨by simpa using ho, by simpa using hkids, hP, hback, Or.inr rfl⟩
        have hbal := hn.returns_balance hlo h2 hz (Or.inr ⟨rfl, rfl, rfl⟩) rfl hmin' he
          hp fun ho' hz' => ih hfuel' ho' hz'
        simpa [Inner.asChild, Page.parent] using hbal

end TDB
