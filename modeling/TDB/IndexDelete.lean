import TDB.LeafDelete

namespace TDB

open BplusTreeHandler Exec

variable {A : Type} [LinearOrder (Key A)] {h : IndexFileHeader A} {r : Regime A}
  {s s' : BplusTreeHandler A} {lo leafLo : ℕ}

/-! ## A leaf that has lost an item -/

/-- A leaf with `n` items that is not touched from the left: it has enough items, or it is the root
and not empty, or it is the first child of its parent. -/
def keepsPlace (h : IndexFileHeader A) (s : BplusTreeHandler A) (p : PageNum) (n : ℕ) : Bool :=
  match s.page p with
  | some (.leaf parent next items) =>
    decide ((Page.leaf parent next items).minSize h ≤ n) ||
      if parent = invalidPageNum then decide (0 < n)
      else match s.page parent with
        | some (.internal _ (item :: _)) => decide (item.2 = p)
        | _ => false
  | _ => false

theorem Shape.tree_root {x : Leaf A} (ht : Shape h r s lo [x] [])
    (hmax : x.items.length ≤ h.leafMaxSize) (hne : x.items ≠ []) :
    Tree h r s lo leafLo [x] [] := by
  refine ⟨ht, fun l hl => ?_⟩
  obtain rfl := List.mem_singleton.mp hl
  simpa using ⟨hmax, List.length_pos_iff.mpr hne⟩

theorem Shape.returns_adjustRoot {x : Leaf A} (ht : Shape h r s lo [x] [])
    (hmax : x.items.length ≤ h.leafMaxSize) :
    Returns (adjustRoot x.page) s fun rc s' => rc = .success ∧
      Resettled h r lo leafLo s (ref x.page) [] x (x.items ≠ []) (entriesOf [x]) s' := by
  obtain ⟨par, next, -, hpage, -⟩ := Shape.page_leaf
    (show Shape h r s lo ([] ++ x :: []) [] from ht)
  have hp : s.page x.page ≠ none := by simp [hpage]
  have hsize : (Page.leaf par next x.items).size = x.items.length := by
    simp [Page.size, Page.keys]
  unfold adjustRoot
  rw [returns_bind, returns_node hpage (by simp [Page.isLeaf])]
  simp only [hsize]
  by_cases hne : x.items = []
  · simp only [hne, List.length_nil, lt_irrefl, ↓reduceIte, returns_bind,
      returns_updateRootPageNum, returns_unpinPage]
    generalize hs₁ : BplusTreeHandler.update _ x.page Frame.unpin = s₁
    have hcached : s₁.cached x.page := by
      rw [← hs₁]
      exact (cached_update _ _ _ _).mpr (Or.inr ⟨rfl, hp⟩)
    have hpins₁ : ∀ q, s₁.pinCount q = s.pinCount q - ref x.page q := by
      intro q
      rw [← hs₁, pinCount_unpin _ _ _ (by simpa using hp), pinCount_withRoot]
    refine (returns_disposePage hcached).mono ?_
    intro rc s' hd
    rw [returns_pure]
    refine ⟨rfl, ⟨Or.inl ⟨hd.rootPage.trans (by simp [← hs₁]), by simp [hne]⟩,
      hd.allocFailures.trans (by simp [← hs₁]), fun hpins => ?_⟩, fun hkept => absurd rfl hkept⟩
    have hzero : ∀ q, s₁.pinCount q = 0 := fun q => by rw [hpins₁, hpins, sub_self]
    refine ⟨fun q => ?_, (hd.pinnedFrees (hzero _)).trans (by simp [← hs₁])⟩
    by_cases hq : q = x.page
    · rw [hq, hd.pinCount_self]
    · rw [hd.pinCount q hq, hzero]
  · have hpos : 0 < x.items.length := List.length_pos_iff.mpr hne
    simp only [hpos, ↓reduceIte, returns_bind, returns_markDirty, returns_unpinPage, returns_pure,
      true_and]
    have ht' : Tree h r (s.update x.page Frame.markDirty) lo leafLo [x] [] :=
      (ht.tree_root hmax hne).congr rfl (fun q _ => by simp) fun q ha => by simpa using ha
    have hsettled := Tree.resettled_unpin (P := []) ht' (p := x.page) (by simpa using hp)
      (x.items ≠ [])
    exact ⟨⟨hsettled.index, by simp, fun hd => by simpa using hsettled.pins (by simpa using hd)⟩,
      hsettled.keeps⟩

theorem Shape.lookup_last (hh : h.Orders) {P S : List (Leaf A)} {x : Leaf A}
    {levs : List (Level A)} {a b back : List (Child A)}
    (ht : Shape h r s lo (P ++ x :: S) levs) (hne : x.items ≠ [])
    (hS : leafHeads S = b ++ back) (hinc : Increasing (a ++ x.asChild :: b)) :
    ∃ t m, x.items = t ++ [m] ∧
      internalLookup h (stored h (a ++ x.asChild :: b)) m.1 = a.length := by
  obtain ⟨t, m, hitems⟩ : ∃ t m, x.items = t ++ [m] := by
    rcases List.eq_nil_or_concat x.items with hx | ⟨t, m, hx⟩
    · exact absurd hx hne
    · exact ⟨t, m, by simpa using hx⟩
  have hm : m ∈ x.items := by simp [hitems]
  refine ⟨t, m, hitems, internalLookup_eq hh
    (hinc.sublist (List.Sublist.append_left (by simp) a))
    ((ht.leafOk x (by simp)).sep_le m hm) fun c hc => ?_⟩
  have hc' : c ∈ leafHeads S := by
    rw [hS]
    exact List.mem_append_left _ hc
  obtain ⟨l, hl, rfl⟩ := List.mem_map.mp hc'
  exact (List.pairwise_cons.mp (List.pairwise_append.mp ht.apart).2.1).1 l hl m hm

theorem Shape.levs_eq_nil {P S : List (Leaf A)} {x : Leaf A} {levs : List (Level A)}
    (ht : Shape h r s lo (P ++ x :: S) levs)
    (hpar : s.parentPage x.page = some invalidPageNum) : levs = [] := by
  cases levs with
  | nil => rfl
  | cons lev rest =>
    have hover : Over h s lo none (leafHeads P ++ x.asChild :: leafHeads S) (lev :: rest) := by
      simpa using ht.isOver
    obtain ⟨pre, y, post, a, b, rfl, hkids, -⟩ := hover.locate
    have hy := (hover.above.2.1 y (by simp)).parent x.asChild (by simp [hkids])
    rw [asChild_snd, hpar] at hy
    exact absurd (Option.some.inj hy).symm (ne_invalidPageNum
      (hover.allocated _ (List.mem_append_right _ mem_levelPages_head)))

/-- `coalesce_or_redistribute` of the root leaf, which may have become empty. -/
theorem Shape.returns_coalesceOrRedistribute_root {P S : List (Leaf A)} {x : Leaf A} {fuel : ℕ}
    (hpos : 1 ≤ leafLo) (hleafLo : leafLo ≤ h.leafMaxSize / 2)
    (ht : Shape h r s lo (P ++ x :: S) [])
    (hmax : x.items.length ≤ h.leafMaxSize) :
    Returns (coalesceOrRedistribute h (fuel + 1) .leaf x.page) s fun rc s' => rc = .success ∧
      Resettled h r lo leafLo s (ref x.page) P x (keepsPlace h s x.page x.items.length = true)
        (entriesOf (P ++ x :: S)) s' := by
  obtain ⟨par, next, hpar, hpage, -⟩ := ht.page_leaf
  have hp : s.page x.page ≠ none := by simp [hpage]
  have hsize : ∀ par next, (Page.leaf par next x.items).size = x.items.length := by
    intro par next
    simp [Page.size, Page.keys]
  have hminSize : ∀ par next, 1 ≤ (Page.leaf par next x.items).minSize h := by
    intro par next
    simp only [Page.minSize, Page.maxSize]
    omega
  obtain ⟨k, hk, hroot⟩ := ht.isOver.above
  have hlen := congrArg List.length hk
  simp only [leafHeads, List.length_map, List.length_append, List.length_cons,
    List.length_nil] at hlen
  obtain rfl : P = [] := List.eq_nil_of_length_eq_zero (by omega)
  obtain rfl : S = [] := List.eq_nil_of_length_eq_zero (by omega)
  have hrootx : x.page = s.rootPage := (by simpa [Leaf.asChild] using hk : x.sep = k ∧ _).2
  obtain rfl : par = invalidPageNum := by
    rw [hrootx, hroot] at hpar
    exact (Option.some.inj hpar).symm
  have hdone : 1 ≤ x.items.length →
      Resettled h r lo leafLo s (ref x.page) [] x
        (keepsPlace h s x.page x.items.length = true) (entriesOf ([] ++ [x]))
        (s.update x.page Frame.unpin) := fun hlen =>
    Tree.resettled_unpin (P := []) (ht.tree_root hmax (List.ne_nil_of_length_pos hlen)) hp _
  unfold coalesceOrRedistribute
  rw [returns_bind, returns_node hpage (by simp [Page.isLeaf])]
  simp only [hsize, Page.parent, ↓reduceIte]
  split
  · next hle =>
    simp only [returns_bind, returns_unpinPage, returns_pure, true_and]
    exact hdone ((hminSize _ _).trans hle)
  · split
    · next hlt =>
      simp only [returns_bind, returns_unpinPage, returns_pure, true_and]
      exact hdone hlt.le
    · next hle _ =>
      refine Returns.mono (P := fun rc s' => rc = .success ∧ Resettled h r lo leafLo s (ref x.page)
        [] x (x.items ≠ []) (entriesOf [x]) s') (ht.returns_adjustRoot hmax) ?_
      rintro rc s' ⟨rfl, hr⟩
      refine ⟨rfl, hr.imp fun hkept => ?_⟩
      rw [keepsPlace, hpage] at hkept
      simp only [hle, decide_false, ↓reduceIte, Bool.false_or, decide_eq_true_iff] at hkept
      exact List.ne_nil_of_length_pos hkept

omit [LinearOrder (Key A)] in
/-- A leaf with too few items keeps its place only as the first child of its parent. -/
theorem keepsPlace_first {x : Leaf A} {a b : List (Child A)} {parent q next : PageNum}
    (hpage : s.page x.page = some (.leaf parent next x.items)) (hparent : parent ≠ invalidPageNum)
    (hmin : ¬ (Page.leaf parent next x.items).minSize h ≤ x.items.length)
    (hypage : s.page parent = some (.internal q (stored h (a ++ x.asChild :: b))))
    (hnodup : (childPages (a ++ x.asChild :: b)).Nodup)
    (hkept : keepsPlace h s x.page x.items.length = true) : a = [] := by
  rw [keepsPlace, hpage] at hkept
  simp only [hmin, decide_false, Bool.false_or, if_neg hparent, hypage] at hkept
  cases a with
  | nil => rfl
  | cons z a =>
    rw [List.cons_append, stored_cons, decide_eq_true_iff] at hkept
    rw [List.cons_append, childPages_cons, List.nodup_cons] at hnodup
    exact absurd (hkept ▸ (by simp : x.page ∈ _)) hnodup.1

theorem Shape.returns_coalesceOrRedistribute_leaf (hh : h.Orders)
    (hlo : lo = h.internalMaxSize / 2) (h2 : 2 ≤ lo) (hleafLo : leafLo = h.leafMaxSize / 2)
    (h2' : 2 ≤ leafLo) {P S : List (Leaf A)} {x : Leaf A} {levs : List (Level A)} {fuel : ℕ}
    (ht : Shape h r s lo (P ++ x :: S) levs) (hz : ZeroBelow h lo (leafHeads (P ++ x :: S)))
    (hsizes : ∀ m ∈ P ++ x :: S, m ≠ x → m.items.length ≤ h.leafMaxSize ∧
      leafLo ≤ m.items.length)
    (hmax : x.items.length ≤ h.leafMaxSize) (hx : levs ≠ [] → leafLo ≤ x.items.length + 1)
    (hfuel : levs.length < fuel) :
    Returns (coalesceOrRedistribute h fuel .leaf x.page) s fun rc s' => rc = .success ∧
      Resettled h r lo leafLo s (ref x.page) P x (keepsPlace h s x.page x.items.length = true)
        (entriesOf (P ++ x :: S)) s' := by
  obtain ⟨f, rfl⟩ : ∃ f, fuel = f + 1 := ⟨fuel - 1, by omega⟩
  obtain ⟨par, next, hpar, hpage, -⟩ := ht.page_leaf
  have hp : s.page x.page ≠ none := by simp [hpage]
  have hsize : ∀ par next, (Page.leaf par next x.items).size = x.items.length := by
    intro par next
    simp [Page.size, Page.keys]
  have hminSize : ∀ par next, leafLo ≤ (Page.leaf par next x.items).minSize h := by
    intro par next
    simp only [Page.minSize, Page.maxSize]
    omega
  cases levs with
  | nil => exact ht.returns_coalesceOrRedistribute_root (by omega) hleafLo.le hmax
  | cons lev rest =>
    have hx' := hx (by simp)
    have hover : Over h s lo none (leafHeads P ++ x.asChild :: leafHeads S) (lev :: rest) := by
      simpa using ht.isOver
    obtain ⟨pre, y, post, a, b, rfl, hkids, hfront, hback⟩ := hover.locate
    have hy := hover.above.2.1 y (by simp)
    -- `y` is the leaf's parent, with the leaf between its children `a` and `b`
    obtain rfl : par = y.page := by
      rw [← asChild_snd, hy.parent x.asChild (by simp [hkids])] at hpar
      exact (Option.some.inj hpar).symm
    by_cases hmin : (Page.leaf y.page next x.items).minSize h ≤ x.items.length
    · have hle := hminSize y.page next
      unfold coalesceOrRedistribute
      rw [returns_bind, returns_node hpage (by simp [Page.isLeaf])]
      simp only [hsize, hmin, ↓reduceIte, returns_bind, returns_unpinPage, returns_pure, true_and]
      refine Tree.resettled_unpin ⟨ht, fun m hm => ?_⟩ hp _
      simp only [reduceCtorEq, ↓reduceIte]
      by_cases hmx : m = x
      · rw [hmx]
        exact ⟨hmax, hle.trans hmin⟩
      · exact hsizes m hm hmx
    · have hmin' := not_le.mp hmin
      obtain ⟨q, hypage⟩ := hover.above.row_page (y := y) (by simp)
      rw [hkids] at hypage
      have hyinc : Increasing (a ++ x.asChild :: b) := by
        rw [← hkids]
        exact hover.increasing_kids (by simp)
      have hnodup : (childPages (a ++ x.asChild :: b)).Nodup := by
        rw [← hkids]
        exact hover.kids_nodup (by simp)
      -- a short leaf keeps its place only when its sibling is on the right
      have hfirst : keepsPlace h s x.page x.items.length = true → a = [] :=
        keepsPlace_first hpage (ne_invalidPageNum
          (hover.allocated _ (List.mem_append_right _ mem_levelPages_head))) hmin hypage hnodup
      have hne : x.items ≠ [] := List.ne_nil_of_length_pos (by omega)
      obtain ⟨t, m, hitems, hlook⟩ := ht.lookup_last hh hne hback hyinc
      have htwo : 2 ≤ y.kids.length := by
        have := (hover.sized.1 y (by simp)).2
        simp only [reduceCtorEq, ↓reduceIte, add_zero] at this
        split at this <;> omega
      have hfuel' : rest.length < f := by
        rw [List.length_cons] at hfuel
        omega
      refine returns_coalesceOrRedistribute_siblings (a := a) (b := b) (c := x.asChild)
        hpage (by simp [Page.isLeaf]) (by simpa [hsize] using hmin') rfl
        (ne_invalidPageNum (hover.allocated _ (List.mem_append_right _ mem_levelPages_head)))
        hypage rfl ?_ ?_ hlook ?_ ?_ ?_ ?_
      · rw [hsize]
        exact List.length_pos_iff.mpr hne
      · rw [hsize]
        simp [Page.keys, hitems]
      · intro c hc
        rw [← hkids] at hc
        simp [hy.parent c hc]
      · rw [hkids] at htwo
        by_contra hnone
        simp only [ne_eq, not_or, not_not] at hnone
        simp [hnone.1, hnone.2] at htwo
      · rintro r b' e s₁ rfl rfl he hpins
        have hcut : leafHeads S = r :: (b' ++ kidsOf post) := by simpa using hback
        obtain ⟨R, S', rfl, rfl, hS⟩ := List.map_eq_cons_iff.mp hcut
        have hn : LeafNeighbours h r s lo P x R S' pre y post rest [] b' :=
          ⟨ht, hkids, by simpa using hfront, hS⟩
        refine (hn.returns_balance hh hlo h2 hleafLo h2' hz (Or.inl ⟨rfl, rfl, rfl, rfl⟩) hsizes hx'
          hmin' he hpins hfuel').mono ?_
        rintro rc s' ⟨rfl, hr⟩
        exact ⟨rfl, hr.imp fun _ => rfl⟩
      · rintro a' l e s₁ rfl he hpins
        have hcut : leafHeads P = (kidsOf pre ++ a') ++ l :: [] := by simpa using hfront
        obtain ⟨P', L, Z, rfl, hP, rfl, hZ⟩ := ListLevels.map_eq_append_cons hcut
        obtain rfl : Z = [] := List.map_eq_nil_iff.mp hZ
        simp only [List.append_assoc, List.cons_append, List.nil_append] at ht hz hsizes ⊢
        have hn : LeafNeighbours h r s lo P' L x S pre y post rest a' b :=
          ⟨ht, by simpa using hkids, hP, hback⟩
        refine (hn.returns_balance hh hlo h2 hleafLo h2' hz (Or.inr ⟨rfl, rfl, rfl⟩) hsizes hx'
          hmin' he hpins hfuel').mono ?_
        rintro rc s' ⟨rfl, hr⟩
        refine ⟨rfl, hr.toRebalanced, fun hkept => ?_⟩
        have hnil := hfirst hkept
        simp at hnil

/-! ## `delete_entry` -/

/-- What a deletion relies on.  With the small fan-outs the zero key that stands for the missing
first separator has to be below the inserted keys. -/
structure Fanout (h : IndexFileHeader A) (r : Regime A) (lo leafLo : ℕ) : Prop where
  internal : lo = h.internalMaxSize / 2
  two_le : 2 ≤ lo
  leaf : leafLo = h.leafMaxSize / 2
  two_le_leaf : 2 ≤ leafLo
  zero : 3 ≤ lo ∨ ∀ k, r.good k → h.zeroKey < k

structure Sizes (h : IndexFileHeader A) (lo leafLo : ℕ) : Prop where
  two_le : 2 ≤ h.internalMaxSize
  lo_le : lo ≤ h.internalMaxSize / 2
  pos : 1 ≤ leafLo
  leafLo_le : leafLo ≤ h.leafMaxSize / 2

theorem Fanout.sizes (hf : Fanout h r lo leafLo) : Sizes h lo leafLo := by
  obtain ⟨h1, h2, h3, h4, -⟩ := hf
  exact ⟨by omega, by omega, by omega, by omega⟩

theorem Shape.zeroBelow {leaves : List (Leaf A)} {levs : List (Level A)}
    (ht : Shape h r s lo leaves levs) (hz : 3 ≤ lo ∨ ∀ k, r.good k → h.zeroKey < k) :
    ZeroBelow h lo (leafHeads leaves) := by
  refine hz.imp id fun hz c hc k hk => ?_
  obtain ⟨l, hl, rfl⟩ := List.mem_map.mp hc
  exact hz k ((ht.leafOk l hl).good_sep k hk)

theorem LeafOk.erase {l : Leaf A} {a b : List (Key A × RID)} {x : Key A × RID}
    (hok : LeafOk r.good l) (hitems : l.items = a ++ x :: b) : LeafOk r.good
      ⟨l.sep, l.page, a ++ b⟩ := by
  have hsub : (a ++ b).Sublist l.items := by
    rw [hitems]
    exact List.Sublist.append_left (List.sublist_cons_self x b) a
  exact ⟨hok.increasing.sublist hsub, fun y hy => hok.sep_le y (hsub.subset hy),
    fun y hy => hok.value y (hsub.subset hy), fun y hy => hok.good_items y (hsub.subset hy),
    hok.good_sep⟩

/-- A leaf other than the root has too few items once it has lost one. -/
def underflows (h : IndexFileHeader A) (s : BplusTreeHandler A) (p : PageNum) : Bool :=
  match s.page p with
  | some (.leaf parent next items) => decide (parent ≠ invalidPageNum) &&
      decide (items.length ≤ (Page.leaf parent next items).minSize h)
  | _ => false

def deleteUnderflows (h : IndexFileHeader A) (s : BplusTreeHandler A) (key : Key A) : Bool :=
  !s.isEmpty && match findLeaf h key s with
    | .ok ((_, leafFrame), _) => underflows h s leafFrame
    | .error _ => false

omit [LinearOrder (Key A)] in
theorem underflows_congr {s' : BplusTreeHandler A} (hp : s'.page = s.page) (p : PageNum) :
    underflows h s' p = underflows h s p := by
  unfold underflows
  rw [hp]

theorem Shape.deleteUnderflows_eq (hh : h.Orders) {pre post : List (Leaf A)} {l : Leaf A}
    {levs : List (Level A)} {key : Key A} (ht : Shape h r s lo (pre ++ l :: post) levs)
    (hl : LeafFor key l post) : deleteUnderflows h s key = underflows h s l.page := by
  obtain ⟨_, s₁, hrun, rfl, -⟩ := returns_findLeaf hh ht hl
  unfold deleteUnderflows
  rw [ht.isOver.isEmpty_eq, hrun]
  rfl

theorem Tree.erased {s₁ : BplusTreeHandler A} {pre post : List (Leaf A)} {l : Leaf A}
    {levs : List (Level A)} {a b : List (Key A × RID)} {x : Key A × RID} {par next : PageNum}
    (ht : Tree h r s lo leafLo (pre ++ l :: post) levs) (hitems : l.items = a ++ x :: b)
    (hpar : s.parentPage l.page = some par)
    (hpage : s.page l.page = some (.leaf par next (a ++ x :: b)))
    (hnext : r.chained → next = chainHead invalidPageNum post)
    (hs₁ : (s.update l.page (Frame.setData (.leaf par next (a ++ b)))).update l.page
      Frame.markDirty = s₁) :
    Shape h r s₁ lo (pre ++ ⟨l.sep, l.page, a ++ b⟩ :: post) levs ∧
      keepsPlace h s₁ l.page (a ++ b).length = keepsPlace h s l.page (a ++ b).length := by
  have hp : s.page l.page ≠ none := by simp [hpage]
  have hpage₁ : s₁.page l.page = some (.leaf par next (a ++ b)) := by
    simp [← hs₁, hpage]
  have hparent₁ : s₁.parentPage = s.parentPage := by
    rw [← hs₁, parentPage_markDirty, parentPage_setData hp]
    simp [Page.parent?, ← hpar]
  have hbody₁ : s₁.body = Function.update s.body l.page (some (.leaf 0 next (a ++ b))) := by
    rw [← hs₁, body_markDirty, body_setData hp]
    rfl
  have hbelow : ∀ y ∈ a ++ b, ∀ l' ∈ post, (y.1 : WithBot (Key A)) < l'.sep := by
    intro y hy l' hl'
    refine (List.pairwise_cons.mp (List.pairwise_append.mp ht.apart).2.1).1 l' hl' y ?_
    rw [hitems]
    exact mem_row_of_other (List.mem_append.mp hy)
  constructor
  · exact ht.toShape.setItems (by simp [← hs₁]) (fun p hpa => by simpa [← hs₁] using hpa) hbody₁
      hnext hparent₁ ((ht.leafOk l (by simp)).erase hitems) hbelow
  · unfold keepsPlace
    rw [hpage₁, hpage]
    by_cases hself : par = l.page
    · simp only [hself, hpage₁, hpage]
      rfl
    · have hsame : s₁.page par = s.page par := by simp [← hs₁, hself]
      simp only [hsame]
      rfl

/-- `delete_entry_internal` of a key that is in the leaf.  Only a leaf that underflows needs the
fan-out. -/
theorem Tree.returns_deleteEntryInternal (hh : h.Orders) (hz : Sizes h lo leafLo)
    {pre post : List (Leaf A)} {l : Leaf A} {levs : List (Level A)} {key : Key A}
    {a b : List (Key A × RID)} (ht : Tree h r s lo leafLo (pre ++ l :: post) levs)
    (hf : Fanout h r lo leafLo ∨ underflows h s l.page = false)
    (hitems : l.items = a ++ (key, key.rid) :: b) (ha : ∀ x ∈ a, x.1 < key)
    (hb : ∀ x ∈ b, key < x.1) :
    Returns (deleteEntryInternal h l.page key) s fun rc s' => rc = .success ∧
      Resettled h r lo leafLo s (ref l.page) pre ⟨l.sep, l.page, a ++ b⟩
        (keepsPlace h s l.page (a ++ b).length = true)
        (entriesOf (pre ++ ⟨l.sep, l.page, a ++ b⟩ :: post)) s' := by
  obtain ⟨par, next, hpar, hpage, hnext⟩ := ht.page_leaf
  rw [hitems] at hpage
  have hp : s.page l.page ≠ none := by simp [hpage]
  obtain ⟨hmax, hmin⟩ := ht.sized l (by simp)
  have hlen : l.items.length = (a ++ b).length + 1 := by
    simp [hitems]
    omega
  unfold deleteEntryInternal
  rw [returns_bind, returns_leafNode hpage]
  simp only [leafLookup_present hh ha hb, Bool.not_true, Bool.false_eq_true, ↓reduceIte]
  rw [returns_bind, returns_itemAt (i := a.length) (x := (key, key.rid)) rfl (by simp)]
  have herase : (a ++ (key, key.rid) :: b).eraseIdx a.length = a ++ b := by
    rw [List.eraseIdx_append_of_length_le le_rfl]
    simp
  simp only [herase, returns_bind, returns_setPage, returns_markDirty]
  generalize hs₁ : BplusTreeHandler.update _ l.page Frame.markDirty = s₁
  have hpage₁ : s₁.page l.page = some (.leaf par next (a ++ b)) := by
    simp [← hs₁, hpage]
  have hfails₁ : s₁.fileBufferPool.allocFailures = s.fileBufferPool.allocFailures := by
    simp [← hs₁]
  have hfrees₁ : s₁.fileBufferPool.pinnedFrees = s.fileBufferPool.pinnedFrees := by
    simp [← hs₁]
  have hpins₁ : ∀ q, s₁.pinCount q = s.pinCount q := by
    intro q
    simp [← hs₁]
  obtain ⟨ht₁, hplace⟩ := ht.erased hitems hpar hpage hnext hs₁
  have hback : ∀ {rc : RC} {s' : BplusTreeHandler A}, rc = .success ∧
      Resettled h r lo leafLo s₁ (ref l.page) pre ⟨l.sep, l.page, a ++ b⟩
        (keepsPlace h s₁ l.page (a ++ b).length = true)
        (entriesOf (pre ++ ⟨l.sep, l.page, a ++ b⟩ :: post)) s' →
      rc = .success ∧ Resettled h r lo leafLo s (ref l.page) pre ⟨l.sep, l.page, a ++ b⟩
        (keepsPlace h s l.page (a ++ b).length = true)
        (entriesOf (pre ++ ⟨l.sep, l.page, a ++ b⟩ :: post)) s' := by
    rintro rc s' ⟨hrc, hr⟩
    rw [hplace] at hr
    exact ⟨hrc, hr.from_start hfails₁ hfrees₁ fun hd q => (hpins₁ q).trans (hd q)⟩
  have hsizes : ∀ m ∈ pre ++ ⟨l.sep, l.page, a ++ b⟩ :: post, m ≠ ⟨l.sep, l.page, a ++ b⟩ →
      m.items.length ≤ h.leafMaxSize ∧ leafLo ≤ m.items.length := by
    intro m hm hne
    exact ht.sized_other ((mem_row.mp hm).resolve_left hne)
  rw [returns_node hpage₁ (by simp [Page.isLeaf])]
  simp only [returns_ite, returns_bind, returns_linkBound]
  split
  · -- the leaf has enough items left, whether it is the root or not
    next hmin' =>
    rw [returns_unpinPage, returns_pure]
    refine hback ⟨rfl, Tree.resettled_unpin ⟨ht₁, fun m hm => ?_⟩ (by simp [hpage₁]) _⟩
    have hpos := hz.pos
    by_cases hmx : m = ⟨l.sep, l.page, a ++ b⟩
    · have hle := hz.leafLo_le
      simp only [Page.minSize, Page.maxSize, Page.size, Page.keys, List.length_map] at hmin'
      rw [hmx]
      simp only
      refine ⟨by omega, ?_⟩
      split <;> omega
    · obtain ⟨h1, h3⟩ := hsizes m hm hmx
      refine ⟨h1, ?_⟩
      split <;> omega
  · next hmin' =>
    have hbound := ht₁.isOver.length_lt
    -- a leaf below the root underflows here, which needs the fan-out
    rcases hf with hf | hunder
    · refine (ht₁.returns_coalesceOrRedistribute_leaf hh hf.internal hf.two_le
        hf.leaf hf.two_le_leaf (ht₁.zeroBelow hf.zero) hsizes ?_ ?_ hbound).mono fun rc s' => hback
      · simp only
        omega
      · intro hne
        simp only [hne, ↓reduceIte] at hmin
        simp only
        omega
    · have hroot : par = invalidPageNum := by
        by_contra hne
        simp only [underflows, hpage, ne_eq, hne, not_false_eq_true, decide_true, Bool.true_and,
          decide_eq_false_iff_not, not_le, List.length_append, List.length_cons] at hunder
        simp only [Page.minSize, Page.maxSize, Page.size, Page.keys, List.length_map,
          List.length_append] at hmin' hunder
        omega
      obtain rfl : levs = [] := ht.toShape.levs_eq_nil (hroot ▸ hpar)
      obtain ⟨fuel, hfuel⟩ := Nat.exists_eq_add_of_lt hbound
      rw [hfuel]
      refine (ht₁.returns_coalesceOrRedistribute_root hz.pos hz.leafLo_le ?_).mono
        fun rc s' => hback
      simp only
      omega

theorem Index.returns_deleteEntry_absent (hh : h.Orders) {attr : A} {rid : RID}
    {es : List (Key A × RID)} (hi : Index h r lo leafLo s es)
    (habs : ∀ x ∈ es, x.1 ≠ ⟨attr, rid⟩) :
    Returns (deleteEntry h attr rid) s fun rc s' => rc = .recordNotExist ∧
      Quiet s s' 0 ∧ s'.page = s.page := by
  unfold deleteEntry
  rw [returns_bind]
  rcases hi with ⟨hroot, rfl⟩ | ⟨leaves, levs, ht, rfl⟩
  · unfold findLeaf findLeafInternal
    simp only [returns_bind, returns_get, isEmpty, hroot, decide_true, ↓reduceIte, returns_pure,
      true_and]
    exact ⟨Quiet.refl s, trivial⟩
  · obtain ⟨pre, l, post, rfl, hl⟩ := ht.toShape.exists_leafFor ⟨attr, rid⟩
    rcases ht.toShape.key_cases hl with ⟨hmem, -⟩ | ⟨-, a, b, hitems, ha, hb⟩
    · exact absurd rfl (habs _ hmem)
    refine (returns_findLeaf hh ht.toShape hl).mono ?_
    rintro _ s₁ ⟨rfl, hr⟩
    obtain ⟨par, next, -, hpage, -⟩ := ht.page_leaf
    rw [hitems, ← hr.page] at hpage
    simp only [reduceCtorEq, ↓reduceIte, fail_success, Bool.false_eq_true]
    unfold deleteEntryInternal
    rw [returns_bind, returns_leafNode hpage]
    simp only [leafLookup_absent hh ha hb, Bool.not_false, ↓reduceIte, returns_bind,
      returns_unpinPage, returns_pure, true_and]
    refine ⟨(hr.quiet.trans (Quiet.unpin (by simp [hpage]))).congr (by simp), ?_⟩
    rw [page_unpin, hr.page]

theorem Index.returns_deleteEntry_present (hh : h.Orders) (hz : Sizes h lo leafLo)
    {attr : A} {rid : RID} {es : List (Key A × RID)} (hi : Index h r lo leafLo s es)
    (hf : Fanout h r lo leafLo ∨ deleteUnderflows h s ⟨attr, rid⟩ = false)
    (hmem : (⟨attr, rid⟩, rid) ∈ es) :
    Returns (deleteEntry h attr rid) s fun rc s' => rc = .success ∧
      ∃ es', Adds ⟨attr, rid⟩ es' es ∧ Rebalanced h r lo leafLo s 0 es' s' := by
  rcases hi with ⟨-, rfl⟩ | ⟨leaves, levs, ht, rfl⟩
  · simp at hmem
  · obtain ⟨pre, l, post, rfl, hl⟩ := ht.toShape.exists_leafFor ⟨attr, rid⟩
    rcases ht.toShape.key_cases hl with ⟨-, a, b, hitems, ha, hb⟩ | ⟨hne, -⟩
    swap
    · exact absurd rfl (hne _ hmem)
    unfold deleteEntry
    rw [returns_bind]
    refine (returns_findLeaf hh ht.toShape hl).mono ?_
    rintro _ s₁ ⟨rfl, hr⟩
    have ht₁ : Tree h r s₁ lo leafLo (pre ++ l :: post) levs :=
      ht.congr hr.quiet.rootPage (fun q _ => by rw [hr.page])
        fun q hq => (hr.quiet.allocated_iff q).mpr hq
    rw [ht.toShape.deleteUnderflows_eq hh hl, ← underflows_congr hr.page] at hf
    simp only [reduceCtorEq, ↓reduceIte, fail_success, Bool.false_eq_true]
    refine (ht₁.returns_deleteEntryInternal hh hz hf hitems ha hb).mono ?_
    rintro rc s' ⟨rfl, ⟨hi', hfails, hpins⟩, -⟩
    refine ⟨rfl, _, ⟨entriesOf pre ++ a, b ++ entriesOf post, by simp, by simp [hitems]⟩, hi',
      hfails.trans hr.quiet.allocFailures, fun hd => ?_⟩
    obtain ⟨h1, h2⟩ := hpins fun q => by
      rw [hr.quiet.pinCount, hd]
      simp
    exact ⟨h1, h2.trans hr.quiet.pinnedFrees⟩

end TDB
