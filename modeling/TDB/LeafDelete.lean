import TDB.IndexInsert
import TDB.RowDelete

namespace TDB

open BplusTreeHandler Exec

variable {A : Type} [LinearOrder (Key A)] {h : IndexFileHeader A} {r : Regime A}
  {s s' : BplusTreeHandler A}
  {lo leafLo : ℕ}

/-! ## Two neighbouring leaves -/

/-- Two neighbouring leaves `L` and `R` that are children of `y`. -/
structure LeafNeighbours (h : IndexFileHeader A) (r : Regime A) (s : BplusTreeHandler A) (lo : ℕ)
    (P : List (Leaf A)) (L R : Leaf A) (S : List (Leaf A)) (pre : Level A) (y : Inner A)
    (post : Level A) (rest : List (Level A)) (a b : List (Child A)) : Prop where
  shape : Shape h r s lo (P ++ L :: R :: S) ((pre ++ y :: post) :: rest)
  kids : y.kids = a ++ L.asChild :: R.asChild :: b
  front : leafHeads P = kidsOf pre ++ a
  back : leafHeads S = b ++ kidsOf post

/-- A deletion has put the index in order again; `d` are the pins to give back. -/
structure Rebalanced (h : IndexFileHeader A) (r : Regime A) (lo leafLo : ℕ) (s : BplusTreeHandler A)
    (d : PageNum → ℤ) (es : List (Key A × RID)) (s' : BplusTreeHandler A) : Prop where
  index : Index h r lo leafLo s' es
  allocFailures : s'.fileBufferPool.allocFailures = s.fileBufferPool.allocFailures
  pins : (∀ q, s.pinCount q = d q) → (∀ q, s'.pinCount q = 0) ∧
    s'.fileBufferPool.pinnedFrees = s.fileBufferPool.pinnedFrees

/-- As `Rebalanced`.  If `kept`, the leaf `x` is still on its page, with the same leaves before it,
and items have only come behind its own. -/
structure Resettled (h : IndexFileHeader A) (r : Regime A) (lo leafLo : ℕ) (s : BplusTreeHandler A)
    (d : PageNum → ℤ) (P : List (Leaf A)) (x : Leaf A) (kept : Prop) (es : List (Key A × RID))
    (s' : BplusTreeHandler A) : Prop extends Rebalanced h r lo leafLo s d es s' where
  keeps : kept → ∃ more S levs,
    Tree h r s' lo leafLo (P ++ ⟨x.sep, x.page, x.items ++ more⟩ :: S) levs

theorem Resettled.imp {d : PageNum → ℤ} {P : List (Leaf A)} {x : Leaf A} {kept kept' : Prop}
    {es : List (Key A × RID)} (hr : Resettled h r lo leafLo s d P x kept es s')
    (himp : kept' → kept) : Resettled h r lo leafLo s d P x kept' es s' :=
  ⟨hr.toRebalanced, fun hk => hr.keeps (himp hk)⟩

theorem Resettled.from_start {s₁ : BplusTreeHandler A} {d d₁ : PageNum → ℤ} {P : List (Leaf A)}
    {x : Leaf A} {kept : Prop} {es : List (Key A × RID)}
    (hr : Resettled h r lo leafLo s₁ d₁ P x kept es s')
    (hfails : s₁.fileBufferPool.allocFailures = s.fileBufferPool.allocFailures)
    (hfrees : s₁.fileBufferPool.pinnedFrees = s.fileBufferPool.pinnedFrees)
    (hpins : (∀ q, s.pinCount q = d q) → ∀ q, s₁.pinCount q = d₁ q) :
    Resettled h r lo leafLo s d P x kept es s' := by
  obtain ⟨⟨hindex, hfail, hpin⟩, hkeeps⟩ := hr
  refine ⟨⟨hindex, hfail.trans hfails, fun hd => ?_⟩, hkeeps⟩
  obtain ⟨hzero, hfree⟩ := hpin (hpins hd)
  exact ⟨hzero, hfree.trans hfrees⟩

namespace LeafNeighbours

variable {P S : List (Leaf A)} {L R : Leaf A} {pre post : Level A} {y : Inner A}
  {rest : List (Level A)} {a b : List (Child A)}
  (hn : LeafNeighbours h r s lo P L R S pre y post rest a b)

include hn

theorem upper : Over h s lo none (kidsOf pre ++ y.kids ++ kidsOf post)
    ((pre ++ y :: post) :: rest) := by
  have := hn.shape.isOver
  rw [← this.above.1, kidsOf_append, kidsOf_cons] at this
  simpa using this

theorem siblings : Siblings L.page R.page y.page :=
  hn.upper.siblings hn.kids

theorem sep_lt : L.sep < R.sep := by
  have := hn.shape.isOver.increasing
  rw [leafHeads_append] at this
  exact (List.pairwise_cons.mp (List.pairwise_append.mp this).2.1).1 R.asChild (by simp)

theorem page_ne {m : Leaf A} (hm : m ∈ P ∨ m ∈ S) :
    m.page ≠ L.page ∧ m.page ≠ R.page ∧ m.page ≠ y.page := by
  have hnodup := (List.nodup_append.mp hn.shape.isOver.nodup).1
  simp only [leafHeads_append, leafHeads_cons, childPages_append, childPages_cons, asChild_snd,
    List.nodup_append, List.nodup_cons, List.mem_cons, not_or] at hnodup
  obtain ⟨-, ⟨⟨-, hL⟩, hR, -⟩, hP⟩ := hnodup
  have hy : m.page ≠ y.page := by
    intro he
    have hrow : m ∈ P ++ L :: R :: S := mem_row_of_other (hm.imp_right (List.mem_cons_of_mem R))
    refine hn.shape.isOver.not_mem_levelPages (mem_leafPages hrow) ?_
    rw [he]
    exact mem_levelPages_head
  rcases hm with hm | hm
  · exact ⟨hP _ (mem_leafPages hm) _ (Or.inl rfl), hP _ (mem_leafPages hm) _ (Or.inr (Or.inl rfl)),
      hy⟩
  · exact ⟨fun he => hL (he ▸ mem_leafPages hm), fun he => hR (he ▸ mem_leafPages hm), hy⟩

theorem page_left : ∃ par next, s.page L.page = some (.leaf par next L.items) ∧
    (r.chained → next = R.page) := by
  obtain ⟨par, next, -, hpage, hnext⟩ := hn.shape.page_leaf
  exact ⟨par, next, hpage, hnext⟩

theorem page_right : ∃ par next, s.page R.page = some (.leaf par next R.items) ∧
    (r.chained → next = chainHead invalidPageNum S) := by
  have hshape : Shape h r s lo ((P ++ [L]) ++ R :: S) ((pre ++ y :: post) :: rest) := by
    simpa using hn.shape
  obtain ⟨par, next, -, hpage, hnext⟩ := hshape.page_leaf
  exact ⟨par, next, hpage, hnext⟩

theorem parent_page_eq : ∃ par, s.page y.page =
    some (.internal par (stored h (a ++ L.asChild :: R.asChild :: b))) := by
  rw [← hn.kids]
  exact hn.upper.above.row_page (by simp)

/-- The tree after the two leaves were merged and the call for their parent. -/
theorem merged (hpos : 1 ≤ leafLo)
    (hsizes : ∀ m, m ∈ P ∨ m ∈ S → m.items.length ≤ h.leafMaxSize ∧ leafLo ≤ m.items.length)
    (hmax : (L.items ++ R.items).length ≤ h.leafMaxSize)
    (hmin : leafLo ≤ (L.items ++ R.items).length)
    {next : PageNum} (hnext : r.chained → next = chainHead invalidPageNum S)
    (hm : Merged s L.page R.page y.page (.leaf 0 next (L.items ++ R.items))
      (.internal 0 (stored h (a ++ L.asChild :: b))) [] s')
    {s'' : BplusTreeHandler A} {levs' : List (Level A)}
    (hsh : Shrinks h lo s' (ref y.page) (leafHeads (P ++ ⟨L.sep, L.page, L.items ++ R.items⟩ :: S))
      ((pre ++ ⟨y.page, a ++ L.asChild :: b⟩ :: post) :: rest) s'' levs') :
    Resettled h r lo leafLo s (ref L.page + ref R.page + ref y.page) P L True
      (entriesOf (P ++ L :: R :: S)) s'' := by
  have hsib := hn.siblings
  obtain ⟨hoks, hapart⟩ := leaves_merge hn.shape.leafOk hn.shape.apart hn.sep_lt
  have hlinked : Linked s' r.chained invalidPageNum
      (P ++ ⟨L.sep, L.page, L.items ++ R.items⟩ :: S) := by
    refine hn.shape.linked.replace [L, R]
      [⟨L.sep, L.page, L.items ++ R.items⟩] (fun _ => rfl)
      ⟨⟨next, hm.body_left, hnext⟩, trivial⟩ ?_
    intro m hmem
    obtain ⟨h1, h2, h3⟩ := hn.page_ne hmem
    exact hm.body _ h1 h2 h3
  have hrows : levelPages ((pre ++ ⟨y.page, a ++ L.asChild :: b⟩ :: post) :: rest) =
      levelPages ((pre ++ y :: post) :: rest) := by simp
  have hlow : ∀ m ∈ P ++ ⟨L.sep, L.page, L.items ++ R.items⟩ :: S, s'.allocated m.page ∧
      m.page ∉ levelPages ((pre ++ ⟨y.page, a ++ L.asChild :: b⟩ :: post) :: rest) := by
    intro m hmem
    have hold : m.page ∈ childPages (leafHeads (P ++ L :: R :: S)) ∧ m.page ≠ R.page := by
      rcases List.mem_append.mp hmem with hmem | hmem
      · exact ⟨mem_leafPages (by simp [hmem]), (hn.page_ne (Or.inl hmem)).2.1⟩
      · rcases List.mem_cons.mp hmem with rfl | hmem
        · exact ⟨mem_leafPages (l := L) (by simp), hsib.ne⟩
        · exact ⟨mem_leafPages (by simp [hmem]), (hn.page_ne (Or.inr hmem)).2.1⟩
    refine ⟨(hm.allocated_iff _).mpr
      ⟨hn.shape.isOver.allocated _ (List.mem_append_left _ hold.1), hold.2⟩, ?_⟩
    rw [hrows]
    exact hn.shape.isOver.not_mem_levelPages hold.1
  have ht : Tree h r s'' lo leafLo (P ++ ⟨L.sep, L.page, L.items ++ R.items⟩ :: S) levs' := by
    refine ⟨⟨hsh.isOver, hlinked.congr fun m hmem =>
      hsh.untouched.body _ (hlow m hmem).1 (hlow m hmem).2, hoks, hapart⟩, fun m hmem => ?_⟩
    have hbound : m.items.length ≤ h.leafMaxSize ∧ leafLo ≤ m.items.length := by
      obtain rfl | hmem := mem_row.mp hmem
      · exact ⟨hmax, hmin⟩
      · exact hsizes m hmem
    refine ⟨hbound.1, ?_⟩
    split <;> omega
  refine ⟨⟨Or.inr ⟨_, levs', ht, by simp⟩, hsh.allocFailures.trans hm.allocFailures, ?_⟩,
    fun _ => ⟨R.items, S, levs', ht⟩⟩
  · intro hpins
    obtain ⟨hparent, hfrees⟩ := hm.pins hsib hpins
    obtain ⟨hzero, hsame⟩ := hsh.pins hparent
    exact ⟨hzero, hsame.trans hfrees⟩

/-- The tree after one leaf gave the other an item. -/
theorem borrowed {il ir : List (Key A × RID)} {k : Key A} {v : RID} {dest nl nr : PageNum}
    (hnl : r.chained → nl = R.page) (hnr : r.chained → nr = chainHead invalidPageNum S)
    (hsizes : ∀ m, m ∈ P ∨ m ∈ S → m.items.length ≤ h.leafMaxSize ∧ leafLo ≤ m.items.length)
    (hitems : il ++ (k, v) :: ir = L.items ++ R.items) (hne : il ≠ [])
    (hbr : Borrowed s L.page R.page y.page (.leaf 0 nl il) (.leaf 0 nr ((k, v) :: ir))
      (.internal 0 (stored h (a ++ L.asChild :: ((k : WithBot (Key A)), R.page) :: b))) [] dest s')
    (hsl : il.length ≤ h.leafMaxSize ∧ leafLo ≤ il.length)
    (hsr : ((k, v) :: ir).length ≤ h.leafMaxSize ∧ leafLo ≤ ((k, v) :: ir).length) :
    Resettled h r lo leafLo s (ref L.page + ref R.page + ref y.page) P L
      (∃ more, il = L.items ++ more) (entriesOf (P ++ L :: R :: S)) s' := by
  obtain ⟨hoks₁, hapart₁⟩ := leaves_merge hn.shape.leafOk hn.shape.apart hn.sep_lt
  rw [← hitems] at hoks₁ hapart₁
  obtain ⟨hoks, hapart⟩ := leaves_split hoks₁ hapart₁ hne
  have hlinked : Linked s' r.chained invalidPageNum
      (P ++ ⟨L.sep, L.page, il⟩ :: ⟨k, R.page, (k, v) :: ir⟩ :: S) := by
    refine hn.shape.linked.replace [L, R]
      [⟨L.sep, L.page, il⟩, ⟨k, R.page, (k, v) :: ir⟩] (fun _ => rfl)
      ⟨⟨nl, hbr.body_left, hnl⟩, ⟨nr, hbr.body_right, hnr⟩, trivial⟩ ?_
    intro m hmem
    obtain ⟨h1, h2, h3⟩ := hn.page_ne hmem
    exact hbr.body _ h1 h2 h3
  have hlt : L.asChild.1 < (k : WithBot (Key A)) := by
    obtain ⟨x, il', rfl⟩ := List.exists_cons_of_ne_nil hne
    have hL := hoks₁ ⟨L.sep, L.page, x :: il' ++ (k, v) :: ir⟩ (by simp)
    exact (hL.sep_le x (by simp)).trans_lt (WithBot.coe_lt_coe.mpr
      ((List.pairwise_cons.mp hL.increasing).1 (k, v) (by simp)))
  have hgt : ∀ c ∈ b ++ kidsOf post, (k : WithBot (Key A)) < c.1 := by
    intro c hc
    rw [← hn.back] at hc
    obtain ⟨m, hm, rfl⟩ := List.mem_map.mp hc
    have := (List.pairwise_cons.mp (List.pairwise_append.mp hapart₁).2.1).1 m hm (k, v) (by simp)
    exact this
  have hup := hbr.isOver hn.upper hn.kids (by simp) (by simp) hlt hgt
  have hheads : leafHeads (P ++ ⟨L.sep, L.page, il⟩ :: ⟨k, R.page, (k, v) :: ir⟩ :: S) =
      kidsOf pre ++ (a ++ L.asChild :: ((k : WithBot (Key A)), R.asChild.2) :: b) ++
        kidsOf post := by
    simp [hn.front, hn.back, Leaf.asChild]
  rw [← hheads] at hup
  have ht : Tree h r s' lo leafLo (P ++ ⟨L.sep, L.page, il⟩ :: ⟨k, R.page, (k, v) :: ir⟩ :: S)
      ((pre ++ ⟨y.page, a ++ L.asChild :: ((k : WithBot (Key A)), R.asChild.2) :: b⟩ :: post) ::
        rest) := by
    refine ⟨⟨hup, hlinked, hoks, hapart⟩, fun m hmem => ?_⟩
    have hbound : m.items.length ≤ h.leafMaxSize ∧ leafLo ≤ m.items.length := by
      obtain rfl | rfl | hmem := mem_row_two.mp hmem
      · exact hsl
      · exact hsr
      · exact hsizes m hmem
    simpa using hbound
  refine ⟨⟨Or.inr ⟨_, _, ht, ?_⟩, hbr.quiet.allocFailures, ?_⟩, ?_⟩
  · simp only [entriesOf_append, entriesOf_cons]
    rw [← List.append_assoc L.items, ← hitems, List.append_assoc]
  · intro hpins
    refine ⟨fun q => ?_, hbr.quiet.pinnedFrees⟩
    rw [hbr.quiet.pinCount, hpins]
    simp only [Pi.add_apply, Pi.sub_apply, Pi.neg_apply]
    ring
  · rintro ⟨more, rfl⟩
    exact ⟨more, _, _, ht⟩

theorem returns_redistribute {index : ℕ} {nb frame : PageNum}
    (hsides : index = 0 ∧ a = [] ∧ frame = L.page ∧ nb = R.page ∨
      index = a.length + 1 ∧ frame = R.page ∧ nb = L.page)
    (hsizes : ∀ m, m ∈ P ∨ m ∈ S → m.items.length ≤ h.leafMaxSize ∧ leafLo ≤ m.items.length)
    (hL : L.items.length ≤ h.leafMaxSize ∧ L.items ≠ [])
    (hR : R.items.length ≤ h.leafMaxSize ∧ R.items ≠ [])
    (hmove : frame = L.page ∧ L.items.length < h.leafMaxSize ∧ leafLo ≤ L.items.length + 1 ∧
        leafLo + 1 ≤ R.items.length ∧ 2 ≤ R.items.length ∨
      frame = R.page ∧ R.items.length < h.leafMaxSize ∧ leafLo ≤ R.items.length + 1 ∧
        leafLo + 1 ≤ L.items.length ∧ 2 ≤ L.items.length) :
    Returns (redistribute .leaf nb frame y.page index) s fun rc s' => rc = .success ∧
      Resettled h r lo leafLo s (ref L.page + ref R.page + ref y.page) P L (frame = L.page)
        (entriesOf (P ++ L :: R :: S)) s' := by
  have hsib := hn.siblings
  obtain ⟨parL, nl, hLpage, hnl⟩ := hn.page_left
  obtain ⟨parR, nr, hRpage, hnr⟩ := hn.page_right
  obtain ⟨parY, hypage⟩ := hn.parent_page_eq
  rcases hsides with ⟨rfl, rfl, rfl, rfl⟩ | ⟨rfl, rfl, rfl⟩
  · obtain ⟨-, h1, h2, h3, h4⟩ | ⟨he, -⟩ := hmove
    swap
    · exact absurd he hsib.ne
    obtain ⟨x, items, hRi⟩ := List.exists_cons_of_ne_nil hR.2
    rw [hRi] at h3 h4 hRpage
    obtain ⟨⟨k, v⟩, ir, rfl⟩ := List.exists_cons_of_ne_nil (l := items) (by rintro rfl; simp at h4)
    have hmv := returns_moveFirstToEnd_leaf hRpage hLpage hsib.ne.symm
    refine (returns_redistribute_first hsib hypage (by simp) (by simp [Page.isLeaf])
      (show _ = some k by simp [Page.keys]) hmv).mono ?_
    rintro rc s' ⟨rfl, hbr⟩
    refine ⟨rfl, (hn.borrowed hnl hnr hsizes (by simp [hRi]) (by simp) hbr ?_ ?_).imp
      fun _ => ⟨[x], rfl⟩⟩
    · simp only [List.length_append, List.length_cons, List.length_nil]
      omega
    · have := hR.1
      rw [hRi] at this
      simp only [List.length_cons] at this h3 ⊢
      omega
  · obtain ⟨he, -⟩ | ⟨-, h1, h2, h3, h4⟩ := hmove
    · exact absurd he.symm hsib.ne
    obtain ⟨il, ⟨k, v⟩, hLi⟩ : ∃ il x, L.items = il ++ [x] := by
      rcases List.eq_nil_or_concat L.items with hx | ⟨t, m, hx⟩
      · exact absurd hx hL.2
      · exact ⟨t, m, by simpa using hx⟩
    rw [hLi] at h3 h4 hLpage
    have hmv := returns_moveLastToFront_leaf hLpage hRpage hsib.ne
    refine (returns_redistribute_last hsib hypage (by simp) (by simp [Page.isLeaf])
      (show _ = some k by simp [Page.keys]) hmv).mono ?_
    rintro rc s' ⟨rfl, hbr⟩
    refine ⟨rfl, (hn.borrowed hnl hnr hsizes (by simp [hLi]) ?_ hbr ?_ ?_).imp
      fun hkept => absurd hkept.symm hsib.ne⟩
    · rintro rfl
      simp at h4
    · have := hL.1
      rw [hLi] at this
      simp only [List.length_append, List.length_cons, List.length_nil] at this h3 ⊢
      omega
    · simp only [List.length_cons]
      omega

theorem returns_coalesce (hh : h.Orders) {fuel index : ℕ} {nb frame : PageNum}
    (hlo : lo = h.internalMaxSize / 2) (h2 : 2 ≤ lo) (hpos : 1 ≤ leafLo)
    (hz : ZeroBelow h lo (leafHeads (P ++ L :: R :: S)))
    (hsides : index = 0 ∧ a = [] ∧ frame = L.page ∧ nb = R.page ∨
      index = a.length + 1 ∧ frame = R.page ∧ nb = L.page)
    (hsizes : ∀ m, m ∈ P ∨ m ∈ S → m.items.length ≤ h.leafMaxSize ∧ leafLo ≤ m.items.length)
    (hmax : (L.items ++ R.items).length ≤ h.leafMaxSize)
    (hmin : leafLo ≤ (L.items ++ R.items).length) (hfuel : rest.length < fuel) :
    Returns (coalesce (coalesceOrRedistribute h fuel .internal) .leaf nb frame y.page index) s
      fun rc s' => rc = .success ∧ Resettled h r lo leafLo s
        (ref L.page + ref R.page + ref y.page) P L True (entriesOf (P ++ L :: R :: S)) s' := by
  have hsib := hn.siblings
  obtain ⟨parL, nl, hLpage, hnl⟩ := hn.page_left
  obtain ⟨parR, nr, hRpage, hnr⟩ := hn.page_right
  obtain ⟨parY, hypage⟩ := hn.parent_page_eq
  refine TDB.returns_coalesce (h := h)
    (.leaf 0 nr (L.items ++ R.items)) (.leaf 0 nr []) [] hsib hypage hsides ?_
    (fun _ => ⟨_, _, _, rfl, rfl⟩) ?_
  · intro s₁ hpages _
    exact returns_moveTo_leaf (by rw [hpages _ hsib.right_ne, hRpage])
      (by rw [hpages _ hsib.left_ne, hLpage]) hsib.ne.symm
  · intro s' hm
    have hup := hm.isOver hn.upper hn.kids (by simp) (by simp)
    have hheads : kidsOf pre ++ (a ++ L.asChild :: b) ++ kidsOf post =
        leafHeads (P ++ ⟨L.sep, L.page, L.items ++ R.items⟩ :: S) := by
      simp [hn.front, hn.back, Leaf.asChild]
    rw [hheads] at hup
    have hz' : ZeroBelow h lo (leafHeads (P ++ ⟨L.sep, L.page, L.items ++ R.items⟩ :: S)) := by
      refine hz.imp id fun hz c hc => hz c ?_
      simp only [leafHeads_append, leafHeads_cons, List.mem_append, List.mem_cons] at hc ⊢
      rcases hc with hc | rfl | hc
      · exact Or.inl hc
      · exact Or.inr (Or.inl rfl)
      · exact Or.inr (Or.inr (Or.inr hc))
    refine (returns_coalesceOrRedistribute_internal hh hlo h2 rest
      (x := ⟨y.page, a ++ L.asChild :: b⟩) hfuel hup hz').mono ?_
    rintro rc s'' ⟨rfl, levs', hsh⟩
    exact ⟨rfl, hn.merged hpos hsizes hmax hmin hnr hm hsh⟩

end LeafNeighbours

/-! ## `coalesce_or_redistribute` of a leaf -/

theorem Resettled.of_pins {p q : PageNum} {d : PageNum → ℤ} {s₁ : BplusTreeHandler A}
    {P : List (Leaf A)} {x : Leaf A} {kept : Prop} {es : List (Key A × RID)}
    (hp : PinsTwo s p q s₁) (hr : Resettled h r lo leafLo s₁ (d + ref p + ref q) P x kept es s') :
    Resettled h r lo leafLo s d P x kept es s' := by
  refine ⟨⟨hr.index, hr.allocFailures.trans hp.quiet.allocFailures, fun hpins => ?_⟩, hr.keeps⟩
  obtain ⟨h1, h2⟩ := hr.pins fun q => by
    rw [hp.quiet.pinCount, hpins]
    simp only [Pi.add_apply]
    ring
  exact ⟨h1, h2.trans hp.quiet.pinnedFrees⟩

theorem Tree.resettled_unpin {P S : List (Leaf A)} {x : Leaf A} {levs : List (Level A)}
    {p : PageNum} (ht : Tree h r s lo leafLo (P ++ x :: S) levs) (hpage : s.page p ≠ none)
    (kept : Prop) :
    Resettled h r lo leafLo s (ref p) P x kept (entriesOf (P ++ x :: S))
      (s.update p Frame.unpin) := by
  have hq := Quiet.unpin hpage
  have ht' : Tree h r (s.update p Frame.unpin) lo leafLo (P ++ x :: S) levs :=
    ht.congr hq.rootPage (fun q _ => by simp) fun q ha => (hq.allocated_iff q).mpr ha
  refine ⟨⟨Or.inr ⟨_, levs, ht', rfl⟩, hq.allocFailures, fun hpins =>
      ⟨fun q => ?_, hq.pinnedFrees⟩⟩, fun _ => ⟨[], S, levs, ?_⟩⟩
  · rw [hq.pinCount, hpins]
    simp
  · rw [List.append_nil]
    exact ht'

/-- The two pins and then `balance`, for a leaf whose sibling is known. -/
theorem LeafNeighbours.returns_balance (hh : h.Orders) {P S : List (Leaf A)} {L R x : Leaf A}
    {pre post : Level A} {y : Inner A} {rest : List (Level A)} {a b : List (Child A)}
    {s₁ : BplusTreeHandler A} {fuel index : ℕ} {nb parX next : PageNum} {e : Page A}
    (hn : LeafNeighbours h r s lo P L R S pre y post rest a b)
    (hlo : lo = h.internalMaxSize / 2) (h2 : 2 ≤ lo) (hleafLo : leafLo = h.leafMaxSize / 2)
    (h2' : 2 ≤ leafLo) (hz : ZeroBelow h lo (leafHeads (P ++ L :: R :: S)))
    (hsides : index = 0 ∧ a = [] ∧ x = L ∧ nb = R.page ∨
      index = a.length + 1 ∧ x = R ∧ nb = L.page)
    (hsizes : ∀ m ∈ P ++ L :: R :: S, m ≠ x → m.items.length ≤ h.leafMaxSize ∧
      leafLo ≤ m.items.length)
    (hx : leafLo ≤ x.items.length + 1)
    (hmin : x.items.length < (Page.leaf parX next x.items).minSize h)
    (he : s.page nb = some e) (hp : PinsTwo s y.page nb s₁) (hfuel : rest.length < fuel) :
    Returns (balance h fuel .leaf (.leaf parX next x.items) e nb x.page y.page index) s₁
      fun rc s' => rc = .success ∧ Resettled h r lo leafLo s (ref x.page) P L (x = L)
        (entriesOf (P ++ L :: R :: S)) s' := by
  have hn₁ : LeafNeighbours h r s₁ lo P L R S pre y post rest a b :=
    ⟨hn.shape.congr hp.quiet.rootPage (fun p _ => by rw [hp.page])
      fun p ha => (hp.quiet.allocated_iff p).mpr ha, hn.kids, hn.front, hn.back⟩
  obtain ⟨parL, nl, hLpage, hnl⟩ := hn.page_left
  obtain ⟨parR, nr, hRpage, hnr⟩ := hn.page_right
  have hsib := hn.siblings
  have hLR : L ≠ R := fun heq => hsib.ne (by rw [heq])
  have hother : ∀ m, m ∈ P ∨ m ∈ S → m.items.length ≤ h.leafMaxSize ∧
      leafLo ≤ m.items.length := by
    intro m hm
    obtain ⟨h1, h3, -⟩ := hn.page_ne hm
    refine hsizes m (mem_row_of_other (hm.imp_right (List.mem_cons_of_mem R))) ?_
    rintro rfl
    rcases hsides with ⟨-, -, rfl, -⟩ | ⟨-, rfl, -⟩
    · exact h1 rfl
    · exact h3 rfl
  simp only [Page.minSize, Page.maxSize] at hmin
  have hne : ∀ {items : List (Key A × RID)}, leafLo ≤ items.length + 1 → items ≠ [] := by
    intro items hlen
    exact List.ne_nil_of_length_pos (by omega)
  have hsize : ∀ (par next : PageNum) (items : List (Key A × RID)),
      (Page.leaf par next items).size = items.length := by
    intro par next items
    simp [Page.size, Page.keys]
  -- the sibling is the right one for the first child of the parent, else the left one
  rcases hsides with ⟨rfl, rfl, rfl, rfl⟩ | ⟨rfl, rfl, rfl⟩
  · obtain rfl : e = .leaf parR nr R.items :=
      Option.some.inj (he.symm.trans hRpage)
    have hR := hsizes R (by simp) hLR.symm
    have hd : ref x.page + ref R.page + ref y.page = ref x.page + ref y.page + ref R.page := by
      ac_rfl
    unfold balance
    simp only [Page.maxSize, hsize]
    split
    · refine (hn₁.returns_redistribute (Or.inl ⟨rfl, rfl, rfl, rfl⟩) hother
        ⟨by omega, hne hx⟩ ⟨hR.1, hne (by omega)⟩ (Or.inl ⟨rfl, by omega⟩)).mono ?_
      rintro rc s' ⟨rfl, hr⟩
      rw [hd] at hr
      exact ⟨rfl, (hr.of_pins hp).imp fun _ => rfl⟩
    · refine (hn₁.returns_coalesce hh hlo h2 (by omega) hz
        (Or.inl ⟨rfl, rfl, rfl, rfl⟩) hother (by rw [List.length_append]; omega)
        (by rw [List.length_append]; omega) hfuel).mono ?_
      rintro rc s' ⟨rfl, hr⟩
      rw [hd] at hr
      exact ⟨rfl, (hr.of_pins hp).imp fun _ => trivial⟩
  · obtain rfl : e = .leaf parL nl L.items := Option.some.inj (he.symm.trans hLpage)
    have hL := hsizes L (by simp) hLR
    have hd : ref L.page + ref x.page + ref y.page = ref x.page + ref y.page + ref L.page := by
      ac_rfl
    unfold balance
    simp only [Page.maxSize, hsize]
    split
    · refine (hn₁.returns_redistribute (Or.inr ⟨rfl, rfl, rfl⟩) hother
        ⟨hL.1, hne (by omega)⟩ ⟨by omega, hne hx⟩ (Or.inr ⟨rfl, by omega⟩)).mono ?_
      rintro rc s' ⟨rfl, hr⟩
      rw [hd] at hr
      exact ⟨rfl, (hr.of_pins hp).imp fun hkept => absurd hkept.symm hLR⟩
    · refine (hn₁.returns_coalesce hh hlo h2 (by omega) hz
        (Or.inr ⟨rfl, rfl, rfl⟩) hother (by rw [List.length_append]; omega)
        (by rw [List.length_append]; omega) hfuel).mono ?_
      rintro rc s' ⟨rfl, hr⟩
      rw [hd] at hr
      exact ⟨rfl, (hr.of_pins hp).imp fun _ => trivial⟩

end TDB
