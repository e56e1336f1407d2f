import TDB.TreeSearch

namespace TDB

open BplusTreeHandler Exec

variable {A : Type}

/-! ## Calls that only read pages -/

/-- The pages, the root and the file header are as they were. -/
structure Reads (s s' : BplusTreeHandler A) : Prop where
  page : s'.page = s.page
  rootPage : s'.rootPage = s.rootPage
  fileHeader : s'.fileBufferPool.fileHeader = s.fileBufferPool.fileHeader

namespace Reads

variable {s s₁ s₂ : BplusTreeHandler A}

theorem refl (s : BplusTreeHandler A) : Reads s s := ⟨rfl, rfl, rfl⟩

theorem pin (hr : Reads s s₁) (p : PageNum) : Reads s (s₁.update p Frame.pin) :=
  ⟨by rw [page_pin, hr.page], hr.rootPage, by rw [fileHeader_update, hr.fileHeader]⟩

theorem unpin (hr : Reads s s₁) (p : PageNum) : Reads s (s₁.update p Frame.unpin) :=
  ⟨by rw [page_unpin, hr.page], hr.rootPage, by rw [fileHeader_update, hr.fileHeader]⟩

theorem page_eq (hr : Reads s s₁) {p : PageNum} {d : Page A} (hp : s.page p = some d) :
    s₁.page p = some d := by
  rw [hr.page, hp]

end Reads

/-- The check `m` succeeds on every handler with the pages of `s`. -/
def Passes (s : BplusTreeHandler A) (m : TreeM A Bool) : Prop :=
  ∀ s₁, Reads s s₁ → Returns m s₁ fun ok s₂ => ok = true ∧ Reads s s₂

variable [LinearOrder (Key A)] {h : IndexFileHeader A} {r : Regime A} {s : BplusTreeHandler A}
  {lo leafLo : ℕ}

/-! ## The two `validate` functions -/

theorem keysIncrease_of_pairwise (hh : h.Orders) : ∀ {keys : List (Key A)},
    keys.Pairwise (· < ·) → keysIncrease h keys = true
  | [], _ => rfl
  | [_], _ => rfl
  | k :: k' :: rest, hp => by
    obtain ⟨hlt, hrest⟩ := List.pairwise_cons.mp hp
    simp only [keysIncrease, Bool.and_eq_true, decide_eq_true_eq]
    exact ⟨(hh.lt_iff _ _).mpr (hlt k' (by simp)), keysIncrease_of_pairwise hh hrest⟩

omit [LinearOrder (Key A)] in
theorem valueIndex_stored {a b : List (Child A)} {c : Child A} (hne : ∀ c' ∈ a, c'.2 ≠ c.2) :
    valueIndex (stored h (a ++ c :: b)) c.2 = some a.length := by
  induction a with
  | nil => simp [valueIndex, List.findIdx?_cons]
  | cons c' a ih =>
    have ih := ih fun x hx => hne x (by simp [hx])
    have hc' := hne c' (by simp)
    unfold valueIndex at ih ⊢
    rw [List.cons_append, stored_cons, List.findIdx?_cons, ih]
    simp [hc']

/-- The last part of `validate`: the node's keys lie between the separators around it. -/
theorem Over.passes_validateInParent (hh : h.Orders) {front back : List (Child A)} {c : Child A}
    {levs : List (Level A)} (ho : Over h s lo none (front ++ c :: back) levs) {d : Page A}
    {low : ℕ} {first last : Key A} (hd : s.page c.2 = some d) (hnode : d.isLeaf ≠ none)
    (hpar : d.parent ≠ invalidPageNum) (hsize : 0 < d.size) (hlow : d.keys[low]? = some first)
    (hfirst : c.1 ≤ first) (hlast : d.keys[d.size - 1]? = some last)
    (hback : ∀ c' ∈ back, (last : WithBot (Key A)) < c'.1) :
    Passes s (validateInParent h c.2 d low) := by
  intro s₁ hr
  have hparent : s.parentPage c.2 = some d.parent := by
    unfold parentPage
    rw [hd]
    cases d <;> simp_all [Page.parent?, Page.parent, Page.isLeaf]
  cases levs with
  | nil =>
    obtain ⟨k, hcur, hroot⟩ := ho.above
    have hc : c.2 = s.rootPage := by
      have hmem : c ∈ front ++ c :: back := by simp
      rw [hcur] at hmem
      rw [List.mem_singleton.mp hmem]
    rw [hc, hroot] at hparent
    exact absurd (Option.some.inj hparent).symm hpar
  | cons lev rest =>
    obtain ⟨pre, y, post, a, b, rfl, hkids, rfl, rfl⟩ := ho.locate
    have hy := ho.above.2.1 y (by simp)
    obtain ⟨q, hypage⟩ := ho.above.row_page (y := y) (by simp)
    have hpy : d.parent = y.page := by
      rw [hy.parent c (by simp [hkids])] at hparent
      exact (Option.some.inj hparent).symm
    rw [hkids] at hypage
    have hinc : Increasing (a ++ c :: b) := by
      rw [← hkids]
      exact ho.increasing_kids (by simp)
    have hnodup : (childPages (a ++ c :: b)).Nodup := by
      rw [← hkids]
      exact ho.kids_nodup (by simp)
    have hindex : valueIndex (stored h (a ++ c :: b)) c.2 = some a.length := by
      refine valueIndex_stored fun c' hc' he => ?_
      rw [childPages_append, childPages_cons] at hnodup
      exact (List.nodup_append.mp hnodup).2.2 c'.2
        (TDB.mem_childPages.mpr ⟨c', hc', rfl⟩) c.2 (by simp) he
    have hself : (stored h (a ++ c :: b))[a.length]? = some (c.1.unbotD h.zeroKey, c.2) := by simp
    have hsucc : (stored h (a ++ c :: b))[a.length + 1]? =
        b.head?.map fun c' => (c'.1.unbotD h.zeroKey, c'.2) := by
      cases b <;> simp
    have hlen : (stored h (a ++ c :: b)).length = a.length + 1 + b.length := by
      simp
      omega
    generalize stored h (a ++ c :: b) = items at hypage hindex hself hsucc hlen
    unfold validateInParent
    rw [hpy, returns_bind, returns_getThisPage (by simp [hr.page_eq hypage])]
    simp only [fail_success, Bool.false_eq_true, ↓reduceIte]
    rw [returns_bind, returns_internalNode (by simpa using hr.page_eq hypage)]
    simp only [hindex]
    have hr₁ := hr.pin y.page
    -- the comparison with the separator behind the node
    have hnext : Returns (do
        if a.length + 1 < items.length then
          let key ← itemAt d.keys (d.size - 1 : ℤ)
          let item ← itemAt items ((a.length : ℤ) + 1)
          if 0 ≤ h.compare key item.1 then
            unpinPage y.page
            return false
        unpinPage y.page
        return true) (s₁.update y.page Frame.pin) fun ok s₂ => ok = true ∧ Reads s s₂ := by
      cases b with
      | nil => simpa [hlen] using hr₁.unpin y.page
      | cons c' b =>
        have hlt := hback c' (by simp)
        obtain ⟨k', hk'⟩ := WithBot.ne_bot_iff_exists.mp hlt.ne_bot
        rw [← hk', WithBot.coe_lt_coe] at hlt
        have hcmp : ¬ 0 ≤ h.compare last k' := not_le.mpr ((hh.lt_iff _ _).mpr hlt)
        have hlt' : a.length + 1 < items.length := by simp [hlen]
        simp only [hlt', ↓reduceIte, returns_bind]
        rw [returns_itemAt (i := d.size - 1) (by omega) hlast,
          returns_itemAt (i := a.length + 1) (x := (k', c'.2)) (by simp) (by simp [hsucc, ← hk'])]
        simpa [hcmp] using hr₁.unpin y.page
    cases a with
    | nil => simpa using hnext
    | cons x a =>
      have hbot : c.1 ≠ ⊥ :=
        ((List.pairwise_append.mp hinc).2.2 x (by simp) c (by simp)).ne_bot
      obtain ⟨k, hk⟩ := WithBot.ne_bot_iff_exists.mp hbot
      rw [← hk, WithBot.coe_le_coe] at hfirst
      have hcmp : ¬ h.compare first k < 0 := by
        rw [hh.lt_iff]
        exact hfirst.not_gt
      have hpos : ¬ 0 = (x :: a).length := by simp
      simp only [hpos, ne_eq, not_false_eq_true, ↓reduceIte, returns_bind]
      rw [returns_itemAt (i := low) rfl hlow,
        returns_itemAt (i := (x :: a).length) (x := (k, c.2)) rfl (by rw [hself, ← hk]; rfl)]
      simpa [hcmp] using hnext

theorem Tree.passes_validateLeaf (hh : h.Orders) {pre post : List (Leaf A)} {l : Leaf A}
    {levs : List (Level A)} (ht : Tree h r s lo leafLo (pre ++ l :: post) levs)
    (hpos : 1 ≤ leafLo) : Passes s (validateLeaf h l.page) := by
  intro s₁ hr
  obtain ⟨par, next, hpar, hpage, -⟩ := ht.page_leaf
  have hok := ht.leafOk l (by simp)
  have hlen : 0 < l.items.length := by
    have := (ht.sized l (by simp)).2
    split at this <;> omega
  have hsize : (Page.leaf par next l.items).size = l.items.length := by
    simp [Page.size, Page.keys]
  have hroot : validateRoot (.leaf par next l.items) = true := by
    unfold validateRoot
    split
    · simp only [hsize, Page.isLeaf, Bool.and_eq_true, decide_eq_true_eq]
      exact ⟨hlen, rfl⟩
    · rfl
  have hkeys : keysIncrease h (Page.leaf par next l.items).keys = true :=
    keysIncrease_of_pairwise hh (List.pairwise_map.mpr hok.increasing)
  unfold validateLeaf
  rw [returns_bind, returns_node (hr.page_eq hpage) (by simp [Page.isLeaf])]
  simp only [hroot, hkeys, Bool.not_true, Bool.false_eq_true, ↓reduceIte]
  split
  · simpa using hr
  · next hne =>
    obtain ⟨x, hx⟩ : ∃ x, l.items[0]? = some x := ⟨_, List.getElem?_eq_getElem hlen⟩
    obtain ⟨z, hz⟩ : ∃ z, l.items[l.items.length - 1]? = some z :=
      ⟨_, List.getElem?_eq_getElem (by omega)⟩
    have hover : Over h s lo none (leafHeads pre ++ l.asChild :: leafHeads post) levs := by
      simpa using ht.isOver
    refine hover.passes_validateInParent hh hpage
      (by simp [Page.isLeaf]) hne (by rw [hsize]; exact hlen) (by simp [Page.keys, hx])
      (hok.sep_le x (List.mem_of_getElem? hx))
      (show _ = some z.1 by simp [hsize, Page.keys, hz]) ?_ s₁ hr
    intro c' hc'
    obtain ⟨l', hl', rfl⟩ := List.mem_map.mp hc'
    exact (List.pairwise_cons.mp (List.pairwise_append.mp ht.apart).2.1).1 l' hl' z
      (List.mem_of_getElem? hz)

omit [LinearOrder (Key A)] in
theorem passes_validateChildren {p : PageNum} : ∀ {kids : List (Child A)},
    (∀ c ∈ kids, s.parentPage c.2 = some p) → Passes s (validateChildren p (stored h kids))
  | [], _ => fun s₁ hr => by simpa [validateChildren] using hr
  | c :: kids, hp => fun s₁ hr => by
    obtain ⟨d, hd, hnode, hpar⟩ := node_of_parentPage (hp c (by simp))
    have ih := passes_validateChildren fun c' (hc' : c' ∈ kids) => hp c' (by simp [hc'])
    rw [stored_cons]
    unfold validateChildren
    dsimp only
    split
    · simpa using ih s₁ hr
    · rw [returns_bind, returns_getThisPage (by simp [hr.page_eq hd])]
      simp only [fail_success, Bool.false_eq_true, ↓reduceIte]
      rw [returns_bind, returns_node (by simpa using hr.page_eq hd) hnode]
      simp only [returns_bind, returns_unpinPage, hpar, ne_eq, not_true_eq_false, ↓reduceIte]
      exact ih _ ((hr.pin c.2).unpin c.2)

theorem Over.passes_validateInternal (hh : h.Orders) (h2 : 2 ≤ lo) {cur : List (Child A)}
    {pre post : Level A} {y : Inner A} {rest : List (Level A)}
    (ho : Over h s lo none cur ((pre ++ y :: post) :: rest)) :
    Passes s (validateInternal h y.page) := by
  intro s₁ hr
  have hy := ho.above.2.1 y (by simp)
  obtain ⟨par, hpage⟩ := ho.above.row_page (y := y) (by simp)
  have hinc : Increasing y.kids := ho.increasing_kids (by simp)
  have hlen : 2 ≤ y.kids.length := by
    have := (ho.sized.1 y (by simp)).2
    simp only [reduceCtorEq, ↓reduceIte, add_zero] at this
    split at this <;> omega
  have hsize : (Page.internal par (stored h y.kids)).size = y.kids.length := by
    simp [Page.size, Page.keys]
  have hroot : validateRoot (.internal par (stored h y.kids)) = true := by
    unfold validateRoot
    split
    · simp only [hsize, Bool.and_eq_true, decide_eq_true_eq, Bool.or_eq_true]
      exact ⟨by omega, Or.inr hlen⟩
    · rfl
  obtain ⟨c₀, t, hkids⟩ := List.exists_cons_of_ne_nil hy.nonempty
  rw [hkids] at hinc
  obtain ⟨hbelow, htail⟩ := List.pairwise_cons.mp hinc
  -- key 0 is never read: the other separators are keys
  have hkey : ∀ c ∈ t, ∃ k : Key A, (k : WithBot (Key A)) = c.1 :=
    fun c hc => WithBot.ne_bot_iff_exists.mp (hbelow c hc).ne_bot
  have hkeys : keysIncrease h (Page.internal par (stored h y.kids)).keys.tail = true := by
    refine keysIncrease_of_pairwise hh ?_
    simp only [Page.keys, hkids, stored_cons, List.map_cons, List.tail_cons]
    refine List.pairwise_map.mpr (List.pairwise_map.mpr
      (htail.imp_of_mem fun {c c'} hc hc' hlt => ?_))
    obtain ⟨k, hk⟩ := hkey c hc
    obtain ⟨k', hk'⟩ := hkey c' hc'
    rw [← hk, ← hk', WithBot.coe_lt_coe] at hlt
    simpa [← hk, ← hk'] using hlt
  unfold validateInternal
  rw [returns_bind, returns_node (hr.page_eq hpage) (by simp [Page.isLeaf])]
  simp only [hroot, hkeys, Bool.not_true, Bool.false_eq_true, ↓reduceIte]
  rw [returns_bind, returns_internalNode (hr.page_eq hpage)]
  dsimp only
  refine (passes_validateChildren hy.parent s₁ hr).bind ?_
  rintro _ s₂ ⟨rfl, hr₂⟩
  simp only [Bool.not_true, Bool.false_eq_true, ↓reduceIte]
  split
  · simpa using hr₂
  · next hne =>
    -- not the root: the parent is checked against the second and the last key of the node
    obtain ⟨c₁, t', rfl⟩ := List.exists_cons_of_ne_nil (l := t) (by
      rintro rfl
      simp [hkids] at hlen)
    obtain ⟨t₀, z, hz⟩ : ∃ t₀ z, c₁ :: t' = t₀ ++ [z] := by
      rcases List.eq_nil_or_concat (c₁ :: t') with hx | ⟨t₀, z, hx⟩
      · simp at hx
      · exact ⟨t₀, z, by simpa using hx⟩
    obtain ⟨k₁, hk₁⟩ := hkey c₁ (by simp)
    obtain ⟨kz, hkz⟩ := hkey z (by simp [hz])
    have hover : Over h s lo none (heads pre ++ y.asChild :: heads post) rest := by
      simpa using ho.up
    refine hover.passes_validateInParent hh hpage
      (by simp [Page.isLeaf]) hne (by rw [hsize]; omega)
      (show _ = some k₁ by simp [Page.keys, hkids, ← hk₁]) ?_ (show _ = some kz from ?_) ?_ s₂ hr₂
    · rw [hk₁]
      simpa [Inner.asChild, Inner.sep_eq hkids] using (hbelow c₁ (by simp)).le
    · rw [hsize, hkids, hz]
      simp [Page.keys, ← hkz]
    · intro c' hc'
      obtain ⟨y', hy', rfl⟩ := List.mem_map.mp hc'
      obtain ⟨c, rest', hc⟩ := List.exists_cons_of_ne_nil
        (ho.above.2.1 y' (by simp [hy'])).nonempty
      have hcur := ho.increasing
      rw [← ho.above.1, kidsOf_append, kidsOf_cons, hkids, hz] at hcur
      rw [hkz]
      have hmem : c ∈ kidsOf post := List.mem_flatMap.mpr ⟨y', hy', by simp [hc]⟩
      have := (List.pairwise_append.mp (List.pairwise_append.mp hcur).2.1).2.2 z (by simp) c hmem
      simpa [Inner.asChild, Inner.sep_eq hc] using this

/-! ## `validate_node_recursive` -/

omit [LinearOrder (Key A)] in
theorem passes_validateEach {recur : PageNum → TreeM A Bool} : ∀ {kids : List (Child A)},
    (∀ c ∈ kids, s.page c.2 ≠ none ∧ Passes s (recur c.2)) →
    Passes s (validateEach recur (stored h kids))
  | [], _ => fun s₁ hr => by simpa [validateEach] using hr
  | c :: kids, hp => fun s₁ hr => by
    obtain ⟨hpage, hrec⟩ := hp c (by simp)
    have ih := passes_validateEach fun c' (hc' : c' ∈ kids) => hp c' (by simp [hc'])
    rw [stored_cons]
    unfold validateEach
    rw [returns_bind, returns_getThisPage (by rw [hr.page]; exact hpage)]
    simp only [fail_success, Bool.false_eq_true, ↓reduceIte]
    refine (hrec _ (hr.pin c.2)).bind ?_
    rintro _ s₂ ⟨rfl, hr₂⟩
    simpa using ih s₂ hr₂

/-- The step of the recursion: a row whose children pass. -/
theorem Over.passes_row (hh : h.Orders) (h2 : 2 ≤ lo) {cur : List (Child A)} {lev : Level A}
    {rest : List (Level A)} {fuel : ℕ} (ho : Over h s lo none cur (lev :: rest))
    (hcur : ∀ c ∈ cur, Passes s (validateNodeRecursive h fuel c.2)) :
    ∀ c ∈ heads lev, Passes s (validateNodeRecursive h (fuel + 1) c.2) := by
  intro c hc s₁ hr
  obtain ⟨y, hy, rfl⟩ := List.mem_map.mp hc
  have hsub := ho.kids_sublist hy
  obtain ⟨pre, post, rfl⟩ := List.append_of_mem hy
  have hnode := ho.above.2.1 y hy
  obtain ⟨par, hpage⟩ := ho.above.row_page hy
  rw [Inner.asChild]
  unfold validateNodeRecursive
  rw [returns_bind, returns_node (hr.page_eq hpage) (by simp [Page.isLeaf])]
  dsimp only
  refine (ho.passes_validateInternal hh h2 s₁ hr).bind ?_
  rintro _ s₂ ⟨rfl, hr₂⟩
  simp only [↓reduceIte, returns_bind]
  refine (passes_validateEach (fun c hc => ⟨?_, hcur c (hsub.subset hc)⟩) s₂ hr₂).mono ?_
  · exact page_ne_none_of_parentPage (by simp [hnode.parent c hc])
  · rintro _ s₃ ⟨rfl, hr₃⟩
    simpa using hr₃.unpin _

theorem Over.passes_root (hh : h.Orders) (h2 : 2 ≤ lo) : ∀ {levs : List (Level A)}
    {cur : List (Child A)} {fuel : ℕ}, Over h s lo none cur levs →
    (∀ c ∈ cur, Passes s (validateNodeRecursive h fuel c.2)) →
    Passes s (validateNodeRecursive h (fuel + levs.length) s.rootPage)
  | [], cur, fuel, ho, hcur => by
    obtain ⟨k, rfl, -⟩ := ho.above
    exact hcur (k, s.rootPage) (by simp)
  | lev :: rest, cur, fuel, ho, hcur => by
    rw [List.length_cons, Nat.add_comm rest.length 1, ← Nat.add_assoc]
    exact ho.up.passes_root hh h2 (ho.passes_row hh h2 hcur)

theorem Tree.passes_validateNodeRecursive (hh : h.Orders) (h2 : 2 ≤ lo) (hpos : 1 ≤ leafLo)
    {leaves : List (Leaf A)} {levs : List (Level A)} (ht : Tree h r s lo leafLo leaves levs)
    {fuel : ℕ} (hfuel : levs.length < fuel) :
    Passes s (validateNodeRecursive h fuel s.rootPage) := by
  obtain ⟨n, rfl⟩ : ∃ n, fuel = n + 1 + levs.length := ⟨fuel - levs.length - 1, by omega⟩
  refine ht.isOver.passes_root hh h2 fun c hc s₁ hr => ?_
  obtain ⟨l, hl, rfl⟩ := List.mem_map.mp hc
  obtain ⟨pre, post, rfl⟩ := List.append_of_mem hl
  obtain ⟨par, next, -, hpage, -⟩ := ht.page_leaf
  unfold validateNodeRecursive
  rw [asChild_snd, returns_bind, returns_node (hr.page_eq hpage) (by simp [Page.isLeaf])]
  dsimp only
  refine (ht.passes_validateLeaf hh hpos s₁ hr).bind ?_
  rintro _ s₂ ⟨rfl, hr₂⟩
  simpa using hr₂.unpin _

/-! ## `validate_leaf_link` and `validate_tree` -/

theorem passes_validateLinkFrom (hh : h.Orders) : ∀ {leaves : List (Leaf A)} {l : Leaf A}
    {fuel : ℕ}, leaves.length < fuel → Linked s True invalidPageNum (l :: leaves) →
    (∀ m ∈ l :: leaves, LeafOk r.good m ∧ m.items ≠ [] ∧ m.page ≠ invalidPageNum) →
    Apart (l :: leaves) → Passes s (validateLinkFrom h fuel l.page)
  | leaves, l, fuel, hfuel, ⟨⟨next, hbody, hnext⟩, hrest⟩, hok, hapart => fun s₁ hr => by
    obtain ⟨n, rfl⟩ : ∃ n, fuel = n + 1 := ⟨fuel - 1, by omega⟩
    obtain ⟨par, hpage⟩ := exists_page_leaf hbody
    rw [hnext trivial] at hpage
    have hlen : 0 < l.items.length := List.length_pos_iff.mpr (hok l (by simp)).2.1
    obtain ⟨z, hz⟩ : ∃ z, l.items[l.items.length - 1]? = some z :=
      ⟨_, List.getElem?_eq_getElem (by omega)⟩
    unfold validateLinkFrom
    rw [returns_bind, returns_leafNode (hr.page_eq hpage)]
    dsimp only
    rw [returns_bind, returns_itemAt (i := l.items.length - 1) (by omega) hz]
    cases leaves with
    | nil => simpa [chainHead] using hr.unpin l.page
    | cons m rest =>
      obtain ⟨hm, hmne, hmp⟩ := hok m (by simp)
      obtain ⟨⟨next', hbody', -⟩, -⟩ := id hrest
      obtain ⟨par', hpage'⟩ := exists_page_leaf hbody'
      obtain ⟨x, items, hx⟩ := List.exists_cons_of_ne_nil hmne
      have hr₂ := (hr.unpin l.page).pin m.page
      have hlt : z.1 < x.1 := WithBot.coe_lt_coe.mp
        (((List.pairwise_cons.mp hapart).1 m (by simp) z (List.mem_of_getElem? hz)).trans_le
          (hm.sep_le x (by simp [hx])))
      have hcmp : ¬ 0 ≤ h.compare z.1 x.1 := not_le.mpr ((hh.lt_iff _ _).mpr hlt)
      simp only [chainHead, hmp, ↓reduceIte, returns_bind, returns_unpinPage]
      rw [returns_getThisPage (by simp [hr.page, hpage'])]
      simp only [fail_success, Bool.false_eq_true, ↓reduceIte, returns_bind]
      rw [returns_leafNode (hr₂.page_eq hpage')]
      dsimp only
      rw [returns_itemAt (i := 0) (x := x) (by simp) (by simp [hx])]
      simp only [hcmp, ↓reduceIte]
      exact passes_validateLinkFrom hh (by simpa using hfuel) hrest
        (fun m' hm' => hok m' (List.mem_cons_of_mem _ hm')) (List.pairwise_cons.mp hapart).2 _ hr₂

theorem Tree.returns_validateLeafLink (hh : h.Orders) (hc : r.chained = True) (hpos : 1 ≤ leafLo)
    {leaves : List (Leaf A)} {levs : List (Level A)} (ht : Tree h r s lo leafLo leaves levs) :
    Returns (validateLeafLink h) s fun ok _ => ok = true := by
  obtain ⟨l, rest, rfl⟩ := List.exists_cons_of_ne_nil ht.ne_nil
  have hlinked := ht.linked
  rw [hc] at hlinked
  have hcount : rest.length < s.fileBufferPool.fileHeader.pageCount := by
    have hle := length_le_pageCount (List.nodup_append.mp ht.isOver.nodup).1
      fun p hp => ht.isOver.inFile (List.mem_append_left _ hp)
    have hlen : (childPages (leafHeads (l :: rest))).length = rest.length + 1 := by
      simp [childPages, leafHeads]
    omega
  unfold validateLeafLink
  simp only [returns_bind, returns_get, ht.isOver.isEmpty_eq, Bool.false_eq_true, ↓reduceIte]
  refine (returns_leftMostPage ht.toShape).mono ?_
  rintro _ s₁ ⟨rfl, hr⟩
  simp only [fail_success, Bool.false_eq_true, ↓reduceIte, returns_bind, returns_linkBound]
  rw [hr.quiet.fileHeader]
  refine (passes_validateLinkFrom (r := r) hh hcount hlinked (fun m hm => ⟨ht.leafOk m hm, ?_, ?_⟩)
    ht.apart s₁ ⟨hr.page, hr.quiet.rootPage, hr.quiet.fileHeader⟩).mono fun _ _ hok => hok.1
  · have := (ht.sized m hm).2
    refine List.ne_nil_of_length_pos ?_
    split at this <;> omega
  · exact ne_invalidPageNum (ht.isOver.allocated _ (List.mem_append_left _ (mem_leafPages hm)))

theorem Tree.returns_validateTree (hh : h.Orders) (hc : r.chained = True) (h2 : 2 ≤ lo)
    (hpos : 1 ≤ leafLo) {leaves : List (Leaf A)} {levs : List (Level A)}
    (ht : Tree h r s lo leafLo leaves levs) :
    Returns (validateTree h) s fun ok _ => ok = true := by
  have hroot : s.page s.rootPage ≠ none := ht.isOver.root_page_ne_none
  unfold validateTree
  simp only [returns_bind, returns_get, ht.isOver.isEmpty_eq, Bool.false_eq_true, ↓reduceIte]
  rw [returns_getThisPage hroot]
  simp only [fail_success, Bool.false_eq_true, ↓reduceIte, returns_bind, returns_linkBound,
    fileHeader_update]
  refine (ht.passes_validateNodeRecursive hh h2 hpos ht.isOver.length_lt _
    ((Reads.refl s).pin s.rootPage)).mono ?_
  rintro _ s₁ ⟨rfl, hr⟩
  have ht₁ : Tree h r s₁ lo leafLo leaves levs := ht.congr hr.rootPage (fun p _ => by rw [hr.page])
    fun p hp => by
      unfold allocated at hp ⊢
      rwa [hr.fileHeader]
  simpa using ht₁.returns_validateLeafLink hh hc hpos

end TDB
