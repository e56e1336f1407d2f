import TDB.SiblingMoves

namespace TDB

open BplusTreeHandler Exec

variable {A : Type}

/-! ## From a node to its sibling -/

section prelude

variable {h : IndexFileHeader A} {s : BplusTreeHandler A} {T : NodeType} {frame y par : PageNum}
  {a b : List (Child A)} {c : Child A} {d : Page A} {key : Key A} {fuel : ℕ}
  {Q : RC → BplusTreeHandler A → Prop}

/-- Two more pages are pinned and nothing else changed. -/
structure PinsTwo (s : BplusTreeHandler A) (p q : PageNum) (s' : BplusTreeHandler A) : Prop where
  page : s'.page = s.page
  quiet : Quiet s s' (ref p + ref q)

/-- The last part of `coalesce_or_redistribute`. -/
def balance (h : IndexFileHeader A) (fuel : ℕ) (T : NodeType) (d e : Page A)
    (nb frame y : PageNum) (index : ℕ) : TreeM A RC :=
  if d.maxSize h < d.size + e.size then redistribute T nb frame y index
  else coalesce (coalesceOrRedistribute h fuel .internal) T nb frame y index

/-- `coalesce_or_redistribute` of a node that has too few items, up to the choice between the two:
the first child is paired with the second, every other one with the child before it. -/
theorem returns_coalesceOrRedistribute_siblings (hd : s.page frame = some d)
    (hnode : d.isLeaf ≠ none) (hmin : d.size < d.minSize h) (hpar : d.parent = y)
    (hy : y ≠ invalidPageNum) (hypage : s.page y = some (.internal par (stored h (a ++ c :: b))))
    (hc : c.2 = frame) (hpos : 0 < d.size) (hkey : d.keys[d.size - 1]? = some key)
    (hlook : internalLookup h (stored h (a ++ c :: b)) key = a.length)
    (hnodes : ∀ c' ∈ a ++ c :: b, s.parentPage c'.2 ≠ none) (hsib : a ≠ [] ∨ b ≠ [])
    (hfirst : ∀ r b' e s', a = [] → b = r :: b' → s.page r.2 = some e → PinsTwo s y r.2 s' →
      Returns (balance h fuel T d e r.2 frame y 0) s' Q)
    (hother : ∀ a' l e s', a = a' ++ [l] → s.page l.2 = some e → PinsTwo s y l.2 s' →
      Returns (balance h fuel T d e l.2 frame y (a'.length + 1)) s' Q) :
    Returns (coalesceOrRedistribute h (fuel + 1) T frame) s Q := by
  have hypage' : s.page y ≠ none := by simp [hypage]
  unfold coalesceOrRedistribute
  rw [returns_bind, returns_node hd hnode]
  simp only [hmin.not_ge, ↓reduceIte, hpar, hy.symm]
  rw [returns_bind, returns_getThisPage hypage']
  simp only [fail_success, Bool.false_eq_true, ↓reduceIte]
  rw [returns_bind, returns_internalNode
    (by rw [page_pin]; exact hypage)]
  dsimp only
  rw [returns_bind, returns_itemAt (i := d.size - 1) (by omega) hkey]
  simp only [hlook]
  rw [returns_bind, returns_itemAt (i := a.length) (x := (c.1.unbotD h.zeroKey, c.2)) rfl
    (by simp)]
  simp only [hc, ne_eq, not_true_eq_false, ↓reduceIte]
  -- the neighbour, once its index is known
  have hnext : ∀ {nb : Child A} {index : ℕ}, nb ∈ a ++ c :: b →
      (∀ e s', s.page nb.2 = some e → PinsTwo s y nb.2 s' →
        Returns (balance h fuel T d e nb.2 frame y index) s' Q) →
      Returns (do
        let rc ← getThisPage nb.2
        if rc.fail then
          unpinPage frame
          unpinPage y
          return rc
        let neighborNode ← node nb.2
        if d.maxSize h < d.size + neighborNode.size then
          redistribute T nb.2 frame y index
        else coalesce (coalesceOrRedistribute h fuel .internal) T nb.2 frame y index)
        (s.update y Frame.pin) Q := by
    intro nb index hmem hrun
    obtain ⟨p, hp⟩ := Option.ne_none_iff_exists'.mp (hnodes nb hmem)
    obtain ⟨e, he, henode, -⟩ := node_of_parentPage hp
    have hpage : (s.update y Frame.pin).page nb.2 ≠ none := by simp [he]
    rw [returns_bind, returns_getThisPage hpage]
    simp only [fail_success, Bool.false_eq_true, ↓reduceIte]
    rw [returns_bind, returns_node (by simpa using he) henode]
    exact hrun e _ he ⟨by simp, (Quiet.pin hypage').trans (Quiet.pin hpage)⟩
  rcases List.eq_nil_or_concat a with rfl | ⟨a', l, rfl⟩
  · obtain ⟨r, b', rfl⟩ := List.exists_cons_of_ne_nil (hsib.resolve_left fun hne => hne rfl)
    simp only [List.length_nil, ↓reduceIte]
    rw [returns_bind, returns_itemAt (i := 1) (x := (r.1.unbotD h.zeroKey, r.2))
      (by simp) (by simp)]
    exact hnext (by simp) fun e s' he hs' => hfirst r b' e s' rfl rfl he hs'
  · have hne : (a' ++ [l]).length ≠ 0 := by simp
    simp only [List.concat_eq_append] at hne hnext ⊢
    simp only [hne, ↓reduceIte]
    rw [returns_bind, returns_itemAt (i := a'.length) (x := (l.1.unbotD h.zeroKey, l.2))
      (by simp) (by simp)]
    have hlen : (a' ++ [l]).length = a'.length + 1 := by simp
    rw [hlen]
    exact hnext (by simp) fun e s' he hs' => hother a' l e s' (by simp) he hs'

end prelude

/-! ## The rows after a change of one node's children -/

section rows

variable [LinearOrder (Key A)] {h : IndexFileHeader A} {s s' : BplusTreeHandler A} {lo : ℕ}
  {short short' : Option PageNum} {pre post : Level A} {y : Inner A} {rest : List (Level A)}

variable (short') in
/-- A node of the lowest row keeps its children `f` and gets other ones behind them. -/
theorem Over.setKids (kids : List (Child A)) {f t : List (Child A)}
    (ho : Over h s lo short (kidsOf pre ++ y.kids ++ kidsOf post) ((pre ++ y :: post) :: rest))
    (hkids : y.kids = f ++ t) (hf : f ≠ []) (hroot : s'.rootPage = s.rootPage)
    (hsub : (childPages kids).Sublist (childPages t))
    (hbody : s'.body y.page = some (.internal 0 (stored h (f ++ kids))))
    (hb : ∀ p ∈ levelPages ((pre ++ y :: post) :: rest), p ≠ y.page → s'.body p = s.body p)
    (hp : ∀ p ∈ childPages (kidsOf pre ++ (f ++ kids) ++ kidsOf post) ++
      levelPages ((pre ++ y :: post) :: rest), s'.parentPage p = s.parentPage p)
    (ha : ∀ p ∈ childPages (kidsOf pre ++ (f ++ kids) ++ kidsOf post) ++
      levelPages ((pre ++ y :: post) :: rest), s'.allocated p)
    (hinc : Increasing (kidsOf pre ++ (f ++ kids) ++ kidsOf post))
    (hsized : (f ++ kids).length ≤ h.internalMaxSize ∧ (if rest = [] then min 2 lo else lo) ≤
      (f ++ kids).length + if short' = some y.page then 1 else 0)
    (hshort : ∀ p ∈ levelPages ((pre ++ y :: post) :: rest), p ≠ y.page →
      (short = some p ↔ short' = some p)) :
    Over h s' lo short' (kidsOf pre ++ (f ++ kids) ++ kidsOf post)
      ((pre ++ ⟨y.page, f ++ kids⟩ :: post) :: rest) := by
  obtain ⟨l, f', rfl⟩ := List.exists_cons_of_ne_nil hf
  have hnode := ho.above.2.1 y (by simp)
  have hpages : (childPages (kidsOf pre ++ (l :: f' ++ kids) ++ kidsOf post)).Sublist
      (childPages (kidsOf pre ++ y.kids ++ kidsOf post)) := by
    rw [hkids]
    simp only [childPages_append]
    exact ((List.Sublist.refl _).append ((List.Sublist.refl _).append hsub)).append
      (List.Sublist.refl _)
  -- the separator of the node stays, since its first child does
  refine ho.replace hroot ?_ ⟨by simp, hbody, ?_⟩ hb ?_ ?_ ?_ ha hinc ?_ ?_
  · rw [Inner.sep_eq (y := y) hkids]
    rfl
  · intro c hc
    have hmem : c.2 ∈ childPages (l :: f' ++ kids) := TDB.mem_childPages.mpr ⟨c, hc, rfl⟩
    rw [hp c.2 (by
      rw [childPages_append, childPages_append]
      simp only [List.mem_append]
      tauto)]
    have hold : c.2 ∈ childPages y.kids := by
      rw [hkids, childPages_append]
      rw [childPages_append] at hmem
      exact ((List.Sublist.refl _).append hsub).subset hmem
    obtain ⟨c', hc', heq⟩ := TDB.mem_childPages.mp hold
    rw [← heq]
    exact hnode.parent c' hc'
  · exact fun p hm => hp p (List.mem_append_right _ hm)
  · intro c hc
    refine hp _ (List.mem_append_left _ (TDB.mem_childPages.mpr ⟨c, ?_, rfl⟩))
    simp only [List.mem_append] at hc ⊢
    tauto
  · exact ho.nodup.sublist (hpages.append (List.Sublist.refl _))
  · have hleft := ho.leftmost
    rw [hkids] at hleft
    cases hpre : kidsOf pre with
    | nil => simpa [hpre] using hleft
    | cons x xs => simpa [hpre] using hleft
  · obtain ⟨hlev, hrest⟩ := ho.sized
    have hyrest : ∀ p ∈ levelPages rest, p ≠ y.page := by
      rintro p hp rfl
      exact ho.not_mem_rest (by simp) hp
    refine ⟨fun z hz => ?_, hrest.congr_short fun p hp => ?_⟩
    · have hother : z ∈ pre ∨ z ∈ post → z.kids.length ≤ h.internalMaxSize ∧
          (if rest = [] then min 2 lo else lo) ≤ z.kids.length +
            if short' = some z.page then 1 else 0 := by
        intro hz'
        have hmem : z ∈ pre ++ y :: post := mem_row_of_other hz'
        have hiff := hshort z.page (mem_levelPages_of_mem (by simp) hmem) (ho.page_ne hz')
        simpa [hiff] using hlev z hmem
      obtain rfl | hz := mem_row.mp hz
      · exact hsized
      · exact hother hz
    · exact hshort p (by simp [hp]) (hyrest p hp)

section siblings

variable {a b : List (Child A)} {l r : Child A} {left right : Page A} {moved : List PageNum}
  {dest : PageNum} {k : Key A}

theorem Over.kid_ne_level
    (ho : Over h s lo short (kidsOf pre ++ y.kids ++ kidsOf post) ((pre ++ y :: post) :: rest)) :
    ∀ c ∈ y.kids, ∀ p ∈ levelPages ((pre ++ y :: post) :: rest), p ≠ c.2 := by
  rintro c hc p hp rfl
  refine ho.not_mem_levelPages ?_ hp
  rw [childPages_append, childPages_append]
  exact List.mem_append_left _ (List.mem_append_right _ (TDB.mem_childPages.mpr ⟨c, hc, rfl⟩))

theorem Over.siblings
    (ho : Over h s lo short (kidsOf pre ++ y.kids ++ kidsOf post) ((pre ++ y :: post) :: rest))
    (hkids : y.kids = a ++ l :: r :: b) : Siblings l.2 r.2 y.page := by
  have hnodup : (childPages y.kids).Nodup := ho.kids_nodup (by simp)
  have hlev : ∀ c ∈ y.kids, c.2 ≠ y.page :=
    fun c hc => (ho.kid_ne_level c hc y.page mem_levelPages_head).symm
  refine ⟨?_, hlev l (by simp [hkids]), hlev r (by simp [hkids])⟩
  rw [hkids, childPages_append, childPages_cons, childPages_cons] at hnodup
  intro he
  exact (List.nodup_cons.mp (List.nodup_append.mp hnodup).2.1).1 (by simp [he])

/-- The rows over two siblings that were merged: their parent may lack a child. -/
theorem Merged.isOver
    (hm : Merged s l.2 r.2 y.page left (.internal 0 (stored h (a ++ l :: b))) moved s')
    (ho : Over h s lo short (kidsOf pre ++ y.kids ++ kidsOf post) ((pre ++ y :: post) :: rest))
    (hkids : y.kids = a ++ l :: r :: b)
    (hmoved : ∀ p ∈ childPages (kidsOf pre ++ y.kids ++ kidsOf post) ++
      levelPages ((pre ++ y :: post) :: rest), p ∉ moved)
    (hshort : ∀ p ∈ levelPages ((pre ++ y :: post) :: rest), short ≠ some p) :
    Over h s' lo (some y.page) (kidsOf pre ++ (a ++ l :: b) ++ kidsOf post)
      ((pre ++ ⟨y.page, a ++ l :: b⟩ :: post) :: rest) := by
  have hsub : (kidsOf pre ++ (a ++ l :: b) ++ kidsOf post).Sublist
      (kidsOf pre ++ y.kids ++ kidsOf post) := by
    rw [hkids]
    refine ((List.Sublist.refl _).append ?_).append (List.Sublist.refl _)
    exact (List.Sublist.refl a).append ((List.sublist_cons_self r b).cons_cons l)
  have hchild : ∀ p ∈ childPages (kidsOf pre ++ (a ++ l :: b) ++ kidsOf post) ++
      levelPages ((pre ++ y :: post) :: rest),
      p ∈ childPages (kidsOf pre ++ y.kids ++ kidsOf post) ++
        levelPages ((pre ++ y :: post) :: rest) ∧ p ≠ r.2 := by
    intro p hp
    refine ⟨((hsub.map Prod.snd).append (List.Sublist.refl _)).subset hp, ?_⟩
    rintro rfl
    have hnodup := ho.nodup
    rw [hkids] at hnodup
    have hperm : (childPages (kidsOf pre ++ (a ++ l :: r :: b) ++ kidsOf post) ++
        levelPages ((pre ++ y :: post) :: rest)).Perm
        (r.2 :: (childPages (kidsOf pre ++ (a ++ l :: b) ++ kidsOf post) ++
          levelPages ((pre ++ y :: post) :: rest))) := by
      have : (childPages (kidsOf pre ++ (a ++ [l])) ++ r.2 :: (childPages (b ++ kidsOf post) ++
          levelPages ((pre ++ y :: post) :: rest))).Perm _ := List.perm_middle
      simpa using this
    exact (List.nodup_cons.mp (hperm.nodup_iff.mp hnodup)).1 hp
  have hlevne := ho.kid_ne_level
  have hover := ho.setKids (some y.page) b (f := a ++ [l]) (t := r :: b) (by simp [hkids]) (by simp)
    hm.rootPage (by simp)
    (by simpa using hm.body_parent) ?_ ?_ ?_ ?_ ?_ ?_
  · simpa using hover
  · intro p hp hpy
    exact hm.body p (hlevne l (by simp [hkids]) p hp) (hlevne r (by simp [hkids]) p hp) hpy
  · intro p hp
    obtain ⟨h1, h2⟩ := hchild p (by simpa using hp)
    rw [hm.parentPage p h2, if_neg (hmoved p h1)]
  · intro p hp
    obtain ⟨h1, h2⟩ := hchild p (by simpa using hp)
    exact (hm.allocated_iff p).mpr ⟨ho.allocated p h1, h2⟩
  · simpa [Increasing] using ho.increasing.sublist hsub
  · have := ho.sized.1 y (by simp)
    rw [if_neg (hshort y.page mem_levelPages_head)] at this
    simp only [hkids, List.length_append, List.length_cons, List.length_nil, ↓reduceIte] at this ⊢
    omega
  · intro p hp hpy
    constructor
    · exact fun he => absurd he (hshort p hp)
    · exact fun he => absurd (Option.some.inj he).symm hpy

/-- The rows over two siblings of which one gave the other an item: the right one has a new
separator. -/
theorem Borrowed.isOver
    (hbr : Borrowed s l.2 r.2 y.page left right
      (.internal 0 (stored h (a ++ l :: ((k : WithBot (Key A)), r.2) :: b))) moved dest s')
    (ho : Over h s lo short (kidsOf pre ++ y.kids ++ kidsOf post) ((pre ++ y :: post) :: rest))
    (hkids : y.kids = a ++ l :: r :: b)
    (hmoved : ∀ p ∈ childPages (kidsOf pre ++ y.kids ++ kidsOf post) ++
      levelPages ((pre ++ y :: post) :: rest), p ∉ moved)
    (hshort : ∀ p ∈ levelPages ((pre ++ y :: post) :: rest), short ≠ some p)
    (hlt : l.1 < (k : WithBot (Key A)))
    (hgt : ∀ c ∈ b ++ kidsOf post, (k : WithBot (Key A)) < c.1) :
    Over h s' lo none (kidsOf pre ++ (a ++ l :: ((k : WithBot (Key A)), r.2) :: b) ++ kidsOf post)
      ((pre ++ ⟨y.page, a ++ l :: ((k : WithBot (Key A)), r.2) :: b⟩ :: post) :: rest) := by
  have hchild : childPages (kidsOf pre ++ (a ++ l :: ((k : WithBot (Key A)), r.2) :: b) ++
      kidsOf post) = childPages (kidsOf pre ++ y.kids ++ kidsOf post) := by
    simp [hkids]
  have hlevne := ho.kid_ne_level
  have hover := ho.setKids none (((k : WithBot (Key A)), r.2) :: b) (f := a ++ [l])
    (t := r :: b) (by simp [hkids]) (by simp) hbr.quiet.rootPage
    (by simp) (by simpa using hbr.body_parent) ?_ ?_ ?_ ?_ ?_ ?_
  · simpa using hover
  · intro p hp hpy
    exact hbr.body p (hlevne l (by simp [hkids]) p hp) (hlevne r (by simp [hkids]) p hp) hpy
  · intro p hp
    rw [List.append_assoc a, List.singleton_append, hchild] at hp
    rw [hbr.parentPage p, if_neg (hmoved p hp)]
  · intro p hp
    rw [List.append_assoc a, List.singleton_append, hchild] at hp
    exact (hbr.quiet.allocated_iff p).mpr (ho.allocated p hp)
  · have hinc := ho.increasing
    rw [hkids] at hinc
    simp only [List.append_assoc, List.cons_append, List.nil_append] at hinc ⊢
    unfold Increasing at hinc ⊢
    rw [← List.append_assoc] at hinc ⊢
    obtain ⟨h1, h2, h3⟩ := List.pairwise_append.mp hinc
    obtain ⟨h4, h5⟩ := List.pairwise_cons.mp h2
    refine List.pairwise_append.mpr ⟨h1, List.pairwise_cons.mpr ⟨?_, List.pairwise_cons.mpr
      ⟨hgt, (List.pairwise_cons.mp h5).2⟩⟩, ?_⟩
    · intro c hc
      rcases List.mem_cons.mp hc with rfl | hc
      · exact hlt
      · exact h4 c (by simp [hc])
    · intro c hc c' hc'
      rcases List.mem_cons.mp hc' with rfl | hc'
      · exact h3 c hc _ (by simp)
      · rcases List.mem_cons.mp hc' with rfl | hc'
        · exact (h3 c hc l (by simp)).trans hlt
        · exact h3 c hc c' (by simp [hc'])
  · have := ho.sized.1 y (by simp)
    rw [if_neg (hshort y.page mem_levelPages_head)] at this
    simp only [hkids, List.length_append, List.length_cons, List.length_nil, reduceCtorEq,
      ↓reduceIte] at this ⊢
    omega
  · intro p hp _
    simp [hshort p hp]

end siblings

end rows

end TDB
