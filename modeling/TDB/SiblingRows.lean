import TDB.TreeDelete

namespace TDB

open BplusTreeHandler Exec

variable {A : Type} [LinearOrder (Key A)] {h : IndexFileHeader A} {s s' : BplusTreeHandler A}
  {lo : ℕ}

/-! ## Finding a short node in its parent -/

/-- What the search of a node by its last key rests on: no internal node is left with one child,
or every separator is above the zero key that stands for the missing one. -/
def ZeroBelow (h : IndexFileHeader A) (lo : ℕ) (cur : List (Child A)) : Prop :=
  3 ≤ lo ∨ ∀ c ∈ cur, ∀ k : Key A, c.1 = (k : WithBot (Key A)) → h.zeroKey < k

omit [LinearOrder (Key A)] in
@[simp] theorem size_internal (par : PageNum) (kids : List (Child A)) :
    (Page.internal par (stored h kids)).size = kids.length := by
  simp [Page.size, Page.keys]

/-- `InternalIndexNodeHandler::lookup` of a node's last key finds the node in its parent. -/
theorem Over.lookup_last (hh : h.Orders) {short : Option PageNum} {cur a b back : List (Child A)}
    {P S : Level A} {x : Inner A} {rows : List (Level A)}
    (ho : Over h s lo short cur ((P ++ x :: S) :: rows)) (hz : ZeroBelow h lo cur)
    (hlen : lo ≤ x.kids.length + 1) (hS : heads S = b ++ back)
    (hinc : Increasing (a ++ x.asChild :: b)) :
    ∃ t m, x.kids = t ++ [m] ∧
      internalLookup h (stored h (a ++ x.asChild :: b)) (m.1.unbotD h.zeroKey) = a.length := by
  have hne := (ho.above.2.1 x (by simp)).nonempty
  obtain ⟨t, m, hkids⟩ : ∃ t m, x.kids = t ++ [m] := by
    rcases List.eq_nil_or_concat x.kids with hx | ⟨t, m, hx⟩
    · exact absurd hx hne
    · exact ⟨t, m, by simpa using hx⟩
  have hcur : Increasing (kidsOf P ++ (t ++ [m]) ++ kidsOf S) := by
    have := ho.increasing
    rw [← ho.above.1, kidsOf_append, kidsOf_cons, hkids] at this
    simpa using this
  have hxkids := (List.pairwise_append.mp (List.pairwise_append.mp hcur).1).2.1
  -- a separator behind the node is that of a child behind its last one
  have hbehind : ∀ c ∈ b, ∃ z ∈ S, ∃ c' ∈ z.kids, c.1 = c'.1 := by
    intro c hc
    have : c ∈ heads S := by rw [hS]; exact List.mem_append_left _ hc
    obtain ⟨z, hz, rfl⟩ := List.mem_map.mp this
    obtain ⟨c', rest, hzk⟩ := List.exists_cons_of_ne_nil
      (ho.above.2.1 z (by simp [hz])).nonempty
    exact ⟨z, hz, c', by simp [hzk], Inner.sep_eq hzk⟩
  refine ⟨t, m, hkids, ?_⟩
  refine internalLookup_eq hh (hinc.sublist (List.Sublist.append_left (by simp) a)) ?_ ?_
  · cases hm : m.1 with
    | bot =>
      have hsep : x.sep = ⊥ := by
        cases t with
        | nil => rw [Inner.sep_eq (y := x) hkids, hm]
        | cons c t =>
          have := (List.pairwise_append.mp hxkids).2.2 c (by simp) m (by simp)
          rw [hm] at this
          exact absurd this not_lt_bot
      simp [Inner.asChild, hsep]
    | coe k =>
      rw [WithBot.unbotD_coe, ← hm]
      cases t with
      | nil => simp [Inner.asChild, Inner.sep_eq (y := x) hkids]
      | cons c t =>
        have := (List.pairwise_append.mp hxkids).2.2 c (by simp) m (by simp)
        simpa [Inner.asChild, Inner.sep_eq (y := x) hkids] using this.le
  · intro c hc
    obtain ⟨z, hzS, c', hc', heq⟩ := hbehind c hc
    have hmem : c' ∈ kidsOf S := List.mem_flatMap.mpr ⟨z, hzS, hc'⟩
    have hlt : m.1 < c'.1 :=
      (List.pairwise_append.mp hcur).2.2 m (by simp) c' hmem
    rw [heq]
    cases hm : m.1 with
    | bot =>
      obtain ⟨k', hk'⟩ := WithBot.ne_bot_iff_exists.mp (bot_le.trans_lt hlt).ne'
      have ht : t = [] := by
        cases t with
        | nil => rfl
        | cons c t =>
          have := (List.pairwise_append.mp hxkids).2.2 c (by simp) m (by simp)
          rw [hm] at this
          exact absurd this not_lt_bot
      have hlo : ¬ 3 ≤ lo := by
        rw [hkids, ht] at hlen
        simp only [List.nil_append, List.length_cons, List.length_nil] at hlen
        omega
      rw [← hk', WithBot.unbotD_bot, WithBot.coe_lt_coe]
      refine (hz.resolve_left hlo) c' ?_ k' hk'.symm
      rw [← ho.above.1, kidsOf_append, kidsOf_cons]
      exact List.mem_append_right _ (List.mem_append_right _ hmem)
    | coe k =>
      rw [hm] at hlt
      simpa using hlt

/-! ## The rows of two siblings -/

/-- Two neighbours `L` and `R` of the lowest row that are children of `y`. -/
structure Neighbours (h : IndexFileHeader A) (s : BplusTreeHandler A) (lo : ℕ)
    (short : Option PageNum) (cur : List (Child A)) (P : Level A) (L R : Inner A) (S pre : Level A)
    (y : Inner A) (post : Level A) (rest : List (Level A)) (a b : List (Child A)) : Prop where
  isOver : Over h s lo short cur ((P ++ L :: R :: S) :: (pre ++ y :: post) :: rest)
  kids : y.kids = a ++ L.asChild :: R.asChild :: b
  front : heads P = kidsOf pre ++ a
  back : heads S = b ++ kidsOf post
  short : short = some L.page ∨ short = some R.page

/-- The rows `levs` have become `levs'` over the same children; `d` are the pins to give back. -/
structure Shrinks (h : IndexFileHeader A) (lo : ℕ) (s : BplusTreeHandler A) (d : PageNum → ℤ)
    (cur : List (Child A)) (levs : List (Level A)) (s' : BplusTreeHandler A)
    (levs' : List (Level A)) : Prop where
  isOver : Over h s' lo none cur levs'
  untouched : Untouched s s' cur levs
  sub : ∀ p ∈ levelPages levs', p ∈ levelPages levs
  allocFailures : s'.fileBufferPool.allocFailures = s.fileBufferPool.allocFailures
  pins : (∀ q, s.pinCount q = d q) → (∀ q, s'.pinCount q = 0) ∧
    s'.fileBufferPool.pinnedFrees = s.fileBufferPool.pinnedFrees

namespace Neighbours

variable {short : Option PageNum} {cur : List (Child A)} {P S pre post : Level A} {L R y : Inner A}
  {rest : List (Level A)} {a b : List (Child A)}
  (hn : Neighbours h s lo short cur P L R S pre y post rest a b)

include hn

theorem upper : Over h s lo short (kidsOf pre ++ y.kids ++ kidsOf post)
    ((pre ++ y :: post) :: rest) := by
  have := hn.isOver.up
  rw [← this.above.1, kidsOf_append, kidsOf_cons] at this
  simpa using this

theorem siblings : Siblings L.page R.page y.page :=
  hn.upper.siblings hn.kids

theorem not_mem_rows {c : Child A} {z : Inner A} (hz : z ∈ P ++ L :: R :: S) (hc : c ∈ z.kids) :
    c.2 ∉ levelPages ((P ++ L :: R :: S) :: (pre ++ y :: post) :: rest) :=
  hn.isOver.not_mem_levelPages (hn.isOver.mem_childPages hz (TDB.mem_childPages.mpr ⟨c, hc, rfl⟩))

theorem short_not_mem : ∀ p ∈ levelPages ((pre ++ y :: post) :: rest), short ≠ some p := by
  intro p hp he
  rcases hn.short with hs | hs
  · obtain rfl : L.page = p := Option.some.inj (hs.symm.trans he)
    exact hn.isOver.not_mem_rest (by simp) hp
  · obtain rfl : R.page = p := Option.some.inj (hs.symm.trans he)
    exact hn.isOver.not_mem_rest (by simp) hp

/-- The pages of the children of `L` and `R` are no pages of the upper rows or of the row. -/
theorem moved_not_mem {moved : List PageNum}
    (hmoved : ∀ p ∈ moved, p ∈ childPages L.kids ∨ p ∈ childPages R.kids) :
    ∀ p ∈ childPages (kidsOf pre ++ y.kids ++ kidsOf post) ++
      levelPages ((pre ++ y :: post) :: rest), p ∉ moved := by
  intro p hp hm
  rw [← hn.upper.above.1, kidsOf_append, kidsOf_cons] at hp
  have hrow : p ∈ levelPages ((P ++ L :: R :: S) :: (pre ++ y :: post) :: rest) := by
    rw [← childPages_heads_append_levelPages, ← hn.isOver.up.above.1]
    simpa using hp
  rcases hmoved p hm with hk | hk
  · obtain ⟨c, hc, rfl⟩ := TDB.mem_childPages.mp hk
    exact hn.not_mem_rows (z := L) (by simp) hc hrow
  · obtain ⟨c, hc, rfl⟩ := TDB.mem_childPages.mp hk
    exact hn.not_mem_rows (z := R) (by simp) hc hrow

theorem page_ne {z : Inner A} (hz : z ∈ P ∨ z ∈ S) :
    z.page ≠ L.page ∧ z.page ≠ R.page ∧ z.page ≠ y.page := by
  have hrow : z ∈ P ++ L :: R :: S := mem_row_of_other (hz.imp_right (List.mem_cons_of_mem R))
  refine ⟨?_, ?_, ?_⟩
  · exact hn.isOver.page_ne (y := L) (hz.imp_right (List.mem_cons_of_mem R))
  · have ho : Over h s lo short cur (((P ++ [L]) ++ R :: S) :: (pre ++ y :: post) :: rest) := by
      simpa using hn.isOver
    exact ho.page_ne (hz.imp_left (List.mem_append_left [L]))
  · exact fun he => hn.isOver.not_mem_rest hrow (he ▸ mem_levelPages_head)

/-- The children of different nodes of the row have different pages. -/
theorem kids_disjoint : (∀ z, z ∈ P ∨ z ∈ S → ∀ c ∈ z.kids, c.2 ∉ childPages L.kids ∧
    c.2 ∉ childPages R.kids) ∧ ∀ c ∈ L.kids, c.2 ∉ childPages R.kids := by
  have hnodup := (List.nodup_append.mp hn.isOver.nodup).1
  rw [← hn.isOver.above.1] at hnodup
  simp only [kidsOf_append, kidsOf_cons, childPages_append, List.nodup_append] at hnodup
  obtain ⟨-, ⟨-, ⟨-, -, hRS⟩, hL⟩, hP⟩ := hnodup
  refine ⟨?_, fun c hc hm => hL _ (TDB.mem_childPages.mpr ⟨c, hc, rfl⟩) _
    (List.mem_append_left _ hm) rfl⟩
  rintro z (hz | hz) c hc
  · have hmem : c.2 ∈ childPages (kidsOf P) :=
      TDB.mem_childPages.mpr ⟨c, List.mem_flatMap.mpr ⟨z, hz, hc⟩, rfl⟩
    exact ⟨fun hm => hP _ hmem _ (List.mem_append_left _ hm) rfl,
      fun hm => hP _ hmem _ (List.mem_append_right _ (List.mem_append_left _ hm)) rfl⟩
  · have hmem : c.2 ∈ childPages (kidsOf S) :=
      TDB.mem_childPages.mpr ⟨c, List.mem_flatMap.mpr ⟨z, hz, hc⟩, rfl⟩
    exact ⟨fun hm => hL _ hm _ (List.mem_append_right _ hmem) rfl,
      fun hm => hRS _ hm _ hmem rfl⟩

theorem child_ne_right {z : Inner A} (hz : z ∈ P ++ L :: R :: S) {c : Child A} (hc : c ∈ z.kids) :
    c.2 ≠ R.page := by
  intro he
  refine hn.not_mem_rows hz hc ?_
  rw [he]
  exact mem_levelPages_of_mem List.mem_cons_self (show R ∈ P ++ L :: R :: S by simp)

/-- A change of the siblings leaves the other nodes of the row in place. -/
theorem nodeAt_other
    (hb : ∀ q, q ≠ L.page → q ≠ R.page → q ≠ y.page → s'.body q = s.body q)
    (hp : ∀ q, q ≠ R.page → q ∉ childPages L.kids → q ∉ childPages R.kids →
      s'.parentPage q = s.parentPage q) {z : Inner A} (hz : z ∈ P ∨ z ∈ S) : NodeAt h s' z := by
  have hrow : z ∈ P ++ L :: R :: S := mem_row_of_other (hz.imp_right (List.mem_cons_of_mem R))
  obtain ⟨h1, h2, h3⟩ := hn.page_ne hz
  refine (hn.isOver.above.2.1 z hrow).congr (hb _ h1 h2 h3) fun c hc => ?_
  obtain ⟨h4, h5⟩ := hn.kids_disjoint.1 z hz c hc
  exact hp _ (hn.child_ne_right hrow hc) h4 h5

theorem merged (hm : Merged s L.page R.page y.page (.internal 0 (stored h (L.kids ++ R.kids)))
      (.internal 0 (stored h (a ++ L.asChild :: b))) (childPages R.kids) s') :
    Over h s' lo (some y.page) (heads (P ++ ⟨L.page, L.kids ++ R.kids⟩ :: S))
        ((pre ++ ⟨y.page, a ++ L.asChild :: b⟩ :: post) :: rest) ∧
      ∀ z ∈ P ++ ⟨L.page, L.kids ++ R.kids⟩ :: S, NodeAt h s' z := by
  have hL := hn.isOver.above.2.1 L (by simp)
  have hsep : (⟨L.page, L.kids ++ R.kids⟩ : Inner A).asChild = L.asChild := by
    obtain ⟨c, t, hc⟩ := List.exists_cons_of_ne_nil hL.nonempty
    simp [Inner.asChild, Inner.sep, hc]
  constructor
  · have hover := hm.isOver hn.upper hn.kids (hn.moved_not_mem fun p hp => Or.inr hp)
      hn.short_not_mem
    have hheads : heads (P ++ ⟨L.page, L.kids ++ R.kids⟩ :: S) =
        kidsOf pre ++ (a ++ L.asChild :: b) ++ kidsOf post := by
      simp [hsep, hn.front, hn.back]
    rwa [hheads]
  · intro z hz
    have hother : z ∈ P ∨ z ∈ S → NodeAt h s' z := by
      refine hn.nodeAt_other hm.body fun q h1 _ h3 => ?_
      rw [hm.parentPage q h1, if_neg h3]
    obtain rfl | hz := mem_row.mp hz
    · refine ⟨by simp [hL.nonempty], hm.body_left, fun c hc => ?_⟩
      rcases List.mem_append.mp hc with hc | hc
      · rw [hm.parentPage _ (hn.child_ne_right (z := L) (by simp) hc),
          if_neg (hn.kids_disjoint.2 c hc), hL.parent c hc]
      · rw [hm.parentPage _ (hn.child_ne_right (z := R) (by simp) hc),
          if_pos (TDB.mem_childPages.mpr ⟨c, hc, rfl⟩)]
    · exact hother hz

theorem sized_other {z : Inner A} (hz : z ∈ P ∨ z ∈ S) :
    z.kids.length ≤ h.internalMaxSize ∧ lo ≤ z.kids.length := by
  have hsized := hn.isOver.sized.1 z (mem_row_of_other (hz.imp_right (List.mem_cons_of_mem R)))
  have hshort : short ≠ some z.page := by
    obtain ⟨h1, h2, -⟩ := hn.page_ne hz
    rcases hn.short with hs | hs
    · rw [hs]
      exact fun he => h1 (Option.some.inj he).symm
    · rw [hs]
      exact fun he => h2 (Option.some.inj he).symm
  simpa [hshort] using hsized

/-- What the call for the parent of two merged siblings has done, seen from their row. -/
theorem merged_down (hlo : 2 ≤ lo) (hmax : (L.kids ++ R.kids).length ≤ h.internalMaxSize)
    (hmin : lo ≤ (L.kids ++ R.kids).length)
    (hm : Merged s L.page R.page y.page (.internal 0 (stored h (L.kids ++ R.kids)))
      (.internal 0 (stored h (a ++ L.asChild :: b))) (childPages R.kids) s')
    {s'' : BplusTreeHandler A} {levs' : List (Level A)}
    (hsh : Shrinks h lo s' (ref y.page) (heads (P ++ ⟨L.page, L.kids ++ R.kids⟩ :: S))
      ((pre ++ ⟨y.page, a ++ L.asChild :: b⟩ :: post) :: rest) s'' levs') :
    Shrinks h lo s (ref L.page + ref R.page + ref y.page) cur
      ((P ++ L :: R :: S) :: (pre ++ y :: post) :: rest) s''
      ((P ++ ⟨L.page, L.kids ++ R.kids⟩ :: S) :: levs') := by
  obtain ⟨hup, hnodes⟩ := hn.merged hm
  have hsib := hn.siblings
  have hrows : levelPages ((pre ++ ⟨y.page, a ++ L.asChild :: b⟩ :: post) :: rest) =
      levelPages ((pre ++ y :: post) :: rest) := by simp
  have hrowsub : ∀ p ∈ (P ++ ⟨L.page, L.kids ++ R.kids⟩ :: S).map Inner.page,
      p ∈ (P ++ L :: R :: S).map Inner.page := by
    intro p hp
    simp only [List.map_append, List.map_cons, List.mem_append, List.mem_cons] at hp ⊢
    tauto
  have hsub : ∀ p ∈ levelPages ((P ++ ⟨L.page, L.kids ++ R.kids⟩ :: S) :: levs'),
      p ∈ levelPages ((P ++ L :: R :: S) :: (pre ++ y :: post) :: rest) := by
    intro p hp
    rw [levelPages_cons, List.mem_append] at hp ⊢
    refine hp.imp (hrowsub p) fun hp => ?_
    rw [← hrows]
    exact hsh.sub p hp
  -- a page outside the rows, after the merge
  have hlow : ∀ p, s.allocated p →
      p ∉ levelPages ((P ++ L :: R :: S) :: (pre ++ y :: post) :: rest) →
      s'.allocated p ∧ p ≠ L.page ∧ p ≠ R.page ∧ p ≠ y.page ∧
        p ∉ levelPages ((pre ++ ⟨y.page, a ++ L.asChild :: b⟩ :: post) :: rest) ∧
        p ∉ childPages (heads (P ++ ⟨L.page, L.kids ++ R.kids⟩ :: S)) := by
    intro p hp hnot
    rw [levelPages_cons, List.mem_append, not_or] at hnot
    have hR : p ≠ R.page := by
      rintro rfl
      exact hnot.1 (by simp)
    refine ⟨(hm.allocated_iff p).mpr ⟨hp, hR⟩, ?_, hR, ?_, by rw [hrows]; exact hnot.2, ?_⟩
    · rintro rfl
      exact hnot.1 (by simp)
    · rintro rfl
      exact hnot.2 mem_levelPages_head
    · rw [childPages_heads]
      exact fun hmem => hnot.1 (hrowsub p hmem)
  have hcur : ∀ p ∈ childPages cur, s.allocated p ∧
      p ∉ levelPages ((P ++ L :: R :: S) :: (pre ++ y :: post) :: rest) := fun p hp =>
    ⟨hn.isOver.allocated p (List.mem_append_left _ hp), hn.isOver.not_mem_levelPages hp⟩
  refine ⟨hsh.isOver.down ?_ ?_ ?_ ?_ hn.isOver.increasing hn.isOver.leftmost ?_,
    ⟨?_, ?_, ?_, ?_⟩, hsub,
    hsh.allocFailures.trans hm.allocFailures, ?_⟩
  · intro z hz
    have hzp : z.page ∈ childPages (heads (P ++ ⟨L.page, L.kids ++ R.kids⟩ :: S)) := by
      rw [childPages_heads]
      exact List.mem_map_of_mem hz
    refine (hnodes z hz).congr (hsh.untouched.body _
      (hup.allocated _ (List.mem_append_left _ hzp)) (hup.not_mem_levelPages hzp)) fun c hc => ?_
    have hc' : c.2 ∈ childPages cur := by
      rw [← hn.isOver.above.1]
      refine TDB.mem_childPages.mpr ⟨c, ?_, rfl⟩
      have : c ∈ kidsOf (P ++ ⟨L.page, L.kids ++ R.kids⟩ :: S) := List.mem_flatMap.mpr ⟨z, hz, hc⟩
      simpa using this
    obtain ⟨h1, -, -, -, h5, h6⟩ := hlow _ (hcur _ hc').1 (hcur _ hc').2
    exact hsh.untouched.parentPage _ h1 h5 h6
  · rw [← hn.isOver.above.1]
    simp
  · rw [List.nodup_append]
    refine ⟨(List.nodup_append.mp hn.isOver.nodup).1, ?_, ?_⟩
    · rw [← childPages_heads_append_levelPages]
      exact hsh.isOver.nodup
    · rintro p hp q hq rfl
      exact (hcur p hp).2 (hsub p hq)
  · intro p hp
    obtain ⟨h1, -, -, -, h5, -⟩ := hlow _ (hcur _ hp).1 (hcur _ hp).2
    exact hsh.untouched.allocated p h1 h5
  · intro z hz
    have hbound : z.kids.length ≤ h.internalMaxSize ∧ lo ≤ z.kids.length := by
      obtain rfl | hz := mem_row.mp hz
      · exact ⟨hmax, hmin⟩
      · exact hn.sized_other hz
    refine ⟨hbound.1, ?_⟩
    split <;> omega
  · intro p hp hnot
    obtain ⟨h1, -, -, -, h5, -⟩ := hlow p hp hnot
    exact hsh.untouched.allocated p h1 h5
  · intro p hp hnot
    obtain ⟨h1, h2, h3, h4, h5, -⟩ := hlow p hp hnot
    rw [hsh.untouched.body p h1 h5, hm.body p h2 h3 h4]
  · intro p hp hnot hc
    obtain ⟨h1, h2, h3, h4, h5, h6⟩ := hlow p hp hnot
    rw [hsh.untouched.parentPage p h1 h5 h6, hm.parentPage p h3, if_neg]
    intro hmem
    exact hc (hn.isOver.mem_childPages (y := R) (by simp) hmem)
  · rw [← hm.pageCount]
    exact hsh.untouched.pageCount
  · intro hpins
    obtain ⟨hparent, hfrees⟩ := hm.pins hsib hpins
    obtain ⟨hzero, hsame⟩ := hsh.pins hparent
    exact ⟨hzero, hsame.trans hfrees⟩

/-- The rows after `redistribute` moved a child between the siblings. -/
theorem borrowed {kl kr : List (Child A)} {k : Key A} {moved : List PageNum} {dest : PageNum}
    (hkids : kl ++ kr = L.kids ++ R.kids) (hkl : (⟨L.page, kl⟩ : Inner A).sep = L.sep)
    (hne : kl ≠ []) (hkr : ∃ p t, kr = ((k : WithBot (Key A)), p) :: t)
    (hbr : Borrowed s L.page R.page y.page (.internal 0 (stored h kl)) (.internal 0 (stored h kr))
      (.internal 0 (stored h (a ++ L.asChild :: ((k : WithBot (Key A)), R.page) :: b)))
        moved dest s')
    (hmoved : ∀ p ∈ moved, p ∈ childPages L.kids ∨ p ∈ childPages R.kids)
    (hpl : ∀ c ∈ kl, s'.parentPage c.2 = some L.page)
    (hpr : ∀ c ∈ kr, s'.parentPage c.2 = some R.page)
    (hsl : kl.length ≤ h.internalMaxSize ∧ lo ≤ kl.length)
    (hsr : kr.length ≤ h.internalMaxSize ∧ lo ≤ kr.length) :
    Shrinks h lo s (ref L.page + ref R.page + ref y.page) cur
      ((P ++ L :: R :: S) :: (pre ++ y :: post) :: rest) s'
      ((P ++ ⟨L.page, kl⟩ :: ⟨R.page, kr⟩ :: S) ::
        (pre ++ ⟨y.page, a ++ L.asChild :: ((k : WithBot (Key A)), R.page) :: b⟩ :: post) ::
          rest) := by
  have hsib := hn.siblings
  obtain ⟨p₀, t₀, rfl⟩ := hkr
  obtain ⟨c₀, f₀, rfl⟩ := List.exists_cons_of_ne_nil hne
  have hkidsOf : kidsOf (P ++ ⟨L.page, c₀ :: f₀⟩ ::
    ⟨R.page, ((k : WithBot (Key A)), p₀) :: t₀⟩ :: S) =
      cur := by
    rw [← hn.isOver.above.1]
    simp only [kidsOf_append, kidsOf_cons]
    rw [← List.append_assoc (c₀ :: f₀), hkids, List.append_assoc]
  have hinc : Increasing (kidsOf P ++ ((c₀ :: f₀) ++ ((k : WithBot (Key A)), p₀) :: t₀) ++
      kidsOf S) := by
    have := hn.isOver.increasing
    rw [← hkidsOf] at this
    simpa using this
  obtain ⟨hinc₁, -, hincS⟩ := List.pairwise_append.mp hinc
  have hinc₂ := (List.pairwise_append.mp hinc₁).2.1
  -- the new separator of `R` lies between that of `L` and those of the nodes behind
  have hlt : L.asChild.1 < (k : WithBot (Key A)) := by
    have hL : L.asChild.1 = c₀.1 := hkl.symm
    rw [hL]
    exact (List.pairwise_append.mp hinc₂).2.2 c₀ (by simp) _ (List.mem_cons_self ..)
  have hgt : ∀ c ∈ b ++ kidsOf post, (k : WithBot (Key A)) < c.1 := by
    intro c hc
    rw [← hn.back] at hc
    obtain ⟨z, hz, rfl⟩ := List.mem_map.mp hc
    obtain ⟨c', t, hzk⟩ := List.exists_cons_of_ne_nil
      (hn.isOver.above.2.1 z (by simp [hz])).nonempty
    have : c' ∈ kidsOf S := List.mem_flatMap.mpr ⟨z, hz, by simp [hzk]⟩
    have hlt := hincS ((k : WithBot (Key A)), p₀) (by simp) c' this
    simpa [Inner.asChild, Inner.sep_eq hzk] using hlt
  -- the row above first, then down to the row of the two siblings
  have hup := hbr.isOver hn.upper hn.kids (hn.moved_not_mem hmoved) hn.short_not_mem hlt hgt
  have hheads : heads (P ++ ⟨L.page, c₀ :: f₀⟩ ::
    ⟨R.page, ((k : WithBot (Key A)), p₀) :: t₀⟩ :: S) =
      kidsOf pre ++ (a ++ L.asChild :: ((k : WithBot (Key A)), R.page) :: b) ++ kidsOf post := by
    have hL : (⟨L.page, c₀ :: f₀⟩ : Inner A).asChild = L.asChild := by
      simp only [Inner.asChild, hkl]
    have hR : (⟨R.page, ((k : WithBot (Key A)), p₀) :: t₀⟩ : Inner A).asChild =
        ((k : WithBot (Key A)), R.page) := rfl
    simp [hn.front, hn.back, hL, hR]
  change Over h s' lo none (kidsOf pre ++ (a ++ L.asChild ::
    ((k : WithBot (Key A)), R.page) :: b) ++
    kidsOf post) ((pre ++ ⟨y.page, a ++ L.asChild :: ((k : WithBot (Key A)), R.page) ::
      b⟩ :: post) ::
      rest) at hup
  rw [← hheads] at hup
  have hpages : levelPages ((P ++ ⟨L.page, c₀ :: f₀⟩ ::
    ⟨R.page, ((k : WithBot (Key A)), p₀) :: t₀⟩ ::
      S) :: (pre ++ ⟨y.page, a ++ L.asChild :: ((k : WithBot (Key A)), R.page) :: b⟩ :: post) ::
      rest) = levelPages ((P ++ L :: R :: S) :: (pre ++ y :: post) :: rest) := by simp
  refine ⟨hup.down ?_ hkidsOf ?_ ?_ hn.isOver.increasing hn.isOver.leftmost ?_,
    ⟨?_, ?_, ?_, ?_⟩, ?_,
    hbr.quiet.allocFailures, ?_⟩
  · intro z hz
    have hother : z ∈ P ∨ z ∈ S → NodeAt h s' z := by
      refine hn.nodeAt_other hbr.body fun q _ h2 h3 => ?_
      rw [hbr.parentPage q, if_neg]
      exact fun hm => (hmoved q hm).elim h2 h3
    obtain rfl | rfl | hz := mem_row_two.mp hz
    · exact ⟨by simp, hbr.body_left, hpl⟩
    · exact ⟨by simp, hbr.body_right, hpr⟩
    · exact hother hz
  · rw [hpages]
    exact hn.isOver.nodup
  · exact fun p hp => (hbr.quiet.allocated_iff p).mpr
      (hn.isOver.allocated p (List.mem_append_left _ hp))
  · intro z hz
    have hbound : z.kids.length ≤ h.internalMaxSize ∧ lo ≤ z.kids.length := by
      obtain rfl | rfl | hz := mem_row_two.mp hz
      · exact hsl
      · exact hsr
      · exact hn.sized_other hz
    simpa using hbound
  · exact fun p hp _ => (hbr.quiet.allocated_iff p).mpr hp
  · intro p _ hnot
    refine hbr.body p ?_ ?_ ?_
    all_goals
      rintro rfl
      exact hnot (by simp)
  · intro p _ _ hc
    rw [hbr.parentPage p, if_neg]
    intro hm
    rcases hmoved p hm with hk | hk
    · exact hc (hn.isOver.mem_childPages (y := L) (by simp) hk)
    · exact hc (hn.isOver.mem_childPages (y := R) (by simp) hk)
  · rw [hbr.quiet.fileHeader]
  · intro p hp
    rwa [hpages] at hp
  · intro hpins
    refine ⟨fun q => ?_, hbr.quiet.pinnedFrees⟩
    rw [hbr.quiet.pinCount, hpins]
    simp only [Pi.add_apply, Pi.sub_apply, Pi.neg_apply]
    ring

theorem page_eq {z : Inner A} (hz : z ∈ P ++ L :: R :: S) :
    ∃ par, s.parentPage z.page = some par ∧
      s.page z.page = some (.internal par (stored h z.kids)) := by
  obtain ⟨par, hpage⟩ := hn.isOver.above.row_page hz
  exact ⟨par, parentPage_of_internal hpage, hpage⟩

theorem parent_page_eq : ∃ par, s.page y.page =
    some (.internal par (stored h (a ++ L.asChild :: R.asChild :: b))) := by
  rw [← hn.kids]
  exact hn.upper.above.row_page (by simp)

theorem child_node {z : Inner A} (hz : z = L ∨ z = R) {c : Child A} (hc : c ∈ z.kids) :
    s.parentPage c.2 ≠ none ∧ c.2 ≠ L.page ∧ c.2 ≠ R.page ∧ c.2 ≠ y.page := by
  have hrow : z ∈ P ++ L :: R :: S := by
    rcases hz with rfl | rfl <;> simp
  refine ⟨by simp [(hn.isOver.above.2.1 z hrow).parent c hc], ?_, ?_, ?_⟩
  all_goals
    intro he
    refine hn.not_mem_rows hrow hc ?_
    rw [he]
    simp

theorem increasing_kids : Increasing (L.kids ++ R.kids) := by
  have := hn.isOver.increasing
  rw [← hn.isOver.above.1] at this
  simp only [kidsOf_append, kidsOf_cons] at this
  have := (List.pairwise_append.mp this).2.1
  rw [← List.append_assoc] at this
  exact (List.pairwise_append.mp this).1

/-- `redistribute` for the left sibling: the first child of `R` goes to the end of `L`. -/
theorem returns_redistribute_toLeft (ha : a = []) (h1 : L.kids.length < h.internalMaxSize)
    (h2 : lo ≤ L.kids.length + 1) (h3 : lo + 1 ≤ R.kids.length) (h4 : 2 ≤ R.kids.length) :
    Returns (redistribute .internal R.page L.page y.page 0) s fun rc s' => rc = .success ∧
      ∃ levs', Shrinks h lo s (ref L.page + ref R.page + ref y.page) cur
        ((P ++ L :: R :: S) :: (pre ++ y :: post) :: rest) s' levs' := by
  subst ha
  have hsib := hn.siblings
  have hL := hn.isOver.above.2.1 L (by simp)
  have hR := hn.isOver.above.2.1 R (by simp)
  have hinc := hn.increasing_kids
  have hmaxR := (hn.isOver.sized.1 R (by simp)).1
  obtain ⟨parL, -, hLpage⟩ := hn.page_eq (z := L) (by simp)
  obtain ⟨parR, -, hRpage⟩ := hn.page_eq (z := R) (by simp)
  obtain ⟨parY, hypage⟩ := hn.parent_page_eq
  obtain ⟨x, kr, hRk⟩ := List.exists_cons_of_ne_nil hR.nonempty
  rw [hRk] at h3 h4 hRpage
  obtain ⟨z, t, rfl⟩ := List.exists_cons_of_ne_nil (l := kr) (by rintro rfl; simp at h4)
  have hxz : x.1 < z.1 := by
    rw [hRk] at hinc
    exact (List.pairwise_cons.mp (List.pairwise_append.mp hinc).2.1).1 z (by simp)
  obtain ⟨k, hk⟩ := WithBot.ne_bot_iff_exists.mp (bot_le.trans_lt hxz).ne'
  have hz : z = ((k : WithBot (Key A)), z.2) := by rw [hk]
  have hx := hn.child_node (z := R) (Or.inr rfl) (c := x) (by simp [hRk])
  have hmove := returns_moveFirstToEnd_internal (x := (x.1.unbotD h.zeroKey, x.2))
    (by simpa using hRpage) hLpage hsib.ne.symm
    ⟨hx.1, hx.2.2.1, hx.2.1⟩
  refine (returns_redistribute_first hsib hypage ?_ (by simp [Page.isLeaf])
    (show _ = some k by simp [Page.keys, ← hk]) hmove).mono ?_
  · simpa using hx.2.2.2.symm
  rintro rc s' ⟨rfl, hbr⟩
  have hown : stored h L.kids ++ [(x.1.unbotD h.zeroKey, x.2)] = stored h (L.kids ++ [x]) := by
    simp
  rw [hown] at hbr
  refine ⟨rfl, _, hn.borrowed (k := k) (show _ ++ z :: t = _ by simp [hRk]) ?_
    (by simp) ⟨z.2, t, by rw [← hz]⟩ hbr ?_ ?_ ?_ ?_ ?_⟩
  · obtain ⟨c, f, hc⟩ := List.exists_cons_of_ne_nil hL.nonempty
    simp [Inner.sep, hc]
  · intro p hp
    obtain rfl := List.mem_singleton.mp hp
    exact Or.inr (by simp [hRk])
  · intro c hc
    rw [hbr.parentPage]
    rcases List.mem_append.mp hc with hc | hc
    · rw [if_neg, hL.parent c hc]
      have := hn.kids_disjoint.2 c hc
      rw [hRk] at this
      simp only [childPages_cons, List.mem_cons, not_or] at this
      simpa using this.1
    · obtain rfl := List.mem_singleton.mp hc
      simp
  · intro c hc
    have hcR : c ∈ R.kids := by rw [hRk]; simp only [List.mem_cons] at hc ⊢; tauto
    rw [hbr.parentPage, if_neg, hR.parent c hcR]
    have hnodup := hn.isOver.kids_nodup (y := R) (by simp)
    rw [hRk, childPages_cons, List.nodup_cons] at hnodup
    intro hm
    obtain he := List.mem_singleton.mp hm
    exact hnodup.1 (he ▸ TDB.mem_childPages.mpr ⟨c, hc, rfl⟩)
  · simp only [List.length_append, List.length_cons, List.length_nil]
    omega
  · rw [hRk] at hmaxR
    simp only [List.length_cons] at hmaxR h3 ⊢
    omega

/-- `redistribute` for the right sibling: the last child of `L` goes to the front of `R`. -/
theorem returns_redistribute_toRight (h1 : R.kids.length < h.internalMaxSize)
    (h2 : lo ≤ R.kids.length + 1) (h3 : lo + 1 ≤ L.kids.length) (h4 : 2 ≤ L.kids.length) :
    Returns (redistribute .internal L.page R.page y.page (a.length + 1)) s fun rc s' =>
      rc = .success ∧ ∃ levs', Shrinks h lo s (ref L.page + ref R.page + ref y.page) cur
        ((P ++ L :: R :: S) :: (pre ++ y :: post) :: rest) s' levs' := by
  have hsib := hn.siblings
  have hL := hn.isOver.above.2.1 L (by simp)
  have hR := hn.isOver.above.2.1 R (by simp)
  have hinc := hn.increasing_kids
  have hmaxL := (hn.isOver.sized.1 L (by simp)).1
  obtain ⟨parL, -, hLpage⟩ := hn.page_eq (z := L) (by simp)
  obtain ⟨parR, -, hRpage⟩ := hn.page_eq (z := R) (by simp)
  obtain ⟨parY, hypage⟩ := hn.parent_page_eq
  obtain ⟨kl, x, hLk⟩ : ∃ kl x, L.kids = kl ++ [x] := by
    rcases List.eq_nil_or_concat L.kids with hx | ⟨t, m, hx⟩
    · exact absurd hx hL.nonempty
    · exact ⟨t, m, by simpa using hx⟩
  rw [hLk] at h3 h4 hLpage
  obtain ⟨c₀, f₀, rfl⟩ := List.exists_cons_of_ne_nil (l := kl) (by rintro rfl; simp at h4)
  have hcx : c₀.1 < x.1 := by
    rw [hLk] at hinc
    exact (List.pairwise_append.mp (List.pairwise_append.mp hinc).1).2.2 c₀ (by simp) x (by simp)
  obtain ⟨k, hk⟩ := WithBot.ne_bot_iff_exists.mp (bot_le.trans_lt hcx).ne'
  have hx' : x = ((k : WithBot (Key A)), x.2) := by rw [hk]
  have hx := hn.child_node (z := L) (Or.inl rfl) (c := x) (by simp [hLk])
  have hmove := returns_moveLastToFront_internal (x := (x.1.unbotD h.zeroKey, x.2))
    (show s.page L.page = some (.internal parL (stored h (c₀ :: f₀) ++ [_])) by
      simpa using hLpage) hRpage
    hsib.ne
    ⟨hx.1, hx.2.1, hx.2.2.1⟩
  refine (returns_redistribute_last hsib hypage ?_ (by simp [Page.isLeaf])
    (show _ = some k by simp [Page.keys, ← hk]) hmove).mono ?_
  · simpa using hx.2.2.2.symm
  rintro rc s' ⟨rfl, hbr⟩
  have hown : (x.1.unbotD h.zeroKey, x.2) :: stored h R.kids = stored h (x :: R.kids) := rfl
  rw [hown] at hbr
  refine ⟨rfl, _, hn.borrowed (k := k) (by simp [hLk]) ?_
    (by simp) ⟨x.2, R.kids, by rw [← hx']⟩ hbr ?_ ?_ ?_ ?_ ?_⟩
  · simp [Inner.sep, hLk]
  · intro p hp
    obtain rfl := List.mem_singleton.mp hp
    exact Or.inl (by simp [hLk])
  · intro c hc
    have hcL : c ∈ L.kids := by rw [hLk]; exact List.mem_append_left _ hc
    rw [hbr.parentPage, if_neg, hL.parent c hcL]
    have hnodup := hn.isOver.kids_nodup (y := L) (by simp)
    rw [hLk, childPages_append, List.nodup_append] at hnodup
    intro hm
    obtain he := List.mem_singleton.mp hm
    exact hnodup.2.2 c.2 (TDB.mem_childPages.mpr ⟨c, hc, rfl⟩) x.2 (by simp) he
  · intro c hc
    rw [hbr.parentPage]
    rcases List.mem_cons.mp hc with rfl | hc
    · simp
    · rw [if_neg, hR.parent c hc]
      have := hn.kids_disjoint.2 x (by simp [hLk])
      intro hm
      obtain he := List.mem_singleton.mp hm
      exact this (he ▸ TDB.mem_childPages.mpr ⟨c, hc, rfl⟩)
  · rw [hLk] at hmaxL
    simp only [List.length_append, List.length_cons, List.length_nil] at hmaxL h3 ⊢
    omega
  · simp only [List.length_cons]
    omega

omit hn in
/-- The separators of a row are among those of its children. -/
theorem zeroBelow_heads {lev : Level A} (hz : ZeroBelow h lo (kidsOf lev))
    (hne : ∀ z ∈ lev, z.kids ≠ []) : ZeroBelow h lo (heads lev) := by
  refine hz.imp id fun hz c hc k hk => ?_
  obtain ⟨z, hzl, rfl⟩ := List.mem_map.mp hc
  obtain ⟨c', t, hzk⟩ := List.exists_cons_of_ne_nil (hne z hzl)
  refine hz c' (List.mem_flatMap.mpr ⟨z, hzl, by simp [hzk]⟩) k ?_
  rw [← hk]
  exact (Inner.sep_eq hzk).symm

/-- `coalesce` of the siblings, given what the call for their parent does. -/
theorem returns_coalesce {fuel index : ℕ} {nb frame : PageNum} (hlo : 2 ≤ lo)
    (hz : ZeroBelow h lo cur)
    (hsides : index = 0 ∧ a = [] ∧ frame = L.page ∧ nb = R.page ∨
      index = a.length + 1 ∧ frame = R.page ∧ nb = L.page)
    (hmax : (L.kids ++ R.kids).length ≤ h.internalMaxSize)
    (hmin : lo ≤ (L.kids ++ R.kids).length)
    (ih : ∀ {s : BplusTreeHandler A} {pre : Level A} {y : Inner A} {post : Level A}
      {cur : List (Child A)}, Over h s lo (some y.page) cur ((pre ++ y :: post) :: rest) →
      ZeroBelow h lo cur →
      Returns (coalesceOrRedistribute h fuel .internal y.page) s fun rc s' => rc = .success ∧
        ∃ levs', Shrinks h lo s (ref y.page) cur ((pre ++ y :: post) :: rest) s' levs') :
    Returns (coalesce (coalesceOrRedistribute h fuel .internal) .internal nb frame y.page index) s
      fun rc s' => rc = .success ∧ ∃ levs', Shrinks h lo s (ref L.page + ref R.page + ref y.page)
        cur ((P ++ L :: R :: S) :: (pre ++ y :: post) :: rest) s' levs' := by
  have hsib := hn.siblings
  obtain ⟨parL, hparL, hLpage⟩ := hn.page_eq (z := L) (by simp)
  obtain ⟨parR, hparR, hRpage⟩ := hn.page_eq (z := R) (by simp)
  obtain ⟨parY, hypage⟩ := hn.parent_page_eq
  refine TDB.returns_coalesce (h := h) (.internal 0 (stored h (L.kids ++ R.kids)))
    (.internal 0 []) (childPages R.kids) hsib hypage hsides ?_ (by simp) ?_
  · intro s₁ hpages hparents
    have hmove := returns_moveTo_internal (s := s₁)
      (by rw [hpages _ hsib.right_ne, hRpage]) (by rw [hpages _ hsib.left_ne, hLpage])
      hsib.ne.symm ?_
    · simpa [map_snd_stored, childPages] using hmove
    · intro item hitem
      obtain ⟨c, hc, rfl⟩ := List.mem_map.mp hitem
      obtain ⟨h1, h2, h3, -⟩ := hn.child_node (z := R) (Or.inr rfl) hc
      exact ⟨by rw [hparents]; exact h1, h3, h2⟩
  · intro s' hm
    obtain ⟨hup, hnodes⟩ := hn.merged hm
    have hz' : ZeroBelow h lo (heads (P ++ ⟨L.page, L.kids ++ R.kids⟩ :: S)) := by
      refine zeroBelow_heads ?_ fun z hz => (hnodes z hz).nonempty
      have hkids : kidsOf (P ++ ⟨L.page, L.kids ++ R.kids⟩ :: S) = cur := by
        rw [← hn.isOver.above.1]
        simp
      rwa [hkids]
    refine (ih (y := ⟨y.page, a ++ L.asChild :: b⟩) hup hz').mono ?_
    rintro rc s'' ⟨rfl, levs', hsh⟩
    exact ⟨rfl, _, hn.merged_down hlo hmax hmin hm hsh⟩

end Neighbours

end TDB
