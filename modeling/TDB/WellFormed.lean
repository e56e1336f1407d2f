import TDB.TreeLeaves

namespace TDB

open BplusTreeHandler

variable {A : Type}

/-! ## Well-formed trees, page by page -/

/-- The keys in the subtree under a page that has `depth` internal nodes above each leaf.  Key 0 of
an internal node is none of them. -/
def keysUnder (s : BplusTreeHandler A) : ℕ → PageNum → List (Key A)
  | 0, p =>
    match s.page p with
    | some (.leaf _ _ items) => items.map Prod.fst
    | _ => []
  | depth + 1, p =>
    match s.page p with
    | some (.internal _ items) =>
      items.tail.map Prod.fst ++ items.flatMap fun item => keysUnder s depth item.2
    | _ => []

def leavesUnder (s : BplusTreeHandler A) : ℕ → PageNum → List PageNum
  | 0, p => [p]
  | depth + 1, p =>
    match s.page p with
    | some (.internal _ items) => items.flatMap fun item => leavesUnder s depth item.2
    | _ => []

/-- The nodes of the subtree under a page: all leaves at depth `depth`, parent fields, order and
sizes.  Where `spine` holds, key 0 of the node bounds nothing. -/
def SubtreeOk (h : IndexFileHeader A) (s : BplusTreeHandler A) :
    ℕ → Prop → PageNum → PageNum → Prop
  | 0, _, parent, p => ∃ next items, s.page p = some (.leaf parent next items) ∧
      (items.Pairwise fun a b => h.compare a.1 b.1 < 0) ∧
      items ≠ [] ∧ items.length ≤ h.leafMaxSize
  | depth + 1, spine, parent, p => ∃ items, s.page p = some (.internal parent items) ∧
      (items.tail.Pairwise fun a b => h.compare a.1 b.1 < 0) ∧
      items ≠ [] ∧ items.length ≤ h.internalMaxSize ∧
      ∀ i item, items[i]? = some item → SubtreeOk h s depth (spine ∧ i = 0) p item.2 ∧
        ∀ k ∈ keysUnder s depth item.2, (spine ∧ i = 0 ∨ h.compare item.1 k ≤ 0) ∧
          ∀ next, items[i + 1]? = some next → h.compare k next.1 < 0

/-- The `next_brother` fields of these leaves lead from each to the next and then to no page. -/
def NextChain (s : BplusTreeHandler A) : List PageNum → Prop
  | [] => True
  | p :: rest => (∃ parent items,
      s.page p = some (.leaf parent (rest.headD invalidPageNum) items)) ∧ NextChain s rest

/-- A well-formed tree.  `spine` says whether key 0 is exempt on the leftmost path. -/
def WellFormed (h : IndexFileHeader A) (s : BplusTreeHandler A) (spine : Prop) : Prop :=
  s.rootPage = invalidPageNum ∨ ∃ depth, SubtreeOk h s depth spine invalidPageNum s.rootPage ∧
    NextChain s (leavesUnder s depth s.rootPage)

/-! ## Rows of well-formed subtrees -/

variable [LinearOrder (Key A)] {h : IndexFileHeader A} {r : Regime A} {s : BplusTreeHandler A}
  {lo leafLo : ℕ}

theorem IndexFileHeader.Orders.le_iff (hh : h.Orders) (a b : Key A) :
    h.compare a b ≤ 0 ↔ a ≤ b := by
  rw [← not_lt, hh.gt_iff, not_lt]

/-- The subtrees under a row of children are well formed and lie between the separators. -/
structure RowOk (h : IndexFileHeader A) (s : BplusTreeHandler A) (depth : ℕ)
    (cur : List (Child A)) : Prop where
  subtree : ∀ c ∈ cur, ∀ parent, s.parentPage c.2 = some parent →
    SubtreeOk h s depth (c.1 = ⊥) parent c.2
  sep_le : ∀ c ∈ cur, ∀ k ∈ keysUnder s depth c.2, c.1 ≤ (k : WithBot (Key A))
  below : cur.Pairwise fun c c' => ∀ k ∈ keysUnder s depth c.2, (k : WithBot (Key A)) < c'.1

theorem Tree.rowOk (hh : h.Orders) {leaves : List (Leaf A)} {levs : List (Level A)}
    (ht : Tree h r s lo leafLo leaves levs) (hpos : 1 ≤ leafLo) :
    RowOk h s 0 (leafHeads leaves) := by
  have hkeys : ∀ l ∈ leaves, keysUnder s 0 l.page = l.items.map Prod.fst := by
    intro l hl
    obtain ⟨pre, post, rfl⟩ := List.append_of_mem hl
    obtain ⟨par, next, -, hpage, -⟩ := ht.page_leaf
    simp [keysUnder, hpage]
  refine ⟨?_, ?_, ?_⟩
  · intro c hc parent hpar
    obtain ⟨l, hl, rfl⟩ := List.mem_map.mp hc
    have hsized := ht.sized l hl
    have hok := ht.leafOk l hl
    obtain ⟨pre, post, rfl⟩ := List.append_of_mem hl
    obtain ⟨par, next, hpar', hpage, -⟩ := ht.page_leaf
    obtain rfl : par = parent := Option.some.inj (hpar'.symm.trans hpar)
    refine ⟨next, l.items, hpage, hok.increasing.imp fun hlt => (hh.lt_iff _ _).mpr hlt, ?_,
      hsized.1⟩
    refine List.ne_nil_of_length_pos ?_
    have := hsized.2
    split at this <;> omega
  · intro c hc k hk
    obtain ⟨l, hl, rfl⟩ := List.mem_map.mp hc
    rw [asChild_snd, hkeys l hl] at hk
    obtain ⟨x, hx, rfl⟩ := List.mem_map.mp hk
    exact (ht.leafOk l hl).sep_le x hx
  · refine List.pairwise_map.mpr (ht.apart.imp_of_mem fun {l l'} hl _ hlt k hk => ?_)
    rw [asChild_snd, hkeys l hl] at hk
    obtain ⟨x, hx, rfl⟩ := List.mem_map.mp hk
    exact hlt x hx

section node

variable {depth : ℕ} {cur : List (Child A)} {lev : Level A} {rest : List (Level A)} {y : Inner A}

/-- The separators behind the first one are keys. -/
theorem Increasing.tail_ne_bot {kids : List (Child A)} (hinc : Increasing kids) :
    ∀ c ∈ kids.tail, c.1 ≠ ⊥ := by
  cases kids with
  | nil => simp
  | cons c kids => exact fun c' hc' => ((List.pairwise_cons.mp hinc).1 c' hc').ne_bot

theorem keysUnder_node {parent : PageNum} (hpage : s.page y.page =
      some (.internal parent (stored h y.kids))) (hinc : Increasing y.kids) {k : Key A} :
    k ∈ keysUnder s (depth + 1) y.page ↔
      (∃ c ∈ y.kids.tail, c.1 = (k : WithBot (Key A))) ∨
        ∃ c ∈ y.kids, k ∈ keysUnder s depth c.2 := by
  have htail : (stored h y.kids).tail = stored h y.kids.tail := by
    cases y.kids <;> simp
  simp only [keysUnder, hpage, htail, List.mem_append, List.mem_map, List.mem_flatMap]
  refine or_congr ⟨?_, ?_⟩ ⟨?_, ?_⟩
  · rintro ⟨_, hx, rfl⟩
    obtain ⟨c, hc, rfl⟩ := List.mem_map.mp hx
    refine ⟨c, hc, ?_⟩
    obtain ⟨k', hk'⟩ := WithBot.ne_bot_iff_exists.mp (hinc.tail_ne_bot c hc)
    simp [← hk']
  · rintro ⟨c, hc, hk⟩
    exact ⟨(c.1.unbotD h.zeroKey, c.2), List.mem_map_of_mem hc, by simp [hk]⟩
  · rintro ⟨_, hx, hk⟩
    obtain ⟨c, hc, rfl⟩ := List.mem_map.mp hx
    exact ⟨c, hc, hk⟩
  · rintro ⟨c, hc, hk⟩
    exact ⟨(c.1.unbotD h.zeroKey, c.2), List.mem_map_of_mem hc, hk⟩

theorem Inner.sep_le (hinc : Increasing y.kids) : ∀ c ∈ y.kids, y.sep ≤ c.1 := by
  intro c hc
  cases hkids : y.kids with
  | nil => simp [hkids] at hc
  | cons c₀ kids =>
    rw [Inner.sep_eq hkids]
    rw [hkids] at hc hinc
    rcases List.mem_cons.mp hc with rfl | hc
    · exact le_rfl
    · exact ((List.pairwise_cons.mp hinc).1 c hc).le

theorem RowOk.node (hh : h.Orders) (hr : RowOk h s depth cur)
    (ho : Over h s lo none cur (lev :: rest))
    (hy : y ∈ lev) {parent : PageNum} (hpar : s.parentPage y.page = some parent) :
    SubtreeOk h s (depth + 1) (y.sep = ⊥) parent y.page := by
  have hnode := ho.above.2.1 y hy
  have hsub := ho.kids_sublist hy
  have hinc : Increasing y.kids := ho.increasing_kids hy
  have hbelow := hr.below.sublist hsub
  have htail : (stored h y.kids).tail = stored h y.kids.tail := by
    cases y.kids <;> simp
  refine ⟨stored h y.kids, page_eq_internal hnode.body hpar, ?_, by simpa [stored] using
    hnode.nonempty,
    by simpa using (ho.sized.1 y hy).1, ?_⟩
  · rw [htail]
    refine List.pairwise_map.mpr ((List.Pairwise.sublist (List.tail_sublist _) hinc).imp_of_mem
      fun {c c'} hc hc' hlt => ?_)
    obtain ⟨k, hk⟩ := WithBot.ne_bot_iff_exists.mp (hinc.tail_ne_bot c hc)
    obtain ⟨k', hk'⟩ := WithBot.ne_bot_iff_exists.mp (hinc.tail_ne_bot c' hc')
    rw [← hk, ← hk', WithBot.coe_lt_coe] at hlt
    simpa [← hk, ← hk', hh.lt_iff] using hlt
  · intro i item hitem
    obtain ⟨c, hc, rfl⟩ : ∃ c, y.kids[i]? = some c ∧ (c.1.unbotD h.zeroKey, c.2) = item := by
      simpa [stored] using hitem
    have hmem : c ∈ y.kids := List.mem_of_getElem? hc
    -- only the first child of a leftmost node has no separator
    have hspine : c.1 = ⊥ ↔ y.sep = ⊥ ∧ i = 0 := by
      cases hkids : y.kids with
      | nil => simp [hkids] at hmem
      | cons c₀ kids =>
        rw [Inner.sep_eq hkids]
        rw [hkids] at hc
        cases i with
        | zero => simp_all
        | succ i =>
          have := hinc.tail_ne_bot c (by rw [hkids]; exact List.mem_of_getElem? (by simpa using hc))
          simp [this]
    have hchild := hr.subtree c (hsub.subset hmem) y.page (hnode.parent c hmem)
    rw [hspine] at hchild
    refine ⟨hchild, fun k hk => ⟨?_, ?_⟩⟩
    · by_cases hbot : c.1 = ⊥
      · exact Or.inl (hspine.mp hbot)
      · obtain ⟨k', hk'⟩ := WithBot.ne_bot_iff_exists.mp hbot
        have hle := hr.sep_le c (hsub.subset hmem) k hk
        rw [← hk', WithBot.coe_le_coe] at hle
        right
        simpa [← hk', hh.le_iff] using hle
    · intro next hnext
      obtain ⟨c', hc', rfl⟩ : ∃ c', y.kids[i + 1]? = some c' ∧
          (c'.1.unbotD h.zeroKey, c'.2) = next := by
        simpa [stored] using hnext
      obtain ⟨hi, heq⟩ := List.getElem?_eq_some_iff.mp hc
      obtain ⟨hi', heq'⟩ := List.getElem?_eq_some_iff.mp hc'
      have hlt := List.pairwise_iff_getElem.mp hbelow i (i + 1) hi hi' (by omega)
      rw [heq, heq'] at hlt
      have hlt := hlt k hk
      obtain ⟨k', hk'⟩ := WithBot.ne_bot_iff_exists.mp hlt.ne_bot
      rw [← hk', WithBot.coe_lt_coe] at hlt
      simpa [← hk', hh.lt_iff] using hlt

theorem RowOk.up (hh : h.Orders) (hr : RowOk h s depth cur)
    (ho : Over h s lo none cur (lev :: rest)) : RowOk h s (depth + 1) (heads lev) := by
  have hkeys : ∀ y ∈ lev, ∀ k ∈ keysUnder s (depth + 1) y.page,
      (∃ c ∈ y.kids, c.1 = (k : WithBot (Key A))) ∨ ∃ c ∈ y.kids, k ∈ keysUnder s depth c.2 := by
    intro y hy k hk
    obtain ⟨parent, hpage⟩ := ho.above.row_page hy
    have hinc : Increasing y.kids := ho.increasing_kids hy
    refine ((keysUnder_node hpage hinc).mp hk).imp_left ?_
    rintro ⟨c, hc, heq⟩
    exact ⟨c, List.mem_of_mem_tail hc, heq⟩
  refine ⟨?_, ?_, ?_⟩
  · intro c hc parent hpar
    obtain ⟨y, hy, rfl⟩ := List.mem_map.mp hc
    exact hr.node hh ho hy hpar
  · intro c hc k hk
    obtain ⟨y, hy, rfl⟩ := List.mem_map.mp hc
    have hsub := ho.kids_sublist hy
    have hinc : Increasing y.kids := ho.increasing_kids hy
    rcases hkeys y hy k hk with ⟨c, hc, heq⟩ | ⟨c, hc, hk⟩
    · exact (Inner.sep_le hinc c hc).trans_eq heq
    · exact (Inner.sep_le hinc c hc).trans (hr.sep_le c (hsub.subset hc) k hk)
  · unfold heads
    rw [List.pairwise_map]
    have hinc := ho.increasing
    have hbelow := hr.below
    rw [← ho.above.1] at hinc hbelow
    unfold Increasing at hinc
    unfold kidsOf at hinc hbelow
    rw [List.pairwise_flatMap] at hinc hbelow
    refine (hinc.2.and hbelow.2).imp_of_mem fun {y y'} hy hy' hlt k hk => ?_
    obtain ⟨c', kids, hkids⟩ := List.exists_cons_of_ne_nil (ho.above.2.1 y' hy').nonempty
    have hsep : y'.asChild.1 = c'.1 := Inner.sep_eq hkids
    rw [hsep]
    rcases hkeys y hy k hk with ⟨c, hc, heq⟩ | ⟨c, hc, hk⟩
    · rw [← heq]
      exact hlt.1 c hc c' (by simp [hkids])
    · exact hlt.2 c hc c' (by simp [hkids]) k hk

end node

/-! ## From the rows to the pages -/

theorem RowOk.root (hh : h.Orders) : ∀ {levs : List (Level A)} {cur : List (Child A)} {depth : ℕ},
    Over h s lo none cur levs → RowOk h s depth cur →
    SubtreeOk h s (depth + levs.length) True invalidPageNum s.rootPage
  | [], cur, depth, ho, hr => by
    obtain ⟨k, rfl, hpar⟩ := ho.above
    obtain rfl : k = ⊥ := ho.leftmost (k, s.rootPage) (by simp)
    simpa using hr.subtree (⊥, s.rootPage) (by simp) invalidPageNum hpar
  | lev :: rest, cur, depth, ho, hr => by
    rw [List.length_cons, Nat.add_comm rest.length 1, ← Nat.add_assoc]
    exact RowOk.root hh ho.up (hr.up hh ho)

omit [LinearOrder (Key A)] in
theorem Above.leavesUnder_root (depth : ℕ) : ∀ {levs : List (Level A)} {cur : List (Child A)},
    Above h s cur levs →
    leavesUnder s (depth + levs.length) s.rootPage = cur.flatMap fun c => leavesUnder s depth c.2
  | [], cur, ⟨k, hcur, _⟩ => by simp [hcur]
  | lev :: rest, cur, ⟨hkids, hnodes, habove⟩ => by
    have ih := habove.leavesUnder_root (depth + 1)
    rw [List.length_cons, Nat.add_comm rest.length 1, ← Nat.add_assoc, ih, ← hkids]
    unfold heads kidsOf
    rw [List.flatMap_map, List.flatMap_assoc]
    refine List.flatMap_congr fun y hy => ?_
    obtain ⟨par, hpage⟩ := Above.row_page ⟨hkids, hnodes, habove⟩ hy
    simp [leavesUnder, Inner.asChild, hpage, stored, List.flatMap_map]

omit [LinearOrder (Key A)] in
theorem Linked.nextChain : ∀ {leaves : List (Leaf A)}, Linked s True invalidPageNum leaves →
    NextChain s (leaves.map Leaf.page)
  | [], _ => trivial
  | l :: rest, ⟨⟨next, hbody, hnext⟩, hrest⟩ => by
    refine ⟨?_, hrest.nextChain⟩
    obtain ⟨par, hpage⟩ := exists_page_leaf hbody
    refine ⟨par, l.items, ?_⟩
    rw [hpage, hnext trivial]
    cases rest <;> rfl

theorem Tree.wellFormed (hh : h.Orders) {leaves : List (Leaf A)} {levs : List (Level A)}
    (hc : r.chained = True) (ht : Tree h r s lo leafLo leaves levs) (hpos : 1 ≤ leafLo) :
    WellFormed h s True := by
  refine Or.inr ⟨0 + levs.length, RowOk.root hh ht.isOver (ht.rowOk hh hpos), ?_⟩
  rw [ht.isOver.above.leavesUnder_root]
  have hlinked := ht.linked
  rw [hc] at hlinked
  have hpages : (leafHeads leaves).flatMap (fun c => leavesUnder s 0 c.2) =
      leaves.map Leaf.page := by
    unfold leafHeads
    rw [List.flatMap_map]
    simp [leavesUnder, List.map_eq_flatMap]
  rw [hpages]
  exact hlinked.nextChain

end TDB
