import TDB.WellFormedScan

namespace TDB

open BplusTreeHandler BplusTreeScanner Exec

variable {A : Type}

/-! ## Deleting through a scan -/

namespace BplusTreeScanner

/-- `delete_entry` for the entry that `next_entry(rid, true)` has returned: the scanner still stands
at its item, which has its attribute. -/
def deleteReturned (h : IndexFileHeader A) (sc : BplusTreeScanner A) (rid : RID) : TreeM A RC := do
  match sc.currentFrame with
  | none => throw .notANode
  | some frame =>
    let (_, _, items) ← leafNode frame
    let item ← itemAt items sc.iterIndex
    deleteEntry h item.1.attr rid

/-- Calls `next_entry(rid, true)` and `delete_entry` in turn until `next_entry` does not succeed. -/
def deleteLoop (h : IndexFileHeader A) :
    ℕ → BplusTreeScanner A → TreeM A (RC × List RID × BplusTreeScanner A)
  | 0, _ => throw .endless
  | fuel + 1, sc => do
    let (rc, rid, sc) ← nextEntry h sc true
    match rid with
    | some rid =>
      let _ ← deleteReturned h sc rid
      let (rc, rids, sc) ← deleteLoop h fuel sc
      return (rc, rid :: rids, sc)
    | none => return (rc, [], sc)

/-- The leaf of the scanner keeps its place when it loses an item. -/
def keepsCurrent (h : IndexFileHeader A) (sc : BplusTreeScanner A) (s : BplusTreeHandler A) :
    Bool :=
  sc.currentFrame.any fun p => keepsPlace h s p ((leafItems s p).length - 1)

def keepsAll (h : IndexFileHeader A) : ℕ → BplusTreeScanner A → BplusTreeHandler A → Bool
  | 0, _, _ => true
  | fuel + 1, sc, s =>
    match nextEntry h sc true s with
    | .ok ((_, some rid, sc), s) => keepsCurrent h sc s &&
      match deleteReturned h sc rid s with
      | .ok (_, s) => keepsAll h fuel sc s
      | .error _ => true
    | _ => true

end BplusTreeScanner

/-! ## Trees under a scan -/

def leafRow (leaves : List (Leaf A)) : LeafRow A := leaves.map fun l => (l.page, l.items)

@[simp] theorem leafRow_append (leaves leaves' : List (Leaf A)) :
    leafRow (leaves ++ leaves') = leafRow leaves ++ leafRow leaves' := List.map_append

@[simp] theorem leafRow_cons (l : Leaf A) (leaves : List (Leaf A)) :
    leafRow (l :: leaves) = (l.page, l.items) :: leafRow leaves := rfl

@[simp] theorem rowEntries_leafRow (leaves : List (Leaf A)) :
    rowEntries (leafRow leaves) = entriesOf leaves := List.flatMap_map ..

theorem rowHead_leafRow (leaves : List (Leaf A)) :
    rowHead (leafRow leaves) = chainHead invalidPageNum leaves := by
  cases leaves <;> rfl

theorem exists_leaf_of_leafRow {leaves : List (Leaf A)} {pre post : LeafRow A}
    {l : PageNum × List (Key A × RID)} (hrow : leafRow leaves = pre ++ l :: post) :
    ∃ P x S, leaves = P ++ x :: S ∧ leafRow P = pre ∧ (x.page, x.items) = l ∧ leafRow S = post :=
  ListLevels.map_eq_append_cons hrow

variable [LinearOrder (Key A)] {h : IndexFileHeader A} {r : Regime A} {lo leafLo : ℕ}
  {s : BplusTreeHandler A} {leaves : List (Leaf A)} {levs : List (Level A)}
  {sc : BplusTreeScanner A}

theorem Tree.readable (hh : h.Orders) (hc : r.chained) (hpos : 1 ≤ leafLo)
    (ht : Tree h r s lo leafLo leaves levs) : Readable h s (leafRow leaves) := by
  have hlen := ht.isOver.length_lt
  refine ⟨⟨?_, ?_, ?_, by omega⟩, ?_, fun key => ?_, ?_⟩
  · intro pre l post hrow
    obtain ⟨P, x, S, rfl, -, rfl, rfl⟩ := exists_leaf_of_leafRow hrow
    obtain ⟨par, next, -, hpage, hnext⟩ := ht.page_leaf
    rw [hnext hc, ← rowHead_leafRow] at hpage
    exact ⟨par, hpage⟩
  · intro l hl
    obtain ⟨x, hx, rfl⟩ := List.mem_map.mp hl
    have hsized := (ht.sized x hx).2
    refine List.ne_nil_of_length_pos ?_
    dsimp only
    split at hsized <;> omega
  · intro l hl
    obtain ⟨x, hx, rfl⟩ := List.mem_map.mp hl
    exact ne_invalidPageNum (ht.isOver.allocated _ (List.mem_append_left _ (mem_leafPages hx)))
  · rw [rowEntries_leafRow]
    exact entriesOf_increasing ht.leafOk ht.apart
  · obtain ⟨P, x, S, rfl, hfor⟩ := ht.toShape.exists_leafFor key
    obtain ⟨-, hpost, hpre⟩ := List.pairwise_append.mp ht.apart
    refine ⟨leafRow P, (x.page, x.items), leafRow S, by simp, fun y hy => ?_, fun y hy => ?_,
      returns_findLeaf hh ht.toShape hfor⟩
    · rw [rowEntries_leafRow] at hy
      obtain ⟨l, hl, hy⟩ := mem_entriesOf.mp hy
      exact WithBot.coe_lt_coe.mp ((hpre l hl x (by simp) y hy).trans_le hfor.1)
    · rw [rowEntries_leafRow] at hy
      obtain ⟨l, hl, hy⟩ := mem_entriesOf.mp hy
      exact WithBot.coe_lt_coe.mp ((hfor.2 l hl).trans_le
        ((ht.leafOk l (by simp [hl])).sep_le y hy))
  · obtain ⟨x, S, rfl⟩ := List.exists_cons_of_ne_nil ht.ne_nil
    exact ⟨(x.page, x.items), leafRow S, rfl, returns_leftMostPage ht.toShape⟩

theorem Tree.returns_deleteEntry_item (hh : h.Orders) (hf : Fanout h r lo leafLo)
    {P S : List (Leaf A)} {l : Leaf A} {a b : List (Key A × RID)} {x : Key A × RID}
    (ht : Tree h r s lo leafLo (P ++ l :: S) levs) (hitems : l.items = a ++ x :: b) :
    Returns (deleteEntry h x.1.attr x.2) s fun rc s' => rc = .success ∧
      Resettled h r lo leafLo s 0 P ⟨l.sep, l.page, a ++ b⟩
        (keepsPlace h s l.page (a ++ b).length = true)
        (entriesOf (P ++ ⟨l.sep, l.page, a ++ b⟩ :: S)) s' := by
  have hok := ht.leafOk l (by simp)
  have hmem : x ∈ l.items := by simp [hitems]
  have hx : (⟨x.1.attr, x.2⟩ : Key A) = x.1 := by rw [hok.value x hmem]
  have hxeq : x = (x.1, x.1.rid) := Prod.ext rfl (hok.value x hmem)
  have hinc := hok.increasing
  rw [hitems] at hinc
  obtain ⟨-, hxb, hab⟩ := List.pairwise_append.mp hinc
  have hfor : LeafFor x.1 l S := by
    refine ⟨hok.sep_le x hmem, fun l' hl' => ?_⟩
    exact (List.pairwise_cons.mp (List.pairwise_append.mp ht.apart).2.1).1 l' hl' x hmem
  unfold deleteEntry
  rw [returns_bind, hx]
  refine (returns_findLeaf hh ht.toShape hfor).mono ?_
  rintro _ s₁ ⟨rfl, hr⟩
  have ht₁ : Tree h r s₁ lo leafLo (P ++ l :: S) levs :=
    ht.congr hr.quiet.rootPage (fun q _ => by rw [hr.page])
      fun q hq => (hr.quiet.allocated_iff q).mpr hq
  simp only [reduceCtorEq, ↓reduceIte, fail_success, Bool.false_eq_true]
  refine (ht₁.returns_deleteEntryInternal hh hf.sizes (.inl hf) (hxeq ▸ hitems)
    (fun y hy => hab y hy x (by simp)) fun y hy => (List.pairwise_cons.mp hxb).1 y hy).mono ?_
  rintro rc s' ⟨rfl, hsettled⟩
  have hstart := hsettled.from_start (d := 0) hr.quiet.allocFailures hr.quiet.pinnedFrees
    fun hd q => by rw [hr.quiet.pinCount, hd, Pi.zero_apply, zero_add]
  refine ⟨rfl, hstart.imp fun hplace => ?_⟩
  rw [← hplace]
  unfold keepsPlace
  rw [hr.page]

/-- One round: the entry is gone, and the scanner stands before the rest. -/
theorem Tree.returns_deleteReturned (hh : h.Orders) (hf : Fanout h r lo leafLo)
    {pre post : LeafRow A} {l : PageNum × List (Key A × RID)} {x : Key A × RID}
    (ht : Tree h r s lo leafLo leaves levs) (hrow : leafRow leaves = pre ++ l :: post)
    (hx : l.2[sc.iterIndex]? = some x) (hframe : sc.currentFrame = some l.1)
    (hemitted : sc.firstEmitted = true) (hkeeps : keepsCurrent h sc s = true) :
    Returns (deleteReturned h sc x.2) s fun _ s' => ∃ leaves' levs' front back,
      Tree h r s' lo leafLo leaves' levs' ∧ entriesOf leaves = front ++ x :: back ∧
      entriesOf leaves' = front ++ back ∧
      Scans (leafRow leaves') sc
        ((l.2.drop (sc.iterIndex + 1) ++ rowEntries post).takeWhile (withinRight sc.rightKey)) := by
  obtain ⟨P, L, S, rfl, rfl, rfl, rfl⟩ := exists_leaf_of_leafRow hrow
  dsimp only at hx hframe
  obtain ⟨hlt, hget⟩ := List.getElem?_eq_some_iff.mp hx
  have hitems : L.items = L.items.take sc.iterIndex ++ x :: L.items.drop (sc.iterIndex + 1) := by
    rw [← hget, ← List.drop_eq_getElem_cons hlt, List.take_append_drop]
  obtain ⟨par, next, -, hpage, -⟩ := ht.page_leaf
  have hplace : keepsPlace h s L.page (L.items.take sc.iterIndex ++
      L.items.drop (sc.iterIndex + 1)).length = true := by
    rw [keepsCurrent, hframe, Option.any_some, leafItems_eq hpage] at hkeeps
    convert hkeeps using 2
    rw [List.length_append, List.length_take, List.length_drop]
    omega
  unfold deleteReturned
  rw [hframe]
  simp only [returns_bind]
  rw [returns_leafNode hpage, returns_itemAt (i := sc.iterIndex) (x := x) rfl hx]
  refine (ht.returns_deleteEntry_item hh hf hitems).mono ?_
  rintro rc s' ⟨-, hr⟩
  obtain ⟨more, S', levs', ht'⟩ := hr.keeps hplace
  have hentries : entriesOf (P ++ ⟨L.sep, L.page, L.items.take sc.iterIndex ++
      L.items.drop (sc.iterIndex + 1) ++ more⟩ :: S') =
        entriesOf (P ++ ⟨L.sep, L.page, L.items.take sc.iterIndex ++
          L.items.drop (sc.iterIndex + 1)⟩ :: S) :=
    ht'.entries_eq.symm.trans hr.index.entries_eq
  refine ⟨_, levs', entriesOf P ++ L.items.take sc.iterIndex,
    L.items.drop (sc.iterIndex + 1) ++ entriesOf S, ht', ?_, ?_, ?_⟩
  · rw [entriesOf_append, entriesOf_cons]
    nth_rewrite 1 [hitems]
    simp
  · rw [hentries, entriesOf_append, entriesOf_cons]
    simp
  · have hmore : more ++ entriesOf S' = entriesOf S := by
      simpa using hentries
    have htake : (L.items.take sc.iterIndex).length = sc.iterIndex := by
      rw [List.length_take]
      omega
    have hrow' : leafRow (P ++ ⟨L.sep, L.page, L.items.take sc.iterIndex ++
        L.items.drop (sc.iterIndex + 1) ++ more⟩ :: S') = leafRow P ++ (L.page,
          L.items.take sc.iterIndex ++ L.items.drop (sc.iterIndex + 1) ++ more) :: leafRow S' := by
      rw [leafRow_append, leafRow_cons]
    have hscans := Scans.within hrow' hframe (by simp only [List.length_append, htake]; omega)
      fun hfalse => absurd (hemitted.symm.trans hfalse) (by decide)
    have hdrop : (L.items.take sc.iterIndex ++ L.items.drop (sc.iterIndex + 1) ++ more).drop
        sc.iterIndex = L.items.drop (sc.iterIndex + 1) ++ more := by
      rw [List.append_assoc, List.drop_left' htake]
    rw [hdrop, rowEntries_leafRow, List.append_assoc (L.items.drop (sc.iterIndex + 1)) more,
      hmore] at hscans
    rwa [rowEntries_leafRow]

omit [LinearOrder (Key A)] in
/-- An entry of the range is taken out: the first one of the range, or one more outside it. -/
theorem filter_erase {p : Key A × RID → Bool} {front back rem : List (Key A × RID)}
    {x : Key A × RID} (hfilter : (front ++ x :: back).filter p = x :: rem) (hx : x ∉ front) :
    (front ++ back).filter p = rem ∧
      (front ++ x :: back).filter (fun y => !p y) = (front ++ back).filter fun y => !p y := by
  have hp : p x = true := by
    have hmem : x ∈ (front ++ x :: back).filter p := by simp [hfilter]
    exact (List.mem_filter.mp hmem).2
  have hfront : front.filter p = [] := by
    rw [List.filter_append] at hfilter
    cases hf : front.filter p with
    | nil => rfl
    | cons y ys =>
      rw [hf, List.cons_append, List.cons.injEq] at hfilter
      have hmem : y ∈ front.filter p := by simp [hf]
      rw [hfilter.1] at hmem
      exact absurd (List.mem_filter.mp hmem).1 hx
  constructor
  · rw [List.filter_append, hfront, List.filter_cons_of_pos hp, List.nil_append,
      List.cons.injEq] at hfilter
    rw [List.filter_append, hfront, List.nil_append, hfilter.2]
  · rw [List.filter_append, List.filter_append, List.filter_cons_of_neg (by simp [hp])]

/-- The loop deletes the entries before the scanner, as long as its leaf keeps its place. -/
theorem Tree.returns_deleteLoop (hh : h.Orders) (hf : Fanout h r lo leafLo) (hc : r.chained)
    {p : Key A × RID → Bool} {rem : List (Key A × RID)} {fuel : ℕ}
    (ht : Tree h r s lo leafLo leaves levs) (hsc : Scans (leafRow leaves) sc rem)
    (hrem : (entriesOf leaves).filter p = rem) (hfuel : rem.length < fuel)
    (hkeeps : keepsAll h fuel sc s = true) :
    Returns (deleteLoop h fuel sc) s fun r' s' => r'.1 = .recordEof ∧
      r'.2.1 = rem.map Prod.snd ∧
      Index h r lo leafLo s' ((entriesOf leaves).filter fun x => !p x) := by
  -- on the entries that are left before the scanner
  induction rem generalizing fuel s sc leaves levs with
  | nil =>
    obtain ⟨fuel, rfl⟩ := Nat.exists_eq_add_of_lt hfuel
    have hread := ht.readable hh hc hf.sizes.pos
    rw [List.length_nil, Nat.zero_add, deleteLoop, returns_bind]
    refine (hread.returns_nextEntry hh hsc true).mono ?_
    rintro ⟨rc, rid, sc'⟩ s' he
    rcases he.result with ⟨-, hrc, hrid, -⟩ | ⟨pre, l, post, i, x, -, hx, hwithin, hnil, -⟩
    · dsimp only at hrc hrid
      subst hrid
      rw [returns_pure]
      refine ⟨hrc, rfl, ?_⟩
      have hall : (entriesOf leaves).filter (fun x => !p x) = entriesOf leaves := by
        rw [List.filter_eq_self]
        rw [List.filter_eq_nil_iff] at hrem
        exact fun x hx => by simpa using hrem x hx
      rw [hall]
      exact Index.quiet (Or.inr ⟨leaves, levs, ht, rfl⟩) he.quiet he.page
    · rw [drop_append_eq_cons hx, List.takeWhile_cons_of_pos hwithin] at hnil
      cases hnil
  | cons x rem ih =>
    obtain ⟨fuel, rfl⟩ := Nat.exists_eq_add_of_lt (Nat.zero_lt_of_lt hfuel)
    rw [Nat.zero_add] at hfuel hkeeps ⊢
    have hread := ht.readable hh hc hf.sizes.pos
    obtain ⟨r₁, s₁, hrun, he⟩ := hread.returns_nextEntry hh hsc true
    rcases he.result with ⟨hnil, -⟩ | ⟨pre, l, post, i, y, hrow, hy, hwithin, htake, rfl⟩
    · cases hnil
    rw [drop_append_eq_cons hy, List.takeWhile_cons_of_pos hwithin, List.cons.injEq] at htake
    obtain ⟨rfl, htail⟩ := htake
    have ht₁ : Tree h r s₁ lo leafLo leaves levs :=
      ht.congr he.quiet.rootPage (fun q _ => by rw [he.page])
        fun q hq => (he.quiet.allocated_iff q).mpr hq
    rw [keepsAll, hrun] at hkeeps
    simp only [↓reduceIte, Bool.and_eq_true] at hkeeps
    obtain ⟨rc, s₂, hdelete, leaves', levs', front, back, ht₂, hfront, hafter, hscans⟩ :=
      ht₁.returns_deleteReturned hh hf hrow hy rfl rfl hkeeps.1
    rw [deleteLoop, returns_bind, returns_of_eq hrun]
    simp only [↓reduceIte, returns_bind]
    rw [returns_of_eq hdelete]
    have hinc := entriesOf_increasing ht.leafOk ht.apart
    rw [hfront] at hinc hrem
    -- the keys increase, so the entry is not there twice
    have hx : x ∉ front := fun hmem =>
      lt_irrefl _ ((List.pairwise_append.mp hinc).2.2 x hmem x (by simp))
    obtain ⟨hrem', houtside⟩ := filter_erase hrem hx
    have hkeeps₂ := hkeeps.2
    rw [hdelete] at hkeeps₂
    dsimp only at hscans
    rw [← htail] at hscans
    refine (ih ht₂ hscans (by rw [hafter, hrem']) (Nat.lt_of_succ_lt_succ hfuel) hkeeps₂).mono ?_
    rintro ⟨rc', rids, sc'⟩ s₃ ⟨hrc', hrids, hindex⟩
    rw [returns_pure]
    refine ⟨hrc', ?_, ?_⟩
    · rw [List.map_cons]
      exact congrArg (x.2 :: ·) hrids
    · rwa [hfront, houtside, ← hafter]

/-! ## The whole loop -/

/-- The entry lies between the keys that `open` makes of the bounds. -/
def inScan (left right : Option (Bound A)) : Key A × RID → Bool :=
  betweenKeys (left.map leftKey) (right.map rightKeyOf)

/-- The loop returns the entries of the range, each once, and leaves the others in the tree. -/
def DeletesRange (h : IndexFileHeader A) (s : BplusTreeHandler A) (left right : Option (Bound A)) :
    Prop :=
  Returns (openScan h new left right) s fun r₁ s₁ =>
    Returns (deleteLoop h ((entries s).length + 1) r₁.2) s₁ fun r₂ s₂ => r₂.1 = .recordEof ∧
      r₂.2.1 = ((entries s).filter (inScan left right)).map Prod.snd ∧
      entries s₂ = (entries s).filter fun x => !inScan left right x

/-- Before every deletion of the loop the leaf of the scanner keeps its place. -/
def KeepsRange (h : IndexFileHeader A) (s : BplusTreeHandler A) (left right : Option (Bound A)) :
    Prop :=
  Returns (openScan h new left right) s fun r₁ s₁ =>
    keepsAll h ((entries s).length + 1) r₁.2 s₁ = true

/-- If the leaf of the scanner keeps its place in every round, the loop deletes the range. -/
theorem deletesRange_of_keepsRange (hh : h.Orders) (hf : Fanout h r lo leafLo) (hc : r.chained)
    {es : List (Key A × RID)} (hi : Index h r lo leafLo s es) {left right : Option (Bound A)}
    (hbounds : BoundsOk h left right) (hkeeps : KeepsRange h s left right) :
    DeletesRange h s left right := by
  obtain ⟨r₁, s₁, hopen, hkeeps⟩ := hkeeps
  unfold DeletesRange
  rw [returns_of_eq hopen]
  have hscan : Returns (openScan h new left right) s fun r' s' => r' = r₁ ∧ s' = s₁ :=
    ⟨r₁, s₁, hopen, rfl, rfl⟩
  unfold openScan at hscan
  simp only [new, Bool.false_eq_true, ↓reduceIte, badRange_eq_false hbounds] at hscan
  rcases hi with ⟨hroot, rfl⟩ | ⟨leaves, levs, ht, rfl⟩
  · have hempty : s.isEmpty = true := decide_eq_true hroot
    have hentries : entries s = [] := by rw [entries, hempty]; rfl
    obtain ⟨hframe, rfl⟩ : r₁.2.currentFrame = none ∧ s₁ = s := by
      cases left <;>
        simp [openKeys, findLeaf, leftMostPage, findLeafInternal, hempty, RC.fail] at hscan <;>
        simp [← hscan.1, hscan.2]
    rw [hentries, List.length_nil, Nat.zero_add]
    unfold deleteLoop nextEntry nextEntryLoop
    simp [hframe, hentries]
  · have hentries := ht.entries_eq
    have hread := ht.readable hh hc hf.sizes.pos
    obtain ⟨_, _, hrun, hrc, hpage, hscans, p, hquiet⟩ :=
      hread.returns_openKeys hh (left.map leftKey) (right.map rightKeyOf)
    rw [returns_of_eq hrun] at hscan
    obtain ⟨rfl, rfl⟩ := hscan
    have ht₁ := ht.congr hquiet.rootPage (fun q _ => by rw [hpage])
      fun q hq => (hquiet.allocated_iff q).mpr hq
    rw [rowEntries_leafRow] at hscans
    rw [hentries] at hkeeps ⊢
    refine (ht₁.returns_deleteLoop hh hf hc hscans rfl
      (Nat.lt_succ_of_le (List.length_filter_le _ _)) hkeeps).mono ?_
    rintro r₂ s₂ ⟨hrc₂, hrids, hindex⟩
    exact ⟨hrc₂, hrids, hindex.entries_eq⟩

def insertUpTo (n : ℕ) : List (Update ℤ) :=
  (List.range n).map fun i : ℕ => .insertEntry ((i : ℤ) + 1) recordOne

instance {s : BplusTreeHandler ℤ} {h : IndexFileHeader ℤ} {left right : Option (Bound ℤ)} :
    Decidable (DeletesRange h s left right) := decidableReturns

instance {s : BplusTreeHandler ℤ} {h : IndexFileHeader ℤ} {left right : Option (Bound ℤ)} :
    Decidable (KeepsRange h s left right) := decidableReturns

/-- The values up to 5 of 9: the first leaf takes items from the next one and is merged with it. -/
theorem deletesRange_insertUpTo : ∃ s,
    runServed (columnIndex 4 6 4) (insertUpTo 9) created = some s ∧
      KeepsRange (columnIndex 4 6 4) s none (some ⟨5, true⟩) ∧
      DeletesRange (columnIndex 4 6 4) s none (some ⟨5, true⟩) := by
  have hrun : (runServed (columnIndex 4 6 4) (insertUpTo 9) created).any (fun s =>
      decide (KeepsRange (columnIndex 4 6 4) s none (some ⟨5, true⟩))) = true := by
    decide +kernel
  obtain ⟨s, hs, hcond⟩ := (Option.any_eq_true _ _).mp hrun
  have hkeeps := of_decide_eq_true hcond
  have hh := columnIndex_orders 4 6 4
  have hf : Fanout (columnIndex 4 6 4) anyKeys 3 2 := fanout_of_sizes (by decide) (by decide)
  obtain ⟨es, hi⟩ := index_of_served hh hf rfl (reflTransGen_runServed hs)
  exact ⟨s, hs, hkeeps, deletesRange_of_keepsRange hh hf trivial hi
    (fun l hl => by cases hl) hkeeps⟩

/-- The values from 3 on of 5: the second leaf is merged into the first one and its page is given up
while the scanner stands on it. -/
theorem not_deletesRange_insertUpTo : ∃ s,
    runServed (columnIndex 4 6 4) (insertUpTo 5) created = some s ∧
      WellFormed (columnIndex 4 6 4) s True ∧
      ¬ DeletesRange (columnIndex 4 6 4) s (some ⟨3, true⟩) none := by
  have hrun : (runServed (columnIndex 4 6 4) (insertUpTo 5) created).any (fun s =>
      decide (¬ DeletesRange (columnIndex 4 6 4) s (some ⟨3, true⟩) none)) = true := by
    decide +kernel
  obtain ⟨s, hs, hcond⟩ := (Option.any_eq_true _ _).mp hrun
  have hh := columnIndex_orders 4 6 4
  have hf : Fanout (columnIndex 4 6 4) anyKeys 3 2 := fanout_of_sizes (by decide) (by decide)
  obtain ⟨es, hi⟩ := index_of_served hh hf rfl (reflTransGen_runServed hs)
  exact ⟨s, hs, hi.wellFormed hh rfl hf.sizes.pos, of_decide_eq_true hcond⟩

end TDB
