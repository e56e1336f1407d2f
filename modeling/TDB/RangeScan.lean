import TDB.BplusTreeScanner
import TDB.TreeSearch

namespace TDB

open BplusTreeHandler BplusTreeScanner Exec

variable {A : Type}

/-! ## Leaves in a row -/

/-- The leaves of a tree as a scan meets them, each with its page and its items. -/
abbrev LeafRow (A : Type) := List (PageNum × List (Key A × RID))

def rowEntries (row : LeafRow A) : List (Key A × RID) := row.flatMap Prod.snd

def rowHead (row : LeafRow A) : PageNum := (row.map Prod.fst).headD invalidPageNum

@[simp] theorem rowEntries_nil : rowEntries ([] : LeafRow A) = [] := rfl

@[simp] theorem rowEntries_cons (l : PageNum × List (Key A × RID)) (row : LeafRow A) :
    rowEntries (l :: row) = l.2 ++ rowEntries row := List.flatMap_cons

@[simp] theorem rowEntries_append (row row' : LeafRow A) :
    rowEntries (row ++ row') = rowEntries row ++ rowEntries row' := List.flatMap_append

@[simp] theorem rowHead_cons (l : PageNum × List (Key A × RID)) (row : LeafRow A) :
    rowHead (l :: row) = l.1 := rfl

/-- The pages hold these leaves, none of them empty, and each names the next. -/
structure RowOnPages (s : BplusTreeHandler A) (row : LeafRow A) : Prop where
  leaf : ∀ pre l post, row = pre ++ l :: post →
    ∃ parent, s.page l.1 = some (.leaf parent (rowHead post) l.2)
  nonempty : ∀ l ∈ row, l.2 ≠ []
  valid : ∀ l ∈ row, l.1 ≠ invalidPageNum
  pageCount : 0 < s.fileBufferPool.fileHeader.pageCount

theorem RowOnPages.congr {s s' : BplusTreeHandler A} {row : LeafRow A} {d : PageNum → ℤ}
    (hr : RowOnPages s row) (hq : Quiet s s' d) (hp : s'.page = s.page) : RowOnPages s' row := by
  refine ⟨?_, hr.nonempty, hr.valid, ?_⟩
  · intro pre l post hrow
    rw [hp]
    exact hr.leaf pre l post hrow
  · rw [hq.fileHeader]
    exact hr.pageCount

/-! ## The entries that a scanner has still to return -/

variable [LinearOrder (Key A)]

/-- The entry is not behind the right bound. -/
def withinRight (right : Option (Key A)) (x : Key A × RID) : Bool :=
  right.all fun k => decide (x.1 ≤ k)

def held (sc : BplusTreeScanner A) : PageNum → ℤ :=
  match sc.currentFrame with
  | some p => ref p
  | none => 0

/-- The scanner stands in a row of leaves and has the entries `rem` before it. -/
inductive Scans (row : LeafRow A) (sc : BplusTreeScanner A) : List (Key A × RID) → Prop
  | ended : sc.currentFrame = none → Scans row sc []
  | within {pre post : LeafRow A} {l : PageNum × List (Key A × RID)} :
      row = pre ++ l :: post → sc.currentFrame = some l.1 → sc.iterIndex ≤ l.2.length →
      (sc.firstEmitted = false → ∃ x, l.2[sc.iterIndex]? = some x ∧
        withinRight sc.rightKey x = true) →
      Scans row sc ((l.2.drop sc.iterIndex ++ rowEntries post).takeWhile
        (withinRight sc.rightKey))

variable {h : IndexFileHeader A} {s : BplusTreeHandler A} {row : LeafRow A}
  {sc : BplusTreeScanner A}

theorem returns_touchEnd (hh : h.Orders) {frame parent next : PageNum}
    {items : List (Key A × RID)} {x : Key A × RID} {Q : Bool → BplusTreeHandler A → Prop}
    (hpage : s.page frame = some (.leaf parent next items))
    (hx : items[sc.iterIndex]? = some x) :
    Returns (touchEnd h sc frame) s Q ↔ Q (!withinRight sc.rightKey x) s := by
  unfold touchEnd
  cases hright : sc.rightKey with
  | none => simp [withinRight]
  | some k =>
    simp only [returns_bind]
    rw [returns_leafNode hpage]
    rw [returns_itemAt (i := sc.iterIndex) (x := x) rfl hx, returns_pure]
    have hcompare : decide (h.compare x.1 k > 0) = !withinRight (some k) x := by
      simp only [withinRight, Option.all_some, ← decide_not, not_le]
      exact decide_eq_decide.mpr (hh.gt_iff x.1 k)
    rw [hcompare]

/-- What one call of `next_entry` gives: the end of the scan or the entry `x` at index `i` of
leaf `l`. -/
structure Emits (row : LeafRow A) (s : BplusTreeHandler A) (sc : BplusTreeScanner A)
    (rem : List (Key A × RID)) (isDelete : Bool) (r : RC × Option RID × BplusTreeScanner A)
    (s' : BplusTreeHandler A) : Prop where
  quiet : Quiet s s' (held r.2.2 - held sc)
  page : s'.page = s.page
  result : (rem = [] ∧ r.1 = .recordEof ∧ r.2.1 = none ∧ Scans row r.2.2 []) ∨
    ∃ pre l post i x, row = pre ++ l :: post ∧ l.2[i]? = some x ∧
      withinRight sc.rightKey x = true ∧
      rem = (l.2.drop i ++ rowEntries post).takeWhile (withinRight sc.rightKey) ∧
      r = (.success, some x.2, { sc with
        currentFrame := some l.1
        firstEmitted := true
        iterIndex := if isDelete then i else i + 1 })

omit [LinearOrder (Key A)] in
theorem drop_append_eq_cons {items rest : List (Key A × RID)} {i : ℕ} {x : Key A × RID}
    (hx : items[i]? = some x) : items.drop i ++ rest = x :: (items.drop (i + 1) ++ rest) := by
  obtain ⟨hi, rfl⟩ := List.getElem?_eq_some_iff.mp hx
  rw [List.drop_eq_getElem_cons hi, List.cons_append]

theorem RowOnPages.returns_nextEntry_item (hh : h.Orders) (hrow : RowOnPages s row)
    {pre post : LeafRow A} {l : PageNum × List (Key A × RID)} {x : Key A × RID}
    (heq : row = pre ++ l :: post) (hframe : sc.currentFrame = some l.1)
    (hx : l.2[sc.iterIndex]? = some x)
    (hfirst : sc.firstEmitted = false → withinRight sc.rightKey x = true) (isDelete : Bool)
    (fuel : ℕ) :
    Returns (nextEntryLoop h isDelete (fuel + 1) sc) s
      (Emits row s sc ((l.2.drop sc.iterIndex ++ rowEntries post).takeWhile
        (withinRight sc.rightKey)) isDelete) := by
  obtain ⟨parent, hpage⟩ := hrow.leaf pre l post heq
  have hheld : held sc = ref l.1 := by rw [held, hframe]
  have hemit : withinRight sc.rightKey x = true →
      Returns (emit sc l.1 isDelete) s (Emits row s sc
        ((l.2.drop sc.iterIndex ++ rowEntries post).takeWhile (withinRight sc.rightKey))
        isDelete) := by
    intro hwithin
    unfold emit
    rw [returns_bind, returns_leafNode hpage, returns_bind,
      returns_itemAt (i := sc.iterIndex) (x := x) rfl hx, returns_pure]
    refine ⟨(Quiet.refl s).congr ?_, rfl, .inr ⟨pre, l, post, sc.iterIndex, x, heq, hx, hwithin,
      rfl, by rw [hframe]⟩⟩
    rw [hheld]
    simp [held, hframe]
  have hlt : sc.iterIndex < l.2.length := (List.getElem?_eq_some_iff.mp hx).1
  unfold nextEntryLoop
  rw [hframe]
  -- `open` has compared the first item with the right key, so the loop does not do it again
  cases hemitted : sc.firstEmitted with
  | false =>
    simp only [Bool.not_false, ↓reduceIte]
    simpa using hemit (hfirst hemitted)
  | true =>
    simp only [Bool.not_true, Bool.false_eq_true, ↓reduceIte, returns_bind]
    rw [returns_leafNode hpage]
    simp only [hlt, ↓reduceIte, returns_bind]
    rw [returns_touchEnd hh hpage hx]
    cases hwithin : withinRight sc.rightKey x with
    | false =>
      simp only [Bool.not_false, ↓reduceIte, returns_pure]
      have hnil : (l.2.drop sc.iterIndex ++ rowEntries post).takeWhile
          (withinRight sc.rightKey) = [] := by
        rw [drop_append_eq_cons hx, List.takeWhile_cons_of_neg (by simp [hwithin])]
      refine ⟨(Quiet.refl s).congr (by simp), rfl, .inl ⟨hnil, rfl, rfl, ?_⟩⟩
      rw [← hnil]
      exact .within heq hframe hlt.le fun hfalse => absurd (hemitted.symm.trans hfalse) (by decide)
    | true =>
      simp only [Bool.not_true, Bool.false_eq_true, ↓reduceIte]
      simpa using hemit hwithin

theorem RowOnPages.returns_nextEntry (hh : h.Orders) (hrow : RowOnPages s row)
    {rem : List (Key A × RID)} (hsc : Scans row sc rem) (isDelete : Bool) :
    Returns (nextEntry h sc isDelete) s (Emits row s sc rem isDelete) := by
  obtain ⟨fuel, hfuel⟩ := Nat.exists_eq_add_of_lt hrow.pageCount
  unfold nextEntry
  rw [returns_bind, returns_linkBound, hfuel]
  cases hsc with
  | ended hframe =>
    unfold nextEntryLoop
    rw [hframe]
    simp only [returns_pure]
    exact ⟨(Quiet.refl s).congr (by simp), rfl, .inl ⟨rfl, rfl, rfl, .ended hframe⟩⟩
  | @within pre post l heq hframe hle hfirst =>
    rcases hle.lt_or_eq with hlt | hend
    · have hx := List.getElem?_eq_getElem hlt
      refine hrow.returns_nextEntry_item hh heq hframe hx (fun hemitted => ?_) isDelete _
      obtain ⟨x, hx', hwithin⟩ := hfirst hemitted
      rw [hx] at hx'
      obtain rfl := Option.some.inj hx'
      exact hwithin
    · -- the leaf is exhausted
      have hnone : l.2[sc.iterIndex]? = none := List.getElem?_eq_none hend.ge
      have hemitted : sc.firstEmitted = true := by
        by_contra hfalse
        obtain ⟨x, hx, -⟩ := hfirst (Bool.eq_false_iff.mpr hfalse)
        rw [hnone] at hx
        cases hx
      have hdrop : l.2.drop sc.iterIndex = [] := List.drop_eq_nil_of_le hend.ge
      obtain ⟨parent, hpage⟩ := hrow.leaf pre l post heq
      rw [hdrop, List.nil_append]
      unfold nextEntryLoop
      rw [hframe]
      simp only [hemitted, Bool.not_true, Bool.false_eq_true, ↓reduceIte, returns_bind]
      rw [returns_leafNode hpage]
      simp only [hend, lt_irrefl, ↓reduceIte]
      cases post with
      | nil =>
        rw [if_pos (show invalidPageNum = rowHead [] from rfl), returns_pure]
        refine ⟨(Quiet.refl s).congr (by simp), rfl, .inl ⟨rfl, rfl, rfl, ?_⟩⟩
        have hscans := Scans.within heq hframe hle hfirst
        rwa [hdrop, List.nil_append, rowEntries_nil, List.takeWhile_nil] at hscans
      | cons l' post =>
        have heq' : row = (pre ++ [l]) ++ l' :: post := by rw [heq]; simp
        have hmem : l' ∈ row := by rw [heq']; simp
        obtain ⟨parent', hpage'⟩ := hrow.leaf _ l' post heq'
        rw [rowHead_cons, if_neg (hrow.valid l' hmem).symm]
        simp only [returns_bind, returns_unpinPage]
        rw [returns_getThisPage (by rw [page_unpin, hpage']; simp)]
        simp only [fail_success, Bool.false_eq_true, ↓reduceIte]
        obtain ⟨x, items, hitems⟩ := List.exists_cons_of_ne_nil (hrow.nonempty l' hmem)
        have hquiet : Quiet s ((s.update l.1 Frame.unpin).update l'.1 Frame.pin)
            (-ref l.1 + ref l'.1) :=
          (Quiet.unpin (by rw [hpage]; simp)).trans (Quiet.pin (by rw [page_unpin, hpage']; simp))
        have hpages : ((s.update l.1 Frame.unpin).update l'.1 Frame.pin).page = s.page := by simp
        have hframe' : (⟨sc.inited, some l'.1, sc.rightKey, 0, true⟩ :
            BplusTreeScanner A).currentFrame = some l'.1 := rfl
        have hnext := (hrow.congr hquiet hpages).returns_nextEntry_item hh heq' hframe'
          (show l'.2[0]? = some x by rw [hitems]; rfl) (fun hfalse => by cases hfalse) isDelete fuel
        rw [Nat.zero_add]
        refine hnext.mono ?_
        rintro r s' ⟨hq, hp, hresult⟩
        refine ⟨(hquiet.trans hq).congr ?_, hp.trans hpages, ?_⟩
        · have hheld : held sc = ref l.1 := by rw [held, hframe]
          have hheld' : held (⟨sc.inited, some l'.1, sc.rightKey, 0, true⟩ :
              BplusTreeScanner A) = ref l'.1 := rfl
          rw [hheld, hheld']
          funext q
          simp only [Pi.add_apply, Pi.sub_apply, Pi.neg_apply]
          ring
        · simpa only [rowEntries_cons, List.drop_zero] using hresult

/-- After an emission without deletion the rest of the entries is left. -/
theorem Emits.scans {rem : List (Key A × RID)} {r : RC × Option RID × BplusTreeScanner A}
    {s' : BplusTreeHandler A} (he : Emits row s sc rem false r s') :
    (rem = [] ∧ r.1 = .recordEof ∧ r.2.1 = none ∧ Scans row r.2.2 []) ∨
      ∃ x rest, rem = x :: rest ∧ r.1 = .success ∧ r.2.1 = some x.2 ∧ Scans row r.2.2 rest := by
  rcases he.result with hend | ⟨pre, l, post, i, x, heq, hx, hwithin, hrem, rfl⟩
  · exact .inl hend
  · refine .inr ⟨x, _, ?_, rfl, rfl, .within heq rfl ?_ fun hfalse => by cases hfalse⟩
    · rw [hrem, drop_append_eq_cons hx, List.takeWhile_cons_of_pos hwithin]
      rfl
    · have hlt := (List.getElem?_eq_some_iff.mp hx).1
      exact hlt

/-- The loop over `next_entry` returns the entries in their order. -/
theorem RowOnPages.returns_drain (hh : h.Orders) {rem : List (Key A × RID)}
    (hrow : RowOnPages s row) (hsc : Scans row sc rem) {fuel : ℕ} (hfuel : rem.length < fuel) :
    Returns (drain h fuel sc) s fun r s' => r.1 = .recordEof ∧ r.2.1 = rem.map Prod.snd ∧
      s'.page = s.page ∧ Quiet s s' (held r.2.2 - held sc) ∧ Scans row r.2.2 [] := by
  induction rem generalizing fuel s sc with
  | nil =>
    obtain ⟨fuel, rfl⟩ := Nat.exists_eq_add_of_lt hfuel
    rw [List.length_nil, Nat.zero_add, drain, returns_bind]
    refine (hrow.returns_nextEntry hh hsc false).mono ?_
    rintro ⟨rc, rid, sc'⟩ s' he
    rcases he.scans with ⟨-, hrc, hrid, hended⟩ | ⟨x, rest, hnil, -⟩
    · dsimp only at hrc hrid
      subst hrid
      rw [returns_pure]
      exact ⟨hrc, rfl, he.page, he.quiet, hended⟩
    · cases hnil
  | cons x rem ih =>
    obtain ⟨fuel, rfl⟩ := Nat.exists_eq_add_of_lt (Nat.zero_lt_of_lt hfuel)
    rw [Nat.zero_add] at hfuel ⊢
    rw [drain, returns_bind]
    refine (hrow.returns_nextEntry hh hsc false).mono ?_
    rintro ⟨rc, rid, sc'⟩ s' he
    rcases he.scans with ⟨hnil, -⟩ | ⟨y, rest, hrem, hrc, hrid, hscans⟩
    · cases hnil
    · obtain ⟨rfl, rfl⟩ := List.cons.inj hrem
      dsimp only at hrid hscans
      subst hrid
      rw [returns_bind]
      refine (ih (hrow.congr he.quiet he.page) hscans (Nat.lt_of_succ_lt_succ hfuel)).mono ?_
      rintro ⟨rc', rids, sc''⟩ s'' ⟨hrc', hrids, hpage, hquiet, hended⟩
      rw [returns_pure]
      refine ⟨hrc', ?_, hpage.trans he.page, (he.quiet.trans hquiet).congr ?_, hended⟩
      · rw [List.map_cons]
        exact congrArg (x.2 :: ·) hrids
      · funext q
        simp only [Pi.add_apply, Pi.sub_apply]
        ring

/-! ## Opening a scan -/

/-- What a scan needs of a tree: leaves in order and the descent to them. -/
structure Readable (h : IndexFileHeader A) (s : BplusTreeHandler A) (row : LeafRow A) : Prop
    extends RowOnPages s row where
  increasing : (rowEntries row).Pairwise fun a b => a.1 < b.1
  findLeaf : ∀ key, ∃ pre l post, row = pre ++ l :: post ∧ (∀ x ∈ rowEntries pre, x.1 < key) ∧
    (∀ x ∈ rowEntries post, key < x.1) ∧
    Returns (findLeaf h key) s fun r s' => r = (.success, l.1) ∧ Reaches s l.1 s'
  leftMost : ∃ l post, row = l :: post ∧
    Returns leftMostPage s fun r s' => r = (.success, l.1) ∧ Reaches s l.1 s'

def betweenKeys (left right : Option (Key A)) (x : Key A × RID) : Bool :=
  (left.all fun k => decide (k ≤ x.1)) && withinRight right x

theorem filter_withinRight {right : Option (Key A)} : ∀ {es : List (Key A × RID)},
    es.Pairwise (fun a b => a.1 < b.1) →
    es.filter (withinRight right) = es.takeWhile (withinRight right)
  | [], _ => rfl
  | x :: es, hinc => by
    obtain ⟨hx, hes⟩ := List.pairwise_cons.mp hinc
    cases hwithin : withinRight right x with
    | true =>
      rw [List.filter_cons_of_pos hwithin, List.takeWhile_cons_of_pos hwithin,
        filter_withinRight hes]
    | false =>
      have hfalse : ¬ withinRight right x = true := by simp [hwithin]
      rw [List.filter_cons_of_neg hfalse, List.takeWhile_cons_of_neg hfalse, List.filter_eq_nil_iff]
      intro y hy hwithin'
      apply hfalse
      cases right with
      | none => rfl
      | some k =>
        have hle : y.1 ≤ k := of_decide_eq_true hwithin'
        exact decide_eq_true ((hx y hy).le.trans hle)

theorem filter_betweenKeys {left right : Option (Key A)} {es es' : List (Key A × RID)}
    (hinc : (es ++ es').Pairwise fun a b => a.1 < b.1)
    (hes : ∀ x ∈ es, ∃ k ∈ left, x.1 < k) (hes' : ∀ x ∈ es', ∀ k ∈ left, k ≤ x.1) :
    (es ++ es').filter (betweenKeys left right) = es'.takeWhile (withinRight right) := by
  have hleft : es.filter (betweenKeys left right) = [] := by
    rw [List.filter_eq_nil_iff]
    intro x hx hbetween
    obtain ⟨k, hk, hlt⟩ := hes x hx
    obtain rfl := Option.mem_def.mp hk
    have hle : k ≤ x.1 := of_decide_eq_true (Bool.and_eq_true_iff.mp hbetween).1
    exact absurd hlt hle.not_gt
  have hright : es'.filter (betweenKeys left right) = es'.filter (withinRight right) := by
    refine List.filter_congr fun x hx => ?_
    have hall : (left.all fun k => decide (k ≤ x.1)) = true := by
      rw [Option.all_eq_true]
      exact fun k hk => decide_eq_true (hes' x hx k hk)
    rw [betweenKeys, hall, Bool.true_and]
  rw [List.filter_append, hleft, hright, List.nil_append]
  exact filter_withinRight (List.pairwise_append.mp hinc).2.1

theorem RowOnPages.returns_openRight (hh : h.Orders) (hrow : RowOnPages s row)
    {pre post : LeafRow A} {l : PageNum × List (Key A × RID)} {i : ℕ}
    (heq : row = pre ++ l :: post) (hi : i < l.2.length) (right : Option (Key A)) :
    Returns (openRight h l.1 i right) s fun r s' => r.1 = .success ∧ s'.page = s.page ∧
      Quiet s s' (held r.2 - ref l.1) ∧
      Scans row r.2 ((l.2.drop i ++ rowEntries post).takeWhile (withinRight right)) := by
  obtain ⟨parent, hpage⟩ := hrow.leaf pre l post heq
  have hx := List.getElem?_eq_getElem hi
  have hp : s.page l.1 ≠ none := by rw [hpage]; simp
  unfold openRight
  rw [returns_bind, returns_touchEnd hh hpage hx]
  cases hwithin : withinRight right l.2[i] with
  | false =>
    simp only [Bool.not_false, ↓reduceIte, returns_bind, returns_unpinPage,
      returns_pure, page_unpin,
      true_and]
    refine ⟨(Quiet.unpin hp).congr (by simp [held]), ?_⟩
    rw [drop_append_eq_cons hx, List.takeWhile_cons_of_neg (by simp [hwithin])]
    exact .ended rfl
  | true =>
    simp only [Bool.not_true, Bool.false_eq_true, ↓reduceIte, returns_pure, true_and]
    exact ⟨(Quiet.refl s).congr (by simp [held]),
      .within heq rfl hi.le fun _ => ⟨_, hx, hwithin⟩⟩

/-- The left key falls behind the last item of the leaf it is looked up in, and there is a next
leaf. -/
def fallsPastLeaf (h : IndexFileHeader A) (s : BplusTreeHandler A) (key : Key A) : Bool :=
  match BplusTreeHandler.findLeaf h key s with
  | .ok ((_, frame), s') =>
    match s'.page frame with
    | some (.leaf _ next items) =>
      decide (items.length ≤ (leafLookup h items key).1 ∧ next ≠ invalidPageNum)
    | _ => false
  | .error _ => false

theorem leafLookup_fst (hh : h.Orders) {lo hi : List (Key A × RID)} {key : Key A}
    (hlo : ∀ x ∈ lo, x.1 < key) (hhi : ∀ x ∈ hi, key ≤ x.1) (htail : ∀ x ∈ hi.tail, key < x.1) :
    (leafLookup h (lo ++ hi) key).1 = lo.length := by
  have hge : ∀ x ∈ hi, 0 ≤ h.compare x.1 key := by
    intro x hx
    by_contra hneg
    exact absurd ((hh.lt_iff _ _).mp (not_le.mp hneg)) (hhi x hx).not_gt
  unfold leafLookup
  rw [lowerBound_append (fun x hx => (hh.lt_iff _ _).mpr (hlo x hx)) hge
    fun x hx => (hh.gt_iff _ _).mpr (htail x hx)]

theorem filter_betweenKeys_leaf {key : Key A} {right : Option (Key A)} {pre post : LeafRow A}
    {p : PageNum} {lo hi : List (Key A × RID)}
    (hinc : (rowEntries (pre ++ (p, lo ++ hi) :: post)).Pairwise fun a b => a.1 < b.1)
    (hpre : ∀ x ∈ rowEntries pre, x.1 < key) (hpost : ∀ x ∈ rowEntries post, key < x.1)
    (hlo : ∀ x ∈ lo, x.1 < key) (hhi : ∀ x ∈ hi, key ≤ x.1) :
    (rowEntries (pre ++ (p, lo ++ hi) :: post)).filter (betweenKeys (some key) right) =
      (hi ++ rowEntries post).takeWhile (withinRight right) := by
  have hcut : rowEntries (pre ++ (p, lo ++ hi) :: post) =
      (rowEntries pre ++ lo) ++ (hi ++ rowEntries post) := by
    rw [rowEntries_append, rowEntries_cons, List.append_assoc lo, List.append_assoc]
  rw [hcut] at hinc ⊢
  refine filter_betweenKeys hinc ?_ ?_
  · intro x hx
    refine ⟨key, rfl, ?_⟩
    rcases List.mem_append.mp hx with hx | hx
    · exact hpre x hx
    · exact hlo x hx
  · intro x hx k hk
    obtain rfl := Option.some.inj hk
    rcases List.mem_append.mp hx with hx | hx
    · exact hhi x hx
    · exact (hpost x hx).le

/-- `open` without a left key: the scanner stands before the first entry. -/
theorem Readable.returns_openKeys_none (hh : h.Orders) (hr : Readable h s row)
    (right : Option (Key A)) :
    Returns (openKeys h sc none right) s fun r s' => r.1 = .success ∧ s'.page = s.page ∧
      Scans row r.2 ((rowEntries row).filter (betweenKeys none right)) ∧
      ∃ p, Quiet s s' (held r.2 + if (none : Option (Key A)).any (fallsPastLeaf h s) then ref p
        else 0) := by
  obtain ⟨l, post, heq, hleft⟩ := hr.leftMost
  unfold openKeys
  simp only [returns_bind]
  refine hleft.mono ?_
  rintro _ s₁ ⟨rfl, hreach⟩
  simp only [fail_success, Bool.false_eq_true, ↓reduceIte]
  have hpos : 0 < l.2.length := List.length_pos_iff.mpr (hr.nonempty l (by rw [heq]; simp))
  have hrow₁ := hr.toRowOnPages.congr hreach.quiet hreach.page
  refine (hrow₁.returns_openRight hh (show row = [] ++ l :: post from heq) hpos right).mono ?_
  rintro r s' ⟨hrc, hpage, hquiet, hscans⟩
  refine ⟨hrc, hpage.trans hreach.page, ?_, l.1, (hreach.quiet.trans hquiet).congr ?_⟩
  · have hinc := hr.increasing
    rw [heq, rowEntries_cons] at hinc ⊢
    have hfilter : ([] ++ (l.2 ++ rowEntries post)).filter (betweenKeys none right) = _ :=
      filter_betweenKeys hinc (by simp) (by simp)
    rw [List.nil_append] at hfilter
    rw [hfilter, ← heq]
    rwa [List.drop_zero] at hscans
  · funext q
    simp only [Option.any_none, Bool.false_eq_true, ↓reduceIte, Pi.add_apply, Pi.sub_apply,
      Pi.zero_apply]
    ring

/-- `open` with keys: the scanner stands before the entries between them.  If the left key falls
behind its leaf, the pin of that leaf is kept. -/
theorem Readable.returns_openKeys (hh : h.Orders) (hr : Readable h s row)
    (left right : Option (Key A)) :
    Returns (openKeys h sc left right) s fun r s' => r.1 = .success ∧ s'.page = s.page ∧
      Scans row r.2 ((rowEntries row).filter (betweenKeys left right)) ∧
      ∃ p, Quiet s s' (held r.2 + if left.any (fallsPastLeaf h s) then ref p else 0) := by
  cases left with
  | none => exact hr.returns_openKeys_none hh right
  | some key =>
    obtain ⟨pre, l, post, heq, hpre, hpost, hfind⟩ := hr.findLeaf key
    obtain ⟨parent, hpage⟩ := hr.leaf pre l post heq
    have hinc := hr.increasing
    rw [heq, rowEntries_append, rowEntries_cons] at hinc
    obtain ⟨lo, hi, hitems, hlo, hhi, htail⟩ := exists_cut key
      (List.pairwise_append.mp (List.pairwise_append.mp hinc).2.1).1
    have hlookup := leafLookup_fst hh hlo hhi htail
    have hrow : row = pre ++ (l.1, lo ++ hi) :: post := by rw [heq, ← hitems]
    have hfilter : (rowEntries row).filter (betweenKeys (some key) right) =
        (hi ++ rowEntries post).takeWhile (withinRight right) := by
      rw [hrow]
      exact filter_betweenKeys_leaf (hrow ▸ hr.increasing) hpre hpost hlo hhi
    rw [hfilter]
    obtain ⟨_, s₁, hrun, rfl, hreach⟩ := hfind
    have hrow₁ := hr.toRowOnPages.congr hreach.quiet hreach.page
    have hpage₁ : s₁.page l.1 = some (.leaf parent (rowHead post) (lo ++ hi)) := by
      rw [hreach.page, hpage, hitems]
    have hfalls : fallsPastLeaf h s key =
        decide (lo.length + hi.length ≤ lo.length ∧ rowHead post ≠ invalidPageNum) := by
      unfold fallsPastLeaf
      rw [hrun]
      dsimp only
      rw [hpage₁]
      dsimp only
      rw [hlookup, List.length_append]
    unfold openKeys
    rw [returns_bind, returns_of_eq hrun]
    simp only [reduceCtorEq, ↓reduceIte, fail_success, Bool.false_eq_true, Option.any_some, hfalls]
    rw [returns_bind, returns_leafNode hpage₁]
    simp only [hlookup, List.length_append]
    by_cases hnil : hi = []
    · -- the key falls behind the last item: the scan starts in the next leaf, if there is one
      subst hnil
      rw [List.length_nil, Nat.add_zero, if_pos le_rfl, List.nil_append]
      cases post with
      | nil =>
        have hnone : rowHead ([] : LeafRow A) = invalidPageNum := rfl
        simp only [hnone, ↓reduceIte, returns_bind, returns_unpinPage, returns_pure, page_unpin,
          true_and, ne_eq, not_true_eq_false, and_false, decide_false, Bool.false_eq_true]
        refine ⟨hreach.page, .ended rfl, l.1, ?_⟩
        have hunpin : Quiet s₁ (s₁.update l.1 Frame.unpin) (-ref l.1) :=
          Quiet.unpin (by rw [hpage₁]; simp)
        exact (hreach.quiet.trans hunpin).congr (by simp [held])
      | cons l' post =>
        have heq' : row = (pre ++ [l]) ++ l' :: post := by rw [heq]; simp
        have hmem : l' ∈ row := by rw [heq']; simp
        obtain ⟨parent', hpage'⟩ := hrow₁.leaf _ l' post heq'
        have hp' : s₁.page l'.1 ≠ none := by rw [hpage']; simp
        have hpos : 0 < l'.2.length := List.length_pos_iff.mpr (hr.nonempty l' hmem)
        have hpin : Quiet s₁ (s₁.update l'.1 Frame.pin) (ref l'.1) := Quiet.pin hp'
        rw [rowHead_cons, if_neg (hr.valid l' hmem), returns_bind, returns_getThisPage hp']
        simp only [fail_success, Bool.false_eq_true, ↓reduceIte]
        refine ((hrow₁.congr hpin (page_pin _ _)).returns_openRight hh heq' hpos right).mono ?_
        rintro r s' ⟨hrc, hpages, hquiet, hscans⟩
        refine ⟨hrc, hpages.trans ((page_pin _ _).trans hreach.page), hscans, l.1,
          ((hreach.quiet.trans hpin).trans hquiet).congr ?_⟩
        rw [if_pos (decide_eq_true ⟨le_rfl, hr.valid l' hmem⟩)]
        funext q
        simp only [Pi.add_apply, Pi.sub_apply]
        ring
    · have hpos : 0 < hi.length := List.length_pos_iff.mpr hnil
      have hnot : ¬ lo.length + hi.length ≤ lo.length := by omega
      rw [if_neg hnot]
      have hi : lo.length < l.2.length := by
        rw [hitems, List.length_append]
        omega
      refine (hrow₁.returns_openRight hh heq hi right).mono ?_
      rintro r s' ⟨hrc, hpages, hquiet, hscans⟩
      rw [hitems, List.drop_left] at hscans
      refine ⟨hrc, hpages.trans hreach.page, hscans, l.1, (hreach.quiet.trans hquiet).congr ?_⟩
      rw [if_neg (by simp [hnot])]
      funext q
      simp only [Pi.add_apply, Pi.sub_apply, Pi.zero_apply]
      ring

/-- A scan between two keys returns the entries between them, in key order, and then the end. -/
theorem Readable.returns_scanKeys (hh : h.Orders) (hr : Readable h s row)
    (left right : Option (Key A)) :
    Returns (openKeys h sc left right) s fun r s₁ => r.1 = .success ∧
      ∀ fuel > (rowEntries row).length, Returns (drain h fuel r.2) s₁ fun r _ =>
        r.1 = .recordEof ∧
          r.2.1 = ((rowEntries row).filter (betweenKeys left right)).map Prod.snd := by
  refine (hr.returns_openKeys hh left right).mono ?_
  rintro r s₁ ⟨hrc, hpage, hscans, p, hquiet⟩
  refine ⟨hrc, fun fuel hfuel => ?_⟩
  have hlength : ((rowEntries row).filter (betweenKeys left right)).length < fuel :=
    (List.length_filter_le _ _).trans_lt hfuel
  refine ((hr.toRowOnPages.congr hquiet hpage).returns_drain hh hscans hlength).mono ?_
  rintro r s₂ ⟨hrc, hrids, -⟩
  exact ⟨hrc, hrids⟩

end TDB
