import Mathlib.Logic.Relation
import TDB.IndexDelete
import TDB.IntIndex
import TDB.ValidateTree
import TDB.WellFormed

namespace TDB

open BplusTreeHandler Exec Relation

variable {A : Type}

/-! ## Sequences of calls -/

inductive Update (A : Type) where
  | insertEntry (attr : A) (rid : RID)
  | deleteEntry (attr : A) (rid : RID)

def Update.run (h : IndexFileHeader A) : Update A → TreeM A RC
  | .insertEntry attr rid => BplusTreeHandler.insertEntry h attr rid
  | .deleteEntry attr rid => BplusTreeHandler.deleteEntry h attr rid

def entrySet (s : BplusTreeHandler A) : Set (A × RID) :=
  {e | ((⟨e.1, e.2⟩ : Key A), e.2) ∈ entries s}

open Classical in
noncomputable def Update.apply : Update A → Set (A × RID) → RC × Set (A × RID)
  | .insertEntry attr rid, S =>
    if (attr, rid) ∈ S then (.recordDuplicateKey, S) else (.success, insert (attr, rid) S)
  | .deleteEntry attr rid, S =>
    if (attr, rid) ∈ S then (.success, S \ {(attr, rid)}) else (.recordNotExist, S)

/-- One call during which `allocate_page` never fails. -/
def Served (h : IndexFileHeader A) (s s' : BplusTreeHandler A) : Prop :=
  ∃ u rc, Update.run h u s = .ok (rc, s') ∧
    s'.fileBufferPool.allocFailures = s.fileBufferPool.allocFailures

/-- The pages that the call needs can be allocated. -/
def Update.servable [LinearOrder (Key A)] (h : IndexFileHeader A) (s : BplusTreeHandler A) :
    Update A → Bool
  | .insertEntry attr rid => s.fileBufferPool.canAllocate (insertPagesNeeded h s ⟨attr, rid⟩)
  | .deleteEntry _ _ => true

def Allowed (h : IndexFileHeader A) (cond : BplusTreeHandler A → Update A → Prop)
    (s s' : BplusTreeHandler A) : Prop :=
  ∃ u rc, cond s u ∧ Update.run h u s = .ok (rc, s')

def runServed (h : IndexFileHeader A) :
    List (Update A) → BplusTreeHandler A → Option (BplusTreeHandler A)
  | [], s => some s
  | u :: us, s =>
    match u.run h s with
    | .ok (_, s') =>
      if s'.fileBufferPool.allocFailures = s.fileBufferPool.allocFailures then runServed h us s'
      else none
    | .error _ => none

theorem reflTransGen_runServed {h : IndexFileHeader A} : ∀ {us : List (Update A)}
    {s s' : BplusTreeHandler A}, runServed h us s = some s' → ReflTransGen (Served h) s s'
  | [], s, s', hrun => by
    cases hrun
    exact .refl
  | u :: us, s, s', hrun => by
    unfold runServed at hrun
    split at hrun
    · next rc s₁ hcall =>
      split at hrun
      · next hfails => exact .head ⟨u, rc, hcall, hfails⟩ (reflTransGen_runServed hrun)
      · cases hrun
    · cases hrun

/-! ## One call -/

inductive Applies : Update A → List (Key A × RID) → RC → List (Key A × RID) → Prop
  | duplicate {attr rid es} : (⟨attr, rid⟩, rid) ∈ es →
      Applies (.insertEntry attr rid) es .recordDuplicateKey es
  | inserted {attr rid es es'} : (⟨attr, rid⟩, rid) ∉ es → Adds ⟨attr, rid⟩ es es' →
      Applies (.insertEntry attr rid) es .success es'
  | notExist {attr rid es} : (⟨attr, rid⟩, rid) ∉ es →
      Applies (.deleteEntry attr rid) es .recordNotExist es
  | deleted {attr rid es es'} : Adds ⟨attr, rid⟩ es' es →
      Applies (.deleteEntry attr rid) es .success es'

variable [LinearOrder (Key A)] {h : IndexFileHeader A} {r : Regime A} {s s' : BplusTreeHandler A}
  {lo leafLo : ℕ} {es es' : List (Key A × RID)}

/-- The result of a call.  Without a failed allocation it does what it should; with one the index
still stands, over other entries. -/
structure Updates (h : IndexFileHeader A) (r : Regime A) (lo leafLo : ℕ) (s : BplusTreeHandler A)
    (u : Update A) (es : List (Key A × RID)) (rc : RC) (s' : BplusTreeHandler A) : Prop where
  stands : ∃ es', Index h r.unchained lo leafLo s' es'
  served : s'.fileBufferPool.allocFailures = s.fileBufferPool.allocFailures →
    ∃ es', Index h r lo leafLo s' es' ∧ Applies u es rc es'
  allocates : s'.fileBufferPool.allocFailures = s.fileBufferPool.allocFailures ↔
    u.servable h s = true
  unserved : s'.fileBufferPool.allocFailures ≠ s.fileBufferPool.allocFailures →
    rc.fail = true ∧ ∃ attr rid, u = .insertEntry attr rid ∧ (⟨attr, rid⟩, rid) ∉ es
  pins : s'.fileBufferPool.allocFailures = s.fileBufferPool.allocFailures →
    rc ≠ .recordDuplicateKey → (∀ q, s.pinCount q = 0) → (∀ q, s'.pinCount q = 0) ∧
      s'.fileBufferPool.pinnedFrees = s.fileBufferPool.pinnedFrees

theorem Tree.unchain {leaves : List (Leaf A)} {levs : List (Level A)}
    (ht : Tree h r s lo leafLo leaves levs) : Tree h r.unchained s lo leafLo leaves levs := by
  refine ⟨⟨ht.isOver, linked_unchained fun l hl => ?_, ht.leafOk, ht.apart⟩, ht.sized⟩
  obtain ⟨pre, post, rfl⟩ := List.append_of_mem hl
  obtain ⟨next, hbody, -⟩ := ht.linked.body
  exact ⟨next, hbody⟩

theorem Index.unchain (hi : Index h r lo leafLo s es) : Index h r.unchained lo leafLo s es := by
  rcases hi with hi | ⟨leaves, levs, ht, rfl⟩
  · exact Or.inl hi
  · exact Or.inr ⟨leaves, levs, ht.unchain, rfl⟩

theorem Index.quiet {d : PageNum → ℤ} (hi : Index h r lo leafLo s es) (hq : Quiet s s' d)
    (hp : s'.page = s.page) : Index h r lo leafLo s' es :=
  hi.congr hq.rootPage (fun q _ => by rw [hp]) fun q hq' => (hq.allocated_iff q).mpr hq'

theorem Index.mem_iff (hi : Index h r lo leafLo s es) (attr : A) (rid : RID) :
    (⟨attr, rid⟩, rid) ∈ es ↔ ∃ x ∈ es, x.1 = ⟨attr, rid⟩ := by
  constructor
  · exact fun hm => ⟨_, hm, rfl⟩
  · rintro ⟨⟨k, v⟩, hm, rfl⟩
    have hv : v = rid := hi.value _ hm
    rwa [hv] at hm

/-- A duplicate needs no page. -/
theorem Index.insertPagesNeeded_present (hh : h.Orders) (hi : Index h r lo leafLo s es) {attr : A}
    {rid : RID} (hmem : (⟨attr, rid⟩, rid) ∈ es) : insertPagesNeeded h s ⟨attr, rid⟩ = 0 := by
  rcases hi with ⟨-, rfl⟩ | ⟨leaves, levs, ht, rfl⟩
  · simp at hmem
  · obtain ⟨pre, l, post, rfl, hl⟩ := ht.toShape.exists_leafFor ⟨attr, rid⟩
    rcases ht.toShape.key_cases hl with ⟨-, a, b, hitems, ha, hb⟩ | ⟨hne, -⟩
    · obtain ⟨_, s₁, hrun, rfl, -⟩ := returns_findLeaf hh ht.toShape hl
      obtain ⟨par, next, -, hpage, -⟩ := ht.page_leaf
      unfold insertPagesNeeded
      rw [ht.isOver.isEmpty_eq, hrun]
      simp [leafPagesNeeded, hpage, hitems, leafLookup_present hh ha hb]
    · exact absurd rfl (hne _ hmem)

theorem Index.returns_insertEntry (hh : h.Orders) (hz : Sizes h lo leafLo) {attr : A} {rid : RID}
    (hgood : r.good ⟨attr, rid⟩) (hi : Index h r lo leafLo s es) :
    Returns (insertEntry h attr rid) s
      (Updates h r lo leafLo s (.insertEntry attr rid) es) := by
  by_cases hmem : (⟨attr, rid⟩, rid) ∈ es
  · refine (hi.returns_insertEntry_present hh hmem).mono ?_
    rintro rc s' ⟨rfl, p, hr⟩
    have hi' := hi.reaches hr
    refine ⟨⟨es, hi'.unchain⟩, fun _ => ⟨es, hi', .duplicate hmem⟩,
      iff_of_true hr.quiet.allocFailures ?_,
      fun hne => absurd hr.quiet.allocFailures hne, fun _ hne => absurd rfl hne⟩
    rw [Update.servable, hi.insertPagesNeeded_present hh hmem]
    rfl
  · have habs : ∀ x ∈ es, x.1 ≠ ⟨attr, rid⟩ := fun x hx he =>
      hmem ((hi.mem_iff attr rid).mpr ⟨x, hx, he⟩)
    refine (hi.returns_insertEntry_absent hh habs hgood hz.two_le hz.lo_le hz.pos
      hz.leafLo_le).mono ?_
    rintro rc s' ⟨-, hserved, hdone, hfailed⟩
    refine ⟨?_, fun he => ?_, hserved, fun hne => ⟨(hfailed hne).1, attr, rid, rfl, hmem⟩,
      fun he _ hpins => ?_⟩
    · by_cases he : s'.fileBufferPool.allocFailures = s.fileBufferPool.allocFailures
      · obtain ⟨-, es', hi', -⟩ := hdone he
        exact ⟨es', hi'.unchain⟩
      · obtain ⟨-, ⟨-, hi'⟩ | ⟨-, es', hi', -⟩⟩ := hfailed he
        · exact ⟨es, hi'.unchain⟩
        · exact ⟨es', hi'⟩
    · obtain ⟨rfl, es', hi', hadds, -⟩ := hdone he
      exact ⟨es', hi', .inserted hmem hadds⟩
    · obtain ⟨-, es', -, -, hpin, hfree⟩ := hdone he
      exact ⟨fun q => (hpin q).trans (hpins q), hfree⟩

theorem Index.returns_deleteEntry (hh : h.Orders) (hz : Sizes h lo leafLo) {attr : A} {rid : RID}
    (hf : (Fanout h r lo leafLo ∨ deleteUnderflows h s ⟨attr, rid⟩ = false) ∨
      (⟨attr, rid⟩, rid) ∉ es) (hi : Index h r lo leafLo s es) :
    Returns (deleteEntry h attr rid) s
      (Updates h r lo leafLo s (.deleteEntry attr rid) es) := by
  by_cases hmem : (⟨attr, rid⟩, rid) ∈ es
  · have hf := hf.resolve_right fun hnot => hnot hmem
    refine (hi.returns_deleteEntry_present hh hz hf hmem).mono ?_
    rintro rc s' ⟨rfl, es', hadds, hi', hfails, hpins⟩
    exact ⟨⟨es', hi'.unchain⟩, fun _ => ⟨es', hi', .deleted hadds⟩, iff_of_true hfails rfl,
      fun hne => absurd hfails hne, fun _ _ hp => hpins hp⟩
  · have habs : ∀ x ∈ es, x.1 ≠ ⟨attr, rid⟩ := fun x hx he =>
      hmem ((hi.mem_iff attr rid).mpr ⟨x, hx, he⟩)
    refine (hi.returns_deleteEntry_absent hh habs).mono ?_
    rintro rc s' ⟨rfl, hq, hp⟩
    have hi' := hi.quiet hq hp
    refine ⟨⟨es, hi'.unchain⟩, fun _ => ⟨es, hi', .notExist hmem⟩,
      iff_of_true hq.allocFailures rfl, fun hne => absurd hq.allocFailures hne, fun _ _ hpins => ⟨fun q => ?_, hq.pinnedFrees⟩⟩
    rw [hq.pinCount, hpins]
    rfl

/-- A call with the fan-out that deletions need. -/
theorem Index.returns_run (hh : h.Orders) (hf : Fanout h r lo leafLo) (hgood : ∀ k, r.good k)
    (hi : Index h r lo leafLo s es) (u : Update A) :
    Returns (u.run h) s (Updates h r lo leafLo s u es) := by
  cases u with
  | insertEntry attr rid => exact hi.returns_insertEntry hh hf.sizes (hgood _)
  | deleteEntry attr rid => exact hi.returns_deleteEntry hh hf.sizes (.inl (.inl hf))

/-! ## Every sequence of calls -/

def anyKeys : Regime A := ⟨fun _ => True, True⟩

theorem fanout_of_sizes (hleaf : 4 ≤ h.leafMaxSize) (hint : 6 ≤ h.internalMaxSize) :
    Fanout h (anyKeys : Regime A) (h.internalMaxSize / 2) (h.leafMaxSize / 2) :=
  ⟨rfl, by omega, rfl, by omega, Or.inl (by omega)⟩

/-- The index stands after every sequence of calls that are served. -/
theorem index_of_served (hh : h.Orders) (hf : Fanout h anyKeys lo leafLo)
    {s₀ : BplusTreeHandler A} (hroot : s₀.rootPage = invalidPageNum)
    (hrun : ReflTransGen (Served h) s₀ s) : ∃ es, Index h anyKeys lo leafLo s es := by
  induction hrun with
  | refl => exact ⟨[], Or.inl ⟨hroot, rfl⟩⟩
  | tail _ hstep ih =>
    obtain ⟨es, hi⟩ := ih
    obtain ⟨u, rc, hcall, hfails⟩ := hstep
    have hu := hi.returns_run hh hf (fun _ => trivial) u
    rw [returns_of_eq hcall] at hu
    obtain ⟨es', hi', -⟩ := hu.served hfails
    exact ⟨es', hi'⟩

theorem Index.wellFormed (hh : h.Orders) (hc : r.chained = True) (hpos : 1 ≤ leafLo)
    (hi : Index h r lo leafLo s es) : WellFormed h s True := by
  rcases hi with ⟨hroot, -⟩ | ⟨leaves, levs, ht, -⟩
  · exact Or.inl hroot
  · exact ht.wellFormed hh hc hpos

theorem Index.returns_validateTree (hh : h.Orders) (hc : r.chained = True) (h2 : 2 ≤ lo)
    (hpos : 1 ≤ leafLo) (hi : Index h r lo leafLo s es) :
    Returns (validateTree h) s fun ok _ => ok = true := by
  rcases hi with ⟨hroot, -⟩ | ⟨leaves, levs, ht, -⟩
  · unfold validateTree
    simp [isEmpty, hroot]
  · exact ht.returns_validateTree hh hc h2 hpos

/-- After every sequence of calls the tree is well formed, `validate_tree` accepts it, and the next
call ends without a fault.  On the leftmost path key 0 of a node bounds nothing. -/
theorem wellFormed_of_served (hh : h.Orders) (hleaf : 4 ≤ h.leafMaxSize)
    (hint : 6 ≤ h.internalMaxSize) {s₀ : BplusTreeHandler A}
    (hroot : s₀.rootPage = invalidPageNum) (hrun : ReflTransGen (Served h) s₀ s) :
    WellFormed h s True ∧ (Returns (validateTree h) s fun ok _ => ok = true) ∧
      ∀ u : Update A, Returns (u.run h) s fun _ _ => True := by
  have hf := fanout_of_sizes hleaf hint
  obtain ⟨es, hi⟩ := index_of_served hh hf hroot hrun
  refine ⟨hi.wellFormed hh rfl hf.sizes.pos, hi.returns_validateTree hh rfl hf.two_le
    hf.sizes.pos, fun u => ?_⟩
  exact (hi.returns_run hh hf (fun _ => trivial) u).mono fun _ _ _ => trivial

def insertNegatives (n : ℕ) : List (Update ℤ) :=
  (List.range n).map fun i : ℕ => .insertEntry (-((i : ℤ) + 1)) recordOne

theorem wellFormed_insertNegatives : ∃ s,
    runServed (columnIndex 4 6 4) (insertNegatives 9 ++ [.deleteEntry (-3) recordOne]) created =
      some s ∧ WellFormed (columnIndex 4 6 4) s True ∧
      (Returns (validateTree (columnIndex 4 6 4)) s fun ok _ => ok = true) ∧
      ∀ u : Update ℤ, Returns (u.run (columnIndex 4 6 4)) s fun _ _ => True := by
  obtain ⟨s, hs⟩ := Option.isSome_iff_exists.mp (by decide +kernel :
    (runServed (columnIndex 4 6 4) (insertNegatives 9 ++ [.deleteEntry (-3) recordOne])
      created).isSome = true)
  exact ⟨s, hs, wellFormed_of_served (columnIndex_orders 4 6 4) (by decide) (by decide) rfl
    (reflTransGen_runServed hs)⟩

/-- Key 0 of the root is the zero key, and the negative keys under child 0 are below it. -/
theorem not_wellFormed_insertNegatives : ¬ ∀ s : BplusTreeHandler ℤ,
    ReflTransGen (Served (columnIndex 4 6 4)) created s →
    WellFormed (columnIndex 4 6 4) s False := by
  intro hall
  obtain ⟨s, hs⟩ := Option.isSome_iff_exists.mp (by decide +kernel :
    (runServed (columnIndex 4 6 4) (insertNegatives 5) created).isSome = true)
  have hpages : (runServed (columnIndex 4 6 4) (insertNegatives 5) created).map
      (fun s => (s.rootPage, s.page 4, s.page 2)) =
      some (4, some (.internal (-1) [(⟨0, RID.min⟩, 2), (⟨-2, recordOne⟩, 3)]),
        some (.leaf 4 3 [(⟨-5, recordOne⟩, recordOne), (⟨-4, recordOne⟩, recordOne),
          (⟨-3, recordOne⟩, recordOne)])) := by
    decide +kernel
  rw [hs, Option.map_some, Option.some.injEq, Prod.mk.injEq, Prod.mk.injEq] at hpages
  obtain ⟨hroot, hpage, hleaf⟩ := hpages
  rcases hall s (reflTransGen_runServed hs) with hempty | ⟨depth, hok, -⟩
  · rw [hroot] at hempty
    exact absurd hempty (by decide)
  · rw [hroot] at hok
    cases depth with
    | zero =>
      obtain ⟨next, items, hp, -⟩ := hok
      simp [hpage] at hp
    | succ depth =>
      obtain ⟨items, hp, -, -, -, hchild⟩ := hok
      rw [hpage, Option.some.injEq, Page.internal.injEq] at hp
      obtain ⟨-, rfl⟩ := hp
      obtain ⟨hsub, hkeys⟩ := hchild 0 _ rfl
      cases depth with
      | zero =>
        obtain ⟨⟨hfalse, -⟩ | hle, -⟩ := hkeys ⟨-5, recordOne⟩ (by simp [keysUnder, hleaf])
        · exact hfalse
        · exact absurd hle (by decide)
      | succ depth =>
        obtain ⟨items, hp, -⟩ := hsub
        simp [hleaf] at hp

/-! ## The index as a set -/

theorem Index.entrySet_eq (hi : Index h r lo leafLo s es) :
    entrySet s = {e | ((⟨e.1, e.2⟩ : Key A), e.2) ∈ es} := by
  unfold entrySet
  rw [hi.entries_eq]

theorem Index.nodup (hi : Index h r lo leafLo s es) : es.Nodup :=
  hi.increasing.imp fun hlt he => hlt.ne (by rw [he])

theorem Applies.apply_eq {u : Update A} {rc : RC} (ha : Applies u es rc es')
    (hi : Index h r lo leafLo s es) (hi' : Index h r lo leafLo s' es') :
    (rc, entrySet s') = u.apply (entrySet s) := by
  rw [hi.entrySet_eq, hi'.entrySet_eq]
  cases ha with
  | duplicate hmem =>
    simp only [Update.apply]
    rw [if_pos (by exact hmem)]
  | inserted hmem hadds =>
    simp only [Update.apply]
    rw [if_neg (by exact hmem)]
    obtain ⟨a, b, rfl, rfl⟩ := hadds
    refine Prod.ext rfl (Set.ext fun e => ?_)
    obtain ⟨x, y⟩ := e
    simp only [List.mem_append, List.mem_cons, Prod.mk.injEq, Key.mk.injEq, Set.mem_ofPred_eq,
      Set.mem_insert_iff]
    tauto
  | notExist hmem =>
    simp only [Update.apply]
    rw [if_neg (by exact hmem)]
  | deleted hadds =>
    obtain ⟨a, b, rfl, rfl⟩ := hadds
    simp only [Update.apply]
    rw [if_pos (by simp)]
    have hnot := (List.nodup_middle.mp hi.nodup).notMem
    refine Prod.ext rfl (Set.ext fun e => ?_)
    obtain ⟨x, y⟩ := e
    simp only [List.mem_append, List.mem_cons, Prod.mk.injEq, Key.mk.injEq, Set.mem_ofPred_eq,
      Set.mem_sdiff, Set.mem_singleton_iff] at hnot ⊢
    constructor
    · intro hm
      refine ⟨by tauto, ?_⟩
      rintro ⟨rfl, rfl⟩
      exact hnot hm
    · rintro ⟨hm, hne⟩
      tauto

/-- A call that does to the set of entries what it should; they stand once each, with their own
`RID`s. -/
def Update.Refines (u : Update A) (s : BplusTreeHandler A) (rc : RC) (s' : BplusTreeHandler A) :
    Prop :=
  (rc, entrySet s') = u.apply (entrySet s) ∧ (entries s').Nodup ∧ ∀ x ∈ entries s', x.2 = x.1.rid

theorem Updates.refines_iff {u : Update A} {rc : RC} (hi : Index h r lo leafLo s es)
    (hu : Updates h r lo leafLo s u es rc s') : u.Refines s rc s' ↔ u.servable h s = true := by
  rw [← hu.allocates]
  constructor
  · intro hrefines
    by_contra hne
    obtain ⟨hfail, attr, rid, rfl, hmem⟩ := hu.unserved hne
    have happly := congrArg Prod.fst hrefines.1
    rw [Update.apply, if_neg (by rw [hi.entrySet_eq]; exact hmem)] at happly
    rw [show rc = .success from happly] at hfail
    cases hfail
  · intro he
    obtain ⟨es', hi', happ⟩ := hu.served he
    unfold Update.Refines
    rw [hi'.entries_eq]
    exact ⟨happ.apply_eq hi hi', hi'.nodup, hi'.value⟩

/-- Whatever has been called, an index stands; a failed allocation may have broken its chain. -/
theorem index_of_run (hh : h.Orders) (hf : Fanout h anyKeys.unchained lo leafLo)
    {s₀ : BplusTreeHandler A} (hroot : s₀.rootPage = invalidPageNum)
    (hrun : ReflTransGen (Allowed h fun _ _ => True) s₀ s) :
    ∃ es, Index h anyKeys.unchained lo leafLo s es := by
  induction hrun with
  | refl => exact ⟨[], Or.inl ⟨hroot, rfl⟩⟩
  | tail _ hstep ih =>
    obtain ⟨es, hi⟩ := ih
    obtain ⟨u, rc, -, hcall⟩ := hstep
    have hu := hi.returns_run hh hf (fun _ => trivial) u
    rw [returns_of_eq hcall] at hu
    exact hu.stands

/-- In every tree that calls lead to, each call does to the set of entries what it should exactly
when the pages that it needs can be allocated. -/
theorem update_refines_entrySet_iff (hh : h.Orders) (hleaf : 4 ≤ h.leafMaxSize)
    (hint : 6 ≤ h.internalMaxSize) {s₀ : BplusTreeHandler A}
    (hroot : s₀.rootPage = invalidPageNum)
    (hrun : ReflTransGen (Allowed h fun _ _ => True) s₀ s) (u : Update A) :
    Returns (u.run h) s (u.Refines s) ↔ u.servable h s = true := by
  have hf : Fanout h (anyKeys : Regime A).unchained (h.internalMaxSize / 2) (h.leafMaxSize / 2) :=
    ⟨rfl, by omega, rfl, by omega, Or.inl (by omega)⟩
  obtain ⟨es, hi⟩ := index_of_run hh hf hroot hrun
  obtain ⟨rc, s', hcall, hu⟩ := hi.returns_run hh hf (fun _ => trivial) u
  rw [returns_of_eq hcall]
  exact hu.refines_iff hi

theorem update_refines_entrySet_iff_insertNegatives : ∃ s,
    runServed (columnIndex 4 6 4) (insertNegatives 9) created = some s ∧
    (Returns (Update.run (columnIndex 4 6 4) (.deleteEntry (-3) recordOne)) s
      (Update.Refines (.deleteEntry (-3) recordOne) s) ↔
        Update.servable (columnIndex 4 6 4) s (.deleteEntry (-3) recordOne) = true) := by
  obtain ⟨s, hs⟩ := Option.isSome_iff_exists.mp (by decide +kernel :
    (runServed (columnIndex 4 6 4) (insertNegatives 9) created).isSome = true)
  have hrun : ReflTransGen (Allowed (columnIndex 4 6 4) fun _ _ => True) created s :=
    ReflTransGen.mono (fun _ _ ⟨u, rc, hcall, _⟩ => ⟨u, rc, trivial, hcall⟩) _ _
      (reflTransGen_runServed hs)
  exact ⟨s, hs, update_refines_entrySet_iff (columnIndex_orders 4 6 4) (by decide) (by decide) rfl
    hrun _⟩

/-- A page that a deletion gave back is not in the file yet, so the next insertion cannot load
it: inserting an absent entry returns neither `SUCCESS` nor a duplicate key. -/
theorem not_refines_insert_delete_insert : ∃ s s' : BplusTreeHandler ℤ,
    runServed (columnIndex 4 6 4) [.insertEntry 7 recordOne, .deleteEntry 7 recordOne]
      created = some s ∧
    Update.run (columnIndex 4 6 4) (.insertEntry 7 recordOne) s = .ok (.ioerrRead, s') ∧
    (RC.ioerrRead, entrySet s') ≠ (Update.insertEntry 7 recordOne).apply (entrySet s) := by
  obtain ⟨s, hs⟩ := Option.isSome_iff_exists.mp (by decide +kernel :
    (runServed (columnIndex 4 6 4) [.insertEntry 7 recordOne, .deleteEntry 7 recordOne]
      created).isSome = true)
  have hrc : (runServed (columnIndex 4 6 4)
      [.insertEntry 7 recordOne, .deleteEntry 7 recordOne] created).map (fun s =>
        match Update.run (columnIndex 4 6 4) (.insertEntry 7 recordOne) s with
        | .ok (rc, _) => some rc
        | .error _ => none) = some (some .ioerrRead) := by
    decide +kernel
  rw [hs, Option.map_some, Option.some.injEq] at hrc
  split at hrc
  · next rc s' hcall =>
    obtain rfl := Option.some.inj hrc
    refine ⟨s, s', hs, hcall, fun he => ?_⟩
    have := congrArg Prod.fst he
    simp only [Update.apply] at this
    split at this <;> cases this
  · cases hrc

end TDB
