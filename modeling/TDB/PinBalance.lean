import TDB.EntryLookup
import TDB.PageCapacity

namespace TDB

open BplusTreeHandler BplusTreeScanner Exec Relation

variable {A : Type}

/-! ## Operations that leave no scanner open -/

/-- An operation on the index.  A scan is opened, asks for entries with these flags, and is
closed. -/
inductive Operation (A : Type) where
  | update (u : Update A)
  | getEntry (attr : A)
  | scan (left right : Option (Bound A)) (isDeletes : List Bool)

def nextEntries (h : IndexFileHeader A) :
    List Bool → BplusTreeScanner A → TreeM A (BplusTreeScanner A)
  | [], sc => return sc
  | isDelete :: isDeletes, sc => do
    let (_, _, sc) ← nextEntry h sc isDelete
    nextEntries h isDeletes sc

def Operation.run (h : IndexFileHeader A) : Operation A → TreeM A Unit
  | .update u => do
    let _ ← u.run h
  | .getEntry attr => do
    let _ ← BplusTreeScanner.getEntry h attr
  | .scan left right isDeletes => do
    let (_, sc) ← openScan h new left right
    let sc ← nextEntries h isDeletes sc
    let _ ← closeScan sc

/-- One operation that a condition on the handler and the operation allows. -/
def Performed (h : IndexFileHeader A) (cond : BplusTreeHandler A → Operation A → Prop)
    (s s' : BplusTreeHandler A) : Prop :=
  ∃ op, cond s op ∧ Operation.run h op s = .ok ((), s')

/-- The frames are pinned as they were, and none was freed while it was in use. -/
def SamePins (s s' : BplusTreeHandler A) : Prop :=
  (∀ p, s'.pinCount p = s.pinCount p) ∧
    s'.fileBufferPool.pinnedFrees = s.fileBufferPool.pinnedFrees

/-- An operation that gives back what it pins: the entry to insert is new and the pages it needs can
be allocated, the deletion is spared, and the left key of a scan does not fall past its leaf. -/
def Operation.Balanced (h : IndexFileHeader A) (positive : Bool) (s : BplusTreeHandler A) :
    Operation A → Prop
  | .update (.insertEntry attr rid) => (Update.insertEntry attr rid).Spared h positive s ∧
      (attr, rid) ∉ entrySet s ∧
      s.fileBufferPool.canAllocate (insertPagesNeeded h s ⟨attr, rid⟩) = true
  | .update (.deleteEntry attr rid) => (Update.deleteEntry attr rid).Spared h positive s
  | .getEntry attr => keepsLeaf h s (some ⟨attr, RID.min⟩) = false
  | .scan left right _ => badRange h left right = true ∨ keepsLeaf h s (left.map leftKey) = false

theorem SamePins.of_quiet {s s' : BplusTreeHandler A} {d : PageNum → ℤ} (hq : Quiet s s' d)
    (hd : d = 0) : SamePins s s' := by
  subst hd
  exact ⟨fun p => (hq.pinCount p).trans (add_zero _), hq.pinnedFrees⟩

variable [LinearOrder (Key A)] {h : IndexFileHeader A} {r : Regime A} {s s' : BplusTreeHandler A}
  {lo leafLo : ℕ} {es rem : List (Key A × RID)} {sc : BplusTreeScanner A}

/-- The keys that may come into the index, in a tree whose leaves stay in a chain. -/
def balancedKeys (h : IndexFileHeader A) (positive : Bool) : Regime A :=
  ⟨fun k => positive = true → h.zeroKey < k, True⟩

/-! ## One operation -/

/-- Any number of `next_entry` calls, and then `close`. -/
theorem StandsBefore.returns_nextEntries (hh : h.Orders) : ∀ (isDeletes : List Bool)
    {s : BplusTreeHandler A} {sc : BplusTreeScanner A} {rem : List (Key A × RID)},
    StandsBefore s sc rem → Returns (nextEntries h isDeletes sc) s fun sc' s' =>
      s'.page = s.page ∧ Quiet s s' (held sc' - held sc) ∧ ∃ rem', StandsBefore s' sc' rem'
  | [], s, sc, rem, hb => by
    unfold nextEntries
    rw [returns_pure]
    exact ⟨rfl, (Quiet.refl s).congr (sub_self _).symm, rem, hb⟩
  | isDelete :: isDeletes, s, sc, rem, hb => by
    unfold nextEntries
    rw [returns_bind]
    refine (hb.returns_nextEntry hh isDelete).mono ?_
    rintro ⟨rc, rid, sc₁⟩ s₁ ⟨hpage₁, hquiet₁, rem₁, hb₁⟩
    refine (StandsBefore.returns_nextEntries hh isDeletes hb₁).mono ?_
    rintro sc₂ s₂ ⟨hpage₂, hquiet₂, hb₂⟩
    refine ⟨hpage₂.trans hpage₁, (hquiet₁.trans hquiet₂).congr ?_, hb₂⟩
    exact (add_comm _ _).trans (sub_add_sub_cancel _ _ _)

theorem StandsBefore.returns_rest (hh : h.Orders) (isDeletes : List Bool)
    (hb : StandsBefore s sc rem) :
    Returns (nextEntries h isDeletes sc) s fun sc' s₁ => Returns (closeScan sc') s₁ fun _ s' =>
      s'.page = s.page ∧ Quiet s s' (-held sc) := by
  refine (hb.returns_nextEntries hh isDeletes).mono ?_
  rintro sc₁ s₁ ⟨hpage₁, hquiet₁, rem₁, hb₁⟩
  refine hb₁.returns_closeScan.mono ?_
  rintro _ s₂ ⟨hpage₂, hquiet₂⟩
  refine ⟨hpage₂.trans hpage₁, (hquiet₁.trans hquiet₂).congr ?_⟩
  rw [← sub_eq_add_neg, sub_sub_cancel_left]

theorem Index.returns_scan (hh : h.Orders) (hc : r.chained) (hpos : 1 ≤ leafLo)
    (hi : Index h r lo leafLo s es) {left right : Option (Bound A)} (isDeletes : List Bool)
    (hkeeps : badRange h left right = true ∨ keepsLeaf h s (left.map leftKey) = false) :
    Returns (Operation.run h (.scan left right isDeletes)) s fun _ s' =>
      s'.page = s.page ∧ Quiet s s' 0 := by
  unfold Operation.run openScan
  simp only [new, Bool.false_eq_true, ↓reduceIte]
  cases hbad : badRange h left right with
  | true =>
    simp only [↓reduceIte, returns_bind, returns_pure]
    have hb : StandsBefore s (⟨true, none, none, 0, false⟩ : BplusTreeScanner A) [] :=
      .inl ⟨rfl, rfl⟩
    refine (hb.returns_rest hh isDeletes).mono fun sc' s₁ hclose => hclose.mono ?_
    rintro _ s₂ ⟨hpage, hquiet⟩
    exact ⟨hpage, hquiet.congr neg_zero.symm⟩
  | false =>
    rw [hbad] at hkeeps
    have hleaf := hkeeps.resolve_left Bool.false_ne_true
    simp only [Bool.false_eq_true, ↓reduceIte, returns_bind]
    refine (hi.returns_openKeys hh hc hpos _ _).mono ?_
    rintro ⟨rc, sc⟩ s₁ ⟨-, hpage₁, hb, p, hquiet₁⟩
    rw [hleaf] at hquiet₁
    refine (hb.returns_rest hh isDeletes).mono fun sc' s₂ hclose => hclose.mono ?_
    rintro _ s₃ ⟨hpage₃, hquiet₃⟩
    rw [returns_pure]
    exact ⟨hpage₃.trans hpage₁, (hquiet₁.trans hquiet₃).congr (by simp)⟩

/-- `get_entry` where the key before all entries with its attribute does not fall past its leaf. -/
theorem Index.returns_getEntry_balanced (hh : h.Orders) (hc : r.chained) (hpos : 1 ≤ leafLo)
    (hi : Index h r lo leafLo s es) {attr : A}
    (hkeeps : keepsLeaf h s (some ⟨attr, RID.min⟩) = false) :
    Returns (Operation.run h (.getEntry attr)) s fun _ s' => s'.page = s.page ∧ Quiet s s' 0 := by
  unfold Operation.run
  simp only [returns_bind]
  refine (hi.returns_getEntry hh hc hpos attr).mono ?_
  rintro res s₁ ⟨-, hpage, p, hquiet⟩
  rw [hkeeps] at hquiet
  exact returns_pure.mpr ⟨hpage, hquiet⟩

theorem Index.returns_balanced (hh : h.Orders) (hc : h.Computed) (hlen : h.attrsLength ≤ 4068)
    {positive : Bool} (hi : Index h (balancedKeys h positive) (h.internalMaxSize / 2)
      (h.leafMaxSize / 2) s es) (hpins : ∀ p, s.pinCount p = 0) {op : Operation A}
    (hop : op.Balanced h positive s) :
    Returns (op.run h) s fun _ s' => SamePins s s' ∧ ∃ es', Index h (balancedKeys h positive)
      (h.internalMaxSize / 2) (h.leafMaxSize / 2) s' es' := by
  have hz := hc.sizes hlen
  have hchain : (balancedKeys h positive).chained := trivial
  cases op with
  | getEntry attr =>
    refine (hi.returns_getEntry_balanced hh hchain hz.pos hop).mono ?_
    rintro _ s' ⟨hpage, hquiet⟩
    exact ⟨.of_quiet hquiet rfl, es, hi.quiet hquiet hpage⟩
  | scan left right isDeletes =>
    refine (hi.returns_scan hh hchain hz.pos isDeletes hop).mono ?_
    rintro _ s' ⟨hpage, hquiet⟩
    exact ⟨.of_quiet hquiet rfl, es, hi.quiet hquiet hpage⟩
  | update u =>
    unfold Operation.run
    simp only [returns_bind, returns_pure]
    cases u with
    | insertEntry attr rid =>
      obtain ⟨hspared, habs, hcan⟩ := hop
      rw [hi.entrySet_eq] at habs
      have hgood : (balancedKeys h positive).good ⟨attr, rid⟩ := fun hpositive =>
        (hh.lt_iff _ _).mp (hspared hpositive)
      refine (hi.returns_insertEntry_absent hh (fun x hx he => habs
        ((hi.mem_iff attr rid).mpr ⟨x, hx, he⟩)) hgood hz.two_le hz.lo_le hz.pos
          hz.leafLo_le).mono ?_
      rintro rc s' hs
      obtain ⟨-, es', hi', -, hpin, hfrees⟩ := hs.done (hs.served.mpr hcan)
      exact ⟨⟨hpin, hfrees⟩, es', hi'⟩
    | deleteEntry attr rid =>
      refine (hi.returns_deleteEntry hh hz ?_).mono ?_
      · rcases hop with habs | hunder | hwide
        · rw [hi.entrySet_eq] at habs
          exact .inr habs
        · exact .inl (.inr hunder)
        · exact .inl (.inl (hc.fanout (fun _ hk => hk) hwide))
      · rintro rc s' hs
        -- a deletion never calls for a page, so it is always served
        have hserved : s'.fileBufferPool.allocFailures = s.fileBufferPool.allocFailures := by
          by_contra hne
          obtain ⟨-, _, _, heq, -⟩ := hs.unserved hne
          cases heq
        obtain ⟨es', hi', happ⟩ := hs.served hserved
        obtain ⟨hpins', hfrees⟩ := hs.pins hserved (by cases happ <;> rintro ⟨⟩) hpins
        exact ⟨⟨fun p => (hpins' p).trans (hpins p).symm, hfrees⟩, es', hi'⟩

/-! ## Every run of balanced operations -/

/-- In every run of balanced operations all pages stay unpinned, no frame is freed while it is in
use, and each operation ends with the pins as they were. -/
theorem samePins_of_balanced (hh : h.Orders) (hc : h.Computed) (hlen : h.attrsLength ≤ 4068)
    (positive : Bool) {s₀ : BplusTreeHandler A} (hroot : s₀.rootPage = invalidPageNum)
    (hpins : ∀ p, s₀.pinCount p = 0)
    (hrun : ReflTransGen (Performed h (Operation.Balanced h positive)) s₀ s) :
    SamePins s₀ s ∧ ∀ op : Operation A, op.Balanced h positive s →
      Returns (op.run h) s fun _ s' => SamePins s s' := by
  have hindex : SamePins s₀ s ∧ ∃ es, Index h (balancedKeys h positive) (h.internalMaxSize / 2)
      (h.leafMaxSize / 2) s es := by
    induction hrun with
    | refl => exact ⟨⟨fun _ => rfl, rfl⟩, [], .inl ⟨hroot, rfl⟩⟩
    | tail _ hstep ih =>
      obtain ⟨⟨hpin, hfrees⟩, es, hi⟩ := ih
      obtain ⟨op, hop, hcall⟩ := hstep
      have hs := hi.returns_balanced hh hc hlen (fun p => (hpin p).trans (hpins p)) hop
      rw [returns_of_eq hcall] at hs
      obtain ⟨⟨hpin', hfrees'⟩, hi'⟩ := hs
      exact ⟨⟨fun p => (hpin' p).trans (hpin p), hfrees'.trans hfrees⟩, hi'⟩
  obtain ⟨hsame, es, hi⟩ := hindex
  refine ⟨hsame, fun op hop => ?_⟩
  exact (hi.returns_balanced hh hc hlen (fun p => (hsame.1 p).trans (hpins p)) hop).mono
    fun _ _ hs => hs.1

omit [LinearOrder (Key A)] in
theorem pinCount_created (p : PageNum) : (created : BplusTreeHandler A).pinCount p = 0 := by
  by_cases hp : p = 1
  · subst hp
    rfl
  · unfold pinCount
    rw [frames_created_of_ne hp]

theorem samePins_insert : ∃ s,
    Operation.run (computedIndex 4) (.update (.insertEntry 7 recordOne)) created = .ok ((), s) ∧
    SamePins created s ∧ ∀ op : Operation ℤ, op.Balanced (computedIndex 4) false s →
      Returns (op.run (computedIndex 4)) s fun _ s' => SamePins s s' := by
  have hok : (Operation.run (computedIndex 4) (.update (.insertEntry 7 recordOne))
      created).isOk = true := by
    decide +kernel
  cases hcall : Operation.run (computedIndex 4) (.update (.insertEntry 7 recordOne)) created with
  | error fault =>
    rw [hcall] at hok
    cases hok
  | ok result =>
    have hop : Operation.Balanced (computedIndex 4) false created
        (.update (.insertEntry 7 recordOne)) := by
      refine ⟨fun hfalse => absurd hfalse (by decide), ?_, by decide +kernel⟩
      exact List.not_mem_nil
    exact ⟨result.2, rfl, samePins_of_balanced (columnIndex_orders _ _ _)
      (computedIndex_computed 4) (by decide) false rfl pinCount_created (.single ⟨_, hop, hcall⟩)⟩

/-- The second insertion of an entry leaves its leaf pinned, and the deletion of the entry then
frees the leaf while it is in use. -/
theorem not_samePins_duplicate : ∃ s, runServed (computedIndex 4) [.insertEntry 7 recordOne,
      .insertEntry 7 recordOne] created = some s ∧ ¬SamePins created s ∧
    Returns (Update.run (computedIndex 4) (.deleteEntry 7 recordOne)) s fun _ s' =>
      s'.fileBufferPool.pinnedFrees = s.fileBufferPool.pinnedFrees + 1 := by
  have hrun : (runServed (computedIndex 4) [.insertEntry 7 recordOne, .insertEntry 7 recordOne]
      created).any (fun s => decide (s.pinCount s.rootPage ≠ 0 ∧
        Returns (Update.run (computedIndex 4) (.deleteEntry 7 recordOne)) s fun _ s' =>
          s'.fileBufferPool.pinnedFrees = s.fileBufferPool.pinnedFrees + 1)) = true := by
    decide +kernel
  obtain ⟨s, hs, hcond⟩ := (Option.any_eq_true _ _).mp hrun
  obtain ⟨hpin, hfrees⟩ := of_decide_eq_true hcond
  exact ⟨s, hs, fun hsame => hpin ((hsame.1 _).trans (pinCount_created _)), hfrees⟩

end TDB
