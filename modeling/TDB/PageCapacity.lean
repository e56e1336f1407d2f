import TDB.IndexRuns

namespace TDB

open BplusTreeHandler Exec Relation

variable {A : Type}

/-! ## The capacities of a new index -/

theorem toInt32_eq {n : ℕ} (hn : n < 2 ^ 31) : toInt32 n = n := by
  unfold toInt32
  omega

theorem calcInternalPageCapacity_eq {attrLength : ℕ} (h : attrLength + 12 < 2 ^ 31) :
    calcInternalPageCapacity attrLength = 8172 / (attrLength + 12) := by
  have hsize : toInt32 (attrLength + sizeofRID + sizeofPageNum) = ((attrLength + 12 : ℕ) : ℤ) :=
    toInt32_eq h
  unfold calcInternalPageCapacity
  rw [hsize, ← Int.ofNat_tdiv, Int.toNat_natCast]
  rfl

theorem calcLeafPageCapacity_eq {attrLength : ℕ} (h : attrLength + 16 < 2 ^ 31) :
    calcLeafPageCapacity attrLength = 8168 / (attrLength + 16) := by
  have hsize : toInt32 (attrLength + sizeofRID + sizeofRID) = ((attrLength + 16 : ℕ) : ℤ) :=
    toInt32_eq h
  unfold calcLeafPageCapacity
  rw [hsize, ← Int.ofNat_tdiv, Int.toNat_natCast]
  rfl

/-- The node sizes are those that `create` computes from the length of the attributes. -/
structure IndexFileHeader.Computed (h : IndexFileHeader A) : Prop where
  internal : h.internalMaxSize = calcInternalPageCapacity h.attrsLength
  leaf : h.leafMaxSize = calcLeafPageCapacity h.attrsLength

/-! ## The nodes of the tree -/

inductive InTree (s : BplusTreeHandler A) : PageNum → Prop
  | root : s.rootPage ≠ invalidPageNum → InTree s s.rootPage
  | child {p parent : PageNum} {items : List (Key A × PageNum)} {item : Key A × PageNum} :
      InTree s p → s.page p = some (.internal parent items) → item ∈ items → InTree s item.2

def NodesFit (h : IndexFileHeader A) (s : BplusTreeHandler A) : Prop :=
  ∀ p, InTree s p → ∃ page, s.page p = some page ∧ page.usedBytes h ≤ pageDataSize

/-- A call that the fan-out of the index allows.  With `positive`, only keys above the zero key
come into the index.  A deletion may be any one if the attributes are short enough; else its entry
is absent, or its leaf does not underflow. -/
def Update.Spared (h : IndexFileHeader A) (positive : Bool) (s : BplusTreeHandler A) :
    Update A → Prop
  | .insertEntry attr rid => positive = true → h.compare h.zeroKey ⟨attr, rid⟩ < 0
  | .deleteEntry attr rid => (attr, rid) ∉ entrySet s ∨
      deleteUnderflows h s ⟨attr, rid⟩ = false ∨
      h.attrsLength ≤ 1350 ∨ positive = true ∧ h.attrsLength ≤ 2026

variable [LinearOrder (Key A)] {h : IndexFileHeader A} {r : Regime A} {s s' : BplusTreeHandler A}
  {lo leafLo : ℕ} {es : List (Key A × RID)}

/-- The keys that may come into the index; failed allocations may break the chain of leaves. -/
def sparedKeys (h : IndexFileHeader A) (positive : Bool) : Regime A :=
  ⟨fun k => positive = true → h.zeroKey < k, False⟩

omit [LinearOrder (Key A)] in
theorem IndexFileHeader.Computed.sizes (hc : h.Computed) (hlen : h.attrsLength ≤ 4068) :
    Sizes h (h.internalMaxSize / 2) (h.leafMaxSize / 2) := by
  have hint : 2 ≤ h.internalMaxSize := by
    rw [hc.internal, calcInternalPageCapacity_eq (by omega), Nat.le_div_iff_mul_le (by omega)]
    omega
  have hleaf : 2 ≤ h.leafMaxSize := by
    rw [hc.leaf, calcLeafPageCapacity_eq (by omega), Nat.le_div_iff_mul_le (by omega)]
    omega
  exact ⟨hint, le_rfl, by omega, le_rfl⟩

theorem IndexFileHeader.Computed.fanout (hc : h.Computed) {positive : Bool}
    (hgood : ∀ k, r.good k → positive = true → h.zeroKey < k)
    (hwide : h.attrsLength ≤ 1350 ∨ positive = true ∧ h.attrsLength ≤ 2026) :
    Fanout h r (h.internalMaxSize / 2) (h.leafMaxSize / 2) := by
  have hint : 4 ≤ h.internalMaxSize ∧ (h.attrsLength ≤ 1350 → 6 ≤ h.internalMaxSize) := by
    rw [hc.internal, calcInternalPageCapacity_eq (by omega), Nat.le_div_iff_mul_le (by omega),
      Nat.le_div_iff_mul_le (by omega)]
    omega
  have hleaf : 4 ≤ h.leafMaxSize := by
    rw [hc.leaf, calcLeafPageCapacity_eq (by omega), Nat.le_div_iff_mul_le (by omega)]
    omega
  refine ⟨rfl, by omega, rfl, by omega, ?_⟩
  rcases hwide with hshort | ⟨hpositive, -⟩
  · have := hint.2 hshort
    exact .inl (by omega)
  · exact .inr fun k hk => hgood k hk hpositive

/-! ## Every node fits on its page -/

omit [LinearOrder (Key A)] in
theorem IndexFileHeader.Computed.usedBytes_leaf (hc : h.Computed) (hlen : h.attrsLength ≤ 4068)
    {parent next : PageNum} {items : List (Key A × RID)} (hsize : items.length ≤ h.leafMaxSize) :
    (Page.leaf parent next items).usedBytes h ≤ pageDataSize := by
  rw [hc.leaf, calcLeafPageCapacity_eq (by omega), Nat.le_div_iff_mul_le (by omega)] at hsize
  change leafHeaderSize + items.length * (h.attrsLength + 16) ≤ 16 + 8168
  exact Nat.add_le_add_left hsize _

omit [LinearOrder (Key A)] in
theorem IndexFileHeader.Computed.usedBytes_internal (hc : h.Computed)
    (hlen : h.attrsLength ≤ 4068) {parent : PageNum} {items : List (Key A × PageNum)}
    (hsize : items.length ≤ h.internalMaxSize) :
    (Page.internal parent items).usedBytes h ≤ pageDataSize := by
  rw [hc.internal, calcInternalPageCapacity_eq (by omega), Nat.le_div_iff_mul_le
    (by omega)] at hsize
  change internalHeaderSize + items.length * (h.attrsLength + 12) ≤ 12 + 8172
  exact Nat.add_le_add_left hsize _

omit [LinearOrder (Key A)] in
/-- Every node of the tree is the top of a well-formed subtree. -/
theorem InTree.subtreeOk {depth : ℕ} {parent : PageNum} {spine : Prop}
    (hroot : SubtreeOk h s depth spine parent s.rootPage) {p : PageNum} (hp : InTree s p) :
    ∃ depth spine parent, SubtreeOk h s depth spine parent p := by
  induction hp with
  | root _ => exact ⟨_, _, _, hroot⟩
  | @child p parent items item _ hpage hitem ih =>
    obtain ⟨depth, spine, parent', hsub⟩ := ih
    cases depth with
    | zero =>
      obtain ⟨next, items', hleaf, -⟩ := hsub
      rw [hpage] at hleaf
      cases hleaf
    | succ depth =>
      obtain ⟨items', hinternal, -, -, -, hchild⟩ := hsub
      rw [hpage] at hinternal
      cases hinternal
      obtain ⟨i, hi⟩ := List.getElem?_of_mem hitem
      exact ⟨_, _, _, (hchild i item hi).1⟩

theorem Index.nodesFit (hh : h.Orders) (hc : h.Computed) (hlen : h.attrsLength ≤ 4068)
    (hpos : 1 ≤ leafLo) (hi : Index h r lo leafLo s es) : NodesFit h s := by
  intro p hp
  rcases hi with ⟨hroot, -⟩ | ⟨leaves, levs, ht, -⟩
  · exfalso
    have hnone : ∀ q, InTree s q → False := by
      intro q hq
      induction hq with
      | root hne => exact hne hroot
      | child _ _ _ ih => exact ih
    exact hnone p hp
  · have hroot := RowOk.root hh ht.isOver (ht.rowOk hh hpos)
    obtain ⟨depth, spine, parent, hsub⟩ := hp.subtreeOk hroot
    cases depth with
    | zero =>
      obtain ⟨next, items, hpage, -, -, hsize⟩ := hsub
      exact ⟨_, hpage, hc.usedBytes_leaf hlen hsize⟩
    | succ depth =>
      obtain ⟨items, hpage, -, -, hsize, -⟩ := hsub
      exact ⟨_, hpage, hc.usedBytes_internal hlen hsize⟩

/-! ## Every run of spared calls -/

/-- A spared call ends without a fault. -/
theorem Index.returns_spared (hh : h.Orders) (hc : h.Computed) (hlen : h.attrsLength ≤ 4068)
    {positive : Bool}
    (hi : Index h (sparedKeys h positive) (h.internalMaxSize / 2) (h.leafMaxSize / 2) s es)
    {u : Update A} (hu : u.Spared h positive s) :
    Returns (u.run h) s (Updates h (sparedKeys h positive) (h.internalMaxSize / 2)
      (h.leafMaxSize / 2) s u es) := by
  have hz := hc.sizes hlen
  cases u with
  | insertEntry attr rid =>
    have hgood : (sparedKeys h positive).good ⟨attr, rid⟩ := fun hpositive =>
      (hh.lt_iff _ _).mp (hu hpositive)
    exact hi.returns_insertEntry hh hz hgood
  | deleteEntry attr rid =>
    refine hi.returns_deleteEntry hh hz ?_
    rcases hu with habs | hunder | hwide
    · rw [hi.entrySet_eq] at habs
      exact .inr habs
    · exact .inl (.inr hunder)
    · exact .inl (.inl (hc.fanout (fun _ hk => hk) hwide))

/-- In every run of spared calls each call ends without a fault, so that no index of an item is
out of range and the lookup in the parent finds the node, and all nodes fit on their pages. -/
theorem nodesFit_of_spared (hh : h.Orders) (hc : h.Computed) (hlen : h.attrsLength ≤ 4068)
    (positive : Bool) {s₀ : BplusTreeHandler A} (hroot : s₀.rootPage = invalidPageNum)
    (hrun : ReflTransGen (Allowed h (Update.Spared h positive)) s₀ s) :
    NodesFit h s ∧ ∀ u : Update A, u.Spared h positive s →
      Returns (u.run h) s fun _ s' => NodesFit h s' := by
  have hz := hc.sizes hlen
  have hindex : ∃ es, Index h (sparedKeys h positive) (h.internalMaxSize / 2)
      (h.leafMaxSize / 2) s es := by
    induction hrun with
    | refl => exact ⟨[], .inl ⟨hroot, rfl⟩⟩
    | tail _ hstep ih =>
      obtain ⟨es, hi⟩ := ih
      obtain ⟨u, rc, hu, hcall⟩ := hstep
      have hs := hi.returns_spared hh hc hlen hu
      rw [returns_of_eq hcall] at hs
      exact hs.stands
  obtain ⟨es, hi⟩ := hindex
  refine ⟨hi.nodesFit hh hc hlen hz.pos, fun u hu => ?_⟩
  refine (hi.returns_spared hh hc hlen hu).mono ?_
  rintro rc s' hs
  obtain ⟨es', hi'⟩ := hs.stands
  exact hi'.nodesFit hh hc hlen hz.pos

def computedIndex (attrsLength : ℕ) : IndexFileHeader ℤ :=
  columnIndex attrsLength (calcInternalPageCapacity attrsLength)
    (calcLeafPageCapacity attrsLength)

theorem computedIndex_computed (attrsLength : ℕ) : (computedIndex attrsLength).Computed := by
  constructor <;> simp only [computedIndex, columnIndex]

def Update.fault (h : IndexFileHeader A) (u : Update A) (s : BplusTreeHandler A) : Option Fault :=
  match u.run h s with
  | .ok _ => none
  | .error fault => some fault

theorem nodesFit_insert : ∃ rc s,
    Update.run (computedIndex 4) (.insertEntry 7 recordOne) created = .ok (rc, s) ∧
    NodesFit (computedIndex 4) s ∧ ∀ u : Update ℤ, u.Spared (computedIndex 4) false s →
      Returns (u.run (computedIndex 4)) s fun _ s' => NodesFit (computedIndex 4) s' := by
  have hok : (Update.run (computedIndex 4) (.insertEntry 7 recordOne) created).isOk = true := by
    decide +kernel
  cases hcall : Update.run (computedIndex 4) (.insertEntry 7 recordOne) created with
  | error fault =>
    rw [hcall] at hok
    cases hok
  | ok result =>
    have hspared : Update.Spared (computedIndex 4) false created (.insertEntry 7 recordOne) :=
      fun hfalse => absurd hfalse (by decide)
    exact ⟨result.1, result.2, rfl, nodesFit_of_spared (columnIndex_orders _ _ _)
      (computedIndex_computed 4) (by decide) false rfl (.single ⟨_, result.1, hspared, hcall⟩)⟩

/-- With attributes of 3000 bytes a leaf holds two items.  The first one has lost its only item when
its last key is looked up in the parent. -/
theorem not_nodesFit_narrow : ∃ s, runServed (computedIndex 3000) [.insertEntry 1 recordOne,
      .insertEntry 2 recordOne, .insertEntry 3 recordOne] created = some s ∧
    (Update.deleteEntry 1 recordOne).fault (computedIndex 3000) s = some .itemIndex := by
  have hrun : (runServed (computedIndex 3000) [.insertEntry 1 recordOne, .insertEntry 2 recordOne,
      .insertEntry 3 recordOne] created).any (fun s => decide
        ((Update.deleteEntry 1 recordOne).fault (computedIndex 3000) s = some .itemIndex)) =
      true := by
    decide +kernel
  obtain ⟨s, hs, hfault⟩ := (Option.any_eq_true _ _).mp hrun
  exact ⟨s, hs, of_decide_eq_true hfault⟩

end TDB
