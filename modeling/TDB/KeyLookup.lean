import TDB.EntryLookup
import TDB.CharsIndex

namespace TDB

open BplusTreeHandler BplusTreeScanner Exec

/-! ## `get_entry` on the key buffers -/

section collect

variable {A : Type}

/-- `get_entry` behind the call of `open`. -/
def collect (h : IndexFileHeader A) (opened : TreeM A (RC × BplusTreeScanner A)) :
    TreeM A (RC × List RID) := do
  let (rc, sc) ← opened
  if rc.fail then
    let _ ← closeScan sc
    return (rc, [])
  let (rc, rids, sc) ← drain h ((← linkBound) * (h.leafMaxSize + 1) + 1) sc
  let _ ← closeScan sc
  return (if rc = .recordEof then .success else rc, rids)

theorem getEntry_eq_collect (h : IndexFileHeader A) (attr : A) : getEntry h attr =
    collect h (openScan h new (some ⟨attr, true⟩) (some ⟨attr, true⟩)) := rfl

end collect

/-- `get_entry` on an index over one `CHARS` attribute.  `make_key` copies the attribute into a
buffer with the bytes `behind` after it. -/
def CharsHeader.getEntry (c : CharsHeader) (key behind : Pointer) :
    TreeM (AttrBytes c.attrLength) (RC × List RID) :=
  let userKey := UserKey.ofValue (load key c.attrLength) behind
  collect c.header (c.openScan new (some userKey) (some userKey))

def MultiAttrHeader.getEntry (m : MultiAttrHeader) (multiKeys : ℕ → Pointer) (behind : Pointer) :
    TreeM (AttrBytes m.attrsLength) (RC × List RID) :=
  let userKey := UserKey.ofValue (m.insertedAttrs multiKeys) behind
  collect m.header (m.openScan new (some userKey) (some userKey))

theorem load_ofValue_self {bytes : List UInt8} {n : ℕ} (hlen : bytes.length = n)
    (behind : Pointer) : load (UserKey.ofValue bytes behind).data n = bytes := by
  rw [← hlen, load_ofValue]

/-- With a full key nothing is padded or cut off. -/
theorem CharsHeader.getEntry_eq (c : CharsHeader) (key behind : Pointer) : c.getEntry key behind =
    BplusTreeScanner.getEntry c.header ⟨load key c.attrLength, length_load _ _⟩ := by
  obtain ⟨u, hu⟩ : ∃ u, u = UserKey.ofValue (load key c.attrLength) behind := ⟨_, rfl⟩
  have hlen : u.len = c.attrLength := by
    rw [hu]
    exact length_load _ _
  have hinclusive : u.inclusive = true := by
    rw [hu]
    rfl
  have hfixed : ∀ wantGreater, c.fixUserKey u.data u.len wantGreater =
      (load key c.attrLength, false) := by
    intro wantGreater
    unfold fixUserKey
    rw [if_pos hlen.le, hlen, Nat.sub_self, List.replicate_zero, List.append_nil, hu,
      load_ofValue_self (length_load _ _)]
  have hbound : ∀ wantGreater, c.bound u wantGreater =
      ⟨⟨load key c.attrLength, length_load _ _⟩, true⟩ := by
    intro wantGreater
    unfold bound
    simp only [hfixed, load_getD_self (length_load _ _), Bool.or_false, hinclusive]
  have hrange : c.badRange (some u) (some u) = false := by
    unfold badRange
    rw [hu]
    simp [(compareString_eq_zero_iff rfl).mpr, UserKey.ofValue]
  have hgood : BplusTreeScanner.badRange c.header
      (some (⟨⟨load key c.attrLength, length_load _ _⟩, true⟩ : Bound (AttrBytes c.attrLength)))
      (some ⟨⟨load key c.attrLength, length_load _ _⟩, true⟩) = false := by
    simp [BplusTreeScanner.badRange, attrComparator_self c.orders]
  unfold getEntry
  rw [getEntry_eq_collect, ← hu]
  unfold CharsHeader.openScan BplusTreeScanner.openScan
  simp only [new, Bool.false_eq_true, ↓reduceIte, hrange, hgood, Option.map_some, c.leftKey_eq,
    c.rightKey_eq, hbound]

theorem MultiAttrHeader.getEntry_eq (m : MultiAttrHeader) (multiKeys : ℕ → Pointer)
    (behind : Pointer) : m.getEntry multiKeys behind =
      BplusTreeScanner.getEntry m.header
        ⟨m.insertedAttrs multiKeys, m.length_insertedAttrs multiKeys⟩ := by
  obtain ⟨u, hu⟩ : ∃ u, u = UserKey.ofValue (m.insertedAttrs multiKeys) behind := ⟨_, rfl⟩
  have hlen : u.len = m.attrsLength := by
    rw [hu]
    exact m.length_insertedAttrs multiKeys
  have hinclusive : u.inclusive = true := by
    rw [hu]
    rfl
  have hfixed : ∀ wantGreater, m.fixUserKey u.data u.len wantGreater =
      (m.insertedAttrs multiKeys, false) := by
    intro wantGreater
    unfold fixUserKey
    rw [if_pos hlen.le, hlen, Nat.sub_self, List.replicate_zero, List.append_nil, hu,
      load_ofValue_self (m.length_insertedAttrs multiKeys)]
  have hattrs : m.boundAttrs (fun i => (m.insertedAttrs multiKeys).getD i 0)
      (decide (u.len = m.attrsLength)) = m.insertedAttrs multiKeys := by
    rw [boundAttrs, decide_eq_true hlen, if_pos rfl,
      load_getD_self (m.length_insertedAttrs multiKeys)]
  have hleft : m.leftKey u = ⟨⟨m.insertedAttrs multiKeys, m.length_insertedAttrs multiKeys⟩,
      RID.min⟩ := by
    unfold leftKey
    simp only [hfixed, hinclusive, Bool.true_or, ↓reduceIte, makeKey, hattrs]
  have hright : m.rightKey u = ⟨⟨m.insertedAttrs multiKeys, m.length_insertedAttrs multiKeys⟩,
      RID.max⟩ := by
    unfold rightKey
    simp only [hfixed, hinclusive, Bool.true_or, ↓reduceIte, makeKey, hattrs]
  have hrange : m.badRange (some u) (some u) = false := by
    unfold badRange
    simp [(compareString_eq_zero_iff rfl).mpr, hinclusive]
  have hgood : BplusTreeScanner.badRange m.header
      (some (⟨⟨m.insertedAttrs multiKeys, m.length_insertedAttrs multiKeys⟩, true⟩ :
        Bound (AttrBytes m.attrsLength)))
      (some ⟨⟨m.insertedAttrs multiKeys, m.length_insertedAttrs multiKeys⟩, true⟩) = false := by
    simp [BplusTreeScanner.badRange, attrComparator_self m.orders]
  unfold getEntry
  rw [getEntry_eq_collect, ← hu]
  unfold MultiAttrHeader.openScan BplusTreeScanner.openScan
  simp only [new, Bool.false_eq_true, ↓reduceIte, hrange, hgood, Option.map_some, hleft, hright,
    BplusTreeScanner.leftKey, rightKeyOf]

/-! ## What `get_entry` finds -/

section finds

variable {A : Type} [LinearOrder (Key A)] {h : IndexFileHeader A} {s : BplusTreeHandler A}

/-- The key of every entry carries the `RID` of the entry, as `insert_entry` makes it. -/
def CarriesRids (s : BplusTreeHandler A) : Prop := ∀ x ∈ entries s, x.1.rid = x.2

omit [LinearOrder (Key A)] in
instance : DecidablePred (CarriesRids (A := A)) := fun s =>
  inferInstanceAs (Decidable (∀ x ∈ entries s, x.1.rid = x.2))

/-- The lookup succeeds with the `RID`s of the entries that have these attributes, each once, in
increasing order. -/
def Finds (s : BplusTreeHandler A) (lookup : TreeM A (RC × List RID)) (attr : A) : Prop :=
  Returns lookup s fun r _ => r.1 = .success ∧ r.2.Nodup ∧
    (r.2.Pairwise fun a b => RID.compare a b < 0) ∧
    ∀ rid, rid ∈ r.2 ↔ ∃ x ∈ entries s, x.1.attr = attr ∧ x.2 = rid

theorem WellFormed.entries_increasing (hh : h.Orders) {spine : Prop} (hw : WellFormed h s spine)
    (hfile : s.rootPage ≠ invalidPageNum → InFile s) :
    (entries s).Pairwise fun a b => a.1 < b.1 := by
  by_cases hroot : s.rootPage = invalidPageNum
  · have hempty : s.isEmpty = true := decide_eq_true hroot
    rw [entries, hempty]
    exact List.Pairwise.nil
  · obtain ⟨row, hr, hrow⟩ := hw.readable hh hroot (hfile hroot)
    exact hrow ▸ hr.increasing

theorem WellFormed.finds (hh : h.Orders) {spine : Prop} (hw : WellFormed h s spine)
    (hfile : s.rootPage ≠ invalidPageNum → InFile s) (hcarries : CarriesRids s) (attr : A) :
    Finds s (getEntry h attr) attr := by
  have hattr : ∀ x : Key A × RID, withAttr attr x = true ↔ x.1.attr = attr :=
    betweenKeys_attr hh attr
  refine (hw.returns_getEntry hh hfile attr).mono ?_
  rintro r - rfl
  have hpairs : ((entries s).filter (withAttr attr)).Pairwise
      fun a b => RID.compare a.2 b.2 < 0 := by
    refine ((hw.entries_increasing hh hfile).filter _).imp_of_mem ?_
    intro a b ha hb hlt
    obtain ⟨ha, haattr⟩ := List.mem_filter.mp ha
    obtain ⟨hb, hbattr⟩ := List.mem_filter.mp hb
    have hcompare := (hh.lt_iff _ _).mpr hlt
    rw [compare_eq, (hattr a).mp haattr, (hattr b).mp hbattr,
      if_neg (not_not_intro (attrComparator_self hh attr)), hcarries a ha, hcarries b hb]
      at hcompare
    exact hcompare
  have hrids : (((entries s).filter (withAttr attr)).map Prod.snd).Pairwise
      fun a b => RID.compare a b < 0 := List.pairwise_map.mpr hpairs
  refine ⟨rfl, ?_, hrids, fun rid => ?_⟩
  · refine hrids.imp ?_
    rintro a b hlt rfl
    rw [(RID.compare_eq_zero_iff a a).mpr rfl] at hlt
    exact lt_irrefl _ hlt
  · rw [List.mem_map]
    constructor
    · rintro ⟨x, hx, rfl⟩
      obtain ⟨hx, hxattr⟩ := List.mem_filter.mp hx
      exact ⟨x, hx, (hattr x).mp hxattr, rfl⟩
    · rintro ⟨x, hx, hxattr, rfl⟩
      exact ⟨x, List.mem_filter.mpr ⟨hx, (hattr x).mpr hxattr⟩, rfl⟩

end finds

/-- In every well-formed tree, also the empty one, `get_entry` with a full key finds the entries
that have it: over one attribute whose comparator orders the keys, and byte by byte over one
`CHARS` attribute and over several attributes. -/
theorem getEntry_finds :
    (∀ {A : Type} [LinearOrder (Key A)] {h : IndexFileHeader A} {s : BplusTreeHandler A}
      {spine : Prop}, h.Orders → WellFormed h s spine →
      (s.rootPage ≠ invalidPageNum → InFile s) → CarriesRids s → ∀ attr : A,
      Finds s (getEntry h attr) attr) ∧
    (∀ (c : CharsHeader) {s : BplusTreeHandler (AttrBytes c.attrLength)} {spine : Prop},
      WellFormed c.header s spine → (s.rootPage ≠ invalidPageNum → InFile s) → CarriesRids s →
      ∀ key behind : Pointer,
      Finds s (c.getEntry key behind) ⟨load key c.attrLength, length_load _ _⟩) ∧
    ∀ (m : MultiAttrHeader) {s : BplusTreeHandler (AttrBytes m.attrsLength)} {spine : Prop},
      WellFormed m.header s spine → (s.rootPage ≠ invalidPageNum → InFile s) → CarriesRids s →
      ∀ (multiKeys : ℕ → Pointer) (behind : Pointer),
      Finds s (m.getEntry multiKeys behind)
        ⟨m.insertedAttrs multiKeys, m.length_insertedAttrs multiKeys⟩ := by
  refine ⟨fun hh hw hfile hcarries attr => hw.finds hh hfile hcarries attr, ?_, ?_⟩
  · intro c s spine hw hfile hcarries key behind
    rw [c.getEntry_eq]
    exact hw.finds c.orders hfile hcarries _
  · intro m s spine hw hfile hcarries multiKeys behind
    rw [m.getEntry_eq]
    exact hw.finds m.orders hfile hcarries _

/-- Insertions of one attribute for the records in the slots `0`, …, `n - 1` of page 1. -/
def insertEqual {A : Type} (attr : A) (n : ℕ) : List (Update A) :=
  (List.range n).map fun i => .insertEntry attr
    ⟨⟨1, one_lt_two_pow_thirtyOne⟩, ⟨i % 2 ^ 31, Nat.mod_lt i (Nat.two_pow_pos 31)⟩⟩

/-- Six equal keys over several leaves, for each kind of index. -/
theorem getEntry_finds_equal :
    (∃ s, runServed (columnIndex 4 6 4) (insertEqual 7 6) created = some s ∧
      Finds s (getEntry (columnIndex 4 6 4) 7) 7) ∧
    (∃ s, runServed CharsHeader.twoChars.header (insertEqual ⟨[65, 66], rfl⟩ 6) created = some s ∧
      Finds s (CharsHeader.twoChars.getEntry (fun i => [65, 66].getD i 0) fun _ => 9)
        ⟨load (fun i => [65, 66].getD i 0) 2, length_load _ _⟩) ∧
    ∃ s, runServed MultiAttrHeader.twoBytes.header (insertEqual ⟨[1, 2], rfl⟩ 6) created = some s ∧
      Finds s (MultiAttrHeader.twoBytes.getEntry (fun k _ => [1, 2].getD k 0) fun _ => 9)
        ⟨MultiAttrHeader.twoBytes.insertedAttrs fun k _ => [1, 2].getD k 0,
          MultiAttrHeader.twoBytes.length_insertedAttrs _⟩ := by
  refine ⟨?_, ?_, ?_⟩
  · have hrun : (runServed (columnIndex 4 6 4) (insertEqual 7 6) created).any (fun s =>
        decide (CarriesRids s)) = true := by decide +kernel
    obtain ⟨s, hs, hcond⟩ := (Option.any_eq_true _ _).mp hrun
    have hh := columnIndex_orders 4 6 4
    have hf : Fanout (columnIndex 4 6 4) anyKeys 3 2 := fanout_of_sizes (by decide) (by decide)
    obtain ⟨es, hi⟩ := index_of_served hh hf rfl (reflTransGen_runServed hs)
    exact ⟨s, hs, getEntry_finds.1 hh (hi.wellFormed hh rfl hf.sizes.pos) hi.inFile
      (of_decide_eq_true hcond) 7⟩
  · have hrun : (runServed CharsHeader.twoChars.header (insertEqual ⟨[65, 66], rfl⟩ 6) created).any
        (fun s => decide (CarriesRids s)) = true := by decide +kernel
    obtain ⟨s, hs, hcond⟩ := (Option.any_eq_true _ _).mp hrun
    obtain ⟨hw, hfile⟩ := CharsHeader.twoChars_served hs
    exact ⟨s, hs, getEntry_finds.2.1 _ hw hfile (of_decide_eq_true hcond) _ _⟩
  · have hrun : (runServed MultiAttrHeader.twoBytes.header (insertEqual ⟨[1, 2], rfl⟩ 6)
        created).any (fun s => decide (CarriesRids s)) = true := by decide +kernel
    obtain ⟨s, hs, hcond⟩ := (Option.any_eq_true _ _).mp hrun
    obtain ⟨hw, hfile⟩ := MultiAttrHeader.twoBytes_served hs
    exact ⟨s, hs, getEntry_finds.2.2 _ hw hfile (of_decide_eq_true hcond) _ _⟩

end TDB
