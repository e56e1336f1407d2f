import TDB.Lib.Int32Circle
import TDB.Lib.LittleEndian
import TDB.MultiAttrIndex

namespace TDB

open Int32Circle

/-! ## The comparator of the key buffers -/

def readInt (v : Pointer) (offset : ℕ) : Int32 :=
  LittleEndian.decode (load (fun i => v (offset + i)) 4)

/-- `AttrComparator`; behind its `ASSERT` an unknown type compares equal. -/
def attrCompare (attrType : AttrType) (attrLength : ℕ) (v1 v2 : Pointer) : ℤ :=
  match attrType with
  | .ints => Value.compareInt (readInt v1 0) (readInt v2 0)
  | .floats => Value.compareFloat (.ofBits (readInt v1 0).toUInt32)
      (.ofBits (readInt v2 0).toUInt32)
  | .chars => Value.compareString (load v1 attrLength) (load v2 attrLength)
  | .dates => Value.compareInt (readInt v1 0) (readInt v2 0)
  | _ => 0

structure RawRid where
  pageNum : Int32
  slotNum : Int32
  deriving DecidableEq

/-- `RID::compare`, with the subtraction of the machine. -/
def RawRid.compare (rid1 rid2 : RawRid) : ℤ :=
  let pageDiff := (rid1.pageNum - rid2.pageNum).toInt
  if pageDiff ≠ 0 then pageDiff else (rid1.slotNum - rid2.slotNum).toInt

def readRid (v : Pointer) (attrLength : ℕ) : RawRid :=
  ⟨readInt v attrLength, readInt v (attrLength + 4)⟩

/-- `KeyComparator`. -/
def keyCompare (attrType : AttrType) (attrLength : ℕ) (v1 v2 : Pointer) : ℤ :=
  let result := attrCompare attrType attrLength v1 v2
  if result ≠ 0 then result
  else RawRid.compare (readRid v1 attrLength) (readRid v2 attrLength)

/-- Two keys with equal attribute bytes and equal `RID`s. -/
def SameKey (attrLength : ℕ) (v1 v2 : Pointer) : Prop :=
  load v1 attrLength = load v2 attrLength ∧ readRid v1 attrLength = readRid v2 attrLength

/-- On these keys the sign of the comparison is that of a strict total order. -/
structure StrictOrder (compare : Pointer → Pointer → ℤ) (same : Pointer → Pointer → Prop)
    (S : Set Pointer) : Prop where
  antisymm : ∀ v ∈ S, ∀ w ∈ S, (compare v w).sign = -(compare w v).sign
  trans : ∀ u ∈ S, ∀ v ∈ S, ∀ w ∈ S, compare u v < 0 → compare v w < 0 → compare u w < 0
  eq_iff : ∀ v ∈ S, ∀ w ∈ S, compare v w = 0 ↔ same v w

/-- The keys have `RID`s with non-negative page and slot numbers. -/
def ValidRids (attrLength : ℕ) (S : Set Pointer) : Prop :=
  ∀ v ∈ S, 0 ≤ (readRid v attrLength).pageNum.toInt ∧ 0 ≤ (readRid v attrLength).slotNum.toInt

/-- A comparison that decides the order of some images of the keys. -/
theorem strictOrder_of_order {L : Type} [LinearOrder L] {compare : Pointer → Pointer → ℤ}
    {same : Pointer → Pointer → Prop} {S : Set Pointer} (f : Pointer → L)
    (hlt : ∀ v ∈ S, ∀ w ∈ S, compare v w < 0 ↔ f v < f w)
    (heq : ∀ v ∈ S, ∀ w ∈ S, compare v w = 0 ↔ f v = f w)
    (hsame : ∀ v ∈ S, ∀ w ∈ S, f v = f w ↔ same v w) : StrictOrder compare same S := by
  have hgt : ∀ v ∈ S, ∀ w ∈ S, f v < f w → 0 < compare w v := by
    intro v hv w hw hvw
    have hneg := mt (hlt w hw v hv).mp hvw.not_gt
    have hzero := mt (heq w hw v hv).mp hvw.ne'
    omega
  refine ⟨fun v hv w hw => ?_, fun u hu v hv w hw huv hvw => ?_, fun v hv w hw =>
    (heq v hv w hw).trans (hsame v hv w hw)⟩
  · rcases lt_trichotomy (f v) (f w) with h | h | h
    · rw [Int.sign_eq_neg_one_of_neg ((hlt v hv w hw).mpr h), Int.sign_eq_one_of_pos
        (hgt v hv w hw h)]
    · rw [(heq v hv w hw).mpr h, (heq w hw v hv).mpr h.symm]
      rfl
    · rw [Int.sign_eq_neg_one_of_neg ((hlt w hw v hv).mpr h), Int.sign_eq_one_of_pos
        (hgt w hw v hv h)]
      rfl
  · exact (hlt u hu w hw).mpr (((hlt u hu v hv).mp huv).trans ((hlt v hv w hw).mp hvw))

/-! ## `RID`s with non-negative numbers -/

/-- The order of the `RID`s: by page, then by slot. -/
def RawRid.order (rid : RawRid) : ℤ ×ₗ ℤ := toLex (rid.pageNum.toInt, rid.slotNum.toInt)

theorem toInt_sub_of_nonneg {a b : Int32} (ha : 0 ≤ a.toInt) (hb : 0 ≤ b.toInt) :
    (a - b).toInt = a.toInt - b.toInt := by
  have ha' := a.toInt_lt
  have hb' := b.toInt_lt
  rw [Int32.toInt_sub, Int.bmod_def]
  omega

theorem RawRid.compare_neg_iff {a b : RawRid} (ha : 0 ≤ a.pageNum.toInt ∧ 0 ≤ a.slotNum.toInt)
    (hb : 0 ≤ b.pageNum.toInt ∧ 0 ≤ b.slotNum.toInt) :
    RawRid.compare a b < 0 ↔ a.order < b.order := by
  unfold RawRid.compare RawRid.order
  rw [Prod.Lex.toLex_lt_toLex, toInt_sub_of_nonneg ha.1 hb.1, toInt_sub_of_nonneg ha.2 hb.2]
  dsimp only
  split <;> omega

theorem RawRid.order_injective : Function.Injective RawRid.order := by
  rintro ⟨p, q⟩ ⟨p', q'⟩ heq
  rw [RawRid.order, RawRid.order, EmbeddingLike.apply_eq_iff_eq, Prod.mk.injEq] at heq
  obtain rfl := Int32.toInt_inj.mp heq.1
  obtain rfl := Int32.toInt_inj.mp heq.2
  rfl

theorem RawRid.compare_eq_zero_iff {a b : RawRid}
    (ha : 0 ≤ a.pageNum.toInt ∧ 0 ≤ a.slotNum.toInt)
    (hb : 0 ≤ b.pageNum.toInt ∧ 0 ≤ b.slotNum.toInt) :
    RawRid.compare a b = 0 ↔ a.order = b.order := by
  unfold RawRid.compare RawRid.order
  rw [EmbeddingLike.apply_eq_iff_eq, Prod.mk.injEq, toInt_sub_of_nonneg ha.1 hb.1,
    toInt_sub_of_nonneg ha.2 hb.2]
  dsimp only
  split <;> omega

/-! ## When the order is strict and total -/

section order

variable {attrType : AttrType} {n : ℕ} {S : Set Pointer}

/-- The attributes decide first, then the `RID`s. -/
theorem strictOrder_keyCompare {L : Type} [LinearOrder L] (g : Pointer → L)
    (hlt : ∀ v ∈ S, ∀ w ∈ S, attrCompare attrType n v w < 0 ↔ g v < g w)
    (heq : ∀ v ∈ S, ∀ w ∈ S, attrCompare attrType n v w = 0 ↔ g v = g w)
    (hrids : ValidRids n S)
    (hsame : ∀ v ∈ S, ∀ w ∈ S, g v = g w ∧ readRid v n = readRid w n ↔ SameKey n v w) :
    StrictOrder (keyCompare attrType n) (SameKey n) S := by
  refine strictOrder_of_order (fun v => toLex (g v, (readRid v n).order)) ?_ ?_ ?_
  · intro v hv w hw
    have hzero := heq v hv w hw
    have hrid := RawRid.compare_neg_iff (hrids v hv) (hrids w hw)
    rw [Prod.Lex.toLex_lt_toLex, keyCompare]
    dsimp only
    split_ifs with hne
    · rw [hlt v hv w hw]
      exact ⟨.inl, fun h => h.resolve_right fun h' => hne (hzero.mpr h'.1)⟩
    · rw [not_not] at hne
      rw [hrid, hzero.mp hne]
      simp
  · intro v hv w hw
    have hzero := heq v hv w hw
    have hrid := RawRid.compare_eq_zero_iff (hrids v hv) (hrids w hw)
    rw [EmbeddingLike.apply_eq_iff_eq, Prod.mk.injEq, keyCompare]
    split_ifs with hne
    · exact iff_of_false hne fun h => hne (hzero.mpr h.1)
    · rw [not_not] at hne
      rw [hrid, hzero.mp hne]
      simp
  · intro v hv w hw
    rw [EmbeddingLike.apply_eq_iff_eq, Prod.mk.injEq, RawRid.order_injective.eq_iff]
    exact hsame v hv w hw

theorem strictOrder_chars (hrids : ValidRids n S) :
    StrictOrder (keyCompare .chars n) (SameKey n) S := by
  have hlen : ∀ v w : Pointer, (load v n).length = (load w n).length := fun v w =>
    (length_load v n).trans (length_load w n).symm
  have hinj : ∀ s t : List UInt8, s.map UInt8.toNat = t.map UInt8.toNat ↔ s = t :=
    fun s t => (List.map_injective_iff.mpr toNat_injective).eq_iff
  refine strictOrder_keyCompare (fun v => (load v n).map UInt8.toNat)
    (fun v _ w _ => compareString_neg_iff (hlen v w)) (fun v _ w _ => ?_) hrids fun v _ w _ => ?_
  · rw [hinj]
    exact compareString_eq_zero_iff (hlen v w)
  · rw [hinj]
    rfl

theorem load_eq_iff {v w : Pointer} {n : ℕ} : load v n = load w n ↔ ∀ i < n, v i = w i := by
  unfold load
  rw [List.map_inj_left]
  simp

theorem bytes_of_readInt {v w : Pointer} {offset : ℕ} (h : readInt v offset = readInt w offset) :
    ∀ i < 4, v (offset + i) = w (offset + i) := by
  have hbytes := congrArg LittleEndian.encode h
  unfold readInt at hbytes
  rw [LittleEndian.encode_decode (length_load _ _), LittleEndian.encode_decode (length_load _ _)]
    at hbytes
  exact load_eq_iff.mp hbytes

/-- Two keys with equal attribute bytes and `RID`s begin with the same integer, however short the
attribute is. -/
theorem SameKey.readInt_eq {v w : Pointer} (h : SameKey n v w) : readInt v 0 = readInt w 0 := by
  have hattr := load_eq_iff.mp h.1
  have hpage := bytes_of_readInt (congrArg RawRid.pageNum h.2)
  have hbytes : ∀ i < 4, v (0 + i) = w (0 + i) := by
    intro i hi
    rw [Nat.zero_add]
    by_cases hin : i < n
    · exact hattr i hin
    · have hat := hpage (i - n) (by omega)
      rwa [Nat.add_sub_cancel' (not_lt.mp hin)] at hat
  unfold readInt
  rw [load_eq_iff.mpr hbytes]

/-- Keys that begin with the same integer and have equal `RID`s have equal attribute bytes. -/
def IntDecides (n : ℕ) (S : Set Pointer) : Prop :=
  ∀ v ∈ S, ∀ w ∈ S, readInt v 0 = readInt w 0 → readRid v n = readRid w n → load v n = load w n

theorem strictOrder_ints (hattr : ∀ v w, attrCompare attrType n v w =
      Value.compareInt (readInt v 0) (readInt w 0)) (hrids : ValidRids n S)
    (hcircle : HalfCircle ((readInt · 0) '' S)) (hdecides : IntDecides n S) :
    StrictOrder (keyCompare attrType n) (SameKey n) S := by
  obtain ⟨c, hc⟩ := hcircle
  have hdiff : ∀ v ∈ S, ∀ w ∈ S, attrCompare attrType n v w =
      place c (readInt v 0) - place c (readInt w 0) := by
    intro v hv w hw
    rw [hattr]
    exact toInt_sub_eq_place (hc _ (Set.mem_image_of_mem _ hv)) (hc _ (Set.mem_image_of_mem _ hw))
  refine strictOrder_keyCompare (fun v => place c (readInt v 0)) (fun v hv w hw => ?_)
    (fun v hv w hw => ?_) hrids fun v hv w hw => ?_
  · rw [hdiff v hv w hw]
    omega
  · rw [hdiff v hv w hw]
    omega
  · rw [(place_injective c).eq_iff]
    exact ⟨fun h => ⟨hdecides v hv w hw h.1 h.2, h.2⟩, fun h => ⟨h.readInt_eq, h.2⟩⟩

theorem StrictOrder.orderedBySub (hattr : ∀ v w, attrCompare attrType n v w =
      Value.compareInt (readInt v 0) (readInt w 0))
    (hs : StrictOrder (keyCompare attrType n) (SameKey n) S) :
    OrderedBySub ((readInt · 0) '' S) := by
  -- for different values the comparison of the keys is the wrapped difference
  have hcompare : ∀ v w, readInt v 0 ≠ readInt w 0 →
      keyCompare attrType n v w = (readInt v 0 - readInt w 0).toInt := by
    intro v w hne
    have hzero : Value.compareInt (readInt v 0) (readInt w 0) ≠ 0 := by
      intro hzero
      have hv := (readInt v 0).le_toInt
      have hv' := (readInt v 0).toInt_lt
      have hw := (readInt w 0).le_toInt
      have hw' := (readInt w 0).toInt_lt
      rw [Value.compareInt_eq, Int.bmod_def] at hzero
      exact hne (Int32.toInt_inj.mp (by omega))
    rw [keyCompare, hattr]
    exact if_pos hzero
  have hself : ∀ a : Int32, (a - a).toInt = 0 := fun a => Value.compareInt_self a
  have hne : ∀ a b : Int32, (a - b).toInt < 0 → a ≠ b := by
    rintro a b hlt rfl
    rw [hself] at hlt
    exact absurd hlt (lt_irrefl 0)
  have hanti : ∀ v ∈ S, ∀ w ∈ S, (readInt v 0 - readInt w 0).toInt.sign =
      -(readInt w 0 - readInt v 0).toInt.sign := by
    intro v hv w hw
    by_cases heq : readInt v 0 = readInt w 0
    · rw [heq, hself]
      rfl
    · rw [← hcompare v w heq, ← hcompare w v (Ne.symm heq)]
      exact hs.antisymm v hv w hw
  refine ⟨?_, ?_⟩
  · rintro _ ⟨v, hv, rfl⟩ _ ⟨w, hw, rfl⟩
    exact hanti v hv w hw
  · rintro _ ⟨u, hu, rfl⟩ _ ⟨v, hv, rfl⟩ _ ⟨w, hw, rfl⟩ huv hvw
    dsimp only at huv hvw ⊢
    have hkeys := hs.trans u hu v hv w hw
    rw [hcompare u v (hne _ _ huv), hcompare v w (hne _ _ hvw)] at hkeys
    by_cases heq : readInt u 0 = readInt w 0
    · have hsign := hanti u hu v hv
      rw [Int.sign_eq_neg_one_of_neg huv, heq, Int.sign_eq_neg_one_of_neg hvw] at hsign
      exact absurd hsign (by decide)
    · rw [← hcompare u w heq]
      exact hkeys huv hvw

/-- The keys compare like a strict total order exactly when they are byte strings, or when their
integers lie in one half of the circle of 32-bit integers and decide the attribute bytes. -/
theorem strictOrder_keyCompare_iff (htype : attrType = .ints ∨ attrType = .dates ∨
      attrType = .chars) (hrids : ValidRids n S) :
    StrictOrder (keyCompare attrType n) (SameKey n) S ↔ attrType = .chars ∨
      HalfCircle ((readInt · 0) '' S) ∧ IntDecides n S := by
  by_cases hchars : attrType = .chars
  · subst hchars
    exact iff_of_true (strictOrder_chars hrids) (.inl rfl)
  · have hattr : ∀ v w, attrCompare attrType n v w =
        Value.compareInt (readInt v 0) (readInt w 0) := by
      rcases htype with rfl | rfl | rfl
      · exact fun _ _ => rfl
      · exact fun _ _ => rfl
      · exact absurd rfl hchars
    constructor
    · intro hs
      refine .inr ⟨orderedBySub_iff.mp (hs.orderedBySub hattr), fun v hv w hw hint hrid => ?_⟩
      refine ((hs.eq_iff v hv w hw).mp ?_).1
      rw [keyCompare, hattr, hint, Value.compareInt_self, hrid]
      rw [if_neg (not_not_intro rfl)]
      exact (RawRid.compare_eq_zero_iff (hrids w hw) (hrids w hw)).mpr rfl
    · rintro (rfl | ⟨hcircle, hdecides⟩)
      · exact absurd rfl hchars
      · exact strictOrder_ints hattr hrids hcircle hdecides

end order

/-- The buffer of a key with a 32-bit attribute, and zero bytes behind it. -/
def keyBuffer (value pageNum slotNum : Int32) : Pointer := fun i =>
  (LittleEndian.encodeWords [value, pageNum, slotNum]).getD i 0

theorem strictOrder_keyCompare_iff_small :
    StrictOrder (keyCompare .dates 4) (SameKey 4) {keyBuffer 3 1 1, keyBuffer (-5) 1 2} ↔
      AttrType.dates = .chars ∨
        HalfCircle ((readInt · 0) '' {keyBuffer 3 1 1, keyBuffer (-5) 1 2}) ∧
          IntDecides 4 {keyBuffer 3 1 1, keyBuffer (-5) 1 2} := by
  refine strictOrder_keyCompare_iff (.inr (.inl rfl)) ?_
  rintro v (rfl | rfl)
  · decide
  · decide

/-- The difference of 0 and the least integer is the least integer, whichever comes first. -/
theorem not_strictOrder_ints :
    ValidRids 4 {keyBuffer 0 1 1, keyBuffer Int32.minValue 1 1} ∧
      ¬ StrictOrder (keyCompare .ints 4) (SameKey 4)
        {keyBuffer 0 1 1, keyBuffer Int32.minValue 1 1} := by
  constructor
  · rintro v (rfl | rfl)
    · decide
    · decide
  · intro hs
    have hsign := hs.antisymm _ (.inl rfl) _ (.inr rfl)
    revert hsign
    decide

end TDB
