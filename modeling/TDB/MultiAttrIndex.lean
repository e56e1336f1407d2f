import Mathlib.Data.List.Lex
import TDB.Value
import TDB.WellFormedScan

namespace TDB

open BplusTreeHandler BplusTreeScanner Exec

/-! ## Indexes over several attributes -/

structure AttrBytes (n : ℕ) where
  bytes : List UInt8
  length_eq : bytes.length = n
  deriving DecidableEq

/-- The memory a `char` pointer points to, byte by byte. -/
abbrev Pointer := ℕ → UInt8

def load (p : Pointer) (n : ℕ) : List UInt8 := (List.range n).map p

@[simp] theorem length_load (p : Pointer) (n : ℕ) : (load p n).length = n := by
  simp [load]

/-- The header of an index over two or more attributes.  Its `attrs_type` is `CHARS`. -/
structure MultiAttrHeader where
  internalMaxSize : ℕ
  leafMaxSize : ℕ
  multiAttrLengths : List ℕ
  attrAmount : 2 ≤ multiAttrLengths.length

inductive LeftOrRight where
  | inserting
  | leftBound
  | rightBound
  deriving DecidableEq

/-- A user key of `open`: its bytes, its length and whether the bound belongs to the range. -/
structure UserKey where
  data : Pointer
  len : ℕ
  inclusive : Bool

namespace MultiAttrHeader

variable (m : MultiAttrHeader)

def attrsLength : ℕ := m.multiAttrLengths.sum

/-- `multi_attr_lengths[0]`. -/
def firstLength : ℕ := m.multiAttrLengths.headD 0

theorem firstLength_add : m.firstLength + m.multiAttrLengths.tail.sum = m.attrsLength := by
  unfold firstLength attrsLength
  cases m.multiAttrLengths <;> simp

theorem length_replicate_zero : (List.replicate m.attrsLength (0 : UInt8)).length = m.attrsLength :=
  List.length_replicate

/-- The header and comparator of the tree; `compare_string` compares `attrs_length` bytes. -/
def header : IndexFileHeader (AttrBytes m.attrsLength) :=
  ⟨m.internalMaxSize, m.leafMaxSize, m.attrsLength, ⟨_, m.length_replicate_zero⟩,
    ⟨fun v1 v2 => Value.compareString v1.bytes v2.bytes⟩⟩

def insertedAttrs (multiKeys : ℕ → Pointer) : List UInt8 :=
  m.multiAttrLengths.zipIdx.flatMap fun e => load (multiKeys e.2) e.1

/-- The attribute part of the key of a bound.  Unless the input holds all attributes, those behind
the first one are filled with zero bytes, for either bound. -/
def boundAttrs (key : Pointer) (allInOneInputKey : Bool) : List UInt8 :=
  if allInOneInputKey then load key m.attrsLength
  else load key m.firstLength ++ List.replicate m.multiAttrLengths.tail.sum 0

theorem length_insertedAttrs (multiKeys : ℕ → Pointer) :
    (m.insertedAttrs multiKeys).length = m.attrsLength := by
  unfold insertedAttrs attrsLength
  simp only [List.length_flatMap, length_load]
  rw [← Function.comp_def, ← List.map_map]
  simp

theorem length_boundAttrs (key : Pointer) (allInOneInputKey : Bool) :
    (m.boundAttrs key allInOneInputKey).length = m.attrsLength := by
  unfold boundAttrs
  split_ifs
  · exact length_load _ _
  · rw [List.length_append, length_load, List.length_replicate, firstLength_add]

/-- `make_key` with a `RID`, for an index over several attributes. -/
def makeKey (multiKeys : ℕ → Pointer) (rid : RID) (leftOrRight : LeftOrRight)
    (allInOneInputKey : Bool) : Key (AttrBytes m.attrsLength) :=
  match leftOrRight with
  | .inserting => ⟨⟨_, m.length_insertedAttrs multiKeys⟩, rid⟩
  | .leftBound => ⟨⟨_, m.length_boundAttrs (multiKeys 0) allInOneInputKey⟩, rid⟩
  | .rightBound => ⟨⟨_, m.length_boundAttrs (multiKeys 0) allInOneInputKey⟩, rid⟩

/-- `fix_user_key`: the key buffer and `should_inclusive`. -/
def fixUserKey (userKey : Pointer) (keyLen : ℕ) (wantGreater : Bool) : List UInt8 × Bool :=
  if keyLen ≤ m.attrsLength then
    (load userKey keyLen ++ List.replicate (m.attrsLength - keyLen) 0, false)
  else if userKey m.attrsLength = 0 then (load userKey m.attrsLength, false)
  else if wantGreater then
    ((load userKey m.attrsLength).modify (m.attrsLength - 1) (· + 1), true)
  else (load userKey m.attrsLength, true)

/-- The check of the two bounds: it reads `attrs_length` bytes behind either pointer. -/
def badRange (left right : Option UserKey) : Bool :=
  match left, right with
  | some l, some r =>
    let result := Value.compareString (load l.data m.attrsLength) (load r.data m.attrsLength)
    decide (result > 0) || (decide (result = 0) && (!l.inclusive || !r.inclusive))
  | _, _ => false

def leftKey (u : UserKey) : Key (AttrBytes m.attrsLength) :=
  let fixed := m.fixUserKey u.data u.len true
  let allInOneKeyLeft := decide (u.len = m.attrsLength)
  if u.inclusive || fixed.2 then
    m.makeKey (fun _ i => fixed.1.getD i 0) RID.min .leftBound allInOneKeyLeft
  else m.makeKey (fun _ i => fixed.1.getD i 0) RID.max .rightBound allInOneKeyLeft

def rightKey (u : UserKey) : Key (AttrBytes m.attrsLength) :=
  let fixed := m.fixUserKey u.data u.len false
  let allInOneKeyRight := decide (u.len = m.attrsLength)
  if u.inclusive || fixed.2 then
    m.makeKey (fun _ i => fixed.1.getD i 0) RID.max .rightBound allInOneKeyRight
  else m.makeKey (fun _ i => fixed.1.getD i 0) RID.min .leftBound allInOneKeyRight

def openScan (sc : BplusTreeScanner (AttrBytes m.attrsLength)) (left right : Option UserKey) :
    TreeM (AttrBytes m.attrsLength) (RC × BplusTreeScanner (AttrBytes m.attrsLength)) := do
  if sc.inited then return (.internal, sc)
  let sc := { sc with inited := true, firstEmitted := false }
  if m.badRange left right then return (.invalidArgument, sc)
  openKeys m.header sc (left.map m.leftKey) (right.map m.rightKey)

end MultiAttrHeader

/-! ## The order of the keys -/

theorem toNat_injective : Function.Injective UInt8.toNat := fun _ _ => UInt8.toNat_inj.mp

/-- `compare_string` orders byte strings of one length like a dictionary. -/
theorem compareString_neg_iff : ∀ {s t : List UInt8}, s.length = t.length →
    (Value.compareString s t < 0 ↔ s.map UInt8.toNat < t.map UInt8.toNat)
  | [], [], _ => by simp
  | a :: s, b :: t, hlen => by
    have ih := compareString_neg_iff (Nat.succ.inj hlen)
    rw [Value.compareString_cons_cons, List.map_cons, List.map_cons, List.cons_lt_cons_iff]
    by_cases hab : a = b
    · rw [if_pos hab, ih, hab]
      simp
    · have hne : a.toNat ≠ b.toNat := fun heq => hab (UInt8.toNat_inj.mp heq)
      rw [if_neg hab]
      omega

theorem compareString_eq_zero_iff : ∀ {s t : List UInt8}, s.length = t.length →
    (Value.compareString s t = 0 ↔ s = t)
  | [], [], _ => by simp
  | a :: s, b :: t, hlen => by
    have ih := compareString_eq_zero_iff (Nat.succ.inj hlen)
    rw [Value.compareString_cons_cons]
    by_cases hab : a = b
    · rw [if_pos hab, ih, hab]
      simp
    · have hne : a.toNat ≠ b.toNat := fun heq => hab (UInt8.toNat_inj.mp heq)
      rw [if_neg hab]
      simp only [List.cons.injEq, hab, false_and, iff_false]
      omega

/-- The keys of an index over several attributes: by their bytes, then by `RID`. -/
instance {n : ℕ} : LinearOrder (Key (AttrBytes n)) :=
  LinearOrder.lift'
    (fun k => (toLex (k.attr.bytes.map UInt8.toNat,
      toLex (k.rid.pageNum.val, k.rid.slotNum.val)) : List ℕ ×ₗ ℕ ×ₗ ℕ))
    fun a b hab => by
      obtain ⟨⟨x, hx⟩, ⟨p, q⟩⟩ := a
      obtain ⟨⟨y, hy⟩, ⟨p', q'⟩⟩ := b
      simp only [EmbeddingLike.apply_eq_iff_eq, Prod.mk.injEq] at hab
      obtain ⟨hxy, hp, hq⟩ := hab
      obtain rfl : x = y := List.map_injective_iff.mpr toNat_injective hxy
      rw [Fin.ext hp, Fin.ext hq]

theorem attrKey_lt_iff {n : ℕ} (a b : Key (AttrBytes n)) : a < b ↔
    a.attr.bytes.map UInt8.toNat < b.attr.bytes.map UInt8.toNat ∨
      a.attr.bytes.map UInt8.toNat = b.attr.bytes.map UInt8.toNat ∧
      (a.rid.pageNum.val < b.rid.pageNum.val ∨
        a.rid.pageNum.val = b.rid.pageNum.val ∧ a.rid.slotNum.val < b.rid.slotNum.val) := by
  change (toLex (a.attr.bytes.map UInt8.toNat, toLex (a.rid.pageNum.val, a.rid.slotNum.val)) :
    List ℕ ×ₗ ℕ ×ₗ ℕ) <
    toLex (b.attr.bytes.map UInt8.toNat, toLex (b.rid.pageNum.val, b.rid.slotNum.val)) ↔ _
  rw [Prod.Lex.toLex_lt_toLex, Prod.Lex.toLex_lt_toLex]

theorem RID.compare_neg_iff (a b : RID) : RID.compare a b < 0 ↔
    a.pageNum.val < b.pageNum.val ∨
      a.pageNum.val = b.pageNum.val ∧ a.slotNum.val < b.slotNum.val := by
  unfold RID.compare
  dsimp only
  split_ifs <;> omega

theorem RID.compare_eq_zero_iff (a b : RID) : RID.compare a b = 0 ↔ a = b := by
  constructor
  · intro hzero
    obtain ⟨p, q⟩ := a
    obtain ⟨p', q'⟩ := b
    unfold RID.compare at hzero
    dsimp only at hzero
    have hp : p.val = p'.val := by split_ifs at hzero <;> omega
    have hq : q.val = q'.val := by split_ifs at hzero <;> omega
    rw [Fin.ext hp, Fin.ext hq]
  · rintro rfl
    simp [RID.compare]

/-- A comparator that calls `compare_string` decides the order of the keys. -/
theorem attrBytes_orders {n : ℕ} {h : IndexFileHeader (AttrBytes n)}
    (hcomparator : h.keyComparator.attrComparator =
      fun v1 v2 => Value.compareString v1.bytes v2.bytes) : h.Orders := by
  have hlen : ∀ a b : AttrBytes n, a.bytes.length = b.bytes.length :=
    fun a b => a.length_eq.trans b.length_eq.symm
  have hcompare : ∀ a b : Key (AttrBytes n), h.compare a b =
      if Value.compareString a.attr.bytes b.attr.bytes ≠ 0 then
        Value.compareString a.attr.bytes b.attr.bytes
      else RID.compare a.rid b.rid := by
    intro a b
    rw [compare_eq, hcomparator]
  have hinj : ∀ s t : List UInt8, s.map UInt8.toNat = t.map UInt8.toNat ↔ s = t :=
    fun s t => (List.map_injective_iff.mpr toNat_injective).eq_iff
  constructor
  · intro a b
    have hlt := compareString_neg_iff (hlen a.attr b.attr)
    have heq := compareString_eq_zero_iff (hlen a.attr b.attr)
    rw [hcompare, attrKey_lt_iff, hinj, ← heq, ← hlt]
    split_ifs with hzero
    · exact ⟨.inl, fun h => h.resolve_right fun h' => hzero h'.1⟩
    · rw [not_not] at hzero
      rw [RID.compare_neg_iff, hzero]
      simp
  · intro a b
    have heq := compareString_eq_zero_iff (hlen a.attr b.attr)
    rw [hcompare]
    split_ifs with hzero
    · refine ⟨fun h => absurd h hzero, ?_⟩
      rintro rfl
      exact heq.mpr rfl
    · rw [not_not] at hzero
      rw [RID.compare_eq_zero_iff]
      obtain ⟨⟨x, hx⟩, p⟩ := a
      obtain ⟨⟨y, hy⟩, q⟩ := b
      obtain rfl := heq.mp hzero
      simp

namespace MultiAttrHeader

variable (m : MultiAttrHeader)

/-- The comparator of the index decides the order of the keys. -/
theorem orders : m.header.Orders := attrBytes_orders rfl

/-! ## Search by the first attribute -/

def firstValue (value : List UInt8) : List UInt8 :=
  value ++ List.replicate (m.firstLength - value.length) 0

def firstIs (value : List UInt8) (x : Key (AttrBytes m.attrsLength) × RID) : Bool :=
  decide (x.1.attr.bytes.take m.firstLength = m.firstValue value)

def restZero (x : Key (AttrBytes m.attrsLength) × RID) : Bool :=
  decide (x.1.attr.bytes.drop m.firstLength = List.replicate m.multiAttrLengths.tail.sum 0)

end MultiAttrHeader

/-- A user key that is a value in memory, with the bytes `behind` following it. -/
def UserKey.ofValue (value : List UInt8) (behind : Pointer) : UserKey :=
  ⟨fun i => if i < value.length then value.getD i 0 else behind (i - value.length), value.length,
    true⟩

theorem load_ofValue (value : List UInt8) (behind : Pointer) :
    load (UserKey.ofValue value behind).data value.length = value := by
  refine List.ext_getElem (length_load _ _) fun i hi hi' => ?_
  simp [load, UserKey.ofValue, hi']

theorem load_getD (bytes : List UInt8) {n : ℕ} (hn : n ≤ bytes.length) :
    load (fun i => bytes.getD i 0) n = bytes.take n := by
  refine List.ext_getElem (by simp [hn]) fun i hi hi' => ?_
  rw [length_load] at hi
  have hlt : i < bytes.length := by omega
  simp [load, hlt]

theorem load_getD_self {bytes : List UInt8} {n : ℕ} (hlen : bytes.length = n) :
    load (fun i => bytes.getD i 0) n = bytes := by
  rw [load_getD bytes hlen.ge, List.take_of_length_le hlen.le]

namespace MultiAttrHeader

variable (m : MultiAttrHeader) {value : List UInt8}

/-- The key a value of the first attribute is searched with, but for its `RID`. -/
theorem length_paddedValue (hlen : value.length ≤ m.firstLength) :
    (m.firstValue value ++ List.replicate m.multiAttrLengths.tail.sum 0).length =
      m.attrsLength := by
  have hsum := m.firstLength_add
  simp only [firstValue, List.length_append, List.length_replicate]
  omega

theorem boundAttrs_eq (hlen : value.length ≤ m.firstLength) (hlt : value.length < m.attrsLength)
    (behind : Pointer) (wantGreater : Bool) :
    m.fixUserKey (UserKey.ofValue value behind).data value.length wantGreater =
        (value ++ List.replicate (m.attrsLength - value.length) 0, false) ∧
      m.boundAttrs (fun i => (value ++ List.replicate (m.attrsLength - value.length) 0).getD i 0)
        (decide (value.length = m.attrsLength)) =
          m.firstValue value ++ List.replicate m.multiAttrLengths.tail.sum 0 := by
  have hsum := m.firstLength_add
  constructor
  · rw [fixUserKey, if_pos hlt.le, load_ofValue]
  · rw [boundAttrs, decide_eq_false hlt.ne, if_neg (by decide), load_getD _ (by simp; omega)]
    congr 1
    rw [List.take_append, List.take_of_length_le hlen, List.take_replicate, firstValue]
    congr 2
    omega

theorem leftKey_ofValue (hlen : value.length ≤ m.firstLength) (hlt : value.length < m.attrsLength)
    (behind : Pointer) : m.leftKey (UserKey.ofValue value behind) =
      ⟨⟨_, m.length_paddedValue hlen⟩, RID.min⟩ := by
  obtain ⟨hfixed, hattrs⟩ := m.boundAttrs_eq hlen hlt behind true
  unfold leftKey
  simp only [show (UserKey.ofValue value behind).len = value.length from rfl, hfixed,
    show (UserKey.ofValue value behind).inclusive = true from rfl, Bool.true_or, ↓reduceIte,
    makeKey, hattrs]

theorem rightKey_ofValue (hlen : value.length ≤ m.firstLength) (hlt : value.length < m.attrsLength)
    (behind : Pointer) : m.rightKey (UserKey.ofValue value behind) =
      ⟨⟨_, m.length_paddedValue hlen⟩, RID.max⟩ := by
  obtain ⟨hfixed, hattrs⟩ := m.boundAttrs_eq hlen hlt behind false
  unfold rightKey
  simp only [show (UserKey.ofValue value behind).len = value.length from rfl, hfixed,
    show (UserKey.ofValue value behind).inclusive = true from rfl, Bool.true_or, ↓reduceIte,
    makeKey, hattrs]

theorem betweenKeys_ofValue (hlen : value.length ≤ m.firstLength)
    (hlt : value.length < m.attrsLength) (leftBehind rightBehind : Pointer)
    (x : Key (AttrBytes m.attrsLength) × RID) :
    betweenKeys (some (m.leftKey (UserKey.ofValue value leftBehind)))
      (some (m.rightKey (UserKey.ofValue value rightBehind))) x =
        (m.firstIs value x && m.restZero x) := by
  have hlength : (m.firstValue value).length = m.firstLength := by
    simp only [firstValue, List.length_append, List.length_replicate]
    omega
  rw [m.leftKey_ofValue hlen hlt, m.rightKey_ofValue hlen hlt, Bool.eq_iff_iff,
    betweenKeys_attr m.orders, Bool.and_eq_true, firstIs, restZero, decide_eq_true_iff,
    decide_eq_true_iff]
  constructor
  · intro heq
    have hbytes := congrArg AttrBytes.bytes heq
    dsimp only at hbytes
    rw [hbytes, ← hlength, List.take_left, List.drop_left]
    exact ⟨rfl, rfl⟩
  · rintro ⟨htake, hdrop⟩
    obtain ⟨⟨⟨bytes, hb⟩, rid⟩, v⟩ := x
    dsimp only at htake hdrop ⊢
    congr 1
    rw [← List.take_append_drop m.firstLength bytes, htake, hdrop]

theorem compareString_append_left (v s t : List UInt8) :
    Value.compareString (v ++ s) (v ++ t) = Value.compareString s t := by
  induction v with
  | nil => rfl
  | cons a v ih => rw [List.cons_append, List.cons_append, Value.compareString_cons_cons,
      if_pos rfl, ih]

theorem load_data_ofValue (behind : Pointer) (hlt : value.length < m.attrsLength) :
    load (UserKey.ofValue value behind).data m.attrsLength =
      value ++ load behind (m.attrsLength - value.length) := by
  refine List.ext_getElem (by simp; omega) fun i hi hi' => ?_
  rw [List.getElem_append]
  split_ifs with hiv
  · simp [load, UserKey.ofValue, hiv]
  · simp [load, UserKey.ofValue, hiv]

theorem badRange_ofValue (hlt : value.length < m.attrsLength) (leftBehind rightBehind : Pointer) :
    m.badRange (some (UserKey.ofValue value leftBehind))
      (some (UserKey.ofValue value rightBehind)) =
        decide (Value.compareString (load leftBehind (m.attrsLength - value.length))
          (load rightBehind (m.attrsLength - value.length)) > 0) := by
  unfold badRange
  dsimp only
  rw [m.load_data_ofValue leftBehind hlt, m.load_data_ofValue rightBehind hlt,
    compareString_append_left]
  simp [UserKey.ofValue]

def PrefixSearch (s : BplusTreeHandler (AttrBytes m.attrsLength)) (value : List UInt8)
    (leftBehind rightBehind : Pointer) : Prop :=
  Returns (m.openScan new (some (UserKey.ofValue value leftBehind))
    (some (UserKey.ofValue value rightBehind))) s fun r s₁ => r.1 = .success ∧
      ∀ fuel > (entries s).length, Returns (drain m.header fuel r.2) s₁ fun r _ =>
        r.1 = .recordEof ∧ r.2.1 = ((entries s).filter (m.firstIs value)).map Prod.snd

end MultiAttrHeader

section

variable {A : Type} [LinearOrder (Key A)] {h : IndexFileHeader A} {s : BplusTreeHandler A}

/-- A scan from a left key, also in an empty tree. -/
theorem WellFormed.returns_scanKeys (hh : h.Orders) {spine : Prop} (hw : WellFormed h s spine)
    (hfile : s.rootPage ≠ invalidPageNum → InFile s) (sc : BplusTreeScanner A) (left : Key A)
    (right : Option (Key A)) :
    Returns (openKeys h sc (some left) right) s fun r s₁ => r.1 = .success ∧
      ∀ fuel > (entries s).length, Returns (drain h fuel r.2) s₁ fun r _ =>
        r.1 = .recordEof ∧
          r.2.1 = ((entries s).filter (betweenKeys (some left) right)).map Prod.snd := by
  by_cases hroot : s.rootPage = invalidPageNum
  · have hempty : s.isEmpty = true := decide_eq_true hroot
    have hentries : entries s = [] := by rw [entries, hempty]; rfl
    unfold openKeys findLeaf findLeafInternal
    simp only [returns_bind, returns_get, hempty, ↓reduceIte, returns_pure, true_and]
    intro fuel hfuel
    rw [hentries] at hfuel ⊢
    obtain ⟨fuel, rfl⟩ := Nat.exists_eq_add_of_lt hfuel
    unfold drain nextEntry nextEntryLoop
    simp
  · obtain ⟨row, hr, hrow⟩ := hw.readable hh hroot (hfile hroot)
    rw [← hrow]
    exact hr.returns_scanKeys hh _ _

end

namespace MultiAttrHeader

variable (m : MultiAttrHeader) {value : List UInt8}

/-- The search finds what it should exactly when the bytes behind the left key are not greater than
those behind the right key, and no entry with the value has anything but zero bytes behind it. -/
theorem prefixSearch_iff {s : BplusTreeHandler (AttrBytes m.attrsLength)}
    (hw : WellFormed m.header s True) (hfile : s.rootPage ≠ invalidPageNum → InFile s)
    (hlen : value.length ≤ m.firstLength) (hlt : value.length < m.attrsLength)
    (leftBehind rightBehind : Pointer) :
    m.PrefixSearch s value leftBehind rightBehind ↔
      Value.compareString (load leftBehind (m.attrsLength - value.length))
        (load rightBehind (m.attrsLength - value.length)) ≤ 0 ∧
      ∀ x ∈ entries s, m.firstIs value x = true → m.restZero x = true := by
  unfold PrefixSearch openScan
  simp only [new, Bool.false_eq_true, ↓reduceIte, m.badRange_ofValue hlt, decide_eq_true_iff]
  -- the bytes behind the two values decide whether `open` refuses the range
  by_cases hbad : Value.compareString (load leftBehind (m.attrsLength - value.length))
      (load rightBehind (m.attrsLength - value.length)) > 0
  · rw [if_pos hbad, returns_pure]
    exact ⟨fun hsearch => (by cases hsearch.1), fun hcond => absurd hcond.1 hbad.not_ge⟩
  · rw [if_neg hbad, Option.map_some, Option.map_some]
    have hscan := hw.returns_scanKeys m.orders hfile
      ⟨true, none, none, 0, false⟩ (m.leftKey (UserKey.ofValue value leftBehind))
      (some (m.rightKey (UserKey.ofValue value rightBehind)))
    have hfilter : (entries s).filter (betweenKeys
        (some (m.leftKey (UserKey.ofValue value leftBehind)))
        (some (m.rightKey (UserKey.ofValue value rightBehind)))) =
          ((entries s).filter (m.firstIs value)).filter m.restZero := by
      rw [List.filter_filter]
      refine List.filter_congr fun x _ => ?_
      rw [m.betweenKeys_ofValue hlen hlt, Bool.and_comm]
    rw [hfilter] at hscan
    obtain ⟨r, s₁, hopen, hrc, hdrain⟩ := hscan
    rw [returns_of_eq hopen]
    refine ⟨fun hsearch => ⟨not_lt.mp hbad, ?_⟩, fun hcond => ⟨hrc, fun fuel hfuel => ?_⟩⟩
    · have hfound := hsearch.2 _ (Nat.lt_succ_self _)
      obtain ⟨r', s₂, hrun, -, hrids⟩ := hdrain _ (Nat.lt_succ_self _)
      rw [returns_of_eq hrun, hrids] at hfound
      have hlength := congrArg List.length hfound.2
      rw [List.length_map, List.length_map, List.length_filter_eq_length_iff] at hlength
      exact fun x hx hfirst => hlength x (List.mem_filter.mpr ⟨hx, hfirst⟩)
    · have hall : ((entries s).filter (m.firstIs value)).filter m.restZero =
          (entries s).filter (m.firstIs value) := by
        rw [List.filter_eq_self]
        intro x hx
        obtain ⟨hx, hfirst⟩ := List.mem_filter.mp hx
        exact hcond.2 x hx hfirst
      rw [← hall]
      exact hdrain fuel hfuel

def twoBytes : MultiAttrHeader := ⟨6, 4, [1, 1], Nat.le_refl 2⟩

theorem twoBytes_served {us : List (Update (AttrBytes twoBytes.attrsLength))}
    {s : BplusTreeHandler (AttrBytes twoBytes.attrsLength)}
    (hs : runServed twoBytes.header us created = some s) :
    WellFormed twoBytes.header s True ∧ (s.rootPage ≠ invalidPageNum → InFile s) := by
  have hf : Fanout twoBytes.header anyKeys 3 2 := fanout_of_sizes (by decide) (by decide)
  obtain ⟨es, hi⟩ := index_of_served twoBytes.orders hf rfl (reflTransGen_runServed hs)
  exact ⟨hi.wellFormed twoBytes.orders rfl hf.sizes.pos, hi.inFile⟩

theorem prefixSearch_zeroRest : ∃ s,
    runServed twoBytes.header [.insertEntry ⟨[1, 0], rfl⟩ recordOne,
      .insertEntry ⟨[2, 5], rfl⟩ recordOne] created = some s ∧
      twoBytes.PrefixSearch s [1] (fun _ => 0) (fun _ => 0) := by
  have hrun : (runServed twoBytes.header [.insertEntry ⟨[1, 0], rfl⟩ recordOne,
      .insertEntry ⟨[2, 5], rfl⟩ recordOne] created).any (fun s => decide
        (∀ x ∈ entries s, twoBytes.firstIs [1] x = true → twoBytes.restZero x = true)) = true := by
    decide +kernel
  obtain ⟨s, hs, hcond⟩ := (Option.any_eq_true _ _).mp hrun
  obtain ⟨hw, hfile⟩ := twoBytes_served hs
  exact ⟨s, hs, (twoBytes.prefixSearch_iff hw hfile (by decide) (by decide) _ _).mpr
    ⟨by decide, of_decide_eq_true hcond⟩⟩

/-- The second attribute of the only entry is 2: the search for its first attribute misses it. -/
theorem not_prefixSearch : ∃ s,
    runServed twoBytes.header [.insertEntry ⟨[1, 2], rfl⟩ recordOne] created = some s ∧
      WellFormed twoBytes.header s True ∧ (s.rootPage ≠ invalidPageNum → InFile s) ∧
      ¬ twoBytes.PrefixSearch s [1] (fun _ => 0) (fun _ => 0) := by
  have hrun : (runServed twoBytes.header [.insertEntry ⟨[1, 2], rfl⟩ recordOne] created).any
      (fun s => decide ((entries s).length = 1 ∧
        ((entries s).filter (twoBytes.firstIs [1])).map Prod.snd = [recordOne] ∧
        Returns (twoBytes.openScan new (some (UserKey.ofValue [1] fun _ => 0))
          (some (UserKey.ofValue [1] fun _ => 0))) s fun r s₁ =>
            Returns (drain twoBytes.header 2 r.2) s₁ fun r _ => r.2.1 = [])) = true := by
    decide +kernel
  obtain ⟨s, hs, hcond⟩ := (Option.any_eq_true _ _).mp hrun
  obtain ⟨hone, hentries, hscan⟩ := of_decide_eq_true hcond
  obtain ⟨hw, hfile⟩ := twoBytes_served hs
  refine ⟨s, hs, hw, hfile, fun hsearch => ?_⟩
  obtain ⟨r, s₁, hopen, r', s₂, hdrain, hnil⟩ := hscan
  unfold PrefixSearch at hsearch
  rw [returns_of_eq hopen, hone, hentries] at hsearch
  have hfound := hsearch.2 2 (by decide)
  rw [returns_of_eq hdrain, hnil] at hfound
  cases hfound.2

end MultiAttrHeader

end TDB
