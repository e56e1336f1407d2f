import TDB.MultiAttrIndex

namespace TDB

open BplusTreeHandler BplusTreeScanner Exec

/-! ## Indexes over one `CHARS` attribute -/

structure CharsHeader where
  internalMaxSize : ℕ
  leafMaxSize : ℕ
  attrLength : ℕ
  attrLength_pos : 1 ≤ attrLength

namespace CharsHeader

variable (c : CharsHeader)

/-- The header and comparator of the tree; `compare_string` compares `attr_length` bytes. -/
def header : IndexFileHeader (AttrBytes c.attrLength) :=
  ⟨c.internalMaxSize, c.leafMaxSize, c.attrLength,
    ⟨List.replicate c.attrLength 0, List.length_replicate⟩,
    ⟨fun v1 v2 => Value.compareString v1.bytes v2.bytes⟩⟩

theorem orders : c.header.Orders := attrBytes_orders rfl

/-- `make_key` for one attribute. -/
def makeKey (key : Pointer) (rid : RID) : Key (AttrBytes c.attrLength) :=
  ⟨⟨load key c.attrLength, length_load _ _⟩, rid⟩

/-- `fix_user_key`: the key buffer and `should_inclusive`. -/
def fixUserKey (userKey : Pointer) (keyLen : ℕ) (wantGreater : Bool) : List UInt8 × Bool :=
  if keyLen ≤ c.attrLength then
    (load userKey keyLen ++ List.replicate (c.attrLength - keyLen) 0, false)
  else if userKey c.attrLength = 0 then (load userKey c.attrLength, false)
  else if wantGreater then
    ((load userKey c.attrLength).modify (c.attrLength - 1) (· + 1), true)
  else (load userKey c.attrLength, true)

/-- The check of the two bounds: it reads `attr_length` bytes behind either pointer. -/
def badRange (left right : Option UserKey) : Bool :=
  match left, right with
  | some l, some r =>
    let result := Value.compareString (load l.data c.attrLength) (load r.data c.attrLength)
    decide (result > 0) || (decide (result = 0) && (!l.inclusive || !r.inclusive))
  | _, _ => false

def leftKey (u : UserKey) : Key (AttrBytes c.attrLength) :=
  let fixed := c.fixUserKey u.data u.len true
  if u.inclusive || fixed.2 then c.makeKey (fun i => fixed.1.getD i 0) RID.min
  else c.makeKey (fun i => fixed.1.getD i 0) RID.max

def rightKey (u : UserKey) : Key (AttrBytes c.attrLength) :=
  let fixed := c.fixUserKey u.data u.len false
  if u.inclusive || fixed.2 then c.makeKey (fun i => fixed.1.getD i 0) RID.max
  else c.makeKey (fun i => fixed.1.getD i 0) RID.min

def openScan (sc : BplusTreeScanner (AttrBytes c.attrLength)) (left right : Option UserKey) :
    TreeM (AttrBytes c.attrLength) (RC × BplusTreeScanner (AttrBytes c.attrLength)) := do
  if sc.inited then return (.internal, sc)
  let sc := { sc with inited := true, firstEmitted := false }
  if c.badRange left right then return (.invalidArgument, sc)
  openKeys c.header sc (left.map c.leftKey) (right.map c.rightKey)

def bound (u : UserKey) (wantGreater : Bool) : Bound (AttrBytes c.attrLength) :=
  ⟨⟨load (fun i => (c.fixUserKey u.data u.len wantGreater).1.getD i 0) c.attrLength,
    length_load _ _⟩, u.inclusive || (c.fixUserKey u.data u.len wantGreater).2⟩

theorem leftKey_eq (u : UserKey) :
    c.leftKey u = BplusTreeScanner.leftKey (c.bound u true) := by
  unfold leftKey BplusTreeScanner.leftKey bound
  dsimp only
  split <;> rfl

theorem rightKey_eq (u : UserKey) : c.rightKey u = rightKeyOf (c.bound u false) := by
  unfold rightKey rightKeyOf bound
  dsimp only
  split <;> rfl

end CharsHeader

/-! ## Byte strings of different lengths -/

/-- The bytes, extended with zero bytes to at least `k` of them. -/
def zeroExtended (k : ℕ) (bytes : List UInt8) : List ℕ :=
  (bytes ++ List.replicate (k - bytes.length) 0).map UInt8.toNat

inductive Side where
  | lower | upper
  deriving DecidableEq

/-- The bytes compare to the bound as it asks, both extended with zero bytes. -/
def meets (side : Side) (inclusive : Bool) (value bytes : List UInt8) : Bool :=
  let k := max value.length bytes.length
  match side, inclusive with
  | .lower, true => decide (zeroExtended k value ≤ zeroExtended k bytes)
  | .lower, false => decide (zeroExtended k value < zeroExtended k bytes)
  | .upper, true => decide (zeroExtended k bytes ≤ zeroExtended k value)
  | .upper, false => decide (zeroExtended k bytes < zeroExtended k value)

def CString (value : List UInt8) : Prop :=
  ∃ text k, value = text ++ List.replicate k 0 ∧ (0 : UInt8) ∉ text

/-- Strings of one length decide before what follows them does. -/
theorem append_lt_append_iff : ∀ {a b c d : List ℕ}, a.length = b.length →
    (a ++ c < b ++ d ↔ a < b ∨ a = b ∧ c < d)
  | [], [], c, d, _ => by simp
  | x :: a, y :: b, c, d, hlen => by
    rw [List.cons_append, List.cons_append, List.cons_lt_cons_iff, List.cons_lt_cons_iff,
      append_lt_append_iff (Nat.succ.inj hlen), List.cons.injEq]
    tauto

/-- Behind a string the next one of its length is it with its last byte increased. -/
theorem lt_iff_increased_le {a b : List ℕ} (hlen : a.length = b.length) (x y : ℕ) :
    a ++ [x] < b ++ [y] ↔ a ++ [x + 1] ≤ b ++ [y] := by
  rw [← not_lt, append_lt_append_iff hlen, append_lt_append_iff hlen.symm]
  have hlast : ∀ m n : ℕ, [m] < [n] ↔ m < n := fun m n => by
    rw [List.cons_lt_cons_iff]
    simp
  rw [hlast, hlast]
  rcases lt_trichotomy a b with hlt | rfl | hgt
  · simp [hlt, hlt.not_gt, hlt.ne']
  · simp only [lt_irrefl, true_and, false_or]
    omega
  · simp [hgt, hgt.not_gt, hgt.ne']

theorem modify_concat (front : List UInt8) (last : UInt8) (f : UInt8 → UInt8) :
    (front ++ [last]).modify front.length f = front ++ [f last] := by
  induction front with
  | nil => rfl
  | cons a front ih => exact congrArg (a :: ·) ih

theorem zeroExtended_of_length_le {k : ℕ} {bytes : List UInt8} {n : ℕ} (hlen : bytes.length = n) :
    zeroExtended k bytes = bytes.map UInt8.toNat ++ List.replicate (k - n) 0 := by
  unfold zeroExtended
  rw [List.map_append, List.map_replicate, hlen]
  rfl

namespace CharsHeader

variable (c : CharsHeader) {value : List UInt8}

/-- `fix_user_key` keeps the value up to zero bytes, or cuts off a byte that is not zero. -/
theorem fixUserKey_ofValue (hstring : CString value) (behind : Pointer) (wantGreater : Bool) :
    (∃ fixed, c.fixUserKey (UserKey.ofValue value behind).data value.length wantGreater =
        (fixed, false) ∧ fixed.length = c.attrLength ∧
        zeroExtended (max value.length c.attrLength) value =
          fixed.map UInt8.toNat ++ List.replicate
            (max value.length c.attrLength - c.attrLength) 0) ∨
      ∃ b rest, value = value.take c.attrLength ++ b :: rest ∧ b ≠ 0 ∧
        (value.take c.attrLength).length = c.attrLength ∧
        c.fixUserKey (UserKey.ofValue value behind).data value.length wantGreater =
          (if wantGreater then (value.take c.attrLength).modify (c.attrLength - 1) (· + 1)
            else value.take c.attrLength, true) := by
  unfold fixUserKey
  by_cases hshort : value.length ≤ c.attrLength
  · rw [if_pos hshort, load_ofValue]
    refine .inl ⟨_, rfl, by simp; omega, ?_⟩
    rw [max_eq_right hshort, zeroExtended, Nat.sub_self, List.replicate_zero, List.append_nil]
  · have hlt : c.attrLength < value.length := not_le.mp hshort
    have hload : load (UserKey.ofValue value behind).data c.attrLength =
        value.take c.attrLength := by
      refine List.ext_getElem (by simp; omega) fun i hi hi' => ?_
      rw [length_load] at hi
      have hilt : i < value.length := by omega
      simp [load, UserKey.ofValue, hilt]
    have hcut : (UserKey.ofValue value behind).data c.attrLength = value[c.attrLength] := by
      simp [UserKey.ofValue, hlt]
    have hsplit : value = value.take c.attrLength ++
        value[c.attrLength] :: value.drop (c.attrLength + 1) := by
      rw [← List.drop_eq_getElem_cons hlt, List.take_append_drop]
    have htake : (value.take c.attrLength).length = c.attrLength := by
      rw [List.length_take]
      omega
    rw [if_neg hshort, hload, hcut]
    by_cases hzero : value[c.attrLength] = 0
    · left
      rw [if_pos hzero]
      refine ⟨_, rfl, htake, ?_⟩
      obtain ⟨text, k, rfl, htext⟩ := hstring
      have hbehind : text.length ≤ c.attrLength := by
        by_contra hin
        rw [List.getElem_append_left (not_le.mp hin)] at hzero
        exact htext (hzero ▸ List.getElem_mem _)
      rw [zeroExtended, max_eq_left hlt.le, Nat.sub_self, List.replicate_zero, List.append_nil,
        List.take_append, List.take_of_length_le hbehind, List.take_replicate, List.map_append,
        List.map_append, List.map_replicate, List.map_replicate, List.append_assoc,
        List.length_append, List.length_replicate]
      rw [List.length_append, List.length_replicate] at hlt
      congr 1
      rw [show UInt8.toNat 0 = 0 from rfl, ← List.replicate_add]
      congr 1
      omega
    · rw [if_neg hzero]
      refine .inr ⟨_, _, hsplit, hzero, htake, ?_⟩
      split <;> rfl

theorem compareString_nonpos_iff {s t : List UInt8} (hlen : s.length = t.length) :
    Value.compareString s t ≤ 0 ↔ s.map UInt8.toNat ≤ t.map UInt8.toNat := by
  rw [le_iff_lt_or_eq, le_iff_lt_or_eq, compareString_neg_iff hlen, compareString_eq_zero_iff hlen,
    (List.map_injective_iff.mpr toNat_injective).eq_iff]

def onSide (side : Side) (inclusive : Bool) (fixed bytes : List ℕ) : Bool :=
  match side, inclusive with
  | .lower, true => decide (fixed ≤ bytes)
  | .lower, false => decide (fixed < bytes)
  | .upper, true => decide (bytes ≤ fixed)
  | .upper, false => decide (bytes < fixed)

theorem meets_eq (side : Side) (inclusive : Bool) (value bytes : List UInt8) :
    meets side inclusive value bytes = onSide side inclusive
      (zeroExtended (max value.length bytes.length) value)
      (zeroExtended (max value.length bytes.length) bytes) := by
  cases side <;> cases inclusive <;> rfl

theorem onSide_append (side : Side) (inclusive : Bool) {a b : List ℕ} (hlen : a.length = b.length)
    (z : List ℕ) : onSide side inclusive (a ++ z) (b ++ z) = onSide side inclusive a b := by
  have hlt : ∀ {a b : List ℕ}, a.length = b.length → (a ++ z < b ++ z ↔ a < b) := by
    intro a b hlen
    rw [append_lt_append_iff hlen]
    simp
  have hle : ∀ {a b : List ℕ}, a.length = b.length → (a ++ z ≤ b ++ z ↔ a ≤ b) := by
    intro a b hlen
    rw [← not_lt, hlt hlen.symm, not_lt]
  cases side <;> cases inclusive
  · exact decide_eq_decide.mpr (hlt hlen)
  · exact decide_eq_decide.mpr (hle hlen)
  · exact decide_eq_decide.mpr (hlt hlen.symm)
  · exact decide_eq_decide.mpr (hle hlen.symm)

/-- What a longer string leaves of the order: it stands between the strings up to its front and
those behind it. -/
theorem onSide_longer (side : Side) (inclusive : Bool) {a b : List ℕ} (hlen : a.length = b.length)
    {x : ℕ} (hx : 0 < x) (rest zeros : List ℕ) :
    onSide side inclusive (a ++ x :: rest) (b ++ 0 :: zeros) =
      match side with
      | .lower => decide (a < b)
      | .upper => decide (b ≤ a) := by
  have hbelow : b ++ 0 :: zeros < a ++ x :: rest ↔ b ≤ a := by
    rw [append_lt_append_iff hlen.symm, List.cons_lt_cons_iff, le_iff_lt_or_eq]
    simp [hx]
  have habove : a ++ x :: rest < b ++ 0 :: zeros ↔ a < b := by
    rw [append_lt_append_iff hlen, List.cons_lt_cons_iff]
    simp [hx.ne']
  cases side <;> cases inclusive
  · exact decide_eq_decide.mpr habove
  · exact decide_eq_decide.mpr (by rw [← not_lt, hbelow, not_le])
  · exact decide_eq_decide.mpr hbelow
  · exact decide_eq_decide.mpr (by rw [← not_lt, habove, not_lt])

def leftOf {α : Type} (side : Side) (u : α) : Option α :=
  match side with
  | .lower => some u
  | .upper => none

def rightOf {α : Type} (side : Side) (u : α) : Option α :=
  match side with
  | .lower => none
  | .upper => some u

theorem inRange_eq (side : Side) (b : Bound (AttrBytes c.attrLength))
    (attr : AttrBytes c.attrLength) : inRange c.header (leftOf side b) (rightOf side b) attr =
      onSide side b.inclusive (b.userKey.bytes.map UInt8.toNat) (attr.bytes.map UInt8.toNat) := by
  have hlen : b.userKey.bytes.length = attr.bytes.length :=
    b.userKey.length_eq.trans attr.length_eq.symm
  obtain ⟨userKey, inclusive⟩ := b
  cases side <;> cases inclusive
  · simp [inRange, leftOf, rightOf, onSide, header, compareString_neg_iff hlen]
  · simp [inRange, leftOf, rightOf, onSide, header, compareString_nonpos_iff hlen]
  · simp [inRange, leftOf, rightOf, onSide, header, compareString_neg_iff hlen.symm]
  · simp [inRange, leftOf, rightOf, onSide, header, compareString_nonpos_iff hlen.symm]

/-- Strings of the attribute's length compare to the bound of the tree as they compare to the
value, unless the byte to increase is the greatest one. -/
theorem onSide_bound (hstring : CString value)
    (hbyte : value[c.attrLength - 1]? ≠ some 255) (behind : Pointer) (side : Side)
    (inclusive : Bool) (attr : AttrBytes c.attrLength) :
    onSide side
        (c.bound { UserKey.ofValue value behind with inclusive := inclusive }
          (decide (side = .lower))).inclusive
        ((c.bound { UserKey.ofValue value behind with inclusive := inclusive }
          (decide (side = .lower))).userKey.bytes.map UInt8.toNat)
        (attr.bytes.map UInt8.toNat) =
      meets side inclusive value attr.bytes := by
  have hlen := attr.length_eq
  unfold bound
  dsimp only
  -- a value that fits is padded; a longer one is cut, and a cut lower bound is moved up by one
  rcases c.fixUserKey_ofValue hstring behind (decide (side = .lower)) with
    ⟨fixed, hfixed, hlength, hextended⟩ | ⟨b, rest, hsplit, hb, htake, hfixed⟩
  · have hb : (UserKey.ofValue value behind).len = value.length := rfl
    rw [hb, hfixed]
    dsimp only
    rw [load_getD_self hlength, Bool.or_false, meets_eq, hlen, hextended,
      zeroExtended_of_length_le hlen, onSide_append]
    simp [hlength, hlen]
  · have hlong : c.attrLength < value.length := by
      rw [hsplit, List.length_append, htake, List.length_cons]
      omega
    have hvalue : zeroExtended (max value.length attr.bytes.length) value =
        (value.take c.attrLength).map UInt8.toNat ++ b.toNat :: rest.map UInt8.toNat := by
      rw [hlen, max_eq_left hlong.le, zeroExtended, Nat.sub_self, List.replicate_zero,
        List.append_nil, ← List.map_cons, ← List.map_append, ← hsplit]
    have hbytes : zeroExtended (max value.length attr.bytes.length) attr.bytes =
        attr.bytes.map UInt8.toNat ++
          0 :: List.replicate (value.length - c.attrLength - 1) 0 := by
      rw [hlen, max_eq_left hlong.le, zeroExtended_of_length_le hlen, ← List.replicate_succ]
      congr 2
      omega
    have hpos : 0 < b.toNat := Nat.pos_of_ne_zero fun h => hb (UInt8.toNat_inj.mp h)
    have hfront : ((value.take c.attrLength).map UInt8.toNat).length =
        (attr.bytes.map UInt8.toNat).length := by
      rw [List.length_map, List.length_map, htake, hlen]
    have hu : (UserKey.ofValue value behind).len = value.length := rfl
    rw [meets_eq, hvalue, hbytes, onSide_longer side inclusive hfront hpos, hu, hfixed]
    dsimp only
    rw [Bool.or_true]
    cases side with
    | upper =>
      rw [if_neg (by decide), load_getD_self htake]
      rfl
    | lower =>
      rw [if_pos (by decide)]
      have hpos := c.attrLength_pos
      obtain ⟨p, x, hp⟩ := (List.eq_nil_or_concat' (value.take c.attrLength)).resolve_left
        (List.ne_nil_of_length_pos (by omega))
      obtain ⟨q, y, hq⟩ := (List.eq_nil_or_concat' attr.bytes).resolve_left
        (List.ne_nil_of_length_pos (by omega))
      rw [hp, List.length_append, List.length_singleton] at htake
      rw [hq, List.length_append, List.length_singleton] at hlen
      -- the last byte kept is not 255, so adding one to it does not wrap
      have hlast : value[c.attrLength - 1]? = some x := by
        have hget : (value.take c.attrLength)[p.length]? = some x := by
          rw [hp, List.getElem?_append_right le_rfl, Nat.sub_self]
          rfl
        rw [List.getElem?_take_of_lt (by omega)] at hget
        rw [← hget]
        congr 1
        omega
      have hx : (x + 1).toNat = x.toNat + 1 := by
        have hne : x.toNat ≠ 255 := fun h => hbyte (hlast.trans (congrArg some
          (UInt8.toNat_inj.mp h)))
        have hlt := x.toNat_lt
        rw [UInt8.toNat_add, show UInt8.toNat 1 = 1 from rfl]
        exact Nat.mod_eq_of_lt (by omega)
      have hmodify : (value.take c.attrLength).modify (c.attrLength - 1) (· + 1) =
          p ++ [x + 1] := by
        rw [hp, show c.attrLength - 1 = p.length by omega, modify_concat]
      rw [hmodify, load_getD_self (by simpa using htake), hp, hq]
      simp only [onSide, List.map_append, List.map_singleton, hx]
      exact decide_eq_decide.mpr (lt_iff_increased_le (by simp; omega) _ _).symm

/-- A scan with one bound returns the entries that compare to it as it asks.  An excluded lower
bound is a key with the greatest `RID`, so no entry may have that one. -/
theorem returns_scan_meets {s : BplusTreeHandler (AttrBytes c.attrLength)}
    (hw : WellFormed c.header s True) (hfile : InFile s) (hroot : s.rootPage ≠ invalidPageNum)
    (hrids : ∀ x ∈ entries s, 1 ≤ x.1.rid.pageNum.val)
    (hstring : CString value) (hbyte : value[c.attrLength - 1]? ≠ some 255) (behind : Pointer)
    (side : Side) (inclusive : Bool)
    (hmax : side = .lower → inclusive = false → ∀ x ∈ entries s, x.1.rid ≠ RID.max) :
    Returns (c.openScan new
        (leftOf side { UserKey.ofValue value behind with inclusive := inclusive })
        (rightOf side { UserKey.ofValue value behind with inclusive := inclusive })) s fun r s₁ =>
      r.1 = .success ∧ ∀ fuel > (entries s).length, Returns (drain c.header fuel r.2) s₁ fun r _ =>
        r.1 = .recordEof ∧ r.2.1 =
          ((entries s).filter fun x => meets side inclusive value x.1.attr.bytes).map Prod.snd := by
  obtain ⟨u, hu⟩ : ∃ u, u = { UserKey.ofValue value behind with inclusive := inclusive } :=
    ⟨_, rfl⟩
  obtain ⟨b, hb⟩ : ∃ b, b = c.bound u (decide (side = .lower)) := ⟨_, rfl⟩
  have hkeys : (leftOf side u).map c.leftKey = (leftOf side b).map BplusTreeScanner.leftKey ∧
      (rightOf side u).map c.rightKey = (rightOf side b).map rightKeyOf := by
    rw [hb]
    cases side with
    | lower => exact ⟨congrArg some (c.leftKey_eq u), rfl⟩
    | upper => exact ⟨rfl, congrArg some (c.rightKey_eq u)⟩
  have hrange : c.badRange (leftOf side u) (rightOf side u) = false := by
    cases side <;> rfl
  have hfilter : ((entries s).filter fun x => meets side inclusive value x.1.attr.bytes) =
      (entries s).filter (betweenKeys ((leftOf side b).map BplusTreeScanner.leftKey)
        ((rightOf side b).map rightKeyOf)) := by
    refine List.filter_congr fun x hx => ?_
    have hlower : ∀ l ∈ leftOf side b, l.inclusive = false → x.1.rid ≠ RID.max := by
      intro l hl hexclusive
      cases side with
      | upper => cases hl
      | lower =>
        obtain rfl := Option.some.inj hl
        rw [hb, bound, Bool.or_eq_false_iff, hu] at hexclusive
        exact hmax rfl hexclusive.1 x hx
    rw [betweenKeys_eq_inRange c.orders (fun _ _ _ => hrids x hx) hlower, c.inRange_eq, hb, hu,
      c.onSide_bound hstring hbyte]
  obtain ⟨row, hr, hrow⟩ := hw.readable c.orders hroot hfile
  unfold openScan
  simp only [new, Bool.false_eq_true, ↓reduceIte, ← hu, hrange, hkeys.1, hkeys.2]
  rw [hfilter, ← hrow]
  exact hr.returns_scanKeys c.orders _ _

def twoChars : CharsHeader := ⟨6, 4, 2, Nat.le_succ 1⟩

/-- The index over two bytes after some calls. -/
theorem twoChars_served {us : List (Update (AttrBytes twoChars.attrLength))}
    {s : BplusTreeHandler (AttrBytes twoChars.attrLength)}
    (hs : runServed twoChars.header us created = some s) :
    WellFormed twoChars.header s True ∧ (s.rootPage ≠ invalidPageNum → InFile s) := by
  have hf : Fanout twoChars.header anyKeys 3 2 := fanout_of_sizes (by decide) (by decide)
  obtain ⟨es, hi⟩ := index_of_served twoChars.orders hf rfl (reflTransGen_runServed hs)
  exact ⟨hi.wellFormed twoChars.orders rfl hf.sizes.pos, hi.inFile⟩

/-- The bound "ABC" over the stored strings "AB" and "AC". -/
theorem scan_meets_longer : ∃ s,
    runServed twoChars.header [.insertEntry ⟨[65, 66], rfl⟩ recordOne,
      .insertEntry ⟨[65, 67], rfl⟩ recordOne] created = some s ∧
    Returns (twoChars.openScan new
        (leftOf .lower { UserKey.ofValue [65, 66, 67] (fun _ => 0) with inclusive := true })
        (rightOf .lower { UserKey.ofValue [65, 66, 67] (fun _ => 0) with inclusive := true })) s
      fun r s₁ => r.1 = .success ∧ ∀ fuel > (entries s).length,
        Returns (drain twoChars.header fuel r.2) s₁ fun r _ => r.1 = .recordEof ∧ r.2.1 =
          ((entries s).filter fun x => meets .lower true [65, 66, 67] x.1.attr.bytes).map
            Prod.snd := by
  have hrun : (runServed twoChars.header [.insertEntry ⟨[65, 66], rfl⟩ recordOne,
      .insertEntry ⟨[65, 67], rfl⟩ recordOne] created).any (fun s => decide
        (s.rootPage ≠ invalidPageNum ∧
          ∀ x ∈ entries s, 1 ≤ x.1.rid.pageNum.val)) = true := by
    decide +kernel
  obtain ⟨s, hs, hcond⟩ := (Option.any_eq_true _ _).mp hrun
  obtain ⟨hroot, hrids⟩ := of_decide_eq_true hcond
  obtain ⟨hw, hfile⟩ := twoChars_served hs
  exact ⟨s, hs, twoChars.returns_scan_meets hw (hfile hroot) hroot hrids
    ⟨[65, 66, 67], 0, rfl, by decide⟩ (by decide) _ .lower true (by simp)⟩

/-- The one stored `RID` is the one an excluded lower bound is made with: the scan returns the
entry that holds just the bound. -/
theorem not_scan_meets_ridMax : ∃ s,
    runServed twoChars.header [.insertEntry ⟨[65, 66], rfl⟩ RID.max] created = some s ∧
    WellFormed twoChars.header s True ∧ InFile s ∧ s.rootPage ≠ invalidPageNum ∧
    (∀ x ∈ entries s, 1 ≤ x.1.rid.pageNum.val) ∧
    ((entries s).filter fun x => meets .lower false [65, 66] x.1.attr.bytes) = [] ∧
    Returns (twoChars.openScan new
        (leftOf .lower { UserKey.ofValue [65, 66] (fun _ => 0) with inclusive := false })
        (rightOf .lower { UserKey.ofValue [65, 66] (fun _ => 0) with inclusive := false })) s
      fun r s₁ => Returns (drain twoChars.header 3 r.2) s₁ fun r _ =>
        r.1 = .recordEof ∧ r.2.1 = [RID.max] := by
  have hrun : (runServed twoChars.header [.insertEntry ⟨[65, 66], rfl⟩ RID.max] created).any
      (fun s => decide (s.rootPage ≠ invalidPageNum ∧
        (∀ x ∈ entries s, 1 ≤ x.1.rid.pageNum.val) ∧
        ((entries s).filter fun x => meets .lower false [65, 66] x.1.attr.bytes) = [] ∧
        Returns (twoChars.openScan new
          (leftOf .lower { UserKey.ofValue [65, 66] (fun _ => 0) with inclusive := false })
          (rightOf .lower { UserKey.ofValue [65, 66] (fun _ => 0) with inclusive := false })) s
        fun r s₁ => Returns (drain twoChars.header 3 r.2) s₁ fun r _ =>
          r.1 = .recordEof ∧ r.2.1 = [RID.max])) = true := by
    decide +kernel
  obtain ⟨s, hs, hcond⟩ := (Option.any_eq_true _ _).mp hrun
  obtain ⟨hroot, hrids, hempty, hscan⟩ := of_decide_eq_true hcond
  obtain ⟨hw, hfile⟩ := twoChars_served hs
  exact ⟨s, hs, hw, hfile hroot, hroot, hrids, hempty, hscan⟩

end CharsHeader

end TDB
