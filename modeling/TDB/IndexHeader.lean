import Mathlib.Data.List.GetD
import Mathlib.Logic.Function.Basic
import TDB.CreateIndex
import TDB.IndexNode
import TDB.KeyComparator

namespace TDB

open Recorder (FieldMeta TrxType)
open Schema (CreateIndexStmt CreateIndexSqlNode Table)

/-! ## The words of the header page -/

def maxFieldAmount : ℕ := 20

/-- The 32-bit words of the data of a page, and of what lies behind it. -/
abbrev Words := ℕ → Int32

def attrTypeCode : AttrType → Int32
  | .undefined => 0
  | .chars => 1
  | .ints => 2
  | .dates => 3
  | .nulls => 4
  | .floats => 5
  | .booleans => 6
  | .texts => 7

/-- An `int` that is read as an `AttrType`; other values have no comparison, like `UNDEFINED`. -/
def attrTypeOfCode (code : Int32) : AttrType :=
  if code = 1 then .chars else if code = 2 then .ints else if code = 3 then .dates
  else if code = 4 then .nulls else if code = 5 then .floats else if code = 6 then .booleans
  else if code = 7 then .texts else .undefined

theorem attrTypeOfCode_attrTypeCode (type : AttrType) : attrTypeOfCode
    (attrTypeCode type) = type := by
  cases type <;> rfl

def store (page : Words) (s : ℕ × Int32) : Words := Function.update page s.1 s.2

def arrayStores (base : ℕ) (values : List Int32) : List (ℕ × Int32) :=
  values.mapIdx fun i v => (base + i, v)

theorem foldl_store_of_forall_ne {stores : List (ℕ × Int32)} {page : Words} {a : ℕ}
    (h : ∀ s ∈ stores, s.1 ≠ a) : stores.foldl store page a = page a := by
  induction stores generalizing page with
  | nil => rfl
  | cons s stores ih =>
    rw [List.foldl_cons, ih fun s' hs' => h s' (List.mem_cons_of_mem _ hs')]
    exact Function.update_of_ne (h s List.mem_cons_self).symm _ _

theorem foldl_store_congr {stores : List (ℕ × Int32)} {page page' : Words} {a : ℕ}
    (h : page a = page' a) : stores.foldl store page a = stores.foldl store page' a := by
  induction stores generalizing page page' with
  | nil => exact h
  | cons s stores ih =>
    refine ih ?_
    unfold store
    by_cases ha : a = s.1
    · rw [ha, Function.update_self, Function.update_self]
    · rw [Function.update_of_ne ha, Function.update_of_ne ha, h]

theorem foldl_arrayStores_of_outside {base a : ℕ} {values : List Int32} {page : Words}
    (h : a < base ∨ base + values.length ≤ a) :
    (arrayStores base values).foldl store page a = page a := by
  refine foldl_store_of_forall_ne fun s hs => ?_
  obtain ⟨i, hi, rfl⟩ := List.mem_mapIdx.mp hs
  dsimp only
  omega

theorem foldl_arrayStores_at {base i : ℕ} {values : List Int32} {page : Words}
    (hi : i < values.length) :
    (arrayStores base values).foldl store page (base + i) = values[i] := by
  induction values using List.reverseRecOn with
  | nil => exact absurd hi (Nat.not_lt_zero i)
  | append_singleton values v ih =>
    rw [arrayStores, List.mapIdx_concat, List.foldl_append, List.foldl_cons, List.foldl_nil]
    rw [List.length_append, List.length_singleton] at hi
    rcases Nat.lt_succ_iff_lt_or_eq.mp hi with hlt | rfl
    · rw [List.getElem_append_left hlt, ← ih hlt]
      exact Function.update_of_ne (by dsimp only; omega) _ _
    · rw [List.getElem_concat_length rfl]
      exact Function.update_self _ _ _

/-! ## `BplusTreeHandler::create` and `open` -/

namespace HeaderPage

/-- The places of the fields of `IndexFileHeader`. -/
def rootPage : ℕ := 0
def internalMaxSize : ℕ := 1
def leafMaxSize : ℕ := 2
def attrAmount : ℕ := 3
def multiAttrLengths : ℕ := 4
def multiAttrTypes : ℕ := multiAttrLengths + maxFieldAmount
def attrsLength : ℕ := multiAttrTypes + maxFieldAmount
def keyLength : ℕ := attrsLength + 1
def attrsType : ℕ := keyLength + 1
def isUnique : ℕ := attrsType + 1
def words : ℕ := isUnique + 1

/-- What `create` and `open` leave in a `BplusTreeHandler`: the copy of the header, and the type
and the length that the comparator is given. -/
structure Handler where
  fileHeader : Words
  attrType : AttrType
  attrLength : Int32

def Handler.compare (handler : Handler) (v1 v2 : Pointer) : ℤ :=
  keyCompare handler.attrType handler.attrLength.toNatClampNeg v1 v2

/-- `memcpy` of the header out of its page. -/
def copyHeader (page : Words) : Words := fun a => if a < words then page a else 0

def totalAttrLength (lengths : List Int32) : Int32 := lengths.foldl (· + ·) 0

/-- `internal_max_size` and `leaf_max_size`, computed unless the caller gives them. -/
def usedInternalMaxSize (given : Int32) (lengths : List Int32) : Int32 :=
  if given < 0 then
    Int32.ofNat (calcInternalPageCapacity (totalAttrLength lengths).toNatClampNeg)
  else given

def usedLeafMaxSize (given : Int32) (lengths : List Int32) : Int32 :=
  if given < 0 then Int32.ofNat (calcLeafPageCapacity (totalAttrLength lengths).toNatClampNeg)
  else given

def createdType (types : List AttrType) (lengths : List Int32) : AttrType :=
  if 1 < lengths.length then .chars else types.headD .undefined

/-- The assignments of `create` to the header page, in their order. -/
def createStores (unique : Bool) (types : List AttrType) (lengths : List Int32)
    (givenInternal givenLeaf : Int32) : List (ℕ × Int32) :=
  [(isUnique, if unique then 1 else 0), (attrAmount, Int32.ofNat lengths.length),
    (attrsLength, totalAttrLength lengths)] ++
  arrayStores multiAttrLengths lengths ++
  [(keyLength, totalAttrLength lengths + Int32.ofNat sizeofRID)] ++
  arrayStores multiAttrTypes (types.map attrTypeCode) ++
  [(internalMaxSize, usedInternalMaxSize givenInternal lengths),
    (leafMaxSize, usedLeafMaxSize givenLeaf lengths), (rootPage, -1),
    (attrsType, attrTypeCode (createdType types lengths))]

/-- `BplusTreeHandler::create`, from the page that `allocate_page` has zeroed. -/
def create (unique : Bool) (types : List AttrType) (lengths : List Int32)
    (givenInternal givenLeaf : Int32) : Words × Handler :=
  let page := (createStores unique types lengths givenInternal givenLeaf).foldl store fun _ => 0
  (page, ⟨copyHeader page, createdType types lengths, totalAttrLength lengths⟩)

def slotsLength (header : Words) : Int32 :=
  ((List.range maxFieldAmount).map fun i => header (multiAttrLengths + i)).foldl (· + ·) 0

/-- `BplusTreeHandler::open`, from the header page. -/
def openPage (page : Words) : Handler :=
  let header := copyHeader page
  if header attrAmount > 1 then ⟨header, .chars, slotsLength header⟩
  else ⟨header, attrTypeOfCode (header multiAttrTypes), slotsLength header⟩

/-- The loops of `create` stay inside `multi_attr_lengths` and `multi_attr_types`. -/
def WritesInside (types : List AttrType) (lengths : List Int32) : Prop :=
  (∀ s ∈ arrayStores multiAttrLengths lengths,
    multiAttrLengths ≤ s.1 ∧ s.1 < multiAttrLengths + maxFieldAmount) ∧
  ∀ s ∈ arrayStores multiAttrTypes (types.map attrTypeCode),
    multiAttrTypes ≤ s.1 ∧ s.1 < multiAttrTypes + maxFieldAmount

/-- What a handler has after `open` is what `create` used for the file. -/
structure OpensAlike (unique : Bool) (types : List AttrType) (lengths : List Int32)
    (givenInternal givenLeaf : Int32) (created opened : Handler) : Prop where
  comparator : opened.attrType = created.attrType ∧ opened.attrLength = created.attrLength
  compare : ∀ v1 v2, opened.compare v1 v2 = created.compare v1 v2
  amount : opened.fileHeader attrAmount = Int32.ofNat lengths.length
  attrLengths :
    (List.range lengths.length).map (fun i => opened.fileHeader (multiAttrLengths + i)) = lengths
  total : opened.fileHeader attrsLength = totalAttrLength lengths
  internalMaxSize : opened.fileHeader internalMaxSize = usedInternalMaxSize givenInternal lengths
  leafMaxSize : opened.fileHeader leafMaxSize = usedLeafMaxSize givenLeaf lengths
  unique : opened.fileHeader isUnique = if unique then 1 else 0

/-! ## Reading the header back -/

section stores

variable {unique : Bool} {types : List AttrType} {lengths : List Int32}
  {givenInternal givenLeaf : Int32}

def createdPage (unique : Bool) (types : List AttrType) (lengths : List Int32)
    (givenInternal givenLeaf : Int32) : Words :=
  (create unique types lengths givenInternal givenLeaf).1

theorem writesInside_iff : WritesInside types lengths ↔
    types.length ≤ maxFieldAmount ∧ lengths.length ≤ maxFieldAmount := by
  have harray : ∀ (base : ℕ) (values : List Int32),
      (∀ s ∈ arrayStores base values, base ≤ s.1 ∧ s.1 < base + maxFieldAmount) ↔
        values.length ≤ maxFieldAmount := by
    intro base values
    constructor
    · intro h
      by_contra hlong
      rw [not_le] at hlong
      have hmem : (base + maxFieldAmount, values[maxFieldAmount]) ∈ arrayStores base values :=
        List.mem_mapIdx.mpr ⟨maxFieldAmount, hlong, rfl⟩
      exact absurd (h _ hmem).2 (lt_irrefl _)
    · intro h s hs
      obtain ⟨i, hi, rfl⟩ := List.mem_mapIdx.mp hs
      dsimp only
      omega
  unfold WritesInside
  rw [harray, harray, List.length_map]
  exact and_comm

/-- Outside the two arrays the page holds what the assignments to the single fields gave. -/
theorem createdPage_of_outside {a : ℕ} (htypes : types.length ≤ maxFieldAmount)
    (hlengths : lengths.length ≤ maxFieldAmount) (ha : a < multiAttrLengths ∨ attrsLength ≤ a) :
    createdPage unique types lengths givenInternal givenLeaf a =
      [(isUnique, if unique then 1 else 0), (attrAmount, Int32.ofNat lengths.length),
        (attrsLength, totalAttrLength lengths),
        (keyLength, totalAttrLength lengths + Int32.ofNat sizeofRID),
        (internalMaxSize, usedInternalMaxSize givenInternal lengths),
        (leafMaxSize, usedLeafMaxSize givenLeaf lengths), (rootPage, -1),
        (attrsType, attrTypeCode (createdType types lengths))].foldl store (fun _ => 0) a := by
  have hlengthsOut : ∀ page, (arrayStores multiAttrLengths lengths).foldl store page
    a = page a := by
    intro page
    refine foldl_arrayStores_of_outside ?_
    simp only [attrsLength, multiAttrTypes, multiAttrLengths] at ha ⊢
    omega
  have htypesOut : ∀ page,
      (arrayStores multiAttrTypes (types.map attrTypeCode)).foldl store page a = page a := by
    intro page
    refine foldl_arrayStores_of_outside ?_
    rw [List.length_map]
    simp only [attrsLength, multiAttrTypes, multiAttrLengths] at ha ⊢
    omega
  unfold createdPage create createStores
  simp only [List.foldl_append]
  rw [foldl_store_congr (htypesOut _), ← List.foldl_append, foldl_store_congr (hlengthsOut _)]
  rfl

theorem createdPage_length {i : ℕ} (hi : i < maxFieldAmount) :
    createdPage unique types lengths givenInternal givenLeaf (multiAttrLengths + i) =
      lengths.getD i 0 := by
  have hlast : ∀ s ∈ [(internalMaxSize, usedInternalMaxSize givenInternal lengths),
      (leafMaxSize, usedLeafMaxSize givenLeaf lengths), (rootPage, -1),
      (attrsType, attrTypeCode (createdType types lengths))], s.1 ≠ multiAttrLengths + i := by
    simp only [List.forall_mem_cons, List.not_mem_nil, false_imp_iff, implies_true, and_true,
      internalMaxSize, leafMaxSize, rootPage, attrsType, keyLength, attrsLength, multiAttrTypes,
      multiAttrLengths, maxFieldAmount] at hi ⊢
    omega
  have hkey : ∀ s ∈ [(keyLength, totalAttrLength lengths + Int32.ofNat sizeofRID)],
      s.1 ≠ multiAttrLengths + i := by
    simp only [List.forall_mem_cons, List.not_mem_nil, false_imp_iff, implies_true, and_true,
      keyLength, attrsLength, multiAttrTypes, multiAttrLengths, maxFieldAmount] at hi ⊢
    omega
  have hfirst : ∀ s ∈ [(isUnique, if unique then 1 else 0),
      (attrAmount, Int32.ofNat lengths.length), (attrsLength, totalAttrLength lengths)],
      s.1 ≠ multiAttrLengths + i := by
    simp only [List.forall_mem_cons, List.not_mem_nil, false_imp_iff, implies_true, and_true,
      isUnique, attrsType, keyLength, attrAmount, attrsLength, multiAttrTypes, multiAttrLengths,
      maxFieldAmount] at hi ⊢
    omega
  have htypesOut : multiAttrLengths + i < multiAttrTypes := Nat.add_lt_add_left hi _
  unfold createdPage create createStores
  simp only [List.foldl_append]
  rw [foldl_store_of_forall_ne hlast, foldl_arrayStores_of_outside (.inl htypesOut),
    foldl_store_of_forall_ne hkey]
  by_cases hin : i < lengths.length
  · rw [foldl_arrayStores_at hin, List.getD_eq_getElem _ _ hin]
  · rw [foldl_arrayStores_of_outside (.inr (Nat.add_le_add_left (not_lt.mp hin) _)),
      foldl_store_of_forall_ne hfirst, List.getD_eq_default _ _ (not_lt.mp hin)]

theorem createdPage_type {type : AttrType} : createdPage unique (type :: types) lengths
    givenInternal givenLeaf multiAttrTypes = attrTypeCode type := by
  have hlast : ∀ s ∈ [(internalMaxSize, usedInternalMaxSize givenInternal lengths),
      (leafMaxSize, usedLeafMaxSize givenLeaf lengths), (rootPage, -1),
      (attrsType, attrTypeCode (createdType (type :: types) lengths))], s.1 ≠ multiAttrTypes := by
    simp only [List.forall_mem_cons, List.not_mem_nil, false_imp_iff, implies_true, and_true,
      internalMaxSize, leafMaxSize, rootPage, attrsType, keyLength, attrsLength, multiAttrTypes,
      multiAttrLengths, maxFieldAmount]
    decide
  unfold createdPage create createStores
  simp only [List.foldl_append]
  rw [foldl_store_of_forall_ne hlast]
  have hfirst : 0 < ((type :: types).map attrTypeCode).length := by
    rw [List.length_map]
    exact Nat.succ_pos _
  exact foldl_arrayStores_at hfirst

theorem copyHeader_of_lt {page : Words} {a : ℕ} (h : a < words) : copyHeader page a = page a :=
  if_pos h

/-- The slots behind the last length are zero, so that the total comes out again. -/
theorem slotsLength_createdPage (hlengths : lengths.length ≤ maxFieldAmount) :
    slotsLength (copyHeader (createdPage unique types lengths givenInternal givenLeaf)) =
      totalAttrLength lengths := by
  have hslots : (List.range maxFieldAmount).map (fun i => copyHeader
      (createdPage unique types lengths givenInternal givenLeaf) (multiAttrLengths + i)) =
      lengths ++ List.replicate (maxFieldAmount - lengths.length) 0 := by
    refine List.ext_getElem ?_ fun i hi _ => ?_
    · simp only [List.length_map, List.length_range, List.length_append, List.length_replicate]
      omega
    · rw [List.length_map, List.length_range] at hi
      rw [List.getElem_map, List.getElem_range, copyHeader_of_lt, createdPage_length hi]
      · rw [List.getElem_append]
        split
        · next hin => exact List.getD_eq_getElem _ _ hin
        · next hout => rw [List.getElem_replicate, List.getD_eq_default _ _ (not_lt.mp hout)]
      · simp only [words, isUnique, attrsType, keyLength, attrsLength, multiAttrTypes,
          multiAttrLengths, maxFieldAmount] at hi ⊢
        omega
  have hzeros : ∀ (n : ℕ) (total : Int32), (List.replicate n 0).foldl (· + ·) total = total := by
    intro n
    induction n with
    | zero => exact fun total => rfl
    | succ n ih => exact fun total => by rw [List.replicate_succ, List.foldl_cons, ih,
      Int32.add_zero]
  rw [slotsLength, hslots, List.foldl_append, hzeros]
  rfl

theorem openPage_createdPage (hne : types ≠ []) (hsame : types.length = lengths.length)
    (hlengths : lengths.length ≤ maxFieldAmount) :
    openPage (createdPage unique types lengths givenInternal givenLeaf) =
      (create unique types lengths givenInternal givenLeaf).2 := by
  have hamount : ∀ n ≤ 20, (Int32.ofNat n > 1 ↔ 1 < n) := by decide
  obtain ⟨type, types, rfl⟩ := List.exists_cons_of_ne_nil hne
  have htype : createdPage unique (type :: types) lengths givenInternal givenLeaf multiAttrTypes =
      attrTypeCode type := createdPage_type
  have hcount : createdPage unique (type :: types) lengths givenInternal givenLeaf attrAmount =
      Int32.ofNat lengths.length :=
    createdPage_of_outside (hsame.trans_le hlengths) hlengths (.inl (by decide))
  unfold openPage
  dsimp only
  rw [slotsLength_createdPage hlengths, copyHeader_of_lt (by decide), copyHeader_of_lt (by decide),
    hcount, htype, attrTypeOfCode_attrTypeCode]
  simp only [hamount _ hlengths]
  unfold create createdType
  dsimp only
  split <;> rfl

/-- With at most `MAX_FIELD_AMOUNT` fields a new index is opened as it was created. -/
theorem opensAlike (hne : types ≠ []) (hsame : types.length = lengths.length)
    (hlengths : lengths.length ≤ maxFieldAmount) :
    OpensAlike unique types lengths givenInternal givenLeaf
      (create unique types lengths givenInternal givenLeaf).2
      (openPage (create unique types lengths givenInternal givenLeaf).1) := by
  have hopened : openPage (create unique types lengths givenInternal givenLeaf).1 =
      (create unique types lengths givenInternal givenLeaf).2 :=
    openPage_createdPage hne hsame hlengths
  have hfield : ∀ a, a < multiAttrLengths ∨ attrsLength ≤ a ∧ a < words →
      (create unique types lengths givenInternal givenLeaf).2.fileHeader a = _ := fun a ha =>
    (copyHeader_of_lt (by
      simp only [words, isUnique, attrsType, keyLength, attrsLength, multiAttrTypes,
        multiAttrLengths, maxFieldAmount] at ha ⊢
      omega)).trans (createdPage_of_outside (hsame.trans_le hlengths) hlengths
        (ha.imp_right And.left))
  rw [hopened]
  refine ⟨⟨rfl, rfl⟩, fun v1 v2 => rfl, hfield _ (.inl (by decide)), ?_,
    hfield _ (.inr (by decide)), hfield _ (.inl (by decide)), hfield _ (.inl (by decide)),
    hfield _ (.inr (by decide))⟩
  refine List.ext_getElem (by rw [List.length_map, List.length_range]) fun i _ hi => ?_
  have hslot : createdPage unique types lengths givenInternal givenLeaf (multiAttrLengths + i) =
      lengths.getD i 0 := createdPage_length (hi.trans_le hlengths)
  rw [List.getElem_map, List.getElem_range, ← List.getD_eq_getElem _ 0 hi, ← hslot]
  refine copyHeader_of_lt ?_
  simp only [words, isUnique, attrsType, keyLength, attrsLength, multiAttrTypes, multiAttrLengths,
    maxFieldAmount] at hlengths ⊢
  omega

end stores

/-! ## The fields of `CREATE INDEX` -/

/-- The types and the lengths that `BplusTreeIndex::create` takes from the fields. -/
def fieldTypes (fields : List FieldMeta) : List AttrType := fields.map FieldMeta.type

def fieldLengths (fields : List FieldMeta) : List Int32 :=
  fields.map fun field => Int32.ofNat field.len

def createIndex (unique : Bool) (fields : List FieldMeta) : Words × Handler :=
  create unique (fieldTypes fields) (fieldLengths fields) (-1) (-1)

/-- The header is written inside its arrays, and `open` of the page gives what `create` used. -/
def KeepsHeader (stmt : CreateIndexStmt) : Prop :=
  WritesInside (fieldTypes stmt.multiFieldMetas) (fieldLengths stmt.multiFieldMetas) ∧
  OpensAlike stmt.isUnique (fieldTypes stmt.multiFieldMetas) (fieldLengths stmt.multiFieldMetas)
    (-1) (-1) (createIndex stmt.isUnique stmt.multiFieldMetas).2
    (openPage (createIndex stmt.isUnique stmt.multiFieldMetas).1)

/-- An accepted `CREATE INDEX` keeps its header exactly when its columns and the system fields
together are at most `MAX_FIELD_AMOUNT`. -/
theorem keepsHeader_iff {trx : TrxType} {findTable : String → Option Table}
    {node : CreateIndexSqlNode} {stmt : CreateIndexStmt}
    (h : CreateIndexStmt.create trx findTable node = .ok stmt) :
    KeepsHeader stmt ↔ node.multiAttributeNames.length +
      (CreateIndexStmt.sysFields trx stmt.table.tableMeta).length ≤ maxFieldAmount := by
  obtain ⟨-, hnames, ⟨fields, hfields, hmetas⟩, -⟩ := CreateIndexStmt.create_spec h
  have hcount : stmt.multiFieldMetas.length = node.multiAttributeNames.length +
      (CreateIndexStmt.sysFields trx stmt.table.tableMeta).length := by
    rw [hmetas, List.length_append, ← hfields, List.length_map]
  have hne : fieldTypes stmt.multiFieldMetas ≠ [] := by
    rw [fieldTypes, Ne, List.map_eq_nil_iff, ← List.length_eq_zero_iff, hcount]
    have := List.length_pos_of_ne_nil hnames
    omega
  have htypes : (fieldTypes stmt.multiFieldMetas).length = stmt.multiFieldMetas.length :=
    List.length_map _
  have hlengths : (fieldLengths stmt.multiFieldMetas).length = stmt.multiFieldMetas.length :=
    List.length_map _
  rw [← hcount, KeepsHeader, writesInside_iff, htypes, hlengths]
  refine ⟨fun hkeeps => hkeeps.1.1, fun hfit => ⟨⟨hfit, hfit⟩, ?_⟩⟩
  exact opensAlike hne (htypes.trans hlengths.symm) (hlengths.trans_le hfit)

def repeatedColumn (n : ℕ) : CreateIndexSqlNode := ⟨"i", "t", List.replicate n "a", false⟩

theorem keepsHeader_repeatedColumn : ∃ stmt, CreateIndexStmt.create .vacuous
    (fun _ => some (Schema.plainTable ["a"])) (repeatedColumn 20) = .ok stmt ∧ KeepsHeader stmt :=
  ⟨_, rfl, (keepsHeader_iff (show CreateIndexStmt.create .vacuous
    (fun _ => some (Schema.plainTable ["a"])) (repeatedColumn 20) = .ok _ from rfl)).mpr
    (by decide)⟩

theorem not_keepsHeader_repeatedColumn : ∃ stmt, CreateIndexStmt.create .vacuous
    (fun _ => some (Schema.plainTable ["a"])) (repeatedColumn 21) = .ok stmt ∧
    ¬KeepsHeader stmt ∧ (createIndex stmt.isUnique stmt.multiFieldMetas).2.attrLength = 84 ∧
    (openPage (createIndex stmt.isUnique stmt.multiFieldMetas).1).attrLength = 80 :=
  ⟨_, rfl, fun h => absurd (writesInside_iff.mp h.1).1 (by decide), by decide +kernel,
    by decide +kernel⟩

end HeaderPage

end TDB
