import Mathlib.Data.List.Forall2
import Mathlib.Data.List.TakeDrop
import Mathlib.Data.List.TakeWhile
import TDB.TableRecord

namespace TDB.Recorder

open ByteBits ByteMemory

/-! ## The layout that `init` gives -/

theorem forall₂_getElem? {α β : Type} {R : α → β → Prop} {as : List α} {bs : List β}
    (h : List.Forall₂ R as bs) {j : ℕ} {a : α} {b : β} (ha : as[j]? = some a)
    (hb : bs[j]? = some b) : R a b := by
  obtain ⟨hja, rfl⟩ := List.getElem?_eq_some_iff.mp ha
  obtain ⟨hjb, rfl⟩ := List.getElem?_eq_some_iff.mp hb
  exact h.get hja hjb

/-- The fields follow one another, and the last one has a bit for each of the others. -/
structure TableMeta.Layout (table : TableMeta) : Prop where
  nonempty : table.fields ≠ []
  disjoint : table.fields.Pairwise fun f g => f.offset + f.len ≤ g.offset
  recordSize : ∀ f ∈ table.fields, f.offset + f.len ≤ table.recordSize
  nullBits : table.fields.length ≤ 8 * table.nullBitmapField.len + 1

def FieldMeta.Supported (field : FieldMeta) : Prop :=
  field.type ≠ .chars → field.type ≠ .texts → field.len = 4

theorem FieldMeta.init_eq {name : String} {type : AttrType} {offset len : ℕ}
    {nullable visible : Bool} {field : FieldMeta}
    (h : FieldMeta.init name type offset len nullable visible = .ok field) :
    field = ⟨name, type, offset, len, nullable, visible⟩ ∧ 0 < len := by
  unfold FieldMeta.init at h
  split_ifs at h with hblank hinvalid
  exact ⟨(Except.ok.inj h).symm, by omega⟩

namespace TableMeta

/-- Fields one behind the other, between two offsets. -/
structure Between (start stop : ℕ) (fields : List FieldMeta) : Prop where
  le : start ≤ stop
  bounds : ∀ f ∈ fields, start ≤ f.offset ∧ f.offset + f.len ≤ stop
  disjoint : fields.Pairwise fun f g => f.offset + f.len ≤ g.offset
  first : fields.head?.elim stop FieldMeta.offset = start

theorem Between.nil (offset : ℕ) : Between offset offset [] :=
  ⟨le_rfl, fun _ hf => (by cases hf), .nil, rfl⟩

theorem Between.singleton (field : FieldMeta) :
    Between field.offset (field.offset + field.len) [field] := by
  refine ⟨Nat.le_add_right _ _, ?_, List.pairwise_singleton _ _, rfl⟩
  intro f hf
  obtain rfl : f = field := by simpa using hf
  exact ⟨le_rfl, le_rfl⟩

theorem Between.append {start mid stop : ℕ} {fields fields' : List FieldMeta}
    (h : Between start mid fields) (h' : Between mid stop fields') :
    Between start stop (fields ++ fields') := by
  refine ⟨h.le.trans h'.le, ?_, List.pairwise_append.mpr ⟨h.disjoint, h'.disjoint, ?_⟩, ?_⟩
  · intro f hf
    rcases List.mem_append.mp hf with hf | hf
    · exact ⟨(h.bounds f hf).1, (h.bounds f hf).2.trans h'.le⟩
    · exact ⟨h.le.trans (h'.bounds f hf).1, (h'.bounds f hf).2⟩
  · intro f hf g hg
    exact (h.bounds f hf).2.trans (h'.bounds g hg).1
  · have hfirst := h.first
    cases fields with
    | nil => exact h'.first.trans hfirst
    | cons f fields => exact hfirst

theorem initTrxFields_between (offset : ℕ) (fields : List FieldMeta) :
    Between offset (initTrxFields offset fields).2 (initTrxFields offset fields).1 := by
  induction fields generalizing offset with
  | nil => exact Between.nil offset
  | cons field fields ih =>
    exact (Between.singleton ⟨field.name, field.type, offset, field.len, true, false⟩).append
      (ih (offset + field.len))

theorem length_initTrxFields (offset : ℕ) (fields : List FieldMeta) :
    (initTrxFields offset fields).1.length = fields.length := by
  induction fields generalizing offset with
  | nil => rfl
  | cons field fields ih => simp [initTrxFields, ih]

theorem initColumns_spec {offset : ℕ} {attrs : List AttrInfoSqlNode}
    {columns : List FieldMeta × ℕ} (h : initColumns offset attrs = .ok columns) :
    Between offset columns.2 columns.1 ∧
    List.Forall₂ (fun field attr => FieldMeta.init attr.name attr.type field.offset attr.length
      attr.nullable true = .ok field) columns.1 attrs := by
  induction attrs generalizing offset columns with
  | nil =>
    cases h
    exact ⟨Between.nil offset, .nil⟩
  | cons attr attrs ih =>
    rw [initColumns] at h
    obtain ⟨field, hfield, h⟩ := Expression.exists_of_bind_ok h
    obtain ⟨rest, hrest, h⟩ := Expression.exists_of_bind_ok h
    obtain rfl := Except.ok.inj h
    obtain ⟨hbetween, hforall⟩ := ih hrest
    obtain ⟨heq, -⟩ := FieldMeta.init_eq hfield
    have hoffset : field.offset = offset := by rw [heq]
    have hend : field.offset + field.len = offset + attr.length := by rw [heq]
    refine ⟨?_, .cons (hoffset ▸ hfield) hforall⟩
    have hsingle := Between.singleton field
    rw [hend, hoffset] at hsingle
    exact hsingle.append hbetween

structure Built (trx : TrxType) (table : TableMeta) (attributes : List AttrInfoSqlNode) : Prop where
  layout : table.Layout
  between : Between 0 table.recordSize table.fields
  recordSize : table.nullBitmapField.offset + table.nullBitmapField.len = table.recordSize
  nullField : FieldMeta.init table.nullBitmapField.name table.nullBitmapField.type
    table.nullBitmapField.offset table.nullBitmapField.len table.nullBitmapField.nullable
    table.nullBitmapField.visible = .ok table.nullBitmapField
  fields : table.fields =
    (initTrxFields 0 trx.trxFields).1 ++ table.columns trx ++ [table.nullBitmapField]
  columns : List.Forall₂ (fun field attr => FieldMeta.init attr.name attr.type field.offset
    attr.length attr.nullable true = .ok field) (table.columns trx) attributes

theorem init_built {trx : TrxType} {tableId : Int32} {name : String}
    {attributes : List AttrInfoSqlNode} {table : TableMeta}
    (h : init trx tableId name attributes = .ok table) : Built trx table attributes := by
  unfold init at h
  split_ifs at h with hblank hempty
  obtain ⟨columns, hcolumns, h⟩ := Expression.exists_of_bind_ok h
  obtain ⟨nullField, hnull, h⟩ := Expression.exists_of_bind_ok h
  obtain rfl := Except.ok.inj h
  obtain ⟨hbetween, hforall⟩ := initColumns_spec hcolumns
  obtain ⟨hnullEq, -⟩ := FieldMeta.init_eq hnull
  have hlength := length_initTrxFields 0 trx.trxFields
  have hcount := hforall.length_eq
  have hlast : nullBitmapField ⟨tableId, name, (initTrxFields 0 trx.trxFields).1 ++ columns.1 ++
      [nullField], [], columns.2 + ((attributes.length + trx.sysFieldNum - 1) / 8 + 1)⟩ =
      nullField := List.getLastD_concat
  have hcols : TableMeta.columns trx ⟨tableId, name, (initTrxFields 0 trx.trxFields).1 ++
      columns.1 ++ [nullField], [],
      columns.2 + ((attributes.length + trx.sysFieldNum - 1) / 8 + 1)⟩ = columns.1 := by
    unfold TableMeta.columns TrxType.sysFieldNum
    rw [← hlength, List.append_assoc, List.drop_left, List.dropLast_concat]
  have hnullBetween := Between.singleton nullField
  have hoffset : nullField.offset = columns.2 := by rw [hnullEq]
  have hlen : nullField.len = (attributes.length + trx.sysFieldNum - 1) / 8 + 1 := by rw [hnullEq]
  rw [hoffset, hlen] at hnullBetween
  have hall := ((initTrxFields_between 0 trx.trxFields).append hbetween).append hnullBetween
  refine ⟨⟨by simp, hall.disjoint, fun f hf => (hall.bounds f hf).2, ?_⟩, hall, ?_, ?_, ?_, ?_⟩
  · rw [hlast, hlen]
    simp only [List.length_append, List.length_singleton, hlength, hcount]
    unfold TrxType.sysFieldNum
    omega
  · rw [hlast, hoffset, hlen]
  · rw [hlast, hnullEq]
    rw [hnullEq] at hnull
    exact hnull
  · rw [hlast, hcols]
  · rw [hcols]
    exact hforall

end TableMeta

/-! ## A value is read back as it was stored -/

@[simp] theorem charsOf_bytesOfChars (text : List UInt8) : charsOf (bytesOfChars text) = text := by
  rw [charsOf, bytesOfChars, List.map_map]
  exact List.map_id text

theorem setData_congr {field : FieldMeta} (hfield : field.Supported) {mem mem' : ℕ → BitVec 8}
    (h : ∀ k, field.offset ≤ k → k < field.offset + field.len → mem k = mem' k) :
    setData field.type mem field.offset field.len =
      setData field.type mem' field.offset field.len := by
  have htext : read mem field.offset field.len = read mem' field.offset field.len := read_congr h
  have hword : field.type ≠ .chars → field.type ≠ .texts →
      read mem field.offset 4 = read mem' field.offset 4 := by
    intro hchars htexts
    rw [← hfield hchars htexts]
    exact htext
  unfold setData
  rw [htext]
  cases htype : field.type with
  | chars => rfl
  | texts => rfl
  | nulls => rfl
  | undefined => rfl
  | _ => rw [hword (by rw [htype]; decide) (by rw [htype]; decide)]

theorem takeWhile_append_zero (text rest : List UInt8) :
    (text ++ 0 :: rest).takeWhile (· ≠ 0) = text.takeWhile (· ≠ 0) := by
  induction text with
  | nil => rfl
  | cons c text ih => rw [List.cons_append, List.takeWhile_cons, List.takeWhile_cons, ih]

/-- A text is cut at the length of its column and at its first zero byte. -/
theorem takeWhile_read_memcpy (text : List UInt8) (behind : List (BitVec 8)) (addr len : ℕ)
    (mem : ℕ → BitVec 8) :
    (charsOf (read (memcpy addr (if text.length < len then text.length + 1 else len)
      (bytesOfChars (text ++ [0]) ++ behind) mem) addr len)).takeWhile (· ≠ 0) =
      (text.take len).takeWhile (· ≠ 0) := by
  have hlength : (bytesOfChars (text ++ [0])).length = text.length + 1 := by simp [bytesOfChars]
  by_cases hlt : text.length < len
  · obtain ⟨m, rfl⟩ : ∃ m, len = text.length + 1 + m := ⟨len - (text.length + 1), by omega⟩
    rw [if_pos hlt, read_add, read_memcpy_append hlength, charsOf, List.map_append]
    change (charsOf (bytesOfChars (text ++ [0])) ++ _).takeWhile _ = _
    rw [charsOf_bytesOfChars, List.take_of_length_le hlt.le, List.append_assoc]
    exact takeWhile_append_zero text _
  · have htake : charsOf ((bytesOfChars (text ++ [0]) ++ behind).take len) = text.take len := by
      rw [List.take_append_of_le_length (by omega), charsOf, List.map_take]
      change (charsOf (bytesOfChars (text ++ [0]))).take len = _
      rw [charsOf_bytesOfChars, List.take_append_of_le_length (by omega)]
    rw [if_neg hlt, read_memcpy (by rw [List.length_append]; omega), htake]

variable {lib : StdLib} {getString : Value → List UInt8} {table : TableMeta}

theorem copied_le (field : FieldMeta) (value : Value) :
    (copied lib getString field value).1 ≤ field.len := by
  unfold copied
  cases field.type with
  | chars =>
    dsimp only
    split_ifs <;> omega
  | texts =>
    dsimp only
    split_ifs <;> omega
  | nulls => exact Nat.zero_le _
  | undefined => exact Nat.zero_le _
  | _ => exact le_rfl

theorem setData_memcpy_copied {field : FieldMeta} (hfield : field.Supported) {value : Value}
    (hvalue : value.isNull = false) (behind : List (BitVec 8)) (mem : ℕ → BitVec 8) :
    setData field.type (memcpy field.offset (copied lib getString field value).1
      ((copied lib getString field value).2 ++ behind) mem) field.offset field.len =
      storedValue lib getString field value := by
  have hword : ∀ word : Int32, LittleEndian.decode (charsOf (read (memcpy field.offset 4
      (bytesOfChars (LittleEndian.encode word) ++ behind) mem) field.offset 4)) = word := by
    intro word
    have hlength : (bytesOfChars (LittleEndian.encode word)).length = 4 := rfl
    rw [read_memcpy_append hlength, charsOf_bytesOfChars, LittleEndian.decode_encode]
  unfold copied setData storedValue
  rw [hvalue, if_neg Bool.false_ne_true]
  cases htype : field.type with
  | chars =>
    dsimp only
    rw [takeWhile_read_memcpy]
  | texts =>
    dsimp only
    rw [takeWhile_read_memcpy]
  | nulls => rfl
  | undefined => rfl
  | _ =>
    have hlen : field.len = 4 := hfield (by rw [htype]; decide) (by rw [htype]; decide)
    dsimp only
    rw [hlen, hword]

namespace TableMeta

@[simp] theorem nullBits_withNullBits (bytes record : ℕ → BitVec 8) :
    table.nullBits (table.withNullBits bytes record) = bytes := by
  funext k
  unfold nullBits withNullBits
  rw [if_pos (Nat.le_add_right _ k), Nat.add_sub_cancel_left]

theorem withNullBits_of_lt {bytes record : ℕ → BitVec 8} {k : ℕ}
    (h : k < table.nullBitmapField.offset) : table.withNullBits bytes record k = record k :=
  if_neg (by omega)

theorem nullBits_memcpy {addr n : ℕ} {src : List (BitVec 8)} (record : ℕ → BitVec 8)
    (h : addr + n ≤ table.nullBitmapField.offset) :
    table.nullBits (memcpy addr n src record) = table.nullBits record := by
  funext k
  exact memcpy_of_le (by omega)

end TableMeta

/-- The effect of storing a value: its column and its null bit, and nothing else before the end of
the null bits. -/
structure Stores (lib : StdLib) (getString : Value → List UInt8) (table : TableMeta) (idx : ℕ)
    (field : FieldMeta) (value : Value) (record record' : ℕ → BitVec 8) : Prop where
  other : ∀ k < table.nullBitmapField.offset, k < field.offset ∨ field.offset + field.len ≤ k →
    record' k = record k
  nullBits : bit (table.nullBits record') =
    Function.update (bit (table.nullBits record)) idx value.isNull
  stored : field.Supported → value.isNull = false →
    setData field.type record' field.offset field.len = storedValue lib getString field value

theorem changeRecordValue_spec {unspecified : Unspecified} {idx : ℕ} {field : FieldMeta}
    {value : Value} {record record' : ℕ → BitVec 8}
    (hend : field.offset + field.len ≤ table.nullBitmapField.offset)
    (h : changeRecordValue lib getString table unspecified idx field value record = .ok record') :
    Stores lib getString table idx field value record record' := by
  unfold changeRecordValue at h
  cases hvalue : value.isNull with
  | true =>
    rw [hvalue, if_pos rfl] at h
    split_ifs at h with hnullable
    obtain rfl := Except.ok.inj h
    refine ⟨?_, ?_, fun _ hnot => (by rw [hvalue] at hnot; cases hnot)⟩
    · intro k hk hother
      rcases hother with hlt | hle
      · rw [memcpy_of_lt hlt, TableMeta.withNullBits_of_lt hk]
      · rw [memcpy_of_le hle, TableMeta.withNullBits_of_lt hk]
    · rw [TableMeta.nullBits_memcpy _ hend, TableMeta.nullBits_withNullBits, bit_setBit, hvalue]
  | false =>
    rw [hvalue, if_neg Bool.false_ne_true] at h
    dsimp only at h
    have hle := @copied_le lib getString field value
    obtain rfl := Except.ok.inj h
    refine ⟨?_, ?_, fun hfield _ => setData_memcpy_copied hfield hvalue _ _⟩
    · intro k hk hother
      rcases hother with hlt | hge
      · rw [memcpy_of_lt hlt, TableMeta.withNullBits_of_lt hk]
      · rw [memcpy_of_le (by omega), TableMeta.withNullBits_of_lt hk]
    · rw [TableMeta.nullBits_memcpy _ (by omega), TableMeta.nullBits_withNullBits, bit_clearBit,
        hvalue]

theorem changeRecordValues_spec {unspecified : Unspecified} {idx : ℕ}
    {fields : List FieldMeta} {values : List Value} {record record' : ℕ → BitVec 8}
    (hfields : ∀ f ∈ fields, f.offset + f.len ≤ table.nullBitmapField.offset)
    (hdisjoint : fields.Pairwise fun f g => f.offset + f.len ≤ g.offset)
    (h : changeRecordValues lib getString table unspecified idx fields values record =
      .ok record') :
    (∀ k < table.nullBitmapField.offset, (∀ f ∈ fields, k < f.offset) → record' k = record k) ∧
    (∀ i < idx, bit (table.nullBits record') i = bit (table.nullBits record) i) ∧
    ∀ j field value, fields[j]? = some field → values[j]? = some value → field.Supported →
      table.cell record' (idx + j) field = storedValue lib getString field value := by
  -- on the fields: a field is written once, before all later ones
  induction fields generalizing idx values record with
  | nil =>
    cases h
    refine ⟨fun _ _ _ => rfl, fun _ _ => rfl, ?_⟩
    intro j field value hfield
    simp at hfield
  | cons field fields ih =>
    cases values with
    | nil =>
      cases h
      refine ⟨fun _ _ _ => rfl, fun _ _ => rfl, ?_⟩
      intro j field value _ hvalue
      simp at hvalue
    | cons value values =>
      rw [changeRecordValues] at h
      obtain ⟨record₁, hchange, h⟩ := Expression.exists_of_bind_ok h
      have hend := hfields field List.mem_cons_self
      obtain ⟨hbefore, hdisjoint⟩ := List.pairwise_cons.mp hdisjoint
      have hstores := changeRecordValue_spec hend hchange
      obtain ⟨hother, hbits, hcells⟩ :=
        ih (fun f hf => hfields f (List.mem_cons_of_mem _ hf)) hdisjoint h
      refine ⟨?_, ?_, ?_⟩
      · intro k hk hlt
        rw [hother k hk fun f hf => hlt f (List.mem_cons_of_mem _ hf)]
        exact hstores.other k hk (Or.inl (hlt field List.mem_cons_self))
      · intro i hi
        rw [hbits i (by omega), hstores.nullBits, Function.update_of_ne (by omega)]
      · intro j f v hf hv hsupported
        cases j with
        | zero =>
          obtain rfl : field = f := by simpa using hf
          obtain rfl : value = v := by simpa using hv
          have hbit : bit (table.nullBits record') (idx + 0) = value.isNull := by
            rw [hbits _ (by omega), hstores.nullBits, Nat.add_zero, Function.update_self]
          unfold TableMeta.cell
          rw [hbit]
          cases hvalue : value.isNull with
          | true => rw [storedValue, hvalue, if_pos rfl, if_pos rfl]
          | false =>
            rw [if_neg Bool.false_ne_true, ← hstores.stored hsupported hvalue]
            apply setData_congr hsupported
            intro k hk hlt
            exact hother k (by omega) fun f hf => by
              have := hbefore f hf
              omega
        | succ j =>
          rw [show idx + (j + 1) = idx + 1 + j by omega]
          exact hcells j f v (by simpa using hf) (by simpa using hv) hsupported

end TDB.Recorder
