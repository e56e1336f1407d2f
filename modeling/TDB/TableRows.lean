import TDB.RecordCells

namespace TDB.Recorder

open ByteBits ByteMemory

variable {lib : StdLib} {getString : Value → List UInt8} {table : TableMeta}

/-! ## Rows -/

theorem checkValue_ok {field : FieldMeta} {value : Value} (h : checkValue field value = .ok ()) :
    value.isNull = false → field.type ≠ .nulls := by
  intro hvalue htype
  unfold checkValue at h
  rw [hvalue, if_neg Bool.false_ne_true, htype] at h
  have hne : AttrType.nulls ≠ value.attrType := by
    intro heq
    rw [Value.isNull, ← heq] at hvalue
    cases hvalue
  rw [if_neg hne] at h
  have hcast : castTo .nulls value.attrType = false := rfl
  rw [typeCastNotSupport, hcast] at h
  split_ifs at h
  cases h

theorem checkValues_ok {fields : List FieldMeta} {values : List Value}
    (h : checkValues fields values = .ok ()) {j : ℕ} {field : FieldMeta} {value : Value}
    (hfield : fields[j]? = some field) (hvalue : values[j]? = some value) :
    checkValue field value = .ok () := by
  induction fields generalizing values j with
  | nil => simp at hfield
  | cons f fields ih =>
    cases values with
    | nil => simp at hvalue
    | cons v values =>
      rw [checkValues] at h
      obtain ⟨u, hcheck, h⟩ := Expression.exists_of_bind_ok h
      cases j with
      | zero =>
        obtain rfl : f = field := by simpa using hfield
        obtain rfl : v = value := by simpa using hvalue
        exact hcheck
      | succ j => exact ih h (by simpa using hfield) (by simpa using hvalue)

namespace TableMeta

theorem Layout.fields_eq (h : table.Layout) :
    table.fields = table.fields.dropLast ++ [table.nullBitmapField] := by
  have hlast : table.nullBitmapField = table.fields.getLast h.nonempty :=
    by rw [nullBitmapField, List.getLastD_eq_getLast?, List.getLast?_eq_some_getLast h.nonempty,
      Option.getD_some]
  rw [hlast, List.dropLast_append_getLast]

theorem getElem?_columns {trx : TrxType} {j : ℕ} (h : j < (table.columns trx).length) :
    table.fields[trx.sysFieldNum + j]? = (table.columns trx)[j]? := by
  unfold columns at h ⊢
  rw [List.length_dropLast] at h
  rw [List.getElem?_dropLast, if_pos h, List.getElem?_drop]

theorem Layout.columns_end (h : table.Layout) {trx : TrxType} {f : FieldMeta}
    (hf : f ∈ table.columns trx) : f.offset + f.len ≤ table.nullBitmapField.offset := by
  have hdisjoint := h.disjoint
  rw [h.fields_eq, List.pairwise_append] at hdisjoint
  refine hdisjoint.2.2 f ?_ table.nullBitmapField List.mem_cons_self
  unfold columns at hf
  rw [List.dropLast_drop_eq_drop_dropLast] at hf
  exact List.mem_of_mem_drop hf

theorem Layout.columns_disjoint (h : table.Layout) (trx : TrxType) :
    (table.columns trx).Pairwise fun f g => f.offset + f.len ≤ g.offset :=
  (h.disjoint.sublist (List.drop_sublist _ _)).sublist (List.dropLast_sublist _)

end TableMeta

theorem attrType_storedValue {field : FieldMeta} {value : Value} (hvalue : value.isNull = false) :
    (storedValue lib getString field value).attrType = field.type := by
  unfold storedValue
  rw [hvalue, if_neg Bool.false_ne_true]
  cases field.type <;> rfl

theorem storedValue_storedValue (field : FieldMeta) (value : Value) :
    storedValue lib getString field (storedValue lib getString field value) =
      storedValue lib getString field value := by
  cases hvalue : value.isNull with
  | true =>
    have hnull : storedValue lib getString field value = .nulls := if_pos hvalue
    rw [hnull]
    rfl
  | false =>
    have hcut : ∀ text : List UInt8, (((text.take field.len).takeWhile (· ≠ 0)).take
        field.len).takeWhile (· ≠ 0) = (text.take field.len).takeWhile (· ≠ 0) := by
      intro text
      have hlength : ((text.take field.len).takeWhile (· ≠ 0)).length ≤ field.len :=
        (List.takeWhile_prefix _).length_le.trans (List.length_take_le _ _)
      rw [List.take_of_length_le hlength]
      exact List.takeWhile_idem
    have hstored : storedValue lib getString field value = _ := if_neg (by simp [hvalue])
    rw [hstored]
    cases htype : field.type with
    | chars => simp only [storedValue, htype, textOf, hcut, Value.isNull, Value.attrType]; rfl
    | texts => simp only [storedValue, htype, textOf, hcut, Value.isNull, Value.attrType]; rfl
    | booleans =>
      dsimp only
      generalize decide (value.getInt lib ≠ 0) = b
      cases b <;> simp only [storedValue, htype] <;> rfl
    | _ => simp only [storedValue, htype, Value.isNull, Value.attrType]; rfl

theorem memoryOf_read {mem : ℕ → BitVec 8} {n k : ℕ} (h : k < n) :
    memoryOf (ByteMemory.read mem 0 n) k = mem k := by
  unfold memoryOf ByteMemory.read
  rw [List.getD_eq_getElem?_getD, List.getElem?_map, List.getElem?_range h, Option.map_some,
    Option.getD_some, Nat.zero_add]

theorem TableMeta.cell_congr {trx : TrxType} {record record' : ℕ → BitVec 8} {j : ℕ}
    {field : FieldMeta} (hlayout : table.Layout) (hfield : field.Supported)
    (hj : (table.columns trx)[j]? = some field)
    (h : ∀ k < table.recordSize, record k = record' k) :
    table.cell record (trx.sysFieldNum + j) field =
      table.cell record' (trx.sysFieldNum + j) field := by
  have hmem := List.mem_of_getElem? hj
  have hlt : j < (table.columns trx).length := (List.getElem?_eq_some_iff.mp hj).1
  have hlength : (table.columns trx).length = table.fields.length - trx.sysFieldNum - 1 := by
    rw [columns, List.length_dropLast, List.length_drop]
  have hbits := hlayout.nullBits
  have hend := hlayout.columns_end hmem
  have hlast : table.nullBitmapField.offset + table.nullBitmapField.len ≤ table.recordSize := by
    apply hlayout.recordSize
    rw [hlayout.fields_eq]
    exact List.mem_append_right _ List.mem_cons_self
  have hbit : bit (table.nullBits record) (trx.sysFieldNum + j) =
      bit (table.nullBits record') (trx.sysFieldNum + j) := by
    unfold bit nullBits
    rw [h _ (by omega)]
  unfold cell
  rw [hbit, setData_congr hfield fun k _ hk => h k (by omega)]

/-- A record that `make_record` accepts has the values in its columns as they are stored. -/
theorem makeRecord_cells {trx : TrxType} {unspecified : Unspecified} {values : List Value}
    {data : List (BitVec 8)} (hlayout : table.Layout)
    (h : makeRecord lib getString trx table unspecified values = .ok data) :
    data.length = table.recordSize ∧ values.length = (table.columns trx).length ∧
    ∀ (j : ℕ) field value, (table.columns trx)[j]? = some field → values[j]? = some value →
      checkValue field value = .ok () ∧ (field.Supported →
        (table.row trx data)[j]? = some (storedValue lib getString field value)) := by
  unfold makeRecord at h
  split_ifs at h with hcount
  rw [not_not] at hcount
  obtain ⟨u, hcheck, h⟩ := Expression.exists_of_bind_ok h
  obtain ⟨record, hchange, h⟩ := Expression.exists_of_bind_ok h
  obtain rfl := Except.ok.inj h
  have hlength : values.length = (table.columns trx).length := by
    rw [TableMeta.columns, List.length_dropLast, List.length_drop]
    omega
  obtain ⟨-, -, hcells⟩ := changeRecordValues_spec (fun f hf => hlayout.columns_end hf)
    (hlayout.columns_disjoint trx) hchange
  refine ⟨length_read, hlength, ?_⟩
  intro j field value hfield hvalue
  refine ⟨checkValues_ok hcheck hfield hvalue, fun hsupported => ?_⟩
  rw [TableMeta.row, List.getElem?_mapIdx, hfield, Option.map_some,
    TableMeta.cell_congr hlayout hsupported hfield fun k hk => memoryOf_read hk]
  exact congrArg some (hcells j field _ hfield hvalue hsupported)

theorem makeRecord_spec {trx : TrxType} {unspecified : Unspecified} {values : List Value}
    {data : List (BitVec 8)} (hlayout : table.Layout)
    (hsupported : ∀ f ∈ table.columns trx, f.Supported)
    (h : makeRecord lib getString trx table unspecified values = .ok data) :
    data.length = table.recordSize ∧ values.length = (table.columns trx).length ∧
    table.row trx data = List.zipWith (storedValue lib getString) (table.columns trx) values ∧
    ∀ (j : ℕ) field value, (table.columns trx)[j]? = some field → values[j]? = some value →
      checkValue field value = .ok () := by
  obtain ⟨hdata, hlength, hcells⟩ := makeRecord_cells hlayout h
  refine ⟨hdata, hlength, ?_, fun j field value hf hv => (hcells j field value hf hv).1⟩
  apply List.ext_getElem?
  intro j
  rw [List.getElem?_zipWith]
  cases hfield : (table.columns trx)[j]? with
  | none => rw [TableMeta.row, List.getElem?_mapIdx, hfield, Option.map_none]
  | some field =>
    have hlt : j < values.length := by
      rw [hlength]
      exact (List.getElem?_eq_some_iff.mp hfield).1
    have hvalue := List.getElem?_eq_getElem hlt
    rw [hvalue]
    exact (hcells j field _ hfield hvalue).2 (hsupported field (List.mem_of_getElem? hfield))

/-- A value that goes into a column without a cast. -/
def Storable (field : FieldMeta) (value : Value) : Prop :=
  value.isNull = true ∧ field.nullable = true ∨
    value.isNull = false ∧ value.attrType = field.type

theorem checkValue_of_storable {field : FieldMeta} {value : Value} (h : Storable field value) :
    checkValue field value = .ok () := by
  unfold checkValue
  rcases h with ⟨hnull, hnullable⟩ | ⟨hnull, htype⟩
  · rw [if_pos hnull, if_pos hnullable]
  · rw [hnull, if_neg Bool.false_ne_true, if_pos htype.symm]

theorem checkValues_of_storable {fields : List FieldMeta} {values : List Value}
    (h : List.Forall₂ Storable fields values) : checkValues fields values = .ok () := by
  induction h with
  | nil => rfl
  | cons hstorable hrest ih =>
    rw [checkValues, checkValue_of_storable hstorable]
    exact ih

theorem changeRecordValue_ok {unspecified : Unspecified} {idx : ℕ} {field : FieldMeta}
    {value : Value} (h : checkValue field value = .ok ()) (record : ℕ → BitVec 8) :
    ∃ record', changeRecordValue lib getString table unspecified idx field value record =
      .ok record' := by
  unfold checkValue at h
  unfold changeRecordValue
  cases hvalue : value.isNull with
  | true =>
    rw [hvalue, if_pos rfl] at h
    split_ifs at h with hnullable
    rw [if_pos rfl, if_pos hnullable]
    exact ⟨_, rfl⟩
  | false =>
    rw [if_neg Bool.false_ne_true]
    exact ⟨_, rfl⟩

/-- The second loop accepts what the first one accepts. -/
theorem changeRecordValues_ok {unspecified : Unspecified} {idx : ℕ} {fields : List FieldMeta}
    {values : List Value} (h : checkValues fields values = .ok ()) (record : ℕ → BitVec 8) :
    ∃ record', changeRecordValues lib getString table unspecified idx fields values record =
      .ok record' := by
  induction fields generalizing idx values record with
  | nil => exact ⟨record, rfl⟩
  | cons field fields ih =>
    cases values with
    | nil => exact ⟨record, rfl⟩
    | cons value values =>
      rw [checkValues] at h
      obtain ⟨u, hcheck, h⟩ := Expression.exists_of_bind_ok h
      obtain ⟨record₁, hrecord₁⟩ := @changeRecordValue_ok lib getString table unspecified idx field
        value hcheck record
      obtain ⟨record', hrecord'⟩ := @ih (idx + 1) values h record₁
      refine ⟨record', ?_⟩
      rw [changeRecordValues, hrecord₁]
      exact hrecord'

theorem makeRecord_ok {trx : TrxType} {values : List Value}
    (hfields : trx.sysFieldNum < table.fields.length)
    (h : List.Forall₂ Storable (table.columns trx) values) (unspecified : Unspecified) :
    ∃ data, makeRecord lib getString trx table unspecified values = .ok data := by
  have hlength := h.length_eq
  rw [TableMeta.columns, List.length_dropLast, List.length_drop] at hlength
  obtain ⟨record, hrecord⟩ := @changeRecordValues_ok lib getString table unspecified
    trx.sysFieldNum _ _ (checkValues_of_storable h) unspecified.malloc
  refine ⟨ByteMemory.read record 0 table.recordSize, ?_⟩
  rw [makeRecord, if_neg (by omega), checkValues_of_storable h, hrecord]
  rfl

/-- What `cell_at` gives for a value of a column's type: a text is cut at the column's length. -/
def readBack (len : ℕ) : Value → Value
  | .chars str => .chars (str.take len)
  | .texts text => .texts (text.take len)
  | value => value

theorem storedValue_eq_readBack {field : FieldMeta} {value : Value}
    (hvalue : value.isNull = true ∨ value.attrType = field.type)
    (hnul : ∀ text, value = .chars text ∨ value = .texts text → 0 ∉ text) :
    storedValue lib getString field value = readBack field.len value := by
  have htext : ∀ text : List UInt8, 0 ∉ text →
      (text.take field.len).takeWhile (· ≠ 0) = text.take field.len := by
    intro text hzero
    apply List.takeWhile_eq_self_iff.mpr
    intro c hc
    apply decide_eq_true
    rintro rfl
    exact hzero (List.mem_of_mem_take hc)
  unfold storedValue
  cases value with
  | nulls => rfl
  | chars text =>
    have htype : AttrType.chars = field.type := hvalue.resolve_left (fun h => by cases h)
    rw [if_neg (fun h => by cases h), ← htype]
    exact congrArg Value.chars (htext text (hnul text (Or.inl rfl)))
  | texts text =>
    have htype : AttrType.texts = field.type := hvalue.resolve_left (fun h => by cases h)
    rw [if_neg (fun h => by cases h), ← htype]
    exact congrArg Value.texts (htext text (hnul text (Or.inr rfl)))
  | booleans b =>
    have htype : AttrType.booleans = field.type := hvalue.resolve_left (fun h => by cases h)
    rw [if_neg (fun h => by cases h), ← htype]
    cases b <;> rfl
  | _ =>
    have htype := hvalue.resolve_left (fun h => by cases h)
    rw [if_neg (fun h => by cases h), ← htype]
    rfl

theorem TableMeta.cellAt_column {trx : TrxType} {data : List (BitVec 8)} {j : ℕ}
    (hlayout : table.Layout) (hj : j < (table.columns trx).length) :
    ∃ value, (table.row trx data)[j]? = some value ∧
      table.cellAt data (trx.sysFieldNum + j) = .ok value := by
  have hfield := List.getElem?_eq_getElem hj
  have hlength : (table.columns trx).length = table.fields.length - trx.sysFieldNum - 1 := by
    rw [columns, List.length_dropLast, List.length_drop]
  have hbits := hlayout.nullBits
  refine ⟨_, by rw [row, List.getElem?_mapIdx, hfield]; rfl, ?_⟩
  unfold cellAt
  rw [getElem?_columns hj, hfield]
  exact if_neg (by omega)

theorem TableMeta.supported_of_forall₂ {fields : List FieldMeta} {attrs : List AttrInfoSqlNode}
    (h : List.Forall₂ (fun field attr => FieldMeta.init attr.name attr.type field.offset
      attr.length attr.nullable true = .ok field) fields attrs)
    (hattrs : ∀ attr ∈ attrs, attr.type ≠ .chars → attr.type ≠ .texts → attr.length = 4) :
    ∀ f ∈ fields, f.Supported := by
  induction h with
  | nil =>
    intro f hf
    cases hf
  | @cons field attr fields attrs hinit hrest ih =>
    intro f hf
    rcases List.mem_cons.mp hf with rfl | hf
    · obtain ⟨heq, -⟩ := FieldMeta.init_eq hinit
      rw [FieldMeta.Supported, heq]
      exact hattrs attr List.mem_cons_self
    · exact ih (fun attr hattr => hattrs attr (List.mem_cons_of_mem _ hattr)) f hf

/-- The columns of a record that was made from values of their types give these values back, and
no two fields share a byte of the record. -/
theorem record_codec (lib : StdLib) (getString : Value → List UInt8) (trx : TrxType)
    (tableId : Int32) (name : String) (attributes : List AttrInfoSqlNode) (table : TableMeta)
    (hinit : TableMeta.init trx tableId name attributes = .ok table)
    (hattrs : ∀ attr ∈ attributes, attr.type ≠ .chars → attr.type ≠ .texts → attr.length = 4)
    (unspecified : Unspecified) (values : List Value)
    (hvalues : List.Forall₂ (fun attr value => value.isNull = true ∧ attr.nullable = true ∨
      value.attrType = attr.type) attributes values)
    (hnul : ∀ value ∈ values, ∀ text, value = .chars text ∨ value = .texts text → 0 ∉ text)
    (data : List (BitVec 8))
    (hmake : makeRecord lib getString trx table unspecified values = .ok data) :
    (∀ (j : ℕ) attr value, attributes[j]? = some attr → values[j]? = some value →
      table.cellAt data (trx.sysFieldNum + j) = .ok (readBack attr.length value)) ∧
    table.fields.Pairwise (fun f g => f.offset + f.len ≤ g.offset) ∧
    trx.sysFieldNum + attributes.length ≤ 8 * table.nullBitmapField.len ∧
    (∀ f ∈ table.fields, f.offset + f.len ≤ table.recordSize) ∧
    data.length = table.recordSize := by
  obtain ⟨hlayout, -, -, -, hfields, hcolumns⟩ := TableMeta.init_built hinit
  have hsupported := TableMeta.supported_of_forall₂ hcolumns hattrs
  obtain ⟨hdata, hlength, hrow, -⟩ := makeRecord_spec hlayout hsupported hmake
  refine ⟨?_, hlayout.disjoint, ?_, hlayout.recordSize, hdata⟩
  · intro j attr value hattr hvalue
    have hj : j < (table.columns trx).length := by
      rw [← hlength]
      exact (List.getElem?_eq_some_iff.mp hvalue).1
    have hfield := List.getElem?_eq_getElem hj
    generalize (table.columns trx)[j] = field at hfield
    obtain ⟨heq, -⟩ := FieldMeta.init_eq (forall₂_getElem? hcolumns hfield hattr)
    have htype : field.type = attr.type := by rw [heq]
    have hlen : field.len = attr.length := by rw [heq]
    obtain ⟨cell, hcell, hcellAt⟩ := @TableMeta.cellAt_column table trx data j hlayout hj
    rw [hrow, List.getElem?_zipWith, hfield, hvalue] at hcell
    rw [hcellAt, ← Option.some.inj hcell, ← hlen]
    refine congrArg _ (storedValue_eq_readBack ?_ (hnul value (List.mem_of_getElem? hvalue)))
    rw [htype]
    exact (forall₂_getElem? hvalues hattr hvalue).imp_left And.left
  · have hbits := hlayout.nullBits
    rw [hfields] at hbits
    simp only [List.length_append, List.length_singleton, TableMeta.length_initTrxFields,
      hcolumns.length_eq] at hbits
    unfold TrxType.sysFieldNum
    omega

/-- A null and a text that is too long, in memory that is all ones. -/
theorem record_codec_mvcc :
    let lib : StdLib := ⟨fun _ => none, fun _ => none, fun _ _ => none, fun _ => []⟩
    let attributes : List AttrInfoSqlNode := [⟨"a", .ints, 4, true⟩, ⟨"b", .chars, 2, true⟩]
    let unspecified : Unspecified := ⟨fun _ => 255#8, fun _ => .replicate 8 0#8, fun _ => []⟩
    ∃ table data, TableMeta.init .mvcc 0 "t" attributes = .ok table ∧
      makeRecord lib (fun _ => []) .mvcc table unspecified
        [.nulls, .chars [97, 98, 99]] = .ok data ∧
      table.cellAt data 2 = .ok .nulls ∧ table.cellAt data 3 = .ok (.chars [97, 98]) := by
  intro lib attributes unspecified
  let table : TableMeta := ⟨0, "t", [⟨"__trx_xid_begin", .ints, 0, 4, true, false⟩,
    ⟨"__trx_xid_end", .ints, 4, 4, true, false⟩, ⟨"a", .ints, 8, 4, true, true⟩,
    ⟨"b", .chars, 12, 2, true, true⟩, ⟨"null_field", .chars, 14, 1, false, false⟩], [], 15⟩
  have htable : TableMeta.init .mvcc 0 "t" attributes = .ok table := by decide +kernel
  have hstorable : List.Forall₂ Storable (table.columns .mvcc) [.nulls, .chars [97, 98, 99]] := by
    exact .cons (Or.inl ⟨rfl, rfl⟩) (.cons (Or.inr ⟨rfl, rfl⟩) .nil)
  obtain ⟨data, hdata⟩ := @makeRecord_ok lib (fun _ => []) table .mvcc _ (by decide) hstorable
    unspecified
  have hnul : ∀ value ∈ [Value.nulls, Value.chars [97, 98, 99]], ∀ text,
      value = .chars text ∨ value = .texts text → 0 ∉ text := by
    rintro value hvalue text (rfl | rfl)
    · obtain rfl : text = [97, 98, 99] := by simpa using hvalue
      decide
    · simp at hvalue
  have hcells := (record_codec lib (fun _ => []) .mvcc 0 "t" attributes table htable (by decide)
    unspecified _ (.cons (Or.inl ⟨rfl, rfl⟩) (.cons (Or.inr rfl) .nil)) hnul data hdata).1
  exact ⟨table, data, htable, hdata, hcells 0 _ _ rfl rfl, hcells 1 _ _ rfl rfl⟩

end TDB.Recorder
