import Mathlib.Data.List.GetD
import Mathlib.Tactic.IntervalCases
import TDB.TableRows

namespace TDB.Recorder

open ByteMemory

/-! ## The copies of a new record -/

/-- A `memcpy` of `change_record_value`: where it writes, what it copies and what lies in memory
behind that, and how many bytes it takes. -/
structure Copy where
  target : ℕ
  source : List (BitVec 8)
  behind : List (BitVec 8)
  copyLen : ℕ

namespace Copy

def run (c : Copy) (record : ℕ → BitVec 8) : ℕ → BitVec 8 :=
  memcpy c.target c.copyLen (c.source ++ c.behind) record

/-- No byte behind the source is read. -/
def ReadsInside (c : Copy) : Prop := c.copyLen ≤ c.source.length

/-- The bytes that are written are bytes of the field, and these are bytes of the record. -/
def WritesInside (c : Copy) (field : FieldMeta) (recordSize : ℕ) : Prop :=
  field.offset ≤ c.target ∧ c.target + c.copyLen ≤ field.offset + field.len ∧
    field.offset + field.len ≤ recordSize

instance (c : Copy) : Decidable c.ReadsInside := inferInstanceAs (Decidable (_ ≤ _))

end Copy

section Copies

variable (lib : StdLib) (getString : Value → List UInt8)

def copyOf (unspecified : Unspecified) (idx : ℕ) (field : FieldMeta) (value : Value) : Copy :=
  let behind := unspecified.behind idx
  if value.isNull then
    ⟨field.offset, (unspecified.hashValue idx).toList, behind, field.len⟩
  else
    let (copyLen, bytes) := copied lib getString field value
    ⟨field.offset, bytes, behind, copyLen⟩

/-- The size of what is copied: the hash, a text with its terminator, or a number. -/
def sourceLen (field : FieldMeta) (value : Value) : ℕ :=
  if value.isNull then 8
  else match field.type with
    | .chars | .texts => (textOf getString value).length + 1
    | .ints | .dates | .booleans | .floats => 4
    | .nulls | .undefined => 0

/-- A column that is not longer than what is copied into it; a text is cut instead. -/
def Fits (field : FieldMeta) (value : Value) : Prop :=
  if value.isNull then field.len ≤ 8
  else match field.type with
    | .ints | .dates | .booleans | .floats => field.len ≤ 4
    | _ => True

/-- The two checks of `make_record`. -/
def TableMeta.Accepts (trx : TrxType) (table : TableMeta) (values : List Value) : Prop :=
  values.length + trx.sysFieldNum + 1 = table.fields.length ∧
    checkValues (table.columns trx) values = .ok ()

def TableMeta.columnBytes (trx : TrxType) (table : TableMeta) (data : List (BitVec 8)) :
    List (List (BitVec 8)) :=
  (table.columns trx).map fun field => read (memoryOf data) field.offset field.len

end Copies

variable {lib : StdLib} {getString : Value → List UInt8} {table : TableMeta}

theorem length_source (unspecified : Unspecified) (idx : ℕ) (field : FieldMeta) (value : Value) :
    (copyOf lib getString unspecified idx field value).source.length =
      sourceLen getString field value := by
  unfold copyOf sourceLen
  cases hvalue : value.isNull with
  | true => exact Vector.length_toList
  | false =>
    rw [if_neg Bool.false_ne_true, if_neg Bool.false_ne_true]
    unfold copied
    cases field.type with
    | chars => simp [bytesOfChars]
    | texts => simp [bytesOfChars]
    | _ => rfl

/-- A text is copied up to its terminator, everything else over the whole column. -/
theorem copyLen_copyOf {unspecified : Unspecified} {idx : ℕ} {field : FieldMeta} {value : Value}
    (hnulls : value.isNull = false → field.type ≠ .nulls) (hundefined : field.type ≠ .undefined) :
    (copyOf lib getString unspecified idx field value).copyLen =
      if value.isNull = false ∧ (field.type = .chars ∨ field.type = .texts) then
        min field.len (sourceLen getString field value)
      else field.len := by
  unfold copyOf sourceLen
  cases hvalue : value.isNull with
  | true => rfl
  | false =>
    have hmin : ∀ n, (if n < field.len then n + 1 else field.len) = min field.len (n + 1) := by
      intro n
      split_ifs <;> omega
    rw [if_neg Bool.false_ne_true, if_neg Bool.false_ne_true]
    unfold copied
    cases htype : field.type with
    | chars => simp [hmin]
    | texts => simp [hmin]
    | nulls => exact absurd htype (hnulls hvalue)
    | undefined => exact absurd htype hundefined
    | _ => simp

/-- `change_record_value` sets or clears the null bit and makes its copy. -/
theorem changeRecordValue_eq_copy {unspecified : Unspecified} {idx : ℕ} {field : FieldMeta}
    {value : Value} {record record' : ℕ → BitVec 8}
    (h : changeRecordValue lib getString table unspecified idx field value record = .ok record') :
    ∃ bytes, record' =
      (copyOf lib getString unspecified idx field value).run (table.withNullBits bytes record) := by
  unfold changeRecordValue at h
  unfold copyOf Copy.run
  cases hvalue : value.isNull with
  | true =>
    rw [hvalue, if_pos rfl] at h
    split_ifs at h
    exact ⟨_, (Except.ok.inj h).symm⟩
  | false =>
    rw [hvalue, if_neg Bool.false_ne_true] at h
    exact ⟨_, (Except.ok.inj h).symm⟩

theorem Copy.run_congr (c : Copy) {record record' : ℕ → BitVec 8} {k : ℕ}
    (h : record k = record' k) : c.run record k = c.run record' k := by
  unfold Copy.run memcpy
  rw [h]

/-- A column of the new record is what its copy makes of the allocated memory. -/
theorem changeRecordValues_copy {unspecified : Unspecified} {idx : ℕ} {fields : List FieldMeta}
    {values : List Value} {record record' : ℕ → BitVec 8}
    (hfields : ∀ f ∈ fields, f.offset + f.len ≤ table.nullBitmapField.offset)
    (hdisjoint : fields.Pairwise fun f g => f.offset + f.len ≤ g.offset)
    (h : changeRecordValues lib getString table unspecified idx fields values record =
      .ok record') {j : ℕ} {field : FieldMeta} {value : Value} (hfield : fields[j]? = some field)
    (hvalue : values[j]? = some value) {k : ℕ} (hk : field.offset ≤ k)
    (hlt : k < field.offset + field.len) :
    record' k = (copyOf lib getString unspecified (idx + j) field value).run record k := by
  induction fields generalizing idx values record j with
  | nil => simp at hfield
  | cons f fields ih =>
    cases values with
    | nil => simp at hvalue
    | cons v values =>
      rw [changeRecordValues] at h
      obtain ⟨record₁, hchange, h⟩ := Expression.exists_of_bind_ok h
      have hend := hfields f List.mem_cons_self
      have hrest : ∀ g ∈ fields, g.offset + g.len ≤ table.nullBitmapField.offset :=
        fun g hg => hfields g (List.mem_cons_of_mem _ hg)
      obtain ⟨hbefore, hdisjoint⟩ := List.pairwise_cons.mp hdisjoint
      cases j with
      | zero =>
        obtain rfl : f = field := by simpa using hfield
        obtain rfl : v = value := by simpa using hvalue
        -- the later columns lie behind this one
        have hlater : record' k = record₁ k := by
          apply (changeRecordValues_spec hrest hdisjoint h).1 k (by omega)
          intro g hg
          have := hbefore g hg
          omega
        obtain ⟨bytes, heq⟩ := changeRecordValue_eq_copy hchange
        rw [hlater, heq]
        exact Copy.run_congr _ (TableMeta.withNullBits_of_lt (by omega))
      | succ j =>
        -- the first column lies before this one
        have hmem : field ∈ fields := List.mem_of_getElem? (by simpa using hfield)
        have hfirst := hbefore field hmem
        have hfieldEnd := hrest field hmem
        rw [ih hrest hdisjoint h (by simpa using hfield) (by simpa using hvalue),
          show idx + (j + 1) = idx + 1 + j by omega]
        apply Copy.run_congr
        exact (changeRecordValue_spec hend hchange).other k (by omega) (Or.inr (by omega))

theorem FieldMeta.type_ne_undefined {name : String} {type : AttrType} {offset len : ℕ}
    {nullable visible : Bool} {field : FieldMeta}
    (h : FieldMeta.init name type offset len nullable visible = .ok field) :
    field.type ≠ .undefined := by
  obtain ⟨heq, -⟩ := FieldMeta.init_eq h
  unfold FieldMeta.init at h
  split_ifs at h with hblank hinvalid
  rw [heq]
  exact fun htype => hinvalid (Or.inl htype)

theorem TableMeta.Built.type_ne_undefined {trx : TrxType} {attributes : List AttrInfoSqlNode}
    (h : TableMeta.Built trx table attributes) {field : FieldMeta}
    (hfield : field ∈ table.columns trx) : field.type ≠ .undefined := by
  obtain ⟨j, hj, rfl⟩ := List.mem_iff_getElem.mp hfield
  have hattr : j < attributes.length := h.columns.length_eq ▸ hj
  exact FieldMeta.type_ne_undefined (h.columns.get hj hattr)

/-! ## A copy reads what it copies -/

theorem readsInside_iff_fits {unspecified : Unspecified} {idx : ℕ} {field : FieldMeta}
    {value : Value} (hnulls : value.isNull = false → field.type ≠ .nulls)
    (hundefined : field.type ≠ .undefined) :
    (copyOf lib getString unspecified idx field value).ReadsInside ↔ Fits field value := by
  unfold Copy.ReadsInside
  rw [length_source, copyLen_copyOf hnulls hundefined]
  unfold Fits sourceLen
  cases hvalue : value.isNull with
  | true => simp
  | false =>
    cases htype : field.type with
    | nulls => exact absurd htype (hnulls hvalue)
    | undefined => exact absurd htype hundefined
    | _ => simp

theorem writesInside_copyOf {unspecified : Unspecified} {idx : ℕ} {field : FieldMeta}
    {value : Value} {recordSize : ℕ} (hsize : field.offset + field.len ≤ recordSize) :
    (copyOf lib getString unspecified idx field value).WritesInside field recordSize := by
  have hle := @copied_le lib getString field value
  unfold copyOf Copy.WritesInside
  cases value.isNull with
  | true => exact ⟨le_rfl, le_rfl, hsize⟩
  | false => exact ⟨le_rfl, Nat.add_le_add_left hle _, hsize⟩

theorem makeRecord_eq_ok {trx : TrxType} {unspecified : Unspecified} {values : List Value}
    {data : List (BitVec 8)}
    (h : makeRecord lib getString trx table unspecified values = .ok data) :
    table.Accepts trx values ∧ ∃ record, changeRecordValues lib getString table unspecified
      trx.sysFieldNum (table.columns trx) values unspecified.malloc = .ok record ∧
      data = read record 0 table.recordSize := by
  unfold makeRecord at h
  split_ifs at h with hcount
  obtain ⟨u, hcheck, h⟩ := Expression.exists_of_bind_ok h
  obtain ⟨record, hchange, h⟩ := Expression.exists_of_bind_ok h
  exact ⟨⟨not_not.mp hcount, hcheck⟩, record, hchange, (Except.ok.inj h).symm⟩

/-- Memory that holds one byte everywhere, and `n` bytes of it behind what is copied. -/
def Unspecified.filled (b : BitVec 8) (n : ℕ) : Unspecified :=
  ⟨fun _ => b, fun _ => .replicate 8 b, fun _ => .replicate n b⟩

theorem Copy.run_source (c : Copy) (record : ℕ → BitVec 8) {k : ℕ} (hk : k < c.copyLen)
    (hsource : k < c.source.length) :
    c.run record (c.target + k) = c.source.getD k 0#8 := by
  unfold Copy.run memcpy
  rw [if_pos ⟨by omega, by omega⟩, Nat.add_sub_cancel_left, List.getD_append _ _ _ _ hsource]

/-- The byte behind the source comes from the memory, be it read there or left in the record. -/
theorem Copy.run_behind (c : Copy) {b : BitVec 8} {n : ℕ} (hn : 0 < n)
    (hbehind : c.behind = .replicate n b) :
    c.run (fun _ => b) (c.target + c.source.length) = b := by
  unfold Copy.run memcpy
  split_ifs
  · rw [Nat.add_sub_cancel_left, List.getD_append_right _ _ _ _ le_rfl, Nat.sub_self, hbehind,
      List.getD_replicate _ hn]
  · rfl

theorem TableMeta.Accepts.makeRecord {trx : TrxType} {values : List Value}
    (h : table.Accepts trx values) (unspecified : Unspecified) :
    ∃ data, makeRecord lib getString trx table unspecified values = .ok data := by
  obtain ⟨record, hrecord⟩ := @changeRecordValues_ok lib getString table unspecified
    trx.sysFieldNum _ _ h.2 unspecified.malloc
  refine ⟨read record 0 table.recordSize, ?_⟩
  rw [Recorder.makeRecord, if_neg (not_not.mpr h.1), h.2, hrecord]
  rfl

/-- Values that are not accepted fail in every call alike. -/
theorem makeRecord_of_not_accepts {trx : TrxType} {values : List Value}
    (h : ¬table.Accepts trx values) (unspecified unspecified' : Unspecified) :
    makeRecord lib getString trx table unspecified values =
      makeRecord lib getString trx table unspecified' values := by
  unfold makeRecord
  split_ifs with hcount
  · rfl
  · cases hcheck : checkValues (table.columns trx) values with
    | ok u => exact absurd ⟨not_not.mp hcount, hcheck⟩ h
    | error e => rfl

theorem memoryOf_makeRecord {trx : TrxType} {unspecified : Unspecified} {values : List Value}
    {data : List (BitVec 8)} (hlayout : table.Layout)
    (hmake : makeRecord lib getString trx table unspecified values = .ok data) {j : ℕ}
    {field : FieldMeta} {value : Value} (hfield : (table.columns trx)[j]? = some field)
    (hvalue : values[j]? = some value) {k : ℕ} (hk : k < field.len) :
    memoryOf data (field.offset + k) = (copyOf lib getString unspecified (trx.sysFieldNum + j)
      field value).run unspecified.malloc (field.offset + k) := by
  obtain ⟨-, record, hchange, rfl⟩ := makeRecord_eq_ok hmake
  have hmem := List.mem_of_getElem? hfield
  have hsize := hlayout.recordSize field (List.mem_of_mem_drop (List.mem_of_mem_dropLast hmem))
  rw [memoryOf_read (by omega)]
  exact changeRecordValues_copy (fun f hf => hlayout.columns_end hf)
    (hlayout.columns_disjoint trx) hchange hfield hvalue (by omega) (by omega)

theorem memoryOf_makeRecord_of_le {trx : TrxType} {attributes : List AttrInfoSqlNode}
    (hbuilt : TableMeta.Built trx table attributes) {unspecified : Unspecified}
    {values : List Value} {data : List (BitVec 8)}
    (hmake : makeRecord lib getString trx table unspecified values = .ok data) {j : ℕ}
    {field : FieldMeta} {value : Value} (hfield : (table.columns trx)[j]? = some field)
    (hvalue : values[j]? = some value) (hnull : value.isNull = false)
    (hlen : field.len ≤ sourceLen getString field value) {k : ℕ} (hk : k < field.len) :
    memoryOf data (field.offset + k) = (copied lib getString field value).2.getD k 0#8 := by
  obtain ⟨⟨-, hcheck⟩, -⟩ := makeRecord_eq_ok hmake
  have hcopyLen := @copyLen_copyOf lib getString unspecified (trx.sysFieldNum + j) field value
    (checkValue_ok (checkValues_ok hcheck hfield hvalue))
    (hbuilt.type_ne_undefined (List.mem_of_getElem? hfield))
  rw [Nat.min_eq_left hlen, ite_self] at hcopyLen
  have hsource := @length_source lib getString unspecified (trx.sysFieldNum + j) field value
  have hrun := (copyOf lib getString unspecified (trx.sysFieldNum + j) field value).run_source
    unspecified.malloc (hcopyLen ▸ hk) (by omega)
  rw [memoryOf_makeRecord hbuilt.layout hmake hfield hvalue hk]
  unfold copyOf at hrun ⊢
  rw [hnull, if_neg Bool.false_ne_true] at hrun ⊢
  exact hrun

/-- A column that is longer than what is copied into it has the byte of the memory behind that. -/
theorem memoryOf_makeRecord_filled {trx : TrxType} (hlayout : table.Layout) {b : BitVec 8}
    {values : List Value} {data : List (BitVec 8)} {j : ℕ} {field : FieldMeta} {value : Value}
    (hmake : makeRecord lib getString trx table (.filled b field.len) values = .ok data)
    (hfield : (table.columns trx)[j]? = some field) (hvalue : values[j]? = some value)
    (hlong : sourceLen getString field value < field.len) :
    memoryOf data (field.offset + sourceLen getString field value) = b := by
  have hcopy := memoryOf_makeRecord hlayout hmake hfield hvalue hlong
  rw [← length_source (.filled b field.len) (trx.sysFieldNum + j)] at hcopy ⊢
  rw [hcopy]
  have htarget : (copyOf lib getString (.filled b field.len) (trx.sysFieldNum + j) field
      value).target = field.offset := by
    unfold copyOf
    cases value.isNull <;> rfl
  have hbehind : (copyOf lib getString (.filled b field.len) (trx.sysFieldNum + j) field
      value).behind = .replicate field.len b := by
    unfold copyOf
    cases value.isNull <;> rfl
  have hrun := Copy.run_behind _ (by omega) hbehind
  rw [htarget] at hrun
  exact hrun

/-- Two calls with the same values, none of them null, give every column the same bytes if and only
if no column is longer than what is copied into it. -/
theorem makeRecord_determined_iff (lib : StdLib) (getString : Value → List UInt8) (trx : TrxType)
    (tableId : Int32) (name : String) (attributes : List AttrInfoSqlNode) (table : TableMeta)
    (hinit : TableMeta.init trx tableId name attributes = .ok table) (values : List Value)
    (hvalues : ∀ value ∈ values, value.isNull = false) :
    (∀ unspecified unspecified',
      (makeRecord lib getString trx table unspecified values).map (table.columnBytes trx) =
      (makeRecord lib getString trx table unspecified' values).map (table.columnBytes trx)) ↔
    (table.Accepts trx values → ∀ (j : ℕ) field value, (table.columns trx)[j]? = some field →
      values[j]? = some value → field.len ≤ sourceLen getString field value) := by
  have hbuilt := TableMeta.init_built hinit
  have hlayout := hbuilt.layout
  constructor
  · intro h haccepts j field value hfield hvalue
    by_contra! hlong
    -- two memories that differ everywhere
    let zeros := Unspecified.filled 0#8 field.len
    let ones := Unspecified.filled 1#8 field.len
    obtain ⟨data, hdata⟩ := @TableMeta.Accepts.makeRecord lib getString table _ _ haccepts zeros
    obtain ⟨data', hdata'⟩ := @TableMeta.Accepts.makeRecord lib getString table _ _ haccepts ones
    have hsame := h zeros ones
    rw [hdata, hdata'] at hsame
    have hcolumn := congrArg (fun l => l[j]?) (Except.ok.inj hsame)
    simp only [TableMeta.columnBytes, List.getElem?_map, hfield, Option.map_some,
      Option.some.injEq] at hcolumn
    have hread := congrArg (fun l => l[sourceLen getString field value]?) hcolumn
    simp only [ByteMemory.read, List.getElem?_map, List.getElem?_range hlong, Option.map_some,
      Option.some.injEq] at hread
    rw [memoryOf_makeRecord_filled hlayout hdata hfield hvalue hlong,
      memoryOf_makeRecord_filled hlayout hdata' hfield hvalue hlong] at hread
    exact absurd hread (by decide)
  · intro h unspecified unspecified'
    by_cases haccepts : table.Accepts trx values
    · obtain ⟨data, hdata⟩ := @TableMeta.Accepts.makeRecord lib getString table _ _ haccepts
        unspecified
      obtain ⟨data', hdata'⟩ := @TableMeta.Accepts.makeRecord lib getString table _ _ haccepts
        unspecified'
      rw [hdata, hdata']
      refine congrArg Except.ok (List.map_congr_left fun field hmem => ?_)
      obtain ⟨j, hj, rfl⟩ := List.mem_iff_getElem.mp hmem
      have hfield := List.getElem?_eq_getElem hj
      have hlength := (makeRecord_cells hlayout hdata).2.1
      have hvalue := List.getElem?_eq_getElem (hlength ▸ hj)
      have hnull := hvalues _ (List.mem_of_getElem? hvalue)
      have hlen := h haccepts j _ _ hfield hvalue
      apply read_congr
      intro k hk hlt
      obtain ⟨i, rfl⟩ := Nat.exists_eq_add_of_le hk
      rw [memoryOf_makeRecord_of_le hbuilt hdata hfield hvalue hnull hlen (by omega),
        memoryOf_makeRecord_of_le hbuilt hdata' hfield hvalue hnull hlen (by omega)]
    · rw [makeRecord_of_not_accepts haccepts unspecified unspecified']

/-- A text of three characters fills a column of four. -/
theorem makeRecord_determined_three :
    let lib : StdLib := ⟨fun _ => none, fun _ => none, fun _ _ => none, fun _ => []⟩
    ∃ table, TableMeta.init .vacuous 0 "t" [⟨"c", .chars, 4, false⟩] = .ok table ∧
      ∀ unspecified unspecified',
        (makeRecord lib (fun _ => []) .vacuous table unspecified [.chars [97, 98, 99]]).map
          (table.columnBytes .vacuous) =
        (makeRecord lib (fun _ => []) .vacuous table unspecified' [.chars [97, 98, 99]]).map
          (table.columnBytes .vacuous) := by
  intro lib
  have htable : TableMeta.init .vacuous 0 "t" [⟨"c", .chars, 4, false⟩] =
      .ok ⟨0, "t", [⟨"c", .chars, 0, 4, false, true⟩,
        ⟨"null_field", .chars, 4, 1, false, false⟩], [], 5⟩ := by
    decide +kernel
  refine ⟨_, htable, (makeRecord_determined_iff lib (fun _ => []) .vacuous 0 "t" _ _ htable
    [.chars [97, 98, 99]] (by simp [Value.isNull, Value.attrType])).mpr ?_⟩
  intro _ j field value hfield hvalue
  obtain rfl : j = 0 := Nat.lt_one_iff.mp (List.getElem?_eq_some_iff.mp hvalue).1
  obtain rfl := Option.some.inj hfield
  obtain rfl := Option.some.inj hvalue
  decide

/-- `CREATE TABLE t (c CHAR(4) NOT NULL)` and two rows with the text `a`: what `malloc` returned
stands behind the terminator, and `compare_string` tells the two columns apart. -/
theorem makeRecord_determined_short_text :
    let lib : StdLib := ⟨fun _ => none, fun _ => none, fun _ _ => none, fun _ => []⟩
    ∃ table data data', TableMeta.init .vacuous 0 "t" [⟨"c", .chars, 4, false⟩] = .ok table ∧
      makeRecord lib (fun _ => []) .vacuous table (.filled 0#8 0) [.chars [97]] = .ok data ∧
      makeRecord lib (fun _ => []) .vacuous table (.filled 1#8 0) [.chars [97]] = .ok data' ∧
      table.columnBytes .vacuous data = [[97#8, 0#8, 0#8, 0#8]] ∧
      table.columnBytes .vacuous data' = [[97#8, 0#8, 1#8, 1#8]] ∧
      Value.compareString (charsOf [97#8, 0#8, 0#8, 0#8]) (charsOf [97#8, 0#8, 1#8, 1#8]) ≠ 0 := by
  intro lib
  have htable : TableMeta.init .vacuous 0 "t" [⟨"c", .chars, 4, false⟩] =
      .ok ⟨0, "t", [⟨"c", .chars, 0, 4, false, true⟩,
        ⟨"null_field", .chars, 4, 1, false, false⟩], [], 5⟩ := by
    decide +kernel
  exact ⟨_, _, _, htable, rfl, rfl, rfl, rfl, by decide⟩

end TDB.Recorder
