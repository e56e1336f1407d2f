import TDB.Lib.StdSort
import TDB.RecordCells

namespace TDB.Recorder

/-! ## JSON values -/

inductive Json where
  | null
  | int (val : ℤ)
  | bool (val : Bool)
  | string (val : String)
  | array (vals : List Json)
  | object (members : List (String × Json))

namespace Json

def get (key : String) : Json → Json
  | .object members => ((members.find? fun m => m.1 = key).map Prod.snd).getD .null
  | _ => .null

theorem get_cons_self (key : String) (val : Json) (members : List (String × Json)) :
    (object ((key, val) :: members)).get key = val := by
  rw [get, List.find?_cons_of_pos (by simp)]
  rfl

theorem get_cons_ne {key key' : String} (h : key' ≠ key) (val : Json)
    (members : List (String × Json)) :
    (object ((key', val) :: members)).get key = (object members).get key := by
  rw [get, get, List.find?_cons_of_neg (by simpa using h)]

def asInt? : Json → Option ℤ
  | .int val => if -(2 ^ 31) ≤ val ∧ val < 2 ^ 31 then some val else none
  | _ => none

def asBool? : Json → Option Bool
  | .bool val => some val
  | _ => none

def asString? : Json → Option String
  | .string val => some val
  | _ => none

/-- `append` to a new value, which makes it an array. -/
def ofList : List Json → Json
  | [] => .null
  | val :: vals => .array (val :: vals)

end Json

/-! ## Fields -/

/-- `ATTR_TYPE_NAME`. -/
def attrTypeToString : AttrType → String
  | .undefined => "undefined"
  | .chars => "chars"
  | .ints => "ints"
  | .dates => "dates"
  | .nulls => "nulls"
  | .floats => "floats"
  | .booleans => "booleans"
  | .texts => "texts"

/-- `attr_type_from_string`: the first type with that name. -/
def attrTypeFromString (s : String) : AttrType :=
  (([.undefined, .chars, .ints, .dates, .nulls, .floats, .booleans, .texts].find?
    fun type => attrTypeToString type = s)).getD .undefined

namespace FieldMeta

def toJson (field : FieldMeta) : Json :=
  .object [("name", .string field.name), ("type", .string (attrTypeToString field.type)),
    ("offset", .int field.offset), ("len", .int field.len), ("nullable", .bool field.nullable),
    ("visible", .bool field.visible)]

def fromJson (json : Json) : Except RC FieldMeta :=
  match json with
  | .object _ =>
    match (json.get "name").asString?, (json.get "type").asString?, (json.get "offset").asInt?,
        (json.get "len").asInt?, (json.get "visible").asBool?, (json.get "nullable").asBool? with
    | some name, some typeName, some offset, some len, some visible, some nullable =>
      if attrTypeFromString typeName = .undefined then .error .internal
      else if offset < 0 ∨ len < 0 then .error .invalidArgument
      else init name (attrTypeFromString typeName) offset.toNat len.toNat nullable visible
    | _, _, _, _, _, _ => .error .internal
  | _ => .error .internal

end FieldMeta

/-! ## Indexes -/

def isSpace (c : Char) : Bool := c = ' ' || 9 ≤ c.toNat && c.toNat ≤ 13

/-- The loop `while (iss >> token)`. -/
def tokens : List Char → List Char → List (List Char)
  | token, [] => if token = [] then [] else [token]
  | token, c :: cs =>
    if isSpace c then (if token = [] then [] else [token]) ++ tokens [] cs
    else tokens (token ++ [c]) cs

/-- `std::stoi` of a text without a sign. -/
def stoi (s : List Char) : Option ℕ :=
  let digits := (s.dropWhile isSpace).takeWhile Char.isDigit
  if digits = [] then none else some (Nat.ofDigitChars 10 digits 0)

namespace IndexMeta

def init (isUnique : Bool) (name : String) (multiFields : List FieldMeta) : Except RC IndexMeta :=
  if isBlank name then .error .invalidArgument
  else .ok ⟨isUnique, name, multiFields.map FieldMeta.name⟩

/-- The names of the fields, each but the last with a blank behind it.  Without any field the loop
runs out of the vector. -/
def multiFieldsNames : List String → Option (List Char)
  | [] => none
  | [name] => some name.toList
  | name :: names => (multiFieldsNames names).map fun rest => name.toList ++ ' ' :: rest

def toJson (index : IndexMeta) : Option Json :=
  (multiFieldsNames index.multiFields).map fun names =>
    .object [("is_unique", .bool index.isUnique), ("name", .string index.name),
      ("field_amount", .string (String.ofList (Nat.toDigits 10 index.multiFields.length))),
      ("field_name", .string (String.ofList names))]

/-- The fields of the table with the names, the first one of each name. -/
def findFields (table : TableMeta) : List (List Char) → Except RC (List FieldMeta)
  | [] => .ok []
  | token :: rest => do
    let field ← match table.fields.find? fun field => field.name = String.ofList token with
      | some field => .ok field
      | none => .error .schemaFieldMissing
    let fields ← findFields table rest
    return field :: fields

def fromJson (table : TableMeta) (json : Json) : Except RC IndexMeta :=
  match (json.get "name").asString?, (json.get "field_name").asString? with
  | some name, some fieldNames =>
    let names := tokens [] fieldNames.toList
    if (json.get "field_amount").asString?.bind (fun s => stoi s.toList) ≠ some names.length then
      .error .internal
    else do
      let fields ← findFields table names
      init ((json.get "is_unique").asBool?.getD false) name fields
  | _, _ => .error .internal

end IndexMeta

/-! ## Tables -/

namespace TableMeta

def addIndex (table : TableMeta) (index : IndexMeta) : TableMeta :=
  { table with indexes := table.indexes ++ [index] }

/-- `serialize`, up to the text that the JSON library writes. -/
def serialize (table : TableMeta) : Option Json :=
  (table.indexes.mapM IndexMeta.toJson).map fun indexes =>
    .object [("table_id", .int table.tableId.toInt), ("table_name", .string table.name),
      ("fields", .ofList (table.fields.map FieldMeta.toJson)), ("indexes", .ofList indexes)]

/-- The part of `deserialize` that reads the indexes. -/
def loadIndexes (table : TableMeta) : Json → Except RC TableMeta
  | .null | .object [] => .ok table
  | .array indexes => do
    let indexes ← indexes.mapM (IndexMeta.fromJson table)
    return { table with indexes := indexes }
  | _ => .error .internal

/-- `deserialize` into a new `TableMeta`, from what the JSON library has read. -/
def deserialize (std : StdSort.Sorter FieldMeta) (json : Json) : Except RC TableMeta :=
  match (json.get "table_id").asInt?, (json.get "table_name").asString?, json.get "fields" with
  | some tableId, some name, .array (field :: fields) => do
    let fields ← (field :: fields).mapM FieldMeta.fromJson
    let fields := std.sort (fun f1 f2 => f1.offset < f2.offset) fields
    let last := fields.getLastD ⟨"", .undefined, 0, 0, false, false⟩
    let first := fields.headD ⟨"", .undefined, 0, 0, false, false⟩
    loadIndexes ⟨Int32.ofInt tableId, name, fields, [], last.offset + last.len - first.offset⟩
      (json.get "indexes")
  | _, _, _ => .error .internal

end TableMeta

/-! ## Reading back what was written -/

/-- `[A-Za-z0-9_]`. -/
def isNameChar (c : Char) : Bool :=
  c = '_' || 48 ≤ c.toNat && c.toNat ≤ 57 || 65 ≤ c.toNat && c.toNat ≤ 90 ||
    97 ≤ c.toNat && c.toNat ≤ 122

def IsIdentifier (name : String) : Prop := name.toList ≠ [] ∧ name.toList.all isNameChar = true

theorem isSpace_eq_false {c : Char} (h : 32 < c.toNat) : isSpace c = false := by
  have hblank : c ≠ ' ' := by
    rintro rfl
    exact absurd h (by decide)
  simp only [isSpace, hblank, decide_false, Bool.false_or, Bool.and_eq_false_iff,
    decide_eq_false_iff_not]
  omega

theorem IsIdentifier.isSpace {name : String} (h : IsIdentifier name) {c : Char}
    (hc : c ∈ name.toList) : isSpace c = false := by
  apply isSpace_eq_false
  have hname := List.all_eq_true.mp h.2 c hc
  simp only [isNameChar, Bool.or_eq_true, Bool.and_eq_true, decide_eq_true_eq] at hname
  rcases hname with ((rfl | hname) | hname) | hname
  · decide
  · omega
  · omega
  · omega

theorem attrTypeFromString_toString (type : AttrType) :
    attrTypeFromString (attrTypeToString type) = type := by
  cases type <;> decide

theorem mapM_map_ok {α β ε : Type} {f : β → Except ε α} {g : α → β} {l : List α}
    (h : ∀ x ∈ l, f (g x) = .ok x) : (l.map g).mapM f = .ok l := by
  induction l with
  | nil => rfl
  | cons x l ih =>
    rw [List.map_cons, List.mapM_cons, h x List.mem_cons_self,
      ih fun y hy => h y (List.mem_cons_of_mem _ hy)]
    rfl

theorem asInt?_eq_some {val : ℤ} (h : -(2 ^ 31) ≤ val) (h' : val < 2 ^ 31) :
    (Json.int val).asInt? = some val := by
  rw [Json.asInt?, if_pos ⟨h, h'⟩]

theorem asInt?_natCast {n : ℕ} (h : n < 2 ^ 31) : (Json.int n).asInt? = some (n : ℤ) :=
  asInt?_eq_some (by omega) (by omega)

def FieldMeta.Valid (field : FieldMeta) : Prop :=
  FieldMeta.init field.name field.type field.offset field.len field.nullable field.visible =
    .ok field

theorem FieldMeta.fromJson_object {members : List (String × Json)} {name typeName : String}
    {offset len : ℤ} {visible nullable : Bool}
    (hname : ((Json.object members).get "name").asString? = some name)
    (htype : ((Json.object members).get "type").asString? = some typeName)
    (hoffset : ((Json.object members).get "offset").asInt? = some offset)
    (hlen : ((Json.object members).get "len").asInt? = some len)
    (hvisible : ((Json.object members).get "visible").asBool? = some visible)
    (hnullable : ((Json.object members).get "nullable").asBool? = some nullable) :
    fromJson (.object members) =
      if attrTypeFromString typeName = .undefined then .error .internal
      else if offset < 0 ∨ len < 0 then .error .invalidArgument
      else FieldMeta.init name (attrTypeFromString typeName) offset.toNat len.toNat nullable
        visible := by
  unfold fromJson
  simp only [hname, htype, hoffset, hlen, hvisible, hnullable]

theorem FieldMeta.fromJson_toJson {field : FieldMeta} (h : field.Valid) :
    fromJson field.toJson = .ok field := by
  have hbounds : field.type ≠ .undefined ∧ field.offset < 2 ^ 31 ∧ field.len < 2 ^ 31 := by
    unfold Valid FieldMeta.init at h
    split_ifs at h with hblank hinvalid
    simp only [not_or, not_le] at hinvalid
    exact ⟨hinvalid.1, hinvalid.2.1, hinvalid.2.2.2⟩
  obtain ⟨htype, hoffset, hlen⟩ := hbounds
  have hget : (field.toJson.get "name").asString? = some field.name ∧
      (field.toJson.get "type").asString? = some (attrTypeToString field.type) ∧
      (field.toJson.get "offset").asInt? = some (field.offset : ℤ) ∧
      (field.toJson.get "len").asInt? = some (field.len : ℤ) ∧
      (field.toJson.get "visible").asBool? = some field.visible ∧
      (field.toJson.get "nullable").asBool? = some field.nullable := by
    simp only [toJson, Json.get_cons_ne, Json.get_cons_self, ne_eq, String.reduceEq,
      not_false_eq_true, asInt?_natCast hoffset, asInt?_natCast hlen, Json.asString?, Json.asBool?,
      and_self]
  obtain ⟨hname, htypeName, hoffset', hlen', hvisible, hnullable⟩ := hget
  rw [toJson, fromJson_object hname htypeName hoffset' hlen' hvisible hnullable,
    attrTypeFromString_toString, if_neg htype, if_neg (by omega), Int.toNat_natCast,
    Int.toNat_natCast]
  exact h

theorem tokens_append {cs : List Char} (h : ∀ c ∈ cs, isSpace c = false) (token rest : List Char) :
    tokens token (cs ++ rest) = tokens (token ++ cs) rest := by
  induction cs generalizing token with
  | nil => rw [List.nil_append, List.append_nil]
  | cons c cs ih =>
    rw [List.cons_append, tokens, h c List.mem_cons_self, if_neg Bool.false_ne_true,
      ih fun d hd => h d (List.mem_cons_of_mem _ hd), List.append_assoc, List.singleton_append]

theorem IndexMeta.tokens_multiFieldsNames {names : List String} (hne : names ≠ [])
    (h : ∀ name ∈ names, IsIdentifier name) :
    ∃ chars, multiFieldsNames names = some chars ∧ tokens [] chars = names.map String.toList := by
  induction names with
  | nil => exact absurd rfl hne
  | cons name names ih =>
    have hname := h name List.mem_cons_self
    have hspace : ∀ c ∈ name.toList, isSpace c = false :=
      fun c hc => hname.isSpace hc
    cases names with
    | nil =>
      refine ⟨name.toList, rfl, ?_⟩
      have happend := tokens_append hspace [] []
      rw [List.append_nil, List.nil_append] at happend
      rw [happend, tokens, if_neg hname.1]
      rfl
    | cons name' names =>
      obtain ⟨chars, hchars, htokens⟩ := ih (List.cons_ne_nil _ _)
        fun n hn => h n (List.mem_cons_of_mem _ hn)
      refine ⟨name.toList ++ ' ' :: chars, ?_, ?_⟩
      · rw [multiFieldsNames, hchars]
        · rfl
        · exact List.cons_ne_nil _ _
      · rw [tokens_append hspace, List.nil_append, tokens,
          if_pos (show isSpace ' ' = true by decide), if_neg hname.1, htokens]
        rfl

theorem stoi_toDigits (n : ℕ) : stoi (Nat.toDigits 10 n) = some n := by
  have hdigit : ∀ c ∈ Nat.toDigits 10 n, c.isDigit = true :=
    fun c hc => Nat.isDigit_of_mem_toDigits (by omega) (by omega) hc
  have hdrop : (Nat.toDigits 10 n).dropWhile isSpace = Nat.toDigits 10 n := by
    rw [List.dropWhile_eq_self_iff]
    intro hlength
    have hhead := hdigit _ (List.getElem_mem hlength)
    have hzero : '0'.toNat = 48 := rfl
    rw [Char.isDigit_iff_toNat, hzero] at hhead
    rw [isSpace_eq_false (by omega)]
    exact Bool.false_ne_true
  unfold stoi
  rw [hdrop, List.takeWhile_eq_self_iff.mpr hdigit]
  simp only [Nat.toDigits_ne_nil, if_false, Nat.ofDigitChars_ten_toDigits]

theorem IndexMeta.findFields_ok {table : TableMeta} {names : List String}
    (h : ∀ name ∈ names, ∃ field ∈ table.fields, field.name = name) :
    ∃ fields, findFields table (names.map String.toList) = .ok fields ∧
      fields.map FieldMeta.name = names := by
  induction names with
  | nil => exact ⟨[], rfl, rfl⟩
  | cons name names ih =>
    obtain ⟨fields, hfields, hnames⟩ := ih fun n hn => h n (List.mem_cons_of_mem _ hn)
    have hsome : (table.fields.find? fun field => field.name = name).isSome = true := by
      rw [List.find?_isSome]
      obtain ⟨field, hmem, hname⟩ := h name List.mem_cons_self
      exact ⟨field, hmem, decide_eq_true hname⟩
    obtain ⟨field, hfield⟩ := Option.isSome_iff_exists.mp hsome
    refine ⟨field :: fields, ?_, ?_⟩
    · rw [List.map_cons, findFields, String.ofList_toList, hfield, hfields]
      rfl
    · have hname : field.name = name := by simpa using List.find?_some hfield
      rw [List.map_cons, hnames, hname]

/-- Index metadata from `init` for fields of a table. -/
def IndexMeta.Of (table : TableMeta) (index : IndexMeta) : Prop :=
  ∃ (isUnique : Bool) (name : String) (fields : List FieldMeta), fields ≠ [] ∧
    (∀ field ∈ fields, field ∈ table.fields) ∧ init isUnique name fields = .ok index

theorem IndexMeta.fromJson_toJson {table : TableMeta} {index : IndexMeta}
    (hnames : ∀ field ∈ table.fields, IsIdentifier field.name) (h : index.Of table) :
    ∃ json, index.toJson = some json ∧ fromJson table json = .ok index := by
  obtain ⟨isUnique, name, fields, hne, hmem, hinit⟩ := h
  unfold init at hinit
  split_ifs at hinit with hblank
  obtain rfl := Except.ok.inj hinit
  have hidentifiers : ∀ name ∈ fields.map FieldMeta.name, IsIdentifier name := by
    intro name hname
    obtain ⟨field, hfield, rfl⟩ := List.mem_map.mp hname
    exact hnames field (hmem field hfield)
  obtain ⟨chars, hchars, htokens⟩ :=
    tokens_multiFieldsNames (mt List.map_eq_nil_iff.mp hne) hidentifiers
  obtain ⟨found, hfound, hfoundNames⟩ := @findFields_ok table (fields.map FieldMeta.name) (by
    intro name hname
    obtain ⟨field, hfield, rfl⟩ := List.mem_map.mp hname
    exact ⟨field, hmem field hfield, rfl⟩)
  rw [toJson, hchars]
  refine ⟨_, rfl, ?_⟩
  simp only [fromJson, Json.get_cons_ne, Json.get_cons_self, ne_eq, String.reduceEq,
    not_false_eq_true, Json.asString?, Json.asBool?, String.toList_ofList, htokens,
    Option.bind_some, stoi_toDigits, List.length_map, not_true_eq_false, if_false, hfound,
    Option.getD_some]
  change init isUnique name found = _
  rw [init, if_neg hblank, hfoundNames]

namespace TableMeta

theorem init_parts {trx : TrxType} {tableId : Int32} {name : String}
    {attributes : List AttrInfoSqlNode} {table : TableMeta}
    (h : init trx tableId name attributes = .ok table) :
    table.indexes = [] ∧ table.nullBitmapField.name = "null_field" := by
  unfold init at h
  split_ifs at h with hblank hempty
  obtain ⟨columns, hcolumns, h⟩ := Expression.exists_of_bind_ok h
  obtain ⟨nullField, hnull, h⟩ := Expression.exists_of_bind_ok h
  obtain rfl := Except.ok.inj h
  refine ⟨rfl, ?_⟩
  unfold nullBitmapField
  rw [List.getLastD_concat, (FieldMeta.init_eq hnull).1]

theorem valid_trxFields (trx : TrxType) :
    ∀ f ∈ (initTrxFields 0 trx.trxFields).1, f.Valid ∧ IsIdentifier f.name := by
  cases trx with
  | vacuous =>
    intro f hf
    cases hf
  | mvcc =>
    have hmvcc : (initTrxFields 0 TrxType.mvcc.trxFields).1 = TrxType.mvcc.trxFields := rfl
    rw [hmvcc]
    unfold TrxType.trxFields FieldMeta.Valid IsIdentifier
    decide +kernel

section Fields

variable {trx : TrxType} {table : TableMeta} {attributes : List AttrInfoSqlNode}
  (h : Built trx table attributes)

include h

theorem Built.mem_fields {f : FieldMeta} (hf : f ∈ table.fields) :
    f ∈ (initTrxFields 0 trx.trxFields).1 ∨
    (∃ attr ∈ attributes, FieldMeta.init attr.name attr.type f.offset attr.length attr.nullable
      true = .ok f) ∨ f = table.nullBitmapField := by
  rw [h.fields, List.mem_append, List.mem_append, List.mem_singleton] at hf
  rcases hf with (hf | hf) | hf
  · exact .inl hf
  · obtain ⟨i, hi, rfl⟩ := List.getElem_of_mem hf
    have hi' : i < attributes.length := by rwa [← h.columns.length_eq]
    exact .inr (.inl ⟨attributes[i], List.getElem_mem hi',
      forall₂_getElem? h.columns (List.getElem?_eq_getElem hi) (List.getElem?_eq_getElem hi')⟩)
  · exact .inr (.inr hf)

theorem Built.valid {f : FieldMeta} (hf : f ∈ table.fields) : f.Valid := by
  rcases h.mem_fields hf with hf | ⟨attr, -, hinit⟩ | rfl
  · exact (valid_trxFields trx f hf).1
  · obtain ⟨heq, -⟩ := FieldMeta.init_eq hinit
    have hparts : f.name = attr.name ∧ f.type = attr.type ∧ f.len = attr.length ∧
        f.nullable = attr.nullable ∧ f.visible = true := by
      rw [heq]
      exact ⟨rfl, rfl, rfl, rfl, rfl⟩
    obtain ⟨hname, htype, hlen, hnullable, hvisible⟩ := hparts
    rw [FieldMeta.Valid, hname, htype, hlen, hnullable, hvisible]
    exact hinit
  · exact h.nullField

theorem Built.isIdentifier (hnames : ∀ attr ∈ attributes, IsIdentifier attr.name)
    (hnull : IsIdentifier table.nullBitmapField.name) {f : FieldMeta} (hf : f ∈ table.fields) :
    IsIdentifier f.name := by
  rcases h.mem_fields hf with hf | ⟨attr, hattr, hinit⟩ | rfl
  · exact (valid_trxFields trx f hf).2
  · rw [(FieldMeta.init_eq hinit).1]
    exact hnames attr hattr
  · exact hnull

theorem Built.sorted : table.fields.Pairwise fun f g => decide (f.offset < g.offset) = true := by
  apply h.layout.disjoint.imp_of_mem
  intro f g hf _ hle
  have hlen := (FieldMeta.init_eq (h.valid hf)).2
  exact decide_eq_true (by omega)

theorem Built.recordSize_eq : table.nullBitmapField.offset + table.nullBitmapField.len -
    (table.fields.headD ⟨"", .undefined, 0, 0, false, false⟩).offset = table.recordSize := by
  have hfirst := h.between.first
  have hne := h.layout.nonempty
  rw [h.recordSize]
  generalize table.fields = fields at hfirst hne ⊢
  cases fields with
  | nil => exact absurd rfl hne
  | cons f fields =>
    have hzero : f.offset = 0 := hfirst
    rw [List.headD_cons, hzero, Nat.sub_zero]

end Fields

theorem strictWeakOn_offset (fields : List FieldMeta) :
    StdSort.StrictWeakOn (fun f1 f2 : FieldMeta => decide (f1.offset < f2.offset)) fields where
  irrefl f _ := decide_eq_false (lt_irrefl _)
  trans f _ g _ k _ hfg hgk := by
    rw [decide_eq_true_eq] at hfg hgk ⊢
    exact hfg.trans hgk
  equiv_trans f _ g _ k _ hfg hgf hgk hkg := by
    rw [decide_eq_false_iff_not] at hfg hgf hgk hkg ⊢
    omega

theorem foldl_addIndex (table : TableMeta) (indexes : List IndexMeta) :
    indexes.foldl addIndex table = { table with indexes := table.indexes ++ indexes } := by
  induction indexes generalizing table with
  | nil => rw [List.foldl_nil, List.append_nil]
  | cons index indexes ih =>
    rw [List.foldl_cons, ih]
    simp [addIndex]

theorem mapM_toJson {table : TableMeta} {indexes : List IndexMeta}
    (hnames : ∀ field ∈ table.fields, IsIdentifier field.name)
    (hindexes : ∀ index ∈ indexes, index.Of table) :
    ∃ jsons, indexes.mapM IndexMeta.toJson = some jsons ∧
      jsons.mapM (IndexMeta.fromJson table) = .ok indexes := by
  induction indexes with
  | nil => exact ⟨[], rfl, rfl⟩
  | cons index indexes ih =>
    obtain ⟨json, hjson, hindex⟩ :=
      IndexMeta.fromJson_toJson hnames (hindexes index List.mem_cons_self)
    obtain ⟨jsons, hjsons, hrest⟩ := ih fun i hi => hindexes i (List.mem_cons_of_mem _ hi)
    refine ⟨json :: jsons, ?_, ?_⟩
    · rw [List.mapM_cons, hjson, hjsons]
      rfl
    · rw [List.mapM_cons, hindex, hrest]
      rfl

theorem deserialize_eq {std : StdSort.Sorter FieldMeta} {json : Json} {table : TableMeta}
    {field : Json} {fields indexes : List Json} {metas : List IndexMeta}
    (hid : (json.get "table_id").asInt? = some table.tableId.toInt)
    (hname : (json.get "table_name").asString? = some table.name)
    (hfields : json.get "fields" = .array (field :: fields))
    (hindexes : json.get "indexes" = .ofList indexes) (hempty : table.indexes = [])
    (hmapM : (field :: fields).mapM FieldMeta.fromJson = .ok table.fields)
    (hsort : std.sort (fun f1 f2 => f1.offset < f2.offset) table.fields = table.fields)
    (hsize : table.nullBitmapField.offset + table.nullBitmapField.len -
      (table.fields.headD ⟨"", .undefined, 0, 0, false, false⟩).offset = table.recordSize)
    (hmetas : indexes.mapM (IndexMeta.fromJson table) = .ok metas) :
    deserialize std json = .ok { table with indexes := metas } := by
  let fields' := std.sort (fun f1 f2 => f1.offset < f2.offset) table.fields
  have hload : deserialize std json = loadIndexes ⟨Int32.ofInt table.tableId.toInt, table.name,
      fields', [], (fields'.getLastD ⟨"", .undefined, 0, 0, false, false⟩).offset +
        (fields'.getLastD ⟨"", .undefined, 0, 0, false, false⟩).len -
        (fields'.headD ⟨"", .undefined, 0, 0, false, false⟩).offset⟩ (.ofList indexes) := by
    unfold deserialize
    simp only [hid, hname, hfields, hmapM, hindexes]
    rfl
  have htable : (⟨Int32.ofInt table.tableId.toInt, table.name, table.fields, [],
      table.recordSize⟩ : TableMeta) = table := by
    rw [Int32.ofInt_toInt, ← hempty]
  unfold nullBitmapField at hsize
  rw [hload, show fields' = table.fields from hsort, hsize, htable]
  cases indexes with
  | nil =>
    obtain rfl : table.indexes = metas := hempty.trans (Except.ok.inj hmetas)
    rfl
  | cons index indexes =>
    rw [Json.ofList, loadIndexes, hmetas]
    rfl

/-- A table's metadata comes back from its file as it was written. -/
theorem deserialize_serialize (std : StdSort.Sorter FieldMeta) (trx : TrxType) (tableId : Int32)
    (name : String) (attributes : List AttrInfoSqlNode) (table : TableMeta)
    (indexes : List IndexMeta) (hinit : init trx tableId name attributes = .ok table)
    (hnames : ∀ attr ∈ attributes, IsIdentifier attr.name)
    (hindexes : ∀ index ∈ indexes, index.Of table) :
    ∃ json, (indexes.foldl addIndex table).serialize = some json ∧
      deserialize std json = .ok (indexes.foldl addIndex table) := by
  have hbuilt := init_built hinit
  obtain ⟨hempty, hnull⟩ := init_parts hinit
  have hidentifiers : ∀ f ∈ table.fields, IsIdentifier f.name := by
    intro f hf
    refine hbuilt.isIdentifier hnames ?_ hf
    rw [hnull]
    unfold IsIdentifier
    decide
  obtain ⟨jsons, hjsons, hmetas⟩ := mapM_toJson hidentifiers hindexes
  have hmapM : (table.fields.map FieldMeta.toJson).mapM FieldMeta.fromJson = .ok table.fields :=
    mapM_map_ok fun f hf => FieldMeta.fromJson_toJson (hbuilt.valid hf)
  obtain ⟨f, fields, hcons⟩ := List.exists_cons_of_ne_nil hbuilt.layout.nonempty
  rw [foldl_addIndex, hempty, List.nil_append]
  rw [hcons, List.map_cons, ← hcons] at hmapM
  have hid : (Json.int table.tableId.toInt).asInt? = some table.tableId.toInt :=
    asInt?_eq_some table.tableId.le_toInt table.tableId.toInt_lt
  have hsort := std.sort_eq_self (strictWeakOn_offset _) hbuilt.sorted
  have hserialize : ({ table with indexes := indexes } : TableMeta).serialize =
      some (.object [("table_id", .int table.tableId.toInt), ("table_name", .string table.name),
        ("fields", .array (f.toJson :: fields.map FieldMeta.toJson)),
        ("indexes", .ofList jsons)]) := by
    rw [serialize, hjsons, hcons]
    rfl
  refine ⟨_, hserialize, ?_⟩
  refine deserialize_eq ?_ ?_ ?_ ?_ hempty hmapM hsort hbuilt.recordSize_eq hmetas
  · rw [Json.get_cons_self, hid]
  all_goals simp only [Json.get_cons_ne, Json.get_cons_self, ne_eq, String.reduceEq,
    not_false_eq_true, Json.asString?]

/-- An index on a column, with the fields of the transactions behind it. -/
theorem deserialize_serialize_mvcc :
    ∃ table index json, init .mvcc 7 "t" [⟨"a", .ints, 4, true⟩, ⟨"b", .chars, 2, false⟩] =
        .ok table ∧
      IndexMeta.init true "i" ((table.fields.drop 2).take 1 ++ table.fields.take 2) = .ok index ∧
      (table.addIndex index).serialize = some json ∧
      deserialize StdSort.mergeSorter json = .ok (table.addIndex index) := by
  let table : TableMeta := ⟨7, "t", [⟨"__trx_xid_begin", .ints, 0, 4, true, false⟩,
    ⟨"__trx_xid_end", .ints, 4, 4, true, false⟩, ⟨"a", .ints, 8, 4, true, true⟩,
    ⟨"b", .chars, 12, 2, false, true⟩, ⟨"null_field", .chars, 14, 1, false, false⟩], [], 15⟩
  have htable : init .mvcc 7 "t" [⟨"a", .ints, 4, true⟩, ⟨"b", .chars, 2, false⟩] = .ok table := by
    decide +kernel
  have hindex : IndexMeta.init true "i" ((table.fields.drop 2).take 1 ++ table.fields.take 2) =
      .ok ⟨true, "i", ["a", "__trx_xid_begin", "__trx_xid_end"]⟩ := by decide +kernel
  obtain ⟨json, hjson, hback⟩ := deserialize_serialize StdSort.mergeSorter .mvcc 7 "t"
    [⟨"a", .ints, 4, true⟩, ⟨"b", .chars, 2, false⟩] table
    [⟨true, "i", ["a", "__trx_xid_begin", "__trx_xid_end"]⟩] htable
    (by unfold IsIdentifier; decide) (by
      intro index hmem
      obtain rfl := List.mem_singleton.mp hmem
      exact ⟨true, "i", _, List.cons_ne_nil _ _, by decide, hindex⟩)
  exact ⟨table, _, json, htable, hindex, hjson, hback⟩

end TableMeta

end TDB.Recorder
