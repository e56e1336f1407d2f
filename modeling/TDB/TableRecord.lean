import TDB.Lib.ByteBits
import TDB.Lib.ByteMemory
import TDB.Lib.LittleEndian
import TDB.QueryRun

namespace TDB.Recorder

open ByteBits ByteMemory

/-! ## The metadata of a table -/

/-- `AttrInfoSqlNode`: a column of `CREATE TABLE`. -/
structure AttrInfoSqlNode where
  name : String
  type : AttrType
  length : ℕ
  nullable : Bool

structure FieldMeta where
  name : String
  type : AttrType
  offset : ℕ
  len : ℕ
  nullable : Bool
  visible : Bool
  deriving DecidableEq

structure IndexMeta where
  isUnique : Bool
  name : String
  multiFields : List String
  deriving DecidableEq

/-- `TableMeta`: the fields of the transactions, the columns, and behind them the field that holds
the null bits. -/
structure TableMeta where
  tableId : Int32
  name : String
  fields : List FieldMeta
  indexes : List IndexMeta
  recordSize : ℕ
  deriving DecidableEq

inductive TrxType where
  | vacuous | mvcc
  deriving DecidableEq

/-- `trx_fields`, where no fields and the null pointer are the same. -/
def TrxType.trxFields : TrxType → List FieldMeta
  | .vacuous => []
  | .mvcc => [⟨"__trx_xid_begin", .ints, 0, 4, true, false⟩,
      ⟨"__trx_xid_end", .ints, 4, 4, true, false⟩]

def TrxType.sysFieldNum (trx : TrxType) : ℕ := trx.trxFields.length

def isBlank (s : String) : Bool := s.toList.all fun c => c = ' ' || 9 ≤ c.toNat && c.toNat ≤ 13

/-- `FieldMeta::init`.  From `2 ^ 31` on an offset or a length is negative as an `int`. -/
def FieldMeta.init (name : String) (type : AttrType) (offset len : ℕ) (nullable visible : Bool) :
    Except RC FieldMeta :=
  if isBlank name then .error .invalidArgument
  else if type = .undefined ∨ 2 ^ 31 ≤ offset ∨ len = 0 ∨ 2 ^ 31 ≤ len then
    .error .invalidArgument
  else .ok ⟨name, type, offset, len, nullable, visible⟩

namespace TableMeta

/-- The loop of `init` over the fields of the transactions, with the offset behind the last one. -/
def initTrxFields : ℕ → List FieldMeta → List FieldMeta × ℕ
  | offset, [] => ([], offset)
  | offset, field :: fields =>
    let rest := initTrxFields (offset + field.len) fields
    (⟨field.name, field.type, offset, field.len, true, false⟩ :: rest.1, rest.2)

def initColumns : ℕ → List AttrInfoSqlNode → Except RC (List FieldMeta × ℕ)
  | offset, [] => .ok ([], offset)
  | offset, attr :: attrs => do
    let field ← FieldMeta.init attr.name attr.type offset attr.length attr.nullable true
    let rest ← initColumns (offset + attr.length) attrs
    return (field :: rest.1, rest.2)

def init (trx : TrxType) (tableId : Int32) (name : String) (attributes : List AttrInfoSqlNode) :
    Except RC TableMeta :=
  if isBlank name then .error .invalidArgument
  else if attributes.isEmpty then .error .invalidArgument
  else do
    let trxFields := initTrxFields 0 trx.trxFields
    let columns ← initColumns trxFields.2 attributes
    let nullFieldLen := (attributes.length + trx.sysFieldNum - 1) / 8 + 1
    let nullField ← FieldMeta.init "null_field" .chars columns.2 nullFieldLen false false
    return ⟨tableId, name, trxFields.1 ++ columns.1 ++ [nullField], [], columns.2 + nullFieldLen⟩

def nullBitmapField (table : TableMeta) : FieldMeta :=
  table.fields.getLastD ⟨"", .undefined, 0, 0, false, false⟩

/-- The fields between those of the transactions and the null bits. -/
def columns (trx : TrxType) (table : TableMeta) : List FieldMeta :=
  (table.fields.drop trx.sysFieldNum).dropLast

def nullBits (table : TableMeta) (record : ℕ → BitVec 8) : ℕ → BitVec 8 :=
  fun k => record (table.nullBitmapField.offset + k)

def withNullBits (table : TableMeta) (bytes record : ℕ → BitVec 8) : ℕ → BitVec 8 :=
  fun k =>
    if table.nullBitmapField.offset ≤ k then bytes (k - table.nullBitmapField.offset) else record k

end TableMeta

/-! ## Reading a record -/

def charsOf (bytes : List (BitVec 8)) : List UInt8 := bytes.map UInt8.ofBitVec

def bytesOfChars (text : List UInt8) : List (BitVec 8) := text.map UInt8.toBitVec

/-- `Value::set_data` for a type: a text ends at its first zero byte, a number has four bytes. -/
def setData (type : AttrType) (mem : ℕ → BitVec 8) (addr length : ℕ) : Value :=
  let text := (charsOf (read mem addr length)).takeWhile (· ≠ 0)
  let word := LittleEndian.decode (charsOf (read mem addr 4))
  match type with
  | .chars => .chars text
  | .texts => .texts text
  | .ints => .ints word
  | .floats => .floats word.toUInt32
  | .booleans => .booleans (word ≠ 0)
  | .dates => .dates word
  | .nulls => .nulls
  | .undefined => .undefined

def memoryOf (data : List (BitVec 8)) : ℕ → BitVec 8 := fun k => data.getD k 0#8

namespace TableMeta

def cell (table : TableMeta) (record : ℕ → BitVec 8) (index : ℕ) (field : FieldMeta) : Value :=
  if bit (table.nullBits record) index then .nulls
  else setData field.type record field.offset field.len

def row (trx : TrxType) (table : TableMeta) (data : List (BitVec 8)) : List Value :=
  (table.columns trx).mapIdx fun i => table.cell (memoryOf data) (trx.sysFieldNum + i)

/-- `RowTuple::cell_at`.  The bit of the last field may lie behind the record. -/
def cellAt (table : TableMeta) (data : List (BitVec 8)) (index : ℕ) : Except Failure Value :=
  match table.fields[index]? with
  | none => .error (.code .invalidArgument)
  | some field =>
    if 8 * table.nullBitmapField.len ≤ index then .error .crash
    else .ok (table.cell (memoryOf data) index field)

def rowTuple (table : TableMeta) (tableAlias : String) (data : List (BitVec 8)) : Tuple where
  cells := (List.range table.fields.length).map (table.cellAt data)
  findCell spec :=
    if spec.tableName ≠ table.name ∨ spec.aliasName ≠ tableAlias then .error (.code .notfound)
    else match table.fields.findIdx? fun field => field.name = spec.fieldName with
      | some index => table.cellAt data index
      | none => .error (.code .notfound)

end TableMeta

/-! ## Making a record -/

def castTo (i j : AttrType) : Bool :=
  i ∈ [.chars, .ints, .floats] && j ∈ [.chars, .ints, .floats]

/-- `type_cast_not_support`; `none` is an access behind the table, which ends with `FLOATS`. -/
def typeCastNotSupport (i j : AttrType) : Option Bool :=
  if i ∈ [.booleans, .texts] ∨ j ∈ [.booleans, .texts] then none else some (!castTo i j)

def checkValue (field : FieldMeta) (value : Value) : Except Failure Unit :=
  if value.isNull then
    if field.nullable then .ok () else .error (.code .schemaFieldTypeMismatch)
  else if field.type = value.attrType then .ok ()
  else match typeCastNotSupport field.type value.attrType with
    | none => .error .crash
    | some true => .error (.code .schemaFieldTypeMismatch)
    | some false => .ok ()

/-- What the source leaves open about a new record: the memory that `malloc` returns, the random
number that is copied for a null value of each column, and the bytes that lie in memory behind what
is copied, which a copy reads that is longer than it. -/
structure Unspecified where
  malloc : ℕ → BitVec 8
  hashValue : ℕ → Vector (BitVec 8) 8
  behind : ℕ → List (BitVec 8)

section Make

/- `getString` is `get_string` of the values that are not texts. -/
variable (lib : StdLib) (getString : Value → List UInt8)

def textOf : Value → List UInt8
  | .chars str => str
  | .texts text => text
  | value => (getString value).takeWhile (· ≠ 0)

def floatBits : Value → UInt32
  | .floats bits => bits
  | value => (value.getFloat lib).toBits

/-- `copy_len` and the bytes of what is copied: a text with its terminator, or a number. -/
def copied (field : FieldMeta) (value : Value) : ℕ × List (BitVec 8) :=
  match field.type with
  | .chars | .texts =>
    let text := textOf getString value
    (if text.length < field.len then text.length + 1 else field.len, bytesOfChars (text ++ [0]))
  | .ints | .dates | .booleans =>
    (field.len, bytesOfChars (LittleEndian.encode (value.getInt lib)))
  | .floats => (field.len, bytesOfChars (LittleEndian.encode (.ofUInt32 (floatBits lib value))))
  | .nulls | .undefined => (0, [])

def changeRecordValue (table : TableMeta) (unspecified : Unspecified) (idx : ℕ)
    (field : FieldMeta) (value : Value) (record : ℕ → BitVec 8) :
    Except Failure (ℕ → BitVec 8) :=
  let behind := unspecified.behind idx
  if value.isNull then
    if field.nullable then
      let record := table.withNullBits (setBit (table.nullBits record) idx) record
      let hashValue := (unspecified.hashValue idx).toList
      .ok (memcpy field.offset field.len (hashValue ++ behind) record)
    else .error (.code .schemaFieldTypeMismatch)
  else
    let record := table.withNullBits (clearBit (table.nullBits record) idx) record
    let (copyLen, bytes) := copied lib getString field value
    .ok (memcpy field.offset copyLen (bytes ++ behind) record)

/-- The two loops of `make_record`. -/
def checkValues : List FieldMeta → List Value → Except Failure Unit
  | field :: fields, value :: values => do
    checkValue field value
    checkValues fields values
  | _, _ => .ok ()

def changeRecordValues (table : TableMeta) (unspecified : Unspecified) :
    ℕ → List FieldMeta → List Value → (ℕ → BitVec 8) → Except Failure (ℕ → BitVec 8)
  | idx, field :: fields, value :: values, record => do
    let record ← changeRecordValue lib getString table unspecified idx field value record
    changeRecordValues table unspecified (idx + 1) fields values record
  | _, _, _, record => .ok record

def makeRecord (trx : TrxType) (table : TableMeta) (unspecified : Unspecified)
    (values : List Value) : Except Failure (List (BitVec 8)) :=
  if values.length + trx.sysFieldNum + 1 ≠ table.fields.length then
    .error (.code .schemaFieldMissing)
  else do
    checkValues (table.columns trx) values
    let record ← changeRecordValues lib getString table unspecified trx.sysFieldNum
      (table.columns trx) values unspecified.malloc
    return read record 0 table.recordSize

/-- The value that a column holds once a value was stored in it. -/
def storedValue (field : FieldMeta) (value : Value) : Value :=
  if value.isNull then .nulls
  else match field.type with
    | .chars => .chars (((textOf getString value).take field.len).takeWhile (· ≠ 0))
    | .texts => .texts (((textOf getString value).take field.len).takeWhile (· ≠ 0))
    | .ints => .ints (value.getInt lib)
    | .dates => .dates (value.getInt lib)
    | .booleans => .booleans (value.getInt lib ≠ 0)
    | .floats => .floats (floatBits lib value)
    | .nulls => .nulls
    | .undefined => .undefined

end Make

end TDB.Recorder
