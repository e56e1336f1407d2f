import TDB.TableMetaJson

namespace TDB.Schema

open Recorder

/-! ## The directory of a database -/

/-- The files of a table: `table_meta_file`, `table_data_file` and `table_index_file`. -/
inductive FileName where
  | table (name : String)
  | data (name : String)
  | index (name indexName : String)
  deriving DecidableEq

/-- The regular files of a directory, with their bytes. -/
abbrev Directory := List (FileName × List UInt8)

namespace Directory

def find (dir : Directory) (file : FileName) : Option (List UInt8) :=
  (List.find? (fun f => f.1 = file) dir).map Prod.snd

/-- A file is opened for writing, which empties it, and gets these bytes. -/
def write (file : FileName) (bytes : List UInt8) (dir : Directory) : Directory :=
  List.map (fun f => if f.1 = file then (file, bytes) else f) dir

def remove (file : FileName) (dir : Directory) : Directory :=
  List.filter (fun f => f.1 ≠ file) dir

/-- The names that match `TABLE_META_FILE_PATTERN`, without the suffix. -/
def tableFiles (dir : Directory) : List String :=
  List.filterMap (fun f => match f.1 with
    | .table name => some name
    | _ => none) dir

end Directory

inductive CreateFileFault where
  | create | access | seek
  | write (written : ℕ)

def headerPage : List UInt8 :=
  List.replicate 8 0 ++ [1, 0, 0, 0, 1, 0, 0, 0, 1] ++ List.replicate 8175 0

def createFile (fault : Option CreateFileFault) (file : FileName) (dir : Directory) :
    RC × Directory :=
  if (dir.find file).isSome then (.schemaDbExist, dir)
  else match fault with
    | some .create => (.schemaDbExist, dir)
    | some .access => (.ioerrAccess, dir ++ [(file, [])])
    | some .seek => (.ioerrSeek, dir ++ [(file, [])])
    | some (.write written) => (.ioerrWrite, dir ++ [(file, headerPage.take written)])
    | none => (.success, dir ++ [(file, headerPage)])

/-! ## `Table` -/

/-- What goes wrong outside in `Table::create`.  Errors of the stream that takes the metadata are
not looked at: `written` bytes reach the file. -/
structure CreateFaults where
  metaCreate : Bool
  metaOpen : Bool
  written : ℕ
  dataFile : Option CreateFileFault
  initRecordHandler : RC

namespace Table

/-- The part of `Table::create` behind the creation of the metadata file, with `write` for the text
of a JSON value. -/
def createFiles (trx : TrxType) (write : Json → List UInt8) (faults : CreateFaults)
    (tableId : Int32) (name : String) (attributes : List AttrInfoSqlNode) (dir : Directory) :
    Except RC TableMeta × Directory :=
  match TableMeta.init trx tableId name attributes with
  | .error rc => (.error rc, dir)
  | .ok table =>
    if faults.metaOpen then (.error .ioerrOpen, dir)
    else
      let text := (table.serialize.map write).getD []
      let dir := dir.write (.table name) (text.take faults.written)
      let created := createFile faults.dataFile (.data name) dir
      if created.1 ≠ .success then (.error created.1, created.2)
      else if faults.initRecordHandler ≠ .success then
        (.error faults.initRecordHandler, created.2)
      else (.ok table, created.2)

def create (trx : TrxType) (write : Json → List UInt8) (faults : CreateFaults) (tableId : Int32)
    (name : String) (attributes : List AttrInfoSqlNode) (dir : Directory) :
    Except RC TableMeta × Directory :=
  if tableId < 0 then (.error .invalidArgument, dir)
  else if isBlank name then (.error .invalidArgument, dir)
  else if attributes.isEmpty then (.error .invalidArgument, dir)
  else if (dir.find (.table name)).isSome then (.error .schemaTableExist, dir)
  else if faults.metaCreate then (.error .ioerrOpen, dir)
  else createFiles trx write faults tableId name attributes (dir ++ [(.table name, [])])

/-- `TableMeta::init` of a view. -/
def initView (trx : TrxType) (tableId : Int32) (name : String)
    (attributes : List AttrInfoSqlNode) : Except RC TableMeta :=
  if isBlank name then .error .invalidArgument
  else do
    let trxFields := TableMeta.initTrxFields 0 trx.trxFields
    let columns ← TableMeta.initColumns trxFields.2 attributes
    let nullFieldLen := (attributes.length + trx.sysFieldNum - 1) / 8 + 1
    let nullField ← FieldMeta.init "null_field" .chars columns.2 nullFieldLen false false
    return ⟨tableId, name, trxFields.1 ++ columns.1 ++ [nullField], [], columns.2 + nullFieldLen⟩

/-- `Table::create` of a view, which has no files. -/
def createView (trx : TrxType) (tableId : Int32) (name : String)
    (attributes : List AttrInfoSqlNode) : Except RC TableMeta :=
  if tableId < 0 then .error .invalidArgument
  else if isBlank name then .error .invalidArgument
  else initView trx tableId name attributes

/-- What goes wrong outside in `Table::drop`: the code of the first index that cannot be flushed,
and the files that exist but cannot be removed. -/
structure DropFaults where
  sync : RC
  unlink : FileName → Bool

def files (table : TableMeta) (name : String) : List FileName :=
  .table name :: .data name :: table.indexes.map fun index => .index name index.name

def unlinkAll (fails : FileName → Bool) : List FileName → Directory → RC × Directory
  | [], dir => (.success, dir)
  | file :: files, dir =>
    if (dir.find file).isNone ∨ fails file then (.fileRemove, dir)
    else unlinkAll fails files (dir.remove file)

def drop (faults : DropFaults) (table : TableMeta) (name : String) (dir : Directory) :
    RC × Directory :=
  if isBlank name then (.invalidArgument, dir)
  else if table.indexes ≠ [] ∧ faults.sync ≠ .success then (faults.sync, dir)
  else unlinkAll faults.unlink (files table name) dir

end Table

/-! ## `Db` -/

structure Db where
  openedTables : List (String × ℕ)
  heap : ℕ → Option TableMeta
  nextTableId : Int32
  dir : Directory

namespace Db

def findTable (db : Db) (name : String) : Option ℕ :=
  (db.openedTables.find? fun entry => entry.1 = name).map Prod.snd

/-- The loop of `find_table` for an id; `none` is a call on a table that has been deleted. -/
def findTableId (heap : ℕ → Option TableMeta) (tableId : Int32) :
    List (String × ℕ) → Option (Option ℕ)
  | [] => some none
  | entry :: entries =>
    match heap entry.2 with
    | none => none
    | some table =>
      if table.tableId = tableId then some (some entry.2) else findTableId heap tableId entries

section Calls

variable (trx : TrxType) (write : Json → List UInt8)

/-- `create_table`, with the address that `new` returns. -/
def createTable (name : String) (attributes : List AttrInfoSqlNode) (addr : ℕ)
    (faults : CreateFaults) (db : Db) : RC × Db :=
  if (db.findTable name).isSome then (.schemaTableExist, db)
  else
    let created := Table.create trx write faults db.nextTableId name attributes db.dir
    let db := { db with nextTableId := db.nextTableId + 1, dir := created.2 }
    match created.1 with
    | .error rc => (rc, db)
    | .ok table => (.success, { db with
        openedTables := db.openedTables ++ [(name, addr)]
        heap := Function.update db.heap addr (some table) })

def createView (name : String) (attributes : List AttrInfoSqlNode) (addr : ℕ) (db : Db) :
    RC × Db :=
  if (db.findTable name).isSome then (.schemaTableExist, db)
  else
    let result := Table.createView trx db.nextTableId name attributes
    let db := { db with nextTableId := db.nextTableId + 1 }
    match result with
    | .error rc => (rc, db)
    | .ok table => (.success, { db with
        openedTables := db.openedTables ++ [(name, addr)]
        heap := Function.update db.heap addr (some table) })

/-- `drop_table`; `none` is a call on a table that has been deleted. -/
def dropTable (name : String) (faults : Table.DropFaults) (db : Db) : Option (RC × Db) :=
  match db.findTable name with
  | none => some (.schemaTableNotExist, db)
  | some addr =>
    match db.heap addr with
    | none => none
    | some table =>
      let dropped := Table.drop faults table name db.dir
      let db := { db with heap := Function.update db.heap addr none, dir := dropped.2 }
      if dropped.1 ≠ .success then some (dropped.1, db)
      else some (.success, { db with
        openedTables := db.openedTables.filter fun entry => entry.1 ≠ name })

inductive Call where
  | createTable (name : String) (attributes : List AttrInfoSqlNode) (addr : ℕ)
      (faults : CreateFaults)
  | createView (name : String) (attributes : List AttrInfoSqlNode) (addr : ℕ)
  | dropTable (name : String) (faults : Table.DropFaults)

def Call.exec (db : Db) : Call → Option (RC × Db)
  | .createTable name attributes addr faults =>
    some (db.createTable trx write name attributes addr faults)
  | .createView name attributes addr => some (db.createView trx name attributes addr)
  | .dropTable name faults => db.dropTable name faults

end Calls

end Db

/-! ## Removing the files of a table -/

theorem Directory.find_remove_self (file : FileName) (dir : Directory) :
    (dir.remove file).find file = none := by
  simp [find, remove]

theorem Directory.find_remove_ne {file file' : FileName} (h : file' ≠ file) (dir : Directory) :
    (dir.remove file).find file' = dir.find file' := by
  unfold find remove
  rw [List.find?_filter]
  congr 2
  funext f
  by_cases hf : f.1 = file'
  · simp [hf, h]
  · simp [hf]

namespace Table

theorem unlinkAll_success_iff {fails : FileName → Bool} {files : List FileName} {dir : Directory} :
    (unlinkAll fails files dir).1 = .success ↔
      files.Nodup ∧ ∀ file ∈ files, (dir.find file).isSome = true ∧ fails file = false := by
  induction files generalizing dir with
  | nil => simp [unlinkAll]
  | cons file files ih =>
    rw [unlinkAll]
    split_ifs with h
    · refine iff_of_false (fun hrc => (by cases hrc)) ?_
      rintro ⟨-, hfiles⟩
      obtain ⟨hfind, hfails⟩ := hfiles file List.mem_cons_self
      rcases h with h | h
      · rw [Option.isNone_iff_eq_none.mp h] at hfind
        cases hfind
      · rw [hfails] at h
        cases h
    · obtain ⟨hfind, hfails⟩ := not_or.mp h
      rw [Option.isNone_iff_eq_none, ← ne_eq, ← Option.isSome_iff_ne_none] at hfind
      rw [Bool.not_eq_true] at hfails
      rw [ih, List.nodup_cons, List.forall_mem_cons]
      constructor
      · rintro ⟨hnodup, hfiles⟩
        have hnotMem : file ∉ files := by
          intro hmem
          have hnone := (hfiles file hmem).1
          rw [Directory.find_remove_self] at hnone
          cases hnone
        refine ⟨⟨hnotMem, hnodup⟩, ⟨hfind, hfails⟩, ?_⟩
        intro file' hfile'
        have hne : file' ≠ file := fun heq => hnotMem (heq ▸ hfile')
        have hfile := hfiles file' hfile'
        rwa [Directory.find_remove_ne hne] at hfile
      · rintro ⟨⟨hnotMem, hnodup⟩, -, hfiles⟩
        refine ⟨hnodup, ?_⟩
        intro file' hfile'
        have hne : file' ≠ file := fun heq => hnotMem (heq ▸ hfile')
        rw [Directory.find_remove_ne hne]
        exact hfiles file' hfile'

def Droppable (faults : DropFaults) (table : TableMeta) (name : String) (dir : Directory) : Prop :=
  isBlank name = false ∧ (table.indexes = [] ∨ faults.sync = .success) ∧
  (files table name).Nodup ∧
  ∀ file ∈ files table name, (dir.find file).isSome = true ∧ faults.unlink file = false

theorem drop_success_iff {faults : DropFaults} {table : TableMeta} {name : String}
    {dir : Directory} :
    (drop faults table name dir).1 = .success ↔ Droppable faults table name dir := by
  unfold drop Droppable
  split_ifs with hblank hsync
  · refine iff_of_false (fun hrc => (by cases hrc)) ?_
    rintro ⟨hname, -⟩
    rw [hblank] at hname
    cases hname
  · refine iff_of_false hsync.2 ?_
    rintro ⟨-, hindexes | hrc, -⟩
    · exact hsync.1 hindexes
    · exact hsync.2 hrc
  · rw [unlinkAll_success_iff]
    have hindexes : table.indexes = [] ∨ faults.sync = .success := by
      rwa [not_and_or, not_not, not_not] at hsync
    rw [Bool.not_eq_true] at hblank
    exact ⟨fun h => ⟨hblank, hindexes, h⟩, fun h => h.2.2⟩

theorem initView_eq {trx : TrxType} {tableId : Int32} {name : String}
    {attributes : List AttrInfoSqlNode} {table : TableMeta}
    (h : initView trx tableId name attributes = .ok table) :
    table.tableId = tableId ∧ table.name = name := by
  unfold initView at h
  split_ifs at h with hblank
  obtain ⟨columns, hcolumns, h⟩ := Expression.exists_of_bind_ok h
  obtain ⟨nullField, hnull, h⟩ := Expression.exists_of_bind_ok h
  obtain rfl := Except.ok.inj h
  exact ⟨rfl, rfl⟩

theorem initView_of_init {trx : TrxType} {tableId : Int32} {name : String}
    {attributes : List AttrInfoSqlNode} {table : TableMeta}
    (h : TableMeta.init trx tableId name attributes = .ok table) :
    initView trx tableId name attributes = .ok table := by
  unfold TableMeta.init at h
  unfold initView
  split_ifs at h with hblank hempty
  rw [if_neg hblank]
  exact h

theorem create_ok {trx : TrxType} {write : Json → List UInt8} {faults : CreateFaults}
    {tableId : Int32} {name : String} {attributes : List AttrInfoSqlNode} {dir : Directory}
    {table : TableMeta}
    (h : (create trx write faults tableId name attributes dir).1 = .ok table) :
    table.tableId = tableId ∧ table.name = name := by
  unfold create at h
  split_ifs at h
  unfold createFiles at h
  cases hinit : TableMeta.init trx tableId name attributes with
  | error rc =>
    rw [hinit] at h
    cases h
  | ok table' =>
    simp only [hinit] at h
    split_ifs at h
    obtain rfl := Except.ok.inj h
    exact initView_eq (initView_of_init hinit)

theorem createView_ok {trx : TrxType} {tableId : Int32} {name : String}
    {attributes : List AttrInfoSqlNode} {table : TableMeta}
    (h : createView trx tableId name attributes = .ok table) :
    table.tableId = tableId ∧ table.name = name := by
  unfold createView at h
  split_ifs at h
  exact initView_eq h

end Table

/-! ## The catalog -/

namespace Db

/-- Every entry points to a table that has not been deleted and has the name of the entry, and no
two tables have the same id. -/
structure Sound (db : Db) : Prop where
  alive : ∀ entry ∈ db.openedTables,
    ∃ table, db.heap entry.2 = some table ∧ table.name = entry.1
  ids : ∀ entry ∈ db.openedTables, ∀ entry' ∈ db.openedTables, entry ≠ entry' →
    ∀ table table', db.heap entry.2 = some table → db.heap entry'.2 = some table' →
      table.tableId ≠ table'.tableId

/-- The invariant of the catalog: its keys are those of a map and the next id is a new one. -/
structure Consistent (db : Db) : Prop extends Sound db where
  keys : (db.openedTables.map Prod.fst).Nodup
  next : ∀ entry ∈ db.openedTables, ∀ table, db.heap entry.2 = some table →
    table.tableId < db.nextTableId

theorem findTable_eq_some {db : Db} {name : String} {addr : ℕ} (h : db.findTable name = some addr) :
    (name, addr) ∈ db.openedTables := by
  obtain ⟨entry, hfind, rfl⟩ := Option.map_eq_some_iff.mp h
  have hname : entry.1 = name := by simpa using List.find?_some hfind
  rw [← hname]
  exact List.mem_of_find?_eq_some hfind

theorem ne_of_findTable_eq_none {db : Db} {name : String} (h : db.findTable name = none) :
    ∀ entry ∈ db.openedTables, entry.1 ≠ name := by
  intro entry hentry
  simpa using List.find?_eq_none.mp (Option.map_eq_none_iff.mp h) entry hentry

theorem lt_add_one {a b : Int32} (hb : b ≠ Int32.maxValue) (h : a ≤ b) : a < b + 1 := by
  rw [Int32.le_iff_toInt_le] at h
  rw [ne_eq, ← Int32.toInt_inj, Int32.toInt_maxValue] at hb
  have hle := b.toInt_le
  have hge := b.le_toInt
  rw [Int32.toInt_maxValue] at hle
  have hone : (1 : Int32).toInt = 1 := rfl
  rw [Int32.lt_iff_toInt_lt, Int32.toInt_add, hone, Int.bmod_eq_of_le]
  · omega
  · omega
  · omega

/-- A table that is not created uses up an id. -/
theorem Consistent.skip {db : Db} (h : db.Consistent) (hnext : db.nextTableId ≠ Int32.maxValue)
    (dir : Directory) :
    ({ db with nextTableId := db.nextTableId + 1, dir := dir } : Db).Consistent := by
  refine ⟨⟨h.alive, h.ids⟩, h.keys, ?_⟩
  intro entry hentry table htable
  exact lt_add_one hnext (Int32.le_of_lt (h.next entry hentry table htable))

theorem Consistent.add {db : Db} (h : db.Consistent) (hnext : db.nextTableId ≠ Int32.maxValue)
    {name : String} (hname : db.findTable name = none) {addr : ℕ} (haddr : db.heap addr = none)
    {table : TableMeta} (htable : table.tableId = db.nextTableId ∧ table.name = name)
    (dir : Directory) :
    (⟨db.openedTables ++ [(name, addr)], Function.update db.heap addr (some table),
      db.nextTableId + 1, dir⟩ : Db).Consistent := by
  have hne : ∀ entry ∈ db.openedTables, entry.2 ≠ addr := by
    intro entry hentry heq
    obtain ⟨table, halive, -⟩ := h.alive entry hentry
    rw [heq, haddr] at halive
    cases halive
  have hold : ∀ entry ∈ db.openedTables,
      Function.update db.heap addr (some table) entry.2 = db.heap entry.2 :=
    fun entry hentry => Function.update_of_ne (hne entry hentry) _ _
  have hnew : Function.update db.heap addr (some table) addr = some table :=
    Function.update_self _ _ _
  -- the new id is above all ids in use, and the name is not open yet
  refine ⟨⟨?_, ?_⟩, ?_, ?_⟩
  · intro entry hentry
    rcases List.mem_append.mp hentry with hentry | hentry
    · simp only [hold entry hentry]
      exact h.alive entry hentry
    · obtain rfl := List.mem_singleton.mp hentry
      exact ⟨table, hnew, htable.2⟩
  · intro entry hentry entry' hentry' hdiff t t' ht ht'
    rcases List.mem_append.mp hentry with hentry | hentry <;>
      rcases List.mem_append.mp hentry' with hentry' | hentry'
    · simp only [hold entry hentry] at ht
      simp only [hold entry' hentry'] at ht'
      exact h.ids entry hentry entry' hentry' hdiff t t' ht ht'
    · obtain rfl := List.mem_singleton.mp hentry'
      simp only [hold entry hentry] at ht
      obtain rfl := Option.some.inj (hnew.symm.trans ht')
      rw [htable.1]
      exact Int32.ne_of_lt (h.next entry hentry t ht)
    · obtain rfl := List.mem_singleton.mp hentry
      simp only [hold entry' hentry'] at ht'
      obtain rfl := Option.some.inj (hnew.symm.trans ht)
      rw [htable.1]
      exact (Int32.ne_of_lt (h.next entry' hentry' t' ht')).symm
    · obtain rfl := List.mem_singleton.mp hentry
      obtain rfl := List.mem_singleton.mp hentry'
      exact absurd rfl hdiff
  · rw [List.map_append, List.nodup_append]
    refine ⟨h.keys, List.nodup_singleton _, ?_⟩
    intro key hkey key' hkey' heq
    obtain ⟨entry, hentry, rfl⟩ := List.mem_map.mp hkey
    obtain rfl := List.mem_singleton.mp hkey'
    exact ne_of_findTable_eq_none hname entry hentry heq
  · intro entry hentry t ht
    rcases List.mem_append.mp hentry with hentry | hentry
    · simp only [hold entry hentry] at ht
      exact lt_add_one hnext (Int32.le_of_lt (h.next entry hentry t ht))
    · obtain rfl := List.mem_singleton.mp hentry
      obtain rfl := Option.some.inj (hnew.symm.trans ht)
      rw [htable.1]
      exact lt_add_one hnext (Int32.le_refl _)

theorem Consistent.erase {db : Db} (h : db.Consistent) {name : String} {addr : ℕ}
    (hname : db.findTable name = some addr) (dir : Directory) :
    (⟨db.openedTables.filter fun entry => entry.1 ≠ name, Function.update db.heap addr none,
      db.nextTableId, dir⟩ : Db).Consistent := by
  have hmem := findTable_eq_some hname
  have hkept : ∀ entry ∈ db.openedTables.filter fun entry => entry.1 ≠ name,
      entry ∈ db.openedTables ∧ Function.update db.heap addr none entry.2 = db.heap entry.2 := by
    intro entry hentry
    obtain ⟨hentry, hne⟩ := List.mem_filter.mp hentry
    have hne : entry.1 ≠ name := of_decide_eq_true hne
    refine ⟨hentry, Function.update_of_ne ?_ _ _⟩
    intro heq
    obtain ⟨table, halive, -⟩ := h.alive entry hentry
    have halive' : db.heap (name, addr).2 = some table := heq ▸ halive
    exact h.ids entry hentry _ hmem (fun h' => hne (by rw [h'])) table table halive halive' rfl
  refine ⟨⟨?_, ?_⟩, h.keys.sublist (List.filter_sublist.map _), ?_⟩
  · intro entry hentry
    simp only [(hkept entry hentry).2]
    exact h.alive entry (hkept entry hentry).1
  · intro entry hentry entry' hentry' hdiff t t' ht ht'
    simp only [(hkept entry hentry).2] at ht
    simp only [(hkept entry' hentry').2] at ht'
    exact h.ids entry (hkept entry hentry).1 entry' (hkept entry' hentry').1 hdiff t t' ht ht'
  · intro entry hentry t ht
    simp only [(hkept entry hentry).2] at ht
    exact h.next entry (hkept entry hentry).1 t ht

def Call.Allocates (db : Db) : Call → Prop
  | .createTable _ _ addr _ | .createView _ _ addr => db.heap addr = none
  | .dropTable _ _ => True

/-- The counter of the ids does not overflow, and a table of the catalog that is to be dropped can
be dropped. -/
def Call.Meets (db : Db) : Call → Prop
  | .createTable _ _ _ _ | .createView _ _ _ => db.nextTableId ≠ Int32.maxValue
  | .dropTable name faults => ∀ addr table, db.findTable name = some addr →
      db.heap addr = some table → Table.Droppable faults table name db.dir

section Runs

variable {trx : TrxType} {write : Json → List UInt8}

theorem Consistent.createTable {db : Db} (h : db.Consistent)
    (hnext : db.nextTableId ≠ Int32.maxValue) {addr : ℕ} (haddr : db.heap addr = none)
    (name : String) (attributes : List AttrInfoSqlNode) (faults : CreateFaults) :
    (db.createTable trx write name attributes addr faults).2.Consistent := by
  unfold Db.createTable
  cases hname : db.findTable name with
  | some _ => exact h
  | none =>
    cases hcreate : (Table.create trx write faults db.nextTableId name attributes db.dir).1 with
    | error rc =>
      simp only [Option.isSome_none, Bool.false_eq_true, if_false, hcreate]
      exact h.skip hnext _
    | ok table =>
      simp only [Option.isSome_none, Bool.false_eq_true, if_false, hcreate]
      exact h.add hnext hname haddr (Table.create_ok hcreate) _

theorem Consistent.createView {db : Db} (h : db.Consistent)
    (hnext : db.nextTableId ≠ Int32.maxValue) {addr : ℕ} (haddr : db.heap addr = none)
    (name : String) (attributes : List AttrInfoSqlNode) :
    (db.createView trx name attributes addr).2.Consistent := by
  unfold Db.createView
  cases hname : db.findTable name with
  | some _ => exact h
  | none =>
    cases hcreate : Table.createView trx db.nextTableId name attributes with
    | error rc => exact h.skip hnext db.dir
    | ok table => exact h.add hnext hname haddr (Table.createView_ok hcreate) db.dir

theorem Consistent.dropTable {db db' : Db} (h : db.Consistent) {name : String}
    {faults : Table.DropFaults} {rc : RC}
    (hmeets : ∀ addr table, db.findTable name = some addr → db.heap addr = some table →
      Table.Droppable faults table name db.dir)
    (hexec : db.dropTable name faults = some (rc, db')) : db'.Consistent := by
  unfold Db.dropTable at hexec
  cases hname : db.findTable name with
  | none =>
    rw [hname] at hexec
    cases hexec
    exact h
  | some addr =>
    obtain ⟨table, halive, -⟩ := h.alive _ (findTable_eq_some hname)
    have hdrop := Table.drop_success_iff.mpr (hmeets addr table hname halive)
    simp only [hname, halive, ne_eq, hdrop, not_true_eq_false, if_false] at hexec
    cases hexec
    exact h.erase hname _

theorem Consistent.exec {db db' : Db} (h : db.Consistent) {call : Call} {rc : RC}
    (hallocates : call.Allocates db) (hmeets : call.Meets db)
    (hexec : call.exec trx write db = some (rc, db')) : db'.Consistent := by
  cases call with
  | createTable name attributes addr faults =>
    obtain rfl : (db.createTable trx write name attributes addr faults).2 = db' :=
      congrArg Prod.snd (Option.some.inj hexec)
    exact h.createTable hmeets hallocates name attributes faults
  | createView name attributes addr =>
    obtain rfl : (db.createView trx name attributes addr).2 = db' :=
      congrArg Prod.snd (Option.some.inj hexec)
    exact h.createView hmeets hallocates name attributes
  | dropTable name faults => exact h.dropTable hmeets hexec

theorem Sound.findTable {db : Db} (h : db.Sound) {name : String} {addr : ℕ}
    (hname : db.findTable name = some addr) :
    ∃ table, db.heap addr = some table ∧ table.name = name :=
  h.alive _ (findTable_eq_some hname)

theorem Sound.findTableId {db : Db} (h : db.Sound) (tableId : Int32) :
    ∃ found, Db.findTableId db.heap tableId db.openedTables = some found ∧
      ∀ addr, found = some addr → ∃ table, db.heap addr = some table ∧ table.tableId = tableId := by
  have halive := h.alive
  generalize db.openedTables = entries at halive
  induction entries with
  | nil => exact ⟨none, rfl, fun addr haddr => (by cases haddr)⟩
  | cons entry entries ih =>
    obtain ⟨table, htable, -⟩ := halive entry List.mem_cons_self
    rw [Db.findTableId, htable]
    by_cases hid : table.tableId = tableId
    · refine ⟨some entry.2, if_pos hid, ?_⟩
      rintro addr ⟨⟩
      exact ⟨table, htable, hid⟩
    · obtain ⟨found, hfound, hspec⟩ := ih fun e he => halive e (List.mem_cons_of_mem _ he)
      exact ⟨found, by rw [← hfound]; exact if_neg hid, hspec⟩

theorem Sound.dropTable {db : Db} (h : db.Sound) (name : String) (faults : Table.DropFaults) :
    ∃ rc db', db.dropTable name faults = some (rc, db') := by
  unfold Db.dropTable
  cases hname : db.findTable name with
  | none => exact ⟨_, _, rfl⟩
  | some addr =>
    obtain ⟨table, halive, -⟩ := h.findTable hname
    simp only [halive]
    split_ifs
    · exact ⟨_, _, rfl⟩
    · exact ⟨_, _, rfl⟩

end Runs

variable (trx : TrxType) (write : Json → List UInt8)

def MeetingStep (db db' : Db) : Prop :=
  ∃ (call : Call) (rc : RC), call.Allocates db ∧ call.Meets db ∧
    call.exec trx write db = some (rc, db')

/-- In a run in which every drop of a table finds and removes its files, the catalog stays sound:
lookups return tables that exist, and every name can be dropped. -/
theorem sound_of_run (db db' : Db) (h : db.Consistent)
    (hrun : Relation.ReflTransGen (MeetingStep trx write) db db') :
    db'.Sound ∧
    (∀ name addr, db'.findTable name = some addr →
      ∃ table, db'.heap addr = some table ∧ table.name = name) ∧
    (∀ tableId, ∃ found, findTableId db'.heap tableId db'.openedTables = some found ∧
      ∀ addr, found = some addr →
        ∃ table, db'.heap addr = some table ∧ table.tableId = tableId) ∧
    ∀ name faults, ∃ rc db'', db'.dropTable name faults = some (rc, db'') := by
  have hconsistent : db'.Consistent := by
    induction hrun with
    | refl => exact h
    | tail _ hstep ih =>
      obtain ⟨call, rc, hallocates, hmeets, hexec⟩ := hstep
      exact ih.exec hallocates hmeets hexec
  have hsound := hconsistent.toSound
  exact ⟨hsound, fun _ _ => hsound.findTable, hsound.findTableId, hsound.dropTable⟩

def empty : Db := ⟨[], fun _ => none, 0, []⟩

theorem consistent_empty : empty.Consistent :=
  ⟨⟨fun _ h => (by cases h), fun _ h => (by cases h)⟩, List.nodup_nil, fun _ h => (by cases h)⟩

/-- A table is created and dropped again. -/
theorem sound_of_run_create_drop :
    let write : Json → List UInt8 := fun _ => []
    let create : Call := .createTable "t" [⟨"a", .ints, 4, true⟩] 0
      ⟨false, false, 0, none, .success⟩
    let drop : Call := .dropTable "t" ⟨.success, fun _ => false⟩
    ∃ db db', create.exec .mvcc write empty = some (.success, db) ∧
      drop.exec .mvcc write db = some (.success, db') ∧ db'.Sound := by
  intro write create drop
  let db := (empty.createTable .mvcc write "t" [⟨"a", .ints, 4, true⟩] 0
    ⟨false, false, 0, none, .success⟩).2
  have hcreate : create.exec .mvcc write empty = some (.success, db) := rfl
  have hmeets : drop.Meets db := by
    intro addr table hname halive
    obtain rfl : 0 = addr := Option.some.inj hname
    obtain rfl := Option.some.inj halive
    unfold Table.Droppable
    decide +kernel
  have hdrop : ∃ db', drop.exec .mvcc write db = some (.success, db') := by
    exact ⟨_, rfl⟩
  obtain ⟨db', hdrop⟩ := hdrop
  refine ⟨db, db', hcreate, hdrop, ?_⟩
  refine (sound_of_run .mvcc write empty db' consistent_empty ?_).1
  have hstep : MeetingStep .mvcc write empty db :=
    ⟨create, .success, rfl, Int32.ne_of_lt (by decide), hcreate⟩
  exact (Relation.ReflTransGen.single hstep).tail ⟨drop, .success, trivial, hmeets, hdrop⟩

/-- A view has no files: dropping it deletes the table and leaves its entry, and the second drop
is a call on the deleted table. -/
theorem not_sound_drop_view :
    let write : Json → List UInt8 := fun _ => []
    let create : Call := .createView "v" [⟨"a", .ints, 4, true⟩] 0
    let drop : Call := .dropTable "v" ⟨.success, fun _ => false⟩
    ∃ db db', create.Allocates empty ∧ create.exec .mvcc write empty = some (.success, db) ∧
      drop.exec .mvcc write db = some (.fileRemove, db') ∧
      ¬db'.Sound ∧ db'.findTable "v" = some 0 ∧ db'.heap 0 = none ∧
      drop.exec .mvcc write db' = none := by
  intro write create drop
  refine ⟨_, _, rfl, rfl, rfl, ?_, rfl, rfl, rfl⟩
  intro h
  obtain ⟨table, halive, -⟩ := h.alive ("v", 0) (by decide)
  cases halive

end Db

end TDB.Schema
