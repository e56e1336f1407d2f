import TDB.Database

namespace TDB.Schema

open Recorder

/-! ## `Db::init` -/

/-- What the start of a database depends on: the order in which the directory is listed, the JSON
library, the sort of the fields, what comes of opening a data file and the file of an index, and
the log. -/
structure Host where
  isDirectory : Bool
  listFile : Directory → List String
  listFile_perm : ∀ dir, (listFile dir).Perm dir.tableFiles
  parse : List UInt8 → Option Json
  parse_nil : parse [] = none
  std : StdSort.Sorter FieldMeta
  initRecordHandler : Option (List UInt8) → RC
  openIndex : Option (List UInt8) → RC
  initLog : RC
  recover : List TableMeta → RC

namespace Host

variable (host : Host)

/-- The loop of `Table::open` over the indexes. -/
def openIndexes (dir : Directory) (table : TableMeta) : List IndexMeta → Except RC Unit
  | [] => .ok ()
  | index :: indexes =>
    if ∃ name ∈ index.multiFields, ∀ field ∈ table.fields, field.name ≠ name then
      .error .internal
    else if host.openIndex (dir.find (.index table.name index.name)) ≠ .success then
      .error (host.openIndex (dir.find (.index table.name index.name)))
    else openIndexes dir table indexes

def openTable (dir : Directory) (file : String) : Except RC TableMeta :=
  match dir.find (.table file) with
  | none => .error .ioerrOpen
  | some text =>
    match (host.parse text).map (TableMeta.deserialize host.std) with
    | some (.ok table) =>
      if host.initRecordHandler (dir.find (.data table.name)) ≠ .success then
        .error (host.initRecordHandler (dir.find (.data table.name)))
      else do
        host.openIndexes dir table table.indexes
        return table
    | _ => .error .internal

def openAllTables (dir : Directory) :
    List String → List TableMeta → Int32 → Except RC (List TableMeta × Int32)
  | [], opened, nextTableId => .ok (opened, nextTableId)
  | file :: files, opened, nextTableId => do
    let table ← host.openTable dir file
    let next := if nextTableId ≤ table.tableId then table.tableId + 1 else nextTableId
    if opened.any fun t => t.name = table.name then .error .internal
    else openAllTables dir files (opened ++ [table]) next

def init (name : String) (dir : Directory) : Except RC (List TableMeta × Int32) :=
  if isBlank name then .error .invalidArgument
  else if ¬host.isDirectory then .error .internal
  else if host.initLog ≠ .success then .error host.initLog
  else do
    let opened ← host.openAllTables dir (host.listFile dir) [] 0
    if host.recover opened.1 ≠ .success then .error (host.recover opened.1)
    else return opened

variable {host}

theorem openAllTables_ok {dir : Directory} {files : List String} {tables : List TableMeta}
    {nextTableId : Int32} {opened : List TableMeta × Int32}
    (h : host.openAllTables dir files tables nextTableId = .ok opened) :
    opened.1.length = tables.length + files.length ∧
    ∀ file ∈ files, ∃ table, host.openTable dir file = .ok table := by
  induction files generalizing tables nextTableId with
  | nil =>
    obtain rfl := Except.ok.inj h
    exact ⟨rfl, fun file hfile => (by cases hfile)⟩
  | cons file files ih =>
    rw [openAllTables] at h
    obtain ⟨table, htable, h⟩ := Expression.exists_of_bind_ok h
    generalize (if nextTableId ≤ table.tableId then table.tableId + 1 else nextTableId) = next at h
    simp only at h
    split_ifs at h
    obtain ⟨hlength, hfiles⟩ := ih h
    rw [List.length_append, List.length_singleton] at hlength
    rw [List.length_cons]
    refine ⟨by omega, ?_⟩
    intro file' hfile'
    rcases List.mem_cons.mp hfile' with rfl | hfile'
    · exact ⟨table, htable⟩
    · exact hfiles file' hfile'

theorem init_ok {name : String} {dir : Directory} {opened : List TableMeta × Int32}
    (h : host.init name dir = .ok opened) :
    opened.1.length = dir.tableFiles.length ∧
    ∀ file ∈ dir.tableFiles, ∃ table, host.openTable dir file = .ok table := by
  unfold init at h
  split_ifs at h
  obtain ⟨opened', hopened, h⟩ := Expression.exists_of_bind_ok h
  split_ifs at h
  obtain rfl := Except.ok.inj h
  obtain ⟨hlength, hfiles⟩ := openAllTables_ok hopened
  have hperm := host.listFile_perm dir
  refine ⟨?_, fun file hfile => hfiles file (hperm.mem_iff.mpr hfile)⟩
  rw [hlength, hperm.length_eq, List.length_nil, Nat.zero_add]

end Host

/-! ## The directory after `create_table` -/

namespace Directory

theorem tableFiles_append (dir dir' : Directory) :
    tableFiles (dir ++ dir') = dir.tableFiles ++ dir'.tableFiles :=
  List.filterMap_append

theorem tableFiles_write (file : FileName) (bytes : List UInt8) (dir : Directory) :
    (dir.write file bytes).tableFiles = dir.tableFiles := by
  unfold tableFiles write
  rw [List.filterMap_map]
  congr 1
  funext f
  rw [Function.comp_apply]
  split_ifs with hf
  · rw [hf]
  · rfl

theorem find_write_ne {file file' : FileName} (h : file ≠ file') (bytes : List UInt8)
    (dir : Directory) : (dir.write file bytes).find file' = dir.find file' := by
  unfold find write
  induction dir with
  | nil => rfl
  | cons f dir ih =>
    rw [List.map_cons]
    by_cases hf : f.1 = file
    · rw [if_pos hf, List.find?_cons_of_neg (by simpa using h),
        List.find?_cons_of_neg (by simpa [hf] using h), ih]
    · rw [if_neg hf]
      by_cases hf' : f.1 = file'
      · rw [List.find?_cons_of_pos (by simpa using hf'), List.find?_cons_of_pos
          (by simpa using hf')]
      · rw [List.find?_cons_of_neg (by simpa using hf'), List.find?_cons_of_neg
          (by simpa using hf'),
          ih]

theorem find_append_ne {file file' : FileName} (h : file ≠ file') (bytes : List UInt8)
    (dir : Directory) : find (dir ++ [(file, bytes)]) file' = dir.find file' := by
  unfold find
  rw [List.find?_append, List.find?_cons_of_neg (by simpa using h), List.find?_nil, Option.or_none]

end Directory

theorem tableFiles_createFile (fault : Option CreateFileFault) (name : String) (dir : Directory) :
    (createFile fault (.data name) dir).2.tableFiles = dir.tableFiles := by
  have hdata : ∀ bytes, Directory.tableFiles (dir ++ [(.data name, bytes)]) = dir.tableFiles := by
    intro bytes
    rw [Directory.tableFiles_append]
    exact List.append_nil _
  unfold createFile
  split_ifs
  · rfl
  · split
    · rfl
    · exact hdata _
    · exact hdata _
    · exact hdata _
    · exact hdata _

section Create

variable {trx : TrxType} {write : Json → List UInt8} {faults : CreateFaults} {name : String}
  {attributes : List AttrInfoSqlNode}

theorem Table.tableFiles_createFiles (tableId : Int32) (dir : Directory) :
    (createFiles trx write faults tableId name attributes dir).2.tableFiles = dir.tableFiles := by
  unfold createFiles
  cases TableMeta.init trx tableId name attributes with
  | error rc => rfl
  | ok table =>
    simp only
    split_ifs
    · rfl
    · exact (tableFiles_createFile _ _ _).trans (Directory.tableFiles_write _ _ _)
    · exact (tableFiles_createFile _ _ _).trans (Directory.tableFiles_write _ _ _)
    · exact (tableFiles_createFile _ _ _).trans (Directory.tableFiles_write _ _ _)

theorem FieldMeta.init_error {name : String} {type : AttrType} {offset len : ℕ}
    {nullable visible : Bool} {rc : RC}
    (h : FieldMeta.init name type offset len nullable visible = .error rc) :
    rc = .invalidArgument := by
  unfold FieldMeta.init at h
  split_ifs at h
  · exact (Except.error.inj h).symm
  · exact (Except.error.inj h).symm

theorem TableMeta.initColumns_error {offset : ℕ} {attrs : List AttrInfoSqlNode} {rc : RC}
    (h : TableMeta.initColumns offset attrs = .error rc) : rc = .invalidArgument := by
  induction attrs generalizing offset with
  | nil => cases h
  | cons attr attrs ih =>
    rw [TableMeta.initColumns] at h
    rcases Expression.of_bind_error h with hfield | ⟨field, -, h⟩
    · exact FieldMeta.init_error hfield
    · rcases Expression.of_bind_error h with hrest | ⟨rest, -, h⟩
      · exact ih hrest
      · cases h

theorem TableMeta.init_error {tableId : Int32} {rc : RC}
    (h : TableMeta.init trx tableId name attributes = .error rc) : rc = .invalidArgument := by
  unfold TableMeta.init at h
  split_ifs at h
  · exact (Except.error.inj h).symm
  · exact (Except.error.inj h).symm
  · rcases Expression.of_bind_error h with hcolumns | ⟨columns, -, h⟩
    · exact TableMeta.initColumns_error hcolumns
    · rcases Expression.of_bind_error h with hnull | ⟨nullField, -, h⟩
      · exact FieldMeta.init_error hnull
      · cases h

namespace Table

def CreatesMetaFile (tableId : Int32) (name : String) (attributes : List AttrInfoSqlNode)
    (faults : CreateFaults) (dir : Directory) : Prop :=
  ¬tableId < 0 ∧ isBlank name = false ∧ attributes ≠ [] ∧ dir.find (.table name) = none ∧
  faults.metaCreate = false

def Completes (trx : TrxType) (tableId : Int32) (name : String)
    (attributes : List AttrInfoSqlNode) (faults : CreateFaults) (dir : Directory) : Prop :=
  (∃ table, TableMeta.init trx tableId name attributes = .ok table) ∧ faults.metaOpen = false ∧
  dir.find (.data name) = none ∧ faults.dataFile.isNone = true ∧
  faults.initRecordHandler = .success

theorem create_eq_createFiles {tableId : Int32} {dir : Directory}
    (h : CreatesMetaFile tableId name attributes faults dir) :
    create trx write faults tableId name attributes dir =
      createFiles trx write faults tableId name attributes (dir ++ [(.table name, [])]) := by
  obtain ⟨hid, hblank, hattributes, hfind, hopen⟩ := h
  have hempty : ¬attributes.isEmpty = true := by rwa [List.isEmpty_iff]
  unfold create
  simp only [hid, hblank, hempty, hfind, hopen, Option.isSome_none, Bool.false_eq_true, if_false]

theorem create_of_not {tableId : Int32} {dir : Directory}
    (h : ¬CreatesMetaFile tableId name attributes faults dir) :
    ∃ rc, create trx write faults tableId name attributes dir = (.error rc, dir) := by
  unfold create
  split_ifs with hid hblank hempty hfind hopen
  · exact ⟨_, rfl⟩
  · exact ⟨_, rfl⟩
  · exact ⟨_, rfl⟩
  · exact ⟨_, rfl⟩
  · exact ⟨_, rfl⟩
  · exfalso
    apply h
    refine ⟨hid, ?_, ?_, ?_, ?_⟩
    · rwa [Bool.not_eq_true] at hblank
    · rwa [List.isEmpty_iff] at hempty
    · rwa [Option.not_isSome_iff_eq_none] at hfind
    · rwa [Bool.not_eq_true] at hopen

theorem createFile_success_iff {fault : Option CreateFileFault} {file : FileName}
    {dir : Directory} :
    (createFile fault file dir).1 = .success ↔ dir.find file = none ∧ fault.isNone = true := by
  unfold createFile
  split_ifs with hfind
  · refine iff_of_false (fun hrc => (by cases hrc)) ?_
    rintro ⟨hnone, -⟩
    rw [hnone] at hfind
    cases hfind
  · rw [Option.not_isSome_iff_eq_none] at hfind
    cases fault with
    | none => exact ⟨fun _ => ⟨hfind, rfl⟩, fun _ => rfl⟩
    | some fault =>
      refine iff_of_false ?_ (fun h => (by cases h.2))
      cases fault <;> exact fun hrc => (by cases hrc)

/-- The new table, or the code of the step that fails. -/
theorem createFiles_cases (trx : TrxType) (write : Json → List UInt8) (faults : CreateFaults)
    (tableId : Int32) (name : String) (attributes : List AttrInfoSqlNode) (dir : Directory) :
    (Completes trx tableId name attributes faults dir ∧
      ∃ table, (createFiles trx write faults tableId name attributes
        (dir ++ [(.table name, [])])).1 = .ok table) ∨
    (¬Completes trx tableId name attributes faults dir ∧
      ∃ rc, rc ≠ .success ∧ (createFiles trx write faults tableId name attributes
        (dir ++ [(.table name, [])])).1 = .error rc) := by
  unfold createFiles
  cases hinit : TableMeta.init trx tableId name attributes with
  | error rc =>
    refine .inr ⟨?_, rc, ?_, rfl⟩
    · rintro ⟨⟨table, htable⟩, -⟩
      rw [hinit] at htable
      cases htable
    · rw [TableMeta.init_error hinit]
      exact fun hrc => (by cases hrc)
  | ok table =>
    have hdata : ∀ bytes, (Directory.write (.table name) bytes
        (dir ++ [(.table name, [])])).find (.data name) = dir.find (.data name) := by
      intro bytes
      rw [Directory.find_write_ne (fun h => (by cases h)),
        Directory.find_append_ne (fun h => (by cases h))]
    simp only
    split_ifs with hopen hcreated hhandler
    · refine .inr ⟨fun h => ?_, _, fun hrc => (by cases hrc), rfl⟩
      rw [h.2.1] at hopen
      cases hopen
    · refine .inr ⟨fun h => hcreated ?_, _, hcreated, rfl⟩
      rw [createFile_success_iff, hdata]
      exact ⟨h.2.2.1, h.2.2.2.1⟩
    · exact .inr ⟨fun h => hhandler h.2.2.2.2, _, hhandler, rfl⟩
    · rw [not_not, createFile_success_iff, hdata] at hcreated
      rw [Bool.not_eq_true] at hopen
      exact .inl ⟨⟨⟨table, hinit⟩, hopen, hcreated.1, hcreated.2, not_not.mp hhandler⟩, table, rfl⟩

end Table

namespace Db

theorem dir_createTable {db : Db} (hname : db.findTable name = none) (addr : ℕ) :
    (db.createTable trx write name attributes addr faults).2.dir =
      (Table.create trx write faults db.nextTableId name attributes db.dir).2 := by
  unfold createTable
  simp only [hname, Option.isSome_none, Bool.false_eq_true, if_false]
  cases (Table.create trx write faults db.nextTableId name attributes db.dir).1 with
  | error rc => rfl
  | ok table => rfl

theorem rc_createTable_error {db : Db} (hname : db.findTable name = none) (addr : ℕ) {rc : RC}
    (h : (Table.create trx write faults db.nextTableId name attributes db.dir).1 = .error rc) :
    (db.createTable trx write name attributes addr faults).1 = rc := by
  unfold createTable
  simp only [hname, Option.isSome_none, Bool.false_eq_true, if_false, h]

theorem rc_createTable_ok {db : Db} (hname : db.findTable name = none) (addr : ℕ)
    {table : TableMeta}
    (h : (Table.create trx write faults db.nextTableId name attributes db.dir).1 = .ok table) :
    (db.createTable trx write name attributes addr faults).1 = .success := by
  unfold createTable
  simp only [hname, Option.isSome_none, Bool.false_eq_true, if_false, h]

def RestartsAs (host : Host) (dbName : String) (opened : List TableMeta) (dir : Directory) : Prop :=
  ∃ opened', host.init dbName dir = .ok opened' ∧ opened'.1.Perm opened

/-- An empty metadata file keeps the database from starting. -/
theorem not_init_of_empty_file {host : Host} {dbName : String} {dir : Directory}
    (hfind : dir.find (.table name) = none) (opened : List TableMeta × Int32) :
    host.init dbName (dir ++ [(.table name, [])]) ≠ .ok opened := by
  intro hopened
  have hmem : name ∈ Directory.tableFiles (dir ++ [(.table name, [])]) := by
    rw [Directory.tableFiles_append]
    exact List.mem_append_right _ List.mem_cons_self
  obtain ⟨table, htable⟩ := (Host.init_ok hopened).2 name hmem
  have hempty : Directory.find (dir ++ [(.table name, [])]) (.table name) = some [] := by
    unfold Directory.find at hfind ⊢
    rw [List.find?_append, Option.map_eq_none_iff.mp hfind, Option.none_or,
      List.find?_cons_of_pos (by simp)]
    rfl
  unfold Host.openTable at htable
  rw [hempty] at htable
  simp only [host.parse_nil] at htable
  cases htable

/-- A `create_table` that fails does no harm exactly if it fails before it has created the
metadata file. -/
theorem createTable_failed_iff (trx : TrxType) (write : Json → List UInt8) (host : Host)
    (dbName : String) (db : Db) (opened : List TableMeta × Int32)
    (hinit : host.init dbName db.dir = .ok opened) (name : String)
    (attributes : List AttrInfoSqlNode) (addr : ℕ) (faults : CreateFaults) :
    ((db.createTable trx write name attributes addr faults).1 ≠ .success →
      RestartsAs host dbName opened.1
        (db.createTable trx write name attributes addr faults).2.dir) ↔
      (db.findTable name).isSome = true ∨
      ¬Table.CreatesMetaFile db.nextTableId name attributes faults db.dir ∨
      Table.Completes trx db.nextTableId name attributes faults db.dir := by
  have hunchanged : RestartsAs host dbName opened.1 db.dir := ⟨opened, hinit, List.Perm.refl _⟩
  cases hname : db.findTable name with
  | some old =>
    have hdb : db.createTable trx write name attributes addr faults = (.schemaTableExist, db) := by
      unfold createTable
      rw [hname]
      rfl
    rw [hdb]
    exact iff_of_true (fun _ => hunchanged) (.inl rfl)
  | none =>
    rw [dir_createTable hname]
    by_cases hcreates : Table.CreatesMetaFile db.nextTableId name attributes faults db.dir
    · rw [Table.create_eq_createFiles hcreates]
      rcases Table.createFiles_cases trx write faults db.nextTableId name attributes db.dir with
        ⟨hcompletes, table, htable⟩ | ⟨hcompletes, rc, hrc, herror⟩
      · rw [← Table.create_eq_createFiles hcreates] at htable
        rw [rc_createTable_ok hname addr htable]
        exact iff_of_true (fun h => absurd rfl h) (.inr (.inr hcompletes))
      · rw [← Table.create_eq_createFiles hcreates] at herror
        rw [rc_createTable_error hname addr herror]
        refine iff_of_false ?_ ?_
        · intro hrestarts
          -- one table for each metadata file, and there is one more of them
          obtain ⟨opened', hopened, hperm⟩ := hrestarts hrc
          have hlength := (Host.init_ok hopened).1
          rw [Table.tableFiles_createFiles, Directory.tableFiles_append, hperm.length_eq,
            (Host.init_ok hinit).1, List.length_append] at hlength
          simp [Directory.tableFiles] at hlength
        · rintro (h | h | h)
          · cases h
          · exact h hcreates
          · exact hcompletes h
    · have hcreate : ∃ rc, Table.create trx write faults db.nextTableId name attributes db.dir =
          (.error rc, db.dir) := Table.create_of_not hcreates
      obtain ⟨rc, hcreate⟩ := hcreate
      rw [hcreate]
      exact iff_of_true (fun _ => hunchanged) (.inr (.inl hcreates))

def plainHost : Host where
  isDirectory := true
  listFile := Directory.tableFiles
  listFile_perm _ := List.Perm.refl _
  parse _ := none
  parse_nil := rfl
  std := StdSort.mergeSorter
  initRecordHandler file := if file.isSome then .success else .ioerrOpen
  openIndex file := if file.isSome then .success else .ioerrOpen
  initLog := .success
  recover _ := .success

/-- The metadata file cannot be created. -/
theorem createTable_failed_iff_open :
    let faults : CreateFaults := ⟨true, false, 0, none, .success⟩
    let created := empty.createTable .mvcc (fun _ => []) "t" [⟨"a", .ints, 4, true⟩] 0 faults
    plainHost.init "sys" [] = .ok ([], 0) ∧ created.1 = .ioerrOpen ∧
      RestartsAs plainHost "sys" [] created.2.dir := by
  intro faults created
  refine ⟨rfl, rfl, ?_⟩
  apply (createTable_failed_iff .mvcc (fun _ => []) plainHost "sys" empty ([], 0) rfl "t"
    [⟨"a", .ints, 4, true⟩] 0 faults).mpr
  · exact .inr (.inl fun h => (by cases h.2.2.2.2))
  · exact fun hrc => (by cases hrc)

/-- A column of length zero: the database does not start again. -/
theorem not_restarts_empty_column :
    let faults : CreateFaults := ⟨false, false, 0, none, .success⟩
    let created := empty.createTable .mvcc (fun _ => []) "t" [⟨"c", .chars, 0, true⟩] 0 faults
    plainHost.init "sys" [] = .ok ([], 0) ∧ created.1 = .invalidArgument ∧
      (∀ opened, plainHost.init "sys" created.2.dir ≠ .ok opened) ∧
      ¬RestartsAs plainHost "sys" [] created.2.dir := by
  intro faults created
  have hinit : ∀ opened, plainHost.init "sys" created.2.dir ≠ .ok opened :=
    @not_init_of_empty_file "t" plainHost "sys" [] rfl
  refine ⟨rfl, rfl, hinit, ?_⟩
  rintro ⟨opened, hopened, -⟩
  exact hinit opened hopened

end Db

end Create

end TDB.Schema
