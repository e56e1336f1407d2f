import TDB.OpenTables
import TDB.SelectStmt

namespace TDB.Schema

open Analyzer (findField)
open Recorder

/-! ## A table with its indexes -/

/-- `Table`: the metadata, the `index_meta` of the objects in `indexes_`, the directory, and the
temporary file of the metadata where one has been left. -/
structure Table where
  tableMeta : TableMeta
  indexes : List IndexMeta
  dir : Directory
  tmpFile : Option (List UInt8)
  deriving DecidableEq

namespace Table

def findIndex (t : Table) (indexName : String) : Option IndexMeta :=
  t.indexes.find? fun index => index.name = indexName

def indexFile (t : Table) (indexName : String) : FileName := .index t.tableMeta.name indexName

def metaFile (t : Table) : FileName := .table t.tableMeta.name

end Table

/-! ## `CreateIndexStmt` -/

structure CreateIndexSqlNode where
  indexName : String
  relationName : String
  multiAttributeNames : List String
  isUnique : Bool

structure CreateIndexStmt where
  table : Table
  multiFieldMetas : List FieldMeta
  indexName : String
  isUnique : Bool

namespace CreateIndexStmt

def findFields (table : TableMeta) : List String → Except RC (List FieldMeta)
  | [] => .ok []
  | name :: names =>
    match findField table name with
    | none => .error .schemaFieldNotExist
    | some field => (findFields table names).map (field :: ·)

/-- The system fields, which every index gets behind its columns. -/
def sysFields (trx : TrxType) (table : TableMeta) : List FieldMeta :=
  table.fields.take trx.sysFieldNum

/-- `CreateIndexStmt::create`. -/
def create (trx : TrxType) (findTable : String → Option Table) (createIndex : CreateIndexSqlNode) :
    Except RC CreateIndexStmt :=
  if isBlank createIndex.relationName ∨ isBlank createIndex.indexName ∨
      createIndex.multiAttributeNames = [] then .error .invalidArgument
  else match findTable createIndex.relationName with
    | none => .error .schemaTableNotExist
    | some table =>
      match findFields table.tableMeta createIndex.multiAttributeNames with
      | .error rc => .error rc
      | .ok fields =>
        if (table.findIndex createIndex.indexName).isSome then .error .schemaIndexNameRepeat
        else .ok ⟨table, fields ++ sysFields trx table.tableMeta, createIndex.indexName,
          createIndex.isUnique⟩

theorem findFields_spec {table : TableMeta} : ∀ {names : List String} {fields : List FieldMeta},
    findFields table names = .ok fields → fields.map FieldMeta.name = names
  | [], fields, h => by
    cases h
    rfl
  | name :: names, fields, h => by
    rw [findFields] at h
    split at h
    · cases h
    · next field hfield =>
      cases hrest : findFields table names with
      | error rc => rw [hrest] at h; cases h
      | ok rest =>
        rw [hrest] at h
        cases h
        have hname := List.find?_some (p := fun f : FieldMeta => f.name = name) hfield
        rw [List.map_cons, findFields_spec hrest, of_decide_eq_true hname]

theorem findFields_error {table : TableMeta} : ∀ {names : List String} {rc : RC},
    findFields table names = .error rc → rc = .schemaFieldNotExist
  | [], rc, h => by cases h
  | name :: names, rc, h => by
    rw [findFields] at h
    split at h
    · cases h
      rfl
    · cases hrest : findFields table names with
      | error rc' =>
        rw [hrest] at h
        cases h
        exact findFields_error hrest
      | ok rest =>
        rw [hrest] at h
        cases h

theorem create_error {trx : TrxType} {findTable : String → Option Table}
    {createIndex : CreateIndexSqlNode} {rc : RC}
    (h : create trx findTable createIndex = .error rc) :
    rc ≠ .success := by
  unfold create at h
  split_ifs at h
  · cases h
    rintro ⟨⟩
  · split at h
    · cases h
      rintro ⟨⟩
    · split at h
      · next rc' hfields =>
        cases h
        rw [findFields_error hfields]
        rintro ⟨⟩
      · split_ifs at h
        cases h
        rintro ⟨⟩

/-- An accepted statement: the columns by their names, then the system fields. -/
theorem create_spec {trx : TrxType} {findTable : String → Option Table}
    {createIndex : CreateIndexSqlNode} {stmt : CreateIndexStmt}
    (h : create trx findTable createIndex = .ok stmt) :
    findTable createIndex.relationName = some stmt.table ∧ createIndex.multiAttributeNames ≠ [] ∧
      (∃ fields : List FieldMeta, fields.map FieldMeta.name = createIndex.multiAttributeNames ∧
        stmt.multiFieldMetas = fields ++ sysFields trx stmt.table.tableMeta) ∧
      stmt.table.findIndex stmt.indexName = none ∧ isBlank stmt.indexName = false ∧
      stmt.indexName = createIndex.indexName := by
  unfold create at h
  split_ifs at h with hblank
  rw [not_or, not_or, Bool.not_eq_true, Bool.not_eq_true] at hblank
  split at h
  · cases h
  · next table htable =>
    split at h
    · cases h
    · next fields hfields =>
      split_ifs at h with hfree
      cases h
      exact ⟨htable, hblank.2.2, ⟨fields, findFields_spec hfields, rfl⟩,
        Option.not_isSome_iff_eq_none.mp hfree, hblank.2.1, rfl⟩

end CreateIndexStmt

/-! ## `Table::create_index` -/

/-- What `Table::create_index` gets from outside: how the index file is created, what the buffer
pool writes to it and with which code its handler is left, the records that the scanner gives, each
with the code of `next`, and what becomes of the temporary file. -/
structure IndexFaults where
  createFile : Option CreateFileFault
  indexBytes : List UInt8
  initHandler : RC
  openScan : RC
  scanned : List (RC × List UInt8)
  tmpOpen : Bool
  written : ℕ
  serialize : Bool
  rename : Bool

/-- A table without rows, and nothing goes wrong. -/
def IndexFaults.quiet : IndexFaults := ⟨none, [], .success, .success, [], false, 0, false, false⟩

/-- `BplusTreeIndex::insert_entry`, which does nothing yet. -/
def insertEntry (_record : List UInt8) : RC := .success

def fillIndex : List (RC × List UInt8) → RC
  | [] => .success
  | (rc, record) :: scanned =>
    if rc ≠ .success then rc
    else if insertEntry record ≠ .success then insertEntry record
    else fillIndex scanned

def createIndexFile (faults : IndexFaults) (file : FileName) (dir : Directory) : RC × Directory :=
  let created := createFile faults.createFile file dir
  if created.1 ≠ .success then created
  else (faults.initHandler, created.2.write file faults.indexBytes)

def plainTable (columns : List String) : Table where
  tableMeta := ⟨1, "t", columns.mapIdx (fun i name => ⟨name, .ints, 4 * i, 4, false, true⟩) ++
    [⟨"null_field", .chars, 4 * columns.length, 1, false, false⟩], [], 4 * columns.length + 1⟩
  indexes := []
  dir := [(.table "t", []), (.data "t", [])]
  tmpFile := none

namespace Table

/-- The part of `create_index` behind the scan of the records. -/
def publishIndex (write : Json → List UInt8) (faults : IndexFaults) (newIndexMeta : IndexMeta)
    (t : Table) : RC × Table :=
  let t := { t with indexes := t.indexes ++ [newIndexMeta] }
  let newTableMeta := t.tableMeta.addIndex newIndexMeta
  if faults.tmpOpen then (.ioerrOpen, t)
  else
    let text := ((newTableMeta.serialize.map write).getD []).take faults.written
    let t := { t with tmpFile := some text }
    if faults.serialize then (.ioerrWrite, t)
    else if faults.rename then (.ioerrWrite, t)
    else (.success, { t with
      tmpFile := none
      dir := t.dir.remove t.metaFile ++ [(t.metaFile, text)]
      tableMeta := newTableMeta })

def createIndex (write : Json → List UInt8) (faults : IndexFaults)
    (multiFieldMetas : List FieldMeta) (indexName : String) (isUnique : Bool) (t : Table) :
    RC × Table :=
  if isBlank indexName ∨ multiFieldMetas = [] then (.invalidArgument, t)
  else match IndexMeta.init isUnique indexName multiFieldMetas with
    | .error rc => (rc, t)
    | .ok newIndexMeta =>
      let created := createIndexFile faults (t.indexFile indexName) t.dir
      let t := { t with dir := created.2 }
      if created.1 ≠ .success then (created.1, t)
      else if faults.openScan ≠ .success then (faults.openScan, t)
      else if fillIndex faults.scanned ≠ .success then (fillIndex faults.scanned, t)
      else publishIndex write faults newIndexMeta t

end Table

/-! ## What a call does to the files -/

theorem Directory.isSome_find_write (file file' : FileName) (bytes : List UInt8)
    (dir : Directory) :
    ((dir.write file bytes).find file').isSome = (dir.find file').isSome := by
  by_cases h : file = file'
  · subst h
    unfold find write
    rw [Option.isSome_map, Option.isSome_map, List.find?_map, Option.isSome_map]
    congr 2
    funext f
    by_cases hf : f.1 = file <;> simp [hf]
  · rw [find_write_ne h]

theorem Directory.isSome_find_append_self (file : FileName) (bytes : List UInt8)
    (dir : Directory) : (find (dir ++ [(file, bytes)]) file).isSome = true := by
  unfold find
  rw [List.find?_append, List.find?_cons_of_pos (by simp), Option.isSome_map, Option.isSome_or]
  simp

/-- `create_file` leaves a file under the name, unless the exclusive `open` fails. -/
theorem isSome_find_createFile (fault : Option CreateFileFault) (file : FileName)
    (dir : Directory) : ((createFile fault file dir).2.find file).isSome = true ∨
    dir.find file = none ∧ fault = some .create := by
  unfold createFile
  split_ifs with h
  · exact .inl h
  · rw [Option.not_isSome_iff_eq_none] at h
    split
    · exact .inr ⟨h, rfl⟩
    all_goals exact .inl (Directory.isSome_find_append_self _ _ _)

namespace Table

variable {write : Json → List UInt8} {faults : IndexFaults} {fields : List FieldMeta}
  {indexName : String} {isUnique : Bool} {t : Table}

theorem isSome_find_createIndexFile (faults : IndexFaults) (file : FileName) (dir : Directory) :
    ((createIndexFile faults file dir).2.find file).isSome = true ∨
      dir.find file = none ∧ faults.createFile = some .create := by
  have hfile := isSome_find_createFile faults.createFile file dir
  unfold createIndexFile
  dsimp only
  split_ifs
  · exact hfile
  · rw [Directory.isSome_find_write]
    exact hfile

theorem publishIndex_dir (write : Json → List UInt8) (faults : IndexFaults)
    (newIndexMeta : IndexMeta) (t : Table) :
    (publishIndex write faults newIndexMeta t).2.dir = t.dir ∨
      ∃ text, (publishIndex write faults newIndexMeta t).2.dir =
        t.dir.remove t.metaFile ++ [(t.metaFile, text)] := by
  unfold publishIndex
  dsimp only
  split_ifs
  · exact .inl rfl
  · exact .inl rfl
  · exact .inl rfl
  · exact .inr ⟨_, rfl⟩

theorem find_publishIndex (newIndexMeta : IndexMeta) (name indexName : String) :
    (publishIndex write faults newIndexMeta t).2.dir.find (.index name indexName) =
      t.dir.find (.index name indexName) := by
  rcases publishIndex_dir write faults newIndexMeta t with h | ⟨_, h⟩
  · rw [h]
  · rw [h, Directory.find_append_ne (by rintro ⟨⟩), Directory.find_remove_ne (by rintro ⟨⟩)]

/-! ## What a call does to the metadata -/

theorem createIndex_of_invalid (h : isBlank indexName = true ∨ fields = []) :
    createIndex write faults fields indexName isUnique t = (.invalidArgument, t) :=
  if_pos h

theorem createIndex_of_valid (hname : isBlank indexName = false) (hfields : fields ≠ []) :
    createIndex write faults fields indexName isUnique t =
      let created := createIndexFile faults (t.indexFile indexName) t.dir
      let t := { t with dir := created.2 }
      if created.1 ≠ .success then (created.1, t)
      else if faults.openScan ≠ .success then (faults.openScan, t)
      else if fillIndex faults.scanned ≠ .success then (fillIndex faults.scanned, t)
      else publishIndex write faults ⟨isUnique, indexName, fields.map FieldMeta.name⟩ t := by
  unfold createIndex IndexMeta.init
  rw [if_neg (by simp [hname, hfields]), if_neg (by simp [hname])]

/-- The metadata and the objects of `indexes_` after a call that adds this index or fails. -/
def Adds (newIndexMeta : IndexMeta) (t : Table) (result : RC × Table) : Prop :=
  result.1 = .success ∧ result.2.tableMeta = t.tableMeta.addIndex newIndexMeta ∧
      result.2.indexes = t.indexes ++ [newIndexMeta] ∨
    result.1 ≠ .success ∧ result.2.tableMeta = t.tableMeta ∧
      (result.2.indexes = t.indexes ∨ result.2.indexes = t.indexes ++ [newIndexMeta])

theorem adds_publishIndex (newIndexMeta : IndexMeta) :
    Adds newIndexMeta t (publishIndex write faults newIndexMeta t) := by
  unfold publishIndex
  dsimp only
  split_ifs
  · exact .inr ⟨by rintro ⟨⟩, rfl, .inr rfl⟩
  · exact .inr ⟨by rintro ⟨⟩, rfl, .inr rfl⟩
  · exact .inr ⟨by rintro ⟨⟩, rfl, .inr rfl⟩
  · exact .inl ⟨rfl, rfl, rfl⟩

theorem adds_createIndex : Adds ⟨isUnique, indexName, fields.map FieldMeta.name⟩ t
    (createIndex write faults fields indexName isUnique t) := by
  by_cases hinvalid : isBlank indexName = true ∨ fields = []
  · rw [createIndex_of_invalid hinvalid]
    exact .inr ⟨by rintro ⟨⟩, rfl, .inl rfl⟩
  obtain ⟨hname, hfields⟩ := not_or.mp hinvalid
  rw [Bool.not_eq_true] at hname
  rw [createIndex_of_valid hname hfields]
  dsimp only
  split_ifs with hcreate hscan hfill
  · exact .inr ⟨hcreate, rfl, .inl rfl⟩
  · exact .inr ⟨hscan, rfl, .inl rfl⟩
  · exact .inr ⟨hfill, rfl, .inl rfl⟩
  · exact adds_publishIndex _

/-! ## When a failed call leaves nothing behind -/

/-- From the creation of its file on, a call leaves the file of the index behind. -/
theorem isSome_find_createIndex (hname : isBlank indexName = false) (hfields : fields ≠ [])
    (hfile : (t.dir.find (t.indexFile indexName)).isSome = true ∨
      faults.createFile ≠ some .create) :
    ((createIndex write faults fields indexName isUnique t).2.dir.find
      (t.indexFile indexName)).isSome = true := by
  have hcreated : ((createIndexFile faults (t.indexFile indexName) t.dir).2.find
      (t.indexFile indexName)).isSome = true := by
    refine (isSome_find_createIndexFile _ _ _).resolve_right ?_
    rintro ⟨hnone, hfault⟩
    rcases hfile with h | h
    · rw [hnone] at h
      cases h
    · exact h hfault
  rw [createIndex_of_valid hname hfields]
  dsimp only
  split_ifs
  · exact hcreated
  · exact hcreated
  · exact hcreated
  · unfold indexFile
    rw [find_publishIndex]
    exact hcreated

theorem createIndex_of_exclusive (hname : isBlank indexName = false) (hfields : fields ≠ [])
    (hfile : (t.dir.find (t.indexFile indexName)).isSome = true ∨
      faults.createFile = some .create) :
    createIndex write faults fields indexName isUnique t = (.schemaDbExist, t) := by
  have hcreate : createFile faults.createFile (t.indexFile indexName) t.dir =
      (.schemaDbExist, t.dir) := by
    unfold createFile
    by_cases h : (t.dir.find (t.indexFile indexName)).isSome = true
    · exact if_pos h
    · rw [if_neg h, hfile.resolve_left h]
  rw [createIndex_of_valid hname hfields, createIndexFile, hcreate]
  rfl

def CanCreate (write : Json → List UInt8) (indexName : String) (t : Table) : Prop :=
  ∃ (faults : IndexFaults) (fields : List FieldMeta) (isUnique : Bool),
    (createIndex write faults fields indexName isUnique t).1 = .success

theorem canCreate_iff : CanCreate write indexName t ↔
    isBlank indexName = false ∧ t.dir.find (t.indexFile indexName) = none := by
  constructor
  · rintro ⟨faults, fields, isUnique, hrc⟩
    by_cases hinvalid : isBlank indexName = true ∨ fields = []
    · rw [createIndex_of_invalid hinvalid] at hrc
      cases hrc
    obtain ⟨hname, hfields⟩ := not_or.mp hinvalid
    rw [Bool.not_eq_true] at hname
    refine ⟨hname, Option.not_isSome_iff_eq_none.mp fun hfile => ?_⟩
    rw [createIndex_of_exclusive hname hfields (.inl hfile)] at hrc
    cases hrc
  · rintro ⟨hname, hfile⟩
    refine ⟨.quiet, [⟨"", .ints, 0, 4, false, true⟩], false, ?_⟩
    rw [createIndex_of_valid hname (List.cons_ne_nil _ _)]
    simp [IndexFaults.quiet, createIndexFile, createFile, hfile, fillIndex, publishIndex]

/-- What a failed call should leave as it was: the objects, the metadata in memory and in its
file, and which index files there are. -/
structure Unchanged (t t' : Table) : Prop where
  indexes : t'.indexes = t.indexes
  tableMeta : t'.tableMeta = t.tableMeta
  metaFile : t'.dir.find t.metaFile = t.dir.find t.metaFile
  indexFiles : ∀ name indexName, (t'.dir.find (.index name indexName)).isSome =
    (t.dir.find (.index name indexName)).isSome

/-- A call leaves the table unchanged and its name free exactly when it failed before its index
file was there. -/
theorem createIndex_atomic_iff :
    Unchanged t (createIndex write faults fields indexName isUnique t).2 ∧
        CanCreate write indexName (createIndex write faults fields indexName isUnique t).2 ↔
      isBlank indexName = false ∧ t.dir.find (t.indexFile indexName) = none ∧
        (fields = [] ∨ faults.createFile = some .create) := by
  have hsame : ∀ {rc}, createIndex write faults fields indexName isUnique t = (rc, t) →
      Unchanged t (createIndex write faults fields indexName isUnique t).2 := by
    intro rc h
    rw [h]
    exact ⟨rfl, rfl, rfl, fun _ _ => rfl⟩
  constructor
  · rintro ⟨hunchanged, hcan⟩
    obtain ⟨hname, hfile⟩ := canCreate_iff.mp hcan
    rw [indexFile, hunchanged.tableMeta] at hfile
    have hbefore : t.dir.find (t.indexFile indexName) = none := by
      rw [← Option.isNone_iff_eq_none, ← Option.not_isSome, indexFile, ← hunchanged.indexFiles,
        hfile]
      rfl
    refine ⟨hname, hbefore, or_iff_not_imp_left.mpr fun hfields => ?_⟩
    by_contra hfault
    have hsome : ((createIndex write faults fields indexName isUnique t).2.dir.find
        (t.indexFile indexName)).isSome = true :=
      isSome_find_createIndex hname hfields (.inr hfault)
    rw [indexFile, hfile] at hsome
    cases hsome
  · rintro ⟨hname, hfile, hearly⟩
    have hback : ∃ rc, createIndex write faults fields indexName isUnique t = (rc, t) := by
      by_cases hfields : fields = []
      · exact ⟨_, createIndex_of_invalid (.inr hfields)⟩
      · exact ⟨_, createIndex_of_exclusive hname hfields (.inr (hearly.resolve_left hfields))⟩
    obtain ⟨rc, hback⟩ := hback
    refine ⟨hsame hback, ?_⟩
    rw [hback]
    exact canCreate_iff.mpr ⟨hname, hfile⟩

/-- The metadata file cannot be replaced after the index has been filled. -/
theorem not_atomic_rename :
    let call := createIndex (fun _ => []) { IndexFaults.quiet with rename := true }
      [⟨"a", .ints, 0, 4, false, true⟩] "i" false (plainTable ["a"])
    call.1 = .ioerrWrite ∧ call.2.indexes = [⟨false, "i", ["a"]⟩] ∧ call.2.tableMeta.indexes = [] ∧
      ¬(Unchanged (plainTable ["a"]) call.2 ∧ CanCreate (fun _ => []) "i" call.2) := by
  refine ⟨by decide, by decide, by decide, fun h => ?_⟩
  exact absurd h.1.indexes (by decide)

end Table

end TDB.Schema
