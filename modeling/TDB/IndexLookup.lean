import TDB.CreateIndex

namespace TDB.Recorder

/-! ## Finding an index by a column -/

/-- `multi_fields`: the names of the fields, one behind the other. -/
def IndexMeta.joinedFields (index : IndexMeta) : String := String.join index.multiFields

def TableMeta.findIndexByField (table : TableMeta) (field : String) : Option IndexMeta :=
  table.indexes.find? fun index => index.joinedFields = field

end TDB.Recorder

namespace TDB.Schema

open Recorder

namespace Table

def findIndexByField (t : Table) (fieldName : String) : Option IndexMeta :=
  match t.tableMeta.findIndexByField fieldName with
  | some index => t.findIndex index.name
  | none => none

end Table

/-! ## Runs of `CREATE INDEX` -/

structure CreateIndexCall where
  node : CreateIndexSqlNode
  faults : IndexFaults

/-- The indexes that have been created: their names with the columns that were given. -/
abbrev Created := List (String × List String)

section runs

variable (trx : TrxType) (write : Json → List UInt8)

/-- A `CREATE INDEX` on a table: the statement, and where it is accepted `create_index`. -/
def CreateIndexCall.exec (call : CreateIndexCall) (t : Table) : RC × Table :=
  match CreateIndexStmt.create trx
      (fun name => if name = t.tableMeta.name then some t else none) call.node with
  | .error rc => (rc, t)
  | .ok stmt => stmt.table.createIndex write call.faults stmt.multiFieldMetas stmt.indexName
      stmt.isUnique

def createNext (s : Table × Created) (call : CreateIndexCall) : Table × Created :=
  let result := call.exec trx write s.1
  (result.2, if result.1 = .success then
    s.2 ++ [(call.node.indexName, call.node.multiAttributeNames)] else s.2)

end runs

/-- `find_index_by_field` finds an index for a column exactly when one was created on this column
alone, and then finds such an index. -/
def FindsByColumn (t : Table) (created : Created) (column : String) : Prop :=
  ((t.findIndexByField column).isSome = true ↔ ∃ name, (name, [column]) ∈ created) ∧
    ∀ index, t.findIndexByField column = some index → (index.name, [column]) ∈ created

/-- The names of the fields that every index gets behind its columns. -/
def sysNames (trx : TrxType) : List String := trx.trxFields.map FieldMeta.name

/-- For this column the joined names tell the indexes apart: without system fields no index
created before the first one on the column alone has names that join to it; with system fields
there is no index on the column alone, nor one whose names join to it. -/
def ColumnSeparated (trx : TrxType) (created : Created) (column : String) : Prop :=
  match trx with
  | .vacuous => ∀ entry ∈ created.takeWhile (fun entry => entry.2 ≠ [column]),
      String.join entry.2 ≠ column
  | .mvcc => ∀ entry ∈ created,
      entry.2 ≠ [column] ∧ String.join (entry.2 ++ sysNames .mvcc) ≠ column

/-! ## What the table knows about the created indexes -/

/-- The metadata lists what has been created, in this order, and every listed index is the object
of its name in `indexes_`. -/
structure Tracks (trx : TrxType) (t : Table) (created : Created) : Prop where
  listed : t.tableMeta.indexes.map (fun index => (index.name, index.multiFields)) =
    created.map fun entry => (entry.1, entry.2 ++ sysNames trx)
  objects : t.tableMeta.indexes.Sublist t.indexes
  nodup : (t.indexes.map IndexMeta.name).Nodup
  sysFields : (CreateIndexStmt.sysFields trx t.tableMeta).map FieldMeta.name = sysNames trx

theorem map_name_initTrxFields (offset : ℕ) (fields : List FieldMeta) :
    (TableMeta.initTrxFields offset fields).1.map FieldMeta.name = fields.map FieldMeta.name := by
  induction fields generalizing offset with
  | nil => rfl
  | cons field fields ih => exact congrArg (field.name :: ·) (ih _)

variable {trx : TrxType} {write : Json → List UInt8}

theorem tracks_init {tableId : Int32} {name : String} {attributes : List AttrInfoSqlNode}
    {table : TableMeta} (h : TableMeta.init trx tableId name attributes = .ok table)
    (dir : Directory) (tmpFile : Option (List UInt8)) :
    Tracks trx ⟨table, [], dir, tmpFile⟩ [] := by
  have hbuilt := TableMeta.init_built h
  have hindexes : table.indexes = [] := by
    unfold TableMeta.init at h
    split_ifs at h
    obtain ⟨columns, -, h⟩ := Expression.exists_of_bind_ok h
    obtain ⟨nullField, -, h⟩ := Expression.exists_of_bind_ok h
    obtain rfl := Except.ok.inj h
    rfl
  refine ⟨?_, ?_, List.nodup_nil, ?_⟩
  · dsimp only
    rw [hindexes]
    rfl
  · dsimp only
    rw [hindexes]
  · unfold CreateIndexStmt.sysFields TrxType.sysFieldNum
    dsimp only
    rw [hbuilt.fields, List.append_assoc, ← TableMeta.length_initTrxFields 0, List.take_left,
      map_name_initTrxFields]
    rfl

theorem nodup_append_of_findIndex {t : Table} {newIndexMeta : IndexMeta}
    (h : (t.indexes.map IndexMeta.name).Nodup) (hfree : t.findIndex newIndexMeta.name = none) :
    ((t.indexes ++ [newIndexMeta]).map IndexMeta.name).Nodup := by
  rw [List.map_append, List.map_singleton, ← List.concat_eq_append, List.nodup_concat]
  refine ⟨fun hmem => ?_, h⟩
  obtain ⟨index, hindex, hname⟩ := List.mem_map.mp hmem
  exact absurd (decide_eq_true hname) (List.find?_eq_none.mp hfree index hindex)

theorem Tracks.createNext {t : Table} {created : Created} (h : Tracks trx t created)
    (call : CreateIndexCall) : Tracks trx (Schema.createNext trx write (t, created) call).1
      (Schema.createNext trx write (t, created) call).2 := by
  unfold Schema.createNext CreateIndexCall.exec
  dsimp only
  split
  · next rc hrc =>
    rw [if_neg (CreateIndexStmt.create_error hrc)]
    exact h
  · next stmt hstmt =>
    obtain ⟨htable, -, ⟨fields, hfields, hmetas⟩, hfree, -, hname⟩ :=
      CreateIndexStmt.create_spec hstmt
    obtain rfl : t = stmt.table := Option.some.inj (Option.ite_none_right_eq_some.mp htable).2
    have hnames : stmt.multiFieldMetas.map FieldMeta.name =
        call.node.multiAttributeNames ++ sysNames trx := by
      rw [hmetas, List.map_append, hfields, h.sysFields]
    have hnodup : ((stmt.table.indexes ++ [(⟨stmt.isUnique, stmt.indexName,
        stmt.multiFieldMetas.map FieldMeta.name⟩ : IndexMeta)]).map IndexMeta.name).Nodup :=
      nodup_append_of_findIndex h.nodup hfree
    have hadds : Table.Adds ⟨stmt.isUnique, stmt.indexName,
        stmt.multiFieldMetas.map FieldMeta.name⟩ stmt.table (stmt.table.createIndex write
          call.faults stmt.multiFieldMetas stmt.indexName stmt.isUnique) := Table.adds_createIndex
    rcases hadds with ⟨hrc, hmeta, hobjects⟩ | ⟨hrc, hmeta, hobjects⟩
    · rw [if_pos hrc]
      refine ⟨?_, ?_, ?_, ?_⟩
      · rw [hmeta, TableMeta.addIndex, List.map_append, List.map_append, h.listed]
        rw [List.map_singleton, List.map_singleton, hnames, hname]
      · rw [hmeta, hobjects]
        exact h.objects.append (List.Sublist.refl _)
      · rw [hobjects]
        exact hnodup
      · rw [hmeta]
        exact h.sysFields
    · rw [if_neg hrc]
      refine ⟨hmeta.symm ▸ h.listed, ?_, ?_, hmeta.symm ▸ h.sysFields⟩
      · rw [hmeta]
        rcases hobjects with heq | heq
        · exact heq.symm ▸ h.objects
        · exact heq.symm ▸ h.objects.trans (List.sublist_append_left _ _)
      · rcases hobjects with heq | heq
        · exact heq.symm ▸ h.nodup
        · exact heq.symm ▸ hnodup

theorem Tracks.foldl (calls : List CreateIndexCall) {t : Table} {created : Created}
    (h : Tracks trx t created) : Tracks trx (calls.foldl (Schema.createNext trx write)
      (t, created)).1 (calls.foldl (Schema.createNext trx write) (t, created)).2 := by
  induction calls generalizing t created with
  | nil => exact h
  | cons call calls ih => exact ih (h.createNext call)

/-! ## The lookup -/

/-- The first entry that is found has the property, and one is found if any has it, exactly when
no entry before the first with the property is found. -/
theorem find_first_iff {α : Type} (p q : α → Bool) (hq : ∀ a, q a = true → p a = true)
    (l : List α) :
    ((l.find? p).isSome = true ↔ ∃ a ∈ l, q a = true) ∧ (∀ a, l.find? p = some a → q a = true) ↔
      ∀ a ∈ l.takeWhile (fun a => !q a), p a = false := by
  induction l with
  | nil => simp
  | cons a l ih =>
    by_cases hqa : q a = true
    · have hpa := hq a hqa
      simp [hqa, hpa]
    · by_cases hpa : p a = true
      · simp [hqa, hpa]
      · rw [Bool.not_eq_true] at hqa hpa
        simp only [List.find?_cons, hpa, List.takeWhile_cons, hqa, List.mem_cons, Bool.not_false,
          if_true, forall_eq_or_imp, true_and, exists_eq_or_imp, Bool.false_eq_true, false_or]
        exact ih

theorem findIndex_of_mem {t : Table} {index : IndexMeta} (h : (t.indexes.map IndexMeta.name).Nodup)
    (hmem : index ∈ t.indexes) : t.findIndex index.name = some index := by
  have hsome : (t.findIndex index.name).isSome = true :=
    List.find?_isSome.mpr ⟨index, hmem, decide_eq_true rfl⟩
  obtain ⟨found, hfound⟩ := Option.isSome_iff_exists.mp hsome
  have hname := List.find?_some (p := fun i : IndexMeta => i.name = index.name) hfound
  rw [hfound, List.inj_on_of_nodup_map h (List.mem_of_find?_eq_some hfound) hmem
    (of_decide_eq_true hname)]

/-- What `find_index_by_field` finds, in terms of the created indexes. -/
theorem Tracks.findIndexByField {t : Table} {created : Created} (h : Tracks trx t created)
    (column : String) :
    (t.findIndexByField column).map (fun index => (index.name, index.multiFields)) =
      (created.find? fun entry => String.join (entry.2 ++ sysNames trx) = column).map
        fun entry => (entry.1, entry.2 ++ sysNames trx) := by
  have hmeta : t.findIndexByField column = t.tableMeta.findIndexByField column := by
    unfold Table.findIndexByField
    split
    · next index hindex =>
      rw [hindex]
      exact findIndex_of_mem h.nodup (h.objects.subset (List.mem_of_find?_eq_some hindex))
    · next hnone => exact hnone.symm
  have hlisted := congrArg (List.find? fun x : String × List String => String.join x.2 = column)
    h.listed
  rw [List.find?_map, List.find?_map] at hlisted
  rw [hmeta]
  exact hlisted

theorem Tracks.findsByColumn {t : Table} {created : Created} (h : Tracks trx t created)
    (column : String) : FindsByColumn t created column ↔
      ((created.find? fun entry => String.join (entry.2 ++ sysNames trx) = column).isSome = true ↔
        ∃ entry ∈ created, decide (entry.2 = [column]) = true) ∧
      ∀ entry, (created.find? fun entry => String.join (entry.2 ++ sysNames trx) = column) =
        some entry → decide (entry.2 = [column]) = true := by
  have hfind := h.findIndexByField column
  have hnames : (created.map Prod.fst).Nodup := by
    have hlisted := congrArg (List.map Prod.fst) h.listed
    rw [List.map_map, List.map_map] at hlisted
    exact hlisted ▸ h.nodup.sublist (h.objects.map IndexMeta.name)
  refine and_congr ?_ ⟨fun hall entry hentry => ?_, fun hall index hindex => ?_⟩
  · have hsome := congrArg Option.isSome hfind
    rw [Option.isSome_map, Option.isSome_map] at hsome
    rw [hsome]
    refine iff_congr Iff.rfl ⟨?_, ?_⟩
    · rintro ⟨name, hmem⟩
      exact ⟨_, hmem, decide_eq_true rfl⟩
    · rintro ⟨entry, hmem, hcolumns⟩
      exact ⟨entry.1, by rwa [← of_decide_eq_true hcolumns]⟩
  · rw [hentry, Option.map_some] at hfind
    obtain ⟨index, hindex, heq⟩ := Option.map_eq_some_iff.mp hfind
    have hmem := hall index hindex
    rw [show index.name = entry.1 from congrArg Prod.fst heq] at hmem
    exact decide_eq_true (congrArg Prod.snd (List.inj_on_of_nodup_map hnames
      (List.mem_of_find?_eq_some hentry) hmem rfl))
  · rw [hindex, Option.map_some] at hfind
    obtain ⟨entry, hentry, heq⟩ := Option.map_eq_some_iff.mp hfind.symm
    rw [← show entry.1 = index.name from congrArg Prod.fst heq,
      ← of_decide_eq_true (hall entry hentry)]
    exact List.mem_of_find?_eq_some hentry

theorem join_sysNames_ne (column : String) :
    String.join ([column] ++ sysNames .mvcc) ≠ column := by
  intro h
  have hlength := congrArg String.length h
  have hjoin : String.join ([column] ++ sysNames .mvcc) =
      "" ++ column ++ "__trx_xid_begin" ++ "__trx_xid_end" := rfl
  rw [hjoin, String.length_append, String.length_append, String.length_append] at hlength
  have hbegin : "__trx_xid_begin".length = 15 := by decide
  omega

/-- In every run of `CREATE INDEX` on a new table, the lookup by a column agrees with the creation
exactly when the joined names tell the indexes apart for this column. -/
theorem findsByColumn_iff {tableId : Int32} {name : String} {attributes : List AttrInfoSqlNode}
    {table : TableMeta} (h : TableMeta.init trx tableId name attributes = .ok table)
    (dir : Directory) (tmpFile : Option (List UInt8)) (calls : List CreateIndexCall)
    (column : String) :
    FindsByColumn (calls.foldl (createNext trx write) (⟨table, [], dir, tmpFile⟩, [])).1
        (calls.foldl (createNext trx write) (⟨table, [], dir, tmpFile⟩, [])).2 column ↔
      ColumnSeparated trx
        (calls.foldl (createNext trx write) (⟨table, [], dir, tmpFile⟩, [])).2 column := by
  rw [((tracks_init h dir tmpFile).foldl calls).findsByColumn]
  generalize (calls.foldl (createNext trx write) (⟨table, [], dir, tmpFile⟩, [])).2 = created
  cases trx with
  | vacuous =>
    have hjoin : ∀ entry : String × List String, entry.2 ++ sysNames .vacuous = entry.2 := fun _ =>
      List.append_nil _
    simp only [hjoin]
    refine (find_first_iff _ _ (fun entry hentry => ?_) created).trans ?_
    · rw [of_decide_eq_true hentry]
      exact decide_eq_true (String.empty_append)
    · unfold ColumnSeparated
      simp only [decide_not, decide_eq_false_iff_not, ne_eq]
  -- under mvcc the names of the system fields are joined in, so an index on the column alone is
  -- never found by the column's name
  | mvcc =>
    unfold ColumnSeparated
    constructor
    · rintro ⟨hsome, hfound⟩ entry hentry
      have hnone : created.find? (fun entry => String.join (entry.2 ++ sysNames .mvcc) = column) =
          none := by
        rw [Option.eq_none_iff_forall_not_mem]
        intro found hmem
        have hjoin := of_decide_eq_true (List.find?_some
          (p := fun entry : String × List String =>
            String.join (entry.2 ++ sysNames .mvcc) = column) hmem)
        rw [of_decide_eq_true (hfound found hmem)] at hjoin
        exact join_sysNames_ne column hjoin
      refine ⟨fun hcolumns => ?_, fun hjoin => ?_⟩
      · have := hsome.mpr ⟨entry, hentry, decide_eq_true hcolumns⟩
        rw [hnone] at this
        cases this
      · exact List.find?_eq_none.mp hnone entry hentry (decide_eq_true hjoin)
    · intro hall
      have hnone : created.find? (fun entry => String.join (entry.2 ++ sysNames .mvcc) = column) =
          none := List.find?_eq_none.mpr fun entry hentry hjoin =>
        (hall entry hentry).2 (of_decide_eq_true hjoin)
      rw [hnone]
      refine ⟨iff_of_false (by rintro ⟨⟩) ?_, by rintro _ ⟨⟩⟩
      rintro ⟨entry, hentry, hcolumns⟩
      exact (hall entry hentry).1 (of_decide_eq_true hcolumns)

def createAll (trx : TrxType) (t : Table) (columns : List (String × List String)) :
    Table × Created :=
  (columns.map fun entry => ⟨⟨entry.1, t.tableMeta.name, entry.2, false⟩, .quiet⟩).foldl
    (createNext trx fun _ => []) (t, [])

theorem findsByColumn_single : ∃ table : TableMeta,
    TableMeta.init .vacuous 1 "t" [⟨"a", .ints, 4, false⟩, ⟨"b", .ints, 4, false⟩] = .ok table ∧
    FindsByColumn (createAll .vacuous ⟨table, [], [], none⟩ [("i", ["a"]), ("j", ["a", "b"])]).1
      (createAll .vacuous ⟨table, [], [], none⟩ [("i", ["a"]), ("j", ["a", "b"])]).2 "a" :=
  have h : TableMeta.init .vacuous 1 "t" [⟨"a", .ints, 4, false⟩, ⟨"b", .ints, 4, false⟩] =
    .ok _ := rfl
  ⟨_, h, (findsByColumn_iff h [] none _ "a").mpr (by unfold ColumnSeparated; decide +kernel)⟩

/-- An index on `a` and `b` is found for the column `ab`, and with system fields the index on `a`
is not found for its column. -/
theorem not_findsByColumn : ∃ table mvccTable : TableMeta,
    TableMeta.init .vacuous 1 "t" [⟨"a", .ints, 4, false⟩, ⟨"b", .ints, 4, false⟩,
      ⟨"ab", .ints, 4, false⟩] = .ok table ∧
    ¬FindsByColumn (createAll .vacuous ⟨table, [], [], none⟩ [("i", ["a", "b"])]).1
      (createAll .vacuous ⟨table, [], [], none⟩ [("i", ["a", "b"])]).2 "ab" ∧
    TableMeta.init .mvcc 1 "t" [⟨"a", .ints, 4, false⟩] = .ok mvccTable ∧
    ¬FindsByColumn (createAll .mvcc ⟨mvccTable, [], [], none⟩ [("i", ["a"])]).1
      (createAll .mvcc ⟨mvccTable, [], [], none⟩ [("i", ["a"])]).2 "a" := by
  refine ⟨_, _, rfl, fun h => ?_, rfl, fun h => ?_⟩
  · exact absurd (h.2 ⟨false, "i", ["a", "b"]⟩ (by decide +kernel)) (by decide +kernel)
  · exact absurd (h.1.mpr ⟨"i", by decide +kernel⟩) (by decide +kernel)

end TDB.Schema
