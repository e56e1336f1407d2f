import TDB.RecordCells
import TDB.SelectStmt

namespace TDB.Analyzer

open Recorder (TableMeta FieldMeta TrxType AttrInfoSqlNode isBlank memoryOf)
open Expression (exists_of_bind_ok exists_of_mapM_ok)

/-! ## The columns of a table -/

/-- The columns, those of the transactions included; the last field holds the null bits. -/
def columnNames (table : TableMeta) : List String := table.fields.dropLast.map FieldMeta.name

/-- The scan's tuple yields the cell of the column with this name, whatever the record holds. -/
def Field.ReadsColumn (f : Field) (table : TableMeta) (tableAlias name : String) : Prop :=
  ∃ index column, table.fields.dropLast[index]? = some column ∧ column.name = name ∧
    ∀ data, f.getValue (table.rowTuple tableAlias data) =
      .ok (table.cell (memoryOf data) index column)

theorem fields_eq_of_init {trx : TrxType} {tableId : Int32} {name : String}
    {attributes : List AttrInfoSqlNode} {table : TableMeta}
    (h : TableMeta.init trx tableId name attributes = .ok table) :
    table.Layout ∧ ∃ nullField : FieldMeta, nullField.visible = false ∧
      table.fields = table.fields.dropLast ++ [nullField] := by
  refine ⟨(TableMeta.init_built h).layout, ?_⟩
  unfold TableMeta.init at h
  split_ifs at h
  obtain ⟨columns, -, h⟩ := exists_of_bind_ok h
  obtain ⟨nullField, hnull, h⟩ := exists_of_bind_ok h
  obtain rfl := Except.ok.inj h
  refine ⟨nullField, ?_, by rw [List.dropLast_concat]⟩
  rw [(FieldMeta.init_eq hnull).1]

/-- A field that belongs to the table of the scan, has its alias and is the column of this name. -/
structure Field.Attached (f : Field) (table : TableMeta) (tableAlias name : String) : Prop where
  ofTable : f.table = table
  aliased : f.tableAlias = tableAlias
  column : f.fieldMeta ∈ table.fields.dropLast
  named : f.fieldMeta.name = name

/-- The fields stand for the columns of these names, one after the other.  The `*` of `COUNT(*)`
stands for none. -/
def AllAttached (table : TableMeta) (tableAlias : String) : List String → List Field → Prop :=
  List.Forall₂ fun name f => name ≠ "*" → f.Attached table tableAlias name

section Table

variable {table : TableMeta} {tableAlias name : String}

theorem cellAt_of_lt (hlayout : table.Layout) {index : ℕ} {column : FieldMeta}
    (h : table.fields.dropLast[index]? = some column) (data : List (BitVec 8)) :
    table.cellAt data index = .ok (table.cell (memoryOf data) index column) := by
  obtain ⟨hlt, hget⟩ := List.getElem?_eq_some_iff.mp h
  rw [List.length_dropLast] at hlt
  have hfield : table.fields[index]? = some column := by
    rw [List.getElem?_dropLast, if_pos hlt] at h
    exact h
  have hbits := hlayout.nullBits
  unfold TableMeta.cellAt
  rw [hfield]
  exact if_neg (by omega)

theorem findIdx?_column (hdistinct : (columnNames table).Nodup) {index : ℕ} {column : FieldMeta}
    (h : table.fields.dropLast[index]? = some column) :
    (table.fields.findIdx? fun field => field.name = column.name) = some index := by
  obtain ⟨hlt, hget⟩ := List.getElem?_eq_some_iff.mp h
  have hlt' : index < table.fields.length := by
    rw [List.length_dropLast] at hlt
    omega
  rw [List.findIdx?_eq_some_iff_getElem]
  refine ⟨hlt', ?_, ?_⟩
  · rw [← List.getElem_dropLast hlt, hget]
    exact decide_eq_true rfl
  · intro j hj hname
    -- an earlier field of the name would be a second column of it
    have hjlt : j < table.fields.dropLast.length := by omega
    have hne : (columnNames table)[j]? ≠ (columnNames table)[index]? := by
      intro heq
      have hinj := (List.getElem?_inj (by rw [columnNames, List.length_map]; exact hjlt)
        hdistinct).mp heq
      omega
    apply hne
    rw [columnNames, List.getElem?_map, List.getElem?_map, h, List.getElem?_eq_getElem hjlt,
      List.getElem_dropLast]
    exact congrArg some (of_decide_eq_true hname)

/-- An attached field is found and yields the cell of its column. -/
theorem Field.Attached.reads {f : Field} (hf : f.Attached table tableAlias name)
    (hlayout : table.Layout) (hdistinct : (columnNames table).Nodup) :
    f.ReadsColumn table tableAlias name := by
  obtain ⟨index, hlt, hget⟩ := List.getElem_of_mem hf.column
  have hindex : table.fields.dropLast[index]? = some f.fieldMeta := by
    rw [List.getElem?_eq_getElem hlt, hget]
  refine ⟨index, f.fieldMeta, hindex, hf.named, fun data => ?_⟩
  unfold Field.getValue TableMeta.rowTuple
  rw [hf.ofTable, hf.aliased]
  dsimp only
  rw [if_neg (by simp), findIdx?_column hdistinct hindex]
  exact cellAt_of_lt hlayout hindex data

/-- A field with another alias is not found. -/
theorem not_reads_of_ne {f : Field} (hne : f.tableAlias ≠ tableAlias) :
    ¬ f.ReadsColumn table tableAlias name := by
  rintro ⟨index, column, -, -, hcell⟩
  have hfound := hcell []
  unfold Field.getValue TableMeta.rowTuple at hfound
  dsimp only at hfound
  rw [if_pos (.inr hne)] at hfound
  cases hfound

theorem findField_column {fieldMeta : FieldMeta}
    (hname : name ∈ columnNames table) (h : findField table name = some fieldMeta) :
    fieldMeta ∈ table.fields.dropLast := by
  obtain ⟨column, hcolumn, rfl⟩ := List.mem_map.mp hname
  have hsome : (table.fields.dropLast.find? fun field => field.name = column.name).isSome := by
    rw [List.find?_isSome]
    exact ⟨column, hcolumn, decide_eq_true rfl⟩
  obtain ⟨found, hfound⟩ := Option.isSome_iff_exists.mp hsome
  have hprefix : table.fields.dropLast <+: table.fields := List.dropLast_prefix _
  have heq := hprefix.find?_eq_some hfound
  rw [findField, heq] at h
  obtain rfl := Option.some.inj h
  exact List.mem_of_find?_eq_some hfound

/-! ## The fields the analyzer builds -/

def SqlExpr.attrs : SqlExpr → List RelAttrSqlNode
  | .value .. => []
  | .values .. => []
  | .relAttr _ attr => [attr]
  | .arithmetic _ _ left right => left.attrs ++ right.attrs
  | .unary _ _ left => left.attrs
  | .aggr _ _ argument => argument.attrs

def ConditionSqlNode.attrs (condition : ConditionSqlNode) : List RelAttrSqlNode :=
  condition.leftExpr.attrs ++ (condition.rightExpr.map SqlExpr.attrs).getD []

def RelAttrSqlNode.Names (attr : RelAttrSqlNode) (table : TableMeta) : Prop :=
  attr.attributeName = "*" ∨ attr.attributeName ∈ columnNames table

def SqlExpr.names (expr : SqlExpr) : List String := expr.attrs.map RelAttrSqlNode.attributeName

def ConditionSqlNode.names (condition : ConditionSqlNode) : List String :=
  condition.attrs.map RelAttrSqlNode.attributeName

/-- The names that an expression of the select list stands for; a wildcard stands for all visible
columns. -/
def SqlExpr.selectedNames (trx : TrxType) (table : TableMeta) : SqlExpr → List String
  | .relAttr _ attr =>
    if attr.attributeName = "*" then
      ((table.fields.drop trx.sysFieldNum).filter FieldMeta.visible).map FieldMeta.name
    else [attr.attributeName]
  | expr => expr.names

theorem find_singleton {found : TableMeta}
    (h : FromList.find [(tableAlias, table)] name = some found) :
    name = tableAlias ∧ found = table := by
  unfold FromList.find at h
  rw [List.find?_singleton] at h
  split_ifs at h with hname
  · exact ⟨(of_decide_eq_true hname).symm, (Option.some.inj h).symm⟩
  · cases h

/-- Whether or not the alias is the table's name, it is the one that is found. -/
theorem plainAlias_singleton : plainAlias [(tableAlias, table)] table = tableAlias := by
  unfold plainAlias
  rw [List.find?_singleton]
  by_cases h : tableAlias = table.name
  · rw [if_neg (by simp [h])]
    exact h.symm
  · rw [if_pos (by simp [h])]

theorem findField_name {fieldMeta : FieldMeta} (h : findField table name = some fieldMeta) :
    fieldMeta.name = name := by
  unfold findField at h
  have hname := List.find?_some h
  exact of_decide_eq_true hname

theorem findField_attached {attr : RelAttrSqlNode} {fieldMeta : FieldMeta}
    (hattr : attr.Names table) (hstar : attr.attributeName ≠ "*")
    (h : findField table attr.attributeName = some fieldMeta) :
    Field.Attached ⟨table, fieldMeta, tableAlias⟩ table tableAlias attr.attributeName :=
  ⟨rfl, rfl, findField_column (hattr.resolve_left hstar) h, findField_name h⟩

theorem analyzeAttribute_attached {label : Label} {attr : RelAttrSqlNode} {e : StmtExpr}
    (hattr : attr.Names table)
    (h : analyzeAttribute [(tableAlias, table)] [some table] label attr = .ok e) :
    AllAttached table tableAlias [attr.attributeName] e.fields := by
  unfold analyzeAttribute at h
  split_ifs at h with hblank
  · dsimp only at h
    cases hplain : plainField table attr.attributeName with
    | none => rw [hplain] at h; cases h
    | some fieldMeta =>
      rw [hplain] at h
      obtain rfl := Except.ok.inj h
      refine .cons (fun hstar => ?_) .nil
      rw [plainField, if_neg hstar] at hplain
      rw [plainAlias_singleton]
      exact findField_attached hattr hstar hplain
  · cases hfind : FromList.find [(tableAlias, table)] attr.relationName with
    | none => rw [hfind] at h; cases h
    | some found =>
      obtain ⟨hname, rfl⟩ := find_singleton hfind
      cases hfield : findField found attr.attributeName with
      | none => rw [hfind] at h; dsimp only at h; rw [hfield] at h; cases h
      | some fieldMeta =>
        rw [hfind] at h
        dsimp only at h
        rw [hfield] at h
        obtain rfl := Except.ok.inj h
        refine .cons (fun hstar => ?_) .nil
        rw [hname]
        exact findField_attached hattr hstar hfield

theorem foldArithmetic_fields {lib : StdLib} {label : Label} {type : ArithmeticType}
    {targetType : AttrType} {left right : StmtExpr} :
    (foldArithmetic lib label type targetType left right).fields = left.fields ++ right.fields := by
  unfold foldArithmetic
  split <;> rfl

theorem foldUnary_fields {lib : StdLib} {label : Label} {type : ArithmeticType}
    {targetType : AttrType} {left : StmtExpr} :
    (foldUnary lib label type targetType left).fields = left.fields := by
  unfold foldUnary
  split <;> rfl

theorem checkArgument_eq {aggrType : AggrType} {e e' : StmtExpr}
    (h : checkArgument aggrType e = .ok e') : e' = e := by
  cases e with
  | field label f =>
    unfold checkArgument at h
    dsimp only at h
    split_ifs at h
    exact (Except.ok.inj h).symm
  | _ => cases h

theorem countStar_attached {aggrType : AggrType} {argument : SqlExpr}
    {tables : List (Option TableMeta)} {e : StmtExpr}
    (hstar : argument.isCountStar aggrType = .ok true) (h : countStar tables = .ok e) :
    AllAttached table tableAlias argument.names e.fields := by
  cases argument with
  | relAttr label attr =>
    have hname : attr.attributeName = "*" := (of_decide_eq_true (Except.ok.inj hstar)).2.2
    unfold countStar at h
    split at h
    · obtain rfl := Except.ok.inj h
      exact .cons (fun hne => absurd hname hne) .nil
    · cases h
  | _ =>
    unfold SqlExpr.isCountStar at hstar
    split_ifs at hstar
    all_goals cases hstar

theorem analyzeExpression_attached {lib : StdLib} {expr : SqlExpr} {e : StmtExpr}
    (hattrs : ∀ attr ∈ expr.attrs, attr.Names table)
    (h : analyzeExpression lib [(tableAlias, table)] [some table] expr = .ok e) :
    AllAttached table tableAlias expr.names e.fields := by
  induction expr generalizing e with
  | value label v =>
    obtain rfl := Except.ok.inj h
    exact .nil
  | values label vs =>
    obtain rfl := Except.ok.inj h
    exact .nil
  | relAttr label attr => exact analyzeAttribute_attached (hattrs attr List.mem_cons_self) h
  | arithmetic label type left right ihLeft ihRight =>
    rw [analyzeExpression] at h
    obtain ⟨l, hl, h⟩ := exists_of_bind_ok h
    obtain ⟨r, hr, h⟩ := exists_of_bind_ok h
    obtain rfl := Except.ok.inj h
    rw [foldArithmetic_fields, SqlExpr.names, SqlExpr.attrs, List.map_append]
    exact List.rel_append
      (ihLeft (fun attr hattr => hattrs attr (List.mem_append_left _ hattr)) hl)
      (ihRight (fun attr hattr => hattrs attr (List.mem_append_right _ hattr)) hr)
  | unary label type left ih =>
    rw [analyzeExpression] at h
    obtain ⟨l, hl, h⟩ := exists_of_bind_ok h
    obtain rfl := Except.ok.inj h
    rw [foldUnary_fields]
    exact ih hattrs hl
  | aggr label aggrType argument ih =>
    rw [analyzeExpression] at h
    obtain ⟨star, hstar, h⟩ := exists_of_bind_ok h
    split_ifs at h with htrue
    · obtain ⟨a, ha, h⟩ := exists_of_bind_ok h
      obtain rfl := Except.ok.inj h
      rw [htrue] at hstar
      have hattached : AllAttached table tableAlias argument.names a.fields :=
        countStar_attached hstar ha
      exact hattached
    · obtain ⟨a, ha, h⟩ := exists_of_bind_ok h
      obtain ⟨a', hcheck, h⟩ := exists_of_bind_ok h
      obtain rfl := Except.ok.inj h
      obtain rfl := checkArgument_eq hcheck
      have hattached := ih hattrs ha
      exact hattached

theorem visibleFields_attached {trx : TrxType} {nullField : FieldMeta}
    (hnull : nullField.visible = false)
    (hfields : table.fields = table.fields.dropLast ++ [nullField]) (aliasOf : String → String) :
    AllAttached table tableAlias
      (((table.fields.drop trx.sysFieldNum).filter FieldMeta.visible).map FieldMeta.name)
      ((visibleFields trx table tableAlias aliasOf).flatMap StmtExpr.fields) := by
  unfold AllAttached visibleFields
  rw [List.flatMap_map, List.forall₂_map_left_iff]
  simp only [StmtExpr.fields]
  rw [← List.map_eq_flatMap, List.forall₂_map_right_iff, List.forall₂_same]
  intro fieldMeta hmem hstar
  obtain ⟨hdrop, hvisible⟩ := List.mem_filter.mp hmem
  have hfield := List.mem_of_mem_drop hdrop
  rw [hfields] at hfield
  rcases List.mem_append.mp hfield with hcolumn | hlast
  · exact ⟨rfl, rfl, hcolumn, rfl⟩
  · obtain rfl := List.mem_singleton.mp hlast
    rw [hnull] at hvisible
    cases hvisible

theorem tableOf_singleton {entry : String × TableMeta}
    (h : tableOf [(tableAlias, table)] name = some entry) : entry = (tableAlias, table) := by
  unfold tableOf at h
  split_ifs at h
  · exact (Option.some.inj h).symm
  · exact List.mem_singleton.mp (List.mem_of_find?_eq_some h)

/-- The end of `_process_attribute_expression`, for the table it has found. -/
theorem tableField_attached {trx : TrxType} {label : Label} {attr : RelAttrSqlNode}
    {es : List StmtExpr}
    (hwildcard : ∀ aliasOf, AllAttached table tableAlias
      (((table.fields.drop trx.sysFieldNum).filter FieldMeta.visible).map FieldMeta.name)
      ((visibleFields trx table tableAlias aliasOf).flatMap StmtExpr.fields))
    (hattr : attr.Names table)
    (h : tableFields trx label attr (tableAlias, table) = .ok es) :
    AllAttached table tableAlias (SqlExpr.selectedNames trx table (.relAttr label attr))
      (es.flatMap StmtExpr.fields) := by
  unfold tableFields at h
  rw [SqlExpr.selectedNames]
  by_cases hstar : attr.attributeName = "*"
  · rw [if_pos hstar] at h ⊢
    obtain rfl := Except.ok.inj h
    exact hwildcard _
  · rw [if_neg hstar] at h ⊢
    cases hfield : findField table attr.attributeName with
    | none => rw [hfield] at h; cases h
    | some fieldMeta =>
      rw [hfield] at h
      obtain rfl := Except.ok.inj h
      exact .cons (fun hne => findField_attached hattr hne hfield) .nil

theorem processAttribute_attached {trx : TrxType} {nullField : FieldMeta}
    (hnull : nullField.visible = false)
    (hfields : table.fields = table.fields.dropLast ++ [nullField]) {label : Label}
    {attr : RelAttrSqlNode} {es : List StmtExpr} (hattr : attr.Names table)
    (h : processAttributeExpression trx [(tableAlias, table)] label attr = .ok es) :
    AllAttached table tableAlias (SqlExpr.selectedNames trx table (.relAttr label attr))
      (es.flatMap StmtExpr.fields) := by
  have hwildcard : ∀ aliasOf, AllAttached table tableAlias
      (((table.fields.drop trx.sysFieldNum).filter FieldMeta.visible).map FieldMeta.name)
      ((visibleFields trx table tableAlias aliasOf).flatMap StmtExpr.fields) :=
    visibleFields_attached hnull hfields
  unfold processAttributeExpression at h
  by_cases hall : attr.attributeName = "*" ∧ (isBlank attr.relationName ∨ attr.relationName = "*")
  · rw [if_pos hall, List.flatMap_singleton] at h
    obtain rfl := Except.ok.inj h
    rw [SqlExpr.selectedNames, if_pos hall.1]
    exact hwildcard id
  · rw [if_neg hall] at h
    by_cases hrel : attr.relationName = "*"
    · rw [if_pos hrel] at h
      cases h
    · rw [if_neg hrel] at h
      cases htable : tableOf [(tableAlias, table)] attr.relationName with
      | none => rw [htable] at h; cases h
      | some entry =>
        obtain rfl := tableOf_singleton htable
        rw [htable] at h
        exact tableField_attached hwildcard hattr h

theorem analyzeProject_attached {lib : StdLib} {trx : TrxType} {nullField : FieldMeta}
    (hnull : nullField.visible = false)
    (hfields : table.fields = table.fields.dropLast ++ [nullField]) {expr : SqlExpr}
    {es : List StmtExpr} (hattrs : ∀ attr ∈ expr.attrs, attr.Names table)
    (h : analyzeProject lib trx [(tableAlias, table)] expr = .ok es) :
    AllAttached table tableAlias (expr.selectedNames trx table) (es.flatMap StmtExpr.fields) := by
  cases expr with
  | relAttr label attr =>
    exact processAttribute_attached hnull hfields (hattrs _ List.mem_cons_self) h
  | _ =>
    obtain ⟨e, he, h⟩ := exists_of_bind_ok h
    obtain rfl := Except.ok.inj h
    rw [List.flatMap_singleton]
    exact analyzeExpression_attached hattrs he

theorem createFilterUnit_attached {lib : StdLib} {condition : ConditionSqlNode}
    {unit : FilterUnit} (hattrs : ∀ attr ∈ condition.attrs, attr.Names table)
    (h : createFilterUnit lib (some table) [(tableAlias, table)] condition = .ok unit) :
    AllAttached table tableAlias condition.names unit.fields := by
  unfold createFilterUnit at h
  split_ifs at h
  obtain ⟨left, hleft, h⟩ := exists_of_bind_ok h
  obtain ⟨right, hright, h⟩ := exists_of_bind_ok h
  obtain rfl := Except.ok.inj h
  rw [ConditionSqlNode.names, ConditionSqlNode.attrs, List.map_append]
  apply List.rel_append
  · exact analyzeExpression_attached
      (fun attr hattr => hattrs attr (List.mem_append_left _ hattr)) hleft
  · cases hexpr : condition.rightExpr with
    | none =>
      rw [hexpr] at hright
      obtain rfl := Except.ok.inj hright
      exact .nil
    | some expr =>
      rw [hexpr] at hright
      obtain ⟨e, he, hright⟩ := exists_of_bind_ok hright
      obtain rfl := Except.ok.inj hright
      refine analyzeExpression_attached (fun attr hattr => hattrs attr ?_) he
      rw [ConditionSqlNode.attrs, hexpr]
      exact List.mem_append_right _ hattr

theorem getTableAndField_eq {attr : RelAttrSqlNode} {found : TableMeta × FieldMeta}
    (h : getTableAndField (some table) [(tableAlias, table)] attr = .ok found) :
    found.1 = table ∧ findField table attr.attributeName = some found.2 := by
  unfold getTableAndField at h
  split at h
  · cases h
  · next t ht =>
    have htable : t = table := by
      split_ifs at ht
      · exact (Option.some.inj ht).symm
      · exact (find_singleton ht).2
    subst htable
    cases hfield : findField t attr.attributeName with
    | none => rw [hfield] at h; cases h
    | some fieldMeta =>
      rw [hfield] at h
      obtain rfl := Except.ok.inj h
      exact ⟨rfl, rfl⟩

theorem createOrderUnit_field {node : OrderByNode} {unit : SortUnit}
    (hnode : node.sortAttr.attributeName ∈ columnNames table)
    (h : createOrderUnit (some table) [(tableAlias, table)] node = .ok unit) :
    unit.field.Attached table table.name node.sortAttr.attributeName := by
  obtain ⟨found, hfound, h⟩ := exists_of_bind_ok h
  obtain rfl := Except.ok.inj h
  obtain ⟨htable, hfield⟩ := getTableAndField_eq hfound
  exact ⟨htable, congrArg TableMeta.name htable, findField_column hnode hfield,
    findField_name hfield⟩

end Table

/-! ## Column resolution -/

def RelationSqlNode.fromName (relation : RelationSqlNode) : String :=
  if relation.aliasName = "" then relation.relationName else relation.aliasName

/-- A statement whose attributes name columns of the table; a `*` may stand in the select list and
in the conditions. -/
structure SelectSqlNode.NamesColumns (sql : SelectSqlNode) (table : TableMeta) : Prop where
  attributes : ∀ expr ∈ sql.attributes, ∀ attr ∈ expr.attrs, attr.Names table
  conditions : ∀ condition ∈ sql.whereConditions.conditions, ∀ attr ∈ condition.attrs,
    attr.Names table
  orderLists : ∀ node ∈ sql.orderLists,
    node.sortAttr.attributeName ∈ columnNames table ∧ node.sortAttr.attributeName ≠ "*"

def SelectStmt.scanAlias (stmt : SelectStmt) : String := (stmt.tables.map Prod.fst).headD ""

/-- The fields are found in the tuple of the scan, each as the column of its name. -/
def SelectStmt.ReadsAll (stmt : SelectStmt) (table : TableMeta) : List String → List Field → Prop :=
  List.Forall₂ fun name f => name ≠ "*" → f.ReadsColumn table stmt.scanAlias name

/-- So are the fields built for the select list with its aggregates, the conditions and the sort
keys: the names of the statement and the fields stand in the same order. -/
structure SelectStmt.Resolved (stmt : SelectStmt) (trx : TrxType) (sql : SelectSqlNode)
    (table : TableMeta) : Prop where
  projects : stmt.ReadsAll table (sql.attributes.reverse.flatMap (SqlExpr.selectedNames trx table))
    (stmt.projects.flatMap StmtExpr.fields)
  conditions : stmt.ReadsAll table (sql.whereConditions.conditions.flatMap ConditionSqlNode.names)
    (stmt.filterUnits.conditions.flatMap FilterUnit.fields)
  sortKeys : stmt.ReadsAll table (sql.orderLists.map fun node => node.sortAttr.attributeName)
    (stmt.orderUnits.map SortUnit.field)

structure CreatedFrom (lib : StdLib) (trx : TrxType) (sql : SelectSqlNode) (table : TableMeta)
    (fromName : String) (stmt : SelectStmt) : Prop where
  tables : stmt.tables = [(fromName, table)]
  projects : ∃ ess, List.Forall₂ (fun expr es => analyzeProject lib trx [(fromName, table)] expr =
    .ok es) sql.attributes.reverse ess ∧ stmt.projects = ess.flatten
  filterUnits : List.Forall₂ (fun condition unit =>
    createFilterUnit lib (some table) [(fromName, table)] condition = .ok unit)
    sql.whereConditions.conditions stmt.filterUnits.conditions
  orderUnits : List.Forall₂ (fun node unit =>
    createOrderUnit (some table) [(fromName, table)] node = .ok unit) sql.orderLists
    stmt.orderUnits

theorem forall₂_of_mapM_ok {ε α β : Type} {f : α → Except ε β} {as : List α} {bs : List β}
    (h : as.mapM f = .ok bs) : List.Forall₂ (fun a b => f a = .ok b) as bs := by
  induction as generalizing bs with
  | nil =>
    cases h
    exact .nil
  | cons a as ih =>
    rw [List.mapM_cons] at h
    obtain ⟨b, hb, h⟩ := exists_of_bind_ok h
    obtain ⟨rest, hrest, h⟩ := exists_of_bind_ok h
    obtain rfl := Except.ok.inj h
    exact .cons hb (ih hrest)

theorem SelectStmt.create_spec {lib : StdLib} {trx : TrxType}
    {findTable : String → Option TableMeta} {sql : SelectSqlNode} {relation : RelationSqlNode}
    {table : TableMeta} {stmt : SelectStmt} (hrelation : sql.relations = [relation])
    (htable : findTable relation.relationName = some table)
    (h : SelectStmt.create lib trx findTable sql = .ok stmt) :
    CreatedFrom lib trx sql table relation.fromName stmt := by
  unfold SelectStmt.create at h
  rw [hrelation, if_neg (by simp)] at h
  obtain ⟨analyzed, hanalyzed, h⟩ := exists_of_bind_ok h
  obtain ⟨tables, htables, hanalyzed⟩ := exists_of_bind_ok hanalyzed
  obtain ⟨projects, hprojects, hanalyzed⟩ := exists_of_bind_ok hanalyzed
  obtain rfl := Except.ok.inj hanalyzed
  have hsingle : tables = [(relation.fromName, table)] := by
    rw [hrelation, collectTables] at htables
    rw [if_neg (by simp [FromList.find]), htable] at htables
    exact (Except.ok.inj htables).symm
  subst hsingle
  obtain ⟨joins, -, h⟩ := exists_of_bind_ok h
  obtain ⟨filterUnits, hfilter, h⟩ := exists_of_bind_ok h
  obtain ⟨groupBy, -, h⟩ := exists_of_bind_ok h
  obtain ⟨having, -, h⟩ := exists_of_bind_ok h
  obtain ⟨orderUnits, horder, h⟩ := exists_of_bind_ok h
  split_ifs at h
  obtain rfl := Except.ok.inj h
  exact ⟨rfl, ⟨_, forall₂_of_mapM_ok hprojects, rfl⟩, forall₂_of_mapM_ok hfilter,
    forall₂_of_mapM_ok horder⟩

section Resolution

variable {lib : StdLib} {trx : TrxType} {sql : SelectSqlNode} {table : TableMeta}
  {fromName : String} {stmt : SelectStmt}

theorem CreatedFrom.scanAlias (hstmt : CreatedFrom lib trx sql table fromName stmt) :
    stmt.scanAlias = fromName := by
  rw [SelectStmt.scanAlias, hstmt.tables]
  rfl

theorem AllAttached.reads {names : List String} {fields : List Field}
    (h : AllAttached table stmt.scanAlias names fields) (hlayout : table.Layout)
    (hdistinct : (columnNames table).Nodup) : stmt.ReadsAll table names fields :=
  List.Forall₂.imp (fun _ _ hf hstar => (hf hstar).reads hlayout hdistinct) h

theorem CreatedFrom.projects_attached (hstmt : CreatedFrom lib trx sql table fromName stmt)
    (hnames : sql.NamesColumns table) {nullField : FieldMeta} (hnull : nullField.visible = false)
    (hfields : table.fields = table.fields.dropLast ++ [nullField]) :
    AllAttached table fromName (sql.attributes.reverse.flatMap (SqlExpr.selectedNames trx table))
      (stmt.projects.flatMap StmtExpr.fields) := by
  obtain ⟨ess, hess, hflatten⟩ := hstmt.projects
  rw [hflatten]
  have hattrs : ∀ expr ∈ sql.attributes.reverse, ∀ attr ∈ expr.attrs, attr.Names table :=
    fun expr hexpr => hnames.attributes expr (List.mem_reverse.mp hexpr)
  generalize sql.attributes.reverse = exprs at hess hattrs
  clear hflatten
  induction hess with
  | nil => exact .nil
  | @cons expr es _ _ hproject _ ih =>
    rw [List.flatMap_cons, List.flatten_cons, List.flatMap_append]
    apply List.rel_append
    · exact analyzeProject_attached hnull hfields (hattrs expr List.mem_cons_self) hproject
    · exact ih fun expr' hexpr' => hattrs expr' (List.mem_cons_of_mem _ hexpr')

theorem CreatedFrom.conditions_attached (hstmt : CreatedFrom lib trx sql table fromName stmt)
    (hnames : sql.NamesColumns table) :
    AllAttached table fromName (sql.whereConditions.conditions.flatMap ConditionSqlNode.names)
      (stmt.filterUnits.conditions.flatMap FilterUnit.fields) := by
  have hunits := hstmt.filterUnits
  have hattrs := hnames.conditions
  generalize sql.whereConditions.conditions = conditions at hunits hattrs
  generalize stmt.filterUnits.conditions = units at hunits
  induction hunits with
  | nil => exact .nil
  | @cons condition unit _ _ hcreate _ ih =>
    rw [List.flatMap_cons, List.flatMap_cons]
    apply List.rel_append
    · exact createFilterUnit_attached (hattrs condition List.mem_cons_self) hcreate
    · exact ih fun c hc => hattrs c (List.mem_cons_of_mem _ hc)

theorem CreatedFrom.sortKeys_attached (hstmt : CreatedFrom lib trx sql table fromName stmt)
    (hnames : sql.NamesColumns table) :
    AllAttached table table.name (sql.orderLists.map fun node => node.sortAttr.attributeName)
      (stmt.orderUnits.map SortUnit.field) := by
  unfold AllAttached
  rw [List.forall₂_map_left_iff, List.forall₂_map_right_iff]
  have hunits := hstmt.orderUnits
  have hnodes := hnames.orderLists
  generalize sql.orderLists = nodes at hunits hnodes
  generalize stmt.orderUnits = units at hunits
  induction hunits with
  | nil => exact .nil
  | @cons node unit _ _ hcreate _ ih =>
    refine .cons (fun _ => ?_) (ih fun n hn => hnodes n (List.mem_cons_of_mem _ hn))
    exact createOrderUnit_field (hnodes node List.mem_cons_self).1 hcreate

/-- Every column of a statement over one table resolves exactly when the statement has no
`ORDER BY` or the table stands in the `FROM` list under its own name. -/
theorem columns_resolved_iff {findTable : String → Option TableMeta} {relation : RelationSqlNode}
    {tableId : Int32} {name : String} {attributes : List AttrInfoSqlNode}
    (hrelation : sql.relations = [relation])
    (htable : findTable relation.relationName = some table)
    (hinit : TableMeta.init trx tableId name attributes = .ok table)
    (hdistinct : (columnNames table).Nodup) (hnames : sql.NamesColumns table)
    (hstmt : SelectStmt.create lib trx findTable sql = .ok stmt) :
    stmt.Resolved trx sql table ↔ sql.orderLists = [] ∨ relation.fromName = table.name := by
  have hcreated := SelectStmt.create_spec hrelation htable hstmt
  obtain ⟨hlayout, nullField, hnull, hfields⟩ := fields_eq_of_init hinit
  have hsortKeys := hcreated.sortKeys_attached hnames
  constructor
  · intro hresolved
    by_contra hcondition
    obtain ⟨horder, halias⟩ := not_or.mp hcondition
    obtain ⟨node, nodes, hnodes⟩ := List.exists_cons_of_ne_nil horder
    have hstar := (hnames.orderLists node (hnodes ▸ List.mem_cons_self)).2
    have hreads := hresolved.sortKeys
    unfold AllAttached at hsortKeys
    unfold SelectStmt.ReadsAll at hreads
    rw [hnodes, List.map_cons, List.forall₂_cons_left_iff] at hsortKeys hreads
    obtain ⟨f, fs, hattached, -, hfs⟩ := hsortKeys
    obtain ⟨f', fs', hreads, -, hfs'⟩ := hreads
    obtain ⟨rfl, -⟩ := List.cons.inj (hfs.symm.trans hfs')
    refine not_reads_of_ne ?_ (hreads hstar)
    rw [(hattached hstar).aliased, hcreated.scanAlias]
    exact Ne.symm halias
  · intro hcondition
    constructor
    case projects =>
      have hattached := hcreated.projects_attached hnames hnull hfields
      rw [← hcreated.scanAlias] at hattached
      exact hattached.reads hlayout hdistinct
    case conditions =>
      have hattached := hcreated.conditions_attached hnames
      rw [← hcreated.scanAlias] at hattached
      exact hattached.reads hlayout hdistinct
    case sortKeys =>
      rcases hcondition with hnone | halias
      · have hunits := hcreated.orderUnits
        rw [hnone, List.forall₂_nil_left_iff] at hunits
        rw [hnone, hunits]
        exact .nil
      · rw [← halias, ← hcreated.scanAlias] at hsortKeys
        exact hsortKeys.reads hlayout hdistinct

end Resolution

section OneColumn

def intTable : TableMeta :=
  ⟨0, "t", [⟨"x", .ints, 0, 4, false, true⟩, ⟨"null_field", .chars, 4, 1, false, false⟩], [], 5⟩

/-- `SELECT x FROM t WHERE x = 1 ORDER BY x`, with an alias for the table or an empty one. -/
def sortedSelect (aliasName : String) : SelectSqlNode where
  attributes := [.relAttr ⟨"x", ""⟩ ⟨"", "x"⟩]
  relations := [⟨"t", aliasName⟩]
  joinConditions := []
  whereConditions := ⟨.and, [⟨.relAttr ⟨"x", ""⟩ ⟨"", "x"⟩, .equalTo,
    some (.value ⟨"1", ""⟩ (.ints 1))⟩]⟩
  groupByAttributes := []
  havingConditions := ⟨.and, []⟩
  orderLists := [⟨⟨"", "x"⟩, true⟩]

theorem sortedSelect_names (aliasName : String) : (sortedSelect aliasName).NamesColumns
    intTable := by
  have hname : RelAttrSqlNode.Names ⟨"", "x"⟩ intTable := .inr List.mem_cons_self
  refine ⟨?_, ?_, ?_⟩
  · intro expr hexpr attr hattr
    obtain rfl := List.mem_singleton.mp hexpr
    obtain rfl := List.mem_singleton.mp hattr
    exact hname
  · intro condition hcondition attr hattr
    obtain rfl := List.mem_singleton.mp hcondition
    obtain rfl := List.mem_singleton.mp hattr
    exact hname
  · intro node hnode
    obtain rfl := List.mem_singleton.mp hnode
    exact ⟨List.mem_cons_self, by decide⟩

def sortedStmt (tableAlias : String) : SelectStmt where
  queryFields := [⟨intTable, ⟨"x", .ints, 0, 4, false, true⟩, tableAlias⟩]
  projects := [.field ⟨"", "x"⟩ ⟨intTable, ⟨"x", .ints, 0, 4, false, true⟩, tableAlias⟩]
  tables := [(tableAlias, intTable)]
  filterUnits := ⟨.and, [⟨.equalTo,
    .field ⟨"x", ""⟩ ⟨intTable, ⟨"x", .ints, 0, 4, false, true⟩, tableAlias⟩,
    some (.value ⟨"1", ""⟩ (.ints 1))⟩]⟩
  groupBy := none
  havingUnits := ⟨.and, []⟩
  orderUnits := [⟨⟨intTable, ⟨"x", .ints, 0, 4, false, true⟩, "t"⟩, true⟩]
  joinFilters := []

def plainLib : StdLib := ⟨fun _ => none, fun _ => none, fun _ _ => none, fun _ => []⟩

theorem columns_resolved_iff_plain :
    SelectStmt.create plainLib .vacuous (fun name => if name = "t" then some intTable else none)
      (sortedSelect "") = .ok (sortedStmt "t") ∧
    (sortedStmt "t").Resolved .vacuous (sortedSelect "") intTable := by
  have hcreate : SelectStmt.create plainLib .vacuous
      (fun name => if name = "t" then some intTable else none) (sortedSelect "") =
      .ok (sortedStmt "t") := by rfl
  exact ⟨hcreate, (columns_resolved_iff rfl rfl (by rfl : TableMeta.init .vacuous 0 "t"
    [⟨"x", .ints, 4, false⟩] = .ok intTable) (by decide) (sortedSelect_names "") hcreate).mpr
      (.inr rfl)⟩

/-- Under an alias the sort key is not found. -/
theorem not_columns_resolved_alias :
    TableMeta.init .vacuous 0 "t" [⟨"x", .ints, 4, false⟩] = .ok intTable ∧
    (columnNames intTable).Nodup ∧ (sortedSelect "a").NamesColumns intTable ∧
    SelectStmt.create plainLib .vacuous (fun name => if name = "t" then some intTable else none)
      (sortedSelect "a") = .ok (sortedStmt "a") ∧
    ¬ (sortedStmt "a").Resolved .vacuous (sortedSelect "a") intTable := by
  refine ⟨by rfl, by decide, sortedSelect_names "a", by rfl, fun hresolved => ?_⟩
  cases hresolved.sortKeys with
  | cons hreads _ => exact not_reads_of_ne (by decide) (hreads (by decide))

end OneColumn

end TDB.Analyzer
