import Mathlib.Data.List.Nodup
import TDB.TableRecord

namespace TDB.Analyzer

open Recorder (TableMeta FieldMeta TrxType isBlank memoryOf)
open Where (ConjunctionType WhereConditions)
open Expression (exists_of_bind_ok)

/-! ## Parsed statements -/

structure RelAttrSqlNode where
  relationName : String
  attributeName : String
  deriving DecidableEq

/-- `RelationSqlNode`: a table of the `FROM` list; without `AS` the alias is empty. -/
structure RelationSqlNode where
  relationName : String
  aliasName : String

structure Label where
  name : String
  aliasName : String
  deriving DecidableEq

inductive ArithmeticType where
  | add | sub | mul | div | negative
  deriving DecidableEq

/-- Expressions as the parser builds them; the right side of a `unary` one is the null pointer. -/
inductive SqlExpr where
  | value (label : Label) (value : Value)
  | values (label : Label) (values : List Value)
  | relAttr (label : Label) (attr : RelAttrSqlNode)
  | arithmetic (label : Label) (type : ArithmeticType) (left right : SqlExpr)
  | unary (label : Label) (type : ArithmeticType) (left : SqlExpr)
  | aggr (label : Label) (aggrType : AggrType) (argument : SqlExpr)

structure ConditionSqlNode where
  leftExpr : SqlExpr
  comp : CompOp
  rightExpr : Option SqlExpr

structure OrderByNode where
  sortAttr : RelAttrSqlNode
  isAsc : Bool

/-- `SelectSqlNode`; of each join only its conditions are read. -/
structure SelectSqlNode where
  attributes : List SqlExpr
  relations : List RelationSqlNode
  joinConditions : List (List ConditionSqlNode)
  whereConditions : WhereConditions ConditionSqlNode
  groupByAttributes : List RelAttrSqlNode
  havingConditions : WhereConditions ConditionSqlNode
  orderLists : List OrderByNode

/-! ## Analyzed expressions -/

structure Field where
  table : TableMeta
  fieldMeta : FieldMeta
  tableAlias : String

def Field.same (f g : Field) : Bool :=
  f.table.name = g.table.name ∧ f.fieldMeta.name = g.fieldMeta.name ∧ f.tableAlias = g.tableAlias

/-- `FieldExpr::get_value`. -/
def Field.getValue (f : Field) (tuple : Tuple) : Except Failure Value :=
  tuple.findCell ⟨f.table.name, f.fieldMeta.name, f.tableAlias⟩

inductive StmtExpr where
  | field (label : Label) (field : Field)
  | value (label : Label) (value : Value)
  | values (label : Label) (values : List Value)
  | arithmetic (label : Label) (type : ArithmeticType) (left right : StmtExpr)
  | unary (label : Label) (type : ArithmeticType) (left : StmtExpr)
  | aggr (label : Label) (aggrType : AggrType) (argument : StmtExpr)

def StmtExpr.fields : StmtExpr → List Field
  | .field _ f => [f]
  | .value .. => []
  | .values .. => []
  | .arithmetic _ _ left right => left.fields ++ right.fields
  | .unary _ _ left => left.fields
  | .aggr _ _ argument => argument.fields

def addField (queryFields : List Field) (f : Field) : List Field :=
  if queryFields.any (Field.same · f) then queryFields else queryFields ++ [f]

def StmtExpr.getFields (queryFields : List Field) : StmtExpr → List Field
  | .field _ f => addField queryFields f
  | .value .. => queryFields
  | .values .. => queryFields
  | .arithmetic _ _ left right => right.getFields (left.getFields queryFields)
  | .unary _ _ left => left.getFields queryFields
  | .aggr _ _ argument => argument.getFields queryFields

/-! ## Constant folding -/

/-- `value_type` of a parsed expression. -/
def SqlExpr.valueType : SqlExpr → AttrType
  | .value _ v => v.attrType
  | .values .. => .undefined
  | .relAttr .. => .undefined
  | .arithmetic _ type left right =>
    if left.valueType = .ints ∧ right.valueType = .ints ∧ type ≠ .div then .ints else .floats
  | .unary _ _ left => left.valueType
  | .aggr _ aggrType argument => if aggrType = .count then .ints else argument.valueType

/-- `ArithmeticExpr::calc_value`, where the integers wrap around. -/
def calcValue (lib : StdLib) (type : ArithmeticType) (targetType : AttrType) (left right : Value) :
    Value :=
  if left.isNull || right.isNull then .nulls
  else
    let float (x : Float32) : Value := .floats x.toBits
    match type with
    | .add =>
      if targetType = .ints then .ints (left.getInt lib + right.getInt lib)
      else float (left.getFloat lib + right.getFloat lib)
    | .sub =>
      if targetType = .ints then .ints (left.getInt lib - right.getInt lib)
      else float (left.getFloat lib - right.getFloat lib)
    | .mul =>
      if targetType = .ints then .ints (left.getInt lib * right.getInt lib)
      else float (left.getFloat lib * right.getFloat lib)
    | .div =>
      if targetType = .ints then
        if right.getInt lib = 0 then .nulls else .ints (left.getInt lib / right.getInt lib)
      else if -Value.epsilon < (right.getFloat lib).toFloat ∧
          (right.getFloat lib).toFloat < Value.epsilon then .nulls
      else float (left.getFloat lib / right.getFloat lib)
    | .negative =>
      if targetType = .ints then .ints (-left.getInt lib) else float (-left.getFloat lib)

/-- The end of the arithmetic branch of `analyze_expression`. -/
def foldArithmetic (lib : StdLib) (label : Label) (type : ArithmeticType) (targetType : AttrType) :
    StmtExpr → StmtExpr → StmtExpr
  | .value _ v, .value _ w => .value label (calcValue lib type targetType v w)
  | left, right => .arithmetic label type left right

/-- The same without a right side, whose value is then a new one. -/
def foldUnary (lib : StdLib) (label : Label) (type : ArithmeticType) (targetType : AttrType) :
    StmtExpr → StmtExpr
  | .value _ v => .value label (calcValue lib type targetType v .undefined)
  | left => .unary label type left

/-! ## `analyze_expression` -/

/-- `TableMeta::field`. -/
def findField (table : TableMeta) (name : String) : Option FieldMeta :=
  table.fields.find? fun field => field.name = name

/-- The tables of the `FROM` list under their aliases, which the source keeps as `tables`,
`table_alias` and `table_map`. -/
abbrev FromList := List (String × TableMeta)

def FromList.find (tables : FromList) (name : String) : Option TableMeta :=
  (tables.find? fun entry => entry.1 = name).map Prod.snd

/-- The alias of a table for an attribute without a relation.  There is only one table then, so
the order in which the map is read makes no difference. -/
def plainAlias (tableMap : FromList) (table : TableMeta) : String :=
  match tableMap.find? fun entry => entry.2.name = table.name ∧ entry.1 ≠ entry.2.name with
  | some entry => entry.1
  | none => table.name

def plainField (table : TableMeta) (name : String) : Option FieldMeta :=
  if name = "*" then some ⟨"*", .chars, 0, 1, true, true⟩ else findField table name

/-- The branch of `analyze_expression` for an attribute; a table may be the null pointer. -/
def analyzeAttribute (tableMap : FromList) (tables : List (Option TableMeta)) (label : Label)
    (attr : RelAttrSqlNode) : Except Failure StmtExpr :=
  if isBlank attr.relationName then
    match tables with
    | [none] => .error .crash
    | [some table] =>
      match plainField table attr.attributeName with
      | none => .error (.code .schemaFieldMissing)
      | some fieldMeta => .ok (.field label ⟨table, fieldMeta, plainAlias tableMap table⟩)
    | _ => .error (.code .schemaFieldMissing)
  else
    match tableMap.find attr.relationName with
    | none => .error (.code .schemaFieldMissing)
    | some table =>
      match findField table attr.attributeName with
      | none => .error (.code .schemaFieldMissing)
      | some fieldMeta =>
        let aliasName :=
          if attr.relationName ≠ table.name ∧ tables.length ≠ 1 then
            attr.relationName ++ "." ++ attr.attributeName
          else label.aliasName
        .ok (.field ⟨label.name, aliasName⟩ ⟨table, fieldMeta, attr.relationName⟩)

/-- Whether an aggregate is `COUNT(*)`; the argument of `COUNT` is taken to be an attribute. -/
def SqlExpr.isCountStar (aggrType : AggrType) : SqlExpr → Except Failure Bool
  | .relAttr _ attr =>
    .ok (aggrType = .count ∧ attr.relationName = "" ∧ attr.attributeName = "*")
  | _ => if aggrType = .count then .error .crash else .ok false

def countStar : List (Option TableMeta) → Except Failure StmtExpr
  | some table :: _ => .ok (.field ⟨"*", "*"⟩ ⟨table, ⟨"*", .ints, 0, 1, true, true⟩, table.name⟩)
  | _ => .error .crash

def checkArgument (aggrType : AggrType) : StmtExpr → Except Failure StmtExpr
  | .field label f =>
    if f.fieldMeta.name = "*" ∧ aggrType ≠ .count then .error (.code .invalidArgument)
    else .ok (.field label f)
  | _ => .error .crash

def analyzeExpression (lib : StdLib) (tableMap : FromList) (tables : List (Option TableMeta)) :
    SqlExpr → Except Failure StmtExpr
  | .aggr label aggrType argument => do
    let star ← argument.isCountStar aggrType
    if star then
      return .aggr label aggrType (← countStar tables)
    else
      let field ← analyzeExpression lib tableMap tables argument
      return .aggr label aggrType (← checkArgument aggrType field)
  | .arithmetic label type left right => do
    let leftExpr ← analyzeExpression lib tableMap tables left
    let rightExpr ← analyzeExpression lib tableMap tables right
    return foldArithmetic lib label type (SqlExpr.arithmetic label type left right).valueType
      leftExpr rightExpr
  | .unary label type left => do
    let leftExpr ← analyzeExpression lib tableMap tables left
    return foldUnary lib label type (SqlExpr.unary label type left).valueType leftExpr
  | .relAttr label attr => analyzeAttribute tableMap tables label attr
  | .value label v => .ok (.value label v)
  | .values label vs => .ok (.values label vs)

/-! ## The select list -/

/-- The fields of a wildcard; `aliasOf` gives their aliases. -/
def visibleFields (trx : TrxType) (table : TableMeta) (tableName : String)
    (aliasOf : String → String) : List StmtExpr :=
  ((table.fields.drop trx.sysFieldNum).filter FieldMeta.visible).map fun fieldMeta =>
    .field ⟨"", aliasOf fieldMeta.name⟩ ⟨table, fieldMeta, tableName⟩

def wildcardFieldsWithoutTableName (trx : TrxType) (table : TableMeta) (tableName : String) :
    List StmtExpr :=
  visibleFields trx table tableName id

def wildcardFieldsWithTableName (trx : TrxType) (table : TableMeta) (tableName : String) :
    List StmtExpr :=
  visibleFields trx table tableName fun name => tableName ++ "." ++ name

def wildcardFields (trx : TrxType) (tableCount : ℕ) (table : TableMeta) (aliasName : String) :
    List StmtExpr :=
  if tableCount = 1 then wildcardFieldsWithoutTableName trx table aliasName
  else wildcardFieldsWithTableName trx table aliasName

/-- The table of an attribute of the select list, with its alias. -/
def tableOf (tables : FromList) (tableName : String) : Option (String × TableMeta) :=
  if isBlank tableName then
    match tables with
    | [entry] => some entry
    | _ => none
  else tables.find? fun entry => entry.1 = tableName

/-- The end of `_process_attribute_expression`: all fields of a table, or one of them. -/
def tableFields (trx : TrxType) (label : Label) (attr : RelAttrSqlNode)
    (entry : String × TableMeta) : Except Failure (List StmtExpr) :=
  if attr.attributeName = "*" then .ok (wildcardFieldsWithTableName trx entry.2 entry.1)
  else
    match findField entry.2 attr.attributeName with
    | none => .error (.code .schemaFieldMissing)
    | some fieldMeta =>
      .ok [.field ⟨"", if label.aliasName = "" then label.name else label.aliasName⟩
        ⟨entry.2, fieldMeta, entry.1⟩]

def processAttributeExpression (trx : TrxType) (tables : FromList) (label : Label)
    (attr : RelAttrSqlNode) : Except Failure (List StmtExpr) :=
  if attr.attributeName = "*" ∧ (isBlank attr.relationName ∨ attr.relationName = "*") then
    .ok (tables.flatMap fun entry => wildcardFields trx tables.length entry.2 entry.1)
  else if attr.relationName = "*" then .error (.code .schemaFieldMissing)
  else
    match tableOf tables attr.relationName with
    | none => .error (.code .schemaFieldMissing)
    | some entry => tableFields trx label attr entry

/-- The first loop of `analyze_tables_and_projects`. -/
def collectTables (findTable : String → Option TableMeta) :
    FromList → List RelationSqlNode → Except Failure FromList
  | tables, [] => .ok tables
  | tables, relation :: relations =>
    let aliasName := if relation.aliasName = "" then relation.relationName else relation.aliasName
    if (tables.find aliasName).isSome then .error (.code .sqlSyntax)
    else
      match findTable relation.relationName with
      | none => .error (.code .schemaTableNotExist)
      | some table => collectTables findTable (tables ++ [(aliasName, table)]) relations

def analyzeProject (lib : StdLib) (trx : TrxType) (tables : FromList) :
    SqlExpr → Except Failure (List StmtExpr)
  | .relAttr label attr => processAttributeExpression trx tables label attr
  | expr => do return [← analyzeExpression lib tables (tables.map fun entry => some entry.2) expr]

/-- `analyze_tables_and_projects`; the parser has the select list in reverse order. -/
def analyzeTablesAndProjects (lib : StdLib) (trx : TrxType)
    (findTable : String → Option TableMeta) (sql : SelectSqlNode) :
    Except Failure (FromList × List StmtExpr) := do
  let tables ← collectTables findTable [] sql.relations
  let projects ← sql.attributes.reverse.mapM (analyzeProject lib trx tables)
  return (tables, projects.flatten)

/-! ## The other clauses -/

structure FilterUnit where
  comp : CompOp
  left : StmtExpr
  right : Option StmtExpr

def FilterUnit.fields (unit : FilterUnit) : List Field :=
  unit.left.fields ++ (unit.right.map StmtExpr.fields).getD []

/-- The right side of a condition, which may be the null pointer. -/
def analyzeRight (lib : StdLib) (tableMap : FromList) (tables : List (Option TableMeta)) :
    Option SqlExpr → Except Failure (Option StmtExpr)
  | none => .ok none
  | some expr => do return some (← analyzeExpression lib tableMap tables expr)

def createFilterUnit (lib : StdLib) (defaultTable : Option TableMeta) (tables : FromList)
    (condition : ConditionSqlNode) : Except Failure FilterUnit :=
  if condition.comp = .noOp then .error (.code .invalidArgument)
  else do
    let left ← analyzeExpression lib tables [defaultTable] condition.leftExpr
    let right ← analyzeRight lib tables [defaultTable] condition.rightExpr
    return ⟨condition.comp, left, right⟩

def createFilterStmt (lib : StdLib) (defaultTable : Option TableMeta) (tables : FromList)
    (conditions : List ConditionSqlNode) : Except Failure (List FilterUnit) :=
  conditions.mapM (createFilterUnit lib defaultTable tables)

/-- `get_table_and_field`; `create_group_by_unit` has the same code. -/
def getTableAndField (defaultTable : Option TableMeta) (tables : FromList) (attr : RelAttrSqlNode) :
    Except Failure (TableMeta × FieldMeta) :=
  match (if isBlank attr.relationName then defaultTable else tables.find attr.relationName) with
  | none => .error (.code .schemaTableNotExist)
  | some table =>
    match findField table attr.attributeName with
    | none => .error (.code .schemaFieldNotExist)
    | some field => .ok (table, field)

def createGroupByUnit (defaultTable : Option TableMeta) (tables : FromList)
    (unit : RelAttrSqlNode) : Except Failure Field := do
  let found ← getTableAndField defaultTable tables unit
  return ⟨found.1, found.2, found.1.name⟩

structure SortUnit where
  field : Field
  isAsc : Bool

def createOrderUnit (defaultTable : Option TableMeta) (tables : FromList) (node : OrderByNode) :
    Except Failure SortUnit := do
  let found ← getTableAndField defaultTable tables node.sortAttr
  return ⟨⟨found.1, found.2, found.1.name⟩, node.isAsc⟩

/-! ## `SelectStmt::create` -/

/-- `SelectStmt`; the group is `none` when the pointer is null. -/
structure SelectStmt where
  queryFields : List Field
  projects : List StmtExpr
  tables : FromList
  filterUnits : WhereConditions FilterUnit
  groupBy : Option (List Field)
  havingUnits : WhereConditions FilterUnit
  orderUnits : List SortUnit
  joinFilters : List (List FilterUnit)

def StmtExpr.isAggr : StmtExpr → Bool
  | .aggr .. => true
  | _ => false

def StmtExpr.field? : StmtExpr → Option Field
  | .field _ f => some f
  | _ => none

def groupChecked (projects : List StmtExpr) (groupBy : Option (List Field)) : Bool :=
  if projects.any StmtExpr.isAggr && projects.any fun e => e.field?.isSome then
    match groupBy with
    | none => false
    | some group => (projects.filterMap StmtExpr.field?).all fun f => group.any (Field.same f)
  else true

/-- The group of a statement, for which an empty list is none. -/
def createGroupByStmt (defaultTable : Option TableMeta) (tables : FromList) :
    List RelAttrSqlNode → Except Failure (Option (List Field))
  | [] => .ok none
  | units => do return some (← units.mapM (createGroupByUnit defaultTable tables))

def defaultTable : FromList → Option TableMeta
  | [entry] => some entry.2
  | _ => none

def SelectStmt.create (lib : StdLib) (trx : TrxType) (findTable : String → Option TableMeta)
    (sql : SelectSqlNode) : Except Failure SelectStmt :=
  if sql.relations.isEmpty then .error (.code .invalidArgument)
  else do
    let analyzed ← analyzeTablesAndProjects lib trx findTable sql
    let tables := analyzed.1
    let filter := createFilterStmt lib (defaultTable tables) tables
    let joinFilters ← sql.joinConditions.mapM filter
    let filterUnits ← filter sql.whereConditions.conditions
    let groupBy ← createGroupByStmt (defaultTable tables) tables sql.groupByAttributes
    let havingUnits ← filter sql.havingConditions.conditions
    let orderUnits ← sql.orderLists.mapM (createOrderUnit (defaultTable tables) tables)
    if groupChecked analyzed.2 groupBy then
      return ⟨analyzed.2.foldl StmtExpr.getFields [], analyzed.2, tables,
        ⟨sql.whereConditions.type, filterUnits⟩, groupBy,
        ⟨sql.havingConditions.type, havingUnits⟩, orderUnits, joinFilters⟩
    else .error (.code .invalidArgument)

end TDB.Analyzer
