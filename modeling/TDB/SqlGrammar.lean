import TDB.ExpressionAnalysis
import TDB.CreateIndex
import TDB.Lib.TableParser
import TDB.ValueText

namespace TDB.Sql

open Analyzer (ArithmeticType Label RelAttrSqlNode RelationSqlNode SqlExpr ConditionSqlNode
  OrderByNode SelectSqlNode)
open Where (ConjunctionType WhereConditions)
open Recorder (AttrInfoSqlNode setDateString)
open Schema (CreateIndexSqlNode)

/-! ## What the parser builds -/

structure JoinSqlNode where
  relation : RelationSqlNode
  joinConditions : List ConditionSqlNode

/-- `UpdateUnit` of the parser. -/
structure UpdateUnit where
  attributeName : String
  value : SqlExpr

/-- `ParsedSqlNode`: the flag with the node that it selects. -/
inductive ParsedSqlNode where
  | error
  | calc (expressions : List SqlExpr)
  | select (selection : SelectSqlNode)
  | insert (relationName : String) (multiValues : List (List Value))
  | update (relationName : String) (updateUnits : List UpdateUnit)
      (conditions : List ConditionSqlNode)
  | delete (relationName : String) (conditions : List ConditionSqlNode)
  | createTable (relationName : String) (attrInfos : List AttrInfoSqlNode)
  | createView (viewName : String) (selectSqlNode : SelectSqlNode)
  | dropTable (relationName : String)
  | createIndex (node : CreateIndexSqlNode)
  | dropIndex (indexName relationName : String)
  | sync
  | showTables
  | descTable (relationName : String)
  | begin
  | commit
  | rollback
  | loadData (relationName fileName : String)
  | help
  | exit
  | explain (sqlNode : ParsedSqlNode)
  | setVariable (name : String) (value : Value)

def ParsedSqlNode.selection : ParsedSqlNode → SelectSqlNode
  | .select selection => selection
  | _ => ⟨[], [], [], {}, [], {}, []⟩

/-! ## The symbols -/

/-- `yysymbol_kind_t`; the four operators are characters in the source. -/
inductive Symbol where
  | YYEOF | YYerror | YYUNDEF | SEMICOLON | CREATE | DROP | VIEW | TABLE | TABLES | INDEX | UNIQUE
  | CALC | SELECT | ASC | DESC | ORDER | BY | IS | NULL_T | SHOW | SYNC | INSERT | DELETE | UPDATE
  | LBRACE | RBRACE | COMMA | TRX_BEGIN | TRX_COMMIT | TRX_ROLLBACK | INT_T | STRING_T | FLOAT_T
  | DATE_T | TEXT_T | NOT_T | LIKE_T | COUNT_T | MIN_T | MAX_T | AVG_T | SUM_T | HELP | EXIT | DOT
  | INTO | VALUES | FROM | WHERE | AND | OR | SET | INNER | JOIN | ON | LOAD | DATA | INFILE
  | EXPLAIN | GROUP | HAVING | AS | IN_T | EXISTS_T | EQ | LT | GT | LE | GE | NE | NUMBER | FLOAT
  | ID | SSS | DATE_STR | plus | minus | star | slash | accept | commands | commandWrapper
  | exitStmt | helpStmt | syncStmt | beginStmt | commitStmt | rollbackStmt | dropTableStmt
  | showTablesStmt | descTableStmt | createIndexStmt | multiAttributeNames | dropIndexStmt
  | createTableStmt | createViewStmt | attrDefList | attrDef | number | type | aggrType
  | insertStmt | multiValueList | valueList | valueListBody | value | deleteStmt | updateStmt
  | updateDefList | updateDef | selectStmt | optGroupBy | optHaving | optOrderBy | sortDefList
  | sortDef | calcStmt | aggrExpr | baseExpr | mulExpr | addExpr | selectAttr | expressionList
  | relAttr | relAttrList | relationList | relList | relAlias | joinList | joinConditions
  | whereConditions | conditionList | condition | compOp | loadDataStmt | explainStmt
  | setVariableStmt | optSemicolon
  deriving DecidableEq

/-- The members of the union, and one for the symbols without a type. -/
inductive Member where
  | untyped | sqlNode | condition | value | comp | relAttr | relAttrList | relation | attrInfos
  | attrInfo | updateInfos | updateInfo | orderInfos | orderInfo | expression | expressionList
  | valueList | valueListBody | multiValueList | multiAttributeNames | conditionList | joinList
  | relationList | string | number | floats
  deriving DecidableEq

/-- What a member holds.  The pointers to lists may be null; no rule makes another pointer null. -/
abbrev Member.T : Member → Type
  | untyped => Unit
  | sqlNode => ParsedSqlNode
  | condition => ConditionSqlNode
  | value => Value
  | comp => CompOp
  | relAttr => RelAttrSqlNode
  | relAttrList => Option (List RelAttrSqlNode)
  | relation => RelationSqlNode
  | attrInfos => Option (List AttrInfoSqlNode)
  | attrInfo => AttrInfoSqlNode
  | updateInfos => Option (List UpdateUnit)
  | updateInfo => UpdateUnit
  | orderInfos => Option (List OrderByNode)
  | orderInfo => OrderByNode
  | expression => SqlExpr
  | expressionList => Option (List SqlExpr)
  | valueList | valueListBody => Option (List Value)
  | multiValueList => Option (List (List Value))
  | multiAttributeNames => Option (List String)
  | conditionList => Option (WhereConditions ConditionSqlNode)
  | joinList => Option (List JoinSqlNode)
  | relationList => Option (List RelationSqlNode)
  | string => List UInt8
  | number => Int32
  | floats => UInt32

namespace Symbol

/-- `%token` and `%type`. -/
abbrev member : Symbol → Member
  | NUMBER | type | aggrType | number => .number
  | FLOAT => .floats
  | ID | SSS | DATE_STR => .string
  | condition => .condition
  | value => .value
  | compOp => .comp
  | relAttr => .relAttr
  | relAttrList | optGroupBy => .relAttrList
  | attrDefList => .attrInfos
  | attrDef => .attrInfo
  | updateDefList => .updateInfos
  | updateDef => .updateInfo
  | optOrderBy | sortDefList => .orderInfos
  | sortDef => .orderInfo
  | valueList => .valueList
  | valueListBody => .valueListBody
  | multiValueList => .multiValueList
  | multiAttributeNames => .multiAttributeNames
  | optHaving | whereConditions | joinConditions | conditionList => .conditionList
  | joinList => .joinList
  | selectAttr | expressionList => .expressionList
  | relAlias => .relation
  | relList | relationList => .relationList
  | aggrExpr | baseExpr | mulExpr | addExpr => .expression
  | calcStmt | selectStmt | insertStmt | updateStmt | deleteStmt | createTableStmt | createViewStmt
  | dropTableStmt | showTablesStmt | descTableStmt | createIndexStmt | dropIndexStmt | syncStmt
  | beginStmt | commitStmt | rollbackStmt | loadDataStmt | explainStmt | setVariableStmt | helpStmt
  | exitStmt | commandWrapper | commands => .sqlNode
  | _ => .untyped

/-- The type of `$k` for this symbol. -/
abbrev T (symbol : Symbol) : Type := symbol.member.T

end Symbol

/-- `YYSTYPE`: the member that was written last. -/
def YYSTYPE := Σ member : Member, member.T

/-- `YYLTYPE`; the lines are left out, which no rule reads. -/
structure YYLTYPE where
  firstColumn : ℤ
  lastColumn : ℤ
  deriving DecidableEq

/-- `YYLLOC_DEFAULT`: from the first symbol to the last one, or behind the symbol to the left. -/
def yyllocDefault (left : YYLTYPE) : List YYLTYPE → YYLTYPE
  | [] => ⟨left.lastColumn, left.lastColumn⟩
  | first :: rest => ⟨first.firstColumn, (rest.getLastD first).lastColumn⟩

/-! ## The rules -/

inductive Fault where
  /-- A member is read that was not written. -/
  | union
  | nullDereference
  deriving DecidableEq

/-- The code of a rule adds nodes to `sql_result`. -/
abbrev ActionM := StateT (List ParsedSqlNode) (Except Fault)

abbrev Curried : List Symbol → Type → Type
  | [], R => R
  | symbol :: symbols, R => symbol.T → Curried symbols R

def Curried.apply {R : Type} : (symbols : List Symbol) → Curried symbols R → List YYSTYPE → Option R
  | [], result, [] => some result
  | symbol :: symbols, f, v :: values =>
    if h : v.1 = symbol.member then apply symbols (f (cast (congrArg Member.T h) v.2)) values
    else none
  | _, _, _ => none

/-- A rule with its code, which sees the text at `@$`; `place` is the `k` of `@$ = @k`. -/
structure Rule where
  lhs : Symbol
  rhs : List Symbol
  action : String → Curried rhs (ActionM lhs.T)
  place : Option ℕ := none

def Curried.map {R R' : Type} (g : R → R') : (symbols : List Symbol) → Curried symbols R →
    Curried symbols R'
  | [], result => g result
  | _ :: symbols, f => fun v => map g symbols (f v)

/-- A rule whose code only gives a value. -/
def rule (lhs : Symbol) (rhs : List Symbol) (value : Curried rhs lhs.T) : Rule :=
  ⟨lhs, rhs, fun _ => Curried.map pure rhs value, none⟩

/-- A rule that gives an expression the text as its name. -/
def named (lhs : Symbol) (rhs : List Symbol) (value : String → Curried rhs lhs.T) : Rule :=
  ⟨lhs, rhs, fun name => Curried.map pure rhs (value name), none⟩

def acting (lhs : Symbol) (rhs : List Symbol) (action : String → Curried rhs (ActionM lhs.T)) :
    Rule :=
  ⟨lhs, rhs, action, none⟩

/-- `@$ = @k`. -/
def Rule.at (r : Rule) (k : ℕ) : Rule := { r with place := some k }

/-- `*p`. -/
def deref {α : Type} : Option α → ActionM α
  | some a => return a
  | none => throw .nullDereference

/-- The vector of the rest, or a new one, with one more element. -/
def emplaceBack {α : Type} (rest : Option (List α)) (a : α) : Option (List α) :=
  some (rest.getD [] ++ [a])

/-- A `char *` as a `std::string`. -/
def text (string : List UInt8) : String := String.ofList (Value.asciiChars string)

/-- `common::substr(s, 1, strlen(s) - 2)`. -/
def substr (string : List UInt8) : List UInt8 := (string.take (string.length - 1)).drop 1

/-- `(AttrType)$2`. -/
def attrTypeOfNumber (number : Int32) : AttrType :=
  [.undefined, .chars, .ints, .dates, .nulls, .floats, .booleans, .texts].getD number.toInt.toNat
    .undefined

/-- `(AggrType)$1`. -/
def aggrTypeOfNumber (number : Int32) : AggrType :=
  [.count, .min, .max, .avg, .sum].getD number.toInt.toNat .undefined

/-- An `int` as a `size_t`. -/
def sizeOfNumber (number : Int32) : ℕ := (number.toInt % 2 ^ 64).toNat

def setName (name : String) : SqlExpr → SqlExpr
  | .value label value => .value { label with name } value
  | .values label values => .values { label with name } values
  | .relAttr label attr => .relAttr { label with name } attr
  | .arithmetic label type left right => .arithmetic { label with name } type left right
  | .unary label type left => .unary { label with name } type left
  | .aggr label type argument => .aggr { label with name } type argument

def setAlias (aliasName : String) : SqlExpr → SqlExpr
  | .value label value => .value { label with aliasName } value
  | .values label values => .values { label with aliasName } values
  | .relAttr label attr => .relAttr { label with aliasName } attr
  | .arithmetic label type left right => .arithmetic { label with aliasName } type left right
  | .unary label type left => .unary { label with aliasName } type left
  | .aggr label type argument => .aggr { label with aliasName } type argument

def noLabel : Label := ⟨"", ""⟩

def newRelAttrExpr (attr : RelAttrSqlNode) : SqlExpr := .relAttr noLabel attr

def createArithmeticExpression (type : ArithmeticType) (left right : SqlExpr) (name : String) :
    SqlExpr :=
  .arithmetic ⟨name, ""⟩ type left right

/-- The rules of `commands` and `command_wrapper`, behind the one that Bison adds. -/
def commandRules : List Rule := [
  rule .accept [.commands, .YYEOF] fun _ _ => (),
  acting .commands [.commandWrapper, .optSemicolon] fun _ node _ =>
    show ActionM ParsedSqlNode from do
      modify fun sqlNodes => sqlNodes ++ [node]
      return node,
  rule .commandWrapper [.calcStmt] fun node => node,
  rule .commandWrapper [.selectStmt] fun node => node,
  rule .commandWrapper [.insertStmt] fun node => node,
  rule .commandWrapper [.updateStmt] fun node => node,
  rule .commandWrapper [.deleteStmt] fun node => node,
  rule .commandWrapper [.createTableStmt] fun node => node,
  rule .commandWrapper [.createViewStmt] fun node => node,
  rule .commandWrapper [.dropTableStmt] fun node => node,
  rule .commandWrapper [.showTablesStmt] fun node => node,
  rule .commandWrapper [.descTableStmt] fun node => node,
  rule .commandWrapper [.createIndexStmt] fun node => node,
  rule .commandWrapper [.dropIndexStmt] fun node => node,
  rule .commandWrapper [.syncStmt] fun node => node,
  rule .commandWrapper [.beginStmt] fun node => node,
  rule .commandWrapper [.commitStmt] fun node => node,
  rule .commandWrapper [.rollbackStmt] fun node => node,
  rule .commandWrapper [.loadDataStmt] fun node => node,
  rule .commandWrapper [.explainStmt] fun node => node,
  rule .commandWrapper [.setVariableStmt] fun node => node,
  rule .commandWrapper [.helpStmt] fun node => node,
  rule .commandWrapper [.exitStmt] fun node => node]

/-- From `exit_stmt` to `desc_table_stmt`. -/
def plainRules : List Rule := [
  rule .exitStmt [.EXIT] fun _ => .exit,
  rule .helpStmt [.HELP] fun _ => .help,
  rule .syncStmt [.SYNC] fun _ => .sync,
  rule .beginStmt [.TRX_BEGIN] fun _ => .begin,
  rule .commitStmt [.TRX_COMMIT] fun _ => .commit,
  rule .rollbackStmt [.TRX_ROLLBACK] fun _ => .rollback,
  rule .dropTableStmt [.DROP, .TABLE, .ID] fun _ _ name => .dropTable (text name),
  rule .showTablesStmt [.SHOW, .TABLES] fun _ _ => .showTables,
  rule .descTableStmt [.DESC, .ID] fun _ name => .descTable (text name)]

/-- From `create_index_stmt` to `drop_index_stmt`. -/
def indexRules : List Rule := [
  rule .createIndexStmt [.CREATE, .UNIQUE, .INDEX, .ID, .ON, .ID, .LBRACE, .ID,
      .multiAttributeNames, .RBRACE]
    fun _ _ _ indexName _ relationName _ first rest _ =>
      .createIndex ⟨text indexName, text relationName,
        (rest.getD [] ++ [text first]).reverse, true⟩,
  rule .createIndexStmt [.CREATE, .INDEX, .ID, .ON, .ID, .LBRACE, .ID, .multiAttributeNames,
      .RBRACE]
    fun _ _ indexName _ relationName _ first rest _ =>
      .createIndex ⟨text indexName, text relationName,
        (rest.getD [] ++ [text first]).reverse, false⟩,
  rule .multiAttributeNames [] none,
  rule .multiAttributeNames [.COMMA, .ID, .multiAttributeNames]
    fun _ name rest => emplaceBack rest (text name),
  rule .dropIndexStmt [.DROP, .INDEX, .ID, .ON, .ID]
    fun _ _ indexName _ relationName =>
      .dropIndex (text indexName) (text relationName)]

/-- From `create_table_stmt` to `aggr_type`. -/
def tableRules : List Rule := [
  rule .createTableStmt [.CREATE, .TABLE, .ID, .LBRACE, .attrDef, .attrDefList, .RBRACE]
    fun _ _ name _ first rest _ =>
      .createTable (text name) (rest.getD [] ++ [first]).reverse,
  rule .createViewStmt [.CREATE, .VIEW, .ID, .AS, .selectStmt]
    fun _ _ name _ select => .createView (text name) select.selection,
  rule .createViewStmt [.CREATE, .VIEW, .ID, .LBRACE, .relAttrList, .RBRACE, .AS, .selectStmt]
    fun _ _ name _ _ _ _ select => .createView (text name) select.selection,
  rule .attrDefList [] none,
  rule .attrDefList [.COMMA, .attrDef, .attrDefList]
    fun _ attr rest => emplaceBack rest attr,
  rule .attrDef [.ID, .type, .LBRACE, .number, .RBRACE]
    fun name type _ length _ =>
      ⟨text name, attrTypeOfNumber type, sizeOfNumber length, true⟩,
  rule .attrDef [.ID, .type]
    fun name type => ⟨text name, attrTypeOfNumber type, 4, true⟩,
  rule .attrDef [.ID, .type, .LBRACE, .number, .RBRACE, .NOT_T, .NULL_T]
    fun name type _ length _ _ _ =>
      ⟨text name, attrTypeOfNumber type, sizeOfNumber length, false⟩,
  rule .attrDef [.ID, .type, .NOT_T, .NULL_T]
    fun name type _ _ => ⟨text name, attrTypeOfNumber type, 4, false⟩,
  rule .attrDef [.ID, .type, .LBRACE, .number, .RBRACE, .NULL_T]
    fun name type _ length _ _ =>
      ⟨text name, attrTypeOfNumber type, sizeOfNumber length, true⟩,
  rule .attrDef [.ID, .type, .NULL_T]
    fun name type _ => ⟨text name, attrTypeOfNumber type, 4, true⟩,
  rule .number [.NUMBER] fun number => number,
  rule .type [.INT_T] fun _ => 2,
  rule .type [.STRING_T] fun _ => 1,
  rule .type [.FLOAT_T] fun _ => 5,
  rule .type [.DATE_T] fun _ => 3,
  rule .type [.TEXT_T] fun _ => 7,
  rule .aggrType [.COUNT_T] fun _ => 0,
  rule .aggrType [.MIN_T] fun _ => 1,
  rule .aggrType [.MAX_T] fun _ => 2,
  rule .aggrType [.AVG_T] fun _ => 3,
  rule .aggrType [.SUM_T] fun _ => 4]

/-- From `insert_stmt` to `value`. -/
def insertRules : List Rule := [
  acting .insertStmt [.INSERT, .INTO, .ID, .VALUES, .valueList, .multiValueList]
    fun _ _ _ name _ first rest => show ActionM ParsedSqlNode from do
      let first ← deref first
      return .insert (text name) (rest.getD [] ++ [first]).reverse,
  rule .multiValueList [] none,
  acting .multiValueList [.COMMA, .valueList, .multiValueList]
    fun _ _ values rest => show ActionM (Option (List (List Value))) from do
      let values ← deref values
      return emplaceBack rest values,
  rule .valueList [.LBRACE, .value, .valueListBody, .RBRACE]
    fun _ first rest _ => some (rest.getD [] ++ [first]).reverse,
  rule .valueListBody [] none,
  rule .valueListBody [.COMMA, .value, .valueListBody]
    fun _ value rest => emplaceBack rest value,
  (rule .value [.NUMBER] fun number => .ints number).at 1,
  (rule .value [.minus, .NUMBER] fun _ number => .ints (-number)).at 2,
  (rule .value [.FLOAT] fun bits => .floats bits).at 1,
  (rule .value [.minus, .FLOAT] fun _ bits => .floats (bits ^^^ 0x80000000)).at 2,
  rule .value [.SSS] fun string => .chars (substr string),
  rule .value [.DATE_STR] fun string =>
    (setDateString (Value.asciiChars (substr string))).getD .undefined,
  (rule .value [.NULL_T] fun _ => .nulls).at 1]

/-- From `delete_stmt` to `update_def`. -/
def updateRules : List Rule := [
  rule .deleteStmt [.DELETE, .FROM, .ID, .whereConditions]
    fun _ _ name conditions =>
      .delete (text name) (conditions.getD {}).conditions,
  rule .updateStmt [.UPDATE, .ID, .SET, .updateDef, .updateDefList, .whereConditions]
    fun _ name _ first rest conditions =>
      .update (text name) (rest.getD [] ++ [first]).reverse
        (conditions.getD {}).conditions,
  rule .updateDefList [] none,
  rule .updateDefList [.COMMA, .updateDef, .updateDefList]
    fun _ unit rest => emplaceBack rest unit,
  rule .updateDef [.ID, .EQ, .addExpr] fun name _ value => ⟨text name, value⟩]

/-- From `select_stmt` to `calc_stmt`. -/
def selectRules : List Rule := [
  acting .selectStmt [.SELECT, .selectAttr, .FROM, .relationList, .joinList, .whereConditions,
      .optGroupBy, .optHaving, .optOrderBy]
    fun _ _ attributes _ relations joins whereConditions groupBy having orderBy =>
      show ActionM ParsedSqlNode from do
      let attributes ← deref attributes
      let relations ← deref relations
      let joinLists := (joins.getD []).reverse
      return .select {
        attributes := attributes
        relations := relations.reverse ++ joinLists.map JoinSqlNode.relation
        joinConditions := joinLists.map JoinSqlNode.joinConditions
        whereConditions := whereConditions.getD {}
        groupByAttributes := (groupBy.getD []).reverse
        havingConditions := having.getD {}
        orderLists := (orderBy.getD []).reverse },
  rule .optGroupBy [] none,
  rule .optGroupBy [.GROUP, .BY, .relAttrList] fun _ _ list => list,
  rule .optHaving [] none,
  rule .optHaving [.HAVING, .conditionList] fun _ list => list,
  rule .optOrderBy [] none,
  rule .optOrderBy [.ORDER, .BY, .sortDefList] fun _ _ list => list,
  rule .sortDefList [.sortDef] fun sort => some [sort],
  rule .sortDefList [.sortDef, .COMMA, .sortDefList]
    fun sort _ rest => emplaceBack rest sort,
  rule .sortDef [.relAttr] fun attr => ⟨attr, true⟩,
  rule .sortDef [.relAttr, .DESC] fun attr _ => ⟨attr, false⟩,
  rule .sortDef [.relAttr, .ASC] fun attr _ => ⟨attr, true⟩,
  acting .calcStmt [.CALC, .selectAttr] fun _ _ attributes => show ActionM ParsedSqlNode from do
    let attributes ← deref attributes
    return .calc attributes.reverse]

/-- From `aggr_expr` to `add_expr`. -/
def exprRules : List Rule := [
  rule .aggrExpr [.aggrType, .LBRACE, .star, .RBRACE]
    fun type _ _ _ =>
      .aggr noLabel (aggrTypeOfNumber type) (newRelAttrExpr ⟨"", "*"⟩),
  rule .aggrExpr [.aggrType, .LBRACE, .relAttr, .RBRACE]
    fun type _ attr _ =>
      .aggr noLabel (aggrTypeOfNumber type) (newRelAttrExpr attr),
  rule .aggrExpr [.aggrType, .LBRACE, .DATA, .RBRACE]
    fun type _ _ _ =>
      .aggr noLabel (aggrTypeOfNumber type) (newRelAttrExpr ⟨"", "data"⟩),
  named .baseExpr [.value] fun name value => setName name (.value noLabel value),
  named .baseExpr [.relAttr] fun name attr => setName name (newRelAttrExpr attr),
  named .baseExpr [.LBRACE, .addExpr, .RBRACE] fun name _ expr _ => setName name expr,
  named .baseExpr [.aggrExpr] fun name expr => setName name expr,
  acting .baseExpr [.valueList] fun name values => show ActionM SqlExpr from do
    let values ← deref values
    return setName name (.values noLabel values),
  rule .mulExpr [.baseExpr] fun expr => expr,
  named .mulExpr [.minus, .baseExpr] fun name _ expr => .unary ⟨name, ""⟩ .negative expr,
  named .mulExpr [.mulExpr, .star, .baseExpr]
    fun name left _ right => createArithmeticExpression .mul left right name,
  named .mulExpr [.mulExpr, .slash, .baseExpr]
    fun name left _ right => createArithmeticExpression .div left right name,
  rule .addExpr [.mulExpr] fun expr => expr,
  named .addExpr [.addExpr, .plus, .mulExpr]
    fun name left _ right => createArithmeticExpression .add left right name,
  named .addExpr [.addExpr, .minus, .mulExpr]
    fun name left _ right => createArithmeticExpression .sub left right name]

/-- From `select_attr` to `rel_attr_list`. -/
def attrRules : List Rule := [
  rule .selectAttr [.star, .expressionList]
    fun _ rest => emplaceBack rest (newRelAttrExpr ⟨"", "*"⟩),
  rule .selectAttr [.ID, .DOT, .star, .expressionList]
    fun name _ _ rest => emplaceBack rest (newRelAttrExpr ⟨text name, "*"⟩),
  rule .selectAttr [.addExpr, .expressionList]
    fun expr rest => emplaceBack rest expr,
  rule .selectAttr [.addExpr, .AS, .ID, .expressionList]
    fun expr _ name rest => emplaceBack rest (setAlias (text name) expr),
  rule .expressionList [] none,
  rule .expressionList [.COMMA, .star, .expressionList]
    fun _ _ rest => emplaceBack rest (newRelAttrExpr ⟨"", "*"⟩),
  rule .expressionList [.COMMA, .ID, .DOT, .star, .expressionList]
    fun _ name _ _ rest => emplaceBack rest (newRelAttrExpr ⟨text name, "*"⟩),
  rule .expressionList [.COMMA, .addExpr, .expressionList]
    fun _ expr rest => emplaceBack rest expr,
  rule .expressionList [.COMMA, .addExpr, .ID, .expressionList]
    fun _ expr name rest => emplaceBack rest (setAlias (text name) expr),
  rule .expressionList [.COMMA, .addExpr, .AS, .ID, .expressionList]
    fun _ expr _ name rest => emplaceBack rest (setAlias (text name) expr),
  rule .expressionList [.COMMA, .addExpr, .AS, .DATA, .expressionList]
    fun _ expr _ _ rest => emplaceBack rest (setAlias "data" expr),
  rule .relAttr [.ID] fun name => ⟨"", text name⟩,
  rule .relAttr [.ID, .DOT, .ID]
    fun relationName _ name => ⟨text relationName, text name⟩,
  rule .relAttrList [.relAttr] fun attr => some [attr],
  rule .relAttrList [.relAttr, .COMMA, .relAttrList]
    fun attr _ rest => emplaceBack rest attr]

/-- From `relation_list` to `where_conditions`. -/
def relationRules : List Rule := [
  rule .relationList [.relAlias, .relList]
    fun relation rest => emplaceBack rest relation,
  rule .relList [] none,
  rule .relList [.COMMA, .relAlias, .relList]
    fun _ relation rest => emplaceBack rest relation,
  rule .relAlias [.ID] fun name => ⟨text name, ""⟩,
  rule .relAlias [.ID, .ID] fun name aliasName => ⟨text name, text aliasName⟩,
  rule .relAlias [.ID, .AS, .ID] fun name _ aliasName => ⟨text name, text aliasName⟩,
  rule .joinList [] none,
  rule .joinList [.INNER, .JOIN, .relAlias, .joinConditions, .joinList]
    fun _ _ relation conditions rest =>
      emplaceBack rest ⟨relation, (conditions.getD {}).conditions.reverse⟩,
  rule .joinConditions [] none,
  rule .joinConditions [.ON, .conditionList] fun _ list => list,
  rule .whereConditions [] none,
  rule .whereConditions [.WHERE, .conditionList] fun _ list => list]

/-- From `condition_list` to `comp_op`. -/
def conditionRules : List Rule := [
  rule .conditionList [] none,
  rule .conditionList [.condition]
    fun condition => some { conditions := [condition] },
  acting .conditionList [.condition, .AND, .conditionList] fun _ condition _ rest =>
    show ActionM (Option (WhereConditions ConditionSqlNode)) from do
      let list ← deref rest
      return some { type := .and, conditions := list.conditions ++ [condition] },
  acting .conditionList [.condition, .OR, .conditionList] fun _ condition _ rest =>
    show ActionM (Option (WhereConditions ConditionSqlNode)) from do
      let list ← deref rest
      return some { type := .or, conditions := list.conditions ++ [condition] },
  rule .condition [.addExpr, .compOp, .addExpr]
    fun left comp right => ⟨left, comp, some right⟩,
  rule .condition [.addExpr, .IS, .NULL_T] fun left _ _ => ⟨left, .isNull, none⟩,
  rule .condition [.addExpr, .IS, .NOT_T, .NULL_T]
    fun left _ _ _ => ⟨left, .isNotNull, none⟩,
  rule .condition [.addExpr, .IN_T, .addExpr]
    fun left _ right => ⟨left, .inOp, some right⟩,
  rule .condition [.addExpr, .NOT_T, .IN_T, .addExpr]
    fun left _ _ right => ⟨left, .notInOp, some right⟩,
  rule .condition [.EXISTS_T, .addExpr] fun _ left => ⟨left, .existsOp, none⟩,
  rule .condition [.NOT_T, .EXISTS_T, .addExpr]
    fun _ _ left => ⟨left, .notExistsOp, none⟩,
  rule .compOp [.EQ] fun _ => .equalTo,
  rule .compOp [.LT] fun _ => .lessThan,
  rule .compOp [.GT] fun _ => .greatThan,
  rule .compOp [.LE] fun _ => .lessEqual,
  rule .compOp [.GE] fun _ => .greatEqual,
  rule .compOp [.NE] fun _ => .notEqual,
  rule .compOp [.LIKE_T] fun _ => .likeOp,
  rule .compOp [.NOT_T, .LIKE_T] fun _ _ => .notLikeOp]

/-- From `load_data_stmt` to `opt_semicolon`. -/
def remainingRules : List Rule := [
  rule .loadDataStmt [.LOAD, .DATA, .INFILE, .SSS, .INTO, .TABLE, .ID]
    fun _ _ _ fileName _ _ name =>
      .loadData (text name) (text (substr fileName)),
  rule .explainStmt [.EXPLAIN, .commandWrapper] fun _ node => .explain node,
  rule .setVariableStmt [.SET, .ID, .EQ, .value]
    fun _ name _ value => .setVariable (text name) value,
  rule .optSemicolon [] (),
  rule .optSemicolon [.SEMICOLON] fun _ => ()]

def rules : List Rule :=
  commandRules ++ plainRules ++ indexRules ++ tableRules ++ insertRules ++ updateRules ++
    selectRules ++ exprRules ++ attrRules ++ relationRules ++ conditionRules ++ remainingRules

end TDB.Sql
