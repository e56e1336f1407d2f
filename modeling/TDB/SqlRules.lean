import TDB.SqlLexer
import TDB.StoredDates

namespace TDB.Sql

open Analyzer (Label RelAttrSqlNode RelationSqlNode SqlExpr ConditionSqlNode SelectSqlNode oneSided)
open Where (WhereConditions)
open Recorder (AttrInfoSqlNode DateStr Literal setDateString)

/-! ## Statements that the parser can give -/

def IsName (name : String) : Prop :=
  ∃ bytes, bytes ≠ [] ∧ idLength bytes = bytes.length ∧ name = text bytes

def IsLiteral (v : Value) : Prop := ∃ l : Literal, v = l.value

def IsRow (row : List Value) : Prop := row ≠ [] ∧ ∀ v ∈ row, IsLiteral v

def IsColumn (attr : AttrInfoSqlNode) : Prop :=
  IsName attr.name ∧ attr.type ∈ [.ints, .chars, .floats, .dates, .texts]

def IsLabel (label : Label) : Prop := label.aliasName = "" ∨ IsName label.aliasName

def IsRelation (relation : RelationSqlNode) : Prop :=
  IsName relation.relationName ∧ (relation.aliasName = "" ∨ IsName relation.aliasName)

def IsAttr (attr : RelAttrSqlNode) : Prop :=
  (attr.relationName = "" ∨ IsName attr.relationName) ∧ IsName attr.attributeName

/-- Literals, rows of them, attributes, arithmetic, and aggregates over an attribute or a `*`. -/
def IsExpr : SqlExpr → Prop
  | .value label v => IsLabel label ∧ IsLiteral v
  | .values label vs => IsLabel label ∧ IsRow vs
  | .relAttr label attr => IsLabel label ∧ IsAttr attr
  | .arithmetic label type left right =>
    IsLabel label ∧ type ≠ .negative ∧ IsExpr left ∧ IsExpr right
  | .unary label type left => IsLabel label ∧ type = .negative ∧ IsExpr left
  | .aggr label type (.relAttr _ attr) =>
    IsLabel label ∧ type ≠ .undefined ∧ (attr = ⟨"", "*"⟩ ∨ IsAttr attr)
  | .aggr .. => False

/-- In a select list also a `*`, with or without a relation. -/
def IsSelected (e : SqlExpr) : Prop :=
  IsExpr e ∨ ∃ relationName, (relationName = "" ∨ IsName relationName) ∧
    e = newRelAttrExpr ⟨relationName, "*"⟩

def IsUnit (unit : UpdateUnit) : Prop := IsName unit.attributeName ∧ IsExpr unit.value

structure IsCondition (condition : ConditionSqlNode) : Prop where
  leftExpr : IsExpr condition.leftExpr
  rightExpr : ∀ right, condition.rightExpr = some right → IsExpr right
  comp : condition.comp ≠ .noOp
  oneSided : condition.rightExpr = none ↔ oneSided condition.comp = true

structure IsSelect (sql : SelectSqlNode) : Prop where
  attributes : sql.attributes ≠ [] ∧ ∀ e ∈ sql.attributes, IsSelected e
  relations : sql.relations ≠ [] ∧ ∀ r ∈ sql.relations, IsRelation r
  filterConditions : ∀ c ∈ sql.filterConditions, IsCondition c
  groupByAttributes : ∀ attr ∈ sql.groupByAttributes, IsAttr attr
  havingConditions : ∀ c ∈ sql.havingConditions.conditions, IsCondition c
  orderLists : ∀ node ∈ sql.orderLists, IsAttr node.sortAttr

def ParsedSqlNode.WellFormed : ParsedSqlNode → Prop
  | .calc expressions => expressions ≠ [] ∧ ∀ e ∈ expressions, IsSelected e
  | .select selection => IsSelect selection
  | .insert relationName multiValues =>
    IsName relationName ∧ multiValues ≠ [] ∧ ∀ row ∈ multiValues, IsRow row
  | .update relationName updateUnits conditions =>
    IsName relationName ∧ updateUnits ≠ [] ∧ (∀ u ∈ updateUnits, IsUnit u) ∧
      ∀ c ∈ conditions, IsCondition c
  | .delete relationName conditions => IsName relationName ∧ ∀ c ∈ conditions, IsCondition c
  | .createTable relationName attrInfos =>
    IsName relationName ∧ attrInfos ≠ [] ∧ ∀ attr ∈ attrInfos, IsColumn attr
  | .createView viewName selectSqlNode => IsName viewName ∧ IsSelect selectSqlNode
  | .dropTable relationName => IsName relationName
  | .createIndex node =>
    IsName node.indexName ∧ IsName node.relationName ∧ node.multiAttributeNames ≠ [] ∧
      ∀ name ∈ node.multiAttributeNames, IsName name
  | .dropIndex indexName relationName => IsName indexName ∧ IsName relationName
  | .descTable relationName => IsName relationName
  | .loadData relationName _ => IsName relationName
  | .explain sqlNode => sqlNode.WellFormed
  | .setVariable name value => IsName name ∧ IsLiteral value
  | .error | .sync | .showTables | .begin | .commit | .rollback | .help | .exit => True

/-! ## What the values of the symbols are -/

def Good : (symbol : Symbol) → symbol.T → Prop
  | .ID, string => IsName (text string)
  | .DATE_STR, string => ∃ str : DateStr, Value.asciiChars (substr string) = str.text
  | .type, number => attrTypeOfNumber number ∈ [.ints, .chars, .floats, .dates, .texts]
  | .value, v => IsLiteral v
  | .valueList, list => ∃ row, list = some row ∧ IsRow row
  | .valueListBody, list => ∀ v ∈ list.getD [], IsLiteral v
  | .multiValueList, list => ∀ row ∈ list.getD [], IsRow row
  | .multiAttributeNames, list => ∀ name ∈ list.getD [], IsName name
  | .attrDef, attr => IsColumn attr
  | .attrDefList, list => ∀ attr ∈ list.getD [], IsColumn attr
  | .updateDef, unit => IsUnit unit
  | .updateDefList, list => ∀ unit ∈ list.getD [], IsUnit unit
  | .compOp, comp => comp ≠ .noOp ∧ oneSided comp = false
  | .condition, c => IsCondition c
  | .conditionList, list => ∀ c ∈ (list.getD {}).conditions, IsCondition c
  | .whereConditions, list => ∀ c ∈ (list.getD {}).conditions, IsCondition c
  | .joinConditions, list => ∀ c ∈ (list.getD {}).conditions, IsCondition c
  | .optHaving, list => ∀ c ∈ (list.getD {}).conditions, IsCondition c
  | .relAttr, attr => IsAttr attr
  | .relAttrList, list => ∀ attr ∈ list.getD [], IsAttr attr
  | .optGroupBy, list => ∀ attr ∈ list.getD [], IsAttr attr
  | .sortDef, node => IsAttr node.sortAttr
  | .sortDefList, list => ∀ node ∈ list.getD [], IsAttr node.sortAttr
  | .optOrderBy, list => ∀ node ∈ list.getD [], IsAttr node.sortAttr
  | .aggrType, number => aggrTypeOfNumber number ≠ .undefined
  | .aggrExpr, e => IsExpr e
  | .baseExpr, e => IsExpr e
  | .mulExpr, e => IsExpr e
  | .addExpr, e => IsExpr e
  | .selectAttr, list => ∃ es, list = some es ∧ es ≠ [] ∧ ∀ e ∈ es, IsSelected e
  | .expressionList, list => ∀ e ∈ list.getD [], IsSelected e
  | .relAlias, r => IsRelation r
  | .relationList, list => ∃ rs, list = some rs ∧ rs ≠ [] ∧ ∀ r ∈ rs, IsRelation r
  | .relList, list => ∀ r ∈ list.getD [], IsRelation r
  | .joinList, list =>
    ∀ j ∈ list.getD [], IsRelation j.relation ∧ ∀ c ∈ j.joinConditions, IsCondition c
  | .selectStmt, node => ∃ selection, node = .select selection ∧ IsSelect selection
  | .calcStmt, node => node.WellFormed
  | .insertStmt, node => node.WellFormed
  | .updateStmt, node => node.WellFormed
  | .deleteStmt, node => node.WellFormed
  | .createTableStmt, node => node.WellFormed
  | .createViewStmt, node => node.WellFormed
  | .dropTableStmt, node => node.WellFormed
  | .showTablesStmt, node => node.WellFormed
  | .descTableStmt, node => node.WellFormed
  | .createIndexStmt, node => node.WellFormed
  | .dropIndexStmt, node => node.WellFormed
  | .syncStmt, node => node.WellFormed
  | .beginStmt, node => node.WellFormed
  | .commitStmt, node => node.WellFormed
  | .rollbackStmt, node => node.WellFormed
  | .loadDataStmt, node => node.WellFormed
  | .explainStmt, node => node.WellFormed
  | .setVariableStmt, node => node.WellFormed
  | .helpStmt, node => node.WellFormed
  | .exitStmt, node => node.WellFormed
  | .commandWrapper, node => node.WellFormed
  | .commands, node => node.WellFormed
  | _, _ => True

def addedBy : (symbol : Symbol) → symbol.T → List ParsedSqlNode
  | .commands, node => [node]
  | _, _ => []

/-- The code gives a value with the property `Q` and adds these nodes, or dereferences a null pointer. -/
def ActionM.Ends {α : Type} (Q : α → Prop) (added : α → List ParsedSqlNode) (crash : Prop)
    (action : ActionM α) : Prop :=
  ∀ sqlNodes, match action.run sqlNodes with
    | .ok (v, sqlNodes') => Q v ∧ sqlNodes' = sqlNodes ++ added v
    | .error e => e = .nullDereference ∧ crash

def Curried.All {R : Type} (Q : R → Prop) : (symbols : List Symbol) → Curried symbols R → Prop
  | [], result => Q result
  | symbol :: symbols, f => ∀ v : symbol.T, Good symbol v → All Q symbols (f v)

/-- The rule gives good values for good values. -/
def Rule.Keeps (r : Rule) : Prop :=
  ∀ name, Curried.All (ActionM.Ends (Good r.lhs) (addedBy r.lhs) (r.lhs = .conditionList)) r.rhs
    (r.action name)

theorem Curried.all_map {R R' : Type} {g : R → R'} {Q : R → Prop} {Q' : R' → Prop}
    (hg : ∀ v, Q v → Q' (g v)) {symbols : List Symbol} {f : Curried symbols R}
    (h : Curried.All Q symbols f) : Curried.All Q' symbols (Curried.map g symbols f) := by
  induction symbols with
  | nil => exact hg f h
  | cons symbol symbols ih => exact fun v hv => ih (h v hv)

theorem ends_pure {α : Type} {Q : α → Prop} {added : α → List ParsedSqlNode} {crash : Prop} {v : α}
    (hQ : Q v) (hadded : added v = []) : ActionM.Ends Q added crash (pure v) := by
  intro sqlNodes
  exact ⟨hQ, by rw [hadded, List.append_nil]⟩

theorem ends_deref {α β : Type} {Q : β → Prop} {added : β → List ParsedSqlNode} {crash : Prop}
    {a : α} {f : α → ActionM β} (h : ActionM.Ends Q added crash (f a)) :
    ActionM.Ends Q added crash (deref (some a) >>= f) := h

theorem rule_keeps {lhs : Symbol} {rhs : List Symbol} {value : Curried rhs lhs.T}
    (hadded : ∀ v, addedBy lhs v = []) (h : Curried.All (Good lhs) rhs value) :
    (rule lhs rhs value).Keeps :=
  fun _ => Curried.all_map (fun v hv => ends_pure hv (hadded v)) h

theorem named_keeps {lhs : Symbol} {rhs : List Symbol} {value : String → Curried rhs lhs.T}
    (hadded : ∀ v, addedBy lhs v = []) (h : ∀ name, Curried.All (Good lhs) rhs (value name)) :
    (named lhs rhs value).Keeps :=
  fun name => Curried.all_map (fun v hv => ends_pure hv (hadded v)) (h name)

/-! ## The rules keep them -/

theorem forall_emplaceBack {α : Type} {P : α → Prop} {rest : Option (List α)} {a : α}
    (hrest : ∀ x ∈ rest.getD [], P x) (ha : P a) : ∀ x ∈ (emplaceBack rest a).getD [], P x := by
  intro x hx
  rw [emplaceBack, Option.getD_some, List.mem_append, List.mem_singleton] at hx
  rcases hx with hx | rfl
  · exact hrest x hx
  · exact ha

/-- A list of the grammar, turned around behind its first element. -/
theorem forall_reverse {α : Type} {P : α → Prop} {rest : Option (List α)} {a : α}
    (hrest : ∀ x ∈ rest.getD [], P x) (ha : P a) :
    (rest.getD [] ++ [a]).reverse ≠ [] ∧ ∀ x ∈ (rest.getD [] ++ [a]).reverse, P x := by
  constructor
  · simp
  · intro x hx
    rw [List.mem_reverse] at hx
    exact forall_emplaceBack hrest ha x hx

theorem forall_single {α : Type} {P : α → Prop} {a : α} (ha : P a) : ∀ x ∈ [a], P x := by
  intro x hx
  rwa [List.mem_singleton.mp hx]

theorem isExpr_setName {e : SqlExpr} (h : IsExpr e) (name : String) : IsExpr (setName name e) := by
  cases e with
  | aggr label type argument => cases argument <;> exact h
  | value | values | relAttr | arithmetic | unary => exact h

theorem isExpr_setAlias {e : SqlExpr} (h : IsExpr e) {aliasName : String}
    (hname : IsName aliasName) : IsExpr (setAlias aliasName e) := by
  cases e with
  | aggr label type argument =>
    cases argument with
    | relAttr => exact ⟨.inr hname, h.2⟩
    | _ => exact h
  | value | values | relAttr | arithmetic | unary => exact ⟨.inr hname, h.2⟩

theorem isName_data : IsName "data" := ⟨[100, 97, 116, 97], by decide, by decide, by decide⟩

theorem isCondition_twoSided {left right : SqlExpr} {comp : CompOp} (hleft : IsExpr left)
    (hright : IsExpr right) (hcomp : comp ≠ .noOp ∧ oneSided comp = false) :
    IsCondition ⟨left, comp, some right⟩ := by
  refine ⟨hleft, fun e he => ?_, hcomp.1, ?_⟩
  · rwa [← Option.some.inj he]
  · simp [hcomp.2]

theorem isCondition_oneSided {left : SqlExpr} {comp : CompOp} (hleft : IsExpr left)
    (hcomp : oneSided comp = true) : IsCondition ⟨left, comp, none⟩ := by
  refine ⟨hleft, fun e he => absurd he (by simp), ?_, ?_⟩
  · rintro rfl
    cases hcomp
  · simp [hcomp]

theorem IsName.ne_star {name : String} (h : IsName name) : name ≠ "*" := by
  obtain ⟨bytes, hne, hlength, rfl⟩ := h
  intro hstar
  cases bytes with
  | nil => exact hne rfl
  | cons b rest =>
    have hchars : Value.asciiChars (b :: rest) = ['*'] := String.ofList_inj.mp hstar
    have hb : Char.ofNat b.toNat = '*' := (List.cons.inj hchars).1
    have hstart : isIdStart b = true := by
      by_contra hstart
      rw [idLength, if_neg hstart, List.length_cons] at hlength
      omega
    have hcode : ∀ n < 256, Char.ofNat n = '*' → n = 42 := by decide +kernel
    obtain rfl : b = 42 := UInt8.toNat_inj.mp (hcode _ b.toNat_lt hb)
    exact absurd hstart (by decide)

theorem IsExpr.derived {e : SqlExpr} (h : IsExpr e) : e.Derived := by
  induction e with
  | value | values | relAttr => trivial
  | arithmetic label type left right ihl ihr => exact ⟨h.2.1, ihl h.2.2.1, ihr h.2.2.2⟩
  | unary label type left ih => exact ⟨h.2.1, ih h.2.2⟩
  | aggr label type argument =>
    cases argument with
    | relAttr _ attr =>
      obtain rfl | hattr := h.2.2
      · exact fun _ => rfl
      · exact fun hstar => absurd hstar hattr.2.ne_star
    | _ => exact h

theorem IsCondition.derived {c : ConditionSqlNode} (h : IsCondition c) : c.Derived :=
  ⟨h.leftExpr.derived, fun right hright => (h.rightExpr right hright).derived, h.comp, h.oneSided⟩

/-- The analyzer's rules are about the `SELECT`s that the parser gives. -/
theorem IsSelect.derived {sql : SelectSqlNode} (h : IsSelect sql) : sql.Derived where
  relations := h.relations.1
  attributes e he := by
    obtain hexpr | ⟨relationName, -, rfl⟩ := h.attributes.2 e he
    · exact hexpr.derived
    · trivial
  filterConditions c hc := (h.filterConditions c hc).derived
  havingConditions c hc := (h.havingConditions c hc).derived

theorem commandRules_keep : ∀ r ∈ commandRules, r.Keeps := by
  simp only [commandRules, List.forall_mem_cons]
  refine ⟨?accept, ?commands, ?_, rule_keeps (fun _ => rfl) ?select, ?_, ?_, ?_, ?_, ?_, ?_, ?_,
    ?_, ?_, ?_, ?_, ?_, ?_, ?_, ?_, ?_, ?_, ?_, ?_, List.forall_mem_nil _⟩
  case accept => exact rule_keeps (fun _ => rfl) fun _ _ _ _ => trivial
  case commands => exact fun _ node hnode _ _ sqlNodes => ⟨hnode, rfl⟩
  case select =>
    intro node hnode
    obtain ⟨selection, rfl, hselection⟩ := hnode
    exact hselection
  all_goals exact rule_keeps (fun _ => rfl) fun _ h => h

theorem plainRules_keep : ∀ r ∈ plainRules, r.Keeps := by
  simp only [plainRules, List.forall_mem_cons]
  refine ⟨?_, ?_, ?_, ?_, ?_, ?_, ?dropTable, ?showTables, ?descTable, List.forall_mem_nil _⟩
  case dropTable => exact rule_keeps (fun _ => rfl) fun _ _ _ _ _ hname => hname
  case showTables => exact rule_keeps (fun _ => rfl) fun _ _ _ _ => trivial
  case descTable => exact rule_keeps (fun _ => rfl) fun _ _ _ hname => hname
  all_goals exact rule_keeps (fun _ => rfl) fun _ _ => trivial

theorem indexRules_keep : ∀ r ∈ indexRules, r.Keeps := by
  simp only [indexRules, List.forall_mem_cons]
  refine ⟨?unique, ?index, ?none, ?more, ?drop, List.forall_mem_nil _⟩
  case unique =>
    apply rule_keeps fun _ => rfl
    intro _ _ _ _ _ _ indexName hindex _ _ relationName hrelation _ _ first hfirst rest hrest _ _
    exact ⟨hindex, hrelation, forall_reverse hrest hfirst⟩
  case index =>
    apply rule_keeps fun _ => rfl
    intro _ _ _ _ indexName hindex _ _ relationName hrelation _ _ first hfirst rest hrest _ _
    exact ⟨hindex, hrelation, forall_reverse hrest hfirst⟩
  case none => exact rule_keeps (fun _ => rfl) (List.forall_mem_nil _)
  case more =>
    apply rule_keeps fun _ => rfl
    intro _ _ name hname rest hrest
    exact forall_emplaceBack hrest hname
  case drop =>
    apply rule_keeps fun _ => rfl
    intro _ _ _ _ indexName hindex _ _ relationName hrelation
    exact ⟨hindex, hrelation⟩

theorem tableRules_keep : ∀ r ∈ tableRules, r.Keeps := by
  have hselect : ∀ {node : ParsedSqlNode},
      (∃ selection, node = .select selection ∧ IsSelect selection) → IsSelect node.selection := by
    intro node hnode
    obtain ⟨selection, rfl, hselection⟩ := hnode
    exact hselection
  have htypes : ∀ number ∈ ([1, 2, 3, 5, 7] : List Int32),
      attrTypeOfNumber number ∈ [AttrType.ints, .chars, .floats, .dates, .texts] := by
    simp [attrTypeOfNumber]
  have haggrTypes : ∀ number ∈ ([0, 1, 2, 3, 4] : List Int32),
      aggrTypeOfNumber number ≠ .undefined := by
    simp [aggrTypeOfNumber]
  simp only [tableRules, List.forall_mem_cons]
  refine ⟨?table, ?view, ?columns, ?none, ?more, ?length, ?plain, ?lengthNotNull, ?notNull,
    ?lengthNull, ?null, ?number, ?int, ?string, ?float, ?date, ?text, ?count, ?min, ?max, ?avg,
    ?sum, List.forall_mem_nil _⟩
  case table =>
    apply rule_keeps fun _ => rfl
    intro _ _ _ _ name hname _ _ first hfirst rest hrest _ _
    exact ⟨hname, forall_reverse hrest hfirst⟩
  case view =>
    apply rule_keeps fun _ => rfl
    intro _ _ _ _ name hname _ _ select h
    exact ⟨hname, hselect h⟩
  case columns =>
    apply rule_keeps fun _ => rfl
    intro _ _ _ _ name hname _ _ _ _ _ _ _ _ select h
    exact ⟨hname, hselect h⟩
  case none => exact rule_keeps (fun _ => rfl) (List.forall_mem_nil _)
  case more =>
    apply rule_keeps fun _ => rfl
    intro _ _ attr hattr rest hrest
    exact forall_emplaceBack hrest hattr
  case length => exact rule_keeps (fun _ => rfl) fun _ hname _ htype _ _ _ _ _ _ => ⟨hname, htype⟩
  case plain => exact rule_keeps (fun _ => rfl) fun _ hname _ htype => ⟨hname, htype⟩
  case lengthNotNull =>
    exact rule_keeps (fun _ => rfl) fun _ hname _ htype _ _ _ _ _ _ _ _ _ _ => ⟨hname, htype⟩
  case notNull =>
    exact rule_keeps (fun _ => rfl) fun _ hname _ htype _ _ _ _ => ⟨hname, htype⟩
  case lengthNull =>
    exact rule_keeps (fun _ => rfl) fun _ hname _ htype _ _ _ _ _ _ _ _ => ⟨hname, htype⟩
  case null => exact rule_keeps (fun _ => rfl) fun _ hname _ htype _ _ => ⟨hname, htype⟩
  case int => exact rule_keeps (fun _ => rfl) fun _ _ => htypes 2 (by decide)
  case string => exact rule_keeps (fun _ => rfl) fun _ _ => htypes 1 (by decide)
  case float => exact rule_keeps (fun _ => rfl) fun _ _ => htypes 5 (by decide)
  case date => exact rule_keeps (fun _ => rfl) fun _ _ => htypes 3 (by decide)
  case text => exact rule_keeps (fun _ => rfl) fun _ _ => htypes 7 (by decide)
  case count => exact rule_keeps (fun _ => rfl) fun _ _ => haggrTypes 0 (by decide)
  case min => exact rule_keeps (fun _ => rfl) fun _ _ => haggrTypes 1 (by decide)
  case max => exact rule_keeps (fun _ => rfl) fun _ _ => haggrTypes 2 (by decide)
  case avg => exact rule_keeps (fun _ => rfl) fun _ _ => haggrTypes 3 (by decide)
  case sum => exact rule_keeps (fun _ => rfl) fun _ _ => haggrTypes 4 (by decide)
  all_goals exact rule_keeps (fun _ => rfl) fun _ _ => trivial

theorem insertRules_keep : ∀ r ∈ insertRules, r.Keeps := by
  simp only [insertRules, List.forall_mem_cons]
  refine ⟨?insert, ?noRows, ?moreRows, ?row, ?noValues, ?moreValues, ?number, ?minusNumber, ?float,
    ?minusFloat, ?string, ?date, ?null, List.forall_mem_nil _⟩
  case insert =>
    intro name _ _ _ _ relationName hname _ _ first hfirst rest hrest
    obtain ⟨row, rfl, hrow⟩ := hfirst
    apply ends_deref
    apply ends_pure _ rfl
    exact ⟨hname, forall_reverse hrest hrow⟩
  case noRows => exact rule_keeps (fun _ => rfl) (List.forall_mem_nil _)
  case moreRows =>
    intro name _ _ values hvalues rest hrest
    obtain ⟨row, rfl, hrow⟩ := hvalues
    apply ends_deref
    exact ends_pure (forall_emplaceBack hrest hrow) rfl
  case row =>
    apply rule_keeps fun _ => rfl
    intro _ _ first hfirst rest hrest _ _
    exact ⟨_, rfl, forall_reverse hrest hfirst⟩
  case noValues => exact rule_keeps (fun _ => rfl) (List.forall_mem_nil _)
  case moreValues =>
    apply rule_keeps fun _ => rfl
    intro _ _ value hvalue rest hrest
    exact forall_emplaceBack hrest hvalue
  case number => exact rule_keeps (fun _ => rfl) fun number _ => ⟨.number number, rfl⟩
  case minusNumber => exact rule_keeps (fun _ => rfl) fun _ _ number _ => ⟨.number (-number), rfl⟩
  case float => exact rule_keeps (fun _ => rfl) fun bits _ => ⟨.float bits, rfl⟩
  case minusFloat =>
    exact rule_keeps (fun _ => rfl) fun _ _ bits _ => ⟨.float (bits ^^^ 0x80000000), rfl⟩
  case string => exact rule_keeps (fun _ => rfl) fun string _ => ⟨.string (substr string), rfl⟩
  case date =>
    apply rule_keeps fun _ => rfl
    intro string hstring
    obtain ⟨str, hstr⟩ := hstring
    refine ⟨.date str, ?_⟩
    rw [Literal.value, ← hstr]
  case null => exact rule_keeps (fun _ => rfl) fun _ _ => ⟨.null, rfl⟩

theorem updateRules_keep : ∀ r ∈ updateRules, r.Keeps := by
  simp only [updateRules, List.forall_mem_cons]
  refine ⟨?delete, ?update, ?none, ?more, ?unit, List.forall_mem_nil _⟩
  case delete =>
    apply rule_keeps fun _ => rfl
    intro _ _ _ _ name hname conditions hconditions
    exact ⟨hname, hconditions⟩
  case update =>
    apply rule_keeps fun _ => rfl
    intro _ _ name hname _ _ first hfirst rest hrest conditions hconditions
    obtain ⟨hne, hall⟩ := forall_reverse hrest hfirst
    exact ⟨hname, hne, hall, hconditions⟩
  case none => exact rule_keeps (fun _ => rfl) (List.forall_mem_nil _)
  case more =>
    apply rule_keeps fun _ => rfl
    intro _ _ unit hunit rest hrest
    exact forall_emplaceBack hrest hunit
  case unit => exact rule_keeps (fun _ => rfl) fun _ hname _ _ _ hvalue => ⟨hname, hvalue⟩

theorem selectRules_keep : ∀ r ∈ selectRules, r.Keeps := by
  simp only [selectRules, List.forall_mem_cons]
  refine ⟨?select, ?noGroup, ?group, ?noHaving, ?having, ?noOrder, ?order, ?sort, ?sorts, ?attr,
    ?desc, ?asc, ?calculate, List.forall_mem_nil _⟩
  case select =>
    intro name _ _ attributes hattributes _ _ relations hrelations joins hjoins whereConditions
      hwhere groupBy hgroupBy having hhaving orderBy horderBy
    obtain ⟨attributes, rfl, hattributes⟩ := hattributes
    obtain ⟨relations, rfl, hsome, hrelations⟩ := hrelations
    apply ends_deref
    apply ends_deref
    apply ends_pure _ rfl
    refine ⟨_, rfl, ?_⟩
    constructor
    case attributes => exact hattributes
    case relations =>
      refine ⟨by simp [hsome], ?_⟩
      intro r hr
      rw [List.mem_append, List.mem_reverse] at hr
      rcases hr with hr | hr
      · exact hrelations r hr
      · obtain ⟨join, hjoin, rfl⟩ := List.mem_map.mp hr
        exact (hjoins join (List.mem_reverse.mp hjoin)).1
    case filterConditions =>
      intro c hc
      rw [SelectSqlNode.filterConditions, List.mem_append, List.mem_flatten] at hc
      rcases hc with ⟨conditions, hconditions, hc⟩ | hc
      · obtain ⟨join, hjoin, rfl⟩ := List.mem_map.mp hconditions
        exact (hjoins join (List.mem_reverse.mp hjoin)).2 c hc
      · exact hwhere c hc
    case groupByAttributes => exact fun attr h => hgroupBy attr (List.mem_reverse.mp h)
    case havingConditions => exact hhaving
    case orderLists => exact fun node h => horderBy node (List.mem_reverse.mp h)
  case noGroup => exact rule_keeps (fun _ => rfl) (List.forall_mem_nil _)
  case group => exact rule_keeps (fun _ => rfl) fun _ _ _ _ _ hlist => hlist
  case noHaving => exact rule_keeps (fun _ => rfl) (List.forall_mem_nil _)
  case having => exact rule_keeps (fun _ => rfl) fun _ _ _ hlist => hlist
  case noOrder => exact rule_keeps (fun _ => rfl) (List.forall_mem_nil _)
  case order => exact rule_keeps (fun _ => rfl) fun _ _ _ _ _ hlist => hlist
  case sort => exact rule_keeps (fun _ => rfl) fun _ hsort => forall_single hsort
  case sorts =>
    exact rule_keeps (fun _ => rfl) fun _ hsort _ _ _ hrest => forall_emplaceBack hrest hsort
  case attr => exact rule_keeps (fun _ => rfl) fun _ hattr => hattr
  case desc => exact rule_keeps (fun _ => rfl) fun _ hattr _ _ => hattr
  case asc => exact rule_keeps (fun _ => rfl) fun _ hattr _ _ => hattr
  case calculate =>
    intro name _ _ attributes hattributes
    obtain ⟨attributes, rfl, hne, hattributes⟩ := hattributes
    apply ends_deref
    apply ends_pure _ rfl
    exact ⟨by simpa using hne, fun e he => hattributes e (List.mem_reverse.mp he)⟩

theorem exprRules_keep : ∀ r ∈ exprRules, r.Keeps := by
  -- an expression that is made here has no alias yet
  have hlabel : ∀ name, IsLabel ⟨name, ""⟩ := fun _ => .inl rfl
  simp only [exprRules, List.forall_mem_cons]
  refine ⟨?star, ?attr, ?data, ?value, ?relAttr, ?parens, ?aggr, ?values, ?_, ?minus, ?mul, ?div,
    ?_, ?add, ?sub, List.forall_mem_nil _⟩
  case star =>
    exact rule_keeps (fun _ => rfl) fun _ htype _ _ _ _ _ _ => ⟨hlabel _, htype, .inl rfl⟩
  case attr =>
    exact rule_keeps (fun _ => rfl) fun _ htype _ _ _ hattr _ _ => ⟨hlabel _, htype, .inr hattr⟩
  case data =>
    exact rule_keeps (fun _ => rfl) fun _ htype _ _ _ _ _ _ =>
      ⟨hlabel _, htype, .inr ⟨.inl rfl, isName_data⟩⟩
  case value => exact named_keeps (fun _ => rfl) fun _ _ hvalue => ⟨hlabel _, hvalue⟩
  case relAttr => exact named_keeps (fun _ => rfl) fun _ _ hattr => ⟨hlabel _, hattr⟩
  case parens => exact named_keeps (fun _ => rfl) fun name _ _ _ he _ _ => isExpr_setName he name
  case aggr => exact named_keeps (fun _ => rfl) fun name _ he => isExpr_setName he name
  case values =>
    intro name values hvalues
    obtain ⟨row, rfl, hrow⟩ := hvalues
    apply ends_deref
    exact ends_pure ⟨hlabel _, hrow⟩ rfl
  case minus => exact named_keeps (fun _ => rfl) fun _ _ _ _ he => ⟨hlabel _, rfl, he⟩
  case mul =>
    exact named_keeps (fun _ => rfl) fun _ _ hleft _ _ _ hright =>
      ⟨hlabel _, by decide, hleft, hright⟩
  case div =>
    exact named_keeps (fun _ => rfl) fun _ _ hleft _ _ _ hright =>
      ⟨hlabel _, by decide, hleft, hright⟩
  case add =>
    exact named_keeps (fun _ => rfl) fun _ _ hleft _ _ _ hright =>
      ⟨hlabel _, by decide, hleft, hright⟩
  case sub =>
    exact named_keeps (fun _ => rfl) fun _ _ hleft _ _ _ hright =>
      ⟨hlabel _, by decide, hleft, hright⟩
  all_goals exact rule_keeps (fun _ => rfl) fun _ he => he

theorem attrRules_keep : ∀ r ∈ attrRules, r.Keeps := by
  have hselect : ∀ {rest : Option (List SqlExpr)} {e : SqlExpr},
      (∀ e ∈ rest.getD [], IsSelected e) → IsSelected e →
      ∃ es, emplaceBack rest e = some es ∧ es ≠ [] ∧ ∀ e ∈ es, IsSelected e := by
    intro rest e hrest he
    exact ⟨_, rfl, by simp, forall_emplaceBack hrest he⟩
  have hstar : IsSelected (newRelAttrExpr ⟨"", "*"⟩) := .inr ⟨"", .inl rfl, rfl⟩
  have hqualified : ∀ {name : String}, IsName name → IsSelected (newRelAttrExpr ⟨name, "*"⟩) :=
    fun hname => .inr ⟨_, .inr hname, rfl⟩
  have halias : ∀ {e : SqlExpr} {name : String}, IsExpr e → IsName name →
      IsSelected (setAlias name e) := fun he hname => .inl (isExpr_setAlias he hname)
  simp only [attrRules, List.forall_mem_cons]
  refine ⟨?star, ?qualified, ?expr, ?named, ?none, ?moreStar, ?moreQualified, ?moreExpr,
    ?moreAlias, ?moreAs, ?moreData, ?name, ?qualifiedName, ?attr, ?attrs, List.forall_mem_nil _⟩
  case star =>
    exact rule_keeps (fun _ => rfl) fun _ _ rest hrest => hselect hrest hstar
  case qualified =>
    exact rule_keeps (fun _ => rfl) fun _ hname _ _ _ _ rest hrest =>
      hselect hrest (hqualified hname)
  case expr => exact rule_keeps (fun _ => rfl) fun _ he rest hrest => hselect hrest (.inl he)
  case named =>
    exact rule_keeps (fun _ => rfl) fun _ he _ _ name hname rest hrest =>
      hselect hrest (halias he hname)
  case none => exact rule_keeps (fun _ => rfl) (List.forall_mem_nil _)
  case moreStar =>
    exact rule_keeps (fun _ => rfl) fun _ _ _ _ rest hrest => forall_emplaceBack hrest hstar
  case moreQualified =>
    exact rule_keeps (fun _ => rfl) fun _ _ _ hname _ _ _ _ rest hrest =>
      forall_emplaceBack hrest (hqualified hname)
  case moreExpr =>
    exact rule_keeps (fun _ => rfl) fun _ _ _ he rest hrest => forall_emplaceBack hrest (.inl he)
  case moreAlias =>
    exact rule_keeps (fun _ => rfl) fun _ _ _ he _ hname rest hrest =>
      forall_emplaceBack hrest (halias he hname)
  case moreAs =>
    exact rule_keeps (fun _ => rfl) fun _ _ _ he _ _ _ hname rest hrest =>
      forall_emplaceBack hrest (halias he hname)
  case moreData =>
    exact rule_keeps (fun _ => rfl) fun _ _ _ he _ _ _ _ rest hrest =>
      forall_emplaceBack hrest (halias he isName_data)
  case name => exact rule_keeps (fun _ => rfl) fun _ hname => ⟨.inl rfl, hname⟩
  case qualifiedName =>
    exact rule_keeps (fun _ => rfl) fun _ hrelation _ _ _ hname => ⟨.inr hrelation, hname⟩
  case attr => exact rule_keeps (fun _ => rfl) fun _ hattr => forall_single hattr
  case attrs =>
    exact rule_keeps (fun _ => rfl) fun _ hattr _ _ _ hrest => forall_emplaceBack hrest hattr

theorem relationRules_keep : ∀ r ∈ relationRules, r.Keeps := by
  simp only [relationRules, List.forall_mem_cons]
  refine ⟨?list, ?noRelations, ?relations, ?name, ?aliased, ?asAlias, ?noJoins, ?joins, ?noOn, ?on,
    ?noWhere, ?conditions, List.forall_mem_nil _⟩
  case list =>
    apply rule_keeps fun _ => rfl
    intro relation hrelation rest hrest
    exact ⟨_, rfl, by simp, forall_emplaceBack hrest hrelation⟩
  case noRelations => exact rule_keeps (fun _ => rfl) (List.forall_mem_nil _)
  case relations =>
    apply rule_keeps fun _ => rfl
    intro _ _ relation hrelation rest hrest
    exact forall_emplaceBack hrest hrelation
  case name => exact rule_keeps (fun _ => rfl) fun _ hname => ⟨hname, .inl rfl⟩
  case aliased => exact rule_keeps (fun _ => rfl) fun _ hname _ halias => ⟨hname, .inr halias⟩
  case asAlias =>
    exact rule_keeps (fun _ => rfl) fun _ hname _ _ _ halias => ⟨hname, .inr halias⟩
  case noJoins => exact rule_keeps (fun _ => rfl) (List.forall_mem_nil _)
  case joins =>
    apply rule_keeps fun _ => rfl
    intro _ _ _ _ relation hrelation conditions hconditions rest hrest
    apply forall_emplaceBack hrest
    exact ⟨hrelation, fun c hc => hconditions c (List.mem_reverse.mp hc)⟩
  case noOn => exact rule_keeps (fun _ => rfl) (List.forall_mem_nil _)
  case on => exact rule_keeps (fun _ => rfl) fun _ _ _ hlist => hlist
  case noWhere => exact rule_keeps (fun _ => rfl) (List.forall_mem_nil _)
  case conditions => exact rule_keeps (fun _ => rfl) fun _ _ _ hlist => hlist

theorem conditionRules_keep : ∀ r ∈ conditionRules, r.Keeps := by
  simp only [conditionRules, List.forall_mem_cons]
  refine ⟨?none, ?one, ?and, ?or, ?compare, ?isNull, ?isNotNull, ?isIn, ?isNotIn, ?ifExists,
    ?ifNotExists, ?_, ?_, ?_, ?_, ?_, ?_, ?_, ?notLike, List.forall_mem_nil _⟩
  case none => exact rule_keeps (fun _ => rfl) (List.forall_mem_nil _)
  case one => exact rule_keeps (fun _ => rfl) fun _ hc => forall_single hc
  case and =>
    intro name condition hcondition _ _ rest hrest
    cases rest with
    | none => exact fun _ => ⟨rfl, rfl⟩
    | some list =>
      apply ends_deref
      exact ends_pure (@forall_emplaceBack _ _ (some list.conditions) _ hrest hcondition) rfl
  case or =>
    intro name condition hcondition _ _ rest hrest
    cases rest with
    | none => exact fun _ => ⟨rfl, rfl⟩
    | some list =>
      apply ends_deref
      exact ends_pure (@forall_emplaceBack _ _ (some list.conditions) _ hrest hcondition) rfl
  case compare =>
    exact rule_keeps (fun _ => rfl) fun _ hleft _ hcomp _ hright =>
      isCondition_twoSided hleft hright hcomp
  case isNull => exact rule_keeps (fun _ => rfl) fun _ hleft _ _ _ _ => isCondition_oneSided hleft rfl
  case isNotNull =>
    exact rule_keeps (fun _ => rfl) fun _ hleft _ _ _ _ _ _ => isCondition_oneSided hleft rfl
  case isIn =>
    exact rule_keeps (fun _ => rfl) fun _ hleft _ _ _ hright =>
      isCondition_twoSided hleft hright (by decide)
  case isNotIn =>
    exact rule_keeps (fun _ => rfl) fun _ hleft _ _ _ _ _ hright =>
      isCondition_twoSided hleft hright (by decide)
  case ifExists => exact rule_keeps (fun _ => rfl) fun _ _ _ hleft => isCondition_oneSided hleft rfl
  case ifNotExists =>
    exact rule_keeps (fun _ => rfl) fun _ _ _ _ _ hleft => isCondition_oneSided hleft rfl
  case notLike => exact rule_keeps (fun _ => rfl) fun _ _ _ _ => ⟨by decide, by decide⟩
  all_goals exact rule_keeps (fun _ => rfl) fun _ _ => ⟨by decide, by decide⟩

theorem remainingRules_keep : ∀ r ∈ remainingRules, r.Keeps := by
  simp only [remainingRules, List.forall_mem_cons]
  refine ⟨?load, ?explain, ?set, ?_, ?_, List.forall_mem_nil _⟩
  case load =>
    exact rule_keeps (fun _ => rfl) fun _ _ _ _ _ _ _ _ _ _ _ _ _ hname => hname
  case explain => exact rule_keeps (fun _ => rfl) fun _ _ _ hnode => hnode
  case set => exact rule_keeps (fun _ => rfl) fun _ _ _ hname _ _ _ hvalue => ⟨hname, hvalue⟩
  case _ => exact rule_keeps (fun _ => rfl) trivial
  all_goals exact rule_keeps (fun _ => rfl) fun _ _ => trivial

theorem rules_keep : ∀ r ∈ rules, r.Keeps := by
  simp only [rules, List.forall_mem_append]
  exact ⟨⟨⟨⟨⟨⟨⟨⟨⟨⟨⟨commandRules_keep, plainRules_keep⟩, indexRules_keep⟩, tableRules_keep⟩,
    insertRules_keep⟩, updateRules_keep⟩, selectRules_keep⟩, exprRules_keep⟩, attrRules_keep⟩,
    relationRules_keep⟩, conditionRules_keep⟩, remainingRules_keep⟩

end TDB.Sql
