import TDB.ExpressionAnalysis

namespace TDB.Analyzer

open Recorder (TableMeta FieldMeta TrxType isBlank)
open Where (ConjunctionType WhereConditions)
open Expression (exists_of_bind_ok exists_of_mapM_ok of_bind_error)
open Outcome (FirstFails Gives)

variable {default : Option TableMeta} {tables : FromList} {lib : StdLib}

/-! ## The select list -/

variable {trx : TrxType} {findTable : String → Option TableMeta}

/-- An attribute is looked up among tables of which none is null. -/
theorem gives_analyzeAttribute (tableList : List TableMeta) (label : Label)
    (attr : RelAttrSqlNode) :
    Gives Fatal (analyzeAttribute tables (tableList.map some) label attr)
      fun e => ∃ fieldLabel f, e = .field fieldLabel f := by
  have hfield : ∀ e, analyzeAttribute tables (tableList.map some) label attr = .ok e →
      ∃ fieldLabel f, e = .field fieldLabel f := by
    intro e he
    obtain ⟨fieldLabel, f, heq, -⟩ := analyzeAttribute_field he
    exact ⟨fieldLabel, f, heq⟩
  refine ⟨fun f h => ?_, hfield⟩
  unfold analyzeAttribute at h
  split_ifs at h with hblank
  · split at h
    · rename_i heq
      obtain ⟨table, -, hnone⟩ := List.map_eq_singleton_iff.mp heq
      cases hnone
    · split at h <;> cases h
      exact not_fatal_code _
    · cases h
      exact not_fatal_code _
  · split at h
    · cases h
      exact not_fatal_code _
    · split at h <;> cases h
      exact not_fatal_code _

theorem gives_countStar {tableList : List TableMeta} (hne : tableList ≠ []) :
    Gives Fatal (countStar (tableList.map some)) fun e => ∃ label f, e = .field label f := by
  obtain ⟨table, rest, rfl⟩ := List.exists_cons_of_ne_nil hne
  exact .success ⟨_, _, rfl⟩

theorem gives_checkArgument {aggrType : AggrType} {e : StmtExpr}
    (h : ∃ label f, e = .field label f) :
    Gives Fatal (checkArgument aggrType e) fun e' => ∃ label f, e' = .field label f := by
  obtain ⟨label, f, rfl⟩ := h
  exact ⟨fun g hg => (outcome_checkArgument aggrType label f).not_fails hg,
    fun e' he' => checkArgument_field he'⟩

theorem gives_analyzeExpression {tableList : List TableMeta} (hne : tableList ≠ [])
    {expr : SqlExpr} (hderived : expr.Derived) :
    Gives Fatal (analyzeExpression lib tables (tableList.map some) expr) StmtExpr.WellFormed := by
  induction expr with
  | value => exact .success trivial
  | values => exact .success trivial
  | relAttr label attr =>
    have h := @gives_analyzeAttribute tables tableList label attr
    refine ⟨h.errors, fun e he => ?_⟩
    obtain ⟨fieldLabel, f, rfl⟩ := h.results e he
    trivial
  | arithmetic label type left right ihl ihr =>
    rw [analyzeExpression]
    refine (ihl hderived.2.1).bind fun l hl => (ihr hderived.2.2).bind fun r hr => ?_
    exact .success (foldArithmetic_wellFormed hderived.1 hl hr).1
  | unary label type left ih =>
    rw [analyzeExpression]
    exact (ih hderived.2).bind fun l hl => .success (foldUnary_wellFormed hderived.1 hl).1
  | aggr label aggrType argument =>
    have hresult : ∀ {a : StmtExpr}, (∃ fieldLabel f, a = .field fieldLabel f) →
        (StmtExpr.aggr label aggrType a).WellFormed := by
      rintro a ⟨fieldLabel, f, rfl⟩
      trivial
    cases argument with
    | relAttr argLabel attr =>
      rw [analyzeExpression]
      refine (Gives.success (P := fun _ => True) trivial).bind fun star _ => ?_
      split_ifs
      · exact (gives_countStar hne).bind fun a ha => .success (hresult ha)
      · refine (gives_analyzeAttribute tableList argLabel attr).bind fun a ha => ?_
        exact (gives_checkArgument ha).bind fun a' ha' => .success (hresult ha')
    | _ => exact hderived.elim

theorem gives_collectTables (relations : List RelationSqlNode) :
    Gives Fatal (collectTables findTable tables relations)
      fun found => found.length = tables.length + relations.length := by
  induction relations generalizing tables with
  | nil => exact .success rfl
  | cons relation relations ih =>
    rw [collectTables]
    generalize (if relation.aliasName = "" then relation.relationName
      else relation.aliasName) = aliasName
    split_ifs
    · exact .refusal (not_fatal_code _)
    · cases findTable relation.relationName with
      | none => exact .refusal (not_fatal_code _)
      | some table =>
        refine ⟨ih.errors, fun found h => ?_⟩
        rw [ih.results found h]
        simp only [List.length_append, List.length_cons, List.length_nil]
        omega

theorem gives_processAttributeExpression (label : Label) (attr : RelAttrSqlNode) :
    Gives Fatal (processAttributeExpression trx tables label attr)
      fun projects => ∀ e ∈ projects, e.WellFormed := by
  have hvisible : ∀ table tableName aliasOf, ∀ e ∈ visibleFields trx table tableName aliasOf,
      e.WellFormed := by
    intro table tableName aliasOf e he
    obtain ⟨fieldMeta, -, rfl⟩ := List.mem_map.mp he
    trivial
  unfold processAttributeExpression
  split_ifs
  · refine .success fun e he => ?_
    obtain ⟨entry, -, he⟩ := List.mem_flatMap.mp he
    unfold wildcardFields at he
    split_ifs at he
    · exact hvisible _ _ _ e he
    · exact hvisible _ _ _ e he
  · exact .refusal (not_fatal_code _)
  · cases tableOf tables attr.relationName with
    | none => exact .refusal (not_fatal_code _)
    | some entry =>
      change Gives Fatal (tableFields trx label attr entry) _
      unfold tableFields
      by_cases hstar : attr.attributeName = "*"
      · rw [if_pos hstar]
        exact .success (hvisible _ _ _)
      · rw [if_neg hstar]
        cases findField entry.2 attr.attributeName with
        | none => exact .refusal (not_fatal_code _)
        | some fieldMeta => exact .success (List.forall_mem_singleton.mpr trivial)

theorem gives_analyzeProject (hne : tables ≠ []) {expr : SqlExpr} (hderived : expr.Derived) :
    Gives Fatal (analyzeProject lib trx tables expr)
      fun projects => ∀ e ∈ projects, e.WellFormed := by
  have hall : tables.map (fun entry => some entry.2) = (tables.map Prod.snd).map some := by
    rw [List.map_map]
    rfl
  have hplain : Gives Fatal (analyzeExpression lib tables (tables.map fun entry => some entry.2)
      expr >>= fun e => .ok [e]) fun projects => ∀ e ∈ projects, e.WellFormed := by
    rw [hall]
    refine (gives_analyzeExpression (by simpa using hne) hderived).bind fun e he => ?_
    exact .success (List.forall_mem_singleton.mpr he)
  cases expr with
  | relAttr label attr => exact gives_processAttributeExpression label attr
  | _ => exact hplain

/-- The tables and the select list are analyzed before any condition, without a fatal failure. -/
theorem gives_analyzeTablesAndProjects {sql : SelectSqlNode} (hderived : sql.Derived) :
    Gives Fatal (analyzeTablesAndProjects lib trx findTable sql)
      fun r => r.1 ≠ [] ∧ ∀ e ∈ r.2, e.WellFormed := by
  have hrelations := List.length_pos_of_ne_nil hderived.relations
  unfold analyzeTablesAndProjects
  refine (gives_collectTables sql.relations).bind fun found hlength => ?_
  have hne : found ≠ [] := by
    rintro rfl
    simp only [List.length_nil] at hlength
    omega
  refine (Gives.mapM fun expr hexpr => gives_analyzeProject hne
    (hderived.attributes expr (List.mem_reverse.mp hexpr))).bind fun lists hlists => ?_
  refine .success ⟨hne, fun e he => ?_⟩
  obtain ⟨list, hlist, he⟩ := List.mem_flatten.mp he
  exact hlists list hlist e he

/-! ## Lists of conditions -/

/-- Two parts of a condition, one after the other. -/
theorem dereferencesDefault_append {attrs attrs' : List RelAttrSqlNode} :
    DereferencesDefault default tables (attrs ++ attrs') ↔
      DereferencesDefault default tables attrs ∨
      (∀ attr ∈ attrs, attr.ResolvesIn default tables) ∧
        DereferencesDefault default tables attrs' := by
  unfold DereferencesDefault
  rw [Outcome.firstFails_append]
  tauto

theorem outcome_analyzeRight {right : Option SqlExpr} (h : ∀ e, right = some e → e.Derived) :
    Outcome Fatal (analyzeRight lib tables [default] right)
      (∀ e, right = some e → e.Resolves default tables)
      (DereferencesDefault default tables ((right.map SqlExpr.attrs).getD [])) := by
  cases right with
  | none => exact (Outcome.success none).congr (by simp) (by simp [DereferencesDefault, FirstFails])
  | some e =>
    have hright : Outcome Fatal (analyzeExpression lib tables [default] e) _ _ :=
      outcome_analyzeExpression (h e rfl)
    exact (hright.bind_success fun r _ => ⟨some r, rfl⟩).congr (by simp) Iff.rfl

theorem ConditionSqlNode.Derived.resolves_iff {c : ConditionSqlNode} (h : c.Derived)
    (hdefault : default = none) :
    c.Resolves default tables ↔ ∀ attr ∈ c.attrs, attr.ResolvesIn default tables := by
  have hleft : c.leftExpr.Resolves default tables ↔
      ∀ attr ∈ c.leftExpr.attrs, attr.ResolvesIn default tables :=
    h.leftExpr.resolves_iff hdefault
  have hright : (∀ e, c.rightExpr = some e → e.Resolves default tables) ↔
      ∀ attr ∈ (c.rightExpr.map SqlExpr.attrs).getD [], attr.ResolvesIn default tables := by
    cases heq : c.rightExpr with
    | none => simp
    | some e => simpa using (h.rightExpr e heq).resolves_iff hdefault
  unfold ConditionSqlNode.attrs
  rw [List.forall_mem_append, ← hleft, ← hright]
  exact ⟨fun hc => ⟨hc.leftExpr, hc.rightExpr⟩, fun hc => ⟨hc.1, hc.2⟩⟩

theorem outcome_createFilterUnit {c : ConditionSqlNode} (h : c.Derived) :
    Outcome Fatal (createFilterUnit lib default tables c) (c.Resolves default tables)
      (DereferencesDefault default tables c.attrs) := by
  have hleft : Outcome Fatal (analyzeExpression lib tables [default] c.leftExpr) _ _ :=
    outcome_analyzeExpression h.leftExpr
  have hright : Outcome Fatal (analyzeRight lib tables [default] c.rightExpr) _ _ :=
    outcome_analyzeRight h.rightExpr
  have hresolves : default = none → (c.leftExpr.Resolves default tables ↔
      ∀ attr ∈ c.leftExpr.attrs, attr.ResolvesIn default tables) := h.leftExpr.resolves_iff
  have hstep := hleft.bind fun l _ => hright.bind_success fun r _ =>
    (⟨⟨c.comp, l, r⟩, rfl⟩ : ∃ unit : FilterUnit, pure ⟨c.comp, l, r⟩ = Except.ok unit)
  unfold createFilterUnit ConditionSqlNode.attrs
  rw [if_neg h.comp, dereferencesDefault_append]
  refine hstep.congr ⟨fun hc => ⟨hc.1, hc.2⟩, fun hc => ⟨hc.leftExpr, hc.rightExpr⟩⟩ ?_
  unfold DereferencesDefault
  tauto

theorem resolves_flatMap_iff {conditions : List ConditionSqlNode}
    (h : ∀ c ∈ conditions, c.Derived) (hdefault : default = none) :
    (∀ c ∈ conditions, c.Resolves default tables) ↔
      ∀ attr ∈ conditions.flatMap ConditionSqlNode.attrs, attr.ResolvesIn default tables := by
  rw [List.forall_mem_flatMap]
  exact forall₂_congr fun c hc => (h c hc).resolves_iff hdefault

theorem outcome_createFilterStmt {conditions : List ConditionSqlNode}
    (h : ∀ c ∈ conditions, c.Derived) :
    Outcome Fatal (createFilterStmt lib default tables conditions)
      (∀ c ∈ conditions, c.Resolves default tables)
      (DereferencesDefault default tables (conditions.flatMap ConditionSqlNode.attrs)) := by
  have hmapM : Outcome Fatal (createFilterStmt lib default tables conditions) _ _ :=
    Outcome.mapM fun c hc => outcome_createFilterUnit (h c hc)
  refine hmapM.congr Iff.rfl ?_
  unfold DereferencesDefault
  rw [Outcome.firstFails_flatMap]
  by_cases hdefault : default = none
  · rw [and_iff_right hdefault]
    exact Outcome.firstFails_congr (fun c hc => (h c hc).resolves_iff hdefault)
      fun c _ => and_iff_right hdefault
  · refine iff_of_false (fun hfirst => ?_) fun hboth => hdefault hboth.1
    exact Outcome.not_firstFails_false conditions
      ((Outcome.firstFails_congr (fun _ _ => Iff.rfl) fun c _ =>
        iff_false_intro fun hboth => hdefault hboth.1).mp hfirst)

theorem outcome_joinFilters {joins : List (List ConditionSqlNode)}
    (h : ∀ c ∈ joins.flatten, c.Derived) :
    Outcome Fatal (joins.mapM (createFilterStmt lib default tables))
      (∀ c ∈ joins.flatten, c.Resolves default tables)
      (DereferencesDefault default tables (joins.flatten.flatMap ConditionSqlNode.attrs)) := by
  induction joins with
  | nil => exact (Outcome.success []).congr (by simp) (by simp [DereferencesDefault, FirstFails])
  | cons conditions joins ih =>
    rw [List.flatten_cons, List.forall_mem_append] at h
    have hhead : Outcome Fatal (createFilterStmt lib default tables conditions) _ _ :=
      outcome_createFilterStmt h.1
    have hstep := hhead.bind fun units _ => (ih h.2).bind_success fun rest _ =>
      ⟨units :: rest, rfl⟩
    have hresolves : default = none → ((∀ c ∈ conditions, c.Resolves default tables) ↔
        ∀ attr ∈ conditions.flatMap ConditionSqlNode.attrs, attr.ResolvesIn default tables) :=
      resolves_flatMap_iff h.1
    rw [List.mapM_cons, List.flatten_cons, List.flatMap_append, dereferencesDefault_append,
      List.forall_mem_append]
    refine hstep.congr Iff.rfl ?_
    unfold DereferencesDefault
    tauto

/-! ## Statements -/

structure SelectSqlNode.Accepted (sql : SelectSqlNode) (tables : FromList)
    (projects : List StmtExpr) : Prop where
  filterConditions : ∀ c ∈ sql.filterConditions, c.Resolves (defaultTable tables) tables
  group : ∃ group, createGroupByStmt (defaultTable tables) tables sql.groupByAttributes =
    .ok group ∧ groupChecked projects group = true
  havingConditions : ∀ c ∈ sql.havingConditions.conditions,
    c.Resolves (defaultTable tables) tables
  order : ∃ units, sql.orderLists.mapM (createOrderUnit (defaultTable tables) tables) = .ok units

/-- The default table of several tables is read, in the conditions of the joins and of the `WHERE`
clause or, behind the group, in those of the `HAVING` clause. -/
def SelectSqlNode.DereferencesTable (sql : SelectSqlNode) (tables : FromList) : Prop :=
  DereferencesDefault (defaultTable tables) tables
    (sql.filterConditions.flatMap ConditionSqlNode.attrs) ∨
  (∀ c ∈ sql.filterConditions, c.Resolves (defaultTable tables) tables) ∧
    (∃ group, createGroupByStmt (defaultTable tables) tables sql.groupByAttributes = .ok group) ∧
    DereferencesDefault (defaultTable tables) tables
      (sql.havingConditions.conditions.flatMap ConditionSqlNode.attrs)

/-- No right side that is read is missing: every `HAVING` condition has one, and under `AND` the
`WHERE` conditions without one have an attribute on the left. -/
def SelectSqlNode.OperandsPresent (sql : SelectSqlNode) : Prop :=
  (∀ c ∈ sql.havingConditions.conditions, c.rightExpr ≠ none) ∧
  (sql.whereConditions.type = .and → ∀ c ∈ sql.whereConditions.conditions, c.rightExpr = none →
    c.leftExpr.isAttribute = true)

theorem gives_getTableAndField (attr : RelAttrSqlNode) :
    Gives Fatal (getTableAndField default tables attr) fun _ => True := by
  unfold getTableAndField
  split
  · exact .refusal (not_fatal_code _)
  · split
    · exact .refusal (not_fatal_code _)
    · exact .success trivial

theorem gives_createGroupByUnit (attr : RelAttrSqlNode) :
    Gives Fatal (createGroupByUnit default tables attr) fun _ => True :=
  (gives_getTableAndField attr).bind fun _ _ => .success trivial

theorem gives_createGroupByStmt (units : List RelAttrSqlNode) :
    Gives Fatal (createGroupByStmt default tables units) fun _ => True := by
  cases units with
  | nil => exact .success trivial
  | cons unit units =>
    have hunits : Gives Fatal ((unit :: units).mapM (createGroupByUnit default tables)) _ :=
      Gives.mapM fun attr _ => gives_createGroupByUnit attr
    exact hunits.bind fun group _ => .success trivial

theorem gives_createOrderUnit (node : OrderByNode) :
    Gives Fatal (createOrderUnit default tables node) fun _ => True :=
  (gives_getTableAndField node.sortAttr).bind fun _ _ => .success trivial

theorem outcome_create {sql : SelectSqlNode} (h : sql.Derived) {projects : List StmtExpr}
    (hanalyzed : analyzeTablesAndProjects lib trx findTable sql = .ok (tables, projects)) :
    Outcome Fatal (SelectStmt.create lib trx findTable sql) (sql.Accepted tables projects)
      (sql.DereferencesTable tables) := by
  have hconditions := h.filterConditions
  unfold SelectSqlNode.filterConditions at hconditions
  rw [List.forall_mem_append] at hconditions
  -- the five clauses, in the order of their analysis
  have hjoins : Outcome Fatal (sql.joinConditions.mapM
      (createFilterStmt lib (defaultTable tables) tables)) _ _ := outcome_joinFilters hconditions.1
  have hwhere : Outcome Fatal (createFilterStmt lib (defaultTable tables) tables
      sql.whereConditions.conditions) _ _ := outcome_createFilterStmt hconditions.2
  have hgroup : Outcome Fatal (createGroupByStmt (defaultTable tables) tables
      sql.groupByAttributes) _ _ := (gives_createGroupByStmt _).outcome
  have hhaving : Outcome Fatal (createFilterStmt lib (defaultTable tables) tables
      sql.havingConditions.conditions) _ _ := outcome_createFilterStmt h.havingConditions
  have horder : Outcome Fatal (sql.orderLists.mapM
      (createOrderUnit (defaultTable tables) tables)) _ _ :=
    (Gives.mapM fun node _ => gives_createOrderUnit node).outcome
  have hchecked : ∀ group stmt, createGroupByStmt (defaultTable tables) tables
      sql.groupByAttributes = .ok group →
      Outcome Fatal (if groupChecked projects group = true then .ok stmt
        else .error (.code .invalidArgument) : Except Failure SelectStmt)
        (∃ group, createGroupByStmt (defaultTable tables) tables sql.groupByAttributes =
          .ok group ∧ groupChecked projects group = true) False := by
    intro group stmt heq
    split_ifs with hcheck
    · exact (Outcome.success _).congr (iff_of_true trivial ⟨group, heq, hcheck⟩) Iff.rfl
    · refine (Outcome.refusal (not_fatal_code _)).congr (iff_of_false id ?_) Iff.rfl
      rintro ⟨group', heq', hcheck'⟩
      rw [heq] at heq'
      obtain rfl := Except.ok.inj heq'
      exact hcheck hcheck'
  have hrest := hjoins.bind fun joinFilters _ => hwhere.bind fun filterUnits _ =>
    hgroup.bind fun group heq => hhaving.bind fun havingUnits _ => horder.bind
      fun orderUnits _ => hchecked group ⟨projects.foldl StmtExpr.getFields [], projects,
        tables, ⟨sql.whereConditions.type, filterUnits⟩, group,
        ⟨sql.havingConditions.type, havingUnits⟩, orderUnits, joinFilters⟩ heq
  unfold SelectStmt.create
  rw [if_neg (by simpa using h.relations), hanalyzed]
  refine hrest.congr ⟨?_, ?_⟩ ?_
  · rintro ⟨hj, hw, -, hh, ho, hg⟩
    exact ⟨List.forall_mem_append.mpr ⟨hj, hw⟩, hg, hh, ho⟩
  · rintro ⟨hf, ⟨group, hg, hcheck⟩, hh, ho⟩
    obtain ⟨hj, hw⟩ := List.forall_mem_append.mp hf
    exact ⟨hj, hw, ⟨group, hg⟩, hh, ho, group, hg, hcheck⟩
  · unfold SelectSqlNode.DereferencesTable SelectSqlNode.filterConditions
    rw [List.flatMap_append, dereferencesDefault_append, List.forall_mem_append]
    have hresolves : defaultTable tables = none →
        ((∀ c ∈ sql.joinConditions.flatten, c.Resolves (defaultTable tables) tables) ↔
          ∀ attr ∈ sql.joinConditions.flatten.flatMap ConditionSqlNode.attrs,
            attr.ResolvesIn (defaultTable tables) tables) := resolves_flatMap_iff hconditions.1
    unfold DereferencesDefault
    tauto

/-! ## From the conditions to the plan -/

/-- A property of the results of a loop is one of the elements. -/
theorem forall_mapM_iff {α β : Type} {f : α → Except Failure β} {P : β → Prop} {Q : α → Prop}
    {l : List α} {bs : List β} (h : l.mapM f = .ok bs)
    (hf : ∀ a ∈ l, ∀ b, f a = .ok b → (P b ↔ Q a)) : (∀ b ∈ bs, P b) ↔ ∀ a ∈ l, Q a := by
  induction l generalizing bs with
  | nil =>
    obtain rfl := Except.ok.inj h
    simp
  | cons a l ih =>
    rw [List.mapM_cons] at h
    obtain ⟨b, hb, h⟩ := exists_of_bind_ok h
    obtain ⟨rest, hrest, h⟩ := exists_of_bind_ok h
    obtain rfl := Except.ok.inj h
    rw [List.forall_mem_cons, List.forall_mem_cons, hf a List.mem_cons_self b hb,
      ih hrest fun a' ha' => hf a' (List.mem_cons_of_mem _ ha')]

theorem createFilterUnit_spec {c : ConditionSqlNode} {unit : FilterUnit} (h : c.Derived)
    (hunit : createFilterUnit lib default tables c = .ok unit) :
    unit.WellFormed ∧ (unit.right = none ↔ c.rightExpr = none) ∧
      ((∃ label f, unit.left = .field label f) ↔ c.leftExpr.isAttribute = true) := by
  unfold createFilterUnit at hunit
  rw [if_neg h.comp] at hunit
  obtain ⟨l, hl, hunit⟩ := exists_of_bind_ok hunit
  obtain ⟨r, hr, hunit⟩ := exists_of_bind_ok hunit
  obtain rfl := Except.ok.inj hunit
  obtain ⟨hwell, hfield⟩ := analyzeExpression_wellFormed h.leftExpr hl
  cases hright : c.rightExpr with
  | none =>
    rw [hright] at hr
    obtain rfl := Except.ok.inj hr
    exact ⟨⟨hwell, fun right heq => by cases heq⟩, iff_of_true rfl rfl, hfield⟩
  | some right =>
    rw [hright] at hr
    obtain ⟨e, he, hr⟩ := exists_of_bind_ok hr
    obtain rfl := Except.ok.inj hr
    refine ⟨⟨hwell, fun right' heq => ?_⟩, by simp, hfield⟩
    obtain rfl := Option.some.inj heq
    exact (analyzeExpression_wellFormed (h.rightExpr right hright) he).1

/-- The statement that is made. -/
theorem create_spec {sql : SelectSqlNode} (h : sql.Derived) {stmt : SelectStmt}
    (hstmt : SelectStmt.create lib trx findTable sql = .ok stmt) :
    stmt.WellFormed ∧ (stmt.HavingComplete ∧ Pushable stmt.filterUnits ↔ sql.OperandsPresent) := by
  have hconditions := h.filterConditions
  unfold SelectSqlNode.filterConditions at hconditions
  rw [List.forall_mem_append] at hconditions
  unfold SelectStmt.create at hstmt
  rw [if_neg (by simpa using h.relations)] at hstmt
  obtain ⟨analyzed, hanalyzed, hstmt⟩ := exists_of_bind_ok hstmt
  obtain ⟨joinFilters, -, hstmt⟩ := exists_of_bind_ok hstmt
  obtain ⟨filterUnits, hfilter, hstmt⟩ := exists_of_bind_ok hstmt
  obtain ⟨groupBy, -, hstmt⟩ := exists_of_bind_ok hstmt
  obtain ⟨havingUnits, hhaving, hstmt⟩ := exists_of_bind_ok hstmt
  obtain ⟨orderUnits, -, hstmt⟩ := exists_of_bind_ok hstmt
  split_ifs at hstmt
  obtain rfl := Except.ok.inj hstmt
  obtain ⟨htables, hprojects⟩ := (gives_analyzeTablesAndProjects h).results analyzed hanalyzed
  refine ⟨⟨htables, hprojects, ?_, ?_⟩, and_congr ?_ (imp_congr_right fun _ => ?_)⟩
  · intro unit hunit
    obtain ⟨c, hc, heq⟩ := exists_of_mapM_ok hfilter unit hunit
    exact (createFilterUnit_spec (hconditions.2 c hc) heq).1
  · intro unit hunit
    obtain ⟨c, hc, heq⟩ := exists_of_mapM_ok hhaving unit hunit
    exact (createFilterUnit_spec (h.havingConditions c hc) heq).1
  · exact forall_mapM_iff hhaving fun c hc unit heq =>
      not_congr (createFilterUnit_spec (h.havingConditions c hc) heq).2.1
  · refine forall_mapM_iff hfilter fun c hc unit heq => ?_
    have hspec := (createFilterUnit_spec (hconditions.2 c hc) heq).2
    exact imp_congr hspec.1 hspec.2

/-- Behind the `FROM` list and the select list, no null pointer is read. -/
def SelectSqlNode.NullSafe (lib : StdLib) (trx : TrxType) (findTable : String → Option TableMeta)
    (sql : SelectSqlNode) : Prop :=
  ∀ tables projects, analyzeTablesAndProjects lib trx findTable sql = .ok (tables, projects) →
    ¬sql.DereferencesTable tables ∧ (sql.Accepted tables projects → sql.OperandsPresent)

/-- A `SELECT` of the grammar is planned and rewritten or ends in an error code, unless it reads
the missing default table of several tables or the missing right side of a condition. -/
theorem selectPlan_null_safe_iff (lib : StdLib) (trx : TrxType)
    (findTable : String → Option TableMeta) (sql : SelectSqlNode) (hderived : sql.Derived) :
    (∀ f, selectPlan lib trx findTable sql = .error f → ∃ rc, f = .code rc) ↔
      sql.NullSafe lib trx findTable := by
  have hcode : ∀ f, ¬Fatal f ↔ ∃ rc, f = .code rc := by
    intro f
    simp [Fatal]
  have hanalysis : Gives Fatal (analyzeTablesAndProjects lib trx findTable sql) _ :=
    gives_analyzeTablesAndProjects hderived
  unfold SelectSqlNode.NullSafe
  cases hanalyzed : analyzeTablesAndProjects lib trx findTable sql with
  | error g =>
    -- the `FROM` list or the select list is refused with a code
    have hcreate : selectPlan lib trx findTable sql = .error g := by
      unfold selectPlan SelectStmt.create
      rw [if_neg (by simpa using hderived.relations), hanalyzed]
      rfl
    rw [hcreate]
    refine iff_of_true (fun f hf => ?_) fun tables projects h => by cases h
    obtain rfl := Except.error.inj hf
    exact (hcode g).mp (hanalysis.errors g hanalyzed)
  | ok analyzed =>
    obtain ⟨tables, projects⟩ := analyzed
    -- the planner and the rewriter fail for the operands, which are those of the conditions
    have hplan : Outcome Fatal (selectPlan lib trx findTable sql) _ _ :=
      (outcome_create hderived hanalyzed).bind fun stmt hstmt =>
        (outcome_planSelect lib (create_spec hderived hstmt).1).congr
          (create_spec hderived hstmt).2 (not_congr (create_spec hderived hstmt).2)
    have hfails : (∀ f, selectPlan lib trx findTable sql = .error f → ∃ rc, f = .code rc) ↔
        ¬(sql.DereferencesTable tables ∨
          sql.Accepted tables projects ∧ ¬sql.OperandsPresent) := by
      rw [← hplan.fails_iff]
      simp only [not_exists, not_and]
      exact forall₂_congr fun f _ => (hcode f).symm
    rw [hfails]
    constructor
    · intro hnot tables' projects' heq
      obtain ⟨rfl, rfl⟩ := Prod.mk.inj (Except.ok.inj heq)
      exact ⟨fun h => hnot (.inl h), fun haccepted => by_contra fun h => hnot (.inr ⟨haccepted, h⟩)⟩
    · rintro hsafe (h | ⟨haccepted, h⟩)
      · exact (hsafe tables projects rfl).1 h
      · exact h ((hsafe tables projects rfl).2 haccepted)

def starSelect (names : List String) (whereConditions havingConditions : List ConditionSqlNode) :
    SelectSqlNode where
  attributes := [.relAttr ⟨"*", ""⟩ ⟨"", "*"⟩]
  relations := names.map fun name => ⟨name, ""⟩
  joinConditions := []
  whereConditions := ⟨.and, whereConditions⟩
  groupByAttributes := []
  havingConditions := ⟨.and, havingConditions⟩
  orderLists := []

def attributeX : SqlExpr := .relAttr ⟨"x", ""⟩ ⟨"", "x"⟩

/-- `SELECT * FROM t WHERE x IS NULL`. -/
theorem selectPlan_null_safe_one_table :
    (starSelect ["t"] [⟨attributeX, .isNull, none⟩] []).Derived ∧
    ∀ f, selectPlan plainLib .vacuous (fun _ => some intTable)
      (starSelect ["t"] [⟨attributeX, .isNull, none⟩] []) = .error f → ∃ rc, f = .code rc := by
  have hderived : (starSelect ["t"] [⟨attributeX, .isNull, none⟩] []).Derived := by
    refine ⟨by decide, List.forall_mem_singleton.mpr trivial, List.forall_mem_singleton.mpr ?_, ?_⟩
    · exact ⟨trivial, fun right h => (by cases h), by decide, iff_of_true rfl rfl⟩
    · exact fun c hc => absurd hc List.not_mem_nil
  refine ⟨hderived, (selectPlan_null_safe_iff plainLib .vacuous _ _ hderived).mpr ?_⟩
  intro tables projects h
  have htables : tables = [("t", intTable)] := by
    obtain ⟨found, hfound, h⟩ := exists_of_bind_ok h
    obtain ⟨lists, -, h⟩ := exists_of_bind_ok h
    obtain ⟨rfl, -⟩ := Prod.mk.inj (Except.ok.inj h)
    exact (Except.ok.inj hfound).symm
  subst htables
  refine ⟨?_, fun _ => ⟨fun c hc => absurd hc List.not_mem_nil, fun _ => ?_⟩⟩
  · rintro (⟨hdefault, -⟩ | ⟨-, -, hdefault, -⟩) <;> cases hdefault
  · exact List.forall_mem_singleton.mpr fun _ => rfl

/-- `SELECT * FROM t, u WHERE x = 1` reads the missing default table, `SELECT * FROM t HAVING x IS
NULL` the missing right side in the planner, and `SELECT * FROM t WHERE 1 IS NULL` in the
rewriter. -/
theorem selectPlan_null_pointers :
    selectPlan plainLib .vacuous (fun _ => some intTable)
      (starSelect ["t", "u"] [⟨attributeX, .equalTo, some (.value ⟨"1", ""⟩ (.ints 1))⟩] []) =
        .error .crash ∧
    selectPlan plainLib .vacuous (fun _ => some intTable)
      (starSelect ["t"] [] [⟨attributeX, .isNull, none⟩]) = .error .crash ∧
    selectPlan plainLib .vacuous (fun _ => some intTable)
      (starSelect ["t"] [⟨.value ⟨"1", ""⟩ (.ints 1), .isNull, none⟩] []) = .error .crash := by
  refine ⟨rfl, rfl, ?_⟩
  have hrewrite : rewrite (LogicalNode.withChild (.project [.field (Field.getValue
      ⟨intTable, ⟨"x", .ints, 0, 4, false, true⟩, "t"⟩)]) (.withChild (.predicate (.conjunction .and
        [.unary .isNull (.value (.ints 1))])) (.tableGet "t" []))) = .error .crash := by
    rw [rewrite_of_ok rfl, rewrite_of_error (f := .crash) rfl]
    rfl
  exact congrArg (fun r => r >>= fun r => Except.ok r.1) hrewrite

end TDB.Analyzer
