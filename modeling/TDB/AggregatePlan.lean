import TDB.AggregateExpr

namespace TDB

variable {S T : Type} {lib : StdLib}

namespace Analyzer

open Where (ConjunctionType WhereConditions)
open Expression (exists_of_bind_ok)

/-! ## The rows that pass the `WHERE` clause -/

def passingRows (lib : StdLib) (filter : WhereConditions FilterUnit) (rows : List Tuple) :
    List Tuple :=
  rows.filter fun row => (filterExpr lib filter).truth lib row

def Evaluates (lib : StdLib) (filter : WhereConditions FilterUnit) (row : Tuple) : Prop :=
  ∀ unit ∈ filter.conditions, ∃ v, (unit.expr lib).getValue lib row = .ok v

theorem FilterUnit.getValue_boolean {unit : FilterUnit} {row : Tuple} {v : Value}
    (h : (unit.expr lib).getValue lib row = .ok v) :
    (unit.expr lib).getValue lib row = .ok (.booleans ((unit.expr lib).truth lib row)) := by
  have hboolean : ∃ b, v = .booleans b := by
    unfold FilterUnit.expr at h
    cases hright : unit.right with
    | none =>
      rw [hright] at h
      dsimp only at h
      rw [Expression.getValue] at h
      obtain ⟨l, -, h⟩ := Expression.exists_of_bind_ok h
      obtain ⟨b, -, h⟩ := Expression.exists_of_bind_ok h
      exact ⟨b, (Except.ok.inj h).symm⟩
    | some right =>
      rw [hright] at h
      exact Expression.getValue_comparison_boolean h
  obtain ⟨b, rfl⟩ := hboolean
  exact Expression.getValue_eq_truth h

variable {filter : WhereConditions FilterUnit} {row : Tuple}

theorem Evaluates.getValue (h : Evaluates lib filter row) {e : Expression Tuple}
    (he : e ∈ filter.conditions.map (FilterUnit.expr lib)) :
    e.getValue lib row = .ok (.booleans (e.truth lib row)) := by
  obtain ⟨unit, hunit, rfl⟩ := List.mem_map.mp he
  obtain ⟨v, hv⟩ := h unit hunit
  exact FilterUnit.getValue_boolean hv

theorem getValue_conjunction_truth {es : List (Expression Tuple)}
    (h : ∀ e ∈ es, e.getValue lib row = .ok (.booleans (e.truth lib row)))
    (type : ConjunctionType) :
    (Expression.conjunction type es).getValue lib row =
      .ok (.booleans ((Expression.conjunction type es).truth lib row)) :=
  Expression.getValue_eq_truth
    (Expression.getValue_conjunction lib row type fun e he => ⟨_, h e he⟩)

theorem pushdownLoop_units {units : List FilterUnit} (h : ∀ unit ∈ units, unit.Pushable) :
    ∃ kept pushed, pushdownLoop (units.map (FilterUnit.expr lib)) = .ok (kept, pushed) ∧
      (pushed ++ kept).Perm (units.map (FilterUnit.expr lib)) := by
  induction units with
  | nil => exact ⟨[], [], rfl, List.Perm.nil⟩
  | cons unit units ih =>
    obtain ⟨kept, pushed, hloop, hperm⟩ := ih fun unit' h' => h unit' (List.mem_cons_of_mem _ h')
    have hunit : getExprsCanPushdown (unit.expr lib) = .ok (some (unit.expr lib), []) ∨
        getExprsCanPushdown (unit.expr lib) = .ok (none, [unit.expr lib]) := by
      have hpushable := h unit List.mem_cons_self
      unfold FilterUnit.expr
      cases hright : unit.right with
      | none =>
        have hfield := (type_toExpression lib unit.left).mpr (hpushable hright)
        right
        dsimp only
        rw [getExprsCanPushdown, if_neg (not_not.mpr hfield)]
      | some right =>
        dsimp only
        rw [getExprsCanPushdown]
        split_ifs
        · exact .inl rfl
        · exact .inl rfl
        · exact .inr rfl
    rw [List.map_cons, pushdownLoop, hloop]
    rcases hunit with hunit | hunit
    · rw [hunit]
      exact ⟨_, _, rfl, List.perm_middle.trans (hperm.cons _)⟩
    · rw [hunit]
      exact ⟨_, _, rfl, hperm.cons _⟩

/-- What the rule makes of a filter over a scan lets the same rows pass. -/
theorem pushdown_filter (lib : StdLib) (h : Pushable filter) :
    ∃ kept pushed, getExprsCanPushdown (filterExpr lib filter) = .ok (some kept, pushed) ∧
      ∀ row, Evaluates lib filter row →
        rowPasses lib row pushed kept = .ok ((filterExpr lib filter).truth lib row) := by
  unfold filterExpr
  cases htype : filter.type with
  | or =>
    refine ⟨_, [], rfl, ?_⟩
    intro row hrow
    rw [rowPasses_eq (List.forall_mem_nil _)
      (getValue_conjunction_truth (fun e he => hrow.getValue he) .or)]
    rfl
  | and =>
    -- only an `AND` is taken apart, so the order of its parts is all that changes
    obtain ⟨kept, pushed, hloop, hperm⟩ := @pushdownLoop_units lib _ (h htype)
    refine ⟨.conjunction .and kept, pushed, ?_, ?_⟩
    · rw [getExprsCanPushdown, hloop]
      rfl
    · intro row hrow
      have hvalue : ∀ e ∈ pushed ++ kept, e.getValue lib row = .ok (.booleans (e.truth lib row)) :=
        fun e he => hrow.getValue (hperm.mem_iff.mp he)
      have hkept : ∀ e ∈ kept, e.getValue lib row = .ok (.booleans (e.truth lib row)) :=
        fun e he => hvalue e (List.mem_append_right _ he)
      -- an `AND` is true if all its parts are
      have hand : ∀ es : List (Expression Tuple),
          (∀ e ∈ es, e.getValue lib row = .ok (.booleans (e.truth lib row))) →
          (Expression.conjunction .and es).truth lib row =
            es.all (Expression.truth lib row) := by
        intro es hes
        rw [Expression.truth,
          Expression.getValue_conjunction lib row .and fun e he => ⟨_, hes e he⟩]
        rfl
      rw [rowPasses_eq (fun e he => hvalue e (List.mem_append_left _ he))
        (getValue_conjunction_truth hkept .and), hand kept hkept,
        hand _ fun e he => hrow.getValue he, ← hperm.all_eq, List.all_append]

theorem predicateEvents_tableScanEvents {rows : List Tuple} {predicates : List (Expression Tuple)}
    {e : Expression Tuple} {p : Tuple → Bool}
    (h : ∀ row ∈ rows, rowPasses lib row predicates e = .ok (p row)) :
    predicateEvents lib e (tableScanEvents lib predicates rows) =
      (rows.filter p).map fun row => .row row row := by
  induction rows with
  | nil => rfl
  | cons row rows ih =>
    have htail := ih fun row' h' => h row' (List.mem_cons_of_mem row h')
    have hrow := h row List.mem_cons_self
    rw [rowPasses] at hrow
    -- first the predicates of the scan, then the predicate over it
    obtain ⟨passed, hpassed, hrow⟩ := Expression.exists_of_bind_ok hrow
    rw [tableScanEvents, hpassed]
    cases passed with
    | false =>
      rw [List.filter_cons_of_neg (by simpa using (Except.ok.inj hrow).symm)]
      exact htail
    | true =>
      obtain ⟨value, hvalue, hrow⟩ := Expression.exists_of_bind_ok hrow
      have hp : value.getBoolean lib = p row := Except.ok.inj hrow
      change predicateEvents lib e (.row row row :: tableScanEvents lib predicates rows) = _
      rw [predicateEvents, hvalue, List.filter_cons]
      dsimp only
      rw [hp, htail]
      cases p row <;> rfl

theorem rewrite_where (lib : StdLib) (h : Pushable filter) (table : String) :
    ∃ node changeMade,
      rewrite (filterNode lib filter (.tableGet table [])) = .ok (node, changeMade) ∧
      ∀ std db, (∀ row ∈ db table, Evaluates lib filter row) →
        ∃ last, planEvents std lib db node =
          .ok ⟨(passingRows lib filter (db table)).map fun row => .row row row, last⟩ := by
  unfold filterNode
  by_cases hempty : filter.conditions.isEmpty
  · rw [if_pos hempty]
    refine ⟨_, _, rewrite_tableGet table [], fun std db _ => ⟨(db table).getLast?, ?_⟩⟩
    have htrue : ∀ row, (filterExpr lib filter).truth lib row = true := by
      intro row
      rw [filterExpr, List.isEmpty_iff.mp hempty]
      rfl
    have hrows : ∀ rows, tableScanEvents lib [] rows =
        (passingRows lib filter rows).map fun row => .row row row := by
      intro rows
      simp only [passingRows, htrue, List.filter_true]
      induction rows with
      | nil => rfl
      | cons row rows ih => exact congrArg (Event.row row row :: ·) ih
    rw [planEvents, hrows]
  · rw [if_neg hempty]
    obtain ⟨kept, pushed, hget, hpasses⟩ := pushdown_filter lib h
    unfold filterExpr at hget
    have hnode : predicatePushdown (.withChild (.predicate (.conjunction filter.type
        (filter.conditions.map (FilterUnit.expr lib)))) (.tableGet table [])) =
        .ok (.withChild (.predicate kept) (.tableGet table pushed), !pushed.isEmpty) := by
      rw [predicatePushdown, hget]
      cases pushed <;> rfl
    rw [rewrite_of_ok hnode, rewrite_tableGet]
    refine ⟨_, _, rfl, fun std db hwhere => ⟨(db table).getLast?, ?_⟩⟩
    have hevents := predicateEvents_tableScanEvents fun row hrow => hpasses row (hwhere row hrow)
    rw [planEvents, planEvents]
    exact congrArg (fun events => Except.ok (EventStream.mk events _)) hevents

/-! ## The plan -/

def SelectStmt.aggrUnits (stmt : SelectStmt) : List (AggrUnit Tuple) :=
  stmt.projects.flatMap StmtExpr.aggrUnits

def SelectStmt.havingAggrUnits (stmt : SelectStmt) : List (AggrUnit Tuple) :=
  stmt.havingUnits.conditions.flatMap FilterUnit.aggrUnits

structure SelectStmt.OfAggregates (stmt : SelectStmt) (entry : String × Recorder.TableMeta) :
    Prop where
  tables : stmt.tables = [entry]
  projects : ∀ e ∈ stmt.projects, e.OverAggregates
  aggrUnits : stmt.aggrUnits ≠ []
  filterUnits : ∀ unit ∈ stmt.filterUnits.conditions, unit.WellFormed
  havingUnits : ∀ unit ∈ stmt.havingUnits.conditions, unit.OverAggregates
  texts : TextsDetermine stmt.aggrUnits (stmt.aggrUnits ++ stmt.havingAggrUnits)

theorem FilterUnit.OverAggregates.wellFormed {unit : FilterUnit} (h : unit.OverAggregates) :
    unit.WellFormed := by
  obtain ⟨right, hright, hover, -⟩ := h.exists_right
  refine ⟨h.left.wellFormed, ?_⟩
  intro right' hright'
  obtain rfl := Option.some.inj (hright.symm.trans hright')
  exact hover.wellFormed

theorem SelectStmt.OfAggregates.wellFormed {stmt : SelectStmt}
    {entry : String × Recorder.TableMeta} (h : stmt.OfAggregates entry) : stmt.WellFormed where
  tables := by rw [h.tables]; exact List.cons_ne_nil _ _
  projects e he := (h.projects e he).wellFormed
  filterUnits := h.filterUnits
  havingUnits unit hunit := (h.havingUnits unit hunit).wellFormed

theorem SelectStmt.OfAggregates.havingComplete {stmt : SelectStmt}
    {entry : String × Recorder.TableMeta} (h : stmt.OfAggregates entry) :
    stmt.HavingComplete := by
  intro unit hunit hnone
  obtain ⟨right, hright, -⟩ := (h.havingUnits unit hunit).right
  cases hnone.symm.trans hright

theorem StmtExpr.OverAggregates.mapM_getAggrExprs {e : StmtExpr} (h : e.OverAggregates) :
    ∃ exprs, e.getAggrExprs = .ok exprs ∧ exprs.mapM aggrUnit = .ok e.aggrUnits := by
  induction h with
  | value => exact ⟨[], rfl, rfl⟩
  | values => exact ⟨[], rfl, rfl⟩
  | arithmetic label htype hleft hright ihl ihr =>
    obtain ⟨exprs, hexprs, hunits⟩ := ihl
    obtain ⟨exprs', hexprs', hunits'⟩ := ihr
    refine ⟨exprs ++ exprs', by rw [StmtExpr.getAggrExprs, hexprs, hexprs']; rfl, ?_⟩
    rw [List.mapM_append, hunits, hunits']
    rfl
  | unary label hleft ih =>
    obtain ⟨exprs, hexprs, hunits⟩ := ih
    exact ⟨exprs, by rw [StmtExpr.getAggrExprs, hexprs], hunits⟩
  | aggr label aggrType fieldLabel f =>
    exact ⟨[.aggr label aggrType (.field fieldLabel f)], rfl, rfl⟩

theorem mapM_getAggrExprs {es : List StmtExpr} (h : ∀ e ∈ es, e.OverAggregates) :
    ∃ lists, es.mapM StmtExpr.getAggrExprs = .ok lists ∧
      lists.flatten.mapM aggrUnit = .ok (es.flatMap StmtExpr.aggrUnits) := by
  induction es with
  | nil => exact ⟨[], rfl, rfl⟩
  | cons e es ih =>
    obtain ⟨exprs, hexprs, hunits⟩ := (h e List.mem_cons_self).mapM_getAggrExprs
    obtain ⟨lists, hlists, hunits'⟩ := ih fun e' he' => h e' (List.mem_cons_of_mem e he')
    refine ⟨exprs :: lists, by rw [List.mapM_cons, hexprs, hlists]; rfl, ?_⟩
    rw [List.flatten_cons, List.mapM_append, hunits, hunits']
    rfl

def aggregatePlan (lib : StdLib) (stmt : SelectStmt) (rows : LogicalNode Tuple) :
    LogicalNode Tuple :=
  .withChild (.project (stmt.projects.map (StmtExpr.toExpression lib)))
    (planOrder stmt.orderUnits
      (filterNode lib stmt.havingUnits (.withChild (.aggr stmt.aggrUnits) rows)))

variable {stmt : SelectStmt} {entry : String × Recorder.TableMeta}

theorem SelectStmt.OfAggregates.planSelect_eq (h : stmt.OfAggregates entry) (lib : StdLib) :
    planSelect lib stmt = .ok (aggregatePlan lib stmt
      (filterNode lib stmt.filterUnits (.tableGet entry.2.name []))) := by
  obtain ⟨lists, hlists, hunits⟩ := mapM_getAggrExprs h.projects
  obtain ⟨having, hhaving⟩ :=
    (outcome_having h.wellFormed.havingUnits).ok_iff.mpr h.havingComplete
  have hne : lists.flatten.isEmpty = false := by
    rw [List.isEmpty_eq_false_iff]
    intro hnil
    rw [hnil] at hunits
    exact h.aggrUnits (Except.ok.inj hunits).symm
  have haggr : ∀ root, planAggr lists.flatten root =
      .ok (.withChild (.aggr stmt.aggrUnits) root) := by
    intro root
    rw [planAggr, hne, if_neg Bool.false_ne_true, hunits]
    rfl
  unfold planSelect
  rw [h.tables]
  dsimp only
  rw [planFilter_eq h.filterUnits]
  change ((stmt.projects.mapM StmtExpr.getAggrExprs) >>= _) = _
  rw [hlists]
  change (planAggr lists.flatten _ >>= _) = _
  rw [haggr]
  change (stmt.havingUnits.conditions.mapM havingAggrExprs >>= _) = _
  rw [hhaving]
  change (planFilter lib stmt.havingUnits _ >>= _) = _
  rw [planFilter_eq h.wellFormed.havingUnits]
  rfl

theorem rewrite_withChild {op : NodeOp Tuple} {child child' : LogicalNode Tuple}
    {changeMade : Bool}
    (hnode : predicatePushdown (.withChild op child) = .ok (.withChild op child, false))
    (hchild : rewrite child = .ok (child', changeMade)) :
    rewrite (.withChild op child) = .ok (.withChild op child', changeMade) := by
  rw [rewrite_of_ok hnode, hchild]
  rfl

theorem rewrite_aggregatePlan {rows rows' : LogicalNode Tuple} {changeMade : Bool}
    (hrows : rewrite rows = .ok (rows', changeMade)) :
    rewrite (aggregatePlan lib stmt rows) = .ok (aggregatePlan lib stmt rows', changeMade) := by
  apply rewrite_withChild rfl
  have haggr : rewrite (.withChild (.aggr stmt.aggrUnits) rows) =
      .ok (.withChild (.aggr stmt.aggrUnits) rows', changeMade) := rewrite_withChild rfl hrows
  have hhaving : rewrite (filterNode lib stmt.havingUnits
        (.withChild (.aggr stmt.aggrUnits) rows)) =
      .ok (filterNode lib stmt.havingUnits (.withChild (.aggr stmt.aggrUnits) rows'),
        changeMade) := by
    unfold filterNode
    split_ifs
    · exact haggr
    · exact rewrite_withChild rfl haggr
  unfold planOrder
  split_ifs
  · exact hhaving
  · exact rewrite_withChild rfl hhaving

/-! ## The run of the plan -/

/-- What an operator gives: the row or, when `b` is false, none before the end or a failure. -/
def OneRow (t : Tuple) (b : Bool) (events : List Event) : Prop :=
  (b = true ∧ events = [.row t t]) ∨ (b = false ∧ (events = [] ∨ ∃ f, events = [.failed f]))

section Run

variable {std : StdSort.Sorter (List Value × ℕ)} {db : Database} {t : Tuple} {b : Bool}
  {events : List Event}

theorem planEvents_filterNode {root : LogicalNode Tuple}
    (hroot : planEvents std lib db root = .ok ⟨[.row t t], some t⟩) :
    ∃ events, planEvents std lib db (filterNode lib filter root) = .ok ⟨events, some t⟩ ∧
      OneRow t ((filterExpr lib filter).truth lib t) events := by
  unfold filterNode
  by_cases hempty : filter.conditions.isEmpty
  · have htrue : (filterExpr lib filter).truth lib t = true := by
      rw [filterExpr, List.isEmpty_iff.mp hempty]
      rfl
    rw [if_pos hempty, htrue]
    exact ⟨_, hroot, .inl ⟨rfl, rfl⟩⟩
  · rw [if_neg hempty, planEvents, hroot]
    refine ⟨_, rfl, ?_⟩
    change OneRow t _ (predicateEvents lib (filterExpr lib filter) [.row t t])
    rw [predicateEvents, Expression.truth]
    cases (filterExpr lib filter).getValue lib t with
    | error f => exact .inr ⟨rfl, .inr ⟨f, rfl⟩⟩
    | ok value =>
      dsimp only
      cases value.getBoolean lib with
      | true => exact .inl ⟨rfl, rfl⟩
      | false => exact .inr ⟨rfl, .inl rfl⟩

def SortsOneRow (std : StdSort.Sorter (List Value × ℕ)) : Prop :=
  ∀ lt row, std.sort lt [row] = [row]

theorem orderEvents_oneRow (hsort : SortsOneRow std) (units : List (OrderByUnit Tuple))
    (h : OneRow t b events) :
    OneRow t b (orderEvents std lib units ⟨events, some t⟩) := by
  have hnone : OrderPhysicalOperator.sortedRows std lib (orderUnitsOfCalls units) [] = [] :=
    sortedRows_nil _
  rcases h with ⟨rfl, rfl⟩ | ⟨rfl, rfl | ⟨f, rfl⟩⟩
  · have hone : OrderPhysicalOperator.sortedRows std lib (orderUnitsOfCalls units) [(t, t)] =
        [(t, t)] := by
      rw [OrderPhysicalOperator.sortedRows, OrderPhysicalOperator.fetchTable,
        OrderPhysicalOperator.fetchTable, hsort]
      rfl
    refine .inl ⟨rfl, ?_⟩
    change List.map _ (OrderPhysicalOperator.sortedRows std lib _ [(t, t)]) = _
    rw [hone]
    simp
  · refine .inr ⟨rfl, .inl ?_⟩
    change List.map _ (OrderPhysicalOperator.sortedRows std lib _ []) = _
    rw [hnone]
    rfl
  · refine .inr ⟨rfl, ?_⟩
    -- a failure that looks like the end lets the sort go on, with no rows
    by_cases hf : f = .code .recordEof
    · left
      rw [hf]
      change List.map _ (OrderPhysicalOperator.sortedRows std lib _ []) = _
      rw [hnone]
      rfl
    · right
      exact ⟨f, if_pos hf⟩

theorem planEvents_planOrder (hsort : SortsOneRow std) (units : List SortUnit)
    {root : LogicalNode Tuple} (hroot : planEvents std lib db root = .ok ⟨events, some t⟩)
    (h : OneRow t b events) :
    ∃ events', planEvents std lib db (planOrder units root) = .ok ⟨events', some t⟩ ∧
      OneRow t b events' := by
  unfold planOrder
  split_ifs
  · exact ⟨events, hroot, h⟩
  · rw [planEvents, hroot]
    exact ⟨_, rfl, orderEvents_oneRow hsort _ h⟩

theorem resultRows_oneRow (expressions : List (Expression Tuple)) (h : OneRow t b events) :
    ∃ ending, resultRows (projectEvents lib expressions events) =
        (if b then [expressions.map (Expression.getValue lib t)] else [], ending) ∧
      (b = true → ending = .code .recordEof) := by
  rcases h with ⟨rfl, rfl⟩ | ⟨rfl, rfl | ⟨f, rfl⟩⟩
  · exact ⟨_, rfl, fun _ => rfl⟩
  · exact ⟨_, rfl, nofun⟩
  · exact ⟨_, rfl, nofun⟩

end Run

end Analyzer

end TDB
