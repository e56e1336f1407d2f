import TDB.CurrentTuple
import TDB.Optimizer

namespace TDB.Analyzer

open Where (WhereConditions)

/-! ## Statements without aggregates -/

/-- A `SELECT` of expressions over the columns of its first table, as the analyzer builds them. -/
structure SelectStmt.OfRows (stmt : SelectStmt) (entry : String × Recorder.TableMeta) : Prop where
  wellFormed : stmt.WellFormed
  tables : stmt.tables.head? = some entry
  havingComplete : stmt.HavingComplete
  aggrUnits : stmt.aggrUnits = []

/-- The planner finds the aggregates of an expression. -/
theorem StmtExpr.WellFormed.mapM_getAggrExprs {e : StmtExpr} (h : e.WellFormed) :
    ∃ exprs, e.getAggrExprs = .ok exprs ∧ exprs.mapM aggrUnit = .ok e.aggrUnits := by
  induction e with
  | arithmetic label type left right ihl ihr =>
    obtain ⟨-, hl, hr⟩ := h
    obtain ⟨exprs, hexprs, hunits⟩ := ihl hl
    obtain ⟨exprs', hexprs', hunits'⟩ := ihr hr
    refine ⟨exprs ++ exprs', by rw [StmtExpr.getAggrExprs, hexprs, hexprs']; rfl, ?_⟩
    rw [List.mapM_append, hunits, hunits']
    rfl
  | unary label type left ih =>
    obtain ⟨exprs, hexprs, hunits⟩ := ih h.2
    exact ⟨exprs, by rw [StmtExpr.getAggrExprs, hexprs], hunits⟩
  | aggr label aggrType argument =>
    cases argument with
    | field fieldLabel f => exact ⟨[.aggr label aggrType (.field fieldLabel f)], rfl, rfl⟩
    | _ => exact h.elim
  | _ => exact ⟨[], rfl, rfl⟩

theorem eq_nil_of_mapM {α β : Type} {f : α → Except Failure β} {l : List α}
    (h : l.mapM f = .ok []) : l = [] := by
  cases l with
  | nil => rfl
  | cons a l =>
    rw [List.mapM_cons] at h
    obtain ⟨b, -, h⟩ := Expression.exists_of_bind_ok h
    obtain ⟨bs, -, h⟩ := Expression.exists_of_bind_ok h
    cases h

theorem flatten_getAggrExprs {es : List StmtExpr} (h : ∀ e ∈ es, e.WellFormed)
    (hnone : es.flatMap StmtExpr.aggrUnits = []) :
    ∃ lists, es.mapM StmtExpr.getAggrExprs = .ok lists ∧ lists.flatten = [] := by
  induction es with
  | nil => exact ⟨[], rfl, rfl⟩
  | cons e es ih =>
    rw [List.flatMap_cons, List.append_eq_nil_iff] at hnone
    obtain ⟨exprs, hexprs, hunits⟩ := (h e List.mem_cons_self).mapM_getAggrExprs
    rw [hnone.1] at hunits
    obtain rfl := eq_nil_of_mapM hunits
    obtain ⟨lists, hlists, hflat⟩ := ih (fun e' he' => h e' (List.mem_cons_of_mem e he')) hnone.2
    refine ⟨[] :: lists, ?_, hflat⟩
    rw [List.mapM_cons, hexprs, hlists]
    rfl

def rowPlan (lib : StdLib) (stmt : SelectStmt) (table : String) : LogicalNode Tuple :=
  .withChild (.project (stmt.projects.map (StmtExpr.toExpression lib)))
    (planOrder stmt.orderUnits (filterNode lib stmt.havingUnits
      (filterNode lib stmt.filterUnits (.tableGet table []))))

theorem SelectStmt.OfRows.planSelect_eq {stmt : SelectStmt} {entry : String × Recorder.TableMeta}
    (h : stmt.OfRows entry) (lib : StdLib) :
    planSelect lib stmt = .ok (rowPlan lib stmt entry.2.name) := by
  obtain ⟨lists, hlists, hflat⟩ := flatten_getAggrExprs h.wellFormed.projects h.aggrUnits
  obtain ⟨having, hhaving⟩ :=
    (outcome_having h.wellFormed.havingUnits).ok_iff.mpr h.havingComplete
  obtain ⟨tables, htables⟩ := List.head?_eq_some_iff.mp h.tables
  unfold planSelect
  rw [htables]
  dsimp only
  rw [planFilter_eq h.wellFormed.filterUnits]
  change ((stmt.projects.mapM StmtExpr.getAggrExprs) >>= _) = _
  rw [hlists]
  change (planAggr lists.flatten _ >>= _) = _
  rw [hflat]
  change (stmt.havingUnits.conditions.mapM havingAggrExprs >>= _) = _
  rw [hhaving]
  change (planFilter lib stmt.havingUnits _ >>= _) = _
  rw [planFilter_eq h.wellFormed.havingUnits]
  rfl

/-! ## Rows through the operators -/

section Run

variable {std : StdSort.Sorter (List Value × ℕ)} {lib : StdLib} {db : Database}
  {filter : WhereConditions FilterUnit}

def rowEvents (rows : List Tuple) : List Event := rows.map fun row => .row row row

theorem tableScanEvents_nil (rows : List Tuple) : tableScanEvents lib [] rows = rowEvents rows := by
  induction rows with
  | nil => rfl
  | cons row rows ih => exact congrArg (Event.row row row :: ·) ih

theorem FilterUnit.expr_ne_conjunction (lib : StdLib) (unit : FilterUnit)
    (type : Where.ConjunctionType) (es : List (Expression Tuple)) :
    unit.expr lib ≠ .conjunction type es := by
  unfold FilterUnit.expr
  cases unit.right with
  | none => exact fun h => by cases h
  | some right => exact fun h => by cases h

theorem Evaluates.defined {row : Tuple} (h : Evaluates lib filter row) :
    Defined lib row (filterExpr lib filter) := by
  refine .conjunction fun e he => ?_
  obtain ⟨unit, hunit, rfl⟩ := List.mem_map.mp he
  obtain ⟨v, hv⟩ := h unit hunit
  exact .leaf (FilterUnit.expr_ne_conjunction lib unit) hv

theorem predicateEvents_rowEvents {e : Expression Tuple} {rows : List Tuple}
    (h : ∀ row ∈ rows, Defined lib row e) :
    predicateEvents lib e (rowEvents rows) =
      rowEvents (rows.filter fun row => e.truth lib row) := by
  induction rows with
  | nil => rfl
  | cons row rows ih =>
    obtain ⟨v, hv⟩ := (h row List.mem_cons_self).exists_value
    have htruth : e.truth lib row = v.getBoolean lib := by
      rw [Expression.truth, hv]
    have htail := ih fun row' hrow' => h row' (List.mem_cons_of_mem row hrow')
    change predicateEvents lib e (.row row row :: rowEvents rows) = _
    rw [predicateEvents, hv, List.filter_cons, htruth, htail]
    dsimp only
    cases v.getBoolean lib <;> rfl

theorem planEvents_filterNode_rows {root : LogicalNode Tuple} {rows : List Tuple}
    {last : Option Tuple} (hroot : planEvents std lib db root = .ok ⟨rowEvents rows, last⟩)
    (h : ∀ row ∈ rows, Evaluates lib filter row) :
    planEvents std lib db (filterNode lib filter root) =
      .ok ⟨rowEvents (passingRows lib filter rows), last⟩ := by
  unfold filterNode
  by_cases hempty : filter.conditions.isEmpty
  · have hall : passingRows lib filter rows = rows := by
      apply List.filter_eq_self.mpr
      intro row hrow
      rw [filterExpr, List.isEmpty_iff.mp hempty]
      rfl
    rw [if_pos hempty, hroot, hall]
  · have hevents := predicateEvents_rowEvents fun row hrow => (h row hrow).defined
    rw [if_neg hempty, planEvents, hroot]
    exact congrArg (fun events => Except.ok (EventStream.mk events last)) hevents

def sortKeys (orderUnits : List SortUnit) : List (OrderByUnit Tuple) :=
  orderUnits.map fun unit => ⟨unit.isAsc, fun tuple =>
    match unit.field.getValue tuple with
    | .ok v => v
    | .error _ => .undefined⟩

theorem drainEvents_rowEvents (rows : List Tuple) :
    drainEvents (rowEvents rows) = { rows := rows.map fun row => (row, row) } := by
  induction rows with
  | nil => rfl
  | cons row rows ih =>
    change drainEvents (.row row row :: rowEvents rows) = _
    rw [drainEvents, ih]
    rfl

theorem orderEvents_rowEvents {units : List (OrderByUnit Tuple)} (hunits : units ≠ [])
    (rows : List Tuple) (last : Option Tuple) :
    orderEvents std lib units ⟨rowEvents rows, last⟩ =
      (OrderPhysicalOperator.sortedRows std lib units rows).map fun row =>
        .row row (last.getD row) := by
  unfold orderEvents
  rw [drainEvents_rowEvents]
  dsimp only
  rw [if_neg (by simp), OrderedScan.sortedRows_orderUnitsOfCalls, List.map_map]
  apply List.map_congr_left
  intro row hrow
  have hne : units.isEmpty = false := List.isEmpty_eq_false_iff.mpr hunits
  simp only [Function.comp_apply, hne, if_false, Bool.false_eq_true]

/-- The rows that are sent for rows whose first reading is known. -/
theorem resultRows_project (expressions : List (Expression Tuple)) (rows : List Tuple)
    (later : Tuple → Tuple) :
    resultRows (projectEvents lib expressions (rows.map fun row => .row row (later row))) =
      (rows.map fun row => expressions.map (Expression.getValue lib row), .code .recordEof) := by
  induction rows with
  | nil => rfl
  | cons row rows ih =>
    change resultRows (.row _ _ :: projectEvents lib expressions
      (rows.map fun row => .row row (later row))) = _
    rw [resultRows, ih]
    rfl

def orderedRows (std : StdSort.Sorter (List Value × ℕ)) (lib : StdLib) (orderUnits : List SortUnit)
    (rows : List Tuple) : List Tuple :=
  if orderUnits.isEmpty then rows
  else OrderPhysicalOperator.sortedRows std lib (sortKeys orderUnits) rows

theorem planEvents_planOrder_rows (orderUnits : List SortUnit) {root : LogicalNode Tuple}
    {rows : List Tuple} {last : Option Tuple}
    (hroot : planEvents std lib db root = .ok ⟨rowEvents rows, last⟩) :
    ∃ later : Tuple → Tuple, planEvents std lib db (planOrder orderUnits root) =
      .ok ⟨(orderedRows std lib orderUnits rows).map fun row => .row row (later row), last⟩ := by
  unfold planOrder orderedRows
  by_cases hempty : orderUnits.isEmpty
  · rw [if_pos hempty, if_pos hempty]
    exact ⟨id, hroot⟩
  · rw [if_neg hempty, if_neg hempty]
    have hunits : sortKeys orderUnits ≠ [] := by
      rw [sortKeys, ne_eq, List.map_eq_nil_iff]
      exact fun hnil => hempty (List.isEmpty_iff.mpr hnil)
    have hevents := @orderEvents_rowEvents std lib _ hunits rows last
    refine ⟨fun row => last.getD row, ?_⟩
    rw [planEvents, hroot]
    exact congrArg (fun events => Except.ok (EventStream.mk events last)) hevents

end Run

/-! ## The result -/

section Result

variable {std : StdSort.Sorter (List Value × ℕ)} {lib : StdLib} {db : Database}
  {stmt : SelectStmt} {entry : String × Recorder.TableMeta}

def SelectStmt.selectedRows (lib : StdLib) (stmt : SelectStmt) (rows : List Tuple) : List Tuple :=
  passingRows lib stmt.havingUnits (passingRows lib stmt.filterUnits rows)

def SelectStmt.Sortable (stmt : SelectStmt) (rows : List Tuple) : Prop :=
  ∃ types : List AttrType,
    (∀ row ∈ rows, List.Forall₂ KeyCell types (keyCells (sortKeys stmt.orderUnits) row)) ∧
    ∀ row ∈ rows, ∀ row' ∈ rows, RowsComparable (keyCells (sortKeys stmt.orderUnits) row)
      (keyCells (sortKeys stmt.orderUnits) row')

/-- The filters of the plan that stand over a scan have values. -/
theorem filtersDefined_rowPlan {table : String}
    (hwhere : ∀ row ∈ db table, Evaluates lib stmt.filterUnits row)
    (hhaving : ∀ row ∈ passingRows lib stmt.filterUnits (db table),
      Evaluates lib stmt.havingUnits row) :
    FiltersDefined lib db (rowPlan lib stmt table) := by
  have hscan : FiltersDefined lib db (filterNode lib stmt.havingUnits
      (filterNode lib stmt.filterUnits (.tableGet table []))) := by
    by_cases hempty : stmt.filterUnits.conditions.isEmpty
    · -- without a `WHERE` clause the other clause comes to stand over the scan
      have hall : passingRows lib stmt.filterUnits (db table) = db table := by
        apply List.filter_eq_self.mpr
        intro row hrow
        rw [filterExpr, List.isEmpty_iff.mp hempty]
        rfl
      rw [hall] at hhaving
      have hnode : filterNode lib stmt.filterUnits (.tableGet table []) = .tableGet table [] := by
        rw [filterNode, if_pos hempty]
      rw [hnode, filterNode]
      split_ifs
      · exact trivial
      · exact ⟨rfl, fun row hrow => (hhaving row hrow).defined⟩
    · have hnode : filterNode lib stmt.filterUnits (.tableGet table []) =
          .withChild (.predicate (filterExpr lib stmt.filterUnits)) (.tableGet table []) := by
        rw [filterNode, if_neg hempty]
        rfl
      have hbelow : FiltersDefined lib db
          (filterNode lib stmt.filterUnits (.tableGet table [])) := by
        rw [hnode]
        exact ⟨rfl, fun row hrow => (hwhere row hrow).defined⟩
      rw [hnode] at hbelow ⊢
      rw [filterNode]
      split_ifs
      · exact hbelow
      · exact hbelow
  change FiltersDefined lib db (planOrder stmt.orderUnits _)
  unfold planOrder
  split_ifs
  · exact hscan
  · exact hscan

theorem queryResult_rowPlan {table : String}
    (hwhere : ∀ row ∈ db table, Evaluates lib stmt.filterUnits row)
    (hhaving : ∀ row ∈ passingRows lib stmt.filterUnits (db table),
      Evaluates lib stmt.havingUnits row) :
    queryResult std lib db (rowPlan lib stmt table) =
      ((orderedRows std lib stmt.orderUnits (stmt.selectedRows lib (db table))).map
        fun row => stmt.projects.map (StmtExpr.getValue lib row), .code .recordEof) := by
  have hscan : planEvents std lib db (.tableGet table []) =
      .ok ⟨rowEvents (db table), (db table).getLast?⟩ := by
    rw [planEvents, tableScanEvents_nil]
  have hfiltered := planEvents_filterNode_rows (planEvents_filterNode_rows hscan hwhere) hhaving
  obtain ⟨later, hordered⟩ := planEvents_planOrder_rows stmt.orderUnits hfiltered
  have hcells : ∀ row, (stmt.projects.map (StmtExpr.toExpression lib)).map
      (Expression.getValue lib row) = stmt.projects.map (StmtExpr.getValue lib row) := by
    intro row
    rw [List.map_map]
    apply List.map_congr_left
    intro e he
    exact StmtExpr.getValue_toExpression lib e row
  rw [queryResult, rowPlan, planEvents, hordered]
  change resultRows (projectEvents lib _ _) = _
  rw [resultRows_project]
  simp only [hcells]
  rfl

/-- With keys that the comparator orders, a correct `std::sort` leaves no row behind one that has to
follow it. -/
theorem sortedRows_pairwise {units : List (OrderByUnit Tuple)} {types : List AttrType}
    {rows : List Tuple} (htypes : ∀ row ∈ rows, List.Forall₂ KeyCell types (keyCells units row))
    (hcomp : ∀ row ∈ rows, ∀ row' ∈ rows,
      RowsComparable (keyCells units row) (keyCells units row')) :
    (OrderPhysicalOperator.sortedRows std lib units rows).Pairwise fun row row' =>
      ¬RowLt (units.map OrderByUnit.sortType) (keyCells units row') (keyCells units row) := by
  have hweak : StdSort.StrictWeakOn (OrderPhysicalOperator.cmp lib units)
      (OrderPhysicalOperator.fetchTable units 0 rows) :=
    OrderPhysicalOperator.strictWeakOn_cmp htypes hcomp
  have hperm := std.perm _ _ hweak
  rw [OrderPhysicalOperator.sortedRows, List.pairwise_filterMap]
  apply (std.sorted _ _ hweak).imp_of_mem
  intro p q hp hq hqp row hrow row' hrow'
  rw [hperm.mem_iff] at hp hq
  have hlt := @OrderPhysicalOperator.cmp_iff _ _ _ _ lib htypes hcomp q p hq hp
  -- the table remembers the keys of the row at each index
  obtain ⟨i, found, hfound, rfl⟩ := OrderPhysicalOperator.mem_fetchTable.mp hp
  obtain ⟨j, found', hfound', rfl⟩ := OrderPhysicalOperator.mem_fetchTable.mp hq
  rw [Nat.zero_add] at hrow hrow'
  obtain rfl := Option.some.inj (hfound.symm.trans hrow)
  obtain rfl := Option.some.inj (hfound'.symm.trans hrow')
  rw [hqp] at hlt
  exact fun h => Bool.false_ne_true (hlt.mpr h)

theorem orderedRows_sorted {rows : List Tuple} (h : stmt.Sortable rows) :
    (orderedRows std lib stmt.orderUnits rows).Perm rows ∧
      (orderedRows std lib stmt.orderUnits rows).Pairwise fun row row' =>
        ¬RowLt (stmt.orderUnits.map SortUnit.isAsc)
          (keyCells (sortKeys stmt.orderUnits) row') (keyCells (sortKeys stmt.orderUnits) row) := by
  obtain ⟨types, htypes, hcomp⟩ := h
  have hasc : (sortKeys stmt.orderUnits).map OrderByUnit.sortType =
      stmt.orderUnits.map SortUnit.isAsc := by
    rw [sortKeys, List.map_map]
    rfl
  unfold orderedRows
  by_cases hempty : stmt.orderUnits.isEmpty
  · rw [if_pos hempty, List.isEmpty_iff.mp hempty]
    exact ⟨List.Perm.refl rows, List.pairwise_of_forall fun row row' => id⟩
  · have hpairwise := @sortedRows_pairwise std lib _ types rows htypes hcomp
    rw [hasc] at hpairwise
    rw [if_neg hempty]
    exact ⟨OrderPhysicalOperator.sortedRows_perm
      (OrderPhysicalOperator.strictWeakOn_cmp htypes hcomp), hpairwise⟩

end Result

/-- A `SELECT` without aggregates from its plan over the rewriter to its result: it ends with
`RECORD_EOF` and gives the projections of exactly the rows of its first table on which both clauses
are true, each as often as it is in the table, with no row before one that sorts before it; without
`ORDER BY` they keep the order of the table. -/
theorem select_gives_rows (std : StdSort.Sorter (List Value × ℕ)) (lib : StdLib) (db : Database)
    {stmt : SelectStmt} {entry : String × Recorder.TableMeta} (h : stmt.OfRows entry)
    (hpush : Pushable stmt.filterUnits)
    (hwhere : ∀ row ∈ db entry.2.name, Evaluates lib stmt.filterUnits row)
    (hhaving : ∀ row ∈ passingRows lib stmt.filterUnits (db entry.2.name),
      Evaluates lib stmt.havingUnits row)
    (hkeys : stmt.Sortable (stmt.selectedRows lib (db entry.2.name))) :
    ∃ rows : List Tuple, stmt.execute std lib db =
        .ok (rows.map fun row => stmt.projects.map (StmtExpr.getValue lib row),
          .code .recordEof) ∧
      rows.Perm (stmt.selectedRows lib (db entry.2.name)) ∧
      (rows.Pairwise fun row row' => ¬RowLt (stmt.orderUnits.map SortUnit.isAsc)
        (keyCells (sortKeys stmt.orderUnits) row') (keyCells (sortKeys stmt.orderUnits) row)) ∧
      (stmt.orderUnits = [] → rows = stmt.selectedRows lib (db entry.2.name)) := by
  have hplan := h.planSelect_eq lib
  obtain ⟨plan', hrun⟩ := (outcome_planSelect lib h.wellFormed).ok_iff.mpr ⟨h.havingComplete, hpush⟩
  rw [hplan] at hrun
  change (rewrite _ >>= _) = _ at hrun
  obtain ⟨⟨rewritten, changeMade⟩, hrewrite, -⟩ := Expression.exists_of_bind_ok hrun
  have hsame : queryResult std lib db rewritten =
      queryResult std lib db (rowPlan lib stmt entry.2.name) := by
    rw [queryResult, queryResult,
      planEvents_rewrite hrewrite (filtersDefined_rowPlan hwhere hhaving)]
  obtain ⟨hperm, hsorted⟩ := @orderedRows_sorted std lib stmt _ hkeys
  refine ⟨_, ?_, hperm, hsorted, ?_⟩
  · rw [SelectStmt.execute, hplan]
    change (rewrite _ >>= _) = _
    rw [hrewrite]
    change Except.ok (queryResult std lib db rewritten) = _
    rw [hsame, queryResult_rowPlan hwhere hhaving]
  · intro hnil
    rw [orderedRows, hnil]
    rfl

/-- `SELECT x FROM t WHERE x > 1 ORDER BY x DESC`, as the analyzer builds it. -/
def largeStmt : SelectStmt where
  queryFields := [fieldX]
  projects := [.field ⟨"x", ""⟩ fieldX]
  tables := [("t", intTable)]
  filterUnits := ⟨.and, [⟨.greatThan, .field ⟨"x", ""⟩ fieldX, some (.value ⟨"1", ""⟩ (.ints 1))⟩]⟩
  groupBy := none
  havingUnits := ⟨.and, []⟩
  orderUnits := [⟨fieldX, false⟩]
  joinFilters := []

def threeInts : Database := fun _ => [2, 1, 3].map fun n => constantRow (.ints n)

theorem select_gives_rows_three_ints :
    ∃ rows : List Tuple, largeStmt.execute StdSort.mergeSorter plainLib threeInts =
        .ok (rows.map fun row => largeStmt.projects.map (StmtExpr.getValue plainLib row),
          .code .recordEof) ∧
      rows.Perm [constantRow (.ints 2), constantRow (.ints 3)] := by
  have hrows : ∀ row ∈ threeInts "t", ∃ n : Int32, row = constantRow (.ints n) := by
    intro row hrow
    obtain ⟨n, -, rfl⟩ := List.mem_map.mp hrow
    exact ⟨n, rfl⟩
  have hstmt : largeStmt.OfRows ("t", intTable) :=
    ⟨⟨List.cons_ne_nil _ _, List.forall_mem_singleton.mpr trivial,
        List.forall_mem_singleton.mpr ⟨trivial, fun right hright => by cases hright; trivial⟩,
        List.forall_mem_nil _⟩, rfl, List.forall_mem_nil _, rfl⟩
  have hpush : Pushable largeStmt.filterUnits :=
    fun _ => List.forall_mem_singleton.mpr fun hright => by cases hright
  have hwhere : ∀ row ∈ threeInts "t", Evaluates plainLib largeStmt.filterUnits row := by
    intro row hrow
    obtain ⟨n, rfl⟩ := hrows row hrow
    exact List.forall_mem_singleton.mpr ⟨_, rfl⟩
  have hselected : largeStmt.selectedRows plainLib (threeInts "t") =
      [constantRow (.ints 2), constantRow (.ints 3)] := rfl
  have hcell : ∀ n : Int32, keyCells (sortKeys largeStmt.orderUnits) (constantRow (.ints n)) =
      [.ints n] := fun n => rfl
  have hkeys : largeStmt.Sortable [constantRow (.ints 2), constantRow (.ints 3)] := by
    refine ⟨[.ints], ?_, ?_⟩
    · intro row hrow
      simp only [List.mem_cons, List.not_mem_nil, or_false] at hrow
      rcases hrow with rfl | rfl <;> exact .cons rfl .nil
    · intro row hrow row' hrow'
      simp only [List.mem_cons, List.not_mem_nil, or_false] at hrow hrow'
      rcases hrow with rfl | rfl <;> rcases hrow' with rfl | rfl <;>
        simp [hcell, RowsComparable, CellsComparable]
  rw [← hselected] at hkeys
  obtain ⟨rows, hexecute, hperm, -⟩ := select_gives_rows StdSort.mergeSorter plainLib threeInts
    hstmt hpush hwhere (fun _ _ => List.forall_mem_nil _) hkeys
  exact ⟨rows, hexecute, hselected ▸ hperm⟩

end TDB.Analyzer
