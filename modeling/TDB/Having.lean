import TDB.AggregatePlan

namespace TDB

variable {S T : Type} {lib : StdLib}

namespace Analyzer

open Where (ConjunctionType WhereConditions)
open Expression (exists_of_bind_ok)

variable {filter : WhereConditions FilterUnit} {row : Tuple} {stmt : SelectStmt}
  {entry : String × Recorder.TableMeta}

/-! ## The result -/

def SelectStmt.execute (std : StdSort.Sorter (List Value × ℕ)) (lib : StdLib) (db : Database)
    (stmt : SelectStmt) : Except Failure (List (List (Except Failure Value)) × Failure) := do
  let plan ← planSelect lib stmt
  let (plan, _) ← rewrite plan
  return queryResult std lib db plan

def SelectStmt.resultRow (lib : StdLib) (stmt : SelectStmt) (values : AggrValues) :
    List (Except Failure Value) :=
  stmt.projects.map (StmtExpr.evaluate lib values)

theorem SelectStmt.OfAggregates.resultRow_computed (h : stmt.OfAggregates entry) (lib : StdLib)
    (values : AggrValues) :
    stmt.resultRow lib (computed stmt.aggrUnits values) = stmt.resultRow lib values := by
  apply List.map_congr_left
  intro e he
  apply (h.projects e he).evaluate_congr
  intro unit hunit
  have hmem : unit ∈ stmt.aggrUnits := List.mem_flatMap.mpr ⟨e, he, hunit⟩
  exact if_pos (List.mem_map_of_mem hmem)

/-- What a `SELECT` of aggregates gives: its row, if the formula is true for the aggregates that
were computed. -/
theorem execute_ofAggregates {std : StdSort.Sorter (List Value × ℕ)} {db : Database}
    (h : stmt.OfAggregates entry) (hpush : Pushable stmt.filterUnits) (hsort : SortsOneRow std)
    (hwhere : ∀ row ∈ db entry.2.name, Evaluates lib stmt.filterUnits row)
    (hfinds : ∀ row ∈ db entry.2.name, ∀ unit ∈ stmt.aggrUnits, unit.Finds row) :
    let values := valuesOver lib (passingRows lib stmt.filterUnits (db entry.2.name))
    let holds := (havingFormula lib stmt.havingUnits).truth lib (computed stmt.aggrUnits values)
    ∃ ending, stmt.execute std lib db =
        .ok (if holds then [stmt.resultRow lib values] else [], ending) ∧
      (holds = true → ending = .code .recordEof) := by
  intro values holds
  obtain ⟨node, changeMade, hrewrite, hnode⟩ := rewrite_where lib hpush entry.2.name
  obtain ⟨last, hrows⟩ := hnode std db hwhere
  set rows := passingRows lib stmt.filterUnits (db entry.2.name) with hdef
  set t := aggrTuple stmt.aggrUnits (stmt.aggrUnits.map values) with ht
  have haggr : planEvents std lib db (.withChild (.aggr stmt.aggrUnits) node) =
      .ok ⟨[.row t t], some t⟩ := by
    have hevents := @aggrEvents_init lib stmt.aggrUnits (rows.map fun row => (row, row)) (by
      intro p hp
      obtain ⟨row, hrow, rfl⟩ := List.mem_map.mp hp
      exact hfinds row (List.mem_of_mem_filter hrow))
    simp only [List.map_map, Function.comp_def, List.map_id'] at hevents
    rw [planEvents, hrows]
    change Except.ok (EventStream.mk (aggrEvents lib stmt.aggrUnits
      (stmt.aggrUnits.map fun _ => {}) true false (rows.map fun row => .row row row)) _) = _
    rw [hevents]
    rfl
  -- from the aggregation on there is one row at most
  obtain ⟨events, hevents, hone⟩ := @planEvents_filterNode lib stmt.havingUnits std db t _ haggr
  obtain ⟨events', hevents', hone'⟩ :=
    planEvents_planOrder hsort stmt.orderUnits hevents hone
  have htruth : (filterExpr lib stmt.havingUnits).truth lib t = holds :=
    truth_aggrTuple h.havingUnits (h.texts.mono (List.subset_append_right _ _)) lib values
  rw [htruth] at hone'
  obtain ⟨ending, hresult, hending⟩ :=
    @resultRows_oneRow lib t _ _ (stmt.projects.map (StmtExpr.toExpression lib)) hone'
  have hcells : (stmt.projects.map (StmtExpr.toExpression lib)).map (Expression.getValue lib t) =
      stmt.resultRow lib values := by
    rw [← h.resultRow_computed, SelectStmt.resultRow, List.map_map]
    apply List.map_congr_left
    intro e he
    rw [Function.comp_apply, StmtExpr.getValue_toExpression]
    apply (h.projects e he).getValue_aggrTuple
    apply h.texts.mono
    intro unit hunit
    exact List.mem_append_left _ (List.mem_flatMap.mpr ⟨e, he, hunit⟩)
  refine ⟨ending, ?_, hending⟩
  rw [SelectStmt.execute, h.planSelect_eq]
  change (rewrite _ >>= _) = _
  rw [rewrite_aggregatePlan hrewrite]
  change Except.ok (queryResult std lib db (aggregatePlan lib stmt node)) = _
  rw [queryResult, aggregatePlan, planEvents, hevents']
  change Except.ok (resultRows (projectEvents lib _ events')) = _
  rw [hresult, hcells]

/-- The planner and the rewriter give a plan exactly when the `WHERE` clause can be pushed down; else
the rewriter reads a null pointer. -/
theorem SelectStmt.OfAggregates.pushable_iff (h : stmt.OfAggregates entry) (lib : StdLib) :
    Pushable stmt.filterUnits ↔
      ∃ plan, (planSelect lib stmt >>= fun plan => rewrite plan >>= fun r => .ok r.1) =
        .ok plan := by
  rw [(outcome_planSelect lib h.wellFormed).ok_iff]
  exact (and_iff_right h.havingComplete).symm

/-- The row is returned exactly when the formula is true for the aggregates that were computed. -/
theorem execute_returns_row_iff {std : StdSort.Sorter (List Value × ℕ)} {db : Database}
    (h : stmt.OfAggregates entry) (hsort : SortsOneRow std)
    (hwhere : ∀ row ∈ db entry.2.name, Evaluates lib stmt.filterUnits row)
    (hfinds : ∀ row ∈ db entry.2.name, ∀ unit ∈ stmt.aggrUnits, unit.Finds row) :
    let values := valuesOver lib (passingRows lib stmt.filterUnits (db entry.2.name))
    stmt.execute std lib db = .ok ([stmt.resultRow lib values], .code .recordEof) ↔
      Pushable stmt.filterUnits ∧
        (havingFormula lib stmt.havingUnits).truth lib (computed stmt.aggrUnits values) = true := by
  intro values
  by_cases hpush : Pushable stmt.filterUnits
  · obtain ⟨ending, hexecute, hending⟩ := execute_ofAggregates h hpush hsort hwhere hfinds
    constructor
    · intro hreturned
      refine ⟨hpush, ?_⟩
      by_contra hholds
      rw [hexecute, if_neg hholds] at hreturned
      cases congrArg Prod.fst (Except.ok.inj hreturned)
    · rintro ⟨-, hholds⟩
      rw [hexecute, if_pos hholds, hending hholds]
  · refine iff_of_false ?_ fun hboth => hpush hboth.1
    intro hreturned
    obtain ⟨plan, hplan, hrest⟩ := exists_of_bind_ok hreturned
    obtain ⟨r, hr, -⟩ := exists_of_bind_ok hrest
    apply hpush
    rw [h.pushable_iff lib, hplan]
    refine ⟨r.1, ?_⟩
    change (rewrite plan >>= fun r => .ok r.1) = .ok r.1
    rw [hr]
    rfl

/-! ## The aggregates that are looked up -/

/-- The conditions of a `HAVING` clause that are evaluated for some values of the aggregates. -/
def SelectStmt.metUnits (stmt : SelectStmt) (lib : StdLib) (values : AggrValues) :
    List FilterUnit :=
  Expression.evaluated lib stmt.havingUnits.type
    (fun unit => (unit.formula lib).getValue lib values) stmt.havingUnits.conditions

/-- Every aggregate that the evaluation of the `HAVING` clause meets is projected, under the same
text. -/
def SelectStmt.MetProjected (stmt : SelectStmt) (lib : StdLib) (values : AggrValues) : Prop :=
  ∀ unit ∈ stmt.metUnits lib values, ∀ aggr ∈ unit.aggrUnits,
    aggr.aliasName ∈ stmt.aggrUnits.map AggrUnit.aliasName

/-- Every aggregate that the predicate of the `HAVING` clause looks up in the row is found. -/
def SelectStmt.LookupsFound (stmt : SelectStmt) (lib : StdLib) (row : Tuple) : Prop :=
  ∀ unit ∈ Expression.evaluated lib stmt.havingUnits.type
      (fun unit => (unit.expr lib).getValue lib row) stmt.havingUnits.conditions,
    ∀ aggr ∈ unit.aggrUnits, ∃ v, row.findCell ⟨"", "", aggr.aliasName⟩ = .ok v

section Met

variable {values : AggrValues}

/-- The predicate meets what the formula meets over the values that were computed. -/
theorem SelectStmt.OfAggregates.evaluated_aggrTuple (h : stmt.OfAggregates entry)
    (values : AggrValues) :
    Expression.evaluated lib stmt.havingUnits.type
        (fun unit => (unit.expr lib).getValue lib
          (aggrTuple stmt.aggrUnits (stmt.aggrUnits.map values))) stmt.havingUnits.conditions =
      stmt.metUnits lib (computed stmt.aggrUnits values) := by
  apply Expression.evaluated_congr
  intro unit hmet
  have hunit : unit ∈ stmt.havingUnits.conditions := Expression.evaluated_subset _ _ hmet
  symm
  apply (h.havingUnits unit hunit).getValue_aggrTuple
  apply h.texts.mono
  intro aggr haggr
  exact List.mem_append_right _ (List.mem_flatMap.mpr ⟨unit, hunit, haggr⟩)

/-- Conditions over computed aggregates only do not tell the values apart. -/
theorem SelectStmt.OfAggregates.getValue_computed (h : stmt.OfAggregates entry)
    {unit : FilterUnit} (hunit : unit ∈ stmt.havingUnits.conditions)
    (hprojected : ∀ aggr ∈ unit.aggrUnits, aggr.aliasName ∈ stmt.aggrUnits.map AggrUnit.aliasName) :
    (unit.formula lib).getValue lib (computed stmt.aggrUnits values) =
      (unit.formula lib).getValue lib values := by
  apply (h.havingUnits unit hunit).getValue_formula_congr
  intro aggr haggr
  exact if_pos (hprojected aggr haggr)

/-- It does not matter whether the true values or the computed ones decide what is met. -/
theorem SelectStmt.OfAggregates.metProjected_computed (h : stmt.OfAggregates entry) :
    stmt.MetProjected lib (computed stmt.aggrUnits values) ↔ stmt.MetProjected lib values := by
  constructor
  · intro hmet
    have hunits : stmt.metUnits lib values = stmt.metUnits lib (computed stmt.aggrUnits values) :=
      Expression.evaluated_congr fun unit hunit =>
        h.getValue_computed (Expression.evaluated_subset _ _ hunit) (hmet unit hunit)
    unfold SelectStmt.MetProjected
    rw [hunits]
    exact hmet
  · intro hmet
    have hunits : stmt.metUnits lib (computed stmt.aggrUnits values) = stmt.metUnits lib values :=
      Expression.evaluated_congr fun unit hunit =>
        (h.getValue_computed (Expression.evaluated_subset _ _ hunit) (hmet unit hunit)).symm
    unfold SelectStmt.MetProjected
    rw [hunits]
    exact hmet

/-- Lookups fail for the aggregates that are not projected, and for no others. -/
theorem SelectStmt.OfAggregates.lookupsFound_iff (h : stmt.OfAggregates entry)
    (values : AggrValues) :
    stmt.LookupsFound lib (aggrTuple stmt.aggrUnits (stmt.aggrUnits.map values)) ↔
      stmt.MetProjected lib values := by
  rw [← h.metProjected_computed]
  unfold SelectStmt.LookupsFound SelectStmt.MetProjected
  rw [h.evaluated_aggrTuple]
  apply forall₂_congr
  intro unit hmet
  apply forall₂_congr
  intro aggr haggr
  have hunit : unit ∈ stmt.havingUnits.conditions := Expression.evaluated_subset _ _ hmet
  have htexts : TextsDetermine stmt.aggrUnits [aggr] := by
    apply h.texts.mono
    rintro other hother
    obtain rfl := List.mem_singleton.mp hother
    exact List.mem_append_right _ (List.mem_flatMap.mpr ⟨unit, hunit, haggr⟩)
  rw [findCell_aggrTuple htexts values]
  split_ifs with hprojected
  · exact iff_of_true ⟨_, rfl⟩ hprojected
  · exact iff_of_false (by rintro ⟨v, hv⟩; cases hv) hprojected

/-- With the aggregates it meets in the projection, the formula has its value. -/
theorem SelectStmt.OfAggregates.truth_computed (h : stmt.OfAggregates entry)
    (hmet : stmt.MetProjected lib values) :
    (havingFormula lib stmt.havingUnits).truth lib (computed stmt.aggrUnits values) =
      (havingFormula lib stmt.havingUnits).truth lib values := by
  symm
  apply Expression.truth_congr
  apply Expression.getValue_conjunction_congr
  intro unit hunit
  exact (h.getValue_computed (Expression.evaluated_subset _ _ hunit) (hmet unit hunit)).symm

end Met

/-- The row of a `SELECT` of aggregates is returned exactly when its `HAVING` formula is true for
the aggregates over the rows that pass the `WHERE` clause, if the clause can be pushed down and
every aggregate that the evaluation meets is projected.  These are the statements that get through
the planner without a null pointer and through the predicate without a lookup that fails. -/
theorem having_returns_row_of_met (std : StdSort.Sorter (List Value × ℕ)) (lib : StdLib)
    (db : Database) {stmt : SelectStmt} {entry : String × Recorder.TableMeta}
    (h : stmt.OfAggregates entry) (hsort : SortsOneRow std)
    (hwhere : ∀ row ∈ db entry.2.name, Evaluates lib stmt.filterUnits row)
    (hfinds : ∀ row ∈ db entry.2.name, ∀ unit ∈ stmt.aggrUnits, unit.Finds row) :
    let values := valuesOver lib (passingRows lib stmt.filterUnits (db entry.2.name))
    let row := aggrTuple stmt.aggrUnits (stmt.aggrUnits.map values)
    (Pushable stmt.filterUnits ∧ stmt.MetProjected lib values →
      (stmt.execute std lib db = .ok ([stmt.resultRow lib values], .code .recordEof) ↔
        (havingFormula lib stmt.havingUnits).truth lib values = true)) ∧
    (Pushable stmt.filterUnits ∧ stmt.MetProjected lib values ↔
      (∃ plan, (planSelect lib stmt >>= fun plan => rewrite plan >>= fun r => .ok r.1) =
          .ok plan) ∧
        stmt.LookupsFound lib row) := by
  intro values row
  constructor
  · rintro ⟨hpush, hmet⟩
    rw [← h.truth_computed hmet]
    exact (execute_returns_row_iff h hsort hwhere hfinds).trans (and_iff_right hpush)
  · rw [h.lookupsFound_iff values, h.pushable_iff lib]

def sumMaxSelect : SelectSqlNode where
  attributes := [.aggr ⟨"COUNT(*)", ""⟩ .count (.relAttr ⟨"", ""⟩ ⟨"", "*"⟩)]
  relations := [⟨"t", ""⟩]
  joinConditions := []
  whereConditions := ⟨.and, []⟩
  groupByAttributes := []
  havingConditions := ⟨.and, [⟨.aggr ⟨"SUM(x)", ""⟩ .sum attributeX, .equalTo,
    some (.aggr ⟨"MAX(x)", ""⟩ .max attributeX)⟩]⟩
  orderLists := []

def fieldX : Field := ⟨intTable, ⟨"x", .ints, 0, 4, false, true⟩, "t"⟩

def fieldStar : Field := ⟨intTable, ⟨"*", .ints, 0, 1, true, true⟩, "t"⟩

def sumMaxStmt : SelectStmt where
  queryFields := [fieldStar]
  projects := [.aggr ⟨"COUNT(*)", ""⟩ .count (.field ⟨"*", "*"⟩ fieldStar)]
  tables := [("t", intTable)]
  filterUnits := ⟨.and, []⟩
  groupBy := none
  havingUnits := ⟨.and, [⟨.equalTo, .aggr ⟨"SUM(x)", ""⟩ .sum (.field ⟨"x", ""⟩ fieldX),
    some (.aggr ⟨"MAX(x)", ""⟩ .max (.field ⟨"x", ""⟩ fieldX))⟩]⟩
  orderUnits := []
  joinFilters := []

/-- `SELECT SUM(x), MAX(x) FROM t HAVING SUM(x) = MAX(x)`. -/
def sumMaxProjected : SelectStmt :=
  { sumMaxStmt with
    queryFields := [fieldX, fieldX]
    projects := [.aggr ⟨"SUM(x)", ""⟩ .sum (.field ⟨"x", ""⟩ fieldX),
      .aggr ⟨"MAX(x)", ""⟩ .max (.field ⟨"x", ""⟩ fieldX)] }

def oneFive : Database := fun _ => [constantRow (.ints 5)]

theorem sortsOneRow_mergeSorter : SortsOneRow StdSort.mergeSorter :=
  fun lt row => List.perm_singleton.mp (StdSort.mergeSort_perm lt [row])

theorem sumMaxStmt_ofAggregates : sumMaxStmt.OfAggregates ("t", intTable) where
  tables := rfl
  projects := List.forall_mem_singleton.mpr (.aggr _ _ _ _)
  aggrUnits := List.cons_ne_nil _ _
  filterUnits := List.forall_mem_nil _
  havingUnits := List.forall_mem_singleton.mpr ⟨.aggr _ _ _ _, _, rfl, .aggr _ _ _ _⟩
  texts := by
    have hunits : sumMaxStmt.aggrUnits = [⟨"COUNT(*)", .count, none⟩] := rfl
    have hhaving : sumMaxStmt.havingAggrUnits =
        [⟨"SUM(x)", .sum, some fieldX.getValue⟩, ⟨"MAX(x)", .max, some fieldX.getValue⟩] := rfl
    rw [hunits, hhaving]
    constructor
    · exact List.forall_mem_singleton.mpr (by decide)
    · intro unit hunit unit' hunit' htext
      obtain rfl := List.mem_singleton.mp hunit
      simp only [List.cons_append, List.nil_append, List.mem_cons, List.not_mem_nil,
        or_false] at hunit'
      rcases hunit' with rfl | rfl | rfl
      · rfl
      · exact absurd htext (by decide)
      · exact absurd htext (by decide)

theorem sumMaxStmt_finds : ∀ row ∈ oneFive "t", ∀ unit ∈ sumMaxStmt.aggrUnits, unit.Finds row := by
  intro row _ unit hunit findCell hfield
  have hunits : sumMaxStmt.aggrUnits = [⟨"COUNT(*)", .count, none⟩] := rfl
  rw [hunits, List.mem_singleton] at hunit
  subst hunit
  cases hfield

theorem sumMaxProjected_ofAggregates : sumMaxProjected.OfAggregates ("t", intTable) where
  tables := rfl
  projects := List.forall_mem_cons.mpr
    ⟨.aggr _ _ _ _, List.forall_mem_singleton.mpr (.aggr _ _ _ _)⟩
  aggrUnits := List.cons_ne_nil _ _
  filterUnits := List.forall_mem_nil _
  havingUnits := sumMaxStmt_ofAggregates.havingUnits
  texts := by
    have hunits : sumMaxProjected.aggrUnits =
        [⟨"SUM(x)", .sum, some fieldX.getValue⟩, ⟨"MAX(x)", .max, some fieldX.getValue⟩] := rfl
    have hhaving : sumMaxProjected.havingAggrUnits = sumMaxProjected.aggrUnits := rfl
    rw [hhaving, hunits]
    constructor
    · exact List.forall_mem_cons.mpr ⟨by decide, List.forall_mem_singleton.mpr (by decide)⟩
    · intro unit hunit unit' hunit' htext
      rw [List.mem_append, or_self] at hunit'
      simp only [List.mem_cons, List.not_mem_nil, or_false] at hunit hunit'
      rcases hunit with rfl | rfl <;> rcases hunit' with rfl | rfl
      · rfl
      · exact absurd htext (by decide)
      · exact absurd htext (by decide)
      · rfl

/-- `SELECT SUM(x), MAX(x) FROM t HAVING SUM(x) = MAX(x)` over the row 5 returns 5 and 5. -/
theorem having_returns_row_sum_max :
    sumMaxProjected.execute StdSort.mergeSorter plainLib oneFive =
      .ok ([[.ok (.ints 5), .ok (.ints 5)]], .code .recordEof) := by
  have hpush : Pushable sumMaxProjected.filterUnits := fun _ => List.forall_mem_nil _
  have hfinds : ∀ row ∈ oneFive "t", ∀ unit ∈ sumMaxProjected.aggrUnits, unit.Finds row := by
    intro row hrow unit hunit findCell hfield
    obtain rfl := List.mem_singleton.mp hrow
    have hunits : sumMaxProjected.aggrUnits =
      [⟨"SUM(x)", .sum, some fieldX.getValue⟩, ⟨"MAX(x)", .max, some fieldX.getValue⟩] := rfl
    rw [hunits] at hunit
    simp only [List.mem_cons, List.not_mem_nil, or_false] at hunit
    rcases hunit with rfl | rfl
    all_goals
      obtain rfl := Option.some.inj hfield
      exact ⟨_, rfl⟩
  have hreturned := having_returns_row_of_met StdSort.mergeSorter plainLib oneFive
    sumMaxProjected_ofAggregates sortsOneRow_mergeSorter (fun _ _ => List.forall_mem_nil _) hfinds
  refine (hreturned.1 ⟨hpush, ?_⟩).mpr rfl
  intro unit hunit aggr haggr
  obtain rfl := List.mem_singleton.mp (Expression.evaluated_subset _ _ hunit)
  exact List.mem_map_of_mem haggr

/-- `SELECT COUNT(*) FROM t HAVING SUM(x) = MAX(x)` over the row 5: the condition is `5 = 5`, but
nothing is returned. -/
theorem having_loses_row :
    SelectStmt.create plainLib .vacuous (fun _ => some intTable) sumMaxSelect = .ok sumMaxStmt ∧
    sumMaxStmt.OfAggregates ("t", intTable) ∧
    (havingFormula plainLib sumMaxStmt.havingUnits).truth plainLib (valuesOver plainLib
      (passingRows plainLib sumMaxStmt.filterUnits (oneFive "t"))) = true ∧
    ∃ ending, sumMaxStmt.execute StdSort.mergeSorter plainLib oneFive = .ok ([], ending) := by
  refine ⟨rfl, sumMaxStmt_ofAggregates, rfl, ?_⟩
  have hpush : Pushable sumMaxStmt.filterUnits := fun _ => List.forall_mem_nil _
  obtain ⟨ending, hexecute, -⟩ := @execute_ofAggregates plainLib _ _ StdSort.mergeSorter oneFive
    sumMaxStmt_ofAggregates hpush sortsOneRow_mergeSorter (fun _ _ => List.forall_mem_nil _)
    sumMaxStmt_finds
  exact ⟨ending, hexecute⟩

end Analyzer

end TDB
