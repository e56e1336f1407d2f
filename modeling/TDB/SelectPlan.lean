import TDB.Lib.Outcome
import TDB.PredicateRewrite
import TDB.SelectStmt

namespace TDB.Analyzer

open Where (ConjunctionType WhereConditions)

/-! ## Expressions of a plan -/

/-- `copy`; the right side of an arithmetic expression is the null pointer in a `unary` one, and it
is not copied if the expression is a negation. -/
def StmtExpr.copy : StmtExpr → Except Failure StmtExpr
  | .arithmetic label type left right => do
    if type = .negative then return .unary label type (← left.copy)
    else
      let right ← right.copy
      return .arithmetic label type (← left.copy) right
  | .unary label type left => do
    if type = .negative then return .unary label type (← left.copy)
    else .error .crash
  | .aggr label aggrType argument => do return .aggr label aggrType (← argument.copy)
  | e => .ok e

def StmtExpr.valueType : StmtExpr → AttrType
  | .field _ f => f.fieldMeta.type
  | .value _ v => v.attrType
  | .values .. => .undefined
  | .arithmetic _ type left right =>
    if left.valueType = .ints ∧ right.valueType = .ints ∧ type ≠ .div then .ints else .floats
  | .unary _ _ left => left.valueType
  | .aggr _ aggrType argument => if aggrType = .count then .ints else argument.valueType

/-- `get_value`; an aggregate is looked up under its name, and it has a new value if it is not
found. -/
def StmtExpr.getValue (lib : StdLib) (tuple : Tuple) : StmtExpr → Except Failure Value
  | .field _ f => f.getValue tuple
  | .value _ v => .ok v
  | .values .. => .ok .undefined
  | .arithmetic label type left right => do
    let leftValue ← left.getValue lib tuple
    let rightValue ← if type = .negative then .ok .undefined else right.getValue lib tuple
    return calcValue lib type (StmtExpr.arithmetic label type left right).valueType leftValue
      rightValue
  | .unary label type left => do
    let leftValue ← left.getValue lib tuple
    let rightValue ← if type = .negative then .ok .undefined else .error .crash
    return calcValue lib type (StmtExpr.unary label type left).valueType leftValue rightValue
  | .aggr label _ _ =>
    match tuple.findCell ⟨"", "", label.name⟩ with
    | .ok v => .ok v
    | .error (.code _) => .ok .undefined
    | .error f => .error f

/-- The expression as the rewriter and the operators see it. -/
def StmtExpr.toExpression (lib : StdLib) : StmtExpr → Expression Tuple
  | .field _ f => .field f.getValue
  | .value _ v => .value v
  | .values _ vs => .values vs
  | .arithmetic label type left right =>
    .other .arithmetic fun tuple => (StmtExpr.arithmetic label type left right).getValue lib tuple
  | .unary label type left =>
    .other .arithmetic fun tuple => (StmtExpr.unary label type left).getValue lib tuple
  | .aggr label aggrType argument =>
    .other .aggr fun tuple => (StmtExpr.aggr label aggrType argument).getValue lib tuple

def StmtExpr.getAggrExprs : StmtExpr → Except Failure (List StmtExpr)
  | .arithmetic _ _ left right => do
    let exprs ← left.getAggrExprs
    return exprs ++ (← right.getAggrExprs)
  | .unary _ _ left => left.getAggrExprs
  | .aggr label aggrType argument => do return [← (StmtExpr.aggr label aggrType argument).copy]
  | _ => .ok []

/-- `getAggrExprs` of a pointer that may be null; the type of the expression is read first. -/
def getAggrExprs : Option StmtExpr → Except Failure (List StmtExpr)
  | none => .error .crash
  | some e => e.getAggrExprs

/-! ## The plan of a statement -/

/-- A comparison of `_transfer_filter_stmt_to_expr`. -/
def FilterUnit.cmpExpr (lib : StdLib) (unit : FilterUnit) : Except Failure (Expression Tuple) := do
  let left ← unit.left.copy
  match unit.right with
  | none => return .unary unit.comp (left.toExpression lib)
  | some right =>
    let right ← right.copy
    return .comparison unit.comp (left.toExpression lib) (right.toExpression lib)

/-- `_transfer_filter_stmt_to_expr`; `none` is the null pointer of an empty filter. -/
def transferFilterStmtToExpr (lib : StdLib) (filter : WhereConditions FilterUnit) :
    Except Failure (Option (Expression Tuple)) := do
  let cmpExprs ← filter.conditions.mapM (FilterUnit.cmpExpr lib)
  return if cmpExprs.isEmpty then none else some (.conjunction filter.type cmpExprs)

/-- `plan_node` of a filter, and the node put over the plan so far. -/
def planFilter (lib : StdLib) (filter : WhereConditions FilterUnit) (root : LogicalNode Tuple) :
    Except Failure (LogicalNode Tuple) := do
  match ← transferFilterStmtToExpr lib filter with
  | none => return root
  | some e => return .withChild (.predicate e) root

/-- An aggregate of an `AggrLogicalNode`, whose argument is cast to a field. -/
def aggrUnit : StmtExpr → Except Failure (AggrUnit Tuple)
  | .aggr label aggrType (.field _ f) =>
    .ok ⟨label.name, aggrType, if f.fieldMeta.name = "*" then none else some f.getValue⟩
  | _ => .error .crash

def planAggr (aggrExprs : List StmtExpr) (root : LogicalNode Tuple) :
    Except Failure (LogicalNode Tuple) :=
  if aggrExprs.isEmpty then .ok root
  else do return .withChild (.aggr (← aggrExprs.mapM aggrUnit)) root

/-- The loop over the `HAVING` conditions that collects their aggregates. -/
def havingAggrExprs (unit : FilterUnit) : Except Failure (List StmtExpr) := do
  let exprs ← getAggrExprs (some unit.left)
  return exprs ++ (← getAggrExprs unit.right)

def planOrder (orderUnits : List SortUnit) (root : LogicalNode Tuple) : LogicalNode Tuple :=
  if orderUnits.isEmpty then root
  else .withChild (.order (orderUnits.map fun unit => ⟨unit.isAsc, fun tuple =>
    match unit.field.getValue tuple with
    | .ok v => v
    | .error _ => .undefined⟩)) root

/-- `LogicalPlanGenerator::plan_node` of a `SELECT`: only its first table is scanned.  The
aggregates of the `HAVING` clause are collected after the node that would compute them. -/
def planSelect (lib : StdLib) (stmt : SelectStmt) : Except Failure (LogicalNode Tuple) :=
  match stmt.tables with
  | [] => .error .crash
  | entry :: _ => do
    let scan := .tableGet entry.2.name []
    let filtered ← planFilter lib stmt.filterUnits scan
    let aggrExprs ← stmt.projects.mapM fun e => getAggrExprs (some e)
    let aggregated ← planAggr aggrExprs.flatten filtered
    let _ ← stmt.havingUnits.conditions.mapM havingAggrExprs
    let grouped ← planFilter lib stmt.havingUnits aggregated
    return .withChild (.project (stmt.projects.map (StmtExpr.toExpression lib)))
      (planOrder stmt.orderUnits grouped)

/-! ## The rewriter -/

theorem size_predicatePushdown {T : Type} {node child : LogicalNode T} {op : NodeOp T}
    {changeMade : Bool} (h : predicatePushdown node = .ok (.withChild op child, changeMade)) :
    child.size < node.size := by
  unfold predicatePushdown at h
  split at h
  · obtain ⟨found, -, h⟩ := Expression.exists_of_bind_ok h
    dsimp only at h
    split_ifs at h <;> cases h <;> simp [LogicalNode.size]
  · cases h
    simp [LogicalNode.size]

/-- `Rewriter::rewrite`, whose only rule is the pushdown: the node first, then its child. -/
def rewrite {T : Type} (node : LogicalNode T) : Except Failure (LogicalNode T × Bool) :=
  match _h : predicatePushdown node with
  | .error f => .error f
  | .ok (.withChild op child, changeMade) => do
    let (child, changeMade') ← rewrite child
    return (.withChild op child, changeMade || changeMade')
  | .ok result => .ok result
termination_by node.size
decreasing_by exact size_predicatePushdown _h

def selectPlan (lib : StdLib) (trx : Recorder.TrxType)
    (findTable : String → Option Recorder.TableMeta) (sql : SelectSqlNode) :
    Except Failure (LogicalNode Tuple) := do
  let stmt ← SelectStmt.create lib trx findTable sql
  let plan ← planSelect lib stmt
  let (plan, _) ← rewrite plan
  return plan

/-! ## Which plans are rewritten -/

/-- A failure that is no error code. -/
def Fatal (f : Failure) : Prop := ∀ rc, f ≠ .code rc

theorem fatal_crash : Fatal .crash := fun _ h => by cases h

theorem not_fatal_code (rc : RC) : ¬Fatal (.code rc) := fun h => h rc rfl

/-- An expression as the analyzer builds them: the negations are those without a right side, and
aggregates are over fields. -/
def StmtExpr.WellFormed : StmtExpr → Prop
  | .field .. => True
  | .value .. => True
  | .values .. => True
  | .arithmetic _ type left right => type ≠ .negative ∧ left.WellFormed ∧ right.WellFormed
  | .unary _ type left => type = .negative ∧ left.WellFormed
  | .aggr _ _ (.field ..) => True
  | .aggr .. => False

theorem StmtExpr.WellFormed.copy_eq {e : StmtExpr} (h : e.WellFormed) : e.copy = .ok e := by
  induction e with
  | arithmetic label type left right ihl ihr =>
    obtain ⟨htype, hl, hr⟩ := h
    rw [StmtExpr.copy, if_neg htype, ihr hr, ihl hl]
    rfl
  | unary label type left ih =>
    obtain ⟨htype, hl⟩ := h
    rw [StmtExpr.copy, if_pos htype, ih hl]
    rfl
  | aggr label aggrType argument =>
    cases argument with
    | field => rfl
    | _ => exact h.elim
  | _ => rfl

theorem StmtExpr.WellFormed.getAggrExprs_eq {e : StmtExpr} (h : e.WellFormed) :
    ∃ exprs, e.getAggrExprs = .ok exprs ∧ ∀ a ∈ exprs, ∃ unit, aggrUnit a = .ok unit := by
  induction e with
  | arithmetic label type left right ihl ihr =>
    obtain ⟨-, hl, hr⟩ := h
    obtain ⟨exprs, hexprs, hunits⟩ := ihl hl
    obtain ⟨exprs', hexprs', hunits'⟩ := ihr hr
    refine ⟨exprs ++ exprs', by rw [StmtExpr.getAggrExprs, hexprs, hexprs']; rfl, ?_⟩
    intro a ha
    rcases List.mem_append.mp ha with ha | ha
    · exact hunits a ha
    · exact hunits' a ha
  | unary label type left ih =>
    obtain ⟨exprs, hexprs, hunits⟩ := ih h.2
    exact ⟨exprs, by rw [StmtExpr.getAggrExprs, hexprs], hunits⟩
  | aggr label aggrType argument =>
    cases argument with
    | field fieldLabel f =>
      refine ⟨[.aggr label aggrType (.field fieldLabel f)], rfl, ?_⟩
      intro a ha
      obtain rfl := List.mem_singleton.mp ha
      exact ⟨_, rfl⟩
    | _ => exact h.elim
  | _ => exact ⟨[], rfl, fun a ha => absurd ha List.not_mem_nil⟩

structure FilterUnit.WellFormed (unit : FilterUnit) : Prop where
  left : unit.left.WellFormed
  right : ∀ right, unit.right = some right → right.WellFormed

def FilterUnit.expr (lib : StdLib) (unit : FilterUnit) : Expression Tuple :=
  match unit.right with
  | none => .unary unit.comp (unit.left.toExpression lib)
  | some right => .comparison unit.comp (unit.left.toExpression lib) (right.toExpression lib)

theorem FilterUnit.WellFormed.cmpExpr_eq {unit : FilterUnit} (h : unit.WellFormed)
    (lib : StdLib) : unit.cmpExpr lib = .ok (unit.expr lib) := by
  unfold FilterUnit.cmpExpr FilterUnit.expr
  rw [h.left.copy_eq]
  cases hright : unit.right with
  | none => rfl
  | some right =>
    dsimp only
    rw [(h.right right hright).copy_eq]
    rfl

def filterNode (lib : StdLib) (filter : WhereConditions FilterUnit) (root : LogicalNode Tuple) :
    LogicalNode Tuple :=
  if filter.conditions.isEmpty then root
  else .withChild (.predicate (.conjunction filter.type
    (filter.conditions.map (FilterUnit.expr lib)))) root

theorem mapM_eq_ok {α β : Type} {f : α → Except Failure β} {g : α → β} {l : List α}
    (h : ∀ a ∈ l, f a = .ok (g a)) : l.mapM f = .ok (l.map g) := by
  induction l with
  | nil => rfl
  | cons a l ih =>
    rw [List.mapM_cons, h a List.mem_cons_self, ih fun b hb => h b (List.mem_cons_of_mem _ hb)]
    rfl

theorem planFilter_eq {lib : StdLib} {filter : WhereConditions FilterUnit}
    {root : LogicalNode Tuple} (h : ∀ unit ∈ filter.conditions, unit.WellFormed) :
    planFilter lib filter root = .ok (filterNode lib filter root) := by
  have hexprs := mapM_eq_ok fun unit hunit => (h unit hunit).cmpExpr_eq lib
  unfold planFilter transferFilterStmtToExpr filterNode
  rw [hexprs]
  cases hconditions : filter.conditions with
  | nil => rfl
  | cons unit units => rfl

theorem planAggr_eq {aggrExprs : List StmtExpr} {root : LogicalNode Tuple}
    (h : ∀ a ∈ aggrExprs, ∃ unit, aggrUnit a = .ok unit) :
    planAggr aggrExprs root = .ok root ∨
    ∃ units, planAggr aggrExprs root = .ok (.withChild (.aggr units) root) := by
  unfold planAggr
  cases aggrExprs with
  | nil => exact .inl rfl
  | cons a aggrExprs =>
    have hsuccess : ∀ b ∈ a :: aggrExprs, Outcome Fatal (aggrUnit b) True False := by
      intro b hb
      obtain ⟨unit, hunit⟩ := h b hb
      rw [hunit]
      exact Outcome.success unit
    obtain ⟨units, hunits⟩ := (Outcome.mapM hsuccess).ok_iff.mpr fun _ _ => trivial
    refine .inr ⟨units, ?_⟩
    rw [hunits]
    rfl

/-! ## The outcome of the rewriter -/

section Rewriter

variable {T : Type} {ok fails : Prop}

theorem rewrite_of_error {node : LogicalNode T} {f : Failure}
    (h : predicatePushdown node = .error f) : rewrite node = .error f := by
  rw [rewrite]
  split
  · rename_i heq
    rw [h] at heq
    obtain rfl := Except.error.inj heq
    rfl
  · rename_i heq
    rw [h] at heq
    cases heq
  · rename_i heq
    rw [h] at heq
    cases heq

theorem rewrite_of_ok {node child : LogicalNode T} {op : NodeOp T} {changeMade : Bool}
    (h : predicatePushdown node = .ok (.withChild op child, changeMade)) :
    rewrite node = (rewrite child >>= fun r =>
      .ok (.withChild op r.1, changeMade || r.2)) := by
  rw [rewrite]
  split
  · rename_i heq
    rw [h] at heq
    cases heq
  · rename_i heq
    rw [h] at heq
    cases heq
    rfl
  · rename_i hne heq
    rw [h] at heq
    exact absurd (Except.ok.inj heq).symm (hne op child changeMade)

theorem rewrite_tableGet (table : String) (predicates : List (Expression T)) :
    rewrite (.tableGet table predicates) = .ok (.tableGet table predicates, false) := by
  rw [rewrite]
  rfl

theorem outcome_rewrite_withChild {op : NodeOp T} {child : LogicalNode T}
    (hnode : predicatePushdown (.withChild op child) = .ok (.withChild op child, false))
    (hchild : Outcome Fatal (rewrite child) ok fails) :
    Outcome Fatal (rewrite (.withChild op child)) ok fails := by
  rw [rewrite_of_ok hnode]
  exact hchild.bind_success fun r _ => ⟨_, rfl⟩

theorem outcome_rewrite_scan {e : Expression T} (table : String)
    (predicates : List (Expression T)) (h : Outcome Fatal (getExprsCanPushdown e) ok fails) :
    Outcome Fatal (rewrite (.withChild (.predicate e) (.tableGet table predicates))) ok fails := by
  cases hget : getExprsCanPushdown e with
  | error f =>
    have hnode : predicatePushdown (.withChild (.predicate e) (.tableGet table predicates)) =
        .error f := by
      rw [predicatePushdown, hget]
      rfl
    rw [rewrite_of_error hnode]
    rw [hget] at h
    exact ⟨by rw [← h.ok_iff]; simp, by rw [← h.fails_iff]; simp⟩
  | ok r =>
    have hnode : ∃ e' predicates' changeMade,
        predicatePushdown (.withChild (.predicate e) (.tableGet table predicates)) =
          .ok (.withChild (.predicate e') (.tableGet table predicates'), changeMade) := by
      rw [predicatePushdown, hget]
      by_cases hempty : r.2.isEmpty
      · exact ⟨_, _, _, if_pos hempty⟩
      · exact ⟨_, _, _, if_neg hempty⟩
    obtain ⟨e', predicates', changeMade, hnode⟩ := hnode
    rw [rewrite_of_ok hnode, rewrite_tableGet]
    rw [hget] at h
    exact (Outcome.success _).congr (iff_of_true trivial (h.ok_iff.mp ⟨r, rfl⟩))
      (iff_of_false id fun hfails => by
        obtain ⟨f, hf, -⟩ := h.fails_iff.mpr hfails
        cases hf)

theorem outcome_pushdownLoop {α : Type} {expr : α → Expression T} {passes : α → Prop}
    {units : List α}
    (h : ∀ a ∈ units, Outcome Fatal (getExprsCanPushdown (expr a)) (passes a) ¬passes a) :
    Outcome Fatal (pushdownLoop (units.map expr)) (∀ a ∈ units, passes a)
      ¬∀ a ∈ units, passes a := by
  induction units with
  | nil => exact (Outcome.success ([], [])).congr (by simp) (by simp)
  | cons a units ih =>
    have hrest := ih fun b hb => h b (List.mem_cons_of_mem _ hb)
    have hstep := (h a List.mem_cons_self).bind fun r _ =>
      hrest.bind_success fun r' _ => ⟨(r.1.toList ++ r'.1, r.2 ++ r'.2), rfl⟩
    rw [List.map_cons, pushdownLoop, List.forall_mem_cons]
    exact hstep.congr Iff.rfl (by tauto)

end Rewriter

/-- A condition without a right side has a field on the left. -/
def FilterUnit.Pushable (unit : FilterUnit) : Prop :=
  unit.right = none → ∃ label f, unit.left = .field label f

theorem not_field_of_none {e : StmtExpr} (h : e.field? = none) :
    ¬∃ label f, e = .field label f := by
  rintro ⟨label, f, rfl⟩
  cases h

theorem type_toExpression (lib : StdLib) (e : StmtExpr) :
    (e.toExpression lib).type = .field ↔ ∃ label f, e = .field label f := by
  cases e with
  | field label f => exact iff_of_true rfl ⟨label, f, rfl⟩
  | _ => exact iff_of_false (fun h => by cases h) (not_field_of_none rfl)

theorem outcome_pushdown_unit (lib : StdLib) (unit : FilterUnit) :
    Outcome Fatal (getExprsCanPushdown (unit.expr lib)) unit.Pushable ¬unit.Pushable := by
  unfold FilterUnit.expr FilterUnit.Pushable
  cases hright : unit.right with
  | none =>
    dsimp only
    rw [getExprsCanPushdown, ← type_toExpression lib]
    by_cases hfield : (unit.left.toExpression lib).type = .field
    · rw [if_neg (not_not.mpr hfield)]
      exact (Outcome.success _).congr (by simp [hfield]) (by simp [hfield])
    · rw [if_pos hfield]
      exact (Outcome.failure fatal_crash).congr (by simp [hfield]) (by simp [hfield])
  | some right =>
    have hsuccess : ∃ r, getExprsCanPushdown (Expression.comparison unit.comp
        (unit.left.toExpression lib) (right.toExpression lib)) = .ok r := by
      rw [getExprsCanPushdown]
      split_ifs <;> exact ⟨_, rfl⟩
    obtain ⟨r, hr⟩ := hsuccess
    dsimp only
    rw [hr]
    exact (Outcome.success r).congr (by simp) (by simp)

def Pushable (filter : WhereConditions FilterUnit) : Prop :=
  filter.type = .and → ∀ unit ∈ filter.conditions, unit.Pushable

theorem outcome_pushdown_filter (lib : StdLib) (filter : WhereConditions FilterUnit) :
    Outcome Fatal (getExprsCanPushdown (.conjunction filter.type
      (filter.conditions.map (FilterUnit.expr lib)))) (Pushable filter) ¬Pushable filter := by
  unfold Pushable
  cases filter.type with
  | or =>
    rw [getExprsCanPushdown]
    exact (Outcome.success _).congr (by simp) (by simp)
  | and =>
    have hloop := outcome_pushdownLoop fun unit (_ : unit ∈ filter.conditions) =>
      outcome_pushdown_unit lib unit
    rw [getExprsCanPushdown]
    exact (hloop.bind_success fun r _ => ⟨_, rfl⟩).congr (by simp) (by simp)

/-- Parts of a statement as the analyzer builds them. -/
structure SelectStmt.WellFormed (stmt : SelectStmt) : Prop where
  tables : stmt.tables ≠ []
  projects : ∀ e ∈ stmt.projects, e.WellFormed
  filterUnits : ∀ unit ∈ stmt.filterUnits.conditions, unit.WellFormed
  havingUnits : ∀ unit ∈ stmt.havingUnits.conditions, unit.WellFormed

/-- Every condition of the `HAVING` clause has a right side. -/
def SelectStmt.HavingComplete (stmt : SelectStmt) : Prop :=
  ∀ unit ∈ stmt.havingUnits.conditions, unit.right ≠ none

theorem outcome_havingAggrExprs {unit : FilterUnit} (h : unit.WellFormed) :
    Outcome Fatal (havingAggrExprs unit) (unit.right ≠ none) (unit.right = none) := by
  obtain ⟨exprs, hexprs, -⟩ := h.left.getAggrExprs_eq
  unfold havingAggrExprs
  rw [show getAggrExprs (some unit.left) = .ok exprs from hexprs]
  cases hright : unit.right with
  | none => exact (Outcome.failure fatal_crash).congr (by simp) (by simp)
  | some right =>
    obtain ⟨exprs', hexprs', -⟩ := (h.right right hright).getAggrExprs_eq
    change Outcome Fatal (getAggrExprs (some right) >>= fun r => .ok (exprs ++ r)) _ _
    rw [show getAggrExprs (some right) = .ok exprs' from hexprs']
    exact (Outcome.success (exprs ++ exprs')).congr (by simp) (by simp)

/-- A filter of comparisons with two sides, over any plan. -/
theorem outcome_rewrite_having {ok fails : Prop} (lib : StdLib)
    {filter : WhereConditions FilterUnit} {root : LogicalNode Tuple}
    (hright : ∀ unit ∈ filter.conditions, unit.right ≠ none)
    (hroot : Outcome Fatal (rewrite root) ok fails) :
    Outcome Fatal (rewrite (filterNode lib filter root)) ok fails := by
  have hpushable : Pushable filter := fun _ unit hunit hnone => absurd hnone (hright unit hunit)
  unfold filterNode
  by_cases hempty : filter.conditions.isEmpty
  · rw [if_pos hempty]
    exact hroot
  · rw [if_neg hempty]
    cases root with
    | tableGet table predicates =>
      rw [rewrite_tableGet] at hroot
      have hok : ok := hroot.ok_iff.mp ⟨_, rfl⟩
      have hfails : ¬fails := fun hfails => by
        obtain ⟨f, hf, -⟩ := hroot.fails_iff.mpr hfails
        cases hf
      exact (outcome_rewrite_scan table predicates (outcome_pushdown_filter lib filter)).congr
        (iff_of_true hpushable hok) (iff_of_false (not_not.mpr hpushable) hfails)
    | childless op => exact outcome_rewrite_withChild rfl hroot
    | withChild op child => exact outcome_rewrite_withChild rfl hroot

theorem outcome_rewrite_where (lib : StdLib) (filter : WhereConditions FilterUnit)
    (table : String) :
    Outcome Fatal (rewrite (filterNode lib filter (.tableGet table []))) (Pushable filter)
      ¬Pushable filter := by
  unfold filterNode
  by_cases hempty : filter.conditions.isEmpty
  · have hpushable : Pushable filter := by
      intro _ unit hunit
      rw [List.isEmpty_iff.mp hempty] at hunit
      exact absurd hunit List.not_mem_nil
    rw [if_pos hempty, rewrite_tableGet]
    exact (Outcome.success _).congr (by simp [hpushable]) (by simp [hpushable])
  · rw [if_neg hempty]
    exact outcome_rewrite_scan table [] (outcome_pushdown_filter lib filter)

theorem outcome_having {units : List FilterUnit} (h : ∀ unit ∈ units, unit.WellFormed) :
    Outcome Fatal (units.mapM havingAggrExprs) (∀ unit ∈ units, unit.right ≠ none)
      ¬∀ unit ∈ units, unit.right ≠ none := by
  refine (Outcome.mapM fun unit hunit => outcome_havingAggrExprs (h unit hunit)).congr Iff.rfl ?_
  rw [← Outcome.firstFails_not]
  exact Outcome.firstFails_congr (fun _ _ => Iff.rfl) fun _ _ => not_not.symm

theorem exists_mapM {α β : Type} {f : α → Except Failure β} {P : β → Prop} {l : List α}
    (h : ∀ a ∈ l, ∃ b, f a = .ok b ∧ P b) : ∃ bs, l.mapM f = .ok bs ∧ ∀ b ∈ bs, P b := by
  induction l with
  | nil => exact ⟨[], rfl, fun b hb => absurd hb List.not_mem_nil⟩
  | cons a l ih =>
    obtain ⟨b, hb, hP⟩ := h a List.mem_cons_self
    obtain ⟨bs, hbs, hPs⟩ := ih fun a' ha' => h a' (List.mem_cons_of_mem _ ha')
    refine ⟨b :: bs, ?_, List.forall_mem_cons.mpr ⟨hP, hPs⟩⟩
    rw [List.mapM_cons, hb, hbs]
    rfl

/-- The plan of an analyzed statement, once the `HAVING` conditions have been read. -/
theorem planSelect_eq (lib : StdLib) {stmt : SelectStmt} (h : stmt.WellFormed) :
    ∃ plan, planSelect lib stmt =
        (stmt.havingUnits.conditions.mapM havingAggrExprs >>= fun _ => .ok plan) ∧
      (stmt.HavingComplete →
        Outcome Fatal (rewrite plan) (Pushable stmt.filterUnits) ¬Pushable stmt.filterUnits) := by
  obtain ⟨entry, tables, htables⟩ := List.exists_cons_of_ne_nil h.tables
  obtain ⟨lists, hlists, hunits⟩ := exists_mapM fun e he => (h.projects e he).getAggrExprs_eq
  have hflat : ∀ a ∈ lists.flatten, ∃ unit, aggrUnit a = .ok unit := by
    intro a ha
    obtain ⟨exprs, hexprs, ha⟩ := List.mem_flatten.mp ha
    exact hunits exprs hexprs a ha
  have hwhere := outcome_rewrite_where lib stmt.filterUnits entry.2.name
  -- the aggregation node, if there is one, is not touched by the rule
  have hgrouped : ∃ aggregated,
      planAggr lists.flatten (filterNode lib stmt.filterUnits (.tableGet entry.2.name [])) =
        .ok aggregated ∧
      Outcome Fatal (rewrite aggregated) (Pushable stmt.filterUnits)
        ¬Pushable stmt.filterUnits := by
    rcases planAggr_eq hflat with hplan | ⟨units, hplan⟩
    · exact ⟨_, hplan, hwhere⟩
    · exact ⟨_, hplan, outcome_rewrite_withChild rfl hwhere⟩
  obtain ⟨aggregated, haggregated, houtcome⟩ := hgrouped
  refine ⟨.withChild (.project (stmt.projects.map (StmtExpr.toExpression lib)))
    (planOrder stmt.orderUnits (filterNode lib stmt.havingUnits aggregated)), ?_, ?_⟩
  · unfold planSelect
    rw [htables]
    dsimp only
    rw [planFilter_eq h.filterUnits]
    change ((stmt.projects.mapM StmtExpr.getAggrExprs) >>= _) = _
    rw [hlists]
    change (planAggr lists.flatten _ >>= _) = _
    rw [haggregated]
    change (_ >>= fun _ => planFilter lib stmt.havingUnits aggregated >>= _) = _
    rw [planFilter_eq h.havingUnits]
    rfl
  · intro hcomplete
    apply outcome_rewrite_withChild rfl
    have hhaving := outcome_rewrite_having lib hcomplete houtcome
    unfold planOrder
    split_ifs
    · exact hhaving
    · exact outcome_rewrite_withChild rfl hhaving

/-- An analyzed statement is planned and rewritten if every `HAVING` condition has a right side and
the `WHERE` clause can be pushed; otherwise a null pointer is read. -/
theorem outcome_planSelect (lib : StdLib) {stmt : SelectStmt} (h : stmt.WellFormed) :
    Outcome Fatal (planSelect lib stmt >>= fun plan => rewrite plan >>= fun r => .ok r.1)
      (stmt.HavingComplete ∧ Pushable stmt.filterUnits)
      ¬(stmt.HavingComplete ∧ Pushable stmt.filterUnits) := by
  obtain ⟨plan, hplan, hrewrite⟩ := planSelect_eq lib h
  have hhaving : Outcome Fatal (planSelect lib stmt) stmt.HavingComplete ¬stmt.HavingComplete := by
    rw [hplan]
    exact (outcome_having h.havingUnits).bind_success fun _ _ => ⟨plan, rfl⟩
  have hrun : ∀ plan', planSelect lib stmt = .ok plan' →
      Outcome Fatal (rewrite plan' >>= fun r => .ok r.1) (Pushable stmt.filterUnits)
        ¬Pushable stmt.filterUnits := by
    intro plan' hplan'
    have hcomplete := hhaving.ok_iff.mp ⟨plan', hplan'⟩
    obtain ⟨exprs, hexprs⟩ := (outcome_having h.havingUnits).ok_iff.mpr hcomplete
    rw [hplan, hexprs] at hplan'
    obtain rfl := Except.ok.inj hplan'
    exact (hrewrite hcomplete).bind_success fun r _ => ⟨r.1, rfl⟩
  exact (hhaving.bind hrun).congr Iff.rfl (by tauto)

end TDB.Analyzer
