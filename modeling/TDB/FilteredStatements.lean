import TDB.WhereClause

namespace TDB.Where

/-! ## The three statements -/

/-- Grammar symbol `where_conditions`: no `WHERE` at all, or `WHERE condition_list`. -/
def whereConditions {C : Type} :
    Option (ConditionList C) → Except Crash (Option (WhereConditions C))
  | none => .ok none
  | some tree => conditionList tree

/-- Action of `delete_stmt`: only the condition vector is swapped into the node. -/
def deletionConditions {C : Type} : Option (WhereConditions C) → List C
  | none => []
  | some w => w.conditions

/-- Action of `update_stmt`: the same for the update node. -/
def updateConditions {C : Type} : Option (WhereConditions C) → List C
  | none => []
  | some w => w.conditions

/-- Action of `select_stmt`: connector and condition vector. -/
def selectionConditions {C : Type} : Option (WhereConditions C) → WhereConditions C
  | none => {}
  | some w => w

def deleteFilter {C T : Type} (createFilterUnit : C → Except RC (FilterUnit T))
    (w : Option (WhereConditions C)) : Except RC (FilterStmt T) :=
  FilterStmt.create createFilterUnit (deletionConditions w)

def updateFilter {C T : Type} (createFilterUnit : C → Except RC (FilterUnit T))
    (w : Option (WhereConditions C)) : Except RC (FilterStmt T) :=
  FilterStmt.create createFilterUnit (updateConditions w)

/-- The filter that `SelectStmt::create` builds: the one call of `set_conjunction_type`. -/
def selectFilter {C T : Type} (createFilterUnit : C → Except RC (FilterUnit T))
    (w : Option (WhereConditions C)) : Except RC (FilterStmt T) := do
  let stmt ← FilterStmt.create createFilterUnit (selectionConditions w).conditions
  return stmt.setConjunctionType (selectionConditions w).type

/-! ## Predicate pushdown -/

/-- A predicate node over a table scan; `predicate = none` when there is no filter. -/
structure FilterPlan (T : Type) where
  predicate : Option (ConjunctionExpr T)
  scanPredicates : List (FilterUnit T) := []

/-- `LogicalPlanGenerator::plan_node` on the filter of a statement. -/
def planFilter {T : Type} (stmt : FilterStmt T) : FilterPlan T :=
  { predicate := transferFilterStmtToExpr stmt }

/-- The `COMPARISON` branch of `get_exprs_can_pushdown`: may the comparison move to the scan?
`right_expr->type()` is read only when the left side is not a field. -/
def canPushdown {T : Type} (e : FilterUnit T) : Except Crash Bool :=
  if e.left = .field then .ok true
  else match e.right with
    | none => .error .nullDereference
    | some r => .ok (r == .field)

/-- The loop over the children of an `AND`: the kept and the pushed comparisons. -/
def splitPushdown {T : Type} :
    List (FilterUnit T) → Except Crash (List (FilterUnit T) × List (FilterUnit T))
  | [] => .ok ([], [])
  | e :: es => do
    let push ← canPushdown e
    let (kept, pushed) ← splitPushdown es
    return if push then (kept, e :: pushed) else (e :: kept, pushed)

/-- `PredicatePushdownRewriter::rewrite`; an `OR` is left where it is. -/
def rewrite {T : Type} (plan : FilterPlan T) : Except Crash (FilterPlan T) :=
  match plan.predicate with
  | none => .ok plan
  | some e =>
    match e.conjunctionType with
    | .or => .ok plan
    | .and => do
      let (kept, pushed) ← splitPushdown e.children
      return { predicate := some { e with children := kept }, scanPredicates := pushed }

/-! ## Execution -/

def scanFilter {T : Type} (row : T) : List (FilterUnit T) → Except RC Bool
  | [] => .ok true
  | e :: es => do
    let b ← e.getValue row
    if b then scanFilter row es else return false

/-- Does a scanned row get through the scan's filter and the predicate operator? -/
def passes {T : Type} (plan : FilterPlan T) (row : T) : Except RC Bool := do
  if ← scanFilter row plan.scanPredicates then
    match plan.predicate with
    | none => return true
    | some e => e.getValue row
  else return false

/-- Repeated `next` on the filtered scan: the rows it hands out and the code it ends with. -/
def scanRows {T : Type} (plan : FilterPlan T) : List T → List T × RC
  | [] => ([], .recordEof)
  | row :: rows =>
    match passes plan row with
    | .error rc => ([], rc)
    | .ok true => (row :: (scanRows plan rows).1, (scanRows plan rows).2)
    | .ok false => scanRows plan rows

/-- `DeletePhysicalOperator::next`: delete what the child hands out until it stops or the
transaction refuses. -/
def deleteLoop {T : Type} (deleteRecord : T → RC) : List T → List T
  | [] => []
  | row :: rows => if deleteRecord row = .success then row :: deleteLoop deleteRecord rows else []

/-- `UpdatePhysicalOperator::next`: delete the old record, make and insert the new one. -/
def updateLoop {T : Type} (deleteRecord makeRecord insertRecord : T → RC) : List T → List T
  | [] => []
  | row :: rows =>
    if deleteRecord row = .success ∧ makeRecord row = .success ∧ insertRecord row = .success then
      row :: updateLoop deleteRecord makeRecord insertRecord rows
    else []

/-- Return codes of the record operations of one statement, row by row. -/
structure RecordOps (T : Type) where
  deleteRecord : T → RC
  makeRecord : T → RC
  insertRecord : T → RC

def RecordOps.Succeed {T : Type} (ops : RecordOps T) : Prop :=
  ∀ row, ops.deleteRecord row = .success ∧ ops.makeRecord row = .success ∧
    ops.insertRecord row = .success

/-- A statement: parse its `WHERE`, build its filter, rewrite the plan, run it on the table.
The rows are those the filtered scan hands out. -/
def runFilter {C T : Type}
    (filter : Option (WhereConditions C) → Except RC (FilterStmt T))
    (tree : Option (ConditionList C)) (table : List T) : Except Crash
      (Except RC (List T × RC)) := do
  let w ← whereConditions tree
  match filter w with
  | .error rc => return .error rc
  | .ok stmt =>
    let plan ← rewrite (planFilter stmt)
    return .ok (scanRows plan table)

def selectedRows {C T : Type} (createFilterUnit : C → Except RC (FilterUnit T))
    (tree : Option (ConditionList C)) (table : List T) : Except Crash (Except RC (List T)) :=
  (runFilter (selectFilter createFilterUnit) tree table).map fun r => r.map fun x => x.1

def deletedRows {C T : Type} (ops : RecordOps T)
    (createFilterUnit : C → Except RC (FilterUnit T))
    (tree : Option (ConditionList C)) (table : List T) : Except Crash (Except RC (List T)) :=
  (runFilter (deleteFilter createFilterUnit) tree table).map fun r =>
    r.map fun x => deleteLoop ops.deleteRecord x.1

def updatedRows {C T : Type} (ops : RecordOps T)
    (createFilterUnit : C → Except RC (FilterUnit T))
    (tree : Option (ConditionList C)) (table : List T) : Except Crash (Except RC (List T)) :=
  (runFilter (updateFilter createFilterUnit) tree table).map fun r =>
    r.map fun x => updateLoop ops.deleteRecord ops.makeRecord ops.insertRecord x.1

/-! ## When the three statements agree -/

theorem deleteLoop_eq_self {T : Type} (deleteRecord : T → RC)
    (h : ∀ row, deleteRecord row = .success) (rows : List T) :
    deleteLoop deleteRecord rows = rows := by
  induction rows with
  | nil => rfl
  | cons row rows ih => simp [deleteLoop, h row, ih]

theorem updateLoop_eq_self {T : Type} (ops : RecordOps T) (h : ops.Succeed) (rows : List T) :
    updateLoop ops.deleteRecord ops.makeRecord ops.insertRecord rows = rows := by
  induction rows with
  | nil => rfl
  | cons row rows ih => simp [updateLoop, h row, ih]

/-- A `WHERE` clause as written: absent, or `c₁ op₁ c₂ … cₙ`. -/
abbrev WhereClause (C : Type) := Option (C × List (ConjunctionType × C))

def WhereClause.tree {C : Type} (w : WhereClause C) : Option (ConditionList C) :=
  w.map fun x => derivation x.1 x.2

def WhereClause.connectors {C : Type} (w : WhereClause C) : List ConjunctionType :=
  match w with
  | none => []
  | some x => x.2.map Prod.fst

/-- A clause whose first connector is not `OR` is parsed to a list with connector `AND`. -/
theorem selectionConditions_type {C : Type} (w : WhereClause C)
    (h : w.connectors.head? ≠ some .or) (p : Option (WhereConditions C))
    (hp : whereConditions w.tree = .ok p) : (selectionConditions p).type = .and := by
  cases w with
  | none =>
    obtain rfl : p = none := by simpa [WhereClause.tree, whereConditions, eq_comm] using hp
    rfl
  | some x =>
    obtain ⟨c, rest⟩ := x
    simp only [WhereClause.tree, Option.map_some, whereConditions, conditionList_derivation,
      Except.ok.injEq] at hp
    subst hp
    simp only [WhereClause.connectors] at h
    cases hr : rest.map Prod.fst with
    | nil => simp [selectionConditions, headType]
    | cons t ts =>
      rw [hr] at h
      cases t <;> simp_all [selectionConditions, headType]

/-- With connector `AND` the three statements build the same filter. -/
theorem selectFilter_eq_of_and {C T : Type} (createFilterUnit : C → Except RC (FilterUnit T))
    (w : Option (WhereConditions C)) (h : (selectionConditions w).type = .and) :
    selectFilter createFilterUnit w = deleteFilter createFilterUnit w := by
  have hc : (selectionConditions w).conditions = deletionConditions w := by cases w <;> rfl
  rw [selectFilter, deleteFilter, h, hc, FilterStmt.create]
  cases (deletionConditions w).mapM createFilterUnit <;> rfl

theorem runFilter_select_eq_of_and {C T : Type} (createFilterUnit : C → Except RC (FilterUnit T))
    (w : WhereClause C) (table : List T) (h : w.connectors.head? ≠ some .or) :
    runFilter (selectFilter createFilterUnit) w.tree table =
      runFilter (deleteFilter createFilterUnit) w.tree table := by
  unfold runFilter
  cases hp : whereConditions w.tree with
  | error e => rfl
  | ok p =>
    simp only [bind, Except.bind]
    rw [selectFilter_eq_of_and createFilterUnit p (selectionConditions_type w h p hp)]

def rowSet {T : Type} (r : Except Crash (Except RC (List T))) : Except Crash (Except RC (Set T)) :=
  r.map fun x => x.map fun rows => {row | row ∈ rows}

/-- Literal comparisons stay in the predicate operator. -/
theorem splitPushdown_literals (es : List (FilterUnit Unit))
    (h : ∀ e ∈ es, e.left = .value ∧ e.right = some .value) : splitPushdown es = .ok (es, []) := by
  induction es with
  | nil => rfl
  | cons e es ih =>
    obtain ⟨hl, hr⟩ := h e (by simp)
    have ht := ih fun e' he' => h e' (by simp [he'])
    simp [splitPushdown, canPushdown, hl, hr, ht, bind, Except.bind, pure, Except.pure]

def literal (b : Bool) : FilterUnit Unit := ⟨.value, some .value, fun _ => .ok b⟩

theorem mapM_literalUnit (bs : List Bool) : bs.mapM literalUnit = .ok (bs.map literal) := by
  induction bs with
  | nil => rfl
  | cons b bs ih => simp [List.mapM_cons, literalUnit, literal, ih, bind, Except.bind,
    pure, Except.pure]

/-- A filter of literals lets the only row of the table through when they join to true. -/
theorem scanRows_literals (type : ConjunctionType) (bs : List Bool) (hne : bs ≠ []) :
    scanRows { predicate := some ⟨type, bs.map literal⟩ } [()] =
      (if connect type bs then [()] else [], .recordEof) := by
  have hv := getValueLoop_of_values type () (bs.map literal) bs
    (by simp [literal, Function.comp_def])
  have hp : passes { predicate := some ⟨type, bs.map literal⟩ } () = .ok (connect type bs) := by
    simpa [passes, scanFilter, bind, Except.bind, ConjunctionExpr.getValue, hne] using hv
  cases hb : connect type bs <;> simp [scanRows, hp, hb]

theorem rewrite_literals (type : ConjunctionType) (bs : List Bool) (hne : bs ≠ []) :
    rewrite (planFilter ⟨type, bs.map literal⟩) =
      .ok { predicate := some ⟨type, bs.map literal⟩ } := by
  have hsplit := splitPushdown_literals (bs.map literal) (by
    intro e he
    obtain ⟨b, -, rfl⟩ := List.mem_map.mp he
    exact ⟨rfl, rfl⟩)
  cases type <;>
    simp [rewrite, planFilter, transferFilterStmtToExpr, hne, hsplit, bind, Except.bind, pure,
      Except.pure]

theorem selectedRows_literals (b : Bool) (rest : List (ConjunctionType × Bool)) :
    selectedRows literalUnit (some (derivation b rest)) [()] = .ok (.ok
      (if connect (headType (rest.map Prod.fst)) (b :: rest.map Prod.snd) then [()] else [])) := by
  have hne : (b :: rest.map Prod.snd).reverse ≠ [] := by simp
  simp only [selectedRows, runFilter, whereConditions, conditionList_derivation, bind, Except.bind,
    selectFilter, selectionConditions, FilterStmt.create, mapM_literalUnit, Except.map, pure,
    Except.pure, FilterStmt.setConjunctionType, rewrite_literals _ _ hne,
    scanRows_literals _ _ hne, connect_reverse]

/-- `DELETE` joins a list of literals by `AND`. -/
theorem deletedRows_literals (ops : RecordOps Unit) (hops : ops.Succeed) (b : Bool)
    (rest : List (ConjunctionType × Bool)) :
    deletedRows ops literalUnit (some (derivation b rest)) [()] = .ok (.ok
      (if connect .and (b :: rest.map Prod.snd) then [()] else [])) := by
  have hne : (b :: rest.map Prod.snd).reverse ≠ [] := by simp
  simp only [deletedRows, runFilter, whereConditions, conditionList_derivation, bind, Except.bind,
    deleteFilter, deletionConditions, FilterStmt.create, mapM_literalUnit, Except.map, pure,
    Except.pure, rewrite_literals _ _ hne, scanRows_literals _ _ hne, connect_reverse,
    deleteLoop_eq_self _ fun row => (hops row).1]

def RecordOps.allSucceed (T : Type) : RecordOps T :=
  ⟨fun _ => .success, fun _ => .success, fun _ => .success⟩

/-- `WHERE TRUE OR FALSE` selects the row and does not delete it. -/
theorem delete_ignores_or :
    selectedRows literalUnit (some (derivation true [(.or, false)])) [()] = .ok (.ok [()]) ∧
      deletedRows (.allSucceed Unit) literalUnit (some (derivation true [(.or, false)])) [()] =
        .ok (.ok []) :=
  ⟨rfl, rfl⟩

/-- `SELECT`, `DELETE` and `UPDATE` reach the same rows of every table exactly for the `WHERE`
clauses whose first connector is not `OR`. -/
theorem filtered_statements_agree_iff (connectors : List ConjunctionType) :
    (∀ (C T : Type) (ops : RecordOps T) (createFilterUnit : C → Except RC (FilterUnit T))
        (w : WhereClause C) (table : List T), w.connectors = connectors → ops.Succeed →
        rowSet (deletedRows ops createFilterUnit w.tree table) =
            rowSet (selectedRows createFilterUnit w.tree table) ∧
          rowSet (updatedRows ops createFilterUnit w.tree table) =
            rowSet (selectedRows createFilterUnit w.tree table)) ↔
      connectors.head? ≠ some .or := by
  constructor
  · intro h hor
    obtain ⟨ts, rfl⟩ : ∃ ts, connectors = .or :: ts := by
      cases connectors with
      | nil => simp at hor
      | cons t ts => exact ⟨ts, by simpa using hor⟩
    -- the first condition true, all others false
    have hs := (h Bool Unit (.allSucceed Unit) literalUnit
      (some (true, (.or :: ts).map fun o => (o, false))) [()]
      (by simp [WhereClause.connectors, Function.comp_def])
      (fun _ => ⟨rfl, rfl, rfl⟩)).1
    simp only [WhereClause.tree, Option.map_some] at hs
    rw [deletedRows_literals _ fun _ => ⟨rfl, rfl, rfl⟩, selectedRows_literals] at hs
    simp only [List.map_cons, headType, connect, List.all_cons, List.any_cons, id, Bool.false_and,
      Bool.and_false, Bool.true_or, ↓reduceIte, rowSet, Except.map, Bool.false_eq_true,
      Except.ok.injEq] at hs
    have hmem : () ∈ {row : Unit | row ∈ ([] : List Unit)} := by
      rw [hs]
      exact List.mem_singleton_self ()
    exact absurd hmem List.not_mem_nil
  · intro h C T ops createFilterUnit w table hw hops
    rw [← hw] at h
    have hrun := runFilter_select_eq_of_and createFilterUnit w table h
    have hupd : updateFilter createFilterUnit = deleteFilter createFilterUnit := by
      funext p
      cases p <;> rfl
    have hdel : deleteLoop ops.deleteRecord = id :=
      funext fun rows => deleteLoop_eq_self _ (fun row => (hops row).1) rows
    have hloop : updateLoop ops.deleteRecord ops.makeRecord ops.insertRecord = id :=
      funext fun rows => updateLoop_eq_self ops hops rows
    simp only [deletedRows, updatedRows, selectedRows, hrun, hupd, hdel, hloop, id, and_self]

end TDB.Where
