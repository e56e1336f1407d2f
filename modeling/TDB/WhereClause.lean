import Mathlib.Data.List.Basic
import TDB.RC

namespace TDB.Where

inductive ConjunctionType where
  | and | or
  deriving DecidableEq, Repr

/-- `WhereConditions` of the parser: one connector field for the whole list. -/
structure WhereConditions (C : Type) where
  type : ConjunctionType := .and
  conditions : List C := []

/-- Derivation trees of the grammar symbol `condition_list`, one constructor per production. -/
inductive ConditionList (C : Type) where
  | empty
  | condition (c : C)
  | and (c : C) (rest : ConditionList C)
  | or (c : C) (rest : ConditionList C)

/-- A semantic action or a planner function dereferences a null pointer. -/
inductive Crash where
  | nullDereference
  deriving DecidableEq, Repr

/-- The two recursive actions of `condition_list`: they reuse the list `$3` of the tail,
overwrite its connector and append the head condition. -/
def extendConditions {C : Type} (type : ConjunctionType) (c : C) :
    Option (WhereConditions C) → Except Crash (Option (WhereConditions C))
  | none => .error .nullDereference
  | some w => .ok (some { type := type, conditions := w.conditions ++ [c] })

/-- The semantic actions of `condition_list`; `none` is the null pointer of the empty list. -/
def conditionList {C : Type} : ConditionList C → Except Crash (Option (WhereConditions C))
  | .empty => .ok none
  | .condition c => .ok (some { conditions := [c] })
  | .and c rest => conditionList rest >>= extendConditions .and c
  | .or c rest => conditionList rest >>= extendConditions .or c

/-- The derivation of `c₁ op₁ c₂ op₂ … cₙ`, whose connectors and later conditions are `rest`. -/
def derivation {C : Type} (c : C) : List (ConjunctionType × C) → ConditionList C
  | [] => .condition c
  | (.and, d) :: rest => .and c (derivation d rest)
  | (.or, d) :: rest => .or c (derivation d rest)

/-- The connector the list ends with: the head of the list is reduced last. -/
def headType : List ConjunctionType → ConjunctionType
  | [] => .and
  | t :: _ => t

/-- The parser keeps every condition, in reverse order, and only the first connector. -/
theorem conditionList_derivation {C : Type} (c : C) (rest : List (ConjunctionType × C)) :
    conditionList (derivation c rest) =
      .ok (some ⟨headType (rest.map Prod.fst), (c :: rest.map Prod.snd).reverse⟩) := by
  induction rest generalizing c with
  | nil => rfl
  | cons head rest ih =>
    obtain ⟨type, d⟩ := head
    cases type <;>
      simp [derivation, conditionList, ih, extendConditions, headType, bind, Except.bind]

/-! ## The filter statement and its predicate -/

/-- Kinds of expressions that the analyzer can put on either side of a comparison. -/
inductive ExprType where
  | field | value | values | comparison | conjunction | arithmetic | relAttr | aggr
  deriving DecidableEq, Repr

/-- A `FilterUnit` as the planner sees it: the kinds of its two sides, the right one being null
for a one-operand condition, and the truth value `ComparisonExpr::get_value` has on a row. -/
structure FilterUnit (T : Type) where
  left : ExprType
  right : Option ExprType
  getValue : T → Except RC Bool

/-- `FilterStmt`: the connector is `AND` until `set_conjunction_type` changes it. -/
structure FilterStmt (T : Type) where
  conjunctionType : ConjunctionType := .and
  filterUnits : List (FilterUnit T) := []

/-- `FilterStmt::create`: analyse the conditions in order, stop at the first error. -/
def FilterStmt.create {C T : Type} (createFilterUnit : C → Except RC (FilterUnit T))
    (conditions : List C) : Except RC (FilterStmt T) :=
  (conditions.mapM createFilterUnit).map fun units => { filterUnits := units }

def FilterStmt.setConjunctionType {T : Type} (stmt : FilterStmt T) (type : ConjunctionType) :
    FilterStmt T := { stmt with conjunctionType := type }

/-- `ConjunctionExpr` over comparisons. -/
structure ConjunctionExpr (T : Type) where
  conjunctionType : ConjunctionType
  children : List (FilterUnit T)

/-- `_transfer_filter_stmt_to_expr`; `none` is the null pointer of an empty filter. -/
def transferFilterStmtToExpr {T : Type} (stmt : FilterStmt T) : Option (ConjunctionExpr T) :=
  if stmt.filterUnits.isEmpty then none else some ⟨stmt.conjunctionType, stmt.filterUnits⟩

/-- The loop of `ConjunctionExpr::get_value`, with its early return and its default. -/
def getValueLoop {T : Type} (type : ConjunctionType) (row : T) :
    List (FilterUnit T) → Except RC Bool
  | [] => .ok (type == .and)
  | e :: es => do
    let b ← e.getValue row
    if (type == .and && !b) || (type == .or && b) then return b
    getValueLoop type row es

/-- `ConjunctionExpr::get_value`: an empty conjunction is true whatever its connector. -/
def ConjunctionExpr.getValue {T : Type} (e : ConjunctionExpr T) (row : T) : Except RC Bool :=
  if e.children.isEmpty then .ok true else getValueLoop e.conjunctionType row e.children

def connect : ConjunctionType → List Bool → Bool
  | .and, bs => bs.all id
  | .or, bs => bs.any id

theorem getValueLoop_of_values {T : Type} (type : ConjunctionType) (row : T)
    (es : List (FilterUnit T)) (bs : List Bool)
    (h : es.map (fun e => e.getValue row) = bs.map .ok) :
    getValueLoop type row es = .ok (connect type bs) := by
  induction es generalizing bs with
  | nil =>
    cases bs with
    | nil => cases type <;> rfl
    | cons b bs => simp at h
  | cons e es ih =>
    cases bs with
    | nil => simp at h
    | cons b bs =>
      simp only [List.map_cons, List.cons.injEq] at h
      simp only [getValueLoop, h.1, bind, Except.bind, ih bs h.2]
      cases type <;> cases b <;> simp [connect, pure, Except.pure]

/-- The value of one written condition on a row: analysis, then evaluation. -/
def conditionValue {C T : Type} (createFilterUnit : C → Except RC (FilterUnit T)) (row : T)
    (c : C) : Except RC Bool := do
  let unit ← createFilterUnit c
  unit.getValue row

/-- The predicate of a `SELECT`: parse, build the filter, keep the connector, evaluate. -/
def selectAccepts {C T : Type} (createFilterUnit : C → Except RC (FilterUnit T))
    (tree : ConditionList C) (row : T) : Except Crash (Except RC Bool) := do
  match ← conditionList tree with
  | none => return .ok true
  | some w => return do
    let stmt ← FilterStmt.create createFilterUnit w.conditions
    match transferFilterStmtToExpr (stmt.setConjunctionType w.type) with
    | none => return true
    | some e => e.getValue row

/-! ## The SQL reading -/

/-- The `OR`-separated groups of a condition list, `AND` binding tighter than `OR`. -/
def orGroups {C : Type} (c : C) : List (ConjunctionType × C) → List (List C)
  | [] => [[c]]
  | (.and, d) :: rest =>
    match orGroups d rest with
    | [] => [[c]]
    | g :: gs => (c :: g) :: gs
  | (.or, d) :: rest => [c] :: orGroups d rest

/-- The SQL truth value of `c₁ op₁ c₂ … cₙ` when condition `c` has the value `value c`. -/
def sqlFormula {C : Type} (value : C → Bool) (c : C) (rest : List (ConjunctionType × C)) : Bool :=
  (orGroups c rest).any fun g => g.all value

/-! ## When the two agree -/

theorem connect_reverse (type : ConjunctionType) (bs : List Bool) :
    connect type bs.reverse = connect type bs := by
  cases type <;> simp [connect]

theorem mapM_createFilterUnit {C T : Type} (createFilterUnit : C → Except RC (FilterUnit T))
    (row : T) (value : C → Bool) (cs : List C)
    (h : ∀ d ∈ cs, conditionValue createFilterUnit row d = .ok (value d)) :
    ∃ units, cs.mapM createFilterUnit = .ok units ∧
      units.map (fun e => e.getValue row) = (cs.map value).map .ok := by
  induction cs with
  | nil => exact ⟨[], rfl, rfl⟩
  | cons c cs ih =>
    obtain ⟨units, hunits, hvalues⟩ := ih fun d hd => h d (by simp [hd])
    have hc := h c (by simp)
    cases hu : createFilterUnit c with
    | error rc => simp [conditionValue, hu, bind, Except.bind] at hc
    | ok unit =>
      refine ⟨unit :: units, ?_, ?_⟩
      · simp [List.mapM_cons, hu, hunits, bind, Except.bind, pure, Except.pure]
      · simp only [conditionValue, hu, bind, Except.bind] at hc
        simp only [List.map_cons, hc, hvalues]

/-- On a row where every condition has a value, the predicate joins all of them by the first
connector of the list. -/
theorem selectAccepts_eq {C T : Type} (createFilterUnit : C → Except RC (FilterUnit T)) (row : T)
    (value : C → Bool) (c : C) (rest : List (ConjunctionType × C))
    (h : ∀ d ∈ c :: rest.map Prod.snd, conditionValue createFilterUnit row d = .ok (value d)) :
    selectAccepts createFilterUnit (derivation c rest) row =
      .ok (.ok (connect (headType (rest.map Prod.fst)) ((c :: rest.map Prod.snd).map value))) := by
  obtain ⟨units, hunits, hvalues⟩ := mapM_createFilterUnit createFilterUnit row value
    (c :: rest.map Prod.snd).reverse (fun d hd => h d (List.mem_reverse.mp hd))
  have hne : units.isEmpty = false := by
    have hlen := congrArg List.length hvalues
    cases units with
    | nil => simp at hlen
    | cons u us => rfl
  have hloop : getValueLoop (headType (rest.map Prod.fst)) row units = .ok
      (connect (headType (rest.map Prod.fst)) ((c :: rest.map Prod.snd).map value)) := by
    rw [← connect_reverse _ (List.map value _), ← List.map_reverse]
    exact getValueLoop_of_values _ row units _ hvalues
  simp only [selectAccepts, conditionList_derivation, bind, Except.bind, pure, Except.pure,
    FilterStmt.create, hunits, Except.map, FilterStmt.setConjunctionType,
    transferFilterStmtToExpr, hne, ConjunctionExpr.getValue, hloop, Bool.false_eq_true, ↓reduceIte]

/-- One connector: all groups are joined the same way, so the reading is plain. -/
theorem sqlFormula_of_all {C : Type} (value : C → Bool) (type : ConjunctionType) (c : C)
    (rest : List (ConjunctionType × C)) (h : ∀ o ∈ rest.map Prod.fst, o = type) :
    sqlFormula value c rest = connect type ((c :: rest.map Prod.snd).map value) := by
  cases type with
  | and =>
    have hg : orGroups c rest = [c :: rest.map Prod.snd] := by
      induction rest generalizing c with
      | nil => rfl
      | cons head rest ih =>
        obtain ⟨o, d⟩ := head
        obtain rfl : o = .and := h o (by simp)
        rw [orGroups, ih d fun o ho => h o (by simp [ho])]
        rfl
    simp [sqlFormula, hg, connect]
  | or =>
    have hg : orGroups c rest = (c :: rest.map Prod.snd).map fun d => [d] := by
      induction rest generalizing c with
      | nil => rfl
      | cons head rest ih =>
        obtain ⟨o, d⟩ := head
        obtain rfl : o = .or := h o (by simp)
        rw [orGroups, ih d fun o ho => h o (by simp [ho])]
        rfl
    simp [sqlFormula, hg, connect, List.any_map, Function.comp_def]

theorem orGroups_ne_nil {C : Type} (c : C) (rest : List (ConjunctionType × C)) :
    orGroups c rest ≠ [] := by
  cases rest with
  | nil => simp [orGroups]
  | cons head rest =>
    obtain ⟨o, d⟩ := head
    cases o with
    | and =>
      rw [orGroups]
      split <;> simp
    | or => simp [orGroups]

theorem orGroups_all_true (ops : List ConjunctionType) :
    ∀ g ∈ orGroups true (ops.map fun o => (o, true)), g.all id = true := by
  induction ops with
  | nil => simp [orGroups]
  | cons o ops ih =>
    intro g hg
    cases o with
    | and =>
      simp only [List.map_cons, orGroups] at hg
      split at hg
      · simp_all
      · rename_i g' gs hgs
        rcases List.mem_cons.mp hg with rfl | hg
        · simpa using ih g' (by simp [hgs])
        · exact ih g (by simp [hgs, hg])
    | or =>
      simp only [List.map_cons, orGroups] at hg
      rcases List.mem_cons.mp hg with rfl | hg
      · rfl
      · exact ih g hg

/-- Later conditions all true: every group after the first is true. -/
theorem orGroups_tail_true (ops : List ConjunctionType) (b : Bool) :
    ∀ g ∈ (orGroups b (ops.map fun o => (o, true))).tail, g.all id = true := by
  induction ops generalizing b with
  | nil => simp [orGroups]
  | cons o ops ih =>
    cases o with
    | and =>
      intro g hg
      simp only [List.map_cons, orGroups] at hg
      split at hg
      · simp at hg
      · rename_i g' gs hgs
        exact ih true g (by rw [hgs]; exact hg)
    | or =>
      intro g hg
      simp only [List.map_cons, orGroups, List.tail_cons] at hg
      exact orGroups_all_true ops g hg

theorem orGroups_tail_ne_nil {C : Type} (c : C) (rest : List (ConjunctionType × C))
    (h : .or ∈ rest.map Prod.fst) : (orGroups c rest).tail ≠ [] := by
  induction rest generalizing c with
  | nil => simp at h
  | cons head rest ih =>
    obtain ⟨o, d⟩ := head
    cases o with
    | and =>
      have hd := ih d (by simpa using h)
      rw [orGroups]
      cases hg : orGroups d rest with
      | nil => simp [hg] at hd
      | cons g gs => simpa [hg] using hd
    | or => exact orGroups_ne_nil d rest

/-- Truth values that are true exactly before an `AND`: the value of the first condition. -/
def beforeAnd : List ConjunctionType → Bool
  | [] => false
  | t :: _ => t == .and

/-- Truth values that are true exactly before an `AND`: the later conditions. -/
def marks : List ConjunctionType → List (ConjunctionType × Bool)
  | [] => []
  | t :: ts => (t, beforeAnd ts) :: marks ts

theorem marks_fst (ops : List ConjunctionType) : (marks ops).map Prod.fst = ops := by
  induction ops with
  | nil => rfl
  | cons t ts ih => simp [marks, ih]

/-- Every group of the marked list ends in a false condition. -/
theorem sqlFormula_marks (ops : List ConjunctionType) :
    sqlFormula id (beforeAnd ops) (marks ops) = false := by
  induction ops with
  | nil => rfl
  | cons t ts ih =>
    cases t with
    | and =>
      simp only [sqlFormula] at ih ⊢
      rw [marks, orGroups]
      cases hg : orGroups (beforeAnd ts) (marks ts) with
      | nil => exact absurd hg (orGroups_ne_nil _ _)
      | cons g gs =>
        rw [hg] at ih
        simpa [beforeAnd] using ih
    | or =>
      simp only [sqlFormula] at ih ⊢
      rw [marks, orGroups, List.any_cons, ih]
      rfl

theorem true_mem_marks (ops : List ConjunctionType) (h : .and ∈ ops) :
    true ∈ beforeAnd ops :: (marks ops).map Prod.snd := by
  induction ops with
  | nil => simp at h
  | cons t ts ih =>
    cases t with
    | and => simp [beforeAnd]
    | or =>
      have := ih (by simpa using h)
      simp only [marks, List.map_cons, List.mem_cons]
      exact .inr (List.mem_cons.mp this)

/-- The literal conditions `TRUE` and `FALSE`, on a table with a single row. -/
def literalUnit (b : Bool) : Except RC (FilterUnit Unit) := .ok
    ⟨.value, some .value, fun _ => .ok b⟩

theorem selectAccepts_literal (b : Bool) (rest : List (ConjunctionType × Bool)) :
    selectAccepts literalUnit (derivation b rest) () =
      .ok (.ok (connect (headType (rest.map Prod.fst)) (b :: rest.map Prod.snd))) := by
  have h := selectAccepts_eq literalUnit () id b rest fun _ _ => rfl
  rwa [List.map_id] at h

/-- `FALSE AND TRUE OR TRUE` is true in SQL and rejected by the predicate. -/
theorem selectAccepts_mixed_connectors :
    (∀ d ∈ [false, true, true], conditionValue literalUnit () d = .ok d) ∧
      sqlFormula id false [(.and, true), (.or, true)] = true ∧
      selectAccepts literalUnit (derivation false [(.and, true), (.or, true)]) () =
        .ok (.ok false) :=
  ⟨fun _ _ => rfl, rfl, rfl⟩

/-- A condition list is read as SQL reads it on every row exactly when it uses one connector. -/
theorem selectAccepts_iff_sqlFormula (ops : List ConjunctionType) :
    (∀ (C T : Type) (createFilterUnit : C → Except RC (FilterUnit T)) (row : T)
        (value : C → Bool) (c : C) (rest : List (ConjunctionType × C)),
        rest.map Prod.fst = ops →
        (∀ d ∈ c :: rest.map Prod.snd, conditionValue createFilterUnit row d = .ok (value d)) →
        selectAccepts createFilterUnit (derivation c rest) row =
          .ok (.ok (sqlFormula value c rest))) ↔
      ∀ o ∈ ops, ∀ o' ∈ ops, o = o' := by
  constructor
  · intro h
    -- the head connector decides; a different one later gives a row the two readings disagree on
    cases ops with
    | nil => simp
    | cons t ts =>
      suffices hts : ∀ o ∈ ts, o = t by
        intro o ho o' ho'
        have hall : ∀ u ∈ t :: ts, u = t := by simpa using hts
        rw [hall o ho, hall o' ho']
      intro o ho
      by_contra hne
      cases t with
      | and =>
        obtain rfl : o = .or := by cases o <;> simp_all
        have hs := h Bool Unit literalUnit () id false ((.and :: ts).map fun o => (o, true))
          (by simp [Function.comp_def]) (fun _ _ => rfl)
        rw [selectAccepts_literal] at hs
        have hf : sqlFormula id false ((.and :: ts).map fun o => (o, true)) = true := by
          obtain ⟨g, hg⟩ := List.exists_mem_of_ne_nil _ (orGroups_tail_ne_nil false
            ((.and :: ts).map fun o => (o, true)) (by simp [Function.comp_def, ho]))
          exact List.any_eq_true.mpr
            ⟨g, List.mem_of_mem_tail hg, orGroups_tail_true (.and :: ts) false g hg⟩
        rw [hf] at hs
        simp [headType, connect] at hs
      | or =>
        obtain rfl : o = .and := by cases o <;> simp_all
        have hs := h Bool Unit literalUnit () id (beforeAnd (.or :: ts)) (marks (.or :: ts))
          (marks_fst _) (fun _ _ => rfl)
        rw [selectAccepts_literal, marks_fst, sqlFormula_marks] at hs
        have htrue := true_mem_marks (.or :: ts) (by simp [ho])
        simp only [headType, connect, Except.ok.injEq, List.any_eq_false] at hs
        exact hs true htrue rfl
  · intro h C T createFilterUnit row value c rest hops hvalues
    have hall : ∀ o ∈ rest.map Prod.fst, o = headType (rest.map Prod.fst) := by
      rw [hops]
      cases ops with
      | nil => simp
      | cons t ts => exact fun o ho => h o ho t (by simp)
    rw [selectAccepts_eq createFilterUnit row value c rest hvalues,
      sqlFormula_of_all value _ c rest hall]

end TDB.Where
