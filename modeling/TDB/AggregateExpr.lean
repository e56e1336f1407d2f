import TDB.Aggregation
import TDB.ConditionAnalysis

namespace TDB

variable {S T : Type} {lib : StdLib}

/-! ## Formulas over different tuples -/

theorem compareValue_congr (lib : StdLib) (comp : CompOp) {left right : Expression S}
    {left' right' : Expression T} (hleft : left.values? = left'.values?)
    (hright : right.values? = right'.values?) (v w : Value) :
    compareValue lib comp left (some right) v w =
      compareValue lib comp left' (some right') v w := by
  unfold compareValue
  cases comp with
  | existsOp | notExistsOp => simp only [hleft]
  | inOp | notInOp => simp only [hright]
  | _ => rfl

namespace Expression

section Evaluated

variable {α : Type} {type : Where.ConjunctionType}

/-- The children that the loop of `ConjunctionExpr::get_value` gets to before it returns. -/
def evaluated (lib : StdLib) (type : Where.ConjunctionType) (value : α → Except Failure Value) :
    List α → List α
  | [] => []
  | a :: as =>
    match value a with
    | .error _ => [a]
    | .ok v =>
      let b := v.getBoolean lib
      if (type == .and && !b) || (type == .or && b) then [a]
      else a :: evaluated lib type value as

theorem evaluated_cons (value : α → Except Failure Value) (a : α) (as : List α) :
    ∃ later, evaluated lib type value (a :: as) = a :: later ∧
      later ⊆ evaluated lib type value as := by
  rw [evaluated]
  cases value a with
  | error f => exact ⟨[], rfl, List.nil_subset _⟩
  | ok v =>
    dsimp only
    split_ifs
    · exact ⟨[], rfl, List.nil_subset _⟩
    · exact ⟨_, rfl, List.Subset.refl _⟩

theorem evaluated_subset (value : α → Except Failure Value) (as : List α) :
    evaluated lib type value as ⊆ as := by
  induction as with
  | nil => exact List.Subset.refl _
  | cons a as ih =>
    obtain ⟨later, heq, hlater⟩ := evaluated_cons value a as
    rw [heq]
    exact List.cons_subset_cons a (List.Subset.trans hlater ih)

/-- The values of the children that are evaluated decide which ones are. -/
theorem evaluated_congr {value value' : α → Except Failure Value} {as : List α}
    (h : ∀ a ∈ evaluated lib type value as, value a = value' a) :
    evaluated lib type value' as = evaluated lib type value as := by
  induction as with
  | nil => rfl
  | cons a as ih =>
    obtain ⟨later, heq, -⟩ := evaluated_cons value a as
    have hhead : value a = value' a := h a (heq ▸ List.mem_cons_self)
    rw [evaluated] at h
    rw [evaluated, evaluated, ← hhead]
    cases hvalue : value a with
    | error f => rfl
    | ok v =>
      rw [hvalue] at h
      dsimp only at h ⊢
      split_ifs at h ⊢ with hstop
      · rfl
      · rw [ih fun b hb => h b (List.mem_cons_of_mem a hb)]

/-- Conjunctions of one type over children with the same values, up to the early return. -/
theorem getValue_conjunction_congr {es : List α} {f : α → Expression S} {g : α → Expression T}
    {s : S} {t : T}
    (h : ∀ a ∈ evaluated lib type (fun a => (f a).getValue lib s) es,
      (f a).getValue lib s = (g a).getValue lib t) :
    getValue lib s (.conjunction type (es.map f)) =
      getValue lib t (.conjunction type (es.map g)) := by
  have hloop : getValueLoop lib s type (es.map f) = getValueLoop lib t type (es.map g) := by
    induction es with
    | nil => rfl
    | cons a es ih =>
      obtain ⟨later, heq, -⟩ :=
        @evaluated_cons lib α type (fun a => (f a).getValue lib s) a es
      have hhead := h a (heq ▸ List.mem_cons_self)
      rw [evaluated] at h
      rw [List.map_cons, List.map_cons, getValueLoop, getValueLoop, ← hhead]
      cases hvalue : (f a).getValue lib s with
      | error failure => rfl
      | ok v =>
        rw [hvalue] at h
        change (if _ then _ else _) = (if _ then _ else _)
        dsimp only at h
        split_ifs at h ⊢ with hstop
        · rfl
        · exact ih fun b hb => h b (List.mem_cons_of_mem a hb)
  cases es with
  | nil => rfl
  | cons a es =>
    rw [List.map_cons, List.map_cons, getValue, getValue]
    exact hloop

end Evaluated

theorem truth_congr {e : Expression S} {e' : Expression T} {s : S} {t : T}
    (h : e.getValue lib s = e'.getValue lib t) : e.truth lib s = e'.truth lib t := by
  unfold Expression.truth
  rw [h]

end Expression

namespace Analyzer

open Where (ConjunctionType WhereConditions)
open Expression (exists_of_bind_ok)

/-! ## Expressions over aggregates -/

inductive StmtExpr.OverAggregates : StmtExpr → Prop
  | value (label : Label) (v : Value) : OverAggregates (.value label v)
  | values (label : Label) (vs : List Value) : OverAggregates (.values label vs)
  | arithmetic (label : Label) {type : ArithmeticType} {left right : StmtExpr}
      (htype : type ≠ .negative) (hleft : OverAggregates left) (hright : OverAggregates right) :
      OverAggregates (.arithmetic label type left right)
  | unary (label : Label) {left : StmtExpr} (hleft : OverAggregates left) :
      OverAggregates (.unary label .negative left)
  | aggr (label : Label) (aggrType : AggrType) (fieldLabel : Label) (f : Field) :
      OverAggregates (.aggr label aggrType (.field fieldLabel f))

theorem StmtExpr.OverAggregates.wellFormed {e : StmtExpr} (h : e.OverAggregates) :
    e.WellFormed := by
  induction h with
  | arithmetic _ htype _ _ ihl ihr => exact ⟨htype, ihl, ihr⟩
  | unary _ _ ih => exact ⟨rfl, ih⟩
  | _ => trivial

def StmtExpr.aggrUnits : StmtExpr → List (AggrUnit Tuple)
  | .arithmetic _ _ left right => left.aggrUnits ++ right.aggrUnits
  | .unary _ _ left => left.aggrUnits
  | e => (aggrUnit e).toOption.toList

structure FilterUnit.OverAggregates (unit : FilterUnit) : Prop where
  left : unit.left.OverAggregates
  right : ∃ right, unit.right = some right ∧ right.OverAggregates

def FilterUnit.aggrUnits (unit : FilterUnit) : List (AggrUnit Tuple) :=
  unit.left.aggrUnits ++ (unit.right.map StmtExpr.aggrUnits).getD []

theorem FilterUnit.OverAggregates.exists_right {unit : FilterUnit} (h : unit.OverAggregates) :
    ∃ right, unit.right = some right ∧ right.OverAggregates ∧
      unit.aggrUnits = unit.left.aggrUnits ++ right.aggrUnits := by
  obtain ⟨right, hright, hover⟩ := h.right
  refine ⟨right, hright, hover, ?_⟩
  rw [FilterUnit.aggrUnits, hright]
  rfl

abbrev AggrValues := AggrUnit Tuple → Value

def StmtExpr.evaluate (lib : StdLib) (values : AggrValues) : StmtExpr → Except Failure Value
  | .value _ v => .ok v
  | .values .. => .ok .undefined
  | .arithmetic label type left right => do
    let leftValue ← left.evaluate lib values
    let rightValue ← right.evaluate lib values
    return calcValue lib type (StmtExpr.arithmetic label type left right).valueType leftValue
      rightValue
  | .unary label type left => do
    let leftValue ← left.evaluate lib values
    return calcValue lib type (StmtExpr.unary label type left).valueType leftValue .undefined
  | e => (aggrUnit e).map values

/-- The predicate of a filter, which is true without conditions. -/
def filterExpr (lib : StdLib) (filter : WhereConditions FilterUnit) : Expression Tuple :=
  .conjunction filter.type (filter.conditions.map (FilterUnit.expr lib))

def StmtExpr.toFormula (lib : StdLib) : StmtExpr → Expression AggrValues
  | .value _ v => .value v
  | .values _ vs => .values vs
  | e => .other .aggr fun values => e.evaluate lib values

def FilterUnit.formula (lib : StdLib) (unit : FilterUnit) : Expression AggrValues :=
  match unit.right with
  | none => .unary unit.comp (unit.left.toFormula lib)
  | some right => .comparison unit.comp (unit.left.toFormula lib) (right.toFormula lib)

/-- The formula of a `HAVING` clause, which is true without conditions. -/
def havingFormula (lib : StdLib) (filter : WhereConditions FilterUnit) : Expression AggrValues :=
  .conjunction filter.type (filter.conditions.map (FilterUnit.formula lib))

def valuesOver (lib : StdLib) (rows : List Tuple) : AggrValues := fun unit => unit.result lib rows

/-- What is left of the values when only some aggregates were computed; the others are looked up by
their texts as well. -/
def computed (units : List (AggrUnit Tuple)) (values : AggrValues) : AggrValues := fun unit =>
  if unit.aliasName ∈ units.map AggrUnit.aliasName then values unit else .undefined

/-! ## The row of the aggregation -/

section Row

variable {units : List (AggrUnit Tuple)} {values : AggrValues}

/-- The texts of the computed aggregates are not empty and tell the aggregates apart. -/
structure TextsDetermine (units : List (AggrUnit Tuple)) (units' : List (AggrUnit Tuple)) :
    Prop where
  ne_empty : ∀ unit ∈ units, unit.aliasName ≠ ""
  eq_of_text : ∀ unit ∈ units, ∀ unit' ∈ units', unit.aliasName = unit'.aliasName → unit = unit'

theorem TextsDetermine.mono {units' units'' : List (AggrUnit Tuple)}
    (h : TextsDetermine units units') (hsubset : units'' ⊆ units') :
    TextsDetermine units units'' :=
  ⟨h.ne_empty, fun unit hunit unit' hunit' => h.eq_of_text unit hunit unit' (hsubset hunit')⟩

theorem findCell_aggrTuple_cons (unit : AggrUnit Tuple) (units : List (AggrUnit Tuple))
    (result : Value) (results : List Value) (spec : TupleCellSpec) :
    (aggrTuple (unit :: units) (result :: results)).findCell spec =
      if unit.aliasName = spec.aliasName ∨ unit.aliasName = spec.fieldName then .ok result
      else (aggrTuple units results).findCell spec := by
  simp only [aggrTuple, List.zip_cons_cons, List.find?_cons]
  by_cases hfound : unit.aliasName = spec.aliasName ∨ unit.aliasName = spec.fieldName
  · simp only [hfound, decide_true, if_true]
  · simp only [hfound, decide_false, if_false]

theorem findCell_aggrTuple {unit : AggrUnit Tuple} (htexts : TextsDetermine units [unit])
    (values : AggrValues) :
    (aggrTuple units (units.map values)).findCell ⟨"", "", unit.aliasName⟩ =
      if unit.aliasName ∈ units.map AggrUnit.aliasName then .ok (values unit)
      else .error (.code .notfound) := by
  induction units with
  | nil => rfl
  | cons head units ih =>
    have htail : TextsDetermine units [unit] :=
      ⟨fun other h => htexts.ne_empty other (List.mem_cons_of_mem head h),
        fun other h => htexts.eq_of_text other (List.mem_cons_of_mem head h)⟩
    have hne : head.aliasName ≠ "" := htexts.ne_empty head List.mem_cons_self
    rw [List.map_cons, findCell_aggrTuple_cons, ih htail, List.map_cons]
    -- the first aggregate of that text is the one that is found
    by_cases htext : head.aliasName = unit.aliasName
    · have hunit : head = unit :=
        htexts.eq_of_text head List.mem_cons_self unit (List.mem_singleton_self unit) htext
      rw [if_pos (.inl htext), if_pos (List.mem_cons.mpr (.inl htext.symm)), hunit]
    · have hmiss : ¬(head.aliasName = unit.aliasName ∨ head.aliasName = "") := by
        rintro (h | h)
        · exact htext h
        · exact hne h
      have hmem : unit.aliasName ∈ head.aliasName :: units.map AggrUnit.aliasName ↔
          unit.aliasName ∈ units.map AggrUnit.aliasName := by
        rw [List.mem_cons, or_iff_right (Ne.symm htext)]
      rw [if_neg hmiss]
      simp only [hmem]

/-- An expression over the row is the expression over the values that were computed. -/
theorem StmtExpr.OverAggregates.getValue_aggrTuple {e : StmtExpr} (h : e.OverAggregates)
    (htexts : TextsDetermine units e.aggrUnits) (lib : StdLib) (values : AggrValues) :
    e.getValue lib (aggrTuple units (units.map values)) =
      e.evaluate lib (computed units values) := by
  induction h with
  | value => rfl
  | values => rfl
  | @arithmetic label type left right htype hleft hright ihl ihr =>
    have hl := ihl (htexts.mono (List.subset_append_left _ _))
    have hr := ihr (htexts.mono (List.subset_append_right _ _))
    rw [StmtExpr.getValue, StmtExpr.evaluate, hl, hr]
    simp only [htype, if_false]
  | unary label hleft ih =>
    rw [StmtExpr.getValue, StmtExpr.evaluate, ih htexts]
    rfl
  | aggr label aggrType fieldLabel f =>
    have hcell := findCell_aggrTuple htexts values
    rw [StmtExpr.getValue]
    change (aggrTuple units (units.map values)).findCell ⟨"", "", label.name⟩ = _ at hcell
    rw [hcell]
    unfold StmtExpr.evaluate aggrUnit computed
    dsimp only [Except.map]
    split_ifs <;> rfl

theorem StmtExpr.OverAggregates.evaluate_congr {e : StmtExpr} (h : e.OverAggregates)
    (lib : StdLib) {values values' : AggrValues}
    (hvalues : ∀ unit ∈ e.aggrUnits, values unit = values' unit) :
    e.evaluate lib values = e.evaluate lib values' := by
  induction h with
  | value => rfl
  | values => rfl
  | arithmetic label htype hleft hright ihl ihr =>
    rw [StmtExpr.evaluate, StmtExpr.evaluate,
      ihl fun unit hunit => hvalues unit (List.mem_append_left _ hunit),
      ihr fun unit hunit => hvalues unit (List.mem_append_right _ hunit)]
  | unary label hleft ih =>
    rw [StmtExpr.evaluate, StmtExpr.evaluate, ih hvalues]
  | aggr label aggrType fieldLabel f =>
    exact congrArg Except.ok (hvalues _ (List.mem_singleton_self _))

end Row

theorem StmtExpr.getValue_toExpression (lib : StdLib) (e : StmtExpr) (tuple : Tuple) :
    (e.toExpression lib).getValue lib tuple = e.getValue lib tuple := by
  cases e <;> rw [StmtExpr.toExpression, Expression.getValue] <;> rfl

theorem StmtExpr.getValue_toFormula (lib : StdLib) (e : StmtExpr) (values : AggrValues) :
    (e.toFormula lib).getValue lib values = e.evaluate lib values := by
  cases e <;> simp only [StmtExpr.toFormula, Expression.getValue, StmtExpr.evaluate]

theorem StmtExpr.values?_toFormula (lib : StdLib) (e : StmtExpr) :
    (e.toExpression lib).values? = (e.toFormula lib).values? := by
  cases e <;> rfl

theorem FilterUnit.OverAggregates.getValue_aggrTuple {units : List (AggrUnit Tuple)}
    {unit : FilterUnit} (h : unit.OverAggregates) (htexts : TextsDetermine units unit.aggrUnits)
    (lib : StdLib) (values : AggrValues) :
    (unit.expr lib).getValue lib (aggrTuple units (units.map values)) =
      (unit.formula lib).getValue lib (computed units values) := by
  obtain ⟨right, hright, hover, haggrUnits⟩ := h.exists_right
  rw [haggrUnits] at htexts
  have hl := h.left.getValue_aggrTuple (htexts.mono (List.subset_append_left _ _)) lib values
  have hr := hover.getValue_aggrTuple (htexts.mono (List.subset_append_right _ _)) lib values
  unfold FilterUnit.expr FilterUnit.formula
  rw [hright]
  dsimp only
  rw [Expression.getValue, Expression.getValue, StmtExpr.getValue_toExpression,
    StmtExpr.getValue_toExpression, StmtExpr.getValue_toFormula, StmtExpr.getValue_toFormula,
    hl, hr]
  simp only [compareValue_congr lib unit.comp (unit.left.values?_toFormula lib)
    (right.values?_toFormula lib)]

theorem truth_aggrTuple {units : List (AggrUnit Tuple)} {filter : WhereConditions FilterUnit}
    (hover : ∀ unit ∈ filter.conditions, unit.OverAggregates)
    (htexts : TextsDetermine units (filter.conditions.flatMap FilterUnit.aggrUnits))
    (lib : StdLib) (values : AggrValues) :
    (filterExpr lib filter).truth lib (aggrTuple units (units.map values)) =
      (havingFormula lib filter).truth lib (computed units values) := by
  apply Expression.truth_congr
  apply Expression.getValue_conjunction_congr
  intro unit hmet
  have hunit : unit ∈ filter.conditions := Expression.evaluated_subset _ _ hmet
  apply (hover unit hunit).getValue_aggrTuple
  exact htexts.mono fun _ h => List.mem_flatMap.mpr ⟨unit, hunit, h⟩

theorem FilterUnit.OverAggregates.getValue_formula_congr {unit : FilterUnit}
    (h : unit.OverAggregates) {values values' : AggrValues}
    (hvalues : ∀ u ∈ unit.aggrUnits, values u = values' u) :
    (unit.formula lib).getValue lib values = (unit.formula lib).getValue lib values' := by
  obtain ⟨right, hright, hoverRight, haggrUnits⟩ := h.exists_right
  rw [haggrUnits] at hvalues
  have hl := h.left.evaluate_congr lib fun u hu => hvalues u (List.mem_append_left _ hu)
  have hr := hoverRight.evaluate_congr lib fun u hu => hvalues u (List.mem_append_right _ hu)
  unfold FilterUnit.formula
  rw [hright]
  dsimp only
  rw [Expression.getValue, Expression.getValue, StmtExpr.getValue_toFormula,
    StmtExpr.getValue_toFormula, StmtExpr.getValue_toFormula, StmtExpr.getValue_toFormula, hl, hr]

end Analyzer

end TDB
