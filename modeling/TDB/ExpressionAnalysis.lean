import TDB.ColumnResolution
import TDB.SelectPlan

namespace TDB.Analyzer

open Recorder (TableMeta FieldMeta TrxType isBlank)
open Where (ConjunctionType WhereConditions)
open Expression (exists_of_bind_ok exists_of_mapM_ok of_bind_error)
open Outcome (FirstFails Gives)

/-! ## What the grammar derives -/

/-- Expressions of the grammar: a `-` before an expression has no right side, the argument of an
aggregate is an attribute, and a `*` has no relation. -/
def SqlExpr.Derived : SqlExpr → Prop
  | .value .. => True
  | .values .. => True
  | .relAttr .. => True
  | .arithmetic _ type left right => type ≠ .negative ∧ left.Derived ∧ right.Derived
  | .unary _ type left => type = .negative ∧ left.Derived
  | .aggr _ _ (.relAttr _ attr) => attr.attributeName = "*" → attr.relationName = ""
  | .aggr .. => False

def oneSided (comp : CompOp) : Bool :=
  comp ∈ [.isNull, .isNotNull, .existsOp, .notExistsOp]

structure ConditionSqlNode.Derived (condition : ConditionSqlNode) : Prop where
  leftExpr : condition.leftExpr.Derived
  rightExpr : ∀ right, condition.rightExpr = some right → right.Derived
  comp : condition.comp ≠ .noOp
  oneSided : condition.rightExpr = none ↔ oneSided condition.comp = true

def SelectSqlNode.filterConditions (sql : SelectSqlNode) : List ConditionSqlNode :=
  sql.joinConditions.flatten ++ sql.whereConditions.conditions

structure SelectSqlNode.Derived (sql : SelectSqlNode) : Prop where
  relations : sql.relations ≠ []
  attributes : ∀ e ∈ sql.attributes, e.Derived
  filterConditions : ∀ c ∈ sql.filterConditions, c.Derived
  havingConditions : ∀ c ∈ sql.havingConditions.conditions, c.Derived

/-! ## Attributes and expressions that resolve -/

def RelAttrSqlNode.Unqualified (attr : RelAttrSqlNode) : Prop := isBlank attr.relationName = true

def RelAttrSqlNode.ResolvesIn (attr : RelAttrSqlNode) (default : Option TableMeta)
    (tables : FromList) : Prop :=
  if isBlank attr.relationName then
    ∃ table, default = some table ∧ (plainField table attr.attributeName).isSome
  else
    ∃ table, tables.find attr.relationName = some table ∧
      (findField table attr.attributeName).isSome

def SqlExpr.Resolves (default : Option TableMeta) (tables : FromList) : SqlExpr → Prop
  | .value .. => True
  | .values .. => True
  | .relAttr _ attr => attr.ResolvesIn default tables
  | .arithmetic _ _ left right => left.Resolves default tables ∧ right.Resolves default tables
  | .unary _ _ left => left.Resolves default tables
  | .aggr _ aggrType argument => argument.Resolves default tables ∧
      ∀ attr ∈ argument.attrs, attr.attributeName = "*" → aggrType = .count

structure ConditionSqlNode.Resolves (condition : ConditionSqlNode) (default : Option TableMeta)
    (tables : FromList) : Prop where
  leftExpr : condition.leftExpr.Resolves default tables
  rightExpr : ∀ right, condition.rightExpr = some right → right.Resolves default tables

/-- There is no default table, and an unqualified attribute comes before any other that does not
resolve. -/
def DereferencesDefault (default : Option TableMeta) (tables : FromList)
    (attrs : List RelAttrSqlNode) : Prop :=
  default = none ∧
    FirstFails (fun attr => attr.ResolvesIn default tables) RelAttrSqlNode.Unqualified attrs

variable {default : Option TableMeta} {tables : FromList} {lib : StdLib}

/-- Without a default table there is nothing but attributes that can fail to resolve. -/
theorem SqlExpr.Derived.resolves_iff {e : SqlExpr} (h : e.Derived) (hdefault : default = none) :
    e.Resolves default tables ↔ ∀ attr ∈ e.attrs, attr.ResolvesIn default tables := by
  induction e with
  | value => simp [SqlExpr.Resolves, SqlExpr.attrs]
  | values => simp [SqlExpr.Resolves, SqlExpr.attrs]
  | relAttr label attr => simp [SqlExpr.Resolves, SqlExpr.attrs]
  | arithmetic label type left right ihl ihr =>
    rw [SqlExpr.Resolves, SqlExpr.attrs, List.forall_mem_append, ihl h.2.1, ihr h.2.2]
  | unary label type left ih => exact ih h.2
  | aggr label aggrType argument =>
    cases argument with
    | relAttr argLabel attr =>
      simp only [SqlExpr.Resolves, SqlExpr.attrs, List.forall_mem_singleton, and_iff_left_iff_imp]
      intro hresolves hstar
      -- a `*` has no relation, and then there would have to be a default table
      have hblank : isBlank attr.relationName = true := by
        rw [h hstar]
        rfl
      rw [RelAttrSqlNode.ResolvesIn, if_pos hblank] at hresolves
      obtain ⟨table, htable, -⟩ := hresolves
      rw [hdefault] at htable
      cases htable
    | _ => exact h.elim

theorem outcome_analyzeAttribute (label : Label) (attr : RelAttrSqlNode) :
    Outcome Fatal (analyzeAttribute tables [default] label attr) (attr.ResolvesIn default tables)
      (default = none ∧ attr.Unqualified) := by
  unfold analyzeAttribute RelAttrSqlNode.ResolvesIn RelAttrSqlNode.Unqualified
  split_ifs with hblank
  · cases default with
    | none =>
      -- one entry passes the check of the number of tables, and it is the null pointer
      exact (Outcome.failure fatal_crash).congr (by simp) (by simp [hblank])
    | some table =>
      dsimp only
      cases hfield : plainField table attr.attributeName with
      | none => exact (Outcome.refusal (not_fatal_code _)).congr (by simp [hfield]) (by simp)
      | some fieldMeta => exact (Outcome.success _).congr (by simp [hfield]) (by simp)
  · cases hfind : tables.find attr.relationName with
    | none => exact (Outcome.refusal (not_fatal_code _)).congr (by simp) (by simp [hblank])
    | some table =>
      dsimp only
      cases hfield : findField table attr.attributeName with
      | none =>
        exact (Outcome.refusal (not_fatal_code _)).congr (by simp [hfield]) (by simp [hblank])
      | some fieldMeta => exact (Outcome.success _).congr (by simp [hfield]) (by simp [hblank])

theorem analyzeAttribute_field {tableList : List (Option TableMeta)} {label : Label}
    {attr : RelAttrSqlNode} {e : StmtExpr}
    (h : analyzeAttribute tables tableList label attr = .ok e) :
    ∃ fieldLabel f, e = .field fieldLabel f ∧ f.fieldMeta.name = attr.attributeName := by
  unfold analyzeAttribute at h
  split_ifs at h with hblank
  · split at h
    · cases h
    · rename_i table
      cases hplain : plainField table attr.attributeName with
      | none => rw [hplain] at h; cases h
      | some fieldMeta =>
        rw [hplain] at h
        obtain rfl := Except.ok.inj h
        refine ⟨_, _, rfl, ?_⟩
        unfold plainField at hplain
        split_ifs at hplain with hstar
        · obtain rfl := Option.some.inj hplain
          exact hstar.symm
        · exact findField_name hplain
    · cases h
  · cases hfind : tables.find attr.relationName with
    | none => rw [hfind] at h; cases h
    | some table =>
      rw [hfind] at h
      dsimp only at h
      cases hfield : findField table attr.attributeName with
      | none => rw [hfield] at h; cases h
      | some fieldMeta =>
        rw [hfield] at h
        obtain rfl := Except.ok.inj h
        exact ⟨_, _, rfl, findField_name hfield⟩

theorem outcome_checkArgument (aggrType : AggrType) (label : Label) (f : Field) :
    Outcome Fatal (checkArgument aggrType (.field label f))
      (f.fieldMeta.name = "*" → aggrType = .count) False := by
  unfold checkArgument
  dsimp only
  split_ifs with h
  · exact (Outcome.refusal (not_fatal_code _)).congr (by tauto) Iff.rfl
  · exact (Outcome.success _).congr (by tauto) Iff.rfl

theorem outcome_analyzeAggr (label argLabel : Label) (aggrType : AggrType)
    (attr : RelAttrSqlNode) :
    Outcome Fatal (analyzeExpression lib tables [default] (.aggr label aggrType
        (.relAttr argLabel attr)))
      (attr.ResolvesIn default tables ∧ (attr.attributeName = "*" → aggrType = .count))
      (default = none ∧ attr.Unqualified) := by
  have hstar : SqlExpr.isCountStar aggrType (.relAttr argLabel attr) =
      .ok (decide (aggrType = .count ∧ attr.relationName = "" ∧ attr.attributeName = "*")) := rfl
  rw [analyzeExpression, hstar]
  by_cases hcount : aggrType = .count ∧ attr.relationName = "" ∧ attr.attributeName = "*"
  · obtain ⟨hcount, hrelation, hname⟩ := hcount
    have hblank : isBlank attr.relationName = true := by
      rw [hrelation]
      rfl
    rw [decide_eq_true ⟨hcount, hrelation, hname⟩]
    change Outcome Fatal (countStar [default] >>= fun f =>
      .ok (StmtExpr.aggr label aggrType f)) _ _
    rw [RelAttrSqlNode.ResolvesIn, if_pos hblank, hname]
    cases default with
    | none => exact (Outcome.failure fatal_crash).congr (by simp) (by simp [hblank,
        RelAttrSqlNode.Unqualified])
    | some table => exact (Outcome.success _).congr (by simp [plainField, hcount]) (by simp)
  · rw [decide_eq_false hcount]
    change Outcome Fatal (analyzeAttribute tables [default] argLabel attr >>= fun field =>
      checkArgument aggrType field >>= fun f => .ok (StmtExpr.aggr label aggrType f)) _ _
    have hcheck : ∀ e, analyzeAttribute tables [default] argLabel attr = .ok e →
        Outcome Fatal
          (checkArgument aggrType e >>= fun f => .ok (StmtExpr.aggr label aggrType f))
          (attr.attributeName = "*" → aggrType = .count) False := by
      intro e he
      obtain ⟨fieldLabel, f, rfl, hname⟩ := analyzeAttribute_field he
      rw [← hname]
      exact (outcome_checkArgument aggrType fieldLabel f).bind_success fun a _ => ⟨_, rfl⟩
    exact ((outcome_analyzeAttribute argLabel attr).bind hcheck).congr Iff.rfl (by simp)

/-- The analysis of an expression goes through its attributes from the left to the right. -/
theorem outcome_analyzeExpression {e : SqlExpr} (h : e.Derived) :
    Outcome Fatal (analyzeExpression lib tables [default] e) (e.Resolves default tables)
      (DereferencesDefault default tables e.attrs) := by
  unfold DereferencesDefault
  induction e with
  | value label v => exact (Outcome.success _).congr Iff.rfl (by simp [SqlExpr.attrs, FirstFails])
  | values label vs => exact (Outcome.success _).congr Iff.rfl (by simp [SqlExpr.attrs, FirstFails])
  | relAttr label attr =>
    exact (outcome_analyzeAttribute label attr).congr Iff.rfl
      (by simp [SqlExpr.attrs, FirstFails])
  | arithmetic label type left right ihl ihr =>
    have hstep := (ihl h.2.1).bind fun l _ => (ihr h.2.2).bind_success
      fun r _ => ⟨foldArithmetic lib label type (SqlExpr.arithmetic label type left right).valueType
        l r, rfl⟩
    rw [analyzeExpression]
    refine hstep.congr Iff.rfl ?_
    rw [SqlExpr.attrs, Outcome.firstFails_append]
    -- the right side is only come to if the left one resolves
    have hleft : default = none → (left.Resolves default tables ↔
        ∀ attr ∈ left.attrs, attr.ResolvesIn default tables) := h.2.1.resolves_iff
    tauto
  | unary label type left ih =>
    rw [analyzeExpression]
    exact (ih h.2).bind_success fun l _ => ⟨_, rfl⟩
  | aggr label aggrType argument =>
    cases argument with
    | relAttr argLabel attr =>
      exact (outcome_analyzeAggr label argLabel aggrType attr).congr
        (by simp [SqlExpr.Resolves, SqlExpr.attrs]) (by simp [SqlExpr.attrs, FirstFails])
    | _ => exact h.elim

/-! ## The expressions the analyzer builds -/

def SqlExpr.isAttribute : SqlExpr → Bool
  | .relAttr .. => true
  | _ => false

theorem foldArithmetic_wellFormed {label : Label} {type : ArithmeticType} {targetType : AttrType}
    {left right : StmtExpr} (htype : type ≠ .negative) (hl : left.WellFormed)
    (hr : right.WellFormed) :
    (foldArithmetic lib label type targetType left right).WellFormed ∧
      ¬∃ fieldLabel f, foldArithmetic lib label type targetType left right =
        .field fieldLabel f := by
  unfold foldArithmetic
  split
  · exact ⟨trivial, not_field_of_none rfl⟩
  · exact ⟨⟨htype, hl, hr⟩, not_field_of_none rfl⟩

theorem foldUnary_wellFormed {label : Label} {type : ArithmeticType} {targetType : AttrType}
    {left : StmtExpr} (htype : type = .negative) (hl : left.WellFormed) :
    (foldUnary lib label type targetType left).WellFormed ∧
      ¬∃ fieldLabel f, foldUnary lib label type targetType left = .field fieldLabel f := by
  unfold foldUnary
  split
  · exact ⟨trivial, not_field_of_none rfl⟩
  · exact ⟨⟨htype, hl⟩, not_field_of_none rfl⟩

theorem checkArgument_field {aggrType : AggrType} {e e' : StmtExpr}
    (h : checkArgument aggrType e = .ok e') : ∃ label f, e' = .field label f := by
  obtain rfl := checkArgument_eq h
  cases e' with
  | field label f => exact ⟨label, f, rfl⟩
  | _ => cases h

theorem countStar_field {tableList : List (Option TableMeta)} {e : StmtExpr}
    (h : countStar tableList = .ok e) : ∃ label f, e = .field label f := by
  unfold countStar at h
  split at h
  · exact ⟨_, _, (Except.ok.inj h).symm⟩
  · cases h

theorem analyzeExpression_wellFormed {tableList : List (Option TableMeta)} {expr : SqlExpr}
    {e : StmtExpr} (hderived : expr.Derived)
    (h : analyzeExpression lib tables tableList expr = .ok e) :
    e.WellFormed ∧ ((∃ label f, e = .field label f) ↔ expr.isAttribute = true) := by
  -- on the expression: parts first, then the folding of the node
  induction expr generalizing e with
  | value label v =>
    obtain rfl := Except.ok.inj h
    exact ⟨trivial, iff_of_false (not_field_of_none rfl) Bool.false_ne_true⟩
  | values label vs =>
    obtain rfl := Except.ok.inj h
    exact ⟨trivial, iff_of_false (not_field_of_none rfl) Bool.false_ne_true⟩
  | relAttr label attr =>
    obtain ⟨fieldLabel, f, rfl, -⟩ := analyzeAttribute_field h
    exact ⟨trivial, iff_of_true ⟨fieldLabel, f, rfl⟩ rfl⟩
  | arithmetic label type left right ihl ihr =>
    rw [analyzeExpression] at h
    obtain ⟨l, hl, h⟩ := exists_of_bind_ok h
    obtain ⟨r, hr, h⟩ := exists_of_bind_ok h
    obtain rfl := Except.ok.inj h
    obtain ⟨hwell, hfield⟩ := @foldArithmetic_wellFormed lib label type
      (SqlExpr.arithmetic label type left right).valueType l r hderived.1
      (ihl hderived.2.1 hl).1 (ihr hderived.2.2 hr).1
    exact ⟨hwell, iff_of_false hfield Bool.false_ne_true⟩
  | unary label type left ih =>
    rw [analyzeExpression] at h
    obtain ⟨l, hl, h⟩ := exists_of_bind_ok h
    obtain rfl := Except.ok.inj h
    obtain ⟨hwell, hfield⟩ := @foldUnary_wellFormed lib label type
      (SqlExpr.unary label type left).valueType l hderived.1 (ih hderived.2 hl).1
    exact ⟨hwell, iff_of_false hfield Bool.false_ne_true⟩
  | aggr label aggrType argument =>
    rw [analyzeExpression] at h
    obtain ⟨star, -, h⟩ := exists_of_bind_ok h
    split_ifs at h
    · obtain ⟨a, ha, h⟩ := exists_of_bind_ok h
      obtain rfl := Except.ok.inj h
      obtain ⟨fieldLabel, f, rfl⟩ := countStar_field ha
      exact ⟨trivial, iff_of_false (not_field_of_none rfl) Bool.false_ne_true⟩
    · obtain ⟨a, ha, h⟩ := exists_of_bind_ok h
      obtain ⟨a', hcheck, h⟩ := exists_of_bind_ok h
      obtain rfl := Except.ok.inj h
      obtain ⟨fieldLabel, f, rfl⟩ := checkArgument_field hcheck
      exact ⟨trivial, iff_of_false (not_field_of_none rfl) Bool.false_ne_true⟩

end TDB.Analyzer
