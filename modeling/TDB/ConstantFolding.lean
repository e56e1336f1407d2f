import TDB.ConditionAnalysis

namespace TDB.Analyzer

/-! ## Trees without folding -/

/-- The arithmetic trees over literals and columns that the parser builds. -/
inductive SqlExpr.IsArithmetic : SqlExpr → Prop
  | value (label : Label) (v : Value) : IsArithmetic (.value label v)
  | relAttr (label : Label) (attr : RelAttrSqlNode) : IsArithmetic (.relAttr label attr)
  | arithmetic (label : Label) {type : ArithmeticType} {left right : SqlExpr}
      (htype : type ≠ .negative) (hleft : IsArithmetic left) (hright : IsArithmetic right) :
      IsArithmetic (.arithmetic label type left right)
  | unary (label : Label) {left : SqlExpr} (hleft : IsArithmetic left) :
      IsArithmetic (.unary label .negative left)

def resolveColumns (tableMap : FromList) (tables : List (Option Recorder.TableMeta)) :
    SqlExpr → Except Failure StmtExpr
  | .arithmetic label type left right => do
    let left ← resolveColumns tableMap tables left
    let right ← resolveColumns tableMap tables right
    return .arithmetic label type left right
  | .unary label type left => do
    let left ← resolveColumns tableMap tables left
    return .unary label type left
  | .relAttr label attr => analyzeAttribute tableMap tables label attr
  | .value label v => .ok (.value label v)
  | .values label vs => .ok (.values label vs)
  | .aggr .. => .error (.code .unimplenment)

/-! ## The types of results -/

variable {lib : StdLib}

theorem calcValue_congr (lib : StdLib) (type : ArithmeticType) {target target' : AttrType}
    (h : target = .ints ↔ target' = .ints) (left right : Value) :
    calcValue lib type target left right = calcValue lib type target' left right := by
  unfold calcValue
  simp only [h]

theorem attrType_calcValue_ints {type : ArithmeticType} {left right : Value}
    (htype : type ≠ .div) (hleft : left.isNull = false) (hright : right.isNull = false) :
    (calcValue lib type .ints left right).attrType = .ints := by
  unfold calcValue
  rw [hleft, hright]
  cases type with
  | div => exact absurd rfl htype
  | add | sub | mul | negative => rfl

theorem attrType_calcValue_ne {type : ArithmeticType} {target : AttrType} (left right : Value)
    (htarget : target ≠ .ints) : (calcValue lib type target left right).attrType ≠ .ints := by
  unfold calcValue
  split
  · nofun
  · cases type with
    | div =>
      dsimp only
      split <;> nofun
    | add | sub | mul | negative => nofun

theorem isNull_of_ints {v : Value} (h : v.attrType = .ints) : v.isNull = false := by
  cases v <;> first | rfl | cases h

/-- The result is an integer exactly when the target is one, if then the operands are no `NULL`. -/
theorem attrType_calcValue {type : ArithmeticType} {target : AttrType} {left right : Value}
    (h : target = .ints → type ≠ .div ∧ left.isNull = false ∧ right.isNull = false) :
    (calcValue lib type target left right).attrType = .ints ↔ target = .ints := by
  constructor
  · intro hints
    by_contra hne
    exact attrType_calcValue_ne left right hne hints
  · rintro rfl
    obtain ⟨htype, hleft, hright⟩ := h rfl
    exact attrType_calcValue_ints htype hleft hright

/-! ## Folding -/

structure Folds (lib : StdLib) (e : SqlExpr) (folded kept : StmtExpr) : Prop where
  getValue : ∀ tuple, folded.getValue lib tuple = kept.getValue lib tuple
  valueType : folded.valueType = .ints ↔ kept.valueType = .ints
  constant : ∀ label v, folded = .value label v → (e.valueType = .ints ↔ v.attrType = .ints)

theorem foldArithmetic_cases (lib : StdLib) (label : Label) (type : ArithmeticType)
    (target : AttrType) (left right : StmtExpr) :
    (∃ llabel v rlabel w, left = .value llabel v ∧ right = .value rlabel w ∧
        foldArithmetic lib label type target left right =
          .value label (calcValue lib type target v w)) ∨
      foldArithmetic lib label type target left right = .arithmetic label type left right := by
  cases left with
  | value llabel v =>
    cases right with
    | value rlabel w => exact .inl ⟨llabel, v, rlabel, w, rfl, rfl, rfl⟩
    | _ => exact .inr rfl
  | _ => exact .inr rfl

theorem foldUnary_cases (lib : StdLib) (label : Label) (type : ArithmeticType)
    (target : AttrType) (left : StmtExpr) :
    (∃ llabel v, left = .value llabel v ∧ foldUnary lib label type target left =
        .value label (calcValue lib type target v .undefined)) ∨
      foldUnary lib label type target left = .unary label type left := by
  cases left with
  | value llabel v => exact .inl ⟨llabel, v, rfl, rfl⟩
  | _ => exact .inr rfl

theorem Folds.arithmetic {left right : SqlExpr} {l r l' r' : StmtExpr} {type : ArithmeticType}
    (label : Label) (htype : type ≠ .negative) (hl : Folds lib left l l')
    (hr : Folds lib right r r') :
    Folds lib (.arithmetic label type left right)
      (foldArithmetic lib label type (SqlExpr.arithmetic label type left right).valueType l r)
      (.arithmetic label type l' r') := by
  have hunfolded : ∀ l r : StmtExpr, (StmtExpr.arithmetic label type l r).valueType = .ints ↔
      l.valueType = .ints ∧ r.valueType = .ints ∧ type ≠ .div := by
    intro l r
    rw [StmtExpr.valueType]
    split <;> simp_all
  have hparsed : (SqlExpr.arithmetic label type left right).valueType = .ints ↔
      left.valueType = .ints ∧ right.valueType = .ints ∧ type ≠ .div := by
    rw [SqlExpr.valueType]
    split <;> simp_all
  have hvalue : ∀ tuple, (StmtExpr.arithmetic label type l' r').getValue lib tuple = do
      let v ← l.getValue lib tuple
      let w ← r.getValue lib tuple
      return calcValue lib type (StmtExpr.arithmetic label type l' r').valueType v w := by
    intro tuple
    rw [StmtExpr.getValue, hl.getValue, hr.getValue]
    simp only [htype, if_false]
  have hkept := hunfolded l' r'
  rw [← hl.valueType, ← hr.valueType] at hkept
  rcases foldArithmetic_cases lib label type
    (SqlExpr.arithmetic label type left right).valueType l r with
    ⟨llabel, v, rlabel, w, rfl, rfl, hfold⟩ | hfold
  · -- both sides are literals, so the parsed tree has the type of their values
    have hv := hl.constant llabel v rfl
    have hw := hr.constant rlabel w rfl
    have htarget : (SqlExpr.arithmetic label type left right).valueType = .ints ↔
        (StmtExpr.arithmetic label type l' r').valueType = .ints := by
      rw [hparsed, hkept, hv, hw]
      rfl
    have hints : (calcValue lib type (SqlExpr.arithmetic label type left right).valueType v
        w).attrType = .ints ↔ (SqlExpr.arithmetic label type left right).valueType = .ints := by
      apply attrType_calcValue
      intro h
      obtain ⟨hleft, hright, hdiv⟩ := hparsed.1 h
      exact ⟨hdiv, isNull_of_ints (hv.1 hleft), isNull_of_ints (hw.1 hright)⟩
    rw [hfold]
    refine ⟨?_, hints.trans htarget, ?_⟩
    · intro tuple
      rw [hvalue, calcValue_congr lib type htarget]
      rfl
    · rintro _ _ ⟨⟩
      exact hints.symm
  · rw [hfold]
    have htarget : (StmtExpr.arithmetic label type l r).valueType = .ints ↔
        (StmtExpr.arithmetic label type l' r').valueType = .ints := by
      rw [hunfolded, hkept]
    refine ⟨?_, htarget, nofun⟩
    intro tuple
    rw [hvalue, StmtExpr.getValue]
    simp only [htype, if_false, calcValue_congr lib type htarget]

theorem Folds.unary {left : SqlExpr} {l l' : StmtExpr} (label : Label)
    (hl : Folds lib left l l') :
    Folds lib (.unary label .negative left)
      (foldUnary lib label .negative (SqlExpr.unary label .negative left).valueType l)
      (.unary label .negative l') := by
  have hvalue : ∀ tuple, (StmtExpr.unary label .negative l').getValue lib tuple = do
      let v ← l.getValue lib tuple
      return calcValue lib .negative l'.valueType v .undefined := by
    intro tuple
    rw [StmtExpr.getValue, hl.getValue]
    rfl
  rcases foldUnary_cases lib label .negative (SqlExpr.unary label .negative left).valueType l with
    ⟨llabel, v, rfl, hfold⟩ | hfold
  · have hv := hl.constant llabel v rfl
    have htarget : left.valueType = .ints ↔ l'.valueType = .ints := hv.trans hl.valueType
    have hints : (calcValue lib .negative left.valueType v .undefined).attrType = .ints ↔
        left.valueType = .ints :=
      attrType_calcValue fun h => ⟨by decide, isNull_of_ints (hv.1 h), rfl⟩
    rw [hfold]
    refine ⟨?_, hints.trans htarget, ?_⟩
    · intro tuple
      rw [hvalue, show (SqlExpr.unary label .negative left).valueType = left.valueType from rfl,
        calcValue_congr lib .negative htarget]
      rfl
    · rintro _ _ ⟨⟩
      exact hints.symm
  · rw [hfold]
    refine ⟨?_, hl.valueType, nofun⟩
    intro tuple
    rw [hvalue]
    simp only [calcValue_congr lib .negative hl.valueType.symm]
    rfl

theorem Folds.field (lib : StdLib) (e : SqlExpr) (label : Label) (f : Field) :
    Folds lib e (.field label f) (.field label f) :=
  ⟨fun _ => rfl, Iff.rfl, nofun⟩

theorem Folds.value (lib : StdLib) (label : Label) (v : Value) :
    Folds lib (.value label v) (.value label v) (.value label v) := by
  refine ⟨fun _ => rfl, Iff.rfl, ?_⟩
  rintro _ _ ⟨⟩
  exact Iff.rfl

theorem analyzeExpression_folds (lib : StdLib) (tableMap : FromList)
    (tables : List (Option Recorder.TableMeta)) {e : SqlExpr} (h : e.IsArithmetic) :
    (∃ f, analyzeExpression lib tableMap tables e = .error f ∧
        resolveColumns tableMap tables e = .error f) ∨
      ∃ folded kept, analyzeExpression lib tableMap tables e = .ok folded ∧
        resolveColumns tableMap tables e = .ok kept ∧ Folds lib e folded kept := by
  induction h with
  | value label v => exact .inr ⟨_, _, rfl, rfl, Folds.value lib label v⟩
  | relAttr label attr =>
    cases hattr : analyzeAttribute tableMap tables label attr with
    | error f => exact .inl ⟨f, hattr, hattr⟩
    | ok expr =>
      obtain ⟨label', f, rfl, -⟩ := analyzeAttribute_field hattr
      exact .inr ⟨_, _, hattr, hattr, Folds.field lib _ label' f⟩
  | @arithmetic label type left right htype hleft hright ihl ihr =>
    rw [analyzeExpression, resolveColumns]
    rcases ihl with ⟨f, hl, hl'⟩ | ⟨l, l', hl, hl', hfolds⟩
    · rw [hl, hl']
      exact .inl ⟨f, rfl, rfl⟩
    · rw [hl, hl']
      rcases ihr with ⟨f, hr, hr'⟩ | ⟨r, r', hr, hr', hfolds'⟩
      · rw [hr, hr']
        exact .inl ⟨f, rfl, rfl⟩
      · rw [hr, hr']
        exact .inr ⟨_, _, rfl, rfl, Folds.arithmetic label htype hfolds hfolds'⟩
  | @unary label left hleft ih =>
    rw [analyzeExpression, resolveColumns]
    rcases ih with ⟨f, hl, hl'⟩ | ⟨l, l', hl, hl', hfolds⟩
    · rw [hl, hl']
      exact .inl ⟨f, rfl, rfl⟩
    · rw [hl, hl']
      exact .inr ⟨_, _, rfl, rfl, Folds.unary label hfolds⟩

/-- Constant folding preserves evaluation: for every tree over literals and columns
`analyze_expression` succeeds exactly when the columns resolve, with the same failure otherwise,
and on every row its tree has the value of the tree with all nodes. -/
theorem constantFolding_preserves_evaluation (lib : StdLib) (tableMap : FromList)
    (tables : List (Option Recorder.TableMeta)) {e : SqlExpr} (h : e.IsArithmetic) :
    (∀ f, analyzeExpression lib tableMap tables e = .error f ↔
        resolveColumns tableMap tables e = .error f) ∧
      ∀ folded kept, analyzeExpression lib tableMap tables e = .ok folded →
        resolveColumns tableMap tables e = .ok kept →
        ∀ tuple, folded.getValue lib tuple = kept.getValue lib tuple := by
  rcases analyzeExpression_folds lib tableMap tables h with
    ⟨f, hfolded, hkept⟩ | ⟨folded, kept, hfolded, hkept, hfolds⟩
  · rw [hfolded, hkept]
    exact ⟨fun _ => Iff.rfl, nofun⟩
  · rw [hfolded, hkept]
    refine ⟨fun _ => ⟨nofun, nofun⟩, ?_⟩
    rintro _ _ ⟨⟩ ⟨⟩ tuple
    exact hfolds.getValue tuple

def divisionPlus : SqlExpr :=
  .arithmetic ⟨"1/0+x", ""⟩ .add
    (.arithmetic ⟨"1/0", ""⟩ .div (.value ⟨"1", ""⟩ (.ints 1)) (.value ⟨"0", ""⟩ (.ints 0)))
    attributeX

/-- The division in `1 / 0 + x` is folded, and on every row the sum has the value of the tree. -/
theorem constantFolding_division :
    (∀ f, analyzeExpression plainLib [("t", intTable)] [some intTable] divisionPlus = .error f ↔
        resolveColumns [("t", intTable)] [some intTable] divisionPlus = .error f) ∧
      ∀ folded kept,
        analyzeExpression plainLib [("t", intTable)] [some intTable] divisionPlus = .ok folded →
        resolveColumns [("t", intTable)] [some intTable] divisionPlus = .ok kept →
        ∀ tuple, folded.getValue plainLib tuple = kept.getValue plainLib tuple :=
  constantFolding_preserves_evaluation plainLib [("t", intTable)] [some intTable]
    (.arithmetic _ (by decide)
      (.arithmetic _ (by decide) (.value _ (.ints 1)) (.value _ (.ints 0)))
      (.relAttr _ ⟨"", "x"⟩))

end TDB.Analyzer
