import TDB.Expression

namespace TDB

open Where (ConjunctionType)

variable {T : Type}

/-! ## The rules -/

/-- `ComparisonSimplificationRule::rewrite`: a comparison of constants is replaced by its value.
Return codes of `try_get_value` are ignored, exceptions are not caught. -/
def comparisonSimplification (lib : StdLib) (e : Expression T) :
    Except Failure (Expression T × Bool) :=
  match e.tryGetValue lib with
  | .ok v => .ok (.value v, true)
  | .error (.code _) => .ok (e, false)
  | .error f => .error f

def boolConstant : Expression T → Option Bool
  | .value (.booleans b) => some b
  | _ => none

inductive Simplified (T : Type) where
  | always (e : Expression T)
  | remaining (es : List (Expression T))

/-- The loop over the children; `kept` are those that the iterator has passed.  A constant that
decides the conjunction makes the loop take the first child that is still there. -/
def simplifyLoop (type : ConjunctionType) (kept : List (Expression T)) :
    List (Expression T) → Simplified T
  | [] => .remaining kept
  | e :: es =>
    match boolConstant e with
    | none => simplifyLoop type (kept ++ [e]) es
    | some constantValue =>
      match type with
      | .and =>
        if constantValue then simplifyLoop type kept es else .always (kept.headD e)
      | .or =>
        if constantValue then .always (kept.headD e) else simplifyLoop type kept es

/-- `ConjunctionSimplificationRule::rewrite`; only the last branch reports a change. -/
def conjunctionSimplification : Expression T → Expression T × Bool
  | .conjunction type es =>
    match simplifyLoop type [] es with
    | .always e => (e, false)
    | .remaining [e] => (e, true)
    | .remaining es => (.conjunction type es, false)
  | e => (e, false)

/-! ## The rewriter -/

def rewriteChildren (rewrite : Expression T → Except Failure (Expression T × Bool)) :
    List (Expression T) → Except Failure (List (Expression T) × Bool)
  | [] => .ok ([], false)
  | e :: es => do
    let (e, changeMade) ← rewrite e
    let (es, changeMade') ← rewriteChildren rewrite es
    return (e :: es, changeMade || changeMade')

def rewriteParts (rewrite : Expression T → Except Failure (Expression T × Bool)) :
    Expression T → Except Failure (Expression T × Bool)
  | .comparison comp left right => do
    let (left, leftChangeMade) ← rewrite left
    let (right, rightChangeMade) ← rewrite right
    return (.comparison comp left right, leftChangeMade || rightChangeMade)
  | .unary comp left => do
    let (left, leftChangeMade) ← rewrite left
    return (.unary comp left, leftChangeMade)
  | .conjunction type es => do
    let (es, changeMade) ← rewriteChildren rewrite es
    return (.conjunction type es, changeMade)
  | e => .ok (e, false)

/-- `rewrite_expression`.  The parts of an expression are smaller than it is, so that the fuel
`size` is never used up. -/
def rewriteExpression (lib : StdLib) : ℕ → Expression T → Except Failure (Expression T × Bool)
  | 0, _ => .error .crash
  | fuel + 1, e => do
    let (e, changeMade) ← comparisonSimplification lib e
    let (e, changeMade') := conjunctionSimplification e
    if changeMade || changeMade' then return (e, true)
    else rewriteParts (rewriteExpression lib fuel) e

mutual

def Expression.size : Expression T → ℕ
  | .comparison _ left right => 1 + left.size + right.size
  | .unary _ left => 1 + left.size
  | .conjunction _ es => 1 + Expression.sizeList es
  | _ => 1

def Expression.sizeList : List (Expression T) → ℕ
  | [] => 0
  | e :: es => e.size + Expression.sizeList es

end

def rewritePass (lib : StdLib) (e : Expression T) : Except Failure (Expression T × Bool) :=
  rewriteExpression lib e.size e

/-- At most `n` passes, until one reports no change; the flag says whether the last one did. -/
def runPasses (lib : StdLib) : ℕ → Expression T → Except Failure (Expression T × Bool)
  | 0, e => .ok (e, true)
  | n + 1, e => do
    let (e, changeMade) ← rewritePass lib e
    if changeMade then runPasses lib n e else return (e, false)

/-! ## When the conjunction rule is right -/

def neutral (type : ConjunctionType) : Bool := type == .and

def relevant (type : ConjunctionType) (es : List (Expression T)) : List (Expression T) :=
  es.filter fun e => boolConstant e ≠ some (neutral type)

/-- If some child is the constant that decides the conjunction, the first relevant child has that
value too; and an `OR` is not made of `false` constants only. -/
def RuleOk (lib : StdLib) (tuple : T) (type : ConjunctionType) (es : List (Expression T)) : Prop :=
  (some (!neutral type) ∈ es.map boolConstant →
    ∃ e, (relevant type es).head? = some e ∧
      e.getValue lib tuple = .ok (.booleans (!neutral type))) ∧
  (type = .or → es ≠ [] → relevant type es ≠ [])

theorem mem_relevant {type : ConjunctionType} {e : Expression T} {es : List (Expression T)}
    (h : e ∈ relevant type es) : e ∈ es :=
  List.mem_of_mem_filter h

theorem relevant_cons_of_neutral {type : ConjunctionType} {e : Expression T}
    (es : List (Expression T)) (h : boolConstant e = some (neutral type)) :
    relevant type (e :: es) = relevant type es := by
  rw [relevant, List.filter_cons_of_neg]
  · rfl
  · simp [h]

theorem relevant_cons {type : ConjunctionType} {e : Expression T} (es : List (Expression T))
    (h : boolConstant e ≠ some (neutral type)) :
    relevant type (e :: es) = e :: relevant type es := by
  rw [relevant, List.filter_cons_of_pos]
  · rfl
  · simp [h]

theorem simplifyLoop_cons (type : ConjunctionType) (kept : List (Expression T)) (e : Expression T)
    (es : List (Expression T)) :
    simplifyLoop type kept (e :: es) =
      if boolConstant e = some (!neutral type) then .always (kept.headD e)
      else if boolConstant e = some (neutral type) then simplifyLoop type kept es
      else simplifyLoop type (kept ++ [e]) es := by
  rw [simplifyLoop]
  cases hb : boolConstant e with
  | none => simp
  | some b => cases type <;> cases b <;> simp [neutral]

/-- The loop takes the first relevant child if some child decides the conjunction, and otherwise
keeps the relevant children. -/
theorem simplifyLoop_spec (type : ConjunctionType) (kept es : List (Expression T)) :
    (some (!neutral type) ∈ es.map boolConstant ∧ ∃ e, simplifyLoop type kept es = .always e ∧
      (kept ++ relevant type es).head? = some e) ∨
    (some (!neutral type) ∉ es.map boolConstant ∧
      simplifyLoop type kept es = .remaining (kept ++ relevant type es)) := by
  induction es generalizing kept with
  | nil =>
    right
    simp [simplifyLoop, relevant]
  | cons e es ih =>
    rw [simplifyLoop_cons, List.map_cons, List.mem_cons]
    by_cases hdecides : boolConstant e = some (!neutral type)
    · left
      refine ⟨Or.inl hdecides.symm, kept.headD e, if_pos hdecides, ?_⟩
      rw [relevant_cons es (by simp [hdecides])]
      cases kept <;> rfl
    · rw [if_neg hdecides]
      by_cases hneutral : boolConstant e = some (neutral type)
      · rw [if_pos hneutral, relevant_cons_of_neutral es hneutral]
        simpa [Ne.symm hdecides] using ih kept
      · rw [if_neg hneutral, relevant_cons es hneutral]
        simpa [Ne.symm hdecides] using ih (kept ++ [e])

/-! ### Evaluation of a conjunction -/

section

variable {lib : StdLib} {tuple : T} {type : ConjunctionType}

theorem getValue_of_boolConstant {e : Expression T} {b : Bool} (h : boolConstant e = some b) :
    e.getValue lib tuple = .ok (.booleans b) := by
  unfold boolConstant at h
  split at h
  · obtain rfl := Option.some.inj h
    rw [Expression.getValue]
  · cases h

/-- Neutral constants do not take part in the evaluation. -/
theorem getValueLoop_relevant (es : List (Expression T)) :
    Expression.getValueLoop lib tuple type (relevant type es) =
      Expression.getValueLoop lib tuple type es := by
  induction es with
  | nil => rfl
  | cons e es ih =>
    by_cases hneutral : boolConstant e = some (neutral type)
    · rw [relevant_cons_of_neutral es hneutral, ih, Expression.getValueLoop,
        getValue_of_boolConstant hneutral]
      cases type <;> rfl
    · rw [relevant_cons es hneutral, Expression.getValueLoop, Expression.getValueLoop, ih]

theorem getValueLoop_cons_of_ok {e : Expression T} {w : Value} (es : List (Expression T))
    (h : e.getValue lib tuple = .ok w) :
    Expression.getValueLoop lib tuple type (e :: es) =
      if w.getBoolean lib = neutral type then Expression.getValueLoop lib tuple type es
      else .ok (.booleans (!neutral type)) := by
  have htruth : e.truth lib tuple = w.getBoolean lib := by
    rw [Expression.truth, h]
  rw [Expression.getValueLoop_cons lib tuple type es h, htruth]
  cases type <;> cases w.getBoolean lib <;> rfl

/-- The first child of a conjunction that has a value has one itself. -/
theorem exists_value_of_getValueLoop {e : Expression T} {es : List (Expression T)} {v : Value}
    (h : Expression.getValueLoop lib tuple type (e :: es) = .ok v) :
    ∃ w, e.getValue lib tuple = .ok w := by
  cases he : e.getValue lib tuple with
  | ok w => exact ⟨w, rfl⟩
  | error f =>
    rw [Expression.getValueLoop, he] at h
    cases h

theorem getValueLoop_of_decides {es : List (Expression T)} {v : Value}
    (h : some (!neutral type) ∈ es.map boolConstant)
    (hv : Expression.getValueLoop lib tuple type es = .ok v) :
    v = .booleans (!neutral type) := by
  induction es with
  | nil => simp at h
  | cons e es ih =>
    obtain ⟨w, hw⟩ := exists_value_of_getValueLoop hv
    rw [getValueLoop_cons_of_ok es hw] at hv
    by_cases hneutral : w.getBoolean lib = neutral type
    · rw [if_pos hneutral] at hv
      rw [List.map_cons, List.mem_cons] at h
      rcases h with h | h
      · rw [getValue_of_boolConstant h.symm] at hw
        obtain rfl := Except.ok.inj hw
        simp at hneutral
      · exact ih h hv
    · rw [if_neg hneutral] at hv
      exact (Except.ok.inj hv).symm

end

end TDB
