import TDB.ExpressionRewriter

namespace TDB

open Where (ConjunctionType)

variable {T : Type}

/-! ## Conditions -/

inductive IsOperand : Expression T → Prop where
  | field (f : T → Except Failure Value) : IsOperand (.field f)
  | value (v : Value) : IsOperand (.value v)
  | values (vs : List Value) : IsOperand (.values vs)

/-- Conjunctions of comparisons over fields and constants, with the boolean constants that replace
comparisons. -/
inductive IsCondition : Expression T → Prop where
  | constant (b : Bool) : IsCondition (.value (.booleans b))
  | comparison (comp : CompOp) {left right : Expression T} (hleft : IsOperand left)
      (hright : IsOperand right) : IsCondition (.comparison comp left right)
  | conjunction (type : ConjunctionType) {es : List (Expression T)} (h : ∀ e ∈ es, IsCondition e) :
    IsCondition (.conjunction type es)

theorem IsCondition.boolean {lib : StdLib} {tuple : T} {e : Expression T} (h : IsCondition e)
    {v : Value} (hv : e.getValue lib tuple = .ok v) : ∃ b, v = .booleans b := by
  cases h with
  | constant b =>
    rw [Expression.getValue] at hv
    exact ⟨b, (Except.ok.inj hv).symm⟩
  | comparison comp hleft hright => exact Expression.getValue_comparison_boolean hv
  | conjunction type h => exact Expression.getValue_conjunction_boolean hv

theorem getValueLoop_singleton {lib : StdLib} {tuple : T} {type : ConjunctionType}
    {e : Expression T} (h : IsCondition e) {v : Value}
    (hv : Expression.getValueLoop lib tuple type [e] = .ok v) :
    e.getValue lib tuple = .ok v := by
  obtain ⟨w, hw⟩ := exists_value_of_getValueLoop hv
  obtain ⟨b, rfl⟩ := h.boolean hw
  rw [getValueLoop_cons_of_ok [] hw] at hv
  rw [hw, ← hv]
  cases type <;> cases b <;> rfl

/-- The rule keeps the value of a conjunction on a tuple exactly if it is right there. -/
theorem conjunctionSimplification_iff {lib : StdLib} {tuple : T} {type : ConjunctionType}
    {es : List (Expression T)} (hes : ∀ e ∈ es, IsCondition e) {v : Value}
    (hv : Expression.getValue lib tuple (.conjunction type es) = .ok v) :
    (conjunctionSimplification (.conjunction type es)).1.getValue lib tuple = .ok v ↔
      RuleOk lib tuple type es := by
  cases es with
  | nil =>
    have hrule : RuleOk lib tuple type ([] : List (Expression T)) :=
      ⟨fun h => by simp at h, fun _ h => absurd rfl h⟩
    exact ⟨fun _ => hrule, fun _ => hv⟩
  | cons e₀ es₀ =>
    set es := e₀ :: es₀ with hcons
    have hloop : Expression.getValueLoop lib tuple type es = .ok v := by
      rw [hcons, Expression.getValue] at hv
      exact hv
    have hrelevant := hloop
    rw [← getValueLoop_relevant] at hrelevant
    rw [conjunctionSimplification, RuleOk]
    -- a part that decides the conjunction replaces it; else the relevant parts stay
    rcases simplifyLoop_spec type [] es with ⟨hdecides, e, heq, hhead⟩ | ⟨hdecides, heq⟩
    · rw [List.nil_append] at hhead
      have hv' := getValueLoop_of_decides hdecides hloop
      rw [heq, hv', hhead]
      simp only [hdecides, true_implies, Option.some.injEq, exists_eq_left']
      constructor
      · intro h
        refine ⟨h, fun _ _ hnil => ?_⟩
        rw [hnil] at hhead
        cases hhead
      · exact fun h => h.1
    · rw [List.nil_append] at heq
      rw [heq]
      simp only [hdecides, false_implies, true_and]
      have hcondition : ∀ e ∈ relevant type es, IsCondition e := fun e he => hes e (mem_relevant he)
      -- no part, one part, or a shorter conjunction
      rcases hrest : relevant type es with _ | ⟨e, _ | ⟨e', rest⟩⟩
      · rw [hrest] at hrelevant
        obtain rfl := Except.ok.inj hrelevant
        cases type <;> simp [Expression.getValue, hcons]
      · have hsame : e.getValue lib tuple = .ok v := by
          rw [hrest] at hrelevant hcondition
          exact getValueLoop_singleton (hcondition e (by simp)) hrelevant
        simp [hsame]
      · rw [hrest] at hrelevant
        have hsame : Expression.getValue lib tuple
          (.conjunction type (e :: e' :: rest)) = .ok v := by
          rw [Expression.getValue]
          exact hrelevant
        simp [hsame]

/-! ## One pass -/

/-- The parts of a conjunction that a pass goes on to behind the rules. -/
def rewrittenParts (type : ConjunctionType) (es : List (Expression T)) : List (Expression T) :=
  match conjunctionSimplification (.conjunction type es) with
  | (.conjunction _ parts, false) => parts
  | _ => []

/-- The rules are right on every part of the expression that a pass comes to: no comparison of
constants throws, and the conjunction rule keeps the value of every conjunction. -/
inductive RulesOk (lib : StdLib) (tuple : T) : Expression T → Prop where
  | constant (b : Bool) : RulesOk lib tuple (.value (.booleans b))
  | comparison {comp : CompOp} {left right : Expression T}
      (h : ∀ f, Expression.tryGetValue lib (.comparison comp left right) = .error f →
        ∃ rc, f = .code rc) : RulesOk lib tuple (.comparison comp left right)
  | conjunction {type : ConjunctionType} {es : List (Expression T)}
      (hrule : RuleOk lib tuple type es) (h : ∀ e ∈ rewrittenParts type es, RulesOk lib tuple e) :
    RulesOk lib tuple (.conjunction type es)

/-- On a tuple where the first expression has a value, the second one has the same. -/
def SameValue (lib : StdLib) (tuple : T) (e e' : Expression T) : Prop :=
  ∀ v, e.getValue lib tuple = .ok v → e'.getValue lib tuple = .ok v

/-- A rewrite of `e` succeeds and gives a condition with the same value. -/
def Rewritten (lib : StdLib) (tuple : T) (e : Expression T)
    (result : Except Failure (Expression T × Bool)) : Prop :=
  ∃ e' changeMade, result = .ok (e', changeMade) ∧ IsCondition e' ∧ SameValue lib tuple e e'

theorem Expression.size_pos (e : Expression T) : 0 < e.size := by
  cases e <;> simp only [Expression.size] <;> omega

theorem Expression.size_le_of_mem {e : Expression T} {es : List (Expression T)} (h : e ∈ es) :
    e.size ≤ Expression.sizeList es := by
  induction es with
  | nil => cases h
  | cons e' es ih =>
    rw [Expression.sizeList]
    rcases List.mem_cons.mp h with rfl | h
    · omega
    · have := ih h
      omega

section

variable {lib : StdLib} {tuple : T} {type : ConjunctionType}

theorem getValueLoop_congr {es es' : List (Expression T)}
    (h : List.Forall₂ (SameValue lib tuple) es es') :
    ∀ v, Expression.getValueLoop lib tuple type es = .ok v →
      Expression.getValueLoop lib tuple type es' = .ok v := by
  induction h with
  | nil => exact fun v hv => hv
  | @cons e e' es es' he _ ih =>
    intro v hv
    obtain ⟨w, hw⟩ := exists_value_of_getValueLoop hv
    rw [getValueLoop_cons_of_ok es hw] at hv
    rw [getValueLoop_cons_of_ok es' (he w hw)]
    split at hv
    · rw [if_pos (by assumption)]
      exact ih v hv
    · rw [if_neg (by assumption)]
      exact hv

theorem sameValue_conjunction {es es' : List (Expression T)}
    (h : List.Forall₂ (SameValue lib tuple) es es') :
    SameValue lib tuple (.conjunction type es) (.conjunction type es') := by
  intro v hv
  cases h with
  | nil => exact hv
  | cons he hes =>
    rw [Expression.getValue] at hv ⊢
    exact getValueLoop_congr (.cons he hes) v hv

theorem rewriteChildren_spec {rewrite : Expression T → Except Failure (Expression T × Bool)}
    {es : List (Expression T)} (h : ∀ e ∈ es, Rewritten lib tuple e (rewrite e)) :
    ∃ es' changeMade, rewriteChildren rewrite es = .ok (es', changeMade) ∧
      (∀ e ∈ es', IsCondition e) ∧ List.Forall₂ (SameValue lib tuple) es es' := by
  induction es with
  | nil => exact ⟨[], false, rfl, by simp, .nil⟩
  | cons e es ih =>
    obtain ⟨e', changeMade, he, hcond, hsame⟩ := h e (by simp)
    obtain ⟨es', changeMade', hes, hconds, hsames⟩ := ih fun e' he' => h e' (by simp [he'])
    refine ⟨e' :: es', changeMade || changeMade', ?_, ?_, .cons hsame hsames⟩
    · rw [rewriteChildren, he, hes]
      rfl
    · intro e'' he''
      rcases List.mem_cons.mp he'' with rfl | he''
      · exact hcond
      · exact hconds e'' he''

theorem rewriteExpression_operand {e : Expression T} (h : IsOperand e) (fuel : ℕ) :
    rewriteExpression lib (fuel + 1) e = .ok (e, false) := by
  cases h <;> rfl

theorem rewriteParts_spec {e : Expression T} {fuel : ℕ} (he : IsCondition e)
    (hsize : e.size ≤ fuel + 1)
    (hparts : ∀ type es, e = .conjunction type es → ∀ p ∈ es, p.size ≤ fuel →
      Rewritten lib tuple p (rewriteExpression lib fuel p)) :
    Rewritten lib tuple e (rewriteParts (rewriteExpression lib fuel) e) := by
  cases he with
  | constant b => exact ⟨_, false, rfl, .constant b, fun v hv => hv⟩
  | @comparison comp left right hleft hright =>
    obtain ⟨k, rfl⟩ : ∃ k, fuel = k + 1 := by
      rw [Expression.size] at hsize
      have hl := left.size_pos
      exact ⟨fuel - 1, by omega⟩
    refine ⟨_, false, ?_, .comparison comp hleft hright, fun v hv => hv⟩
    rw [rewriteParts, rewriteExpression_operand hleft, rewriteExpression_operand hright]
    rfl
  | @conjunction type es hes =>
    have hchildren : ∀ p ∈ es, Rewritten lib tuple p (rewriteExpression lib fuel p) := by
      intro p hp
      have hle := Expression.size_le_of_mem hp
      rw [Expression.size] at hsize
      exact hparts type es rfl p hp (by omega)
    obtain ⟨es', changeMade, hrun, hcond, hsame⟩ := rewriteChildren_spec hchildren
    refine ⟨_, changeMade, ?_, .conjunction type hcond, sameValue_conjunction hsame⟩
    rw [rewriteParts, hrun]
    rfl

theorem comparisonSimplification_spec (tuple : T) {comp : CompOp} {left right : Expression T}
    (h : ∀ f, Expression.tryGetValue lib (.comparison comp left right) = .error f →
      ∃ rc, f = .code rc) :
    comparisonSimplification lib (.comparison comp left right) =
        .ok (.comparison comp left right, false) ∨
      ∃ b, comparisonSimplification lib (.comparison comp left right) =
        .ok (.value (.booleans b), true) ∧
        SameValue lib tuple (.comparison comp left right) (.value (.booleans b)) := by
  cases hv : Expression.tryGetValue lib (.comparison comp left right) with
  | error f =>
    obtain ⟨rc, rfl⟩ := h f hv
    left
    rw [comparisonSimplification, hv]
  | ok v =>
    right
    unfold Expression.tryGetValue at hv
    split at hv
    · rename_i comp' l r heq
      cases heq
      cases hc : compareValue lib comp (.value l : Expression T) (some (.value r)) l r with
      | error f =>
        rw [hc] at hv
        cases hv
      | ok b =>
        refine ⟨b, ?_, ?_⟩
        · rw [comparisonSimplification, Expression.tryGetValue, hc]
          rfl
        · intro w hw
          rw [Expression.getValue, Expression.getValue, Expression.getValue] at hw
          simp only [bind, Except.bind, hc] at hw
          rw [Expression.getValue]
          exact hw
    · cases hv

theorem Rewritten.trans {e e₁ : Expression T} {result : Except Failure (Expression T × Bool)}
    (hsame : SameValue lib tuple e e₁) (h : Rewritten lib tuple e₁ result) :
    Rewritten lib tuple e result := by
  obtain ⟨e', changeMade, hresult, hcond, hsame'⟩ := h
  exact ⟨e', changeMade, hresult, hcond, fun v hv => hsame' v (hsame v hv)⟩

theorem sizeList_relevant_le (type : ConjunctionType) (es : List (Expression T)) :
    Expression.sizeList (relevant type es) ≤ Expression.sizeList es := by
  induction es with
  | nil => exact Nat.le_refl 0
  | cons e es ih =>
    by_cases h : boolConstant e = some (neutral type)
    · rw [relevant_cons_of_neutral es h, Expression.sizeList]
      omega
    · rw [relevant_cons es h, Expression.sizeList, Expression.sizeList]
      omega

/-- The conjunction rule gives one of the children, or the conjunction of the relevant ones. -/
theorem conjunctionSimplification_cases (type : ConjunctionType) (es : List (Expression T)) :
    (∃ e ∈ es, ∃ changeMade,
      conjunctionSimplification (.conjunction type es) = (e, changeMade)) ∨
      conjunctionSimplification (.conjunction type es) =
        (.conjunction type (relevant type es), false) := by
  rw [conjunctionSimplification]
  rcases simplifyLoop_spec type [] es with ⟨-, e, heq, hhead⟩ | ⟨-, heq⟩
  · left
    rw [heq]
    exact ⟨e, mem_relevant (List.mem_of_mem_head? hhead), false, rfl⟩
  · rw [List.nil_append] at heq
    rw [heq]
    rcases hrest : relevant type es with _ | ⟨e, _ | ⟨e', rest⟩⟩
    · right
      rfl
    · left
      have he : e ∈ relevant type es := by simp [hrest]
      exact ⟨e, mem_relevant he, true, rfl⟩
    · right
      rfl

theorem rewriteExpression_spec {fuel : ℕ} {e : Expression T} (he : IsCondition e)
    (hok : RulesOk lib tuple e) (hfuel : e.size ≤ fuel) :
    Rewritten lib tuple e (rewriteExpression lib fuel e) := by
  -- on the fuel, which the size of the condition bounds; parts are smaller
  induction fuel generalizing e with
  | zero =>
    have := e.size_pos
    omega
  | succ fuel ih =>
    rw [rewriteExpression]
    cases he with
    | constant b => exact ⟨_, false, rfl, .constant b, fun v hv => hv⟩
    | @comparison comp left right hleft hright =>
      have hcond : IsCondition (.comparison comp left right) := .comparison comp hleft hright
      cases hok with
      | comparison h =>
        rcases comparisonSimplification_spec tuple h with heq | ⟨b, heq, hsame⟩
        · rw [heq]
          apply rewriteParts_spec hcond hfuel
          intro type es hcontra
          cases hcontra
        · rw [heq]
          exact ⟨_, true, rfl, .constant b, hsame⟩
    | @conjunction type es hes =>
      cases hok with
      | conjunction hrule hoks =>
        have hcomparison : comparisonSimplification lib (.conjunction type es) =
            .ok (.conjunction type es, false) := rfl
        have hvalue : SameValue lib tuple (.conjunction type es)
            (conjunctionSimplification (.conjunction type es)).1 :=
          fun v hv => (conjunctionSimplification_iff hes hv).mpr hrule
        rw [hcomparison]
        change Rewritten lib tuple _ (if (false ||
          (conjunctionSimplification (.conjunction type es)).2) = true then
            .ok ((conjunctionSimplification (.conjunction type es)).1, true)
          else rewriteParts (rewriteExpression lib fuel)
            (conjunctionSimplification (.conjunction type es)).1)
        rw [Expression.size] at hfuel
        -- the conjunction became one of its parts, or it has lost the parts that decide nothing
        rcases conjunctionSimplification_cases type es with ⟨e, he, changeMade, heq⟩ | heq
        · rw [heq] at hvalue ⊢
          have hle := Expression.size_le_of_mem he
          cases changeMade with
          | true => exact ⟨e, true, rfl, hes e he, hvalue⟩
          | false =>
            apply Rewritten.trans hvalue
            apply rewriteParts_spec (hes e he) (by omega)
            intro type' es' heq' p hp hsize
            have hcond := hes e he
            subst heq'
            have hparts : rewrittenParts type es = es' := by rw [rewrittenParts, heq]
            cases hcond with
            | conjunction _ hconds => exact ih (hconds p hp) (hoks p (hparts ▸ hp)) hsize
        · have hparts : rewrittenParts type es = relevant type es := by rw [rewrittenParts, heq]
          rw [heq] at hvalue ⊢
          have hle := sizeList_relevant_le type es
          apply Rewritten.trans hvalue
          apply rewriteParts_spec
          · exact .conjunction type fun e he => hes e (mem_relevant he)
          · rw [Expression.size]
            omega
          · intro type' es' heq' p hp hsize
            cases heq'
            exact ih (hes p (mem_relevant hp)) (hoks p (hparts ▸ hp)) hsize

end

/-! ## Termination -/

theorem comparisonSimplification_size {lib : StdLib} {e e' : Expression T} {changeMade : Bool}
    (h : comparisonSimplification lib e = .ok (e', changeMade)) :
    e'.size ≤ e.size ∧ (changeMade = true → e'.size < e.size) := by
  unfold comparisonSimplification at h
  split at h
  · rename_i v hv
    cases h
    unfold Expression.tryGetValue at hv
    split at hv
    · simp only [Expression.size]
      omega
    · cases hv
  · cases h
    simp
  · cases h

theorem conjunctionSimplification_size {e e' : Expression T} {changeMade : Bool}
    (h : conjunctionSimplification e = (e', changeMade)) :
    e'.size ≤ e.size ∧ (changeMade = true → e'.size < e.size) := by
  have hother : conjunctionSimplification e = (e, false) →
      e'.size ≤ e.size ∧ (changeMade = true → e'.size < e.size) := by
    intro hsame
    rw [hsame] at h
    cases h
    simp
  cases e with
  | conjunction type es =>
    have hsize : Expression.size (.conjunction type es) = 1 + Expression.sizeList es := by
      rw [Expression.size]
    rcases conjunctionSimplification_cases type es with ⟨e, he, changeMade', heq⟩ | heq
    · rw [heq] at h
      cases h
      have := Expression.size_le_of_mem he
      omega
    · rw [heq] at h
      cases h
      have := sizeList_relevant_le type es
      have hsize' : Expression.size (.conjunction type (relevant type es)) =
          1 + Expression.sizeList (relevant type es) := by
        rw [Expression.size]
      refine ⟨by omega, fun hchange => ?_⟩
      cases hchange
  | _ => exact hother rfl

def NeverGrows (rewrite : Expression T → Except Failure (Expression T × Bool)) : Prop :=
  ∀ e e' changeMade, rewrite e = .ok (e', changeMade) →
    e'.size ≤ e.size ∧ (changeMade = true → e'.size < e.size)

theorem NeverGrows.children {rewrite : Expression T → Except Failure (Expression T × Bool)}
    (hrewrite : NeverGrows rewrite) {es es' : List (Expression T)} {changeMade : Bool}
    (h : rewriteChildren rewrite es = .ok (es', changeMade)) :
    Expression.sizeList es' ≤ Expression.sizeList es ∧
      (changeMade = true → Expression.sizeList es' < Expression.sizeList es) := by
  induction es generalizing es' changeMade with
  | nil =>
    cases h
    simp
  | cons e es ih =>
    rw [rewriteChildren] at h
    obtain ⟨⟨e₁, c₁⟩, he, h⟩ := Expression.exists_of_bind_ok h
    obtain ⟨⟨es₁, c₂⟩, hes, h⟩ := Expression.exists_of_bind_ok h
    cases h
    have h₁ := hrewrite _ _ _ he
    have h₂ := ih hes
    simp only [Expression.sizeList]
    cases c₁ <;> cases c₂ <;> simp at h₁ h₂ ⊢ <;> omega

theorem NeverGrows.parts {rewrite : Expression T → Except Failure (Expression T × Bool)}
    (hrewrite : NeverGrows rewrite) : NeverGrows (rewriteParts rewrite) := by
  intro e e' changeMade h
  unfold rewriteParts at h
  split at h
  · obtain ⟨⟨e₁, c₁⟩, he₁, h⟩ := Expression.exists_of_bind_ok h
    obtain ⟨⟨e₂, c₂⟩, he₂, h⟩ := Expression.exists_of_bind_ok h
    cases h
    have h₁ := hrewrite _ _ _ he₁
    have h₂ := hrewrite _ _ _ he₂
    simp only [Expression.size]
    cases c₁ <;> cases c₂ <;> simp at h₁ h₂ ⊢ <;> omega
  · obtain ⟨⟨e₁, c₁⟩, he₁, h⟩ := Expression.exists_of_bind_ok h
    cases h
    obtain ⟨hle, hlt⟩ := hrewrite _ _ _ he₁
    simp only [Expression.size]
    exact ⟨Nat.add_le_add_left hle 1, fun hchange => Nat.add_lt_add_left (hlt hchange) 1⟩
  · obtain ⟨⟨es₁, c₁⟩, hes₁, h⟩ := Expression.exists_of_bind_ok h
    cases h
    obtain ⟨hle, hlt⟩ := hrewrite.children hes₁
    simp only [Expression.size]
    exact ⟨Nat.add_le_add_left hle 1, fun hchange => Nat.add_lt_add_left (hlt hchange) 1⟩
  · cases h
    simp

theorem rewriteExpression_neverGrows (lib : StdLib) (fuel : ℕ) :
    NeverGrows (rewriteExpression lib fuel : Expression T → _) := by
  induction fuel with
  | zero =>
    intro e e' changeMade h
    cases h
  | succ fuel ih =>
    intro e e' changeMade h
    rw [rewriteExpression] at h
    obtain ⟨⟨e₁, c₁⟩, he₁, h⟩ := Expression.exists_of_bind_ok h
    obtain ⟨hle₁, hlt₁⟩ := comparisonSimplification_size he₁
    obtain ⟨e₂, c₂, hs⟩ : ∃ e₂ c₂, conjunctionSimplification e₁ = (e₂, c₂) := ⟨_, _, rfl⟩
    obtain ⟨hle₂, hlt₂⟩ := conjunctionSimplification_size hs
    dsimp only at h
    rw [hs] at h
    by_cases hchange : (c₁ || c₂) = true
    · rw [if_pos hchange] at h
      cases h
      refine ⟨Nat.le_trans hle₂ hle₁, fun _ => ?_⟩
      rcases Bool.or_eq_true_iff.mp hchange with hc | hc
      · exact Nat.lt_of_le_of_lt hle₂ (hlt₁ hc)
      · exact Nat.lt_of_lt_of_le (hlt₂ hc) hle₁
    · rw [if_neg hchange] at h
      obtain ⟨hle, hlt⟩ := ih.parts _ _ _ h
      have hle' := Nat.le_trans hle₂ hle₁
      exact ⟨Nat.le_trans hle hle', fun hc => Nat.lt_of_lt_of_le (hlt hc) hle'⟩

/-! ## Whole runs -/

theorem runPasses_succ {lib : StdLib} {e e₁ : Expression T} {changeMade : Bool} (n : ℕ)
    (h : rewritePass lib e = .ok (e₁, changeMade)) :
    runPasses lib (n + 1) e = if changeMade then runPasses lib n e₁ else .ok (e₁, false) := by
  rw [runPasses, h]
  rfl

theorem runPasses_value {lib : StdLib} {tuple : T} {e : Expression T} (he : IsCondition e)
    {v : Value} (hv : e.getValue lib tuple = .ok v) (n : ℕ)
    (hok : ∀ m, m < n → ∀ e', runPasses lib m e = .ok (e', true) → RulesOk lib tuple e') :
    ∃ e' changeMade, runPasses lib n e = .ok (e', changeMade) ∧
      e'.getValue lib tuple = .ok v := by
  induction n generalizing e with
  | zero => exact ⟨e, true, rfl, hv⟩
  | succ n ih =>
    obtain ⟨e₁, changeMade, hpass, hcond, hsame⟩ :=
      rewriteExpression_spec he (hok 0 (Nat.succ_pos n) e rfl) (Nat.le_refl e.size)
    rw [runPasses_succ n hpass]
    cases changeMade with
    | false => exact ⟨e₁, false, rfl, hsame v hv⟩
    | true =>
      apply ih hcond (hsame v hv)
      intro m hm e' he'
      apply hok (m + 1) (Nat.succ_lt_succ hm)
      rw [runPasses_succ m hpass]
      exact he'

theorem runPasses_ends {lib : StdLib} {e e' : Expression T} {changeMade : Bool} {n : ℕ}
    (hn : e.size ≤ n) (h : runPasses lib n e = .ok (e', changeMade)) : changeMade = false := by
  induction n generalizing e with
  | zero =>
    have := e.size_pos
    omega
  | succ n ih =>
    rw [runPasses] at h
    obtain ⟨⟨e₁, c₁⟩, hpass, h⟩ := Expression.exists_of_bind_ok h
    have hshrinks := rewriteExpression_neverGrows lib _ _ _ _ hpass
    cases c₁ with
    | false =>
      cases h
      rfl
    | true =>
      have hlt := hshrinks.2 rfl
      exact ih (by omega) h

/-- A run of passes keeps the value of a condition on every tuple on which the rules are right in
each state that is rewritten, and the run is over after as many passes as the condition has
nodes.  For a single use of the conjunction rule this condition is exact. -/
theorem expressionRewriter_keeps_value {lib : StdLib} {tuple : T} {e : Expression T}
    (he : IsCondition e) {v : Value} (hv : e.getValue lib tuple = .ok v) :
    (∀ n, (∀ m, m < n → ∀ e', runPasses lib m e = .ok (e', true) → RulesOk lib tuple e') →
      ∃ e' changeMade, runPasses lib n e = .ok (e', changeMade) ∧
        e'.getValue lib tuple = .ok v) ∧
    (∀ n, e.size ≤ n → ∀ e' changeMade, runPasses lib n e = .ok (e', changeMade) →
      changeMade = false) ∧
    ∀ type es, e = .conjunction type es →
      ((conjunctionSimplification e).1.getValue lib tuple = .ok v ↔
        RuleOk lib tuple type es) := by
  refine ⟨runPasses_value he hv, fun _ hn _ _ h => runPasses_ends hn h, ?_⟩
  intro type es heq
  subst heq
  cases he with
  | conjunction _ hes => exact conjunctionSimplification_iff hes hv

/-- The condition `3 = 3 AND f = 1` on the row `1`: three passes lead to `f = 1`. -/
theorem expressionRewriter_keeps_value_and :
    let lib : StdLib := ⟨fun _ => none, fun _ => none, fun _ _ => none, fun _ => []⟩
    let e : Expression Value := .conjunction .and
      [.comparison .equalTo (.value (.ints 3)) (.value (.ints 3)),
        .comparison .equalTo (.field .ok) (.value (.ints 1))]
    ∃ e' changeMade, runPasses lib 3 e = .ok (e', changeMade) ∧
      e'.getValue lib (.ints 1) = .ok (.booleans true) := by
  intro lib e
  have he : IsCondition e := by
    refine .conjunction _ ?_
    simp only [List.mem_cons, List.not_mem_nil, or_false]
    rintro _ (rfl | rfl)
    · exact .comparison _ (.value _) (.value _)
    · exact .comparison _ (.field _) (.value _)
  apply (expressionRewriter_keeps_value he rfl).1 3
  have hfield : ∀ comp, RulesOk lib (.ints 1)
      (.comparison comp (.field .ok) (.value (.ints 1)) : Expression Value) := by
    intro comp
    refine .comparison fun f hf => ⟨.invalidArgument, ?_⟩
    cases hf
    rfl
  intro m hm e' he'
  obtain rfl | rfl | rfl : m = 0 ∨ m = 1 ∨ m = 2 := by omega
  · cases he'
    refine .conjunction ⟨by simp [boolConstant], fun h => by cases h⟩ ?_
    change ∀ part ∈ [_, _], _
    simp only [List.mem_cons, List.not_mem_nil, or_false]
    rintro _ (rfl | rfl)
    · exact .comparison fun f hf => by cases hf
    · exact hfield _
  · obtain rfl : e' = .conjunction .and [.value (.booleans true),
        .comparison .equalTo (.field .ok) (.value (.ints 1))] := by
      cases he'
      rfl
    exact .conjunction ⟨by simp [boolConstant, neutral], fun h => by cases h⟩
      (List.forall_mem_nil _)
  · cases he'
    exact hfield _

/-- The condition `f = 1 AND 1 = 2` is false on the row `1`; the passes end with `f = 1`. -/
theorem not_keeps_value_constant_false :
    ¬ ∀ (lib : StdLib) (tuple : Value) (e : Expression Value) (v : Value), IsCondition e →
      e.getValue lib tuple = .ok v →
      ∃ n e' v', runPasses lib n e = .ok (e', false) ∧ e'.getValue lib tuple = .ok v' ∧
        v'.getBoolean lib = v.getBoolean lib := by
  intro h
  let lib : StdLib := ⟨fun _ => none, fun _ => none, fun _ _ => none, fun _ => []⟩
  let field : Expression Value := .comparison .equalTo (.field .ok) (.value (.ints 1))
  let e : Expression Value := .conjunction .and
    [field, .comparison .equalTo (.value (.ints 1)) (.value (.ints 2))]
  have he : IsCondition e := by
    refine .conjunction _ ?_
    simp only [List.mem_cons, List.not_mem_nil, or_false]
    rintro _ (rfl | rfl)
    · exact .comparison _ (.field _) (.value _)
    · exact .comparison _ (.value _) (.value _)
  obtain ⟨n, e', v', hrun, hv', hbool⟩ := h lib (.ints 1) e (.booleans false) he rfl
  have hend : e' = field := by
    rcases n with _ | _ | n
    · cases hrun
    · cases hrun
    · have hruns : runPasses lib (n + 2) e = .ok (field, false) := rfl
      rw [hruns] at hrun
      cases hrun
      rfl
  rw [hend] at hv'
  have htrue : field.getValue lib (.ints 1) = .ok (.booleans true) := rfl
  rw [htrue] at hv'
  cases hv'
  cases hbool

end TDB
