import TDB.LogicalNode

namespace TDB

open Where (ConjunctionType)

variable {T : Type}

/-! ## The rewriter -/

mutual

/-- `get_exprs_can_pushdown`: what is left in `expr`, which is null if it moved as a whole, and the
expressions that moved.  The type of a missing right side is read when the left one is no field. -/
def getExprsCanPushdown :
    Expression T → Except Failure (Option (Expression T) × List (Expression T))
  | .conjunction .or es => .ok (some (.conjunction .or es), [])
  | .conjunction .and es => do
    let (kept, pushed) ← pushdownLoop es
    return (some (.conjunction .and kept), pushed)
  | .comparison comp left right =>
    if left.type ≠ .field ∧ right.type ≠ .field then .ok (some (.comparison comp left right), [])
    else if left.type ≠ .field ∧ left.type ≠ .value ∧ right.type ≠ .field ∧ right.type ≠ .value then
      .ok (some (.comparison comp left right), [])
    else .ok (none, [.comparison comp left right])
  | .unary comp left =>
    if left.type ≠ .field then .error .crash else .ok (none, [.unary comp left])
  | e => .ok (some e, [])

/-- The loop over the children of an `AND`, which erases those that moved. -/
def pushdownLoop :
    List (Expression T) → Except Failure (List (Expression T) × List (Expression T))
  | [] => .ok ([], [])
  | e :: es => do
    let (rest, pushed) ← getExprsCanPushdown e
    let (kept, pushed') ← pushdownLoop es
    return (rest.toList ++ kept, pushed ++ pushed')

end

/-- `PredicatePushdownRewriter::rewrite`, with the value it gives `change_made`.
`set_predicates` replaces the predicates that the table scan had. -/
def predicatePushdown : LogicalNode T → Except Failure (LogicalNode T × Bool)
  | .withChild (.predicate e) (.tableGet table predicates) => do
    let (rest, pushed) ← getExprsCanPushdown e
    let e' := rest.getD (.value (.booleans true))
    if pushed.isEmpty then return (.withChild (.predicate e') (.tableGet table predicates), false)
    else return (.withChild (.predicate e') (.tableGet table pushed), true)
  | node => .ok (node, false)

/-- The rewrite is repeated while it reports a change; `none` when the fuel is used up. -/
def rewriteUntilDone : ℕ → LogicalNode T → Except Failure (Option (LogicalNode T))
  | 0, _ => .ok none
  | fuel + 1, node => do
    let (node, changeMade) ← predicatePushdown node
    if changeMade then rewriteUntilDone fuel node else return some node

/-! ## What a row goes through -/

def tableScanFilter (lib : StdLib) (tuple : T) : List (Expression T) → Except Failure Bool
  | [] => .ok true
  | e :: es => do
    let value ← e.getValue lib tuple
    if !value.getBoolean lib then return false
    tableScanFilter lib tuple es

/-- A row of the table passes the predicates of the scan and then the predicate node. -/
def rowPasses (lib : StdLib) (tuple : T) (predicates : List (Expression T)) (e : Expression T) :
    Except Failure Bool := do
  if ← tableScanFilter lib tuple predicates then
    let value ← e.getValue lib tuple
    return value.getBoolean lib
  else return false

/-! ## The rewrite and its meaning -/

inductive IsFilter : Expression T → Prop where
  | comparison (comp : CompOp) (left right : Expression T) : IsFilter (.comparison comp left right)
  | conjunction (type : ConjunctionType) (es : List (Expression T)) (h : ∀ e ∈ es, IsFilter e) :
    IsFilter (.conjunction type es)

inductive AllEvaluate (lib : StdLib) (tuple : T) : Expression T → Prop where
  | comparison {comp : CompOp} {left right : Expression T} {v : Value}
      (h : Expression.getValue lib tuple (.comparison comp left right) = .ok v) :
    AllEvaluate lib tuple (.comparison comp left right)
  | conjunction {type : ConjunctionType} {es : List (Expression T)}
      (h : ∀ e ∈ es, AllEvaluate lib tuple e) : AllEvaluate lib tuple (.conjunction type es)

theorem AllEvaluate.getValue {lib : StdLib} {tuple : T} {e : Expression T}
    (h : AllEvaluate lib tuple e) : e.getValue lib tuple = .ok (.booleans (e.truth lib tuple)) := by
  induction h with
  | @comparison comp left right v h =>
    obtain ⟨b, rfl⟩ := Expression.getValue_comparison_boolean h
    exact Expression.getValue_eq_truth h
  | @conjunction type es h ih =>
    apply Expression.getValue_eq_truth
    exact Expression.getValue_conjunction lib tuple type fun e he => ⟨_, ih e he⟩

/-- The conjunction of `es` on a tuple is the conjunction of what is kept and what is pushed. -/
def Splits (lib : StdLib) (tuple : T) (es kept pushed : List (Expression T)) : Prop :=
  (∀ e ∈ es, AllEvaluate lib tuple e) →
    (∀ e ∈ kept, AllEvaluate lib tuple e) ∧ (∀ e ∈ pushed, AllEvaluate lib tuple e) ∧
    es.all (Expression.truth lib tuple) =
      (kept.all (Expression.truth lib tuple) && pushed.all (Expression.truth lib tuple))

section

variable {lib : StdLib} {tuple : T}

theorem Splits.kept (es : List (Expression T)) : Splits lib tuple es es [] := by
  intro h
  exact ⟨h, by simp, by simp⟩

theorem Splits.pushed (es : List (Expression T)) : Splits lib tuple es [] es := by
  intro h
  exact ⟨by simp, h, by simp⟩

theorem Splits.append {es kept pushed es' kept' pushed' : List (Expression T)}
    (h : Splits lib tuple es kept pushed) (h' : Splits lib tuple es' kept' pushed') :
    Splits lib tuple (es ++ es') (kept ++ kept') (pushed ++ pushed') := by
  intro heval
  obtain ⟨hk, hp, ht⟩ := h fun e he => heval e (List.mem_append_left _ he)
  obtain ⟨hk', hp', ht'⟩ := h' fun e he => heval e (List.mem_append_right _ he)
  refine ⟨?_, ?_, ?_⟩
  · intro e he
    rcases List.mem_append.mp he with he | he
    · exact hk e he
    · exact hk' e he
  · intro e he
    rcases List.mem_append.mp he with he | he
    · exact hp e he
    · exact hp' e he
  · simp only [List.all_append, ht, ht']
    ac_rfl

theorem truth_and {es : List (Expression T)} (h : ∀ e ∈ es, AllEvaluate lib tuple e) :
    Expression.truth lib tuple (.conjunction .and es) = es.all (Expression.truth lib tuple) := by
  rw [Expression.truth,
    Expression.getValue_conjunction lib tuple .and fun e he => ⟨_, (h e he).getValue⟩]
  rfl

/-- An `AND` splits as its children do; if all of them move it stays behind empty, which is true. -/
theorem Splits.conjunction_and {es kept pushed : List (Expression T)}
    (h : Splits lib tuple es kept pushed) :
    Splits lib tuple [.conjunction .and es] [.conjunction .and kept] pushed := by
  intro heval
  have hes : ∀ e ∈ es, AllEvaluate lib tuple e := by
    cases heval _ (List.mem_singleton_self _) with
    | conjunction h => exact h
  obtain ⟨hk, hp, ht⟩ := h hes
  refine ⟨?_, hp, ?_⟩
  · intro e he
    rw [List.mem_singleton.mp he]
    exact .conjunction hk
  · simp [truth_and hes, truth_and hk, ht]

end

/-- The rewriter moves parts of `e` without a change of meaning, and it leaves nothing behind that
it could move. -/
def PushdownSpec (e : Expression T) : Prop :=
  ∃ rest pushed, getExprsCanPushdown e = .ok (rest, pushed) ∧
    (∀ r, rest = some r → getExprsCanPushdown r = .ok (some r, [])) ∧
    ∀ lib tuple, Splits lib tuple [e] rest.toList pushed

theorem pushdownLoop_spec {es : List (Expression T)} (h : ∀ e ∈ es, PushdownSpec e) :
    ∃ kept pushed, pushdownLoop es = .ok (kept, pushed) ∧ pushdownLoop kept = .ok (kept, []) ∧
      ∀ lib tuple, Splits lib tuple es kept pushed := by
  induction es with
  | nil => exact ⟨[], [], rfl, rfl, fun lib tuple => Splits.kept _⟩
  | cons e es ih =>
    obtain ⟨rest, pushed, he, hrest, hsplit⟩ := h e (by simp)
    obtain ⟨kept, pushed', hes, hkept, hsplit'⟩ := ih fun e' he' => h e' (by simp [he'])
    refine ⟨rest.toList ++ kept, pushed ++ pushed', ?_, ?_, ?_⟩
    · rw [pushdownLoop, he, hes]
      rfl
    · cases rest with
      | none => exact hkept
      | some r =>
        change pushdownLoop (r :: kept) = _
        rw [pushdownLoop, hrest r rfl, hkept]
        rfl
    · intro lib tuple
      exact (hsplit lib tuple).append (hsplit' lib tuple)

theorem pushdownSpec_of_kept {e : Expression T} (h : getExprsCanPushdown e = .ok (some e, [])) :
    PushdownSpec e := by
  refine ⟨some e, [], h, ?_, fun lib tuple => Splits.kept _⟩
  intro r hr
  obtain rfl := Option.some.inj hr
  exact h

theorem pushdownSpec_of_pushed {e : Expression T} (h : getExprsCanPushdown e = .ok (none, [e])) :
    PushdownSpec e := by
  refine ⟨none, [e], h, ?_, fun lib tuple => Splits.pushed _⟩
  intro r hr
  cases hr

theorem IsFilter.pushdownSpec {e : Expression T} (h : IsFilter e) : PushdownSpec e := by
  induction h with
  | comparison comp left right =>
    by_cases hfield : left.type ≠ .field ∧ right.type ≠ .field
    · apply pushdownSpec_of_kept
      rw [getExprsCanPushdown, if_pos hfield]
    · apply pushdownSpec_of_pushed
      rw [getExprsCanPushdown, if_neg hfield, if_neg]
      rintro ⟨hl, -, hr, -⟩
      exact hfield ⟨hl, hr⟩
  | conjunction type es _ ih =>
    cases type with
    | or =>
      apply pushdownSpec_of_kept
      rw [getExprsCanPushdown]
    | and =>
      obtain ⟨kept, pushed, hes, hkept, hsplit⟩ := pushdownLoop_spec ih
      refine ⟨some (.conjunction .and kept), pushed, ?_, ?_, ?_⟩
      · rw [getExprsCanPushdown, hes]
        rfl
      · intro r hr
        obtain rfl := Option.some.inj hr
        rw [getExprsCanPushdown, hkept]
        rfl
      · intro lib tuple
        exact (hsplit lib tuple).conjunction_and

theorem tableScanFilter_eq {lib : StdLib} {tuple : T} {predicates : List (Expression T)}
    (h : ∀ e ∈ predicates, e.getValue lib tuple = .ok (.booleans (e.truth lib tuple))) :
    tableScanFilter lib tuple predicates =
      .ok (predicates.all (Expression.truth lib tuple)) := by
  induction predicates with
  | nil => rfl
  | cons e es ih =>
    have hes := ih fun e' he' => h e' (by simp [he'])
    rw [tableScanFilter, h e (by simp), hes, List.all_cons]
    cases e.truth lib tuple <;> rfl

theorem rowPasses_eq {lib : StdLib} {tuple : T} {predicates : List (Expression T)}
    {e : Expression T}
    (hpredicates : ∀ e ∈ predicates, e.getValue lib tuple = .ok (.booleans (e.truth lib tuple)))
    (he : e.getValue lib tuple = .ok (.booleans (e.truth lib tuple))) :
    rowPasses lib tuple predicates e =
      .ok (predicates.all (Expression.truth lib tuple) && e.truth lib tuple) := by
  rw [rowPasses, tableScanFilter_eq hpredicates, he]
  cases predicates.all (Expression.truth lib tuple) <;> rfl

/-- A row passes the rewritten nodes exactly when the original predicate was true on it. -/
theorem rowPasses_of_splits {lib : StdLib} {tuple : T} {e : Expression T}
    {rest : Option (Expression T)} {pushed : List (Expression T)}
    (hsplit : Splits lib tuple [e] rest.toList pushed) (h : AllEvaluate lib tuple e) :
    rowPasses lib tuple pushed (rest.getD (.value (.booleans true))) =
      .ok (e.truth lib tuple) := by
  have heval : ∀ e' ∈ [e], AllEvaluate lib tuple e' := by
    intro e' he'
    rw [List.mem_singleton.mp he']
    exact h
  obtain ⟨hrest, hpushed, htruth⟩ := hsplit heval
  have he : e.truth lib tuple = (rest.toList.all (Expression.truth lib tuple) &&
      pushed.all (Expression.truth lib tuple)) := by
    rw [← htruth]
    simp
  have hpredicates : ∀ e ∈ pushed, e.getValue lib tuple = .ok (.booleans (e.truth lib tuple)) :=
    fun e he => (hpushed e he).getValue
  rw [he, Bool.and_comm]
  cases rest with
  | none => exact rowPasses_eq hpredicates rfl
  | some r =>
    rw [Option.toList_some, List.all_cons, List.all_nil, Bool.and_true]
    exact rowPasses_eq hpredicates (hrest r (by simp)).getValue

/-- Pushing a filter down, once or until nothing changes, keeps the rows: the plan it ends with is
reached after at most two rewrites, and every row on which the comparisons of the filter have a
value passes it exactly when the filter is true on the row. -/
theorem predicatePushdown_keeps_rows (table : String) {e : Expression T} (h : IsFilter e) :
    ∃ pushed e' changeMade,
      predicatePushdown (.withChild (.predicate e) (.tableGet table [])) =
        .ok (.withChild (.predicate e') (.tableGet table pushed), changeMade) ∧
      (∀ fuel, 2 ≤ fuel →
        rewriteUntilDone fuel (.withChild (.predicate e) (.tableGet table [])) =
          .ok (some (.withChild (.predicate e') (.tableGet table pushed)))) ∧
      ∀ (lib : StdLib) (tuple : T), AllEvaluate lib tuple e →
        e.getValue lib tuple = .ok (.booleans (e.truth lib tuple)) ∧
        rowPasses lib tuple pushed e' = .ok (e.truth lib tuple) := by
  obtain ⟨rest, pushed, he, hrest, hsplit⟩ := h.pushdownSpec
  have hagain : getExprsCanPushdown (rest.getD (.value (.booleans true))) =
      .ok (some (rest.getD (.value (.booleans true))), []) := by
    cases rest with
    | none => simp [getExprsCanPushdown]
    | some r => exact hrest r rfl
  have hfirst : predicatePushdown (.withChild (.predicate e) (.tableGet table [])) =
      .ok (.withChild (.predicate (rest.getD (.value (.booleans true)))) (.tableGet table pushed),
        !pushed.isEmpty) := by
    rw [predicatePushdown, he]
    cases pushed <;> rfl
  have hsecond : predicatePushdown (.withChild
      (.predicate (rest.getD (.value (.booleans true)))) (.tableGet table pushed)) =
      .ok (.withChild (.predicate (rest.getD (.value (.booleans true)))) (.tableGet table pushed),
        false) := by
    rw [predicatePushdown, hagain]
    rfl
  refine ⟨pushed, rest.getD (.value (.booleans true)), !pushed.isEmpty, hfirst, ?_, ?_⟩
  · intro fuel hfuel
    obtain ⟨fuel, rfl⟩ : ∃ n, fuel = n + 2 := ⟨fuel - 2, by omega⟩
    rw [rewriteUntilDone, hfirst]
    cases hp : pushed.isEmpty
    · simp only [bind, Except.bind, Bool.not_false, if_true]
      rw [rewriteUntilDone, hsecond]
      rfl
    · rfl
  · intro lib tuple heval
    exact ⟨heval.getValue, rowPasses_of_splits (hsplit lib tuple) heval⟩

/-- The filter `f = 1 AND (f = 2 OR 3 = 3)` on a table of one column, with the row `1`. -/
theorem predicatePushdown_keeps_rows_nested :
    let lib : StdLib := ⟨fun _ => none, fun _ => none, fun _ _ => none, fun _ => []⟩
    let compare : Expression Value → Int32 → Expression Value := fun e v =>
      .comparison .equalTo e (.value (.ints v))
    let e : Expression Value := .conjunction .and [compare (.field .ok) 1,
      .conjunction .or [compare (.field .ok) 2, compare (.value (.ints 3)) 3]]
    ∃ pushed e', predicatePushdown (.withChild (.predicate e) (.tableGet "t" [])) =
        .ok (.withChild (.predicate e') (.tableGet "t" pushed), true) ∧
      rowPasses lib (.ints 1) pushed e' = .ok true := by
  intro lib compare e
  have hfilter : IsFilter e := by
    refine .conjunction _ _ ?_
    simp only [List.mem_cons, List.not_mem_nil, or_false]
    rintro _ (rfl | rfl)
    · exact .comparison _ _ _
    · refine .conjunction _ _ ?_
      simp only [List.mem_cons, List.not_mem_nil, or_false]
      rintro _ (rfl | rfl) <;> exact .comparison _ _ _
  have heval : AllEvaluate lib (.ints 1) e := by
    refine .conjunction ?_
    simp only [List.mem_cons, List.not_mem_nil, or_false]
    rintro _ (rfl | rfl)
    · exact .comparison rfl
    · refine .conjunction ?_
      simp only [List.mem_cons, List.not_mem_nil, or_false]
      rintro _ (rfl | rfl) <;> exact .comparison rfl
  obtain ⟨pushed, e', changeMade, hfirst, -, hrows⟩ := predicatePushdown_keeps_rows "t" hfilter
  have hchange : changeMade = true := by
    have hrfl : (predicatePushdown (.withChild (.predicate e) (.tableGet "t" []))).map Prod.snd =
        .ok true := rfl
    rw [hfirst] at hrfl
    exact Except.ok.inj hrfl
  subst hchange
  exact ⟨pushed, e', hfirst, (hrows lib (.ints 1) heval).2⟩

end TDB
