import TDB.Having

namespace TDB.Analyzer

variable {T : Type}

/-! ## What the rule takes out of an expression -/

/-- An expression whose parts all have a value on the tuple, so that no order of evaluation meets a
failure. -/
inductive Defined (lib : StdLib) (tuple : T) : Expression T → Prop where
  | leaf {e : Expression T} {v : Value} (hleaf : ∀ type es, e ≠ .conjunction type es)
      (h : e.getValue lib tuple = .ok v) : Defined lib tuple e
  | conjunction {type : Where.ConjunctionType} {es : List (Expression T)}
      (h : ∀ e ∈ es, Defined lib tuple e) : Defined lib tuple (.conjunction type es)

section Parts

variable {lib : StdLib} {tuple : T}

theorem Defined.exists_value {e : Expression T} (h : Defined lib tuple e) :
    ∃ v, e.getValue lib tuple = .ok v := by
  induction h with
  | @leaf e v hleaf h => exact ⟨v, h⟩
  | @conjunction type es h ih =>
    exact ⟨_, Expression.getValue_conjunction lib tuple type ih⟩

theorem Defined.children {type : Where.ConjunctionType} {es : List (Expression T)}
    (h : Defined lib tuple (.conjunction type es)) : ∀ e ∈ es, Defined lib tuple e := by
  cases h with
  | leaf hleaf h => exact absurd rfl (hleaf type es)
  | conjunction h => exact h

theorem truth_conjunction_and {es : List (Expression T)} (h : ∀ e ∈ es, Defined lib tuple e) :
    (Expression.conjunction .and es).truth lib tuple = es.all (Expression.truth lib tuple) := by
  have hvalue := Expression.getValue_conjunction lib tuple .and fun e he => (h e he).exists_value
  rw [Expression.truth, hvalue]
  rfl

/-- What stays behind and what moves: both have values if the expression has, and together they
are true where it is. -/
structure Parts (lib : StdLib) (tuple : T) (es kept pushed : List (Expression T)) : Prop where
  stays : ∀ e ∈ kept, Defined lib tuple e
  moves : ∀ e ∈ pushed, Defined lib tuple e
  truth : es.all (Expression.truth lib tuple) =
    (pushed.all (Expression.truth lib tuple) && kept.all (Expression.truth lib tuple))

theorem Parts.append {es kept pushed es' kept' pushed' : List (Expression T)}
    (h : Parts lib tuple es kept pushed) (h' : Parts lib tuple es' kept' pushed') :
    Parts lib tuple (es ++ es') (kept ++ kept') (pushed ++ pushed') where
  stays := by
    intro e he
    rcases List.mem_append.mp he with he | he
    · exact h.stays e he
    · exact h'.stays e he
  moves := by
    intro e he
    rcases List.mem_append.mp he with he | he
    · exact h.moves e he
    · exact h'.moves e he
  truth := by
    simp only [List.all_append, h.truth, h'.truth]
    ac_rfl

theorem Parts.of_kept {e : Expression T} (h : Defined lib tuple e) :
    Parts lib tuple [e] [e] [] where
  stays := List.forall_mem_singleton.mpr h
  moves := List.forall_mem_nil _
  truth := by simp

theorem Parts.of_pushed {e : Expression T} (h : Defined lib tuple e) :
    Parts lib tuple [e] [] [e] where
  stays := List.forall_mem_nil _
  moves := List.forall_mem_singleton.mpr h
  truth := by simp

end Parts

/-- What the rule makes of one expression: it keeps nothing that it could move, it keeps all of an
expression of which it moves nothing, and the parts are worth the whole. -/
structure Takes (e : Expression T) (rest : Option (Expression T)) (pushed : List (Expression T)) :
    Prop where
  again : ∀ r, rest = some r → getExprsCanPushdown r = .ok (some r, [])
  same : pushed = [] → rest = some e
  parts : ∀ lib tuple, Defined lib tuple e → Parts lib tuple [e] rest.toList pushed

theorem Takes.of_kept {e : Expression T} (h : getExprsCanPushdown e = .ok (some e, [])) :
    Takes e (some e) [] where
  again := by
    intro r hr
    obtain rfl := Option.some.inj hr
    exact h
  same := fun _ => rfl
  parts := fun lib tuple hdefined => Parts.of_kept hdefined

theorem Takes.of_pushed (e : Expression T) : Takes e none [e] where
  again := by
    intro r hr
    cases hr
  same := by
    intro h
    cases h
  parts := fun lib tuple hdefined => Parts.of_pushed hdefined

theorem takes_pushdownLoop {es kept pushed : List (Expression T)}
    (hes : ∀ e ∈ es, ∀ rest pushed, getExprsCanPushdown e = .ok (rest, pushed) →
      Takes e rest pushed)
    (h : pushdownLoop es = .ok (kept, pushed)) :
    pushdownLoop kept = .ok (kept, []) ∧ (pushed = [] → kept = es) ∧
      ∀ lib tuple, (∀ e ∈ es, Defined lib tuple e) → Parts lib tuple es kept pushed := by
  induction es generalizing kept pushed with
  | nil =>
    cases h
    exact ⟨rfl, fun _ => rfl, fun lib tuple _ =>
      ⟨List.forall_mem_nil _, List.forall_mem_nil _, rfl⟩⟩
  | cons e es ih =>
    rw [pushdownLoop] at h
    obtain ⟨⟨rest, moved⟩, he, h⟩ := Expression.exists_of_bind_ok h
    obtain ⟨⟨kept', pushed'⟩, hloop, h⟩ := Expression.exists_of_bind_ok h
    cases h
    have hhead := hes e List.mem_cons_self rest moved he
    obtain ⟨hagain, hsame, hparts⟩ :=
      ih (fun e' he' => hes e' (List.mem_cons_of_mem e he')) hloop
    refine ⟨?_, ?_, ?_⟩
    · cases rest with
      | none => exact hagain
      | some r =>
        change pushdownLoop (r :: kept') = _
        rw [pushdownLoop, hhead.again r rfl, hagain]
        rfl
    · intro hnil
      obtain ⟨hmoved, hpushed⟩ := List.append_eq_nil_iff.mp hnil
      rw [hhead.same hmoved, hsame hpushed]
      rfl
    · intro lib tuple hdefined
      have hfirst := hhead.parts lib tuple (hdefined e List.mem_cons_self)
      exact hfirst.append (hparts lib tuple fun e' he' => hdefined e' (List.mem_cons_of_mem e he'))

/-- `get_exprs_can_pushdown`, by the structure of the expression: only the children of an `AND` are
looked into. -/
theorem takes_getExprsCanPushdown (e : Expression T) :
    ∀ rest pushed, getExprsCanPushdown e = .ok (rest, pushed) → Takes e rest pushed := by
  induction e using Expression.induct with
  | field f =>
    intro rest pushed h
    cases h
    exact Takes.of_kept rfl
  | value v =>
    intro rest pushed h
    cases h
    exact Takes.of_kept rfl
  | values vs =>
    intro rest pushed h
    cases h
    exact Takes.of_kept rfl
  | other type f =>
    intro rest pushed h
    cases h
    exact Takes.of_kept rfl
  | comparison comp left right _ _ =>
    intro rest pushed h
    have hsplit := h
    rw [getExprsCanPushdown] at hsplit
    split_ifs at hsplit <;> cases hsplit
    · exact Takes.of_kept h
    · exact Takes.of_kept h
    · exact Takes.of_pushed _
  | unary comp left _ =>
    intro rest pushed h
    rw [getExprsCanPushdown] at h
    split_ifs at h
    cases h
    exact Takes.of_pushed _
  | conjunction type es ih =>
    intro rest pushed h
    cases type with
    | or =>
      rw [getExprsCanPushdown] at h
      cases h
      exact Takes.of_kept (by rw [getExprsCanPushdown])
    | and =>
      rw [getExprsCanPushdown] at h
      obtain ⟨⟨kept, moved⟩, hloop, h⟩ := Expression.exists_of_bind_ok h
      cases h
      obtain ⟨hagain, hsame, hparts⟩ := takes_pushdownLoop ih hloop
      refine ⟨?_, ?_, ?_⟩
      · intro r hr
        obtain rfl := Option.some.inj hr
        rw [getExprsCanPushdown, hagain]
        rfl
      · intro hnil
        rw [hsame hnil]
      · intro lib tuple hdefined
        have hchildren := hdefined.children
        have hes := hparts lib tuple hchildren
        refine ⟨?_, hes.moves, ?_⟩
        · exact List.forall_mem_singleton.mpr (.conjunction hes.stays)
        · simp only [Option.toList_some, List.all_cons, List.all_nil, Bool.and_true,
            truth_conjunction_and hchildren, truth_conjunction_and hes.stays, hes.truth]

/-! ## The rows of a filtered scan -/

section Rows

variable {lib : StdLib} {tuple : T}

theorem tableScanFilter_of_defined {predicates : List (Expression T)}
    (h : ∀ e ∈ predicates, Defined lib tuple e) :
    tableScanFilter lib tuple predicates =
      .ok (predicates.all (Expression.truth lib tuple)) := by
  induction predicates with
  | nil => rfl
  | cons e es ih =>
    obtain ⟨v, hv⟩ := (h e List.mem_cons_self).exists_value
    have htruth : e.truth lib tuple = v.getBoolean lib := by
      rw [Expression.truth, hv]
    have hes := ih fun e' he' => h e' (List.mem_cons_of_mem e he')
    rw [tableScanFilter, hv, hes, List.all_cons, htruth]
    cases hb : v.getBoolean lib <;> simp [bind, Except.bind, pure, Except.pure, hb]

theorem rowPasses_of_defined {predicates : List (Expression T)} {e : Expression T}
    (hpredicates : ∀ e ∈ predicates, Defined lib tuple e) (he : Defined lib tuple e) :
    rowPasses lib tuple predicates e =
      .ok (predicates.all (Expression.truth lib tuple) && e.truth lib tuple) := by
  obtain ⟨v, hv⟩ := he.exists_value
  have htruth : e.truth lib tuple = v.getBoolean lib := by
    rw [Expression.truth, hv]
  rw [rowPasses, tableScanFilter_of_defined hpredicates, hv, htruth]
  cases predicates.all (Expression.truth lib tuple) <;> rfl

/-- The predicate that the rule leaves over a scan, with what it moved into the scan. -/
theorem Takes.rowPasses {e : Expression T} {rest : Option (Expression T)}
    {pushed : List (Expression T)} (h : Takes e rest pushed) (hdefined : Defined lib tuple e) :
    TDB.rowPasses lib tuple pushed (rest.getD (.value (.booleans true))) =
      .ok (e.truth lib tuple) := by
  have hparts := h.parts lib tuple hdefined
  have htruth : e.truth lib tuple = (pushed.all (Expression.truth lib tuple) &&
      rest.toList.all (Expression.truth lib tuple)) := by
    rw [← hparts.truth]
    simp
  rw [htruth]
  cases rest with
  | none =>
    have htrue : Defined lib tuple (Expression.value (.booleans true)) :=
      .leaf (fun type es h => by cases h) rfl
    exact rowPasses_of_defined hparts.moves htrue
  | some r =>
    rw [Option.toList_some, List.all_cons, List.all_nil, Bool.and_true]
    exact rowPasses_of_defined hparts.moves (hparts.stays r (by simp))

end Rows

/-! ## Whole plans -/

/-- Every filter that stands right over a scan is the scan's first one, and all its parts have values
on every row of the table: pushed down, a part may be evaluated where the filter itself would have
stopped before it. -/
def FiltersDefined (lib : StdLib) (db : Database) : LogicalNode Tuple → Prop
  | .withChild (.predicate e) (.tableGet table predicates) =>
    predicates = [] ∧ ∀ row ∈ db table, Defined lib row e
  | .withChild _ child => FiltersDefined lib db child
  | _ => True

/-- What the rule makes of a node with a child: it is taken apart if it is a filter over a scan. -/
theorem predicatePushdown_cases {op : NodeOp T} {child node : LogicalNode T} {changeMade : Bool}
    (h : predicatePushdown (.withChild op child) = .ok (node, changeMade)) :
    (node = .withChild op child ∧ changeMade = false ∧
      ∀ e table predicates, ¬(op = .predicate e ∧ child = .tableGet table predicates)) ∨
    ∃ e table predicates rest pushed, op = .predicate e ∧ child = .tableGet table predicates ∧
      Takes e rest pushed ∧ changeMade = !pushed.isEmpty ∧
      node = .withChild (.predicate (rest.getD (.value (.booleans true))))
        (.tableGet table (if pushed.isEmpty then predicates else pushed)) := by
  unfold predicatePushdown at h
  split at h
  · rename_i e table predicates heq
    cases heq
    obtain ⟨⟨rest, pushed⟩, hget, h⟩ := Expression.exists_of_bind_ok h
    right
    refine ⟨e, table, predicates, rest, pushed, rfl, rfl,
      takes_getExprsCanPushdown e rest pushed hget, ?_⟩
    dsimp only at h
    split_ifs at h with hempty <;> cases h
    · exact ⟨by rw [hempty]; rfl, by rw [if_pos hempty]⟩
    · exact ⟨by simpa using hempty, by rw [if_neg hempty]⟩
  · rename_i hne
    cases h
    refine .inl ⟨rfl, rfl, ?_⟩
    rintro e table predicates ⟨rfl, rfl⟩
    exact hne e table predicates rfl

/-- The rewriter leaves a filter over a scan alone once it has taken it apart. -/
theorem rewrite_scan_again {e : Expression T} {rest : Option (Expression T)}
    {pushed : List (Expression T)} (h : Takes e rest pushed) (table : String)
    (predicates : List (Expression T)) :
    rewrite (.withChild (.predicate (rest.getD (.value (.booleans true))))
        (.tableGet table predicates)) =
      .ok (.withChild (.predicate (rest.getD (.value (.booleans true))))
        (.tableGet table predicates), false) := by
  have hagain : getExprsCanPushdown (rest.getD (.value (.booleans true))) =
      .ok (some (rest.getD (.value (.booleans true))), []) := by
    cases rest with
    | none => simp [getExprsCanPushdown]
    | some r => exact h.again r rfl
  have hnode : predicatePushdown (.withChild (.predicate (rest.getD (.value (.booleans true))))
        (.tableGet table predicates)) =
      .ok (.withChild (.predicate (rest.getD (.value (.booleans true))))
        (.tableGet table predicates), false) := by
    rw [predicatePushdown, hagain]
    rfl
  rw [rewrite_of_ok hnode, rewrite_tableGet]
  rfl

/-- The two parts of a run of the rewriter over a node with a child. -/
theorem rewrite_withChild_cases {op : NodeOp T} {child plan : LogicalNode T} {changeMade : Bool}
    (h : rewrite (.withChild op child) = .ok (plan, changeMade)) :
    (∃ child', rewrite child = .ok (child', changeMade) ∧ plan = .withChild op child' ∧
      ∀ e table predicates, ¬(op = .predicate e ∧ child = .tableGet table predicates)) ∨
    ∃ e table predicates rest pushed, op = .predicate e ∧ child = .tableGet table predicates ∧
      Takes e rest pushed ∧ changeMade = !pushed.isEmpty ∧
      plan = .withChild (.predicate (rest.getD (.value (.booleans true))))
        (.tableGet table (if pushed.isEmpty then predicates else pushed)) := by
  cases hrule : predicatePushdown (.withChild op child) with
  | error f =>
    rw [rewrite_of_error hrule] at h
    cases h
  | ok result =>
    obtain ⟨node, changed⟩ := result
    rcases predicatePushdown_cases hrule with ⟨rfl, rfl, hne⟩ | htaken
    · rw [rewrite_of_ok hrule] at h
      obtain ⟨⟨child', changed'⟩, hchild, h⟩ := Expression.exists_of_bind_ok h
      cases h
      exact .inl ⟨child', by simpa using hchild, rfl, hne⟩
    · obtain ⟨e, table, predicates, rest, pushed, hop, hchild, htakes, hchanged, rfl⟩ := htaken
      rw [rewrite_of_ok hrule, rewrite_tableGet] at h
      cases h
      exact .inr ⟨e, table, predicates, rest, pushed, hop, hchild, htakes, by simp [hchanged], rfl⟩

theorem rewrite_childless (op : NodeOp T) :
    rewrite (.childless op) = .ok (.childless op, false) := by
  rw [rewrite]
  rfl

/-- The rewriter makes scans of scans only. -/
theorem eq_of_rewrite_tableGet {plan : LogicalNode T} {table : String}
    {predicates : List (Expression T)} {changeMade : Bool}
    (h : rewrite plan = .ok (.tableGet table predicates, changeMade)) :
    plan = .tableGet table predicates := by
  cases plan with
  | tableGet table' predicates' =>
    rw [rewrite_tableGet] at h
    cases h
    rfl
  | childless op =>
    rw [rewrite_childless] at h
    cases h
  | withChild op child =>
    rcases rewrite_withChild_cases h with ⟨child', -, hplan, -⟩ | htaken
    · cases hplan
    · obtain ⟨e, table', predicates', rest, pushed, -, -, -, -, hplan⟩ := htaken
      cases hplan

/-- A second run changes nothing. -/
theorem rewrite_again {plan plan' : LogicalNode T} {changeMade : Bool}
    (h : rewrite plan = .ok (plan', changeMade)) : rewrite plan' = .ok (plan', false) := by
  induction plan generalizing plan' changeMade with
  | tableGet table predicates =>
    rw [rewrite_tableGet] at h
    cases h
    exact rewrite_tableGet table predicates
  | childless op =>
    rw [rewrite_childless] at h
    cases h
    exact rewrite_childless op
  | withChild op child ih =>
    rcases rewrite_withChild_cases h with ⟨child', hchild, rfl, hne⟩ | htaken
    · -- no filter comes to stand over a scan that did not before
      have hrule : predicatePushdown (.withChild op child') =
          .ok (.withChild op child', false) := by
        unfold predicatePushdown
        split
        · rename_i e table predicates heq
          cases heq
          exact absurd ⟨rfl, eq_of_rewrite_tableGet hchild⟩ (hne e table predicates)
        · rfl
      rw [rewrite_of_ok hrule, ih hchild]
      rfl
    · obtain ⟨e, table, predicates, rest, pushed, -, -, htakes, -, rfl⟩ := htaken
      exact rewrite_scan_again htakes table _

/-- A run that reports no change has made none. -/
theorem eq_of_rewrite_unchanged {plan plan' : LogicalNode T}
    (h : rewrite plan = .ok (plan', false)) : plan' = plan := by
  induction plan generalizing plan' with
  | tableGet table predicates =>
    rw [rewrite_tableGet] at h
    cases h
    rfl
  | childless op =>
    rw [rewrite_childless] at h
    cases h
    rfl
  | withChild op child ih =>
    rcases rewrite_withChild_cases h with ⟨child', hchild, rfl, -⟩ | htaken
    · rw [ih hchild]
    · obtain ⟨e, table, predicates, rest, pushed, rfl, rfl, htakes, hchanged, rfl⟩ := htaken
      have hempty : pushed.isEmpty = true := by simpa using hchanged
      rw [htakes.same (List.isEmpty_iff.mp hempty), if_pos hempty]
      rfl

section Results

variable {std : StdSort.Sorter (List Value × ℕ)} {lib : StdLib} {db : Database}

/-- The results of a filter over a scan, before and after the rule has taken it apart. -/
theorem planEvents_scan {e : Expression Tuple} {rest : Option (Expression Tuple)}
    {pushed : List (Expression Tuple)} (h : Takes e rest pushed) {table : String}
    (hdefined : ∀ row ∈ db table, Defined lib row e) :
    planEvents std lib db (.withChild (.predicate e) (.tableGet table [])) =
      planEvents std lib db (.withChild (.predicate (rest.getD (.value (.booleans true))))
        (.tableGet table pushed)) := by
  have hplain : ∀ row ∈ db table, rowPasses lib row [] e = .ok (e.truth lib row) := by
    intro row hrow
    rw [rowPasses_of_defined (List.forall_mem_nil _) (hdefined row hrow)]
    rfl
  have htaken : ∀ row ∈ db table, rowPasses lib row pushed (rest.getD (.value (.booleans true))) =
      .ok (e.truth lib row) := fun row hrow => h.rowPasses (hdefined row hrow)
  have hevents := (predicateEvents_tableScanEvents hplain).trans
    (predicateEvents_tableScanEvents htaken).symm
  rw [planEvents, planEvents, planEvents, planEvents]
  exact congrArg (fun events => Except.ok (EventStream.mk events _)) hevents

/-- The rewriter keeps the results of every node, from the scans up. -/
theorem planEvents_rewrite {plan plan' : LogicalNode Tuple} {changeMade : Bool}
    (h : rewrite plan = .ok (plan', changeMade)) (hfilters : FiltersDefined lib db plan) :
    planEvents std lib db plan' = planEvents std lib db plan := by
  induction plan generalizing plan' changeMade with
  | tableGet table predicates =>
    rw [rewrite_tableGet] at h
    cases h
    rfl
  | childless op =>
    rw [rewrite_childless] at h
    cases h
    rfl
  | withChild op child ih =>
    rcases rewrite_withChild_cases h with ⟨child', hchild, rfl, hne⟩ | htaken
    · have hbelow : FiltersDefined lib db child := by
        unfold FiltersDefined at hfilters
        split at hfilters
        · rename_i e table predicates heq
          cases heq
          exact trivial
        · rename_i heq
          cases heq
          exact hfilters
        · rename_i hnot
          exact absurd rfl (hnot op child)
      rw [planEvents, planEvents, ih hchild hbelow]
    · obtain ⟨e, table, predicates, rest, pushed, rfl, rfl, htakes, -, rfl⟩ := htaken
      obtain ⟨rfl, hdefined⟩ := hfilters
      have hscan := @planEvents_scan std lib db e rest pushed htakes table hdefined
      cases hempty : pushed.isEmpty with
      | true =>
        rw [List.isEmpty_iff.mp hempty] at hscan
        exact hscan.symm
      | false => exact hscan.symm

end Results

end TDB.Analyzer
