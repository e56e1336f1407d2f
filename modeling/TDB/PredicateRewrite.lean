import TDB.QueryRun

namespace TDB

variable {T : Type}

/-! ## The rule -/

/-- `PredicateRewriteRule::rewrite`, with the value it gives `change_made`. -/
def predicateRewrite (lib : StdLib) : LogicalNode T → LogicalNode T × Bool
  | .withChild op (.withChild (.predicate (.value v)) grandChild) =>
    if v.getBoolean lib then (.withChild op grandChild, true) else (.childless op, true)
  | .withChild op (.childless (.predicate (.value _))) => (.childless op, true)
  | node => (node, false)

def LogicalNode.size : LogicalNode T → ℕ
  | .withChild _ child => child.size + 1
  | _ => 1

theorem size_predicateRewrite {lib : StdLib} {node child : LogicalNode T} {op : NodeOp T}
    {changeMade : Bool} (h : predicateRewrite lib node = (.withChild op child, changeMade)) :
    child.size < node.size := by
  unfold predicateRewrite at h
  split at h
  · split at h
    · cases h
      simp only [LogicalNode.size]
      omega
    · cases h
  · cases h
  · cases h
    simp [LogicalNode.size]

/-- `Rewriter::rewrite` with this rule: the node first, then what it has as child. -/
def rewriterPass (lib : StdLib) (node : LogicalNode T) : LogicalNode T × Bool :=
  match _h : predicateRewrite lib node with
  | (.withChild op child, changeMade) =>
    let (child, changeMade') := rewriterPass lib child
    (.withChild op child, changeMade || changeMade')
  | result => result
termination_by node.size
decreasing_by exact size_predicateRewrite _h

/-! ## Streams that no parent can tell apart -/

/-- The same results of `next`; the tuple behind them matters only if there are rows. -/
structure EventStream.Same (s s' : EventStream) : Prop where
  events : s.events = s'.events
  last : (∃ first later, Event.row first later ∈ s.events) → s.last = s'.last

theorem EventStream.Same.refl (s : EventStream) : s.Same s := ⟨rfl, fun _ => rfl⟩

theorem EventStream.Same.trans {s s' s'' : EventStream} (h : s.Same s') (h' : s'.Same s'') :
    s.Same s'' := by
  refine ⟨h.events.trans h'.events, fun hrow => (h.last hrow).trans (h'.last ?_)⟩
  rwa [h.events] at hrow

section

variable {std : StdSort.Sorter (List Value × ℕ)} {lib : StdLib}

theorem exists_row_of_projectEvents {expressions : List (Expression Tuple)} {events : List Event}
    {first later : Tuple} (h : Event.row first later ∈ projectEvents lib expressions events) :
    ∃ first later, Event.row first later ∈ events := by
  obtain ⟨event, hevent, heq⟩ := List.mem_map.mp h
  cases event with
  | row first later => exact ⟨first, later, hevent⟩
  | failed f => cases heq

theorem exists_row_of_predicateEvents {expression : Expression Tuple} {events : List Event}
    {first later : Tuple} (h : Event.row first later ∈ predicateEvents lib expression events) :
    ∃ first', Event.row first' later ∈ events ∧ first = later := by
  induction events with
  | nil => cases h
  | cons event events ih =>
    have hcons : Event.row first later ∈ predicateEvents lib expression events →
        ∃ first', Event.row first' later ∈ event :: events ∧ first = later := by
      intro h
      obtain ⟨first', hmem, heq⟩ := ih h
      exact ⟨first', List.mem_cons_of_mem _ hmem, heq⟩
    cases event with
    | failed f =>
      rw [predicateEvents] at h
      rcases List.mem_cons.mp h with h | h
      · cases h
      · exact hcons h
    | row first' later' =>
      rw [predicateEvents] at h
      split at h
      · rcases List.mem_cons.mp h with h | h
        · cases h
        · exact hcons h
      · split at h
        · rcases List.mem_cons.mp h with h | h
          · cases h
            exact ⟨first', by simp, rfl⟩
          · exact hcons h
        · exact hcons h

theorem exists_row_of_drainEvents {events : List Event} (h : (drainEvents events).rows ≠ []) :
    ∃ first later, Event.row first later ∈ events := by
  cases events with
  | nil => exact absurd rfl h
  | cons event events =>
    cases event with
    | failed f => exact absurd rfl h
    | row first later => exact ⟨first, later, by simp⟩

theorem sortedRows_nil {R : Type} (units : List (OrderByUnit R)) :
    OrderPhysicalOperator.sortedRows std lib units ([] : List R) = [] := by
  simp [OrderPhysicalOperator.sortedRows]

theorem exists_row_of_orderEvents {orderUnits : List (OrderByUnit Tuple)} {s : EventStream}
    {first later : Tuple} (h : Event.row first later ∈ orderEvents std lib orderUnits s) :
    ∃ first later, Event.row first later ∈ s.events := by
  apply exists_row_of_drainEvents
  intro hnil
  rw [orderEvents, hnil, sortedRows_nil] at h
  split at h <;> simp at h

/-- An operator does not tell such streams apart. -/
theorem EventStream.Same.opEvents {s s' : EventStream} (h : s.Same s') (op : NodeOp Tuple) :
    (TDB.opEvents std lib op s).Same (TDB.opEvents std lib op s') := by
  cases op with
  | project expressions =>
    refine ⟨congrArg (projectEvents lib expressions) h.events, ?_⟩
    rintro ⟨first, later, hrow⟩
    exact congrArg (Option.map _) (h.last (exists_row_of_projectEvents hrow))
  | predicate expression =>
    refine ⟨congrArg (predicateEvents lib expression) h.events, ?_⟩
    rintro ⟨first, later, hrow⟩
    obtain ⟨first', hmem, -⟩ := exists_row_of_predicateEvents hrow
    exact h.last ⟨first', later, hmem⟩
  | order orderUnits =>
    refine ⟨?_, ?_⟩
    · change orderEvents std lib orderUnits s = orderEvents std lib orderUnits s'
      by_cases hrows : (drainEvents s.events).rows = []
      · have hrows' : (drainEvents s'.events).rows = [] := by rwa [← h.events]
        rw [orderEvents, orderEvents, hrows, hrows', sortedRows_nil, h.events]
        rfl
      · have hlast := h.last (exists_row_of_drainEvents hrows)
        rw [orderEvents, orderEvents, h.events, hlast]
    · rintro ⟨first, later, hrow⟩
      exact h.last (exists_row_of_orderEvents hrow)
  | aggr units =>
    have heq : TDB.opEvents std lib (.aggr units) s = TDB.opEvents std lib (.aggr units) s' := by
      simp only [TDB.opEvents, h.events]
    rw [heq]
    exact .refl _

/-- Two plans that fail alike, or whose streams no parent can tell apart. -/
def PlanSame : Except Failure EventStream → Except Failure EventStream → Prop
  | .ok s, .ok s' => s.Same s'
  | .error f, .error f' => f = f'
  | _, _ => False

theorem PlanSame.refl (result : Except Failure EventStream) : PlanSame result result := by
  cases result with
  | ok s => exact EventStream.Same.refl s
  | error f => rfl

theorem PlanSame.trans {r r' r'' : Except Failure EventStream} (h : PlanSame r r')
    (h' : PlanSame r' r'') : PlanSame r r'' := by
  cases r <;> cases r' <;> cases r'' <;> try contradiction
  · exact Eq.trans h h'
  · exact EventStream.Same.trans h h'

theorem PlanSame.opEvents {r r' : Except Failure EventStream} (h : PlanSame r r')
    (op : NodeOp Tuple) :
    PlanSame (r.map (TDB.opEvents std lib op)) (r'.map (TDB.opEvents std lib op)) := by
  cases r <;> cases r' <;> try contradiction
  · exact h
  · exact EventStream.Same.opEvents h op

theorem PlanSame.queryResult {db : Database} {plan plan' : LogicalNode Tuple}
    (h : PlanSame (planEvents std lib db plan) (planEvents std lib db plan')) :
    queryResult std lib db plan' = queryResult std lib db plan := by
  unfold TDB.queryResult
  cases hp : planEvents std lib db plan with
  | error f =>
    cases hp' : planEvents std lib db plan' with
    | error f' =>
      rw [hp, hp'] at h
      rw [show f = f' from h]
    | ok s' =>
      rw [hp, hp'] at h
      exact h.elim
  | ok s =>
    cases hp' : planEvents std lib db plan' with
    | error f' =>
      rw [hp, hp'] at h
      exact h.elim
    | ok s' =>
      rw [hp, hp'] at h
      simp only [EventStream.Same.events h]

/-! ## Constant predicates -/

/-- Every call of `current_tuple` gives the same tuple for a row. -/
def Settled (events : List Event) : Prop :=
  ∀ first later, Event.row first later ∈ events → first = later

/-- The plans whose rows are settled: all but an order-by, also one under projections. -/
def LogicalNode.settled : LogicalNode T → Bool
  | .withChild (.order _) _ => false
  | .withChild (.project _) child => child.settled
  | _ => true

theorem settled_tableScanEvents (predicates : List (Expression Tuple)) (tuples : List Tuple) :
    Settled (tableScanEvents lib predicates tuples) := by
  induction tuples with
  | nil =>
    intro first later h
    cases h
  | cons tuple tuples ih =>
    intro first later h
    rw [tableScanEvents] at h
    split at h
    · rcases List.mem_cons.mp h with h | h
      · cases h
        rfl
      · exact ih first later h
    · exact ih first later h
    · rcases List.mem_cons.mp h with h | h
      · cases h
      · exact ih first later h

theorem settled_aggrEvents (units : List (AggrUnit Tuple)) (events : List Event) :
    ∀ cells isFirstCalled aggrFlag,
      Settled (aggrEvents lib units cells isFirstCalled aggrFlag events) := by
  have hrow : ∀ cells first later, Event.row first later = aggrRow lib units cells →
      first = later := by
    intro cells first later h
    unfold aggrRow at h
    split at h <;> cases h
    rfl
  induction events with
  | nil =>
    intro cells isFirstCalled aggrFlag first later h
    rw [aggrEvents] at h
    split at h
    · exact hrow cells first later (List.mem_singleton.mp h)
    · cases h
  | cons event events ih =>
    intro cells isFirstCalled aggrFlag first later h
    -- only the end of the input makes a row, and its two values agree
    rcases event with ⟨first', later'⟩ | ⟨rc⟩ | _ | _
    · rw [aggrEvents] at h
      split at h
      · exact ih _ _ _ first later h
      · rcases List.mem_cons.mp h with h | h
        · cases h
        · exact ih _ _ _ first later h
    · rw [aggrEvents] at h
      split at h
      · rcases List.mem_cons.mp h with h | h
        · exact hrow cells first later h
        · exact ih _ _ _ first later h
      · rcases List.mem_cons.mp h with h | h
        · cases h
        · exact ih _ _ _ first later h
    · rw [aggrEvents] at h
      · rcases List.mem_cons.mp h with h | h
        · cases h
        · exact ih _ _ _ first later h
      · intro rc hrc
        cases hrc
    · rw [aggrEvents] at h
      · rcases List.mem_cons.mp h with h | h
        · cases h
        · exact ih _ _ _ first later h
      · intro rc hrc
        cases hrc

theorem settled_planEvents {db : Database} {plan : LogicalNode Tuple} (h : plan.settled = true)
    {s : EventStream} (hs : planEvents std lib db plan = .ok s) : Settled s.events := by
  induction plan generalizing s with
  | tableGet table predicates =>
    cases hs
    exact settled_tableScanEvents predicates (db table)
  | childless op =>
    cases op <;> cases hs <;> exact fun first later h => by cases h
  | withChild op child ih =>
    rw [planEvents] at hs
    cases hc : planEvents std lib db child with
    | error f =>
      rw [hc] at hs
      cases hs
    | ok c =>
      rw [hc] at hs
      cases hs
      intro first later hrow
      cases op with
      | order orderUnits => cases h
      | aggr units => exact settled_aggrEvents units c.events _ _ _ first later hrow
      | predicate expression =>
        obtain ⟨first', -, heq⟩ := exists_row_of_predicateEvents hrow
        exact heq
      | project expressions =>
        obtain ⟨event, hevent, heq⟩ := List.mem_map.mp hrow
        cases event with
        | failed f => cases heq
        | row first' later' =>
          have hsame := ih h hc first' later' hevent
          subst hsame
          cases heq
          rfl

/-- A constant-true predicate passes exactly settled rows on as they are. -/
theorem predicateEvents_true_iff {v : Value} (hv : v.getBoolean lib = true) (events : List Event) :
    predicateEvents lib (.value v) events = events ↔ Settled events := by
  constructor
  · intro heq first later hrow
    rw [← heq] at hrow
    obtain ⟨-, -, hsame⟩ := exists_row_of_predicateEvents hrow
    exact hsame
  · intro h
    induction events with
    | nil => rfl
    | cons event events ih =>
      have htail := ih fun first later hmem => h first later (List.mem_cons_of_mem _ hmem)
      cases event with
      | failed f => rw [predicateEvents, htail]
      | row first later =>
        have heq := h first later (by simp)
        rw [predicateEvents, Expression.getValue]
        simp only [hv, if_true, htail, heq]

theorem predicateEvents_false {v : Value} (hv : v.getBoolean lib = false) (events : List Event) :
    (predicateEvents lib (.value v) events).filterMap Event.first? = [] ∧
      (resultRows (predicateEvents lib (.value v) events)).2 = (resultRows events).2 ∧
      (predicateEvents lib (.value v) events = [] ↔ ∀ f, Event.failed f ∉ events) := by
  induction events with
  | nil => exact ⟨rfl, rfl, iff_of_true rfl fun f => List.not_mem_nil⟩
  | cons event events ih =>
    obtain ⟨hrows, hending, hnil⟩ := ih
    cases event with
    | failed f =>
      rw [predicateEvents]
      exact ⟨hrows, rfl, iff_of_false (List.cons_ne_nil _ _) fun h => h f List.mem_cons_self⟩
    | row first later =>
      rw [predicateEvents, Expression.getValue]
      simp only [hv, Bool.false_eq_true, if_false]
      exact ⟨hrows, hending, hnil.trans (by simp)⟩

/-! ## When the rule keeps the results -/

/-- The plan runs to `RECORD_EOF` without a failure. -/
def RunsWithoutError (std : StdSort.Sorter (List Value × ℕ)) (lib : StdLib) (db : Database)
    (plan : LogicalNode Tuple) : Prop :=
  ∃ s, planEvents std lib db plan = .ok s ∧ ∀ f, Event.failed f ∉ s.events

theorem aggrRow_initial (lib : StdLib) (units : List (AggrUnit Tuple)) :
    ∃ tuple, aggrRow lib units (units.map fun _ => {}) = .row tuple tuple := by
  have hmapM : ∃ results, ((units.zip (units.map fun _ => ({} : AggrCell))).mapM
      fun both => aggrDone lib both.1 both.2) = some results := by
    induction units with
    | nil => exact ⟨[], rfl⟩
    | cons unit units ih =>
      obtain ⟨results, hresults⟩ := ih
      obtain ⟨result, hresult⟩ : ∃ result, aggrDone lib unit {} = some result := ⟨_, rfl⟩
      refine ⟨result :: results, ?_⟩
      rw [List.map_cons, List.zip_cons_cons, List.mapM_cons, hresults]
      simp only [hresult]
      rfl
  obtain ⟨results, hresults⟩ := hmapM
  refine ⟨aggrTuple units results, ?_⟩
  unfold aggrRow
  erw [hresults]

theorem resultRows_aggrEvents {units : List (AggrUnit Tuple)} {events : List Event}
    (h : events.filterMap Event.first? = []) :
    resultRows (aggrEvents lib units (units.map fun _ => {}) true false events) ≠
      ([], .code .recordEof) := by
  obtain ⟨tuple, htuple⟩ := aggrRow_initial lib units
  cases events with
  | nil =>
    rw [aggrEvents, htuple]
    simp [resultRows]
  | cons event events =>
    rcases event with ⟨first, later⟩ | ⟨rc⟩ | _ | _
    · cases h
    · rw [aggrEvents, htuple]
      simp [resultRows]
    · rw [aggrEvents]
      · simp [resultRows]
      · intro rc hrc
        cases hrc
    · rw [aggrEvents]
      · simp [resultRows]
      · intro rc hrc
        cases hrc

/-- A second call of `current_tuple` gives every row of the plan as the first one did. -/
def Steady (std : StdSort.Sorter (List Value × ℕ)) (lib : StdLib) (db : Database)
    (plan : LogicalNode Tuple) : Prop :=
  ∀ s, planEvents std lib db plan = .ok s → Settled s.events

/-- Over no row of the plan below, an operator ends as it does without a child. -/
def ClearingOk (std : StdSort.Sorter (List Value × ℕ)) (lib : StdLib) (db : Database)
    (below : LogicalNode Tuple) : NodeOp Tuple → Prop
  | .project _ => RunsWithoutError std lib db below
  | .aggr _ => False
  | .order _ => planEvents std lib db below = .error (.code .internal)
  | .predicate _ => planEvents std lib db below = .error .crash

/-- What the rule removes below a node, if anything. -/
def RemovalOk (std : StdSort.Sorter (List Value × ℕ)) (lib : StdLib) (db : Database) :
    LogicalNode Tuple → Prop
  | .withChild op (.withChild (.predicate (.value v)) grandChild) =>
    if v.getBoolean lib then Steady std lib db grandChild
    else ClearingOk std lib db grandChild op
  | .withChild op (.childless (.predicate (.value v))) =>
    ClearingOk std lib db (.childless (.predicate (.value v))) op
  | _ => True

/-- The same at every node that a pass of the rewriter comes to. -/
def RemovalsOk (std : StdSort.Sorter (List Value × ℕ)) (lib : StdLib) (db : Database)
    (node : LogicalNode Tuple) : Prop :=
  RemovalOk std lib db node ∧
    match _h : predicateRewrite lib node with
    | (.withChild _ child, _) => RemovalsOk std lib db child
    | _ => True
termination_by node.size
decreasing_by exact size_predicateRewrite _h

/-- The streams that the rule exchanges at a node: for a constant-true predicate that of the plan
below it, else that of the node itself. -/
def RemovalUnnoticed (std : StdSort.Sorter (List Value × ℕ)) (lib : StdLib) (db : Database) :
    LogicalNode Tuple → Prop
  | .withChild op (.withChild (.predicate (.value v)) grandChild) =>
    if v.getBoolean lib then
      PlanSame (planEvents std lib db (.withChild (.predicate (.value v)) grandChild))
        (planEvents std lib db grandChild)
    else
      PlanSame (planEvents std lib db
        (.withChild op (.withChild (.predicate (.value v)) grandChild)))
        (planEvents std lib db (.childless op))
  | .withChild op (.childless (.predicate (.value v))) =>
    PlanSame (planEvents std lib db (.withChild op (.childless (.predicate (.value v)))))
      (planEvents std lib db (.childless op))
  | _ => True

theorem removeTrue_iff {db : Database} {v : Value} (hv : v.getBoolean lib = true)
    (child : LogicalNode Tuple) :
    PlanSame (planEvents std lib db (.withChild (.predicate (.value v)) child))
      (planEvents std lib db child) ↔ Steady std lib db child := by
  unfold Steady
  rw [planEvents]
  cases hc : planEvents std lib db child with
  | error f => exact iff_of_true rfl fun s hs => by cases hs
  | ok s =>
    change EventStream.Same ⟨predicateEvents lib (.value v) s.events, s.last⟩ s ↔ _
    constructor
    · intro h s' hs
      obtain rfl := Except.ok.inj hs
      exact (predicateEvents_true_iff hv _).mp h.events
    · intro h
      exact ⟨(predicateEvents_true_iff hv _).mpr (h s rfl), fun _ => rfl⟩

theorem aggrEvents_ne_nil (units : List (AggrUnit Tuple)) {events : List Event}
    (h : events.filterMap Event.first? = []) :
    aggrEvents lib units (units.map fun _ => {}) true false events ≠ [] := by
  intro hnil
  apply resultRows_aggrEvents h
  rw [hnil]
  rfl

/-- An operator over a stream without rows, and without a child. -/
theorem childless_same_iff {r : Except Failure EventStream}
    (hr : ∀ s, r = .ok s → s.events.filterMap Event.first? = []) (op : NodeOp Tuple) :
    PlanSame (r.map (opEvents std lib op)) (childlessEvents op) ↔ match op with
      | .project _ => ∃ s, r = .ok s ∧ s.events = []
      | .aggr _ => False
      | .order _ => r = .error (.code .internal)
      | .predicate _ => r = .error .crash := by
  cases r with
  | error f => cases op <;> simp [Except.map, childlessEvents, PlanSame]
  | ok s =>
    have hrows := hr s rfl
    cases op with
    | project expressions =>
      change EventStream.Same ⟨projectEvents lib expressions s.events, _⟩ {} ↔ _
      constructor
      · intro h
        exact ⟨s, rfl, List.map_eq_nil_iff.mp h.events⟩
      · rintro ⟨s', hs, hnil⟩
        obtain rfl := Except.ok.inj hs
        rw [hnil]
        exact ⟨rfl, fun ⟨first, later, hrow⟩ => by cases hrow⟩
    | aggr units => exact iff_of_false (fun h => aggrEvents_ne_nil units hrows h.events) id
    | order orderUnits => exact iff_of_false id fun h => by cases h
    | predicate expression => exact iff_of_false id fun h => by cases h

theorem clearing_iff {db : Database} {v : Value} (hv : v.getBoolean lib = false)
    (op : NodeOp Tuple) (child : LogicalNode Tuple) :
    PlanSame (planEvents std lib db (.withChild op (.withChild (.predicate (.value v)) child)))
      (planEvents std lib db (.childless op)) ↔ ClearingOk std lib db child op := by
  rw [planEvents, planEvents, planEvents, childless_same_iff]
  · cases hc : planEvents std lib db child with
    | error f => cases op <;> simp [ClearingOk, RunsWithoutError, hc, Except.map]
    | ok s =>
      have hnil := (predicateEvents_false hv s.events).2.2
      cases op <;> simp [ClearingOk, RunsWithoutError, hc, Except.map, opEvents, hnil]
  · intro s hs
    cases hc : planEvents std lib db child with
    | error f =>
      rw [hc] at hs
      cases hs
    | ok s' =>
      rw [hc] at hs
      obtain rfl := Except.ok.inj hs
      exact (predicateEvents_false hv s'.events).1

theorem clearing_childless_iff {db : Database} (op : NodeOp Tuple) (v : Value) :
    PlanSame (planEvents std lib db (.withChild op (.childless (.predicate (.value v)))))
      (planEvents std lib db (.childless op)) ↔
      ClearingOk std lib db (.childless (.predicate (.value v))) op := by
  rw [planEvents, planEvents, planEvents, childless_same_iff fun s hs => by cases hs]
  cases op <;> simp [ClearingOk, RunsWithoutError, planEvents, childlessEvents]

/-- What the rule removes is unnoticed exactly under this condition. -/
theorem removalOk_iff (db : Database) (node : LogicalNode Tuple) :
    RemovalOk std lib db node ↔ RemovalUnnoticed std lib db node := by
  unfold RemovalOk RemovalUnnoticed
  split
  · split_ifs with hv
    · exact (removeTrue_iff hv _).symm
    · exact (clearing_iff (Bool.eq_false_iff.mpr hv) _ _).symm
  · exact (clearing_childless_iff _ _).symm
  · exact Iff.rfl

theorem predicateRewrite_same {db : Database} {node : LogicalNode Tuple}
    (h : RemovalOk std lib db node) :
    PlanSame (planEvents std lib db node)
      (planEvents std lib db (predicateRewrite lib node).1) := by
  rw [removalOk_iff] at h
  unfold RemovalUnnoticed at h
  unfold predicateRewrite
  split
  · rename_i op v grandChild
    dsimp only at h
    split_ifs at h ⊢ with hv
    · rw [planEvents, planEvents]
      exact PlanSame.opEvents h op
    · exact h
  · exact h
  · exact PlanSame.refl _

theorem rewriterPass_same {db : Database} {node : LogicalNode Tuple}
    (h : RemovalsOk std lib db node) :
    PlanSame (planEvents std lib db node) (planEvents std lib db (rewriterPass lib node).1) := by
  rw [RemovalsOk] at h
  obtain ⟨hremoval, hbelow⟩ := h
  have hrule := predicateRewrite_same hremoval
  rw [rewriterPass]
  split
  · rename_i op child changeMade heq
    rw [heq] at hrule
    split at hbelow
    · rename_i op' child' changeMade' heq'
      obtain ⟨heq₁, -⟩ := Prod.mk.inj (heq.symm.trans heq')
      obtain ⟨-, rfl⟩ := LogicalNode.withChild.inj heq₁
      apply hrule.trans
      change PlanSame (planEvents std lib db (.withChild op child))
        (planEvents std lib db (.withChild op (rewriterPass lib child).1))
      rw [planEvents, planEvents]
      exact PlanSame.opEvents (rewriterPass_same hbelow) op
    · rename_i hne
      exact absurd heq (hne op child changeMade)
  · exact hrule
termination_by node.size
decreasing_by exact size_predicateRewrite (by assumption)

/-- A plan does not end with `RECORD_EOF` before its first call of `next`. -/
theorem planEvents_error {db : Database} {plan : LogicalNode Tuple} {f : Failure}
    (h : planEvents std lib db plan = .error f) : f ≠ .code .recordEof := by
  induction plan with
  | tableGet table predicates => cases h
  | childless op => cases op <;> cases h <;> decide
  | withChild op child ih =>
    rw [planEvents] at h
    cases hc : planEvents std lib db child with
    | error f' =>
      rw [hc] at h
      cases h
      exact ih hc
    | ok s =>
      rw [hc] at h
      cases h

/-- The ending of a query that a parent without a child has instead, if it has no row. -/
def absentEnding : NodeOp Tuple → Failure
  | .project _ => .code .recordEof
  | .aggr _ => .code .recordEof
  | .order _ => .code .internal
  | .predicate _ => .crash

theorem queryResult_childless (db : Database) (op : NodeOp Tuple) :
    queryResult std lib db (.childless op) = ([], absentEnding op) := by
  cases op <;> rfl

/-- The results of an operator over failures only, which an aggregate turns into a row. -/
theorem resultRows_opEvents {op : NodeOp Tuple} {s : EventStream}
    (h : s.events.filterMap Event.first? = []) (hop : ∀ units, op ≠ .aggr units) :
    resultRows (opEvents std lib op s).events = ([], (resultRows s.events).2) := by
  obtain ⟨events, last⟩ := s
  cases events with
  | nil =>
    cases op with
    | aggr units => exact absurd rfl (hop units)
    | order orderUnits =>
      change resultRows (orderEvents std lib orderUnits ⟨[], last⟩) = _
      rw [orderEvents, drainEvents, sortedRows_nil]
      rfl
    | project expressions => rfl
    | predicate expression => rfl
  | cons event events =>
    cases event with
    | row first later => cases h
    | failed f =>
      cases op with
      | aggr units => exact absurd rfl (hop units)
      | order orderUnits =>
        change resultRows (orderEvents std lib orderUnits ⟨.failed f :: events, last⟩) = ([], f)
        rw [orderEvents, drainEvents, sortedRows_nil]
        by_cases hf : f = .code .recordEof
        · subst hf
          rfl
        · simp [hf, resultRows]
      | project expressions => rfl
      | predicate expression => rfl

/-- At the root of a plan, removing a constant-false predicate is right exactly if the plan below
ends as the parent does without a child, and the parent is no aggregate. -/
theorem removeFalse_iff {db : Database} (op : NodeOp Tuple) {v : Value}
    (hv : v.getBoolean lib = false) (child : LogicalNode Tuple) :
    queryResult std lib db
        (predicateRewrite lib (.withChild op (.withChild (.predicate (.value v)) child))).1 =
      queryResult std lib db (.withChild op (.withChild (.predicate (.value v)) child)) ↔
      (∀ units, op ≠ .aggr units) ∧ (queryResult std lib db child).2 = absentEnding op := by
  have hrule : (predicateRewrite lib
      (.withChild op (.withChild (.predicate (.value v)) child))).1 = .childless op := by
    simp only [predicateRewrite, hv, Bool.false_eq_true, if_false]
  rw [hrule, queryResult_childless]
  unfold queryResult
  rw [planEvents, planEvents]
  cases hc : planEvents std lib db child with
  | error f =>
    change ([], absentEnding op) = ([], f) ↔ _ ∧ f = absentEnding op
    have hf := planEvents_error hc
    constructor
    · intro h
      have hending := (Prod.mk.inj h).2
      refine ⟨fun units hop => ?_, hending.symm⟩
      subst hop
      exact hf hending.symm
    · rintro ⟨-, h⟩
      rw [h]
  | ok s =>
    obtain ⟨hrows, hending, -⟩ := predicateEvents_false hv s.events
    change ([], absentEnding op) = resultRows (opEvents std lib op
      ⟨predicateEvents lib (.value v) s.events, s.last⟩).events ↔
      _ ∧ (resultRows s.events).2 = absentEnding op
    -- an aggregation over no row still answers with one row
    by_cases hop : ∀ units, op ≠ .aggr units
    · rw [resultRows_opEvents hrows hop, hending]
      constructor
      · intro h
        exact ⟨hop, (Prod.mk.inj h).2.symm⟩
      · rintro ⟨-, h⟩
        rw [h]
    · obtain ⟨units, rfl⟩ : ∃ units, op = .aggr units := by
        by_contra hne
        exact hop fun units h => hne ⟨units, h⟩
      constructor
      · intro h
        exact absurd h.symm (resultRows_aggrEvents hrows)
      · rintro ⟨h, -⟩
        exact absurd rfl (h units)

end

def rewriterRun (lib : StdLib) : ℕ → LogicalNode T → LogicalNode T
  | 0, plan => plan
  | n + 1, plan => rewriterRun lib n (rewriterPass lib plan).1

/-- The rewriter keeps rows and final return code of every plan while each pass removes only what
it may.  Every other removal changes the stream at its place; for a constant-false predicate below
the root of a plan it is known exactly when the result stays the same. -/
theorem predicateRewrite_keeps_results (std : StdSort.Sorter (List Value × ℕ)) (lib : StdLib)
    (db : Database) (plan : LogicalNode Tuple) :
    (∀ n, (∀ m, m < n → RemovalsOk std lib db (rewriterRun lib m plan)) →
      queryResult std lib db (rewriterRun lib n plan) = queryResult std lib db plan) ∧
    (RemovalOk std lib db plan ↔ RemovalUnnoticed std lib db plan) ∧
    ∀ op v child, plan = .withChild op (.withChild (.predicate (.value v)) child) →
      v.getBoolean lib = false →
      (queryResult std lib db (predicateRewrite lib plan).1 = queryResult std lib db plan ↔
        (∀ units, op ≠ .aggr units) ∧ (queryResult std lib db child).2 = absentEnding op) := by
  refine ⟨?_, removalOk_iff db plan, ?_⟩
  · intro n hok
    induction n generalizing plan with
    | zero => rfl
    | succ n ih =>
      have hpass : RemovalsOk std lib db plan := hok 0 (Nat.succ_pos n)
      have hrest := ih (rewriterPass lib plan).1 fun m hm => hok (m + 1) (Nat.succ_lt_succ hm)
      exact hrest.trans (rewriterPass_same hpass).queryResult
  · intro op v child hplan hv
    subst hplan
    exact removeFalse_iff op hv child

/-- A projection over a constant-true predicate over a table. -/
theorem predicateRewrite_keeps_results_true :
    let lib : StdLib := ⟨fun _ => none, fun _ => none, fun _ _ => none, fun _ => []⟩
    let std : StdSort.Sorter (List Value × ℕ) := ⟨StdSort.mergeSort id,
      fun lt l _ => StdSort.mergeSort_perm lt l, fun _ _ h => StdSort.pairwise_mergeSort .refl h⟩
    let plan : LogicalNode Tuple := .withChild (.project [.value (.ints 1)])
      (.withChild (.predicate (.value (.booleans true))) (.tableGet "t" []))
    let db : Database := fun _ => [⟨[.ok (.ints 7)], fun _ => .ok (.ints 7)⟩]
    queryResult std lib db (rewriterRun lib 1 plan) = ([[.ok (.ints 1)]], .code .recordEof) := by
  intro lib std plan db
  apply ((predicateRewrite_keeps_results std lib db plan).1 1 ?_).trans
  · rfl
  · intro m hm
    obtain rfl : m = 0 := by omega
    have hremoval : RemovalOk std lib db plan := fun s hs => settled_planEvents rfl hs
    have hbelow : RemovalOk std lib db (.tableGet "t" []) := trivial
    change RemovalsOk std lib db plan
    rw [RemovalsOk]
    refine ⟨hremoval, ?_⟩
    change RemovalsOk std lib db (.tableGet "t" [])
    rw [RemovalsOk]
    exact ⟨hbelow, trivial⟩

/-- `SELECT COUNT(*)` under a constant-false predicate has one row; without the child it has
none. -/
theorem not_keeps_results_count :
    ¬ ∀ (std : StdSort.Sorter (List Value × ℕ)) (lib : StdLib) (db : Database)
      (plan : LogicalNode Tuple),
      queryResult std lib db (predicateRewrite lib plan).1 = queryResult std lib db plan := by
  intro h
  have hsame := h ⟨StdSort.mergeSort id, fun lt l _ => StdSort.mergeSort_perm lt l,
    fun _ _ h => StdSort.pairwise_mergeSort .refl h⟩
    ⟨fun _ => none, fun _ => none, fun _ _ => none, fun _ => []⟩ (fun _ => [])
    (.withChild (.aggr [⟨"count(*)", .count, none⟩])
      (.withChild (.predicate (.value (.booleans false))) (.tableGet "t" [])))
  have hrows := congrArg (fun result => result.1.length) hsame
  exact absurd hrows (by decide)

end TDB
