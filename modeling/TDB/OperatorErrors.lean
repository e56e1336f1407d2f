import TDB.Aggregation
import TDB.Lib.CallStream

namespace TDB

open CallStream

/-! ## The loops of the operators -/

/-- What `ProjectPhysicalOperator::next` returns for a result of its child. -/
def projectBody (lib : StdLib) (expressions : List (Expression Tuple)) :
    Unit → Event → Option Event × Unit
  | (), .row first later =>
    (some (.row (projectTuple lib expressions first) (projectTuple lib expressions later)), ())
  | (), .failed f => (some (.failed f), ())

/-- The loop of `PredicatePhysicalOperator::next`. -/
def predicateBody (lib : StdLib) (expression : Expression Tuple) :
    Unit → Event → Option Event × Unit
  | (), .failed f => (some (.failed f), ())
  | (), .row first later =>
    match expression.getValue lib first with
    | .error f => (some (.failed f), ())
    | .ok value => (if value.getBoolean lib then some (.row later later) else none, ())

/-- The state of an `AggrPhysicalOperator`: its cells, `is_first_called_` and `aggr_flag`. -/
structure AggrState where
  cells : List AggrCell
  isFirstCalled : Bool
  aggrFlag : Bool

/-- The loop of `AggrPhysicalOperator::next`: return codes end it without being looked at. -/
def aggrBody (lib : StdLib) (units : List (AggrUnit Tuple)) :
    AggrState → Event → Option Event × AggrState
  | state, .row first _ =>
    match aggrFields lib first units state.cells with
    | (none, cells) => (none, ⟨cells, false, true⟩)
    | (some f, cells) => (some (.failed f), ⟨cells, state.isFirstCalled, false⟩)
  | state, .failed (.code _) =>
    if state.aggrFlag || state.isFirstCalled then
      (some (aggrRow lib units state.cells),
        ⟨state.cells.map fun cell => { cell with result := none }, false, false⟩)
    else (some (.failed (.code .recordEof)), { state with aggrFlag := false })
  | state, .failed f => (some (.failed f), { state with aggrFlag := false })

/-- What `AggrPhysicalOperator::next` returns when its child has ended. -/
def aggrFinish (lib : StdLib) (units : List (AggrUnit Tuple)) (state : AggrState) : Option Event :=
  if state.aggrFlag || state.isFirstCalled then some (aggrRow lib units state.cells) else none

/-- A loop that does something with each row and returns `RECORD_EOF` for every return code of its
child; the state counts the rows. -/
def rowLoopBody (process : ℕ → Tuple → RC) : ℕ → Event → Option Event × ℕ
  | n, .row first _ =>
    match process n first with
    | .success => (none, n + 1)
    | rc => (some (.failed (.code rc)), n + 1)
  | n, .failed (.code _) => (some (.failed (.code .recordEof)), n)
  | n, .failed f => (some (.failed f), n)

/-- The loop of `DeletePhysicalOperator::next`; `deleteRecord` is what the transaction returns for
each row. -/
def deleteBody (deleteRecord : ℕ → Tuple → RC) : ℕ → Event → Option Event × ℕ :=
  rowLoopBody deleteRecord

structure UpdatePhysicalOperator where
  fieldNames : List String
  sysFieldNum : ℕ
  nullFiledNum : ℕ
  updateUnits : List (String × Value)
  deleteRecord : ℕ → Tuple → RC
  makeRecord : List Value → Except RC (List (BitVec 8))
  insertRecord : ℕ → List (BitVec 8) → RC

namespace UpdatePhysicalOperator

/-- The loop over the columns; a cell that cannot be read ends it. -/
def updateValues (units : List (String × Value)) :
    List (String × Except Failure Value) → List Value
  | [] => []
  | (name, cell) :: columns =>
    match units.find? fun unit => unit.1 = name, cell with
    | some (_, value), _ => value :: updateValues units columns
    | none, .ok value => value :: updateValues units columns
    | none, .error _ => []

def updateRecord (update : UpdatePhysicalOperator) (n : ℕ) (tuple : Tuple) : RC :=
  let cells := tuple.cells.take (tuple.cells.length - update.nullFiledNum)
  let values := updateValues update.updateUnits
    ((update.fieldNames.zip cells).drop update.sysFieldNum)
  match update.deleteRecord n tuple with
  | .success =>
    match update.makeRecord values with
    | .ok record => update.insertRecord n record
    | .error rc => rc
  | rc => rc

end UpdatePhysicalOperator

def updateBody (update : UpdatePhysicalOperator) : ℕ → Event → Option Event × ℕ :=
  rowLoopBody update.updateRecord

/-! ## Trees of operators -/

inductive PhysicalOp where
  | node (op : NodeOp Tuple)
  | delete (deleteRecord : ℕ → Tuple → RC)
  | update (update : UpdatePhysicalOperator)

/-- What `next` returns besides `SUCCESS` and `RECORD_EOF`. -/
abbrev OperatorError := { f : Failure // f ≠ .code .recordEof }

/-- The calls of an operator's `next`, with the errors that a watched operator below has returned
for them; `last` is the tuple that `current_tuple` returns behind them. -/
structure Watched where
  stream : CallSeq Event OperatorError
  last : Option Tuple := none

def Watched.events (w : Watched) : EventStream := ⟨w.stream.results, w.last⟩

def Event.errors : Event → List OperatorError
  | .row .. => []
  | .failed f => if h : f = .code .recordEof then [] else [⟨f, h⟩]

def OperatorError.event (e : OperatorError) : Event := .failed e.1

def watch (child : EventStream) : Watched where
  stream := ⟨child.events.map fun event => ⟨event, event.errors⟩, []⟩
  last := child.last

def sortMet (ending : List OperatorError) :
    List (Call Event OperatorError) → List OperatorError
  | [] => ending
  | call :: calls =>
    match call.result with
    | .row .. => call.met ++ sortMet ending calls
    | .failed _ => call.met

section

variable (std : StdSort.Sorter (List Value × ℕ)) (lib : StdLib)

/-- `OrderPhysicalOperator`: the sort takes place in the first call, and every row comes from it. -/
def orderStream (orderUnits : List (OrderByUnit Tuple)) (child : Watched) :
    CallSeq Event OperatorError :=
  let met := sortMet child.stream.ending child.stream.calls
  match orderEvents std lib orderUnits child.events with
  | [] => ⟨[], met⟩
  | events => ⟨events.map fun event => ⟨event, met⟩, []⟩

def PhysicalOp.stream (child : Watched) : PhysicalOp → CallSeq Event OperatorError
  | .node (.project expressions) =>
    loop (projectBody lib expressions) (fun _ => none) () child.stream
  | .node (.predicate expression) =>
    loop (predicateBody lib expression) (fun _ => none) () child.stream
  | .node (.order orderUnits) => orderStream std lib orderUnits child
  | .node (.aggr units) =>
    loop (aggrBody lib units) (aggrFinish lib units) ⟨units.map fun _ => {}, true, false⟩
      child.stream
  | .delete deleteRecord => loop (deleteBody deleteRecord) (fun _ => none) 0 child.stream
  | .update oper => loop (updateBody oper) (fun _ => none) 0 child.stream

/-- `current_tuple` of `delete` and `update` returns nothing. -/
def PhysicalOp.last (child : Watched) : PhysicalOp → Option Tuple
  | .node op => (opEvents std lib op child.events).last
  | .delete _ | .update _ => none

def treeCalls (child : EventStream) : List PhysicalOp → Watched
  | [] => watch child
  | op :: ops =>
    let below := treeCalls child ops
    ⟨op.stream std lib below, op.last std lib below⟩

end

/-! ## The results of the calls -/

section

variable (std : StdSort.Sorter (List Value × ℕ)) (lib : StdLib)

theorem loopResults_projectBody (expressions : List (Expression Tuple)) (events : List Event) :
    loopResults (projectBody lib expressions) (fun _ => none) () events =
      projectEvents lib expressions events := by
  induction events with
  | nil => rfl
  | cons event events ih =>
    cases event <;> exact congrArg (List.cons _) ih

theorem loopResults_predicateBody (expression : Expression Tuple) (events : List Event) :
    loopResults (predicateBody lib expression) (fun _ => none) () events =
      predicateEvents lib expression events := by
  induction events with
  | nil => rfl
  | cons event events ih =>
    cases event with
    | failed f => exact congrArg (List.cons _) ih
    | row first later =>
      rw [loopResults, predicateEvents, predicateBody]
      cases hvalue : expression.getValue lib first with
      | error f => exact congrArg (List.cons _) ih
      | ok value =>
        dsimp only
        cases value.getBoolean lib with
        | true => exact congrArg (List.cons _) ih
        | false => exact ih

theorem loopResults_aggrBody (units : List (AggrUnit Tuple)) (state : AggrState)
    (events : List Event) :
    loopResults (aggrBody lib units) (aggrFinish lib units) state events =
      aggrEvents lib units state.cells state.isFirstCalled state.aggrFlag events := by
  induction events generalizing state with
  | nil =>
    rw [loopResults, aggrEvents, aggrFinish]
    split <;> rfl
  | cons event events ih =>
    cases event with
    | row first later =>
      rw [loopResults, aggrEvents, aggrBody]
      cases aggrFields lib first units state.cells with
      | mk failure cells =>
        cases failure with
        | none => exact ih _
        | some f => exact congrArg (List.cons _) (ih _)
    | failed f =>
      cases f with
      | code rc =>
        rw [loopResults, aggrEvents, aggrBody]
        cases state.aggrFlag || state.isFirstCalled with
        | true => exact congrArg (List.cons _) (ih _)
        | false => exact congrArg (List.cons _) (ih _)
      | exception | crash => exact congrArg (List.cons _) (ih _)

theorem orderStream_results (orderUnits : List (OrderByUnit Tuple)) (child : Watched) :
    (orderStream std lib orderUnits child).results =
      orderEvents std lib orderUnits child.events := by
  rw [orderStream]
  split
  · next h => rw [h]; rfl
  · simp [CallSeq.results, Function.comp_def]

/-- A tree of nodes of the plan gives the results of the plan. -/
theorem events_treeCalls (child : EventStream) (ops : List (NodeOp Tuple)) :
    (treeCalls std lib child (ops.map .node)).events =
      ops.foldr (opEvents std lib) child := by
  induction ops with
  | nil => simp [treeCalls, watch, Watched.events, CallSeq.results, Function.comp_def]
  | cons op ops ih =>
    have hresults : (PhysicalOp.stream std lib (treeCalls std lib child (ops.map .node))
        (.node op)).results =
          (opEvents std lib op (ops.foldr (opEvents std lib) child)).events := by
      rw [← ih]
      cases op with
      | project expressions =>
        exact (loop_results _ _ _ _).trans (loopResults_projectBody lib expressions _)
      | predicate expression =>
        exact (loop_results _ _ _ _).trans (loopResults_predicateBody lib expression _)
      | order orderUnits => exact orderStream_results std lib orderUnits _
      | aggr units =>
        exact (loop_results _ _ _ _).trans (loopResults_aggrBody lib units _ _)
    have hlast : PhysicalOp.last std lib (treeCalls std lib child (ops.map .node)) (.node op) =
        (opEvents std lib op (ops.foldr (opEvents std lib) child)).last := by
      rw [← ih]
      rfl
    rw [List.map_cons, treeCalls, Watched.events, List.foldr_cons, hresults, hlast]

end

/-! ## Which operators report -/

/-- The operators that do not look at the return code which ends their loop. -/
def PhysicalOp.Swallows : PhysicalOp → Prop
  | .node (.aggr _) | .delete _ | .update _ => True
  | .node (.project _) | .node (.predicate _) | .node (.order _) => False

/-- Every call of `next` during which the watched operator has returned an error returns it, no row
rests on such an error, and none is met at the end. -/
def Watched.Reports (w : Watched) : Prop := w.stream.Reports OperatorError.event

theorem reports_watch (child : EventStream) : (watch child).Reports := by
  refine ⟨?_, rfl⟩
  intro call hcall e he
  obtain ⟨event, -, rfl⟩ := List.mem_map.1 hcall
  cases event with
  | row first later => cases he
  | failed f =>
    dsimp only [Event.errors] at he
    split at he
    · cases he
    · rw [List.mem_singleton.1 he, OperatorError.event]

section

variable (std : StdSort.Sorter (List Value × ℕ)) (lib : StdLib)

/-- The error that ends the sort is the only one it has met. -/
theorem sortMet_of_reports {calls : List (Call Event OperatorError)}
    (hcalls : ∀ call ∈ calls, ∀ e ∈ call.met, call.result = OperatorError.event e) :
    ∀ e ∈ sortMet [] calls, (drainEvents (calls.map Call.result)).ending = e.1 := by
  induction calls with
  | nil => nofun
  | cons call calls ih =>
    intro e he
    have hcall := hcalls call List.mem_cons_self
    rw [sortMet] at he
    rw [List.map_cons]
    cases hresult : call.result with
    | row first later =>
      rw [hresult] at he hcall
      rcases List.mem_append.1 he with he | he
      · cases hcall e he
      · exact ih (fun call' h => hcalls call' (List.mem_cons_of_mem call h)) e he
    | failed f =>
      rw [hresult] at he hcall
      exact Event.failed.inj (hcall e he)

theorem reports_orderStream (orderUnits : List (OrderByUnit Tuple)) {child : Watched}
    (hchild : child.Reports) :
    (orderStream std lib orderUnits child).Reports OperatorError.event := by
  have hmet : ∀ e ∈ sortMet [] child.stream.calls,
      (drainEvents child.events.events).ending = e.1 := sortMet_of_reports hchild.calls
  rw [orderStream, hchild.ending, orderEvents]
  by_cases hending : (drainEvents child.events.events).ending = .code .recordEof
  · -- the sort has reached the end, so it has met nothing
    have hnil : sortMet [] child.stream.calls = [] := by
      apply List.eq_nil_iff_forall_not_mem.2
      intro e he
      exact e.2 ((hmet e he).symm.trans hending)
    rw [hnil]
    split
    · exact ⟨nofun, rfl⟩
    · refine ⟨?_, rfl⟩
      intro call hcall e he
      obtain ⟨event, -, rfl⟩ := List.mem_map.1 hcall
      cases he
  · simp only [ne_eq, hending, not_false_eq_true, if_true]
    refine ⟨?_, rfl⟩
    intro call hcall e he
    rw [List.map_singleton, List.mem_singleton] at hcall
    rw [hcall] at he ⊢
    exact congrArg Event.failed (hmet e he)

theorem reports_stream {op : PhysicalOp} (hop : ¬ op.Swallows) {child : Watched}
    (hchild : child.Reports) : (op.stream std lib child).Reports OperatorError.event := by
  match op with
  | .node (.project expressions) => exact reports_loop _ (fun _ _ => rfl) () hchild
  | .node (.predicate expression) => exact reports_loop _ (fun _ _ => rfl) () hchild
  | .node (.order orderUnits) => exact reports_orderStream std lib orderUnits hchild
  | .node (.aggr _) | .delete _ | .update _ => exact absurd trivial hop

/-- A tree without these operators above the watched one reports its errors. -/
theorem reports_treeCalls {ops : List PhysicalOp} (hops : ∀ op ∈ ops, ¬ op.Swallows)
    (child : EventStream) : (treeCalls std lib child ops).Reports := by
  induction ops with
  | nil => exact reports_watch child
  | cons op ops ih =>
    have hbelow := ih fun op' h => hops op' (List.mem_cons_of_mem op h)
    exact reports_stream std lib (hops op List.mem_cons_self) hbelow

/-! ### The operators that do not report -/

def Watched.relabel (f : OperatorError → OperatorError) (w : Watched) : Watched :=
  { w with stream := w.stream.relabel f }

theorem sortMet_map (f : OperatorError → OperatorError) (ending : List OperatorError)
    (calls : List (Call Event OperatorError)) :
    sortMet (ending.map f) (calls.map fun call => ⟨call.result, call.met.map f⟩) =
      (sortMet ending calls).map f := by
  induction calls with
  | nil => rfl
  | cons call calls ih =>
    rw [List.map_cons, sortMet, sortMet, ih]
    cases call.result with
    | row first later => exact (List.map_append ..).symm
    | failed g => rfl

theorem mem_sortMet_of_headMet {e : OperatorError} {s : CallSeq Event OperatorError}
    (h : s.HeadMet e) : e ∈ sortMet s.ending s.calls := by
  rw [CallSeq.HeadMet] at h
  split at h
  · next hcalls => rwa [hcalls, sortMet]
  · next call calls hcalls =>
    rw [hcalls, sortMet]
    split
    · exact List.mem_append_left _ h
    · exact h

theorem stream_relabel (f : OperatorError → OperatorError) (child : Watched) (op : PhysicalOp) :
    op.stream std lib (child.relabel f) = (op.stream std lib child).relabel f := by
  cases op with
  | node op =>
    cases op with
    | project expressions => exact (loop_relabel _ _ f () child.stream).symm
    | predicate expression => exact (loop_relabel _ _ f () child.stream).symm
    | aggr units => exact (loop_relabel _ _ f _ child.stream).symm
    | order orderUnits =>
      have hevents : (child.relabel f).events = child.events := by
        rw [Watched.events, Watched.relabel, CallSeq.results_relabel]
        rfl
      change orderStream std lib orderUnits _ = (orderStream std lib orderUnits child).relabel f
      rw [orderStream, orderStream, hevents, Watched.relabel]
      have hmet := sortMet_map f child.stream.ending child.stream.calls
      change sortMet (child.stream.relabel f).ending (child.stream.relabel f).calls = _ at hmet
      rw [hmet]
      split <;> simp [CallSeq.relabel, Function.comp_def]
  | delete deleteRecord => exact (loop_relabel _ _ f 0 child.stream).symm
  | update oper => exact (loop_relabel _ _ f 0 child.stream).symm

theorem last_relabel (f : OperatorError → OperatorError) (child : Watched) (op : PhysicalOp) :
    op.last std lib (child.relabel f) = op.last std lib child := by
  have hevents : (child.relabel f).events = child.events := by
    rw [Watched.events, Watched.relabel, CallSeq.results_relabel]
    rfl
  cases op with
  | node op => rw [PhysicalOp.last, PhysicalOp.last, hevents]
  | delete _ | update _ => rfl

theorem headMet_stream {e : OperatorError} {child : Watched} (h : child.stream.HeadMet e)
    (op : PhysicalOp) : (op.stream std lib child).HeadMet e := by
  cases op with
  | node op =>
    cases op with
    | project expressions => exact headMet_loop _ _ () h
    | predicate expression => exact headMet_loop _ _ () h
    | aggr units => exact headMet_loop _ _ _ h
    | order orderUnits =>
      have hmet := mem_sortMet_of_headMet h
      change (orderStream std lib orderUnits child).HeadMet e
      rw [orderStream]
      cases orderEvents std lib orderUnits child.events <;> exact hmet
  | delete deleteRecord => exact headMet_loop _ _ 0 h
  | update oper => exact headMet_loop _ _ 0 h

def failing (e : OperatorError) : EventStream := ⟨[e.event], none⟩

theorem stream_treeCalls_failing {ops : List PhysicalOp} (hops : ∀ op ∈ ops, ¬ op.Swallows)
    (e : OperatorError) :
    treeCalls std lib (failing e) ops = ⟨⟨[⟨e.event, [e]⟩], []⟩, none⟩ := by
  induction ops with
  | nil => simp [treeCalls, watch, failing, OperatorError.event, Event.errors, e.2]
  | cons op ops ih =>
    rw [treeCalls, ih fun op' h => hops op' (List.mem_cons_of_mem op h)]
    match op, hops op List.mem_cons_self with
    | .node (.project expressions), _ => rfl
    | .node (.predicate expression), _ => rfl
    | .node (.order orderUnits), _ =>
      simp [PhysicalOp.stream, PhysicalOp.last, opEvents, orderStream, orderEvents, drainEvents,
        Watched.events, CallSeq.results, OperatorError.event, sortMet, e.2]
    | .node (.aggr _), hop | .delete _, hop | .update _, hop => exact absurd trivial hop

theorem treeCall_of_swallows {op : PhysicalOp} (hop : op.Swallows) {rc rc' : RC}
    (hrc : Failure.code rc ≠ .code .recordEof) (hrc' : Failure.code rc' ≠ .code .recordEof) :
    let child (e : OperatorError) : Watched := ⟨⟨[⟨e.event, [e]⟩], []⟩, none⟩
    let above (e : OperatorError) : Watched :=
      ⟨op.stream std lib (child e), op.last std lib (child e)⟩
    above ⟨.code rc', hrc'⟩ = (above ⟨.code rc, hrc⟩).relabel fun _ => ⟨.code rc', hrc'⟩ :=
  match op, hop with
  | .node (.aggr _), _ => rfl
  | .delete _, _ => rfl
  | .update _, _ => rfl

/-- Above an operator that swallows nothing depends on the return code of a child that fails at
once. -/
theorem treeCalls_failing {ops : List PhysicalOp} (hops : ∃ op ∈ ops, op.Swallows) {rc rc' : RC}
    (hrc : Failure.code rc ≠ .code .recordEof) (hrc' : Failure.code rc' ≠ .code .recordEof) :
    (treeCalls std lib (failing ⟨.code rc, hrc⟩) ops).stream.HeadMet ⟨.code rc, hrc⟩ ∧
      treeCalls std lib (failing ⟨.code rc', hrc'⟩) ops =
        (treeCalls std lib (failing ⟨.code rc, hrc⟩) ops).relabel fun _ => ⟨.code rc', hrc'⟩ := by
  induction ops with
  | nil =>
    obtain ⟨op, hmem, -⟩ := hops
    cases hmem
  | cons op ops ih =>
    by_cases hbelow : ∃ op ∈ ops, op.Swallows
    · obtain ⟨hhead, hrelabel⟩ := ih hbelow
      refine ⟨headMet_stream std lib hhead op, ?_⟩
      rw [treeCalls, hrelabel, stream_relabel, last_relabel]
      rfl
    · have hpass : ∀ op ∈ ops, ¬ op.Swallows := fun op hmem hop => hbelow ⟨op, hmem, hop⟩
      -- this operator is the lowest one that swallows, so the error arrives as it was
      have hop : op.Swallows := by
        obtain ⟨op', hmem, hop'⟩ := hops
        rcases List.mem_cons.1 hmem with rfl | hmem
        · exact hop'
        · exact absurd hop' (hpass op' hmem)
      rw [treeCalls, treeCalls, stream_treeCalls_failing std lib hpass,
        stream_treeCalls_failing std lib hpass]
      refine ⟨headMet_stream std lib ?_ op, treeCall_of_swallows std lib hop hrc hrc'⟩
      exact List.mem_cons_self

/-- A tree of operators reports every error of every child below it if and only if no aggregate,
delete or update stands above the child. -/
theorem errors_reported_iff (ops : List PhysicalOp) :
    (∀ child, (treeCalls std lib child ops).Reports) ↔ ∀ op ∈ ops, ¬ op.Swallows := by
  constructor
  · intro h op hmem hop
    have hrc : Failure.code .ioerrRead ≠ .code .recordEof := by decide
    have hrc' : Failure.code .internal ≠ .code .recordEof := by decide
    -- two errors that the tree cannot tell apart: it does not report both of them
    obtain ⟨hhead, hrelabel⟩ := treeCalls_failing std lib ⟨op, hmem, hop⟩ hrc hrc'
    have hother := h (failing ⟨.code .internal, hrc'⟩)
    rw [hrelabel] at hother
    exact CallSeq.not_reports_relabel hhead (h _) (by simp [OperatorError.event]) hother
  · exact fun hops child => reports_treeCalls std lib hops child

end

/-- `SELECT COUNT(*) FROM t` when the scan gives one row and then fails to read: the count of that
one row is returned, and then `RECORD_EOF`. -/
theorem countStar_swallows :
    let lib : StdLib := ⟨fun _ => none, fun _ => none, fun _ _ => none, fun _ => []⟩
    let scan : EventStream :=
      ⟨[.row (constantRow .nulls) (constantRow .nulls), .failed (.code .ioerrRead)], none⟩
    let root := treeCalls StdSort.mergeSorter lib scan [.node (.aggr [countStar])]
    root.stream.results =
        [.row (aggrTuple [countStar] [.ints 1]) (aggrTuple [countStar] [.ints 1])] ∧
      root.stream.calls.map (fun call => call.met.map Subtype.val) = [[.code .ioerrRead]] ∧
      ¬ root.Reports := by
  intro lib scan root
  have hresults : root.stream.results =
      [.row (aggrTuple [countStar] [.ints 1]) (aggrTuple [countStar] [.ints 1])] := rfl
  refine ⟨hresults, rfl, ?_⟩
  intro hreports
  have hcall := hreports.calls _ List.mem_cons_self ⟨.code .ioerrRead, by decide⟩
    List.mem_cons_self
  cases hcall

end TDB
