import TDB.QueryRun

namespace TDB

/-! ## The rows of a scan -/

/-- The next record that passes: the return code, the record that was read last, and the records
that are left. -/
def nextPassing (passes : Tuple → Except Failure Bool) :
    Tuple → List Tuple → Option Failure × Tuple × List Tuple
  | last, [] => (some (.code .recordEof), last, [])
  | _, record :: records =>
    match passes record with
    | .error f => (some f, record, records)
    | .ok true => (none, record, records)
    | .ok false => nextPassing passes record records

def scannedRows (passes : Tuple → Except Failure Bool) : List Tuple → Responses Tuple
  | [] => { rows := [] }
  | record :: records =>
    match passes record with
    | .error f => { rows := [], ending := f }
    | .ok true =>
      let rest := scannedRows passes records
      { rest with rows := record :: rest.rows }
    | .ok false => scannedRows passes records

/-- The record that a scan has read last when it ends; `last` is the one it had before. -/
def lastScanned (passes : Tuple → Except Failure Bool) : Tuple → List Tuple → Tuple
  | last, [] => last
  | _, record :: records =>
    match passes record with
    | .error _ => record
    | .ok _ => lastScanned passes record records

/-! ## The operators of an ordered scan -/

def unreadable : Tuple := ⟨[], fun _ => .error .crash⟩

inductive RecordPtr where
  | null
  | currentRecord
  | sorted (record : Tuple)

structure RowTuple where
  record : RecordPtr := .null
  orderSet : Bool := false

/-- `TableScanPhysicalOperator`; `recordScanner` is what its scanner still has to give. -/
structure TableScanPhysicalOperator where
  predicates : List (Expression Tuple)
  recordScanner : List Tuple
  currentRecord : Tuple := unreadable
  tuple : RowTuple := {}

namespace TableScanPhysicalOperator

def shown (scan : TableScanPhysicalOperator) : Tuple :=
  match scan.tuple.record with
  | .null => unreadable
  | .currentRecord => scan.currentRecord
  | .sorted record => record

def setRecord (record : Tuple) (scan : TableScanPhysicalOperator) : TableScanPhysicalOperator :=
  { scan with tuple := ⟨.sorted record, true⟩ }

/-- `current_tuple`. -/
def currentTuple (scan : TableScanPhysicalOperator) : TableScanPhysicalOperator :=
  if scan.tuple.orderSet then { scan with tuple := { scan.tuple with orderSet := false } }
  else { scan with tuple := { scan.tuple with record := .currentRecord } }

def nextLoop (lib : StdLib) :
    List Tuple → TableScanPhysicalOperator → Option Failure × TableScanPhysicalOperator
  | [], scan => (some (.code .recordEof), { scan with recordScanner := [] })
  | record :: records, scan =>
    let scan := { scan with
      recordScanner := records, currentRecord := record
      tuple := { scan.tuple with record := .currentRecord } }
    match tableScanFilter lib scan.shown scan.predicates with
    | .error f => (some f, scan)
    | .ok true => (none, scan)
    | .ok false => nextLoop lib records scan

/-- `next`; the return code is `none` for `SUCCESS`. -/
def next (lib : StdLib) (scan : TableScanPhysicalOperator) :
    Option Failure × TableScanPhysicalOperator :=
  nextLoop lib scan.recordScanner scan

theorem length_nextLoop {lib : StdLib} {records : List Tuple} {scan : TableScanPhysicalOperator}
    (h : (nextLoop lib records scan).1 = none) :
    (nextLoop lib records scan).2.recordScanner.length < records.length := by
  induction records generalizing scan with
  | nil => cases h
  | cons record records ih =>
    rw [nextLoop] at h ⊢
    dsimp only at h ⊢
    generalize tableScanFilter lib _ scan.predicates = filter at h ⊢
    match filter with
    | .error f => cases h
    | .ok true => exact Nat.lt_succ_self records.length
    | .ok false => exact Nat.lt_succ_of_lt (ih h)

theorem length_next {lib : StdLib} {scan : TableScanPhysicalOperator}
    (h : (scan.next lib).1 = none) :
    (scan.next lib).2.recordScanner.length < scan.recordScanner.length :=
  length_nextLoop h

@[simp] theorem recordScanner_currentTuple (scan : TableScanPhysicalOperator) :
    scan.currentTuple.recordScanner = scan.recordScanner := by
  rw [currentTuple]
  split <;> rfl

@[simp] theorem currentRecord_currentTuple (scan : TableScanPhysicalOperator) :
    scan.currentTuple.currentRecord = scan.currentRecord := by
  rw [currentTuple]
  split <;> rfl

@[simp] theorem predicates_currentTuple (scan : TableScanPhysicalOperator) :
    scan.currentTuple.predicates = scan.predicates := by
  rw [currentTuple]
  split <;> rfl

end TableScanPhysicalOperator

/-- `PredicatePhysicalOperator::next` over the scan. -/
def predicateNext (lib : StdLib) (expression : Expression Tuple)
    (scan : TableScanPhysicalOperator) : Option Failure × TableScanPhysicalOperator :=
  if _h : (scan.next lib).1 = none then
    let child := (scan.next lib).2.currentTuple
    match expression.getValue lib child.shown with
    | .error f => (some f, child)
    | .ok value =>
      if value.getBoolean lib then (none, child) else predicateNext lib expression child
  else scan.next lib
termination_by scan.recordScanner.length
decreasing_by
  simpa using TableScanPhysicalOperator.length_next _h

/-- The `next` of the operator below the sort: the scan, or a predicate over it. -/
def childNext (lib : StdLib) : Option (Expression Tuple) → TableScanPhysicalOperator →
    Option Failure × TableScanPhysicalOperator
  | none, scan => scan.next lib
  | some expression, scan => predicateNext lib expression scan

def tupleValues : List (OrderByUnit Tuple) → TableScanPhysicalOperator →
    List Value × TableScanPhysicalOperator
  | [], scan => ([], scan)
  | unit :: units, scan =>
    let scan := scan.currentTuple
    let (values, scan') := tupleValues units scan
    (unit.getValue scan.shown :: values, scan')

theorem recordScanner_tupleValues (units : List (OrderByUnit Tuple))
    (scan : TableScanPhysicalOperator) :
    (tupleValues units scan).2.recordScanner = scan.recordScanner := by
  induction units generalizing scan with
  | nil => rfl
  | cons unit units ih => exact (ih _).trans scan.recordScanner_currentTuple

structure Fetches (passes : Tuple → Except Failure Bool) (scan : TableScanPhysicalOperator)
    (result : Option Failure × TableScanPhysicalOperator) : Prop where
  position : (result.1, result.2.currentRecord, result.2.recordScanner) =
    nextPassing passes scan.currentRecord scan.recordScanner
  predicates : result.2.predicates = scan.predicates
  record : result.1 = none → result.2.tuple.record = .currentRecord
  orderSet : scan.tuple.orderSet = false → result.2.tuple.orderSet = false

theorem fetches_nextLoop (lib : StdLib) {predicates : List (Expression Tuple)}
    (records : List Tuple) {scan : TableScanPhysicalOperator}
    (hpredicates : scan.predicates = predicates) :
    Fetches (fun tuple => tableScanFilter lib tuple predicates)
      { scan with recordScanner := records }
      (TableScanPhysicalOperator.nextLoop lib records scan) := by
  induction records generalizing scan with
  | nil => exact ⟨rfl, rfl, nofun, fun h => h⟩
  | cons record records ih =>
    let scan' : TableScanPhysicalOperator := { scan with
      recordScanner := records, currentRecord := record
      tuple := { scan.tuple with record := .currentRecord } }
    have hstep : nextPassing (fun tuple => tableScanFilter lib tuple predicates)
        scan.currentRecord (record :: records) =
          match tableScanFilter lib record predicates with
          | .error f => (some f, record, records)
          | .ok true => (none, record, records)
          | .ok false =>
            nextPassing (fun tuple => tableScanFilter lib tuple predicates) record records := rfl
    have hloop : TableScanPhysicalOperator.nextLoop lib (record :: records) scan =
        match tableScanFilter lib record predicates with
        | .error f => (some f, scan')
        | .ok true => (none, scan')
        | .ok false => TableScanPhysicalOperator.nextLoop lib records scan' := by
      rw [← hpredicates]
      rfl
    rw [hloop]
    match hfilter : tableScanFilter lib record predicates with
    | .error f =>
      rw [hfilter] at hstep
      exact ⟨hstep.symm, rfl, nofun, fun h => h⟩
    | .ok true =>
      rw [hfilter] at hstep
      exact ⟨hstep.symm, rfl, fun _ => rfl, fun h => h⟩
    | .ok false =>
      rw [hfilter] at hstep
      have hrest : Fetches _ scan' _ := @ih scan' hpredicates
      exact ⟨hrest.position.trans hstep.symm, hrest.predicates, hrest.record, hrest.orderSet⟩

theorem fetches_next (lib : StdLib) (scan : TableScanPhysicalOperator) :
    Fetches (fun tuple => tableScanFilter lib tuple scan.predicates) scan (scan.next lib) :=
  fetches_nextLoop lib scan.recordScanner rfl

def passesBelow (lib : StdLib) (predicates : List (Expression Tuple)) :
    Option (Expression Tuple) → Tuple → Except Failure Bool
  | none, tuple => tableScanFilter lib tuple predicates
  | some expression, tuple => rowPasses lib tuple predicates expression

def predicateOn (lib : StdLib) (predicates : List (Expression Tuple))
    (expression : Expression Tuple) :
    Option Failure × Tuple × List Tuple → Option Failure × Tuple × List Tuple
  | (some f, record, rest) => (some f, record, rest)
  | (none, record, rest) =>
    match expression.getValue lib record with
    | .error f => (some f, record, rest)
    | .ok value =>
      if value.getBoolean lib then (none, record, rest)
      else nextPassing (passesBelow lib predicates (some expression)) record rest

theorem nextPassing_rowPasses (lib : StdLib) (predicates : List (Expression Tuple))
    (expression : Expression Tuple) (last : Tuple) (records : List Tuple) :
    nextPassing (passesBelow lib predicates (some expression)) last records =
      predicateOn lib predicates expression
        (nextPassing (passesBelow lib predicates none) last records) := by
  induction records generalizing last with
  | nil => rfl
  | cons record records ih =>
    rw [nextPassing, nextPassing]
    simp only [passesBelow, rowPasses] at ih ⊢
    cases tableScanFilter lib record predicates with
    | error f => rfl
    | ok passed =>
      cases passed with
      | false => exact ih record
      | true =>
        cases hvalue : expression.getValue lib record with
        | error f => simp [predicateOn, hvalue, bind, Except.bind]
        | ok value =>
          cases hbool : value.getBoolean lib <;>
            simp [predicateOn, hvalue, hbool, bind, Except.bind, pure, Except.pure]

theorem length_nextPassing {passes : Tuple → Except Failure Bool} {last : Tuple}
    {records : List Tuple} (h : (nextPassing passes last records).1 = none) :
    (nextPassing passes last records).2.2.length < records.length := by
  induction records generalizing last with
  | nil => cases h
  | cons record records ih =>
    rw [nextPassing] at h ⊢
    match hpasses : passes record with
    | .error f =>
      rw [hpasses] at h
      cases h
    | .ok true => exact Nat.lt_succ_self records.length
    | .ok false =>
      rw [hpasses] at h
      exact Nat.lt_succ_of_lt (ih h)

theorem TableScanPhysicalOperator.orderSet_currentTuple (scan : TableScanPhysicalOperator)
    (h : scan.tuple.orderSet = false) : scan.currentTuple.tuple.orderSet = false := by
  rw [currentTuple, h]
  exact h

/-- Behind a successful `next` the tuple shows the record that was just read. -/
theorem TableScanPhysicalOperator.record_currentTuple {scan : TableScanPhysicalOperator}
    (h : scan.tuple.record = .currentRecord) :
    scan.currentTuple.tuple.record = .currentRecord := by
  rw [currentTuple]
  split
  · exact h
  · rfl

theorem TableScanPhysicalOperator.shown_of_record {scan : TableScanPhysicalOperator}
    (h : scan.tuple.record = .currentRecord) : scan.shown = scan.currentRecord := by
  rw [shown, h]

theorem fetches_predicateNext (lib : StdLib) (expression : Expression Tuple)
    (scan : TableScanPhysicalOperator) :
    Fetches (passesBelow lib scan.predicates (some expression)) scan
      (predicateNext lib expression scan) := by
  induction hlength : scan.recordScanner.length using Nat.strong_induction_on generalizing scan
  next n ih =>
  -- every turn of the loop uses up a record of the scanner
  have hscan := fetches_next lib scan
  have hpred := nextPassing_rowPasses lib scan.predicates expression scan.currentRecord
    scan.recordScanner
  have hposition := hscan.position
  change _ = nextPassing (passesBelow lib scan.predicates none) _ _ at hposition
  rw [← hposition] at hpred
  rw [predicateNext]
  cases hrc : (scan.next lib).1 with
  | some f =>
    rw [dif_neg (by simp)]
    rw [hrc] at hpred
    refine ⟨?_, hscan.predicates, fun h => absurd h (by simp [hrc]), hscan.orderSet⟩
    rw [hpred, hrc]
    rfl
  | none =>
    rw [dif_pos rfl]
    rw [hrc] at hpred
    set child := (scan.next lib).2.currentTuple with hchild
    have hrecord : child.tuple.record = .currentRecord :=
      TableScanPhysicalOperator.record_currentTuple (hscan.record hrc)
    have hshown : child.shown = (scan.next lib).2.currentRecord := by
      rw [TableScanPhysicalOperator.shown_of_record hrecord, hchild]
      simp
    have hpredicates : child.predicates = scan.predicates := by
      rw [hchild, TableScanPhysicalOperator.predicates_currentTuple, hscan.predicates]
    have hset : scan.tuple.orderSet = false → child.tuple.orderSet = false := fun h =>
      TableScanPhysicalOperator.orderSet_currentTuple _ (hscan.orderSet h)
    have hchildRecord : child.currentRecord = (scan.next lib).2.currentRecord := by simp [hchild]
    have hchildRest : child.recordScanner = (scan.next lib).2.recordScanner := by simp [hchild]
    dsimp only [predicateOn] at hpred ⊢
    rw [hshown, ← hchildRecord]
    rw [← hchildRecord, ← hchildRest] at hpred
    cases hvalue : expression.getValue lib child.currentRecord with
    | error f =>
      simp only [hvalue] at hpred ⊢
      exact ⟨hpred.symm, hpredicates, nofun, hset⟩
    | ok value =>
      simp only [hvalue] at hpred ⊢
      cases htrue : value.getBoolean lib with
      | true =>
        rw [htrue, if_pos rfl] at hpred
        rw [if_pos rfl]
        exact ⟨hpred.symm, hpredicates, fun _ => hrecord, hset⟩
      | false =>
        rw [htrue, if_neg Bool.false_ne_true] at hpred
        rw [if_neg Bool.false_ne_true]
        -- the record does not pass, and the loop goes on behind it
        have hlt : child.recordScanner.length < n := by
          rw [hchildRest, ← hlength]
          exact TableScanPhysicalOperator.length_next hrc
        have hrest := ih _ hlt child rfl
        rw [hpredicates] at hrest
        exact ⟨hrest.position.trans hpred.symm, hrest.predicates.trans hpredicates,
          hrest.record, fun h => hrest.orderSet (hset h)⟩

theorem fetches_childNext (lib : StdLib) (predicate : Option (Expression Tuple))
    (scan : TableScanPhysicalOperator) :
    Fetches (passesBelow lib scan.predicates predicate) scan (childNext lib predicate scan) := by
  cases predicate with
  | none => exact fetches_next lib scan
  | some expression => exact fetches_predicateNext lib expression scan

theorem length_childNext {lib : StdLib} {predicate : Option (Expression Tuple)}
    {scan : TableScanPhysicalOperator} (h : (childNext lib predicate scan).1 = none) :
    (childNext lib predicate scan).2.recordScanner.length < scan.recordScanner.length := by
  have hposition := (fetches_childNext lib predicate scan).position
  have hrest := congrArg (fun position => position.2.2) hposition
  have hrc := congrArg Prod.fst hposition
  dsimp only at hrest hrc
  rw [hrest]
  exact length_nextPassing (hrc.symm.trans h)

theorem TableScanPhysicalOperator.currentTuple_eq_self {scan : TableScanPhysicalOperator}
    (hrecord : scan.tuple.record = .currentRecord) (hset : scan.tuple.orderSet = false) :
    scan.currentTuple = scan := by
  obtain ⟨predicates, records, current, ⟨record, orderSet⟩⟩ := scan
  dsimp only at hrecord hset
  rw [hrecord, hset]
  rfl

/-- Before the sort every call of `current_tuple` shows the record that was just read. -/
theorem tupleValues_eq (units : List (OrderByUnit Tuple)) {scan : TableScanPhysicalOperator}
    (hrecord : scan.tuple.record = .currentRecord) (hset : scan.tuple.orderSet = false) :
    tupleValues units scan = (keyCells units scan.currentRecord, scan) := by
  induction units with
  | nil => rfl
  | cons unit units ih =>
    -- `order_set_` is not set yet, so the calls change nothing
    have hself := TableScanPhysicalOperator.currentTuple_eq_self hrecord hset
    rw [tupleValues, hself]
    simp only [ih, TableScanPhysicalOperator.shown_of_record hrecord]
    rfl

/-- The loop of `sort_table`: the way it ends, the table with the order keys, and `st_`. -/
def fetchTable (lib : StdLib) (predicate : Option (Expression Tuple))
    (units : List (OrderByUnit Tuple)) (index : ℕ) (scan : TableScanPhysicalOperator) :
    Failure × TableScanPhysicalOperator × List (List Value × ℕ) × List Tuple :=
  match _h : (childNext lib predicate scan).1 with
  | some f => (f, (childNext lib predicate scan).2, [], [])
  | none =>
    let keys := tupleValues units (childNext lib predicate scan).2
    let child := keys.2.currentTuple
    let (f, last, table, st) := fetchTable lib predicate units (index + 1) child
    (f, last, (keys.1, index) :: table, child.shown :: st)
termination_by scan.recordScanner.length
decreasing_by
  simpa [recordScanner_tupleValues] using length_childNext _h

section

variable {passes : Tuple → Except Failure Bool} {last : Tuple} {records : List Tuple}

theorem scannedRows_of_failed {f : Failure} (h : (nextPassing passes last records).1 = some f) :
    scannedRows passes records = { rows := [], ending := f } ∧
      lastScanned passes last records = (nextPassing passes last records).2.1 := by
  induction records generalizing last with
  | nil =>
    cases h
    exact ⟨rfl, rfl⟩
  | cons record records ih =>
    rw [nextPassing] at h ⊢
    rw [scannedRows, lastScanned]
    cases hpasses : passes record with
    | error g =>
      rw [hpasses] at h
      cases h
      exact ⟨rfl, rfl⟩
    | ok passed =>
      rw [hpasses] at h
      cases passed with
      | true => cases h
      | false => exact ih h

theorem scannedRows_of_next (h : (nextPassing passes last records).1 = none) :
    scannedRows passes records =
        { scannedRows passes (nextPassing passes last records).2.2 with
          rows := (nextPassing passes last records).2.1 ::
            (scannedRows passes (nextPassing passes last records).2.2).rows } ∧
      lastScanned passes last records = lastScanned passes (nextPassing passes last records).2.1
        (nextPassing passes last records).2.2 := by
  induction records generalizing last with
  | nil => cases h
  | cons record records ih =>
    rw [nextPassing] at h ⊢
    rw [scannedRows, lastScanned]
    cases hpasses : passes record with
    | error g =>
      rw [hpasses] at h
      cases h
    | ok passed =>
      rw [hpasses] at h
      cases passed with
      | true => exact ⟨rfl, rfl⟩
      | false => exact ih h

end

structure FetchesTable (passes : Tuple → Except Failure Bool) (units : List (OrderByUnit Tuple))
    (index : ℕ) (scan : TableScanPhysicalOperator)
    (result : Failure × TableScanPhysicalOperator × List (List Value × ℕ) × List Tuple) :
    Prop where
  ending : result.1 = (scannedRows passes scan.recordScanner).ending
  table : result.2.2.1 =
    OrderPhysicalOperator.fetchTable units index (scannedRows passes scan.recordScanner).rows
  st : result.2.2.2 = (scannedRows passes scan.recordScanner).rows
  currentRecord : result.2.1.currentRecord =
    lastScanned passes scan.currentRecord scan.recordScanner

theorem fetchesTable (lib : StdLib) (predicate : Option (Expression Tuple))
    (units : List (OrderByUnit Tuple)) (index : ℕ) (scan : TableScanPhysicalOperator)
    (hset : scan.tuple.orderSet = false) :
    FetchesTable (passesBelow lib scan.predicates predicate) units index scan
      (fetchTable lib predicate units index scan) := by
  induction hlength : scan.recordScanner.length using Nat.strong_induction_on
    generalizing scan index
  next n ih =>
  obtain ⟨hposition, hpredicates, hrecord, hset'⟩ := fetches_childNext lib predicate scan
  have hrc' := congrArg Prod.fst hposition
  have hlastRead := congrArg (fun position => position.2.1) hposition
  have hrest := congrArg (fun position => position.2.2) hposition
  dsimp only at hrc' hlastRead hrest
  rw [fetchTable]
  split
  · next f hrc =>
    obtain ⟨hrows, hlast⟩ := scannedRows_of_failed (hrc'.symm.trans hrc)
    constructor <;> simp [hrows, hlast, hlastRead, OrderPhysicalOperator.fetchTable]
  · next hrc =>
    obtain ⟨hrows, hlast⟩ := scannedRows_of_next (hrc'.symm.trans hrc)
    rw [← hlastRead, ← hrest] at hrows hlast
    set child := (childNext lib predicate scan).2
    rw [tupleValues_eq units (hrecord hrc) (hset' hset)]
    dsimp only
    rw [TableScanPhysicalOperator.currentTuple_eq_self (hrecord hrc) (hset' hset),
      TableScanPhysicalOperator.shown_of_record (hrecord hrc)]
    have hlt : child.recordScanner.length < n := by
      rw [← hlength]
      exact length_childNext hrc
    have hbelow := ih _ hlt (index + 1) child (hset' hset) rfl
    rw [hpredicates] at hbelow
    constructor
    · rw [hrows]
      exact hbelow.ending
    · rw [hrows]
      exact congrArg _ hbelow.table
    · rw [hrows]
      exact congrArg _ hbelow.st
    · rw [hlast]
      exact hbelow.currentRecord

/-- The plan: a projection over an order-by over an optional predicate over a table scan.  `stIdx`
is the part of `st_idx_` from `it_` on; the rows of `st` are values, where `st_` has copies of records
that point into frames. -/
structure OrderedScan where
  expressions : List (Expression Tuple)
  orderUnits : List (OrderByUnit Tuple)
  predicate : Option (Expression Tuple)
  scan : TableScanPhysicalOperator
  isInit : Bool := true
  st : List Tuple := []
  stIdx : List ℕ := []

namespace OrderedScan

variable (std : StdSort.Sorter (List Value × ℕ)) (lib : StdLib)

def sortTable (plan : OrderedScan) : Option Failure × OrderedScan :=
  let (f, scan, table, st) := fetchTable lib plan.predicate plan.orderUnits 0 plan.scan
  let plan := { plan with scan, st := plan.st ++ st }
  if f ≠ .code .recordEof then (some f, plan)
  else
    let sorted := std.sort (OrderPhysicalOperator.cmp lib plan.orderUnits) table
    (none, { plan with stIdx := sorted.map Prod.snd })

def nextSorted (plan : OrderedScan) : Option Failure × OrderedScan :=
  match plan.stIdx with
  | [] => (some (.code .recordEof), plan)
  | idx :: stIdx =>
    match plan.st[idx]? with
    | none => (some .crash, { plan with stIdx })
    | some record =>
      (none, { plan with stIdx, scan := plan.scan.currentTuple.setRecord record })

/-- `next` of the projection, which is the one of the order-by. -/
def next (plan : OrderedScan) : Option Failure × OrderedScan :=
  if plan.isInit then
    match sortTable std lib { plan with isInit := false } with
    | (some f, plan) => (some f, plan)
    | (none, plan) => plan.nextSorted
  else plan.nextSorted

/-- `current_tuple` of the projection: what it shows. -/
def currentTuple (plan : OrderedScan) : Tuple × OrderedScan :=
  let scan := plan.scan.currentTuple
  (projectTuple lib plan.expressions scan.shown, { plan with scan })

def currentTuples : ℕ → OrderedScan → List Tuple × OrderedScan
  | 0, plan => ([], plan)
  | n + 1, plan =>
    let (shown, plan) := plan.currentTuple lib
    let (rest, plan) := currentTuples n plan
    (shown :: rest, plan)

/-- The plan before the `next` for a position, when `calls j` calls of `current_tuple` follow the
one for position `j`. -/
def before (calls : ℕ → ℕ) (plan : OrderedScan) : ℕ → OrderedScan
  | 0 => plan
  | i + 1 => (currentTuples lib (calls i) (next std lib (before calls plan i)).2).2

/-- The return code at a position, and what the calls of `current_tuple` behind it show. -/
def position (calls : ℕ → ℕ) (plan : OrderedScan) (i : ℕ) : Option Failure × List Tuple :=
  let (rc, plan) := next std lib (before std lib calls plan i)
  (rc, (currentTuples lib (calls i) plan).1)

end OrderedScan

end TDB
