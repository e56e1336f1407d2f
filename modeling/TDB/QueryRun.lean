import TDB.LogicalNode
import TDB.PredicatePushdown

namespace TDB

/-! ## Tuples -/

structure TupleCellSpec where
  tableName : String
  fieldName : String
  aliasName : String
  deriving DecidableEq, Repr

/-- A `Tuple`: what `cell_at` gives for each index below `cell_num`, and `find_cell`. -/
structure Tuple where
  cells : List (Except Failure Value)
  findCell : TupleCellSpec → Except Failure Value

def projectTuple (lib : StdLib) (expressions : List (Expression Tuple)) (tuple : Tuple) : Tuple :=
  { tuple with cells := expressions.map (Expression.getValue lib tuple) }

def aggrTuple (units : List (AggrUnit Tuple)) (results : List Value) : Tuple where
  cells := results.map .ok
  findCell spec :=
    match (units.zip results).find? fun (unit, _) =>
      unit.aliasName = spec.aliasName ∨ unit.aliasName = spec.fieldName with
    | some (_, value) => .ok value
    | none => .error (.code .notfound)

/-! ## What an operator gives its parent -/

/-- The result of one call of `next`.  After a successful one, `first` is the tuple that the first
call of `current_tuple` returns and `later` the one of every later call: a sorted record is given
out once, and then the tuple of the table scan falls back to the record it read last. -/
inductive Event where
  | row (first later : Tuple)
  | failed (f : Failure)

/-- The results of all calls of `next` until `RECORD_EOF` is returned for good.  `last` is the
tuple that `current_tuple` returns then. -/
structure EventStream where
  events : List Event := []
  last : Option Tuple := none

/-- The content of the tables, row by row in scan order. -/
abbrev Database := String → List Tuple

/-- `TableScanPhysicalOperator::next`, row by row. -/
def tableScanEvents (lib : StdLib) (predicates : List (Expression Tuple)) :
    List Tuple → List Event
  | [] => []
  | tuple :: tuples =>
    match tableScanFilter lib tuple predicates with
    | .ok true => .row tuple tuple :: tableScanEvents lib predicates tuples
    | .ok false => tableScanEvents lib predicates tuples
    | .error f => .failed f :: tableScanEvents lib predicates tuples

/-- `PredicatePhysicalOperator::next`; evaluating the expression takes the first call of
`current_tuple`. -/
def predicateEvents (lib : StdLib) (expression : Expression Tuple) : List Event → List Event
  | [] => []
  | .failed f :: events => .failed f :: predicateEvents lib expression events
  | .row first later :: events =>
    match expression.getValue lib first with
    | .error f => .failed f :: predicateEvents lib expression events
    | .ok value =>
      if value.getBoolean lib then .row later later :: predicateEvents lib expression events
      else predicateEvents lib expression events

/-- `ProjectPhysicalOperator::next` and its `current_tuple`. -/
def projectEvents (lib : StdLib) (expressions : List (Expression Tuple)) (events : List Event) :
    List Event :=
  events.map fun
    | .row first later =>
      .row (projectTuple lib expressions first) (projectTuple lib expressions later)
    | .failed f => .failed f

/-! ### Sorting -/

/-- The rows up to the first call of `next` that fails, and its code. -/
def drainEvents : List Event → Responses (Tuple × Tuple)
  | [] => { rows := [] }
  | .failed f :: _ => { rows := [], ending := f }
  | .row first later :: events =>
    let child := drainEvents events
    { child with rows := (first, later) :: child.rows }

/-- The order keys on the tuples that the calls of `current_tuple` return: one call for each key
and then one for the record. -/
def orderUnitsOfCalls : List (OrderByUnit Tuple) → List (OrderByUnit (Tuple × Tuple))
  | [] => []
  | unit :: units =>
    ⟨unit.sortType, fun (first, _) => unit.getValue first⟩ ::
      units.map fun unit => ⟨unit.sortType, fun (_, later) => unit.getValue later⟩

def orderEvents (std : StdSort.Sorter (List Value × ℕ)) (lib : StdLib)
    (orderUnits : List (OrderByUnit Tuple)) (child : EventStream) : List Event :=
  let drained := drainEvents child.events
  if drained.ending ≠ .code .recordEof then [.failed drained.ending]
  else
    (OrderPhysicalOperator.sortedRows std lib (orderUnitsOfCalls orderUnits) drained.rows).map
      fun (first, later) =>
        let record := if orderUnits.isEmpty then first else later
        .row record (child.last.getD record)

/-! ### Aggregation -/

/-- The state of one aggregate.  `aggr_done` moves the results out of their vector. -/
structure AggrCell where
  count : Int32 := 0
  allNull : Bool := true
  result : Option Value := some .nulls

def aggrUpdate (lib : StdLib) (aggrType : AggrType) (result value : Value) : Value :=
  if result.isNull then value
  else match aggrType with
    | .min => if result.compare lib value > 0 then value else result
    | .max => if result.compare lib value < 0 then value else result
    | .avg | .sum =>
      match value with
      | .ints _ => .ints (result.getInt lib + value.getInt lib)
      | .floats _ => .floats (result.getFloat lib + value.getFloat lib).toBits
      | _ => result
    | _ => result

/-- The loop over the aggregates for one row, with the failure that makes `next` return. -/
def aggrFields (lib : StdLib) (tuple : Tuple) :
    List (AggrUnit Tuple) → List AggrCell → Option Failure × List AggrCell
  | unit :: units, cell :: cells =>
    let proceed (cell : AggrCell) : Option Failure × List AggrCell :=
      let (f, cells) := aggrFields lib tuple units cells
      (f, cell :: cells)
    match unit.field with
    | none => proceed { cell with allNull := false, count := cell.count + 1 }
    | some findCell =>
      match findCell tuple with
      | .error f => (some f, cell :: cells)
      | .ok value =>
        if value.isNull then proceed cell
        else match cell.result with
          | none => (some .crash, cell :: cells)
          | some result => proceed
              { count := cell.count + 1, allNull := false,
                result := some (aggrUpdate lib unit.aggrType result value) }
  | _, cells => (none, cells)

/-- `aggr_done` for one aggregate. -/
def aggrDone (lib : StdLib) (unit : AggrUnit Tuple) (cell : AggrCell) : Option Value :=
  cell.result.map fun result =>
    if cell.allNull ∧ unit.aggrType ≠ .count then .nulls
    else match unit.aggrType with
      | .count => .ints cell.count
      | .avg =>
        if cell.count ≠ 0 then .floats (result.getFloat lib / cell.count.toFloat32).toBits
        else result
      | _ => result

/-- The successful end of `AggrPhysicalOperator::next`: a row with the results, or an access to the
vector that they were moved out of. -/
def aggrRow (lib : StdLib) (units : List (AggrUnit Tuple)) (cells : List AggrCell) : Event :=
  match (units.zip cells).mapM fun (unit, cell) => aggrDone lib unit cell with
  | some results => .row (aggrTuple units results) (aggrTuple units results)
  | none => .failed .crash

/-- `AggrPhysicalOperator::next` over the remaining results of its child; `aggrFlag` says that the
current call has met a row.  Return codes of the child end the loop without being looked at. -/
def aggrEvents (lib : StdLib) (units : List (AggrUnit Tuple)) (cells : List AggrCell)
    (isFirstCalled aggrFlag : Bool) : List Event → List Event
  | [] => if aggrFlag || isFirstCalled then [aggrRow lib units cells] else []
  | .row first _ :: events =>
    match aggrFields lib first units cells with
    | (none, cells) => aggrEvents lib units cells false true events
    | (some f, cells) => .failed f :: aggrEvents lib units cells isFirstCalled false events
  | .failed (.code _) :: events =>
    if aggrFlag || isFirstCalled then
      let moved := cells.map fun cell => { cell with result := none }
      aggrRow lib units cells :: aggrEvents lib units moved false false events
    else .failed (.code .recordEof) :: aggrEvents lib units cells isFirstCalled false events
  | .failed f :: events => .failed f :: aggrEvents lib units cells isFirstCalled false events

def Event.first? : Event → Option Tuple
  | .row first _ => some first
  | .failed _ => none

/-! ## Plans -/

def opEvents (std : StdSort.Sorter (List Value × ℕ)) (lib : StdLib) (op : NodeOp Tuple)
    (child : EventStream) : EventStream :=
  match op with
  | .project expressions =>
    ⟨projectEvents lib expressions child.events, child.last.map (projectTuple lib expressions)⟩
  | .predicate expression => ⟨predicateEvents lib expression child.events, child.last⟩
  | .order orderUnits => ⟨orderEvents std lib orderUnits child, child.last⟩
  | .aggr units =>
    let events := aggrEvents lib units (units.map fun _ => {}) true false child.events
    ⟨events, (events.filterMap Event.first?).getLast?⟩

/-- An operator without a child: `project` and `aggr` have no rows, the `open` of `order` fails,
and the generator reads the front of an empty vector for a predicate. -/
def childlessEvents : NodeOp Tuple → Except Failure EventStream
  | .project _ => .ok {}
  | .aggr _ => .ok {}
  | .order _ => .error (.code .internal)
  | .predicate _ => .error .crash

/-- The physical plan of a logical plan: the failure of its creation or of `open`, or the results
of its calls of `next`. -/
def planEvents (std : StdSort.Sorter (List Value × ℕ)) (lib : StdLib) (db : Database) :
    LogicalNode Tuple → Except Failure EventStream
  | .tableGet table predicates =>
    .ok ⟨tableScanEvents lib predicates (db table), (db table).getLast?⟩
  | .childless op => childlessEvents op
  | .withChild op child => (planEvents std lib db child).map (opEvents std lib op)

/-- The rows that are sent until a call of `next` fails, and its code. -/
def resultRows : List Event → List (List (Except Failure Value)) × Failure
  | [] => ([], .code .recordEof)
  | .failed f :: _ => ([], f)
  | .row first _ :: events =>
    let (rows, ending) := resultRows events
    (first.cells :: rows, ending)

def queryResult (std : StdSort.Sorter (List Value × ℕ)) (lib : StdLib) (db : Database)
    (plan : LogicalNode Tuple) : List (List (Except Failure Value)) × Failure :=
  match planEvents std lib db plan with
  | .ok stream => resultRows stream.events
  | .error f => ([], f)

end TDB
