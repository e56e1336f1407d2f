import TDB.OrderedScan

namespace TDB.OrderedScan

variable (std : StdSort.Sorter (List Value × ℕ)) (lib : StdLib)

/-! ## What is shown -/

def sortedRecord (orderUnits : List (OrderByUnit Tuple)) (rows : List Tuple) (i : ℕ) :
    Option Tuple :=
  (std.sort (OrderPhysicalOperator.cmp lib orderUnits)
    (OrderPhysicalOperator.fetchTable orderUnits 0 rows))[i]?.bind fun p => rows[p.2]?

/-- The plan behind its sort, with the first `i` positions handed out. -/
structure Sorted (idxs : List ℕ) (rows : List Tuple) (last : Tuple)
    (expressions : List (Expression Tuple)) (i : ℕ) (plan : OrderedScan) : Prop where
  isInit : plan.isInit = false
  st : plan.st = rows
  stIdx : plan.stIdx = idxs.drop i
  currentRecord : plan.scan.currentRecord = last
  expressions : plan.expressions = expressions

/-- `n` calls that show one tuple first and another one from then on. -/
def firstThenLater (first later : Tuple) : ℕ → List Tuple
  | 0 => []
  | n + 1 => first :: List.replicate n later

variable {std lib} {idxs : List ℕ} {rows : List Tuple} {last : Tuple}
  {expressions : List (Expression Tuple)} {i : ℕ} {plan : OrderedScan}

theorem Sorted.nextSorted (h : Sorted idxs rows last expressions i plan) :
    Sorted idxs rows last expressions (i + 1) plan.nextSorted.2 := by
  obtain ⟨hinit, hst, hidx, hrecord, hexpressions⟩ := h
  have hdrop : idxs.drop (i + 1) = plan.stIdx.tail := by rw [hidx, List.tail_drop]
  rw [OrderedScan.nextSorted]
  cases hcase : plan.stIdx with
  | nil =>
    rw [hcase] at hdrop
    exact ⟨hinit, hst, hcase.trans hdrop.symm, hrecord, hexpressions⟩
  | cons idx stIdx =>
    rw [hcase] at hdrop
    dsimp only
    split
    · exact ⟨hinit, hst, hdrop.symm, hrecord, hexpressions⟩
    · refine ⟨hinit, hst, hdrop.symm, ?_, hexpressions⟩
      exact plan.scan.currentRecord_currentTuple.trans hrecord

theorem Sorted.currentTuples (lib : StdLib) (h : Sorted idxs rows last expressions i plan) (n : ℕ) :
    Sorted idxs rows last expressions i (currentTuples lib n plan).2 := by
  induction n generalizing plan with
  | zero => exact h
  | succ n ih =>
    apply ih
    exact ⟨h.isInit, h.st, h.stIdx,
      plan.scan.currentRecord_currentTuple.trans h.currentRecord, h.expressions⟩

theorem Sorted.next (h : Sorted idxs rows last expressions i plan) :
    OrderedScan.next std lib plan = plan.nextSorted := by
  rw [OrderedScan.next, h.isInit, if_neg Bool.false_ne_true]

/-- Without the flag the scan shows its own record. -/
theorem currentTuples_unset (n : ℕ) (hset : plan.scan.tuple.orderSet = false) :
    (currentTuples lib n plan).1 =
      List.replicate n (projectTuple lib plan.expressions plan.scan.currentRecord) := by
  induction n generalizing plan with
  | zero => rfl
  | succ n ih =>
    have htuple : plan.scan.currentTuple =
        { plan.scan with tuple := { plan.scan.tuple with record := .currentRecord } } := by
      rw [TableScanPhysicalOperator.currentTuple, hset, if_neg Bool.false_ne_true]
    have hrest := @ih { plan with scan := plan.scan.currentTuple }
      (plan.scan.orderSet_currentTuple hset)
    rw [htuple] at hrest
    rw [OrderedScan.currentTuples, OrderedScan.currentTuple, htuple, List.replicate_succ]
    exact congrArg (List.cons _) hrest

/-- The flag lets one call see the sorted record. -/
theorem currentTuples_setRecord (n : ℕ) (record : Tuple)
    (h : plan.scan.tuple = ⟨.sorted record, true⟩) :
    (currentTuples lib n plan).1 =
      firstThenLater (projectTuple lib plan.expressions record)
        (projectTuple lib plan.expressions plan.scan.currentRecord) n := by
  cases n with
  | zero => rfl
  | succ n =>
    have htuple : plan.scan.currentTuple =
        { plan.scan with tuple := ⟨.sorted record, false⟩ } := by
      rw [TableScanPhysicalOperator.currentTuple, h, if_pos rfl]
    rw [OrderedScan.currentTuples, OrderedScan.currentTuple, htuple, firstThenLater]
    exact congrArg _ (currentTuples_unset n rfl)

/-- At a position whose record is known, one call shows the record and the others the record that
the scan read last. -/
theorem Sorted.position (lib : StdLib) {record : Tuple} {idx : ℕ}
    (h : Sorted idxs rows last expressions i plan)
    (hidx : idxs[i]? = some idx) (hrecord : rows[idx]? = some record) (n : ℕ) :
    plan.nextSorted.1 = none ∧ (OrderedScan.currentTuples lib n plan.nextSorted.2).1 =
      firstThenLater (projectTuple lib expressions record)
        (projectTuple lib expressions last) n := by
  have hcase : plan.stIdx = idx :: plan.stIdx.tail := by
    obtain ⟨hlt, heq⟩ := List.getElem?_eq_some_iff.1 hidx
    rw [h.stIdx, List.drop_eq_getElem_cons hlt, heq, List.tail_cons]
  have hnext : plan.nextSorted = (none, { plan with
      stIdx := plan.stIdx.tail, scan := plan.scan.currentTuple.setRecord record }) := by
    rw [OrderedScan.nextSorted, hcase]
    simp only [h.st, hrecord, List.tail_cons]
  rw [hnext]
  refine ⟨rfl, ?_⟩
  rw [currentTuples_setRecord n record rfl, ← h.expressions, ← h.currentRecord]
  dsimp only [TableScanPhysicalOperator.setRecord]
  rw [TableScanPhysicalOperator.currentRecord_currentTuple]

def opened (expressions : List (Expression Tuple)) (orderUnits : List (OrderByUnit Tuple))
    (predicate : Option (Expression Tuple)) (predicates : List (Expression Tuple))
    (records : List Tuple) : OrderedScan :=
  { expressions, orderUnits, predicate, scan := { predicates, recordScanner := records } }

variable (std lib) (expressions) (orderUnits : List (OrderByUnit Tuple))
  (predicate : Option (Expression Tuple)) (predicates : List (Expression Tuple))
  (records : List Tuple)

def sortedOver : Responses Tuple := scannedRows (passesBelow lib predicates predicate) records

def lastRead : Tuple := lastScanned (passesBelow lib predicates predicate) unreadable records

variable {predicate predicates records}

theorem next_opened (hending : (sortedOver lib predicate predicates records).ending =
    .code .recordEof) : ∃ plan,
      next std lib (opened expressions orderUnits predicate predicates records) =
        plan.nextSorted ∧
      Sorted ((std.sort (OrderPhysicalOperator.cmp lib orderUnits)
          (OrderPhysicalOperator.fetchTable orderUnits 0
            (sortedOver lib predicate predicates records).rows)).map Prod.snd)
        (sortedOver lib predicate predicates records).rows
        (lastRead lib predicate predicates records) expressions 0 plan := by
  obtain ⟨hend, htable, hst, hlast⟩ := fetchesTable lib predicate orderUnits 0
    { predicates, recordScanner := records } rfl
  change _ = lastRead lib predicate predicates records at hlast
  change _ = (sortedOver lib predicate predicates records).ending at hend
  change _ = (sortedOver lib predicate predicates records).rows at hst
  change _ = OrderPhysicalOperator.fetchTable orderUnits 0
    (sortedOver lib predicate predicates records).rows at htable
  rw [hending] at hend
  set fetched := fetchTable lib predicate orderUnits 0 { predicates, recordScanner := records }
  have hsort : sortTable std lib
      { opened expressions orderUnits predicate predicates records with isInit := false } =
        (none, { opened expressions orderUnits predicate predicates records with
          isInit := false, scan := fetched.2.1, st := fetched.2.2.2
          stIdx := (std.sort (OrderPhysicalOperator.cmp lib orderUnits)
            fetched.2.2.1).map Prod.snd }) := by
    rw [sortTable]
    change (if fetched.1 ≠ _ then _ else _) = _
    rw [hend, if_neg (not_not.2 rfl)]
    rfl
  have hinit : (opened expressions orderUnits predicate predicates records).isInit = true := rfl
  rw [OrderedScan.next, hinit, if_pos rfl, hsort]
  refine ⟨_, rfl, rfl, hst, ?_, hlast, rfl⟩
  rw [List.drop_zero, htable]

/-- Every `next` of a run finds the sorted plan with as many positions handed out as there were
calls before it. -/
theorem next_before (calls : ℕ → ℕ) (hending :
      (sortedOver lib predicate predicates records).ending = .code .recordEof) (i : ℕ) :
    ∃ plan, next std lib (before std lib calls
        (opened expressions orderUnits predicate predicates records) i) = plan.nextSorted ∧
      Sorted ((std.sort (OrderPhysicalOperator.cmp lib orderUnits)
          (OrderPhysicalOperator.fetchTable orderUnits 0
            (sortedOver lib predicate predicates records).rows)).map Prod.snd)
        (sortedOver lib predicate predicates records).rows
        (lastRead lib predicate predicates records) expressions i plan := by
  induction i with
  | zero => exact next_opened std lib expressions orderUnits hending
  | succ i ih =>
    obtain ⟨plan, hnext, hsorted⟩ := ih
    -- neither `next` nor `current_tuple` touches the order or the record read last
    have hafter := hsorted.nextSorted.currentTuples lib (calls i)
    rw [← hnext] at hafter
    exact ⟨_, hafter.next, hafter⟩

theorem position_eq (calls : ℕ → ℕ) (hending :
      (sortedOver lib predicate predicates records).ending = .code .recordEof) {i : ℕ}
    {record : Tuple} (hrecord : sortedRecord std lib orderUnits
      (sortedOver lib predicate predicates records).rows i = some record) :
    position std lib calls (opened expressions orderUnits predicate predicates records) i =
      (none, firstThenLater (projectTuple lib expressions record)
        (projectTuple lib expressions (lastRead lib predicate predicates records)) (calls i)) := by
  obtain ⟨plan, hnext, hsorted⟩ := next_before std lib expressions orderUnits calls hending i
  obtain ⟨p, hp, hrow⟩ := Option.bind_eq_some_iff.1 hrecord
  have hidx := List.getElem?_map.trans (congrArg (Option.map Prod.snd) hp)
  obtain ⟨hrc, hshown⟩ := hsorted.position lib hidx hrow (calls i)
  rw [position, hnext]
  exact Prod.ext hrc hshown

/-! ### The events of the plan -/

def logicalPlan (table : String) (expressions : List (Expression Tuple))
    (orderUnits : List (OrderByUnit Tuple)) (predicate : Option (Expression Tuple))
    (predicates : List (Expression Tuple)) : LogicalNode Tuple :=
  let scan : LogicalNode Tuple := .tableGet table predicates
  .withChild (.project expressions) <| .withChild (.order orderUnits) <|
    predicate.elim scan fun expression => .withChild (.predicate expression) scan

def eventsBelow (lib : StdLib) (predicates : List (Expression Tuple)) :
    Option (Expression Tuple) → List Tuple → List Event
  | none, records => tableScanEvents lib predicates records
  | some expression, records =>
    predicateEvents lib expression (tableScanEvents lib predicates records)

theorem drainEvents_eventsBelow (lib : StdLib) (predicate : Option (Expression Tuple))
    (predicates : List (Expression Tuple)) (records : List Tuple) :
    drainEvents (eventsBelow lib predicates predicate records) =
      { rows := (sortedOver lib predicate predicates records).rows.map fun row => (row, row)
        ending := (sortedOver lib predicate predicates records).ending } := by
  induction records with
  | nil => cases predicate <;> rfl
  | cons record records ih =>
    cases predicate with
    | none =>
      simp only [eventsBelow, sortedOver, passesBelow, tableScanEvents, scannedRows] at ih ⊢
      cases tableScanFilter lib record predicates with
      | error f => rfl
      | ok passed =>
        cases passed with
        | false => exact ih
        | true => simp [drainEvents, ih]
    | some expression =>
      simp only [eventsBelow, sortedOver, passesBelow, tableScanEvents, scannedRows,
        rowPasses] at ih ⊢
      cases tableScanFilter lib record predicates with
      | error f => rfl
      | ok passed =>
        cases passed with
        | false => exact ih
        | true =>
          simp only [predicateEvents]
          cases expression.getValue lib record with
          | error f => simp [drainEvents, bind, Except.bind]
          | ok value =>
            cases hbool : value.getBoolean lib <;>
              simp [drainEvents, hbool, ih, bind, Except.bind, pure, Except.pure]

theorem fetchTable_orderUnitsOfCalls (units : List (OrderByUnit Tuple)) (k : ℕ)
    (rows : List Tuple) :
    OrderPhysicalOperator.fetchTable (orderUnitsOfCalls units) k
        (rows.map fun row => (row, row)) =
      OrderPhysicalOperator.fetchTable units k rows := by
  have hkeys : ∀ row, keyCells (orderUnitsOfCalls units) (row, row) = keyCells units row := by
    intro row
    cases units with
    | nil => rfl
    | cons unit units => simp [keyCells, orderUnitsOfCalls]
  induction rows generalizing k with
  | nil => rfl
  | cons row rows ih => simp [OrderPhysicalOperator.fetchTable, hkeys, ih]

theorem sortedRows_orderUnitsOfCalls (units : List (OrderByUnit Tuple)) (rows : List Tuple) :
    OrderPhysicalOperator.sortedRows std lib (orderUnitsOfCalls units)
        (rows.map fun row => (row, row)) =
      (OrderPhysicalOperator.sortedRows std lib units rows).map fun row => (row, row) := by
  have htypes : (orderUnitsOfCalls units).map OrderByUnit.sortType =
      units.map OrderByUnit.sortType := by
    cases units <;> simp [orderUnitsOfCalls]
  have hcmp : OrderPhysicalOperator.cmp lib (orderUnitsOfCalls units) =
      OrderPhysicalOperator.cmp lib units := by
    funext a b
    rw [OrderPhysicalOperator.cmp, OrderPhysicalOperator.cmp, htypes]
  rw [OrderPhysicalOperator.sortedRows, OrderPhysicalOperator.sortedRows, hcmp,
    fetchTable_orderUnitsOfCalls, List.map_filterMap]
  simp only [List.getElem?_map]

/-- With a strict weak order the records at the positions are the sorted rows. -/
theorem sortedRecord_eq {units : List (OrderByUnit Tuple)} {rows : List Tuple}
    (hweak : StdSort.StrictWeakOn (OrderPhysicalOperator.cmp lib units)
      (OrderPhysicalOperator.fetchTable units 0 rows)) (i : ℕ) :
    sortedRecord std lib units rows i =
      (OrderPhysicalOperator.sortedRows std lib units rows)[i]? := by
  have hsome : ∀ p ∈ std.sort (OrderPhysicalOperator.cmp lib units)
      (OrderPhysicalOperator.fetchTable units 0 rows), rows[p.2]?.isSome := by
    intro p hp
    obtain ⟨k, row, hrow, rfl⟩ :=
      OrderPhysicalOperator.mem_fetchTable.1 ((std.perm _ _ hweak).mem_iff.1 hp)
    rw [Nat.zero_add, hrow]
    rfl
  rw [sortedRecord, OrderPhysicalOperator.sortedRows]
  generalize std.sort _ _ = sorted at hsome
  induction sorted generalizing i with
  | nil => rfl
  | cons p sorted ih =>
    obtain ⟨row, hrow⟩ := Option.isSome_iff_exists.1 (hsome p List.mem_cons_self)
    have hcons : (p :: sorted).filterMap (fun p => rows[p.2]?) =
        row :: sorted.filterMap fun p => rows[p.2]? := List.filterMap_cons_some hrow
    rw [hcons]
    cases i with
    | zero => exact hrow
    | succ i => exact ih i fun q hq => hsome q (List.mem_cons_of_mem p hq)

/-- Without failures the scan reads the whole table. -/
theorem lastScanned_getLast {passes : Tuple → Except Failure Bool} (last : Tuple)
    (hpasses : ∀ record ∈ records, ∃ b, passes record = .ok b) :
    lastScanned passes last records = records.getLast?.getD last := by
  induction records generalizing last with
  | nil => rfl
  | cons record records ih =>
    obtain ⟨b, hb⟩ := hpasses record List.mem_cons_self
    rw [lastScanned, hb, List.getLast?_cons]
    exact ih record fun record' hmem => hpasses record' (List.mem_cons_of_mem record hmem)

theorem scannedRows_ending {passes : Tuple → Except Failure Bool}
    (hpasses : ∀ record ∈ records, ∃ b, passes record = .ok b) :
    (scannedRows passes records).ending = .code .recordEof := by
  induction records with
  | nil => rfl
  | cons record records ih =>
    have hrest := ih fun record' hmem => hpasses record' (List.mem_cons_of_mem record hmem)
    obtain ⟨b, hb⟩ := hpasses record List.mem_cons_self
    rw [scannedRows, hb]
    cases b <;> exact hrest

/-- The events of the plan say what a run shows. -/
theorem position_of_planEvents {db : Database} {table : String} {stream : EventStream} {i : ℕ}
    {first later : Tuple} (calls : ℕ → ℕ)
    (hpasses : ∀ record ∈ db table, ∃ b, passesBelow lib predicates predicate record = .ok b)
    (hweak : StdSort.StrictWeakOn (OrderPhysicalOperator.cmp lib orderUnits)
      (OrderPhysicalOperator.fetchTable orderUnits 0
        (sortedOver lib predicate predicates (db table)).rows))
    (hplan : planEvents std lib db
      (logicalPlan table expressions orderUnits predicate predicates) = .ok stream)
    (hevent : stream.events[i]? = some (.row first later)) :
    position std lib calls (opened expressions orderUnits predicate predicates (db table)) i =
      (none, firstThenLater first later (calls i)) := by
  have hending := scannedRows_ending hpasses
  change (sortedOver lib predicate predicates (db table)).ending = _ at hending
  have hstream : stream.events = projectEvents lib expressions (orderEvents std lib orderUnits
      ⟨eventsBelow lib predicates predicate (db table), (db table).getLast?⟩) := by
    cases predicate <;> cases hplan <;> rfl
  rw [orderEvents, drainEvents_eventsBelow, hending] at hstream
  simp only [ne_eq, not_true_eq_false, if_false, sortedRows_orderUnitsOfCalls,
    projectEvents, List.map_map, Function.comp_def, ite_self] at hstream
  rw [hstream, List.getElem?_map, ← sortedRecord_eq std lib hweak] at hevent
  obtain ⟨record, hrecord, heq⟩ := Option.map_eq_some_iff.1 hevent
  cases heq
  have hne : db table ≠ [] := by
    intro hnil
    rw [hnil] at hrecord
    obtain ⟨p, -, hrow⟩ := Option.bind_eq_some_iff.1 hrecord
    cases hrow
  have hlast : lastRead lib predicate predicates (db table) = (db table).getLast?.getD record := by
    rw [lastRead, lastScanned_getLast unreadable hpasses, List.getLast?_eq_some_getLast hne]
    rfl
  rw [position_eq std lib expressions orderUnits calls hending hrecord, hlast]

/-- The calls of `current_tuple` at a position all show the record at that position of the sorted
order, however many there are, if and only if the record that the table scan has read last shows
the same. -/
theorem currentTuple_stable_iff
    (hending : (sortedOver lib predicate predicates records).ending = .code .recordEof) {i : ℕ}
    {record : Tuple} (hrecord : sortedRecord std lib orderUnits
      (sortedOver lib predicate predicates records).rows i = some record) :
    (∀ calls shown, shown ∈ (position std lib calls
        (opened expressions orderUnits predicate predicates records) i).2 →
      shown = projectTuple lib expressions record) ↔
    projectTuple lib expressions (lastRead lib predicate predicates records) =
      projectTuple lib expressions record := by
  constructor
  · intro h
    apply h fun _ => 2
    rw [position_eq std lib expressions orderUnits _ hending hrecord]
    simp [firstThenLater]
  · intro hlast calls shown hshown
    rw [position_eq std lib expressions orderUnits calls hending hrecord, hlast] at hshown
    cases hcalls : calls i with
    | zero =>
      rw [hcalls] at hshown
      cases hshown
    | succ n =>
      rw [hcalls] at hshown
      rcases List.mem_cons.1 hshown with hfirst | hlater
      · exact hfirst
      · exact List.eq_of_mem_replicate hlater

def intColumn (tuple : Tuple) : Except Failure Value := tuple.findCell ⟨"t", "a", ""⟩

def intRow (n : Int32) : Tuple := ⟨[.ok (.ints n)], fun _ => .ok (.ints n)⟩

def byIntColumn : OrderByUnit Tuple := ⟨true, fun tuple => (intColumn tuple).toOption.getD .nulls⟩

theorem sortedRecord_two_ints (std : StdSort.Sorter (List Value × ℕ)) (lib : StdLib) :
    sortedRecord std lib [byIntColumn] [intRow 1, intRow 2] 0 = some (intRow 1) := by
  have htable : OrderPhysicalOperator.fetchTable [byIntColumn] 0 [intRow 1, intRow 2] =
      [([.ints 1], 0), ([.ints 2], 1)] := rfl
  set lt := OrderPhysicalOperator.cmp lib [byIntColumn] with hlt
  have h11 : lt ([.ints 1], 0) ([.ints 1], 0) = false := rfl
  have h12 : lt ([.ints 1], 0) ([.ints 2], 1) = true := rfl
  have h21 : lt ([.ints 2], 1) ([.ints 1], 0) = false := rfl
  have h22 : lt ([.ints 2], 1) ([.ints 2], 1) = false := rfl
  clear_value lt
  have hweak : StdSort.StrictWeakOn lt [([.ints 1], 0), ([.ints 2], 1)] := by
    constructor <;> simp [h11, h12, h21, h22]
  have hsorted : [([Value.ints 1], 0), ([.ints 2], 1)].Pairwise fun a b => lt a b = true := by
    simpa using h12
  rw [sortedRecord, htable, ← hlt, std.sort_eq_self hweak hsorted]
  rfl

/-- The first of the two rows is shown by all calls if and only if the last one shows the same. -/
theorem currentTuple_stable_two_ints :
    let lib : StdLib := ⟨fun _ => none, fun _ => none, fun _ _ => none, fun _ => []⟩
    (∀ calls shown, shown ∈ (position StdSort.mergeSorter lib calls
        (opened [.field intColumn] [byIntColumn] none [] [intRow 1, intRow 2]) 0).2 →
      shown = projectTuple lib [.field intColumn] (intRow 1)) ↔
    projectTuple lib [.field intColumn] (lastRead lib none [] [intRow 1, intRow 2]) =
      projectTuple lib [.field intColumn] (intRow 1) :=
  currentTuple_stable_iff StdSort.mergeSorter _ [.field intColumn] [byIntColumn] rfl
    (sortedRecord_two_ints _ _)

/-- `SELECT a FROM t ORDER BY a` over the rows 1 and 2: a second call at the first position shows
2. -/
theorem currentTuple_falls_back :
    let lib : StdLib := ⟨fun _ => none, fun _ => none, fun _ _ => none, fun _ => []⟩
    sortedRecord StdSort.mergeSorter lib [byIntColumn] [intRow 1, intRow 2] 0 = some (intRow 1) ∧
      (position StdSort.mergeSorter lib (fun _ => 2)
          (opened [.field intColumn] [byIntColumn] none [] [intRow 1, intRow 2]) 0).2.map
        Tuple.cells = [[.ok (.ints 1)], [.ok (.ints 2)]] := by
  intro lib
  have hrecord := sortedRecord_two_ints StdSort.mergeSorter lib
  refine ⟨hrecord, ?_⟩
  change sortedRecord StdSort.mergeSorter lib [byIntColumn]
    (sortedOver lib none [] [intRow 1, intRow 2]).rows 0 = _ at hrecord
  rw [position_eq StdSort.mergeSorter lib [.field intColumn] [byIntColumn] _ rfl hrecord]
  rfl

end TDB.OrderedScan
