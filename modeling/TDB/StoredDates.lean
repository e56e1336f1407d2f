import TDB.CalendarDates
import TDB.UpdateKeeps

namespace TDB.Recorder

open RecordFileHandler RecordFileScanner

/-! ## `INSERT` -/

inductive Literal where
  | number (val : Int32)
  | float (bits : UInt32)
  | string (text : List UInt8)
  | date (str : DateStr)
  | null

def Literal.value : Literal → Value
  | .number val => .ints val
  | .float bits => .floats bits
  | .string text => .chars text
  | .date str => (setDateString str.text).getD .undefined
  | .null => .nulls

/-- What `Parser::parse` asks of the values of an `INSERT`. -/
def datesChecked (lib : StdLib) (multiValues : List (List Value)) : Bool :=
  multiValues.all fun values => values.all fun value =>
    !(value.attrType = .dates && value.getInt lib ≤ 0)

section Insert

variable (lib : StdLib) (getString : Value → List UInt8) (textPath : List UInt8 → List UInt8)
  (table : TableMeta)

/-- The value of a row of a view for a field of the table behind it. -/
def viewValue (view : TableMeta) (values : List Value) (field : FieldMeta) :
    Except Failure Value :=
  match view.fields.findIdx? fun f => f.name = field.name with
  | none => .ok .nulls
  | some k => match values[k]? with
    | some value => .ok value
    | none => .error .crash

def viewValues (view : TableMeta) (values : List Value) :
    List FieldMeta → Except Failure (List Value)
  | [] => .ok []
  | field :: fields => do
    let value ← viewValue view values field
    let rest ← viewValues view values fields
    return value :: rest

/-- The first loop of `InsertStmt::create`, which counts the values of a row. -/
def insertValues (view : Option TableMeta) (values : List Value) : Except Failure (List Value) :=
  if values.length = (table.columns .vacuous).length then .ok values
  else match view with
    | none => .error (.code .schemaFieldMissing)
    | some view =>
      if view.fields.length ≠ (table.columns .vacuous).length then
        .error (.code .schemaFieldMissing)
      else viewValues view values (table.columns .vacuous)

/-- The body of the second loop, which checks a type. -/
def insertValue (field : FieldMeta) (value : Value) : Except Failure Value :=
  if value.isNull then
    if field.nullable then .ok value else .error (.code .schemaFieldTypeMismatch)
  else match field.type, value with
    | .texts, .chars str =>
      if 65535 < str.length then .error (.code .invalidArgument)
      else .ok (.texts ((textPath str).takeWhile (· ≠ 0)))
    | type, value =>
      if type ≠ value.attrType then .error (.code .schemaFieldTypeMismatch) else .ok value

def insertRow : List FieldMeta → List Value → Except Failure (List Value)
  | field :: fields, value :: values => do
    let value ← insertValue textPath field value
    let values ← insertRow fields values
    return value :: values
  | _, _ => .ok []

/-- `InsertPhysicalOperator::open` under `VacuousTrx`. -/
def insertOpen : (ℕ → Begin × Unspecified) → List (List Value) → RecordFileHandler →
    Except Failure RC × RecordFileHandler
  | _, [], s => (.ok .success, s)
  | choices, values :: multiValues, s =>
    match makeRecord lib getString .vacuous table (choices 0).2 values with
    | .error (.code rc) => (.ok rc, s)
    | .error f => (.error f, s)
    | .ok record =>
      match s.insertRecord (choices 0).1 record table.recordSize with
      | none => (.error .crash, s)
      | some ((rc, _), s) =>
        if rc.fail then (.ok rc, s)
        else insertOpen (fun k => choices (k + 1)) multiValues s

def createInsert (view : Option TableMeta) (multiValues : List (List Value)) :
    Except Failure (List (List Value)) :=
  if multiValues.isEmpty then .error (.code .invalidArgument)
  else do
    let multiValues ← multiValues.mapM (insertValues table view)
    multiValues.mapM (insertRow textPath (table.columns .vacuous))

/-- The statement, from the parser to the operator. -/
def runInsert (view : Option TableMeta) (rows : List (List Literal))
    (choices : ℕ → Begin × Unspecified) (s : RecordFileHandler) :
    Except Failure RC × RecordFileHandler :=
  let multiValues := rows.map fun row => row.map Literal.value
  if ¬datesChecked lib multiValues then (.ok .invalidArgument, s)
  else match createInsert textPath table view multiValues with
    | .error f => (.error f, s)
    | .ok multiValues => insertOpen lib getString table choices multiValues s

end Insert

/-! ## The values that are stored -/

def Clean (values : List Value) : Prop := ∀ value ∈ values, ∀ v, value = .dates v → ValidDate v

theorem clean_of_datesChecked {lib : StdLib} {rows : List (List Literal)}
    (h : datesChecked lib (rows.map fun row => row.map Literal.value) = true) :
    ∀ values ∈ rows.map fun row => row.map Literal.value, Clean values := by
  intro values hvalues value hvalue v heq
  have hchecked := List.all_eq_true.mp (List.all_eq_true.mp h values hvalues) value hvalue
  obtain ⟨row, -, rfl⟩ := List.mem_map.mp hvalues
  obtain ⟨literal, -, rfl⟩ := List.mem_map.mp hvalue
  cases literal with
  | date str =>
    obtain ⟨w, hw, hvalid⟩ := setDateString_text str
    have hliteral : (Literal.date str).value = .dates w := by rw [Literal.value, hw]; rfl
    obtain rfl : w = v := by simpa [hliteral] using heq
    rcases hvalid with hvalid | rfl
    · exact hvalid
    · rw [hliteral] at hchecked
      change (!(true && decide ((-1 : Int32) ≤ 0))) = true at hchecked
      exact absurd hchecked (by decide)
  | _ => cases heq

theorem clean_viewValues {view : TableMeta} {values result : List Value} {fields : List FieldMeta}
    (hclean : Clean values) (h : viewValues view values fields = .ok result) : Clean result := by
  induction fields generalizing result with
  | nil =>
    cases h
    intro value hvalue
    cases hvalue
  | cons field fields ih =>
    rw [viewValues] at h
    obtain ⟨value, hvalue, h⟩ := Expression.exists_of_bind_ok h
    obtain ⟨rest, hrest, h⟩ := Expression.exists_of_bind_ok h
    obtain rfl := Except.ok.inj h
    intro x hx v heq
    rcases List.mem_cons.mp hx with rfl | hx
    · unfold viewValue at hvalue
      split at hvalue
      · obtain rfl := Except.ok.inj hvalue
        cases heq
      · split at hvalue
        · next k _ w hk =>
          obtain rfl := Except.ok.inj hvalue
          exact hclean _ (List.mem_of_getElem? hk) v heq
        · cases hvalue
    · exact ih hrest x hx v heq

variable {lib : StdLib} {getString : Value → List UInt8} {textPath : List UInt8 → List UInt8}
  {table : TableMeta}

theorem clean_insertValues {view : Option TableMeta} {values result : List Value}
    (hclean : Clean values) (h : insertValues table view values = .ok result) : Clean result := by
  unfold insertValues at h
  split_ifs at h with hlength
  · exact Except.ok.inj h ▸ hclean
  · cases view with
    | none => cases h
    | some view =>
      dsimp only at h
      split_ifs at h
      exact clean_viewValues hclean h

theorem insertValue_ok {field : FieldMeta} {value result : Value}
    (h : insertValue textPath field value = .ok result) (v : Int32) (hv : result = .dates v) :
    value = .dates v := by
  subst hv
  unfold insertValue at h
  split_ifs at h
  · exact Except.ok.inj h
  · split at h
    · split_ifs at h
      cases h
    · split_ifs at h
      exact Except.ok.inj h

theorem clean_insertRow {fields : List FieldMeta} {values result : List Value}
    (hclean : Clean values) (h : insertRow textPath fields values = .ok result) :
    Clean result := by
  induction fields generalizing values result with
  | nil =>
    cases h
    intro value hvalue
    cases hvalue
  | cons field fields ih =>
    cases values with
    | nil =>
      cases h
      intro value hvalue
      cases hvalue
    | cons value values =>
      rw [insertRow] at h
      obtain ⟨value', hvalue, h⟩ := Expression.exists_of_bind_ok h
      obtain ⟨rest, hrest, h⟩ := Expression.exists_of_bind_ok h
      obtain rfl := Except.ok.inj h
      intro x hx v heq
      rcases List.mem_cons.mp hx with rfl | hx
      · exact hclean value List.mem_cons_self v (insertValue_ok hvalue v heq)
      · exact ih (fun y hy => hclean y (List.mem_cons_of_mem _ hy)) hrest x hx v heq

theorem clean_createInsert {view : Option TableMeta} {multiValues result : List (List Value)}
    (hclean : ∀ values ∈ multiValues, Clean values)
    (h : createInsert textPath table view multiValues = .ok result) :
    ∀ values ∈ result, Clean values := by
  unfold createInsert at h
  split_ifs at h
  obtain ⟨counted, hcounted, h⟩ := Expression.exists_of_bind_ok h
  intro values hvalues
  obtain ⟨row, hrow, hinsert⟩ := Expression.exists_of_mapM_ok h values hvalues
  obtain ⟨written, hwritten, hcount⟩ := Expression.exists_of_mapM_ok hcounted row hrow
  exact clean_insertRow (clean_insertValues (hclean written hwritten) hcount) hinsert

def DatesValid (table : TableMeta) (data : List (BitVec 8)) : Prop :=
  ∀ (j : ℕ) field v, (table.columns .vacuous)[j]? = some field → field.type = .dates →
    (table.row .vacuous data)[j]? = some (.dates v) → ValidDate v

theorem checkValue_dates {field : FieldMeta} {value : Value} (htype : field.type = .dates)
    (h : checkValue field value = .ok ()) : value.isNull = true ∨ ∃ v, value = .dates v := by
  unfold checkValue at h
  rw [htype] at h
  cases value with
  | dates v => exact .inr ⟨v, rfl⟩
  | nulls => exact .inl rfl
  | _ => cases h

theorem datesValid_makeRecord {unspecified : Unspecified} {values : List Value}
    {data : List (BitVec 8)} (hlayout : table.Layout)
    (hlen : ∀ field ∈ table.columns .vacuous, field.type = .dates → field.len = 4)
    (hvalues : ∀ (j : ℕ) field v, (table.columns .vacuous)[j]? = some field →
      field.type = .dates → values[j]? = some (.dates v) → ValidDate v)
    (h : makeRecord lib getString .vacuous table unspecified values = .ok data) :
    DatesValid table data := by
  obtain ⟨-, hlength, hcells⟩ := makeRecord_cells hlayout h
  intro j field v hfield htype hcell
  have hlt : j < values.length := by
    rw [hlength]
    exact (List.getElem?_eq_some_iff.mp hfield).1
  have hvalue := List.getElem?_eq_getElem hlt
  obtain ⟨hcheck, hstored⟩ := hcells j field _ hfield hvalue
  have hsupported : field.Supported := fun _ _ => hlen field (List.mem_of_getElem? hfield) htype
  rw [hstored hsupported] at hcell
  rcases checkValue_dates htype hcheck with hnull | ⟨w, hw⟩
  · rw [storedValue, if_pos hnull] at hcell
    cases hcell
  · rw [hw] at hvalue hcell
    have hstore : storedValue lib getString field (.dates w) = .dates w := by
      simp only [storedValue, htype]
      rfl
    rw [hstore] at hcell
    cases hcell
    exact hvalues j field v hfield htype hvalue

section Statements

variable {s s' : RecordFileHandler}
  (hlayout : table.Layout)
  (hlen : ∀ field ∈ table.columns .vacuous, field.type = .dates → field.len = 4)

include hlayout hlen

theorem insertOpen_keeps {choices : ℕ → Begin × Unspecified} {multiValues : List (List Value)}
    (hclean : ∀ values ∈ multiValues, Clean values) (hi : Inv table.recordSize s)
    (hdates : ∀ rid data, s.records rid = some data → DatesValid table data)
    (heq : insertOpen lib getString table choices multiValues s = (.ok .success, s')) :
    Inv table.recordSize s' ∧ ∀ rid data, s'.records rid = some data → DatesValid table data := by
  -- on the rows still to insert: each is made from its values and inserted
  induction multiValues generalizing choices s with
  | nil =>
    cases heq
    exact ⟨hi, hdates⟩
  | cons values multiValues ih =>
    rw [insertOpen] at heq
    cases hmake : makeRecord lib getString .vacuous table (choices 0).2 values with
    | error f =>
      rw [hmake] at heq
      cases f with
      | code rc =>
        obtain rfl : s = s' := congrArg Prod.snd heq
        exact ⟨hi, hdates⟩
      | _ => cases heq
    | ok record =>
      rw [hmake] at heq
      dsimp only at heq
      cases hinsert : s.insertRecord (choices 0).1 record table.recordSize with
      | none =>
        rw [hinsert] at heq
        cases heq
      | some r =>
        obtain ⟨⟨rc, bound⟩, s₁⟩ := r
        rw [hinsert] at heq
        dsimp only at heq
        cases hrc : rc.fail with
        | true =>
          rw [hrc, if_pos rfl] at heq
          cases heq
          cases hrc
        | false =>
          rw [hrc, if_neg Bool.false_ne_true] at heq
          obtain rfl : rc = .success := by simpa [RC.fail] using hrc
          obtain ⟨hlength, -⟩ := makeRecord_cells hlayout hmake
          obtain ⟨rid, hchanges⟩ := insertRecord_changes hi hlength hinsert
          refine ih (fun v hv => hclean v (List.mem_cons_of_mem _ hv)) hchanges.inv ?_ heq
          rw [hchanges.records]
          refine records_insert hdates (datesValid_makeRecord hlayout hlen ?_ hmake)
          intro j field v _ _ hv
          exact hclean values List.mem_cons_self _ (List.mem_of_getElem? hv) v rfl

theorem runInsert_keeps {view : Option TableMeta} {rows : List (List Literal)}
    {choices : ℕ → Begin × Unspecified} (hi : Inv table.recordSize s)
    (hdates : ∀ rid data, s.records rid = some data → DatesValid table data)
    (heq : runInsert lib getString textPath table view rows choices s = (.ok .success, s')) :
    Inv table.recordSize s' ∧ ∀ rid data, s'.records rid = some data → DatesValid table data := by
  unfold runInsert at heq
  dsimp only at heq
  by_cases hchecked : datesChecked lib (rows.map fun row => row.map Literal.value) = true
  · rw [if_neg (not_not.mpr hchecked)] at heq
    cases hcreate : createInsert textPath table view
      (rows.map fun row => row.map Literal.value) with
    | error f =>
      rw [hcreate] at heq
      cases heq
    | ok multiValues =>
      rw [hcreate] at heq
      exact insertOpen_keeps hlayout hlen
        (clean_createInsert (clean_of_datesChecked hchecked) hcreate) hi hdates heq
  · rw [if_pos hchecked] at heq
    cases heq

end Statements

def DateStr.Passes (s : DateStr) : Prop :=
  checkDate (Nat.ofDigitChars 10 s.year 0) (Nat.ofDigitChars 10 s.month 0)
    (Nat.ofDigitChars 10 s.day 0) = true

theorem DateStr.Passes.validDate {str : DateStr} (h : str.Passes) {v : Int32}
    (hv : (Literal.date str).value = .dates v) : ValidDate v := by
  have hyear := ofDigitChars_lt (List.all_eq_true.mp str.year_digits.2)
  rw [str.year_digits.1] at hyear
  unfold DateStr.Passes at h
  rw [Literal.value, setDateString, sscanfDate_text, Option.map_some, Option.getD_some] at hv
  dsimp only at hv
  rw [if_pos h] at hv
  cases hv
  exact validDate_ofNat ((checkDate_iff _ _ _).mp h) hyear

theorem openUnit_dates {unit unit' : UpdateUnit} (h : openUnit textPath table unit = .ok unit') :
    unit'.attributeName = unit.attributeName ∧
    ∀ v, unit'.value = .dates v → unit.value = .dates v := by
  have hsame : unit = unit' → unit'.attributeName = unit.attributeName ∧
      ∀ v, unit'.value = .dates v → unit.value = .dates v := by
    rintro rfl
    exact ⟨rfl, fun _ hv => hv⟩
  unfold openUnit at h
  split at h
  · cases h
  · split at h
    · split_ifs at h
      obtain rfl := Except.ok.inj h
      exact ⟨rfl, fun v hv => (by cases hv)⟩
    · split_ifs at h
      · exact hsame (Except.ok.inj h)
      · exact hsame (Except.ok.inj h)
      · split at h
        · cases h
        · cases h
        · exact hsame (Except.ok.inj h)

theorem openUnits_dates {units units' : List UpdateUnit}
    (h : openUnits textPath table units = .ok units') :
    ∀ unit' ∈ units', ∀ v, unit'.value = .dates v →
      ∃ unit ∈ units, unit.attributeName = unit'.attributeName ∧ unit.value = .dates v := by
  induction units generalizing units' with
  | nil =>
    cases h
    intro unit hunit
    cases hunit
  | cons unit units ih =>
    rw [openUnits] at h
    obtain ⟨opened, hopened, h⟩ := Expression.exists_of_bind_ok h
    obtain ⟨rest, hrest, h⟩ := Expression.exists_of_bind_ok h
    obtain rfl := Except.ok.inj h
    intro unit' hunit' v hv
    rcases List.mem_cons.mp hunit' with rfl | hunit'
    · obtain ⟨hname, hvalue⟩ := openUnit_dates hopened
      exact ⟨unit, List.mem_cons_self, hname.symm, hvalue v hv⟩
    · obtain ⟨u, hu, hname, hvalue⟩ := ih hrest unit' hunit' v hv
      exact ⟨u, List.mem_cons_of_mem _ hu, hname, hvalue⟩

/-! ## Runs -/

/-- An `INSERT`, into the table or into a view of it, or an `UPDATE` of the columns by name. -/
inductive Statement where
  | insert (view : Option TableMeta) (rows : List (List Literal))
  | update (units : List (String × Literal))

def updateUnits (units : List (String × Literal)) : List UpdateUnit :=
  units.map fun unit => ⟨unit.1, unit.2.value⟩

/-- A statement that is accepted: it runs to its end. -/
inductive Accepted (lib : StdLib) (getString : Value → List UInt8)
    (textPath : List UInt8 → List UInt8) (table : TableMeta) :
    Statement → RecordFileHandler → RecordFileHandler → Prop where
  | insert {view rows choices s s'}
      (h : runInsert lib getString textPath table view rows choices s = (.ok .success, s')) :
      Accepted lib getString textPath table (.insert view rows) s s'
  | update {filter units n choices s s'}
      (h : runUpdate lib getString table filter (updateUnits units) textPath n choices s =
        some (.ok .recordEof, s')) :
      Accepted lib getString textPath table (.update units) s s'

/-- An `UPDATE` gives date columns valid dates only. -/
def Statement.Meets (table : TableMeta) : Statement → Prop
  | .insert _ _ => True
  | .update units => ∀ unit ∈ units, ∀ str, unit.2 = .date str →
      ∀ field ∈ table.columns .vacuous, field.name = unit.1 → field.type = .dates → str.Passes

theorem Accepted.keeps {s s' : RecordFileHandler} {statement : Statement} (hlayout : table.Layout)
    (hlen : ∀ field ∈ table.columns .vacuous, field.type = .dates → field.len = 4)
    (haccepted : Accepted lib getString textPath table statement s s')
    (hmeets : statement.Meets table) (hi : Inv table.recordSize s)
    (hdates : ∀ rid data, s.records rid = some data → DatesValid table data) :
    Inv table.recordSize s' ∧ ∀ rid data, s'.records rid = some data → DatesValid table data := by
  cases haccepted with
  | insert h => exact runInsert_keeps hlayout hlen hi hdates h
  | @update filter units n choices _ _ h =>
    refine runUpdate_keeps hlayout ?_ hi hdates h
    intro units' hunits old unspecified new hold hmake
    refine datesValid_makeRecord hlayout hlen ?_ hmake
    intro j field v hfield htype hvalue
    rw [List.getElem?_zipWith, hfield] at hvalue
    cases hcell : (table.row .vacuous old)[j]? with
    | none =>
      rw [hcell] at hvalue
      cases hvalue
    | some cell =>
      rw [hcell] at hvalue
      have hvalue := Option.some.inj hvalue
      unfold updateValue at hvalue
      cases hfind : units'.find? fun unit => field.name = unit.attributeName with
      | none =>
        simp only [hfind] at hvalue
        exact hold j field v hfield htype (hvalue ▸ hcell)
      | some unit' =>
        simp only [hfind] at hvalue
        have hname : field.name = unit'.attributeName := by simpa using List.find?_some hfind
        obtain ⟨unit, hunit, hunitName, hunitValue⟩ :=
          openUnits_dates hunits unit' (List.mem_of_find?_eq_some hfind) v hvalue
        obtain ⟨⟨attributeName, literal⟩, hmem, rfl⟩ := List.mem_map.mp hunit
        cases literal with
        | date str =>
          exact (hmeets _ hmem str rfl field (List.mem_of_getElem? hfield)
            (hname.trans hunitName.symm) htype).validDate hunitValue
        | _ => cases hunitValue

def Stored (table : TableMeta) (s : RecordFileHandler) (v : Int32) : Prop :=
  ∃ (rid : RID) (data : List (BitVec 8)) (j : ℕ) (field : FieldMeta),
    s.records rid = some data ∧ (table.columns .vacuous)[j]? = some field ∧
    field.type = .dates ∧ (table.row .vacuous data)[j]? = some (.dates v)

/-- In a run of accepted statements in which no `UPDATE` gives a date column an invalid literal,
every stored date is one of the calendar, and `compare` orders them as the calendar does. -/
theorem stored_dates_valid (lib : StdLib) (getString : Value → List UInt8)
    (textPath : List UInt8 → List UInt8) (tableId : Int32) (name : String)
    (attributes : List AttrInfoSqlNode) (table : TableMeta)
    (hinit : TableMeta.init .vacuous tableId name attributes = .ok table)
    (hattrs : ∀ attr ∈ attributes, attr.type = .dates → attr.length = 4)
    (bp : FileBufferPool RecordPage) (hfile : IsRecordFile table.recordSize bp)
    (hstart : ∀ v, Stored table (init bp).2 v → ValidDate v) (s : RecordFileHandler)
    (hrun : Relation.ReflTransGen (fun s s' => ∃ statement : Statement, statement.Meets table ∧
      Accepted lib getString textPath table statement s s') (init bp).2 s) :
    (∀ v, Stored table s v → ValidDate v) ∧
    ∀ v w, Stored table s v → Stored table s w →
      ((Value.dates v).compare lib (.dates w) < 0 ↔ Earlier v w) := by
  obtain ⟨hlayout, -, -, -, -, hcolumns⟩ := TableMeta.init_built hinit
  have hlen : ∀ field ∈ table.columns .vacuous, field.type = .dates → field.len = 4 := by
    intro field hfield htype
    obtain ⟨j, hj, rfl⟩ := List.getElem_of_mem hfield
    have hj' : j < attributes.length := by rwa [← hcolumns.length_eq]
    have hattr := forall₂_getElem? hcolumns (List.getElem?_eq_getElem hj)
      (List.getElem?_eq_getElem hj')
    rw [(FieldMeta.init_eq hattr).1] at htype ⊢
    exact hattrs _ (List.getElem_mem hj') htype
  have hkeeps : Inv table.recordSize s ∧
      ∀ rid data, s.records rid = some data → DatesValid table data := by
    induction hrun with
    | refl =>
      refine ⟨(inv_init hfile).1, fun rid data hrid j field v hfield htype hcell => ?_⟩
      exact hstart v ⟨rid, data, j, field, hrid, hfield, htype, hcell⟩
    | tail _ hstep ih =>
      obtain ⟨statement, hmeets, haccepted⟩ := hstep
      exact haccepted.keeps hlayout hlen hmeets ih.1 ih.2
  have hvalid : ∀ v, Stored table s v → ValidDate v := by
    rintro v ⟨rid, data, j, field, hrid, hfield, htype, hcell⟩
    exact hkeeps.2 rid data hrid j field v hfield htype hcell
  exact ⟨hvalid, fun v w hv hw => (hvalid v hv).compare_neg_iff (hvalid w hw) lib⟩

section OneColumn

def dateTable : TableMeta :=
  ⟨0, "t", [⟨"d", .dates, 0, 4, true, true⟩, ⟨"null_field", .chars, 4, 1, false, false⟩], [], 5⟩

/-- `INSERT INTO t VALUES ('2021-2-28')` on the new table. -/
def insertDate : Except Failure RC × RecordFileHandler :=
  runInsert ⟨fun _ => none, fun _ => none, fun _ _ => none, fun _ => []⟩ (fun _ => []) id dateTable
    none [[.date ⟨['2', '0', '2', '1'], ['2'], ['2', '8'], ⟨rfl, rfl⟩, ⟨.inl rfl, rfl⟩,
      ⟨.inr rfl, rfl⟩⟩]]
    (fun _ => (lowestBegin, ⟨fun _ => 0#8, fun _ => .replicate 8 0#8, fun _ => []⟩))
    (init (DataFile.created (PageData.cleared : RecordPage)).pool).2

/-- `UPDATE t SET d = '2021-2-30'` after it. -/
def updateDate : Option (Except Failure RC × RecordFileHandler) :=
  runUpdate ⟨fun _ => none, fun _ => none, fun _ _ => none, fun _ => []⟩ (fun _ => []) dateTable
    (fun _ => .ok true) (updateUnits [("d", .date ⟨['2', '0', '2', '1'], ['2'], ['3', '0'],
      ⟨rfl, rfl⟩, ⟨.inl rfl, rfl⟩, ⟨.inr rfl, rfl⟩⟩)]) id 5
    (fun _ => ⟨lowestBegin, lowestBegin, ⟨fun _ => 0#8, fun _ => .replicate 8 0#8, fun _ => []⟩⟩)
    insertDate.2

theorem insertDate_records :
    insertDate.2.records ⟨1, 0⟩ = some [52#8, 98#8, 52#8, 1#8, 0#8] := by decide +kernel

theorem updateDate_result : updateDate.map (fun r => (r.1, r.2.records ⟨1, 0⟩)) =
    some (.ok .recordEof, some [255#8, 255#8, 255#8, 255#8, 0#8]) := by decide +kernel

theorem accepted_insertDate : ∃ statement : Statement, statement.Meets dateTable ∧
    Accepted ⟨fun _ => none, fun _ => none, fun _ _ => none, fun _ => []⟩ (fun _ => []) id dateTable
      statement (init (DataFile.created (PageData.cleared : RecordPage)).pool).2 insertDate.2 := by
  have hsuccess : insertDate.1 = .ok .success := by decide +kernel
  have hinsert : insertDate = (.ok .success, insertDate.2) := Prod.ext hsuccess rfl
  exact ⟨.insert none _, trivial, .insert hinsert⟩

/-- The date of an `INSERT`. -/
theorem stored_dates_valid_insert :
    Stored dateTable insertDate.2 20210228 ∧ ValidDate 20210228 := by
  have hstored : Stored dateTable insertDate.2 20210228 :=
    ⟨⟨1, 0⟩, _, 0, _, insertDate_records, rfl, rfl, by decide +kernel⟩
  refine ⟨hstored, ?_⟩
  refine (stored_dates_valid ⟨fun _ => none, fun _ => none, fun _ _ => none, fun _ => []⟩
    (fun _ => []) id 0 "t" [⟨"d", .dates, 4, true⟩] dateTable (by decide +kernel) (by decide)
    (DataFile.created (PageData.cleared : RecordPage)).pool (isRecordFile_created 5 _) ?_
    insertDate.2 (.single accepted_insertDate)).1 _ hstored
  rintro v ⟨rid, data, j, field, hrid, -⟩
  rw [@records_created 5] at hrid
  cases hrid

/-- The 30th of February comes into the table by an `UPDATE`, as minus one. -/
theorem not_stored_dates_valid :
    let lib : StdLib := ⟨fun _ => none, fun _ => none, fun _ _ => none, fun _ => []⟩
    let created := (init (DataFile.created (PageData.cleared : RecordPage)).pool).2
    ∃ (insert update : Statement) (s : RecordFileHandler),
      Accepted lib (fun _ => []) id dateTable insert created insertDate.2 ∧
      Accepted lib (fun _ => []) id dateTable update insertDate.2 s ∧
      Stored dateTable s (-1) ∧ ¬ValidDate (-1) := by
  intro lib created
  obtain ⟨insert, -, hinsert⟩ := accepted_insertDate
  obtain ⟨⟨result, s⟩, hupdate, heq⟩ := Option.map_eq_some_iff.mp updateDate_result
  obtain ⟨rfl, hrecords⟩ := Prod.mk.inj heq
  refine ⟨insert, .update _, s, hinsert, .update hupdate, ?_, fun h => absurd h.pos (by decide)⟩
  exact ⟨⟨1, 0⟩, _, 0, _, hrecords, rfl, rfl, by decide +kernel⟩

end OneColumn

end TDB.Recorder
