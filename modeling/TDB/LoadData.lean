import TDB.RecordInsertFailure
import TDB.ReplyBytes
import TDB.TableStatements
import TDB.ValueText

namespace TDB.Recorder

open RecordFileHandler RecordFileScanner
open SessionReply (strrc)
open Value (asciiBytes extractInt intText)

/-! ## The strings of a line -/

def isSpaceByte (b : UInt8) : Bool := b == 32 || 9 ≤ b && b ≤ 13

/-- `strip`.  On a text of blanks alone the search from behind runs out of the string. -/
def strip (str : List UInt8) : Option (List UInt8) :=
  if str.all isSpaceByte then none else some ((str.dropWhile isSpaceByte).rdropWhile isSpaceByte)

def cString (str : List UInt8) : List UInt8 := str.takeWhile (· ≠ 0)

def isBlankLine (line : List UInt8) : Bool := (cString line).all isSpaceByte

/-- `split_string`, which leaves out the empty pieces. -/
def splitString (delim : UInt8) (str : List UInt8) : List (List UInt8) :=
  (str.splitOn delim).filter (· ≠ [])

/-- The lines that `getline` gives, the last one up to the end of the file. -/
def fileLines (content : List UInt8) : List (List UInt8) := content.splitOn 10

def message (text : String) : List UInt8 := asciiBytes text.toList

/-! ## `insert_record_from_file` -/

abbrev LineError := Failure × List UInt8

section Load

/- `readFloat` is `>>` into a `float` that has to reach the end of the stream. -/
variable (lib : StdLib) (getString : Value → List UInt8) (readFloat : List UInt8 → Option UInt32)
  (table : TableMeta)

def readField (i : ℕ) (field : FieldMeta) (fileValue : List UInt8) : Except LineError Value :=
  match strip fileValue with
  | none => .error (.crash, [])
  | some fileValue =>
    match field.type with
    | .ints | .dates =>
      match extractInt fileValue with
      | some value => .ok (.ints value)
      | none => .error (.code .schemaFieldTypeMismatch, message "need an integer but got '" ++
          fileValue ++ message "' (field index:" ++ asciiBytes (intText i) ++ message ")")
    | .floats =>
      match readFloat fileValue with
      | some bits => .ok (.floats bits)
      | none => .error (.code .schemaFieldTypeMismatch, message "need a float number but got '" ++
          fileValue ++ message "'(field index:" ++ asciiBytes (intText i) ++ message ")")
    | .chars => .ok (.chars (cString fileValue))
    | .texts => .ok (.texts (cString fileValue))
    | type => .error (.code .schemaFieldTypeMismatch,
        message "Unsupported field type to loading: " ++ asciiBytes (intText type.ctorIdx))

def readFields : ℕ → List FieldMeta → List (List UInt8) → Except LineError (List Value)
  | i, field :: fields, fileValue :: fileValues => do
    let value ← readField readFloat i field fileValue
    let values ← readFields (i + 1) fields fileValues
    return value :: values
  | _, _, _ => .ok []

def lineValues (line : List UInt8) : Except LineError (List Value) :=
  let fileValues := splitString 124 line
  if fileValues.length < (table.columns .vacuous).length then
    .error (.code .schemaFieldMissing, [])
  else readFields readFloat 0 (table.columns .vacuous) fileValues

/-- `insert_record_from_file` under `VacuousTrx`: the code, and `errmsg`. -/
def insertRecordFromFile (choice : Begin × Unspecified) (line : List UInt8)
    (s : RecordFileHandler) : (Except Failure RC × List UInt8) × RecordFileHandler :=
  match lineValues readFloat table line with
  | .error (.code rc, errmsg) => ((.ok rc, errmsg), s)
  | .error (f, errmsg) => ((.error f, errmsg), s)
  | .ok values =>
    match makeRecord lib getString .vacuous table choice.2 values with
    | .error (.code rc) => ((.ok rc, message "insert failed."), s)
    | .error f => ((.error f, []), s)
    | .ok record =>
      match s.insertRecord choice.1 record table.recordSize with
      | none => ((.error .crash, []), s)
      | some ((rc, _), s) => ((.ok rc, if rc.fail then message "insert failed." else []), s)

/-! ## `load_data` -/

/-- What the loop of `load_data` leaves: `line_num`, `insertion_count`, and the code and `errmsg` of
the line that ended it. -/
structure Loaded where
  lineNum : ℕ
  insertionCount : ℕ
  failed : Option (RC × List UInt8)
deriving DecidableEq

def loadLines : (ℕ → Begin × Unspecified) → List (List UInt8) → ℕ → ℕ → RecordFileHandler →
    Except Failure Loaded × RecordFileHandler
  | _, [], lineNum, insertionCount, s => (.ok ⟨lineNum, insertionCount, none⟩, s)
  | choices, line :: lines, lineNum, insertionCount, s =>
    if isBlankLine line then loadLines choices lines (lineNum + 1) insertionCount s
    else
      match insertRecordFromFile lib getString readFloat table (choices 0) line s with
      | ((.error f, _), s) => (.error f, s)
      | ((.ok rc, errmsg), s) =>
        if rc.fail then (.ok ⟨lineNum + 1, insertionCount, some (rc, errmsg)⟩, s)
        else loadLines (fun k => choices (k + 1)) lines (lineNum + 1) (insertionCount + 1) s

/-- The state that is set at the end; `cost` is the number of seconds. -/
def resultString (cost : List UInt8) (loaded : Loaded) : List UInt8 :=
  match loaded.failed with
  | some (rc, errmsg) =>
    message "Line:" ++ asciiBytes (intText loaded.lineNum) ++ message " insert record failed:" ++
      errmsg ++ message ". error:" ++ message (strrc rc) ++ message "\n"
  | none =>
    message (strrc .success) ++ message ". total " ++ asciiBytes (intText loaded.lineNum) ++
      message " line(s) handled and " ++ asciiBytes (intText loaded.insertionCount) ++
      message " record(s) loaded, total cost " ++ cost ++ message " second(s)\n"

/-- `load_data`: the code and the state of the `SqlResult`. -/
def loadData (fileName sysError cost : List UInt8) (content : Option (List UInt8))
    (choices : ℕ → Begin × Unspecified) (s : RecordFileHandler) :
    Except Failure (RC × List UInt8) × RecordFileHandler :=
  match content with
  | none => (.ok (.fileNotExist, message "Failed to init file: " ++ fileName ++
      message ". system error=" ++ sysError ++ message "\n"), s)
  | some content =>
    match loadLines lib getString readFloat table choices (fileLines content) 0 0 s with
    | (.error f, s) => (.error f, s)
    | (.ok loaded, s) => (.ok (.success, resultString cost loaded), s)

end Load

/-! ## What is loaded -/

def dataLines (lines : List (List UInt8)) : List (List UInt8) :=
  lines.filter fun line => !isBlankLine line

variable {lib : StdLib} {getString : Value → List UInt8}
  {readFloat : List UInt8 → Option UInt32} {table : TableMeta} {s s' : RecordFileHandler}

theorem ne_success_of_readFields {i : ℕ} {fields : List FieldMeta}
    {fileValues : List (List UInt8)} {e : LineError}
    (h : readFields readFloat i fields fileValues = .error e) : e.1 ≠ .code .success := by
  induction fields generalizing i fileValues with
  | nil => cases h
  | cons field fields ih =>
    cases fileValues with
    | nil => cases h
    | cons fileValue fileValues =>
      rw [readFields] at h
      cases hvalue : readField readFloat i field fileValue with
      | error e' =>
        rw [hvalue] at h
        obtain rfl : e' = e := Except.error.inj h
        unfold readField at hvalue
        split at hvalue
        · cases hvalue
          decide
        · split at hvalue <;> try split at hvalue
          all_goals cases hvalue
          all_goals exact fun h => nomatch h
      | ok value =>
        cases hvalues : readFields readFloat (i + 1) fields fileValues with
        | error e' =>
          rw [hvalue, hvalues] at h
          obtain rfl : e' = e := Except.error.inj h
          exact ih hvalues
        | ok values =>
          rw [hvalue, hvalues] at h
          cases h

theorem ne_success_of_lineValues {line : List UInt8} {e : LineError}
    (h : lineValues readFloat table line = .error e) : e.1 ≠ .code .success := by
  unfold lineValues at h
  dsimp only at h
  split_ifs at h
  · cases h
    decide
  · exact ne_success_of_readFields h

theorem insertRecordFromFile_success {choice : Begin × Unspecified} {line errmsg : List UInt8}
    (hlayout : table.Layout) (hsupported : ∀ f ∈ table.columns .vacuous, f.Supported)
    (hcap : 0 < (PageHeader.empty table.recordSize).recordCapacity)
    (h : HoldsTable lib getString table s)
    (heq : insertRecordFromFile lib getString readFloat table choice line s =
      ((.ok .success, errmsg), s')) :
    ∃ values, lineValues readFloat table line = .ok values ∧
      HoldsTable lib getString table s' ∧
      tableRows table s' = tableRows table s + storedRows lib getString table [values] := by
  unfold insertRecordFromFile at heq
  cases hvalues : lineValues readFloat table line with
  | error e =>
    obtain ⟨f, errmsg'⟩ := e
    rw [hvalues] at heq
    cases f with
    | code rc =>
      obtain rfl : rc = .success := Except.ok.inj (congrArg (fun r => r.1.1) heq)
      exact absurd rfl (ne_success_of_lineValues hvalues)
    | _ => cases heq
  | ok values =>
    rw [hvalues] at heq
    dsimp only at heq
    cases hmake : makeRecord lib getString .vacuous table choice.2 values with
    | error f =>
      have hne := ne_success_of_makeRecord hmake
      rw [hmake] at heq
      cases f with
      | code rc =>
        obtain rfl : rc = .success := Except.ok.inj (congrArg (fun r => r.1.1) heq)
        exact absurd rfl hne
      | _ => cases heq
    | ok record =>
      rw [hmake] at heq
      dsimp only at heq
      cases hinsert : s.insertRecord choice.1 record table.recordSize with
      | none =>
        rw [hinsert] at heq
        cases heq
      | some r =>
        obtain ⟨⟨rc, bound⟩, s₁⟩ := r
        rw [hinsert] at heq
        obtain rfl : rc = .success := Except.ok.inj (congrArg (fun r => r.1.1) heq)
        obtain rfl : s₁ = s' := congrArg Prod.snd heq
        obtain ⟨hlength, -, hrow, -⟩ := makeRecord_spec hlayout hsupported hmake
        obtain ⟨rid, hfree, hchanges⟩ := insertRecord_success hcap h.inv hlength hinsert
        refine ⟨values, rfl, ⟨hchanges.inv, ?_⟩, ?_⟩
        · rw [hchanges.records]
          exact records_insert h.isRecord ⟨_, _, hmake⟩
        · rw [tableRows_insert h.inv hfree hchanges, hrow, storedRows, List.map_singleton,
            Multiset.coe_singleton, add_comm, Multiset.singleton_add]

/-- A line that is refused leaves the rows as they were, unless `insert_record` took a free page
that it could not read. -/
theorem insertRecordFromFile_refused {choice : Begin × Unspecified} {line errmsg : List UInt8}
    {rc : RC} (hlayout : table.Layout) (hsupported : ∀ f ∈ table.columns .vacuous, f.Supported)
    (hcap : 0 < (PageHeader.empty table.recordSize).recordCapacity)
    (h : HoldsTable lib getString table s)
    (heq : insertRecordFromFile lib getString readFloat table choice line s =
      ((.ok rc, errmsg), s')) (hrc : rc ≠ .success) (hread : rc ≠ .ioerrRead) :
    tableRows table s' = tableRows table s := by
  unfold insertRecordFromFile at heq
  cases hvalues : lineValues readFloat table line with
  | error e =>
    obtain ⟨f, errmsg'⟩ := e
    rw [hvalues] at heq
    cases f with
    | code rc' =>
      obtain rfl : s = s' := congrArg Prod.snd heq
      rfl
    | _ => cases heq
  | ok values =>
    rw [hvalues] at heq
    dsimp only at heq
    cases hmake : makeRecord lib getString .vacuous table choice.2 values with
    | error f =>
      rw [hmake] at heq
      cases f with
      | code rc' =>
        obtain rfl : s = s' := congrArg Prod.snd heq
        rfl
      | _ => cases heq
    | ok record =>
      rw [hmake] at heq
      dsimp only at heq
      cases hinsert : s.insertRecord choice.1 record table.recordSize with
      | none =>
        rw [hinsert] at heq
        cases heq
      | some r =>
        obtain ⟨⟨rc', bound⟩, s₁⟩ := r
        rw [hinsert] at heq
        obtain rfl : rc' = rc := Except.ok.inj (congrArg (fun r => r.1.1) heq)
        obtain rfl : s₁ = s' := congrArg Prod.snd heq
        obtain ⟨hlength, -⟩ := makeRecord_spec hlayout hsupported hmake
        obtain ⟨hi, hsame⟩ := insertRecord_refused hcap h.inv hlength hinsert hrc hread
        rw [tableRows_eq, tableRows_eq]
        exact contributions_congr h.inv hi hsame.records fun _ _ _ => rfl

/-- How a load ends: behind the last line, or with the call for the line that it reports. -/
inductive LoadEnds (lib : StdLib) (getString : Value → List UInt8)
    (readFloat : List UInt8 → Option UInt32) (table : TableMeta) (lines : List (List UInt8))
    (lineNum count : ℕ) (loaded : Loaded) (s s' : RecordFileHandler) : Prop where
  | done (hfailed : loaded.failed = none) (hcount : (dataLines lines).length = count)
      (hline : loaded.lineNum = lineNum + lines.length) (hs : s' = s)
  | failed (before after : List (List UInt8)) (line errmsg : List UInt8) (rc : RC)
      (choice : Begin × Unspecified) (hlines : lines = before ++ line :: after)
      (hcount : (dataLines before).length = count) (hdata : isBlankLine line = false)
      (hline : loaded.lineNum = lineNum + before.length + 1)
      (hfailed : loaded.failed = some (rc, errmsg)) (hrc : rc ≠ .success)
      (hcall : insertRecordFromFile lib getString readFloat table choice line s =
        ((.ok rc, errmsg), s'))

def ValuesOf (readFloat : List UInt8 → Option UInt32) (table : TableMeta)
    (lines : List (List UInt8)) (values : List (List Value)) : Prop :=
  List.Forall₂ (fun line vs => lineValues readFloat table line = .ok vs) lines values

@[simp] theorem dataLines_cons_of_blank {line : List UInt8} (h : isBlankLine line = true)
    (lines : List (List UInt8)) : dataLines (line :: lines) = dataLines lines := by
  simp [dataLines, h]

@[simp] theorem dataLines_cons_of_data {line : List UInt8} (h : isBlankLine line = false)
    (lines : List (List UInt8)) : dataLines (line :: lines) = line :: dataLines lines := by
  simp [dataLines, h]

/-- The end of a load adds nothing. -/
theorem LoadEnds.rows {lines : List (List UInt8)} {lineNum count : ℕ} {loaded : Loaded}
    (hlayout : table.Layout) (hsupported : ∀ f ∈ table.columns .vacuous, f.Supported)
    (hcap : 0 < (PageHeader.empty table.recordSize).recordCapacity)
    (hholds : HoldsTable lib getString table s)
    (h : LoadEnds lib getString readFloat table lines lineNum count loaded s s')
    (hread : ∀ errmsg, loaded.failed ≠ some (.ioerrRead, errmsg)) :
    tableRows table s' = tableRows table s := by
  cases h with
  | done _ _ _ hs => rw [hs]
  | failed before after line errmsg rc choice _ _ _ _ hfailed hrc hcall =>
    apply insertRecordFromFile_refused hlayout hsupported hcap hholds hcall hrc
    rintro rfl
    exact hread errmsg hfailed

theorem LoadEnds.cons {lines : List (List UInt8)} {lineNum count : ℕ} {loaded : Loaded}
    (h : LoadEnds lib getString readFloat table lines (lineNum + 1) count loaded s s')
    (line : List UInt8) : LoadEnds lib getString readFloat table (line :: lines) lineNum
      (count + if isBlankLine line then 0 else 1) loaded s s' := by
  have hmore : ∀ lines : List (List UInt8), (dataLines (line :: lines)).length =
      (dataLines lines).length + if isBlankLine line then 0 else 1 := by
    intro lines
    cases hblank : isBlankLine line <;> simp [hblank]
  cases h with
  | done hfailed hcount hline hs =>
    apply LoadEnds.done hfailed _ _ hs
    · rw [hmore, hcount]
    · rw [hline, List.length_cons]
      omega
  | failed before after line' errmsg rc choice hlines hcount hdata hline hfailed hrc hcall =>
    apply LoadEnds.failed (line :: before) after line' errmsg rc choice _ _ hdata _ hfailed hrc
      hcall
    · rw [hlines, List.cons_append]
    · rw [hmore, hcount]
    · rw [hline, List.length_cons]
      omega

/-- The loop adds the rows of the lines up to its end, in the order of the file. -/
theorem loadLines_rows {choices : ℕ → Begin × Unspecified} {lines : List (List UInt8)}
    {lineNum insertionCount : ℕ} {loaded : Loaded} (hlayout : table.Layout)
    (hsupported : ∀ f ∈ table.columns .vacuous, f.Supported)
    (hcap : 0 < (PageHeader.empty table.recordSize).recordCapacity)
    (h : HoldsTable lib getString table s)
    (heq : loadLines lib getString readFloat table choices lines lineNum insertionCount s =
      (.ok loaded, s')) :
    ∃ values s₁, loaded.insertionCount = insertionCount + values.length ∧
      ValuesOf readFloat table ((dataLines lines).take values.length) values ∧
      HoldsTable lib getString table s₁ ∧
      tableRows table s₁ = tableRows table s + storedRows lib getString table values ∧
      LoadEnds lib getString readFloat table lines lineNum values.length loaded s₁ s' := by
  -- on the lines that are left
  induction lines generalizing choices lineNum insertionCount s with
  | nil =>
    cases heq
    exact ⟨[], _, rfl, .nil, h, by simp [storedRows], .done rfl rfl rfl rfl⟩
  | cons line lines ih =>
    rw [loadLines] at heq
    cases hblank : isBlankLine line with
    | true =>
      rw [hblank, if_pos rfl] at heq
      obtain ⟨values, s₁, hcount, hvalues, hholds, hrows, hends⟩ := ih h heq
      refine ⟨values, s₁, hcount, ?_, hholds, hrows, ?_⟩
      · rwa [dataLines_cons_of_blank hblank]
      · have hcons := hends.cons line
        rwa [hblank, if_pos rfl, Nat.add_zero] at hcons
    | false =>
      rw [hblank, if_neg Bool.false_ne_true] at heq
      obtain ⟨⟨⟨result, errmsg⟩, s₂⟩, hcall⟩ : ∃ r, insertRecordFromFile lib getString readFloat
        table (choices 0) line s = r := ⟨_, rfl⟩
      rw [hcall] at heq
      cases result with
      | error f => cases heq
      | ok rc =>
        dsimp only at heq
        cases hrc : rc.fail with
        | true =>
          rw [hrc, if_pos rfl] at heq
          cases heq
          refine ⟨[], s, rfl, by simpa using .nil, h, by simp [storedRows], ?_⟩
          have hne : rc ≠ .success := by simpa [RC.fail] using hrc
          exact .failed [] lines line errmsg rc (choices 0) rfl rfl hblank rfl rfl hne hcall
        | false =>
          rw [hrc, if_neg Bool.false_ne_true] at heq
          obtain rfl : rc = .success := by simpa [RC.fail] using hrc
          obtain ⟨vs, hvs, hholds₂, hrows₂⟩ :=
            insertRecordFromFile_success hlayout hsupported hcap h hcall
          obtain ⟨values, s₁, hcount, hvalues, hholds, hrows, hends⟩ := ih hholds₂ heq
          refine ⟨vs :: values, s₁, ?_, ?_, hholds, ?_, ?_⟩
          · rw [hcount, List.length_cons]
            omega
          · rw [dataLines_cons_of_data hblank]
            exact .cons hvs hvalues
          · rw [hrows, hrows₂, add_assoc]
            congr 1
          · have hcons := hends.cons line
            rwa [hblank, if_neg Bool.false_ne_true] at hcons

/-! ## `LOAD DATA` -/

/-- A load of a file adds to the rows of the table those of a prefix of its lines that are not
blank, as many as it counts.  It stops in front of the first line that it reports, which adds
nothing unless it has met a free page that cannot be read; without such a line it has added all of
them. -/
theorem load_adds_rows (lib : StdLib) (getString : Value → List UInt8)
    (readFloat : List UInt8 → Option UInt32) (textPath : List UInt8 → List UInt8) (tableId : Int32)
    (name : String) (attributes : List AttrInfoSqlNode) (table : TableMeta)
    (hinit : TableMeta.init .vacuous tableId name attributes = .ok table)
    (hattrs : ∀ attr ∈ attributes, attr.type ≠ .chars → attr.type ≠ .texts → attr.length = 4)
    (hcap : 0 < (PageHeader.empty table.recordSize).recordCapacity)
    (bp : FileBufferPool RecordPage) (hfile : IsRecordFile table.recordSize bp)
    (hrecords : ∀ rid data, (init bp).2.records rid = some data →
      table.IsRecord lib getString data) (meanings : List RowStatement)
    (hruns : RunsTo lib getString textPath table (init bp).2 meanings s) (content : List UInt8)
    (choices : ℕ → Begin × Unspecified) (loaded : Loaded)
    (hload : loadLines lib getString readFloat table choices (fileLines content) 0 0 s =
      (.ok loaded, s')) :
    ∃ values s₁, loaded.insertionCount = values.length ∧
      ValuesOf readFloat table ((dataLines (fileLines content)).take values.length) values ∧
      tableRows table s₁ = rowsAfter meanings (tableRows table (init bp).2) +
        storedRows lib getString table values ∧
      ((∀ errmsg, loaded.failed ≠ some (.ioerrRead, errmsg)) →
        tableRows table s' = tableRows table s₁) ∧
      LoadEnds lib getString readFloat table (fileLines content) 0 values.length loaded s₁ s' := by
  obtain ⟨hlayout, -, -, -, -, hcolumns⟩ := TableMeta.init_built hinit
  have hsupported := TableMeta.supported_of_forall₂ hcolumns hattrs
  have hstart : HoldsTable lib getString table (init bp).2 := ⟨(inv_init hfile).1, hrecords⟩
  obtain ⟨hholds, hrows⟩ := hruns.rows hlayout hsupported hcap hstart
  obtain ⟨values, s₁, hcount, hvalues, hholds₁, hrows₁, hends⟩ :=
    loadLines_rows hlayout hsupported hcap hholds hload
  rw [Nat.zero_add] at hcount
  exact ⟨values, s₁, hcount, hvalues, by rw [hrows₁, hrows],
    hends.rows hlayout hsupported hcap hholds₁, hends⟩

/-! ### A load that stops -/

section OneColumn

def loadSeven : Except Failure Loaded × RecordFileHandler :=
  loadLines ⟨fun _ => none, fun _ => none, fun _ _ => none, fun _ => []⟩ (fun _ => [])
    (fun _ => none) columnTable
    (fun _ => (lowestBegin, ⟨fun _ => 0#8, fun _ => .replicate 8 0#8, fun _ => []⟩))
    (fileLines [55, 10, 10, 120]) 0 0
    (init (DataFile.created (PageData.cleared : RecordPage)).pool).2

theorem load_adds_rows_seven :
    loadSeven.1 = .ok ⟨3, 1, some (.schemaFieldTypeMismatch,
        message "need an integer but got 'x' (field index:0)")⟩ ∧
      tableRows columnTable loadSeven.2 = {[.ints 7]} := by
  let lib : StdLib := ⟨fun _ => none, fun _ => none, fun _ _ => none, fun _ => []⟩
  have hinit : TableMeta.init .vacuous 0 "t" [⟨"a", .ints, 4, true⟩] = .ok columnTable := by
    decide +kernel
  have hloaded : loadSeven.1 = .ok ⟨3, 1, some (.schemaFieldTypeMismatch,
      message "need an integer but got 'x' (field index:0)")⟩ := by
    decide +kernel
  have hfile := isRecordFile_created 5 (PageData.cleared : RecordPage)
  obtain ⟨values, s₁, hlength, hvalues, hrows, hsame, -⟩ := load_adds_rows lib (fun _ => [])
    (fun _ => none) id 0 "t" _ columnTable hinit (by decide) (by decide) _ hfile
    (isRecord_created lib fun _ => []) [] (.nil _) _ _ _ (Prod.ext hloaded rfl)
  refine ⟨hloaded, ?_⟩
  change 1 = values.length at hlength
  rw [← hlength] at hvalues
  obtain ⟨vs, rest, hvs, hnil, rfl⟩ := List.forall₂_cons_left_iff.mp hvalues
  obtain rfl : vs = [.ints 7] := Except.ok.inj (hvs.symm.trans (by decide +kernel))
  cases hnil
  have hfinal : tableRows columnTable loadSeven.2 = tableRows columnTable s₁ :=
    hsame fun errmsg herror => by cases herror
  rw [hfinal, hrows, tableRows_created]
  rfl

end OneColumn

end TDB.Recorder
