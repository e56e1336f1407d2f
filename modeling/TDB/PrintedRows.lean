import TDB.LoadData

namespace TDB.Recorder

open RecordFileHandler RecordFileScanner
open SessionReply (Cell RowsShown sendRows sendCells)
open Value (asciiBytes intText)

/-! ## Lines of texts -/

/-- The line that the column loop of `send_result` writes for these texts. -/
def lineText (minWidth : ℕ) (first : Bool) : List (List UInt8) → List UInt8
  | [] => []
  | text :: texts => (if first then [] else [32, 124, 32]) ++
      (List.replicate (minWidth - text.length) 32 ++ text) ++ lineText minWidth false texts

/-- What stands between the bars of such a line. -/
def pieces (minWidth : ℕ) (before : List UInt8) : List (List UInt8) → List (List UInt8)
  | [] => []
  | [text] => [before ++ (List.replicate (minWidth - text.length) 32 ++ text)]
  | text :: texts => (before ++ (List.replicate (minWidth - text.length) 32 ++ text) ++ [32]) ::
      pieces minWidth [32] texts

/-- A text that comes back from a line: there is something to it, no byte of it cuts the line or the
file, and it neither begins nor ends with a blank. -/
structure PlainText (text : List UInt8) : Prop where
  noNul : 0 ∉ text
  noBar : 124 ∉ text
  noNewline : 10 ∉ text
  head : ∃ b rest, text = b :: rest ∧ isSpaceByte b = false
  last : ∃ rest b, text = rest ++ [b] ∧ isSpaceByte b = false

theorem strip_of_plain {text before after : List UInt8} (h : PlainText text)
    (hbefore : ∀ b ∈ before, isSpaceByte b = true) (hafter : ∀ b ∈ after, isSpaceByte b = true) :
    strip (before ++ text ++ after) = some text := by
  obtain ⟨b, rest, htext, hb⟩ := h.head
  obtain ⟨rest', b', htext', hb'⟩ := h.last
  have hmem : ¬ (before ++ text ++ after).all isSpaceByte = true := by
    intro hall
    have hspace := List.all_eq_true.mp hall b (by simp [htext])
    rw [hb] at hspace
    cases hspace
  have hdrop : (before ++ text ++ after).dropWhile isSpaceByte = text ++ after := by
    rw [List.append_assoc, List.dropWhile_append_of_pos hbefore, htext, List.cons_append,
      List.dropWhile_cons_of_neg (by simp [hb])]
  have hreverse : (text ++ after).rdropWhile isSpaceByte = text := by
    rw [List.rdropWhile, List.reverse_append, List.dropWhile_append_of_pos
      (fun c hc => hafter c (List.mem_reverse.mp hc)), htext', List.reverse_append,
      List.reverse_singleton, List.singleton_append, List.dropWhile_cons_of_neg (by simp [hb']),
      List.reverse_cons, List.reverse_reverse]
  rw [strip, if_neg hmem, hdrop, hreverse]

theorem lineText_eq_intercalate (minWidth : ℕ) (before text : List UInt8)
    (texts : List (List UInt8)) :
    before ++ (List.replicate (minWidth - text.length) 32 ++ text) ++
        lineText minWidth false texts =
      [124].intercalate (pieces minWidth before (text :: texts)) := by
  induction texts generalizing before text with
  | nil => simp [lineText, pieces, List.intercalate]
  | cons text' texts ih =>
    have hrest := ih [32] text'
    obtain ⟨piece, rest, hpieces⟩ : ∃ piece rest,
        pieces minWidth [32] (text' :: texts) = piece :: rest := by
      cases texts <;> exact ⟨_, _, rfl⟩
    rw [pieces, hpieces, List.intercalate_cons_cons, ← hpieces, ← hrest]
    · simp [lineText]
    · intro h
      cases h

/-- A piece is the text between blanks. -/
def Padded (text piece : List UInt8) : Prop :=
  ∃ left right, piece = left ++ text ++ right ∧ (∀ b ∈ left, b = 32) ∧ ∀ b ∈ right, b = 32

theorem padded_pieces (minWidth : ℕ) (before : List UInt8) (hbefore : ∀ b ∈ before, b = 32)
    (texts : List (List UInt8)) : List.Forall₂ Padded texts (pieces minWidth before texts) := by
  have hleft : ∀ before : List UInt8, (∀ b ∈ before, b = 32) → ∀ n : ℕ,
      ∀ b ∈ before ++ List.replicate n (32 : UInt8), b = 32 := by
    intro before hbefore n b hb
    rcases List.mem_append.mp hb with hb | hb
    · exact hbefore b hb
    · exact List.eq_of_mem_replicate hb
  fun_induction pieces minWidth before texts with
  | case1 => exact .nil
  | case2 before text =>
    apply List.Forall₂.cons _ .nil
    exact ⟨_, [], by simp, hleft before hbefore (minWidth - text.length), by simp⟩
  | case3 before text texts hne ih =>
    apply List.Forall₂.cons _ (ih (by simp))
    exact ⟨_, [32], by simp, hleft before hbefore (minWidth - text.length), by simp⟩

theorem Padded.mem_iff {text piece : List UInt8} (h : Padded text piece) {b : UInt8} (hb : b ≠ 32) :
    b ∈ piece ↔ b ∈ text := by
  obtain ⟨left, right, rfl, hleft, hright⟩ := h
  have hl : b ∉ left := fun hmem => hb (hleft b hmem)
  have hr : b ∉ right := fun hmem => hb (hright b hmem)
  simp [hl, hr]

theorem Padded.strip {text piece : List UInt8} (h : Padded text piece) (hplain : PlainText text) :
    Recorder.strip piece = some text := by
  obtain ⟨left, right, rfl, hleft, hright⟩ := h
  apply strip_of_plain hplain
  · intro b hb
    rw [hleft b hb]
    rfl
  · intro b hb
    rw [hright b hb]
    rfl

theorem splitString_lineText {minWidth : ℕ} {texts : List (List UInt8)} (hne : texts ≠ [])
    (hplain : ∀ text ∈ texts, PlainText text) :
    splitString 124 (lineText minWidth true texts) = pieces minWidth [] texts := by
  cases texts with
  | nil => exact absurd rfl hne
  | cons text texts =>
    have hpadded := padded_pieces minWidth [] (by simp) (text :: texts)
    have hline : lineText minWidth true (text :: texts) =
        [124].intercalate (pieces minWidth [] (text :: texts)) := by
      rw [← lineText_eq_intercalate]
      simp [lineText]
    have hpiece : ∀ piece ∈ pieces minWidth [] (text :: texts), 124 ∉ piece ∧ piece ≠ [] := by
      intro piece hmem
      obtain ⟨i, hi, rfl⟩ := List.getElem_of_mem hmem
      have hlength := hpadded.length_eq
      have hpad := hpadded.get (hlength ▸ hi) hi
      have htext := hplain _ (List.get_mem (text :: texts) ⟨i, hlength ▸ hi⟩)
      constructor
      · exact fun hbar => htext.noBar ((hpad.mem_iff (by decide)).mp hbar)
      · intro hnil
        have hstrip := hpad.strip htext
        rw [List.get_eq_getElem, hnil] at hstrip
        cases hstrip
    rw [hline, splitString, List.splitOn_intercalate]
    · exact List.filter_eq_self.mpr fun piece h => by simpa using (hpiece piece h).2
    · exact fun piece h => (hpiece piece h).1
    · cases texts <;> simp [pieces]


/-- The bytes of a line are those of its texts, blanks and bars. -/
theorem mem_lineText {minWidth : ℕ} {first : Bool} {texts : List (List UInt8)} {b : UInt8}
    (h : b ∈ lineText minWidth first texts) : b = 32 ∨ b = 124 ∨ ∃ text ∈ texts, b ∈ text := by
  induction texts generalizing first with
  | nil => cases h
  | cons text texts ih =>
    rw [lineText, List.mem_append, List.mem_append, List.mem_append, List.mem_replicate] at h
    rcases h with (h | ⟨-, h⟩ | h) | h
    · split_ifs at h
      · cases h
      · simp only [List.mem_cons, List.not_mem_nil, or_false] at h
        rcases h with h | h | h
        · exact .inl h
        · exact .inr (.inl h)
        · exact .inl h
    · exact .inl h
    · exact .inr (.inr ⟨text, List.mem_cons_self, h⟩)
    · rcases ih h with h | h | ⟨text', htext', h⟩
      · exact .inl h
      · exact .inr (.inl h)
      · exact .inr (.inr ⟨text', List.mem_cons_of_mem _ htext', h⟩)

theorem mem_lineText_of_mem {minWidth : ℕ} {first : Bool} {texts : List (List UInt8)}
    {text : List UInt8} {b : UInt8} (htext : text ∈ texts) (hb : b ∈ text) :
    b ∈ lineText minWidth first texts := by
  induction texts generalizing first with
  | nil => cases htext
  | cons text' texts ih =>
    rw [lineText]
    rcases List.mem_cons.mp htext with rfl | htext
    · simp [hb]
    · simp [ih htext]

theorem isBlankLine_lineText {minWidth : ℕ} {texts : List (List UInt8)} (hne : texts ≠ [])
    (hplain : ∀ text ∈ texts, PlainText text) :
    isBlankLine (lineText minWidth true texts) = false := by
  obtain ⟨text, htext⟩ := List.exists_mem_of_ne_nil texts hne
  obtain ⟨b, rest, hbytes, hb⟩ := (hplain text htext).head
  have hnul : cString (lineText minWidth true texts) = lineText minWidth true texts := by
    apply List.takeWhile_eq_self_iff.mpr
    intro c hc
    apply decide_eq_true
    rcases mem_lineText hc with rfl | rfl | ⟨text', htext', hc⟩
    · decide
    · decide
    · exact fun hzero => (hplain text' htext').noNul (hzero ▸ hc)
  unfold isBlankLine
  rw [hnul, List.all_eq_false]
  exact ⟨b, mem_lineText_of_mem htext (by simp [hbytes]), by simp [hb]⟩

/-! ## Values as they are shown -/

/-- A value that its column takes back from its text. -/
def Loadable (field : FieldMeta) : Value → Prop
  | .ints _ => field.type = .ints
  | .chars str => field.type = .chars ∧ PlainText str ∧ str.length ≤ field.len
  | _ => False

/-- The cell that the output finds for a value. -/
structure Shows (floatText : UInt32 → List UInt8) (value : Value) (c : Cell) : Prop where
  cellAt : c.cellAt = .success
  toText : c.toText = .success
  text : c.text.bytes = bytesOfChars (value.toText floatText)

variable {lib : StdLib} {getString : Value → List UInt8} {floatText : UInt32 → List UInt8}
  {readFloat : List UInt8 → Option UInt32} {table : TableMeta} {s s' : RecordFileHandler}

theorem plain_of_digits {text : List UInt8} (hne : text ≠ [])
    (h : ∀ b ∈ text, b = 45 ∨ 48 ≤ b ∧ b ≤ 57) : PlainText text := by
  have hspace : ∀ b ∈ text, isSpaceByte b = false := by
    intro b hb
    have hb' := h b hb
    unfold isSpaceByte
    rw [Bool.or_eq_false_iff, Bool.and_eq_false_iff, beq_eq_false_iff_ne]
    constructor
    · rintro rfl
      revert hb'
      decide
    · right
      rw [decide_eq_false_iff_not, UInt8.not_le]
      rcases hb' with rfl | ⟨hb', -⟩
      · decide
      · exact UInt8.lt_of_lt_of_le (by decide) hb'
  have hnot : ∀ b : UInt8, ¬ (b = 45 ∨ 48 ≤ b ∧ b ≤ 57) → b ∉ text := by
    intro b hb hmem
    exact hb (h b hmem)
  constructor
  case noNul => exact hnot 0 (by decide)
  case noBar => exact hnot 124 (by decide)
  case noNewline => exact hnot 10 (by decide)
  case head =>
    obtain ⟨b, rest, htext⟩ := List.exists_cons_of_ne_nil hne
    exact ⟨b, rest, htext, hspace b (by simp [htext])⟩
  case last =>
    have htext := List.dropLast_append_getLast hne
    exact ⟨_, _, htext.symm, hspace _ (List.getLast_mem hne)⟩

theorem plain_intText (v : Int32) : PlainText (asciiBytes (intText v.toInt)) := by
  apply plain_of_digits
  · unfold intText asciiBytes
    split_ifs <;> simp
  · intro b hb
    obtain ⟨c, hc, rfl⟩ := List.mem_map.mp hb
    rcases Value.mem_intText hc with rfl | hdigit
    · exact .inl rfl
    · right
      obtain ⟨hlow, hhigh⟩ := Value.Char.lt_of_isDigit hdigit
      rw [UInt8.le_iff_toNat_le, UInt8.le_iff_toNat_le, UInt8.toNat_ofNat']
      simp only [UInt8.toNat_ofNat]
      omega

theorem Loadable.plain {field : FieldMeta} {value : Value} (h : Loadable field value) :
    PlainText (value.toText floatText) := by
  cases value with
  | ints v => exact plain_intText v
  | chars str => exact h.2.1
  | _ => exact h.elim

theorem cString_of_plain {text : List UInt8} (h : PlainText text) : cString text = text := by
  apply List.takeWhile_eq_self_iff.mpr
  intro b hb
  exact decide_eq_true fun hzero => h.noNul (hzero ▸ hb)

theorem readField_padded {i : ℕ} {field : FieldMeta} {value : Value} {piece : List UInt8}
    (h : Loadable field value) (hpadded : Padded (value.toText floatText) piece) :
    readField readFloat i field piece = .ok value := by
  have hstrip := hpadded.strip h.plain
  unfold readField
  rw [hstrip]
  cases value with
  | ints v =>
    have htype : field.type = .ints := h
    rw [htype]
    dsimp only
    rw [show Value.toText floatText (.ints v) = asciiBytes (intText v.toInt) from rfl,
      Value.extractInt_intText]
  | chars str =>
    obtain ⟨htype, hplain, -⟩ := h
    rw [htype]
    change Except.ok (Value.chars (cString str)) = _
    rw [cString_of_plain hplain]
  | _ => exact h.elim

theorem readFields_padded {i : ℕ} {fields : List FieldMeta} {row : List Value}
    {fileValues : List (List UInt8)} (h : List.Forall₂ Loadable fields row)
    (hpadded : List.Forall₂ Padded (row.map (Value.toText floatText)) fileValues) :
    readFields readFloat i fields fileValues = .ok row := by
  induction h generalizing i fileValues with
  | nil =>
    cases hpadded
    rfl
  | cons hvalue hrest ih =>
    cases hpadded with
    | cons hpiece hpieces =>
      rw [readFields, readField_padded hvalue hpiece, ih hpieces]
      rfl

theorem forall_plain {fields : List FieldMeta} {row : List Value}
    (h : List.Forall₂ Loadable fields row) :
    ∀ text ∈ row.map (Value.toText floatText), PlainText text := by
  induction h with
  | nil => exact fun text htext => nomatch htext
  | cons hvalue hrest ih =>
    rw [List.map_cons]
    exact List.forall_mem_cons.mpr ⟨hvalue.plain, ih⟩

theorem lineValues_lineText {minWidth : ℕ} {row : List Value} (hne : row ≠ [])
    (h : List.Forall₂ Loadable (table.columns .vacuous) row) :
    lineValues readFloat table (lineText minWidth true (row.map (Value.toText floatText))) =
      .ok row := by
  have hne' : row.map (Value.toText floatText) ≠ [] := by simpa using hne
  have hpadded := padded_pieces minWidth [] (by simp)
    (row.map (Value.toText floatText))
  have hlength : (pieces minWidth [] (row.map (Value.toText floatText))).length =
      (table.columns .vacuous).length := by
    rw [← hpadded.length_eq, List.length_map, h.length_eq]
  unfold lineValues
  dsimp only
  rw [splitString_lineText hne' (forall_plain h), hlength, if_neg (lt_irrefl _)]
  exact readFields_padded h hpadded

/-! ## The rows of a reply -/

theorem sendCells_shows (minWidth : ℕ) (first : Bool) {row : List Value} {cells : List Cell}
    (h : List.Forall₂ (Shows floatText) row cells) :
    charsOf (sendCells minWidth first cells).1 =
        lineText minWidth first (row.map (Value.toText floatText)) ∧
      (sendCells minWidth first cells).2 = .success := by
  induction h generalizing first with
  | nil => exact ⟨rfl, rfl⟩
  | @cons value c row cells hcell hrest ih =>
    obtain ⟨hbytes, hrc⟩ := ih false
    have hdelim : charsOf SessionReply.delim = [32, 124, 32] := by decide
    have hwidth : charsOf (SessionReply.writeToCommunicator minWidth c.text) =
        List.replicate (minWidth - (value.toText floatText).length) 32 ++
          value.toText floatText := by
      have hlength : c.text.bytes.length = (value.toText floatText).length := by
        rw [hcell.text, bytesOfChars, List.length_map]
      rw [SessionReply.writeToCommunicator, hlength, charsOf, List.map_append,
        List.map_replicate, hcell.text]
      exact congrArg _ (charsOf_bytesOfChars _)
    unfold charsOf at hbytes hdelim hwidth
    rw [List.map_cons, lineText, sendCells]
    simp only [hcell.cellAt, hcell.toText, ne_eq, not_true_eq_false, if_false, charsOf,
      List.map_append, hwidth, hbytes, hrc, and_true]
    cases first
    · simp [hdelim]
    · simp

theorem fileLines_sendRows (table : TableMeta) (minWidth : ℕ) {rows : List (List Value)}
    {cells : List (List Cell)}
    (hload : ∀ row ∈ rows, List.Forall₂ Loadable (table.columns .vacuous) row)
    (h : List.Forall₂ (List.Forall₂ (Shows floatText)) rows cells) :
    fileLines (charsOf (sendRows minWidth cells).1) =
      (rows.map fun row => lineText minWidth true (row.map (Value.toText floatText))) ++ [[]] := by
  induction h with
  | nil => rfl
  | @cons row cs rows cells hrow hrest ih =>
    obtain ⟨hbytes, hrc⟩ := sendCells_shows minWidth true hrow
    have hline : 10 ∉ lineText minWidth true (row.map (Value.toText floatText)) := by
      intro hmem
      rcases mem_lineText hmem with h | h | ⟨text, htext, hb⟩
      · cases h
      · cases h
      · exact (forall_plain (hload row List.mem_cons_self) text htext).noNewline hb
    have hsplit : charsOf (sendRows minWidth (cs :: cells)).1 =
        lineText minWidth true (row.map (Value.toText floatText)) ++
          10 :: charsOf (sendRows minWidth cells).1 := by
      rw [← hbytes, sendRows]
      simp only [hrc, RC.fail, bne_self_eq_false, Bool.false_eq_true, if_false]
      simp [charsOf, SessionReply.newLine, SessionReply.ascii]
    rw [hsplit, fileLines, List.splitOn_append_cons_self_of_not_mem hline]
    exact congrArg _ (ih fun row hmem => hload row (List.mem_cons_of_mem _ hmem))

def rowLine (minWidth : ℕ) (floatText : UInt32 → List UInt8) (row : List Value) : List UInt8 :=
  lineText minWidth true (row.map (Value.toText floatText))

theorem dataLines_append (lines lines' : List (List UInt8)) :
    dataLines (lines ++ lines') = dataLines lines ++ dataLines lines' :=
  List.filter_append ..

theorem dataLines_rowLines (minWidth : ℕ) (floatText : UInt32 → List UInt8)
    {rows : List (List Value)} (hcolumns : table.columns .vacuous ≠ [])
    (h : ∀ row ∈ rows, List.Forall₂ Loadable (table.columns .vacuous) row) :
    dataLines (rows.map (rowLine minWidth floatText) ++ [[]]) =
      rows.map (rowLine minWidth floatText) := by
  rw [dataLines_append, show dataLines [[]] = [] from rfl, List.append_nil, dataLines,
    List.filter_eq_self]
  intro line hline
  obtain ⟨row, hrow, rfl⟩ := List.mem_map.mp hline
  have hne : row.map (Value.toText floatText) ≠ [] := by
    rw [ne_eq, List.map_eq_nil_iff]
    rintro rfl
    exact hcolumns (List.forall₂_nil_right_iff.mp (h [] hrow))
  rw [rowLine, isBlankLine_lineText hne (forall_plain (h row hrow))]
  rfl

theorem Loadable.storable {field : FieldMeta} {value : Value} (h : Loadable field value) :
    Storable field value := by
  cases value with
  | ints v =>
    right
    have htype : field.type = .ints := h
    rw [htype]
    exact ⟨rfl, rfl⟩
  | chars str =>
    right
    rw [h.1]
    exact ⟨rfl, rfl⟩
  | _ => exact h.elim

theorem Loadable.storedValue {field : FieldMeta} {value : Value} (h : Loadable field value) :
    Recorder.storedValue lib getString field value = value := by
  cases value with
  | ints v =>
    have htype : (Value.ints v).attrType = field.type := h.symm
    rw [storedValue_eq_readBack (.inr htype)]
    · rfl
    · rintro text (h | h) <;> cases h
  | chars str =>
    obtain ⟨hfield, hplain, hlength⟩ := h
    have htype : (Value.chars str).attrType = field.type := hfield.symm
    rw [storedValue_eq_readBack (.inr htype), readBack, List.take_of_length_le hlength]
    rintro text (h | h) <;> cases h
    exact hplain.noNul
  | _ => exact h.elim

theorem storedRows_eq {rows : List (List Value)}
    (h : ∀ row ∈ rows, List.Forall₂ Loadable (table.columns .vacuous) row) :
    storedRows lib getString table rows = (rows : Multiset (List Value)) := by
  have hrow : ∀ {fields row}, List.Forall₂ Loadable fields row →
      List.zipWith (Recorder.storedValue lib getString) fields row = row := by
    intro fields row hrow
    induction hrow with
    | nil => rfl
    | cons hvalue hrest ih => rw [List.zipWith_cons_cons, hvalue.storedValue, ih]
  unfold storedRows
  rw [List.map_congr_left fun row hmem => hrow (h row hmem), List.map_id']

theorem ValuesOf.eq_rows {minWidth : ℕ} {rows values : List (List Value)}
    (hcolumns : table.columns .vacuous ≠ [])
    (h : ∀ row ∈ rows, List.Forall₂ Loadable (table.columns .vacuous) row)
    (hvalues : ValuesOf readFloat table (rows.map (rowLine minWidth floatText)) values) :
    values = rows := by
  unfold ValuesOf at hvalues
  rw [List.forall₂_map_left_iff] at hvalues
  induction hvalues with
  | nil => rfl
  | @cons row vs rows values hvs hrest ih =>
    have hne : row ≠ [] := by
      rintro rfl
      exact hcolumns (List.forall₂_nil_right_iff.mp (h [] List.mem_cons_self))
    rw [rowLine, lineValues_lineText hne (h row List.mem_cons_self)] at hvs
    rw [Except.ok.inj hvs, ih fun row hmem => h row (List.mem_cons_of_mem _ hmem)]

/-- Once the rows of a `SELECT` have been sent, a load of what stands below the header into a table
with such columns adds these very rows, up to the first one that `insert_record` refuses. -/
theorem printed_rows_load_back (lib : StdLib) (getString : Value → List UInt8)
    (floatText : UInt32 → List UInt8) (readFloat : List UInt8 → Option UInt32)
    (textPath : List UInt8 → List UInt8) (tableId : Int32) (name : String)
    (attributes : List AttrInfoSqlNode) (table : TableMeta)
    (hinit : TableMeta.init .vacuous tableId name attributes = .ok table)
    (hattrs : ∀ attr ∈ attributes, attr.type ≠ .chars → attr.type ≠ .texts → attr.length = 4)
    (hcap : 0 < (PageHeader.empty table.recordSize).recordCapacity)
    (bp : FileBufferPool RecordPage) (hfile : IsRecordFile table.recordSize bp)
    (hrecords : ∀ rid data, (init bp).2.records rid = some data →
      table.IsRecord lib getString data) (meanings : List RowStatement)
    (hruns : RunsTo lib getString textPath table (init bp).2 meanings s)
    (minWidth : ℕ) (rows : List (List Value)) (cells : List (List Cell))
    (hloadable : ∀ row ∈ rows, List.Forall₂ Loadable (table.columns .vacuous) row)
    (hshown : List.Forall₂ (List.Forall₂ (Shows floatText)) rows cells)
    (choices : ℕ → Begin × Unspecified) (loaded : Loaded)
    (hload : loadLines lib getString readFloat table choices
      (fileLines (charsOf (sendRows minWidth cells).1)) 0 0 s = (.ok loaded, s')) :
    ∃ s₁, tableRows table s₁ = rowsAfter meanings (tableRows table (init bp).2) +
        (rows.take loaded.insertionCount : List (List Value)) ∧
      ((∀ errmsg, loaded.failed ≠ some (.ioerrRead, errmsg)) →
        tableRows table s' = tableRows table s₁) ∧
      (loaded.failed = none ∧ loaded.insertionCount = rows.length ∧ s' = s₁ ∨
        ∃ rc bound choice record, loaded.failed = some (rc, message "insert failed.") ∧
          loaded.insertionCount < rows.length ∧
          s₁.insertRecord choice record table.recordSize = some ((rc, bound), s')) := by
  obtain ⟨hlayout, -, -, -, hfields, hbuilt⟩ := TableMeta.init_built hinit
  have hsupported := TableMeta.supported_of_forall₂ hbuilt hattrs
  have hcolumns : table.columns .vacuous ≠ [] := by
    intro hnil
    rw [hnil] at hbuilt
    obtain rfl := List.forall₂_nil_left_iff.mp hbuilt
    simp [TableMeta.init] at hinit
  have hstart : HoldsTable lib getString table (init bp).2 := ⟨(inv_init hfile).1, hrecords⟩
  obtain ⟨hholds, hrows⟩ := hruns.rows hlayout hsupported hcap hstart
  have hlines := fileLines_sendRows table minWidth hloadable hshown
  change _ = rows.map (rowLine minWidth floatText) ++ [[]] at hlines
  have hdata := dataLines_rowLines minWidth floatText hcolumns hloadable
  rw [hlines] at hload
  obtain ⟨values, s₁, hcount, hvalues, hholds₁, hrows₁, hends⟩ :=
    loadLines_rows hlayout hsupported hcap hholds hload
  rw [Nat.zero_add] at hcount
  have htake : ∀ row ∈ rows.take values.length,
      List.Forall₂ Loadable (table.columns .vacuous) row :=
    fun row hmem => hloadable row (List.mem_of_mem_take hmem)
  rw [hdata, ← List.map_take] at hvalues
  have heq : values = rows.take values.length := hvalues.eq_rows hcolumns htake
  refine ⟨s₁, ?_, hends.rows hlayout hsupported hcap hholds₁, ?_⟩
  · rw [hrows₁, hrows, hcount, ← heq, storedRows_eq (heq ▸ htake)]
  · rw [hcount]
    cases hends with
    | done hfailed hlength hline hs =>
      left
      rw [hdata, List.length_map] at hlength
      exact ⟨hfailed, hlength.symm, hs⟩
    | failed before after line errmsg rc choice hsplit hlength hnotBlank hline hfailed hrc hcall =>
      right
      have hall : dataLines before ++ line :: dataLines after =
          rows.map (rowLine minWidth floatText) := by
        rw [← hdata, hsplit, dataLines_append, dataLines_cons_of_data hnotBlank]
      obtain ⟨row, hrow, rfl⟩ : ∃ row ∈ rows, rowLine minWidth floatText row = line := by
        apply List.mem_map.mp
        rw [← hall]
        simp
      have hless : values.length < rows.length := by
        have hlen := congrArg List.length hall
        rw [List.length_append, List.length_cons, List.length_map] at hlen
        omega
      have hcolumns' := hloadable row hrow
      have hne : row ≠ [] := by
        rintro rfl
        exact hcolumns (List.forall₂_nil_right_iff.mp hcolumns')
      have hstorable := hcolumns'.imp fun field value => Loadable.storable
      have hsys : TrxType.vacuous.sysFieldNum < table.fields.length := by
        rw [hfields, List.length_append, List.length_singleton]
        exact Nat.succ_pos _
      obtain ⟨record, hrecord⟩ := @makeRecord_ok lib getString table .vacuous row hsys hstorable
        choice.2
      unfold insertRecordFromFile at hcall
      rw [rowLine, lineValues_lineText hne hcolumns'] at hcall
      dsimp only at hcall
      rw [hrecord] at hcall
      dsimp only at hcall
      cases hinsert : s₁.insertRecord choice.1 record table.recordSize with
      | none =>
        rw [hinsert] at hcall
        cases hcall
      | some r =>
        obtain ⟨⟨rc', bound⟩, s₂⟩ := r
        rw [hinsert] at hcall
        obtain rfl : rc' = rc := Except.ok.inj (congrArg (fun r => r.1.1) hcall)
        obtain rfl : s₂ = s' := congrArg Prod.snd hcall
        have hfail : rc'.fail = true := by simpa [RC.fail] using hrc
        have hmessage : message "insert failed." = errmsg := by
          have hmessage := congrArg (fun r => r.1.2) hcall
          dsimp only at hmessage
          rwa [hfail, if_pos rfl] at hmessage
        exact ⟨rc', bound, choice.1, record, hmessage ▸ hfailed, hless, hinsert⟩

/-! ### A row of one column -/

section OneColumn

def sevenCell : Cell := ⟨.success, .success, ⟨[55#8], by decide⟩⟩

def loadPrinted : Except Failure Loaded × RecordFileHandler :=
  loadLines ⟨fun _ => none, fun _ => none, fun _ _ => none, fun _ => []⟩ (fun _ => [])
    (fun _ => none) columnTable
    (fun _ => (lowestBegin, ⟨fun _ => 0#8, fun _ => .replicate 8 0#8, fun _ => []⟩))
    (fileLines (charsOf (sendRows 3 [[sevenCell]]).1)) 0 0
    (init (DataFile.created (PageData.cleared : RecordPage)).pool).2

theorem printed_rows_load_back_seven :
    loadPrinted.1 = .ok ⟨2, 1, none⟩ ∧ tableRows columnTable loadPrinted.2 = {[.ints 7]} := by
  let lib : StdLib := ⟨fun _ => none, fun _ => none, fun _ _ => none, fun _ => []⟩
  have hinit : TableMeta.init .vacuous 0 "t" [⟨"a", .ints, 4, true⟩] = .ok columnTable := by
    decide +kernel
  have hloaded : loadPrinted.1 = .ok ⟨2, 1, none⟩ := by decide +kernel
  have hfile := isRecordFile_created 5 (PageData.cleared : RecordPage)
  have hcells : List.Forall₂ (List.Forall₂ (Shows fun _ => [])) [[.ints 7]] [[sevenCell]] :=
    .cons (.cons ⟨rfl, rfl, by decide +kernel⟩ .nil) .nil
  have hloadable : ∀ row ∈ [[Value.ints 7]],
      List.Forall₂ Loadable (columnTable.columns .vacuous) row := by
    intro row hrow
    obtain rfl := List.mem_singleton.mp hrow
    exact .cons rfl .nil
  obtain ⟨s₁, hrows, hsame, -⟩ := printed_rows_load_back lib (fun _ => []) (fun _ => []) (fun _ => none)
    id 0 "t" _ columnTable hinit (by decide) (by decide) _ hfile (isRecord_created lib fun _ => [])
    [] (.nil _) 3 _ _ hloadable hcells _ _ (Prod.ext hloaded rfl)
  refine ⟨hloaded, ?_⟩
  have hfinal : tableRows columnTable loadPrinted.2 = tableRows columnTable s₁ :=
    hsame fun errmsg herror => by cases herror
  rw [hfinal, hrows, tableRows_created]
  rfl

end OneColumn

end TDB.Recorder
