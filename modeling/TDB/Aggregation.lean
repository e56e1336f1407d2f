import Mathlib.Data.List.Induction
import TDB.QueryRun

namespace TDB

variable {lib : StdLib} {unit : AggrUnit Tuple} {units : List (AggrUnit Tuple)}

/-! ## The loop over the rows -/

namespace AggrUnit

/-- The value of the aggregate's field in a row, unless it is `NULL`; `*` has none. -/
def value? (unit : AggrUnit Tuple) (row : Tuple) : Option Value :=
  (unit.field.bind fun findCell => (findCell row).toOption).filter fun value => !value.isNull

def values (unit : AggrUnit Tuple) (rows : List Tuple) : List Value :=
  rows.filterMap unit.value?

def counted (unit : AggrUnit Tuple) (rows : List Tuple) : ℕ :=
  if unit.field.isNone then rows.length else (unit.values rows).length

def cellAfter (lib : StdLib) (unit : AggrUnit Tuple) (rows : List Tuple) : AggrCell where
  count := Int32.ofNat (unit.counted rows)
  allNull := unit.counted rows = 0
  result := some ((unit.values rows).foldl (aggrUpdate lib unit.aggrType) .nulls)

def result (lib : StdLib) (unit : AggrUnit Tuple) (rows : List Tuple) : Value :=
  (aggrDone lib unit (unit.cellAfter lib rows)).getD .nulls

def Finds (unit : AggrUnit Tuple) (row : Tuple) : Prop :=
  ∀ findCell, unit.field = some findCell → ∃ value, findCell row = .ok value

variable {row : Tuple} {rows : List Tuple}

theorem not_isNull_of_mem {value : Value} (h : value ∈ unit.values rows) :
    value.isNull = false := by
  obtain ⟨row, -, hvalue⟩ := List.mem_filterMap.1 h
  simpa using (Option.filter_eq_some_iff.1 hvalue).2

theorem values_append (rows rows' : List Tuple) :
    unit.values (rows ++ rows') = unit.values rows ++ unit.values rows' :=
  List.filterMap_append

theorem cellAfter_star (hfield : unit.field = none) :
    unit.cellAfter lib (rows ++ [row]) =
      { unit.cellAfter lib rows with
        allNull := false, count := (unit.cellAfter lib rows).count + 1 } := by
  have hrow : unit.values [row] = [] := by simp [values, value?, hfield]
  have hcounted : unit.counted (rows ++ [row]) = unit.counted rows + 1 := by
    simp [counted, hfield]
  simp only [cellAfter, hcounted, values_append, hrow, List.append_nil, Int32.ofNat_add]
  simp

theorem cellAfter_null {findCell : Tuple → Except Failure Value} {value : Value}
    (hfield : unit.field = some findCell) (hvalue : findCell row = .ok value)
    (hnull : value.isNull = true) :
    unit.cellAfter lib (rows ++ [row]) = unit.cellAfter lib rows := by
  have hrow : unit.values [row] = [] := by
    simp [values, value?, hfield, hvalue, Except.toOption, hnull]
  have hcounted : unit.counted (rows ++ [row]) = unit.counted rows := by
    simp [counted, hfield, values_append, hrow]
  simp only [cellAfter, hcounted, values_append, hrow, List.append_nil]

theorem cellAfter_value {findCell : Tuple → Except Failure Value} {value : Value}
    (hfield : unit.field = some findCell) (hvalue : findCell row = .ok value)
    (hnull : value.isNull = false) :
    unit.cellAfter lib (rows ++ [row]) =
      { count := (unit.cellAfter lib rows).count + 1, allNull := false,
        result := (unit.cellAfter lib rows).result.map fun result =>
          aggrUpdate lib unit.aggrType result value } := by
  have hcell : unit.value? row = some value := by
    simp [value?, hfield, hvalue, Except.toOption, Option.filter, hnull]
  have hrow : unit.values [row] = [value] := by simp [values, hcell]
  have hcounted : unit.counted (rows ++ [row]) = unit.counted rows + 1 := by
    simp [counted, hfield, values_append, hrow]
  simp only [cellAfter, hcounted, values_append, hrow, Int32.ofNat_add, List.foldl_append]
  simp

end AggrUnit

theorem aggrFields_cellAfter (lib : StdLib) {row : Tuple} (rows : List Tuple)
    (hfinds : ∀ unit ∈ units, unit.Finds row) :
    aggrFields lib row units (units.map fun unit => unit.cellAfter lib rows) =
      (none, units.map fun unit => unit.cellAfter lib (rows ++ [row])) := by
  induction units with
  | nil => rfl
  | cons unit units ih =>
    have htail := ih fun unit' hmem => hfinds unit' (List.mem_cons_of_mem unit hmem)
    simp only [List.map_cons, aggrFields, htail]
    cases hfield : unit.field with
    | none => simp only [AggrUnit.cellAfter_star hfield]
    | some findCell =>
      obtain ⟨value, hvalue⟩ := hfinds unit List.mem_cons_self findCell hfield
      cases hnull : value.isNull with
      | true => simp [hvalue, hnull, AggrUnit.cellAfter_null hfield hvalue hnull]
      | false =>
        simp only [hvalue, hnull, AggrUnit.cellAfter_value hfield hvalue hnull]
        simp [AggrUnit.cellAfter]

theorem aggrRow_cellAfter (rows : List Tuple) :
    aggrRow lib units (units.map fun unit => unit.cellAfter lib rows) =
      .row (aggrTuple units (units.map fun unit => unit.result lib rows))
        (aggrTuple units (units.map fun unit => unit.result lib rows)) := by
  have hresults : (units.zip (units.map fun unit => unit.cellAfter lib rows)).mapM
      (fun p => aggrDone lib p.1 p.2) = some (units.map fun unit => unit.result lib rows) := by
    induction units with
    | nil => rfl
    | cons unit units ih =>
      have hdone : aggrDone lib unit (unit.cellAfter lib rows) = some (unit.result lib rows) := rfl
      rw [List.map_cons, List.zip_cons_cons, List.mapM_cons]
      simp only [hdone, ih]
      rfl
  rw [aggrRow]
  split
  · next results h =>
    obtain rfl := Option.some.inj (hresults.symm.trans h)
    rfl
  · next h => cases hresults.symm.trans h

/-- All calls of `next` over rows that are read without a failure: one row, then `RECORD_EOF`. -/
theorem aggrEvents_rows {rows : List (Tuple × Tuple)} (before : List Tuple)
    {isFirstCalled aggrFlag : Bool} (hflag : aggrFlag || isFirstCalled)
    (hfinds : ∀ row ∈ rows, ∀ unit ∈ units, unit.Finds row.1) :
    aggrEvents lib units (units.map fun unit => unit.cellAfter lib before) isFirstCalled aggrFlag
        (rows.map fun row => .row row.1 row.2) =
      [.row (aggrTuple units (units.map fun unit =>
          unit.result lib (before ++ rows.map Prod.fst)))
        (aggrTuple units (units.map fun unit =>
          unit.result lib (before ++ rows.map Prod.fst)))] := by
  induction rows generalizing before isFirstCalled aggrFlag with
  | nil =>
    rw [List.map_nil, aggrEvents, if_pos hflag, aggrRow_cellAfter, List.map_nil, List.append_nil]
  | cons row rows ih =>
    have hrow := aggrFields_cellAfter lib before (hfinds row List.mem_cons_self)
    have htail := ih (before ++ [row.1]) (rfl : (true || false) = true)
      fun row' hmem => hfinds row' (List.mem_cons_of_mem row hmem)
    rw [List.map_cons, aggrEvents, hrow]
    simpa using htail

theorem aggrEvents_init {rows : List (Tuple × Tuple)}
    (hfinds : ∀ row ∈ rows, ∀ unit ∈ units, unit.Finds row.1) :
    aggrEvents lib units (units.map fun _ => {}) true false
        (rows.map fun row => .row row.1 row.2) =
      [.row (aggrTuple units (units.map fun unit => unit.result lib (rows.map Prod.fst)))
        (aggrTuple units (units.map fun unit => unit.result lib (rows.map Prod.fst)))] := by
  have hinit : units.map (fun _ => ({} : AggrCell)) =
      units.map fun unit => unit.cellAfter lib [] := by
    apply List.map_congr_left
    intro unit _
    simp [AggrUnit.cellAfter, AggrUnit.counted, AggrUnit.values]
  rw [hinit]
  exact aggrEvents_rows [] rfl hfinds

/-! ## What the aggregates are -/

structure ComparesTotally (lib : StdLib) (vs : List Value) : Prop where
  swap : ∀ v ∈ vs, ∀ w ∈ vs, v.compare lib w ≤ 0 ↔ 0 ≤ w.compare lib v
  trans : ∀ u ∈ vs, ∀ v ∈ vs, ∀ w ∈ vs,
    u.compare lib v ≤ 0 → v.compare lib w ≤ 0 → u.compare lib w ≤ 0

def PartialSumsFit (xs : List Int32) : Prop :=
  ∀ ys, ys <+: xs → -2 ^ 31 ≤ (ys.map Int32.toInt).sum ∧ (ys.map Int32.toInt).sum < 2 ^ 31

/-- What SQL says about the result of an aggregate over some rows. -/
structure AggrSpec (lib : StdLib) (unit : AggrUnit Tuple) (rows : List Tuple) (result : Value) :
    Prop where
  countStar : unit.aggrType = .count → unit.field = none → rows.length < 2 ^ 31 →
    ∃ n : Int32, result = .ints n ∧ n.toInt = rows.length
  countField : unit.aggrType = .count → unit.field ≠ none →
    (unit.values rows).length < 2 ^ 31 →
    ∃ n : Int32, result = .ints n ∧ n.toInt = (unit.values rows).length
  sum : unit.aggrType = .sum → ∀ xs : List Int32, unit.values rows = xs.map .ints → xs ≠ [] →
    PartialSumsFit xs → ∃ n : Int32, result = .ints n ∧ n.toInt = (xs.map Int32.toInt).sum
  min : unit.aggrType = .min → unit.values rows ≠ [] → ComparesTotally lib (unit.values rows) →
    result ∈ unit.values rows ∧ ∀ v ∈ unit.values rows, result.compare lib v ≤ 0
  max : unit.aggrType = .max → unit.values rows ≠ [] → ComparesTotally lib (unit.values rows) →
    result ∈ unit.values rows ∧ ∀ v ∈ unit.values rows, v.compare lib result ≤ 0
  null : unit.aggrType ∈ [AggrType.sum, .min, .max] →
    (result.isNull = true ↔ unit.values rows = [])

theorem isNull_aggrUpdate {type : AggrType} {result value : Value}
    (hvalue : value.isNull = false) : (aggrUpdate lib type result value).isNull = false := by
  unfold aggrUpdate
  split
  · exact hvalue
  · next hresult =>
    rw [Bool.not_eq_true] at hresult
    cases type with
    | min => dsimp only; split <;> assumption
    | max => dsimp only; split <;> assumption
    | avg | sum => cases value <;> first | exact hresult | rfl
    | count | undefined => exact hresult

theorem isNull_foldl_aggrUpdate {type : AggrType} {vs : List Value}
    (hvs : ∀ v ∈ vs, v.isNull = false) :
    (vs.foldl (aggrUpdate lib type) .nulls).isNull = true ↔ vs = [] := by
  induction vs using List.reverseRecOn with
  | nil => exact ⟨fun _ => rfl, fun _ => rfl⟩
  | append_singleton vs v ih =>
    have hv : v.isNull = false := hvs v (List.mem_append_right vs List.mem_cons_self)
    rw [List.foldl_append, List.foldl_cons, List.foldl_nil, isNull_aggrUpdate hv]
    simp

theorem foldl_sum (lib : StdLib) {xs : List Int32} {x : Int32}
    (hfit : ∀ ys, ys <+: xs → -2 ^ 31 ≤ x.toInt + (ys.map Int32.toInt).sum ∧
      x.toInt + (ys.map Int32.toInt).sum < 2 ^ 31) :
    ∃ n : Int32, (xs.map Value.ints).foldl (aggrUpdate lib .sum) (.ints x) = .ints n ∧
      n.toInt = x.toInt + (xs.map Int32.toInt).sum := by
  induction xs generalizing x with
  | nil => exact ⟨x, rfl, by simp⟩
  | cons y ys ih =>
    have hy := hfit [y] ⟨ys, rfl⟩
    simp only [List.map_cons, List.map_nil, List.sum_cons, List.sum_nil, add_zero] at hy
    have hadd : (x + y).toInt = x.toInt + y.toInt := by
      rw [Int32.toInt_add]
      exact Int.bmod_eq_of_le (by omega) (by omega)
    have hrest : ∀ zs, zs <+: ys → -2 ^ 31 ≤ (x + y).toInt + (zs.map Int32.toInt).sum ∧
        (x + y).toInt + (zs.map Int32.toInt).sum < 2 ^ 31 := by
      intro zs hzs
      have hzs' := hfit (y :: zs) ((List.prefix_cons_inj y).2 hzs)
      rw [List.map_cons, List.sum_cons, ← add_assoc, ← hadd] at hzs'
      exact hzs'
    obtain ⟨n, hn, hsum⟩ := ih hrest
    refine ⟨n, hn, ?_⟩
    rw [hsum, hadd, List.map_cons, List.sum_cons, add_assoc]

/-- A fold that keeps the better of two values ends with a best one. -/
theorem foldl_best {α : Type} (le : α → α → Prop) {better : α → α → α} {v : α} {vs : List α}
    (hself : ∀ w ∈ v :: vs, le w w)
    (htrans : ∀ u ∈ v :: vs, ∀ w ∈ v :: vs, ∀ x ∈ v :: vs, le u w → le w x → le u x)
    (hbetter : ∀ u ∈ v :: vs, ∀ w ∈ v :: vs,
      better u w = u ∧ le u w ∨ better u w = w ∧ le w u) :
    vs.foldl better v ∈ v :: vs ∧ ∀ w ∈ v :: vs, le (vs.foldl better v) w := by
  induction vs using List.reverseRecOn with
  | nil =>
    refine ⟨List.mem_cons_self, fun w hw => ?_⟩
    obtain rfl := List.mem_singleton.1 hw
    exact hself w hw
  | append_singleton vs u ih =>
    have hsub : v :: vs ⊆ v :: (vs ++ [u]) :=
      List.cons_subset_cons v (List.subset_append_left vs [u])
    have hu : u ∈ v :: (vs ++ [u]) := by simp
    obtain ⟨hmem, hle⟩ := ih (fun w hw => hself w (hsub hw))
      (fun x hx y hy z hz => htrans x (hsub hx) y (hsub hy) z (hsub hz))
      fun x hx y hy => hbetter x (hsub hx) y (hsub hy)
    rw [List.foldl_append, List.foldl_cons, List.foldl_nil]
    rcases hbetter _ (hsub hmem) u hu with ⟨hstep, hbest⟩ | ⟨hstep, hbest⟩
    · rw [hstep]
      refine ⟨hsub hmem, fun w hw => ?_⟩
      rw [← List.cons_append, List.mem_append, List.mem_singleton] at hw
      rcases hw with hw | rfl
      · exact hle w hw
      · exact hbest
    · rw [hstep]
      refine ⟨hu, fun w hw => ?_⟩
      have hw' := hw
      rw [← List.cons_append, List.mem_append, List.mem_singleton] at hw'
      rcases hw' with hw' | rfl
      · exact htrans u hu _ (hsub hmem) w hw hbest (hle w hw')
      · exact hself w hw

theorem ComparesTotally.self_le {vs : List Value} (h : ComparesTotally lib vs) {v : Value}
    (hv : v ∈ vs) : v.compare lib v ≤ 0 := by
  have hswap := h.swap v hv v hv
  omega

/-- `MIN` and `MAX` keep the one of two values that is better. -/
theorem foldl_min {vs : List Value} {v : Value} (hvs : ∀ w ∈ v :: vs, w.isNull = false)
    (hord : ComparesTotally lib (v :: vs)) :
    vs.foldl (aggrUpdate lib .min) v ∈ v :: vs ∧
      ∀ w ∈ v :: vs, (vs.foldl (aggrUpdate lib .min) v).compare lib w ≤ 0 := by
  apply foldl_best (fun u w => u.compare lib w ≤ 0) (fun w hw => hord.self_le hw) hord.trans
  intro u hu w hw
  have hswap := hord.swap w hw u hu
  simp only [aggrUpdate, hvs u hu, Bool.false_eq_true, if_false]
  by_cases hgt : u.compare lib w > 0
  · right
    exact ⟨if_pos hgt, hswap.2 (by omega)⟩
  · left
    exact ⟨if_neg hgt, by omega⟩

theorem foldl_max {vs : List Value} {v : Value} (hvs : ∀ w ∈ v :: vs, w.isNull = false)
    (hord : ComparesTotally lib (v :: vs)) :
    vs.foldl (aggrUpdate lib .max) v ∈ v :: vs ∧
      ∀ w ∈ v :: vs, w.compare lib (vs.foldl (aggrUpdate lib .max) v) ≤ 0 := by
  apply foldl_best (fun u w => w.compare lib u ≤ 0) (fun w hw => hord.self_le hw)
    fun u hu w hw x hx huw hwx => hord.trans x hx w hw u hu hwx huw
  intro u hu w hw
  have hswap := hord.swap w hw u hu
  simp only [aggrUpdate, hvs u hu, Bool.false_eq_true, if_false]
  by_cases hlt : u.compare lib w < 0
  · right
    exact ⟨if_pos hlt, Int.le_of_lt hlt⟩
  · left
    exact ⟨if_neg hlt, hswap.2 (by omega)⟩

namespace AggrUnit

theorem values_star {rows : List Tuple} (hfield : unit.field = none) : unit.values rows = [] := by
  simp [values, value?, hfield]

theorem result_count (lib : StdLib) (rows : List Tuple) (htype : unit.aggrType = .count) :
    unit.result lib rows = .ints (Int32.ofNat (unit.counted rows)) := by
  simp [result, aggrDone, cellAfter, htype]

theorem result_fold (lib : StdLib) (rows : List Tuple)
    (htype : unit.aggrType ∈ [AggrType.sum, .min, .max]) :
    unit.result lib rows = (unit.values rows).foldl (aggrUpdate lib unit.aggrType) .nulls := by
  have hnull : unit.counted rows = 0 → unit.values rows = [] := by
    intro hzero
    cases hfield : unit.field with
    | none => exact values_star hfield
    | some findCell =>
      rw [counted, hfield] at hzero
      exact List.length_eq_zero_iff.1 hzero
  have hdone : unit.result lib rows = if unit.counted rows = 0 then .nulls
      else (unit.values rows).foldl (aggrUpdate lib unit.aggrType) .nulls := by
    simp only [List.mem_cons, List.not_mem_nil, or_false] at htype
    rcases htype with htype | htype | htype <;>
      simp [result, aggrDone, cellAfter, htype]
  rw [hdone]
  split
  · next hzero => rw [hnull hzero, List.foldl_nil]
  · rfl

end AggrUnit

theorem aggrSpec_result (lib : StdLib) (unit : AggrUnit Tuple) (rows : List Tuple) :
    AggrSpec lib unit rows (unit.result lib rows) := by
  have hnull : ∀ v ∈ unit.values rows, v.isNull = false := fun v => AggrUnit.not_isNull_of_mem
  have hints : ∀ n : ℕ, n < 2 ^ 31 → (Int32.ofNat n).toInt = n := fun n hn =>
    Int32.toInt_ofNat_of_lt hn
  -- the first value becomes the running result
  have hfirst : ∀ {type v vs}, unit.values rows = v :: vs →
      (unit.values rows).foldl (aggrUpdate lib type) .nulls = vs.foldl (aggrUpdate lib type) v := by
    intro type v vs hvalues
    rw [hvalues]
    rfl
  constructor
  case countStar =>
    intro htype hfield hlt
    refine ⟨_, AggrUnit.result_count lib rows htype, ?_⟩
    rw [AggrUnit.counted, hfield]
    exact hints _ hlt
  case countField =>
    intro htype hfield hlt
    refine ⟨_, AggrUnit.result_count lib rows htype, ?_⟩
    have hsome : unit.field.isNone = false :=
      Option.isNone_eq_false_iff.2 (Option.isSome_iff_ne_none.2 hfield)
    rw [AggrUnit.counted, hsome]
    exact hints _ hlt
  case sum =>
    intro htype xs hvalues hne hfit
    cases xs with
    | nil => exact absurd rfl hne
    | cons x xs =>
      have hprefix : ∀ ys, ys <+: xs → -2 ^ 31 ≤ x.toInt + (ys.map Int32.toInt).sum ∧
          x.toInt + (ys.map Int32.toInt).sum < 2 ^ 31 := by
        intro ys hys
        have hfits := hfit (x :: ys) ((List.prefix_cons_inj x).2 hys)
        rwa [List.map_cons, List.sum_cons] at hfits
      obtain ⟨n, hn, hsum⟩ := foldl_sum lib hprefix
      refine ⟨n, ?_, hsum⟩
      rw [AggrUnit.result_fold lib rows (by simp [htype]), hfirst hvalues, htype]
      exact hn
  case min =>
    intro htype hne hord
    obtain ⟨v, vs, hvalues⟩ := List.exists_cons_of_ne_nil hne
    rw [AggrUnit.result_fold lib rows (by simp [htype]), hfirst hvalues, htype]
    rw [hvalues] at hnull hord ⊢
    exact foldl_min hnull hord
  case max =>
    intro htype hne hord
    obtain ⟨v, vs, hvalues⟩ := List.exists_cons_of_ne_nil hne
    rw [AggrUnit.result_fold lib rows (by simp [htype]), hfirst hvalues, htype]
    rw [hvalues] at hnull hord ⊢
    exact foldl_max hnull hord
  case null =>
    intro htype
    rw [AggrUnit.result_fold lib rows htype]
    exact isNull_foldl_aggrUpdate hnull

/-- Over any rows and any aggregates, an aggregation gives one row and then `RECORD_EOF`, with the
results of SQL in it. -/
theorem aggregation_correct (lib : StdLib) {rows : List (Tuple × Tuple)}
    (hfinds : ∀ row ∈ rows, ∀ unit ∈ units, unit.Finds row.1) :
    ∃ results, aggrEvents lib units (units.map fun _ => {}) true false
        (rows.map fun row => .row row.1 row.2) =
          [.row (aggrTuple units results) (aggrTuple units results)] ∧
      List.Forall₂ (fun unit result => AggrSpec lib unit (rows.map Prod.fst) result)
        units results := by
  use units.map fun unit => unit.result lib (rows.map Prod.fst)
  constructor
  · exact aggrEvents_init hfinds
  · rw [List.forall₂_map_right_iff]
    exact List.forall₂_same.2 fun unit _ => aggrSpec_result lib unit _

def countStar : AggrUnit Tuple := ⟨"COUNT(*)", .count, none⟩

/-- A row with one value in every column. -/
def constantRow (value : Value) : Tuple := ⟨[.ok value], fun _ => .ok value⟩

/-- `COUNT(*)` and the sum of a column over the values 3, `NULL` and 4. -/
theorem aggregation_three_rows :
    let lib : StdLib := ⟨fun _ => none, fun _ => none, fun _ _ => none, fun _ => []⟩
    let units := [countStar, ⟨"SUM(a)", .sum, some fun row => row.findCell ⟨"t", "a", ""⟩⟩]
    let rows := [constantRow (.ints 3), constantRow .nulls, constantRow (.ints 4)].map
      fun row => (row, row)
    ∃ results, aggrEvents lib units (units.map fun _ => {}) true false
        (rows.map fun row => .row row.1 row.2) =
          [.row (aggrTuple units results) (aggrTuple units results)] ∧
      List.Forall₂ (fun unit result => AggrSpec lib unit (rows.map Prod.fst) result)
        units results := by
  intro lib units rows
  apply aggregation_correct lib
  intro row hrow unit hunit findCell hfield
  obtain ⟨row', hrow', rfl⟩ := List.mem_map.1 hrow
  have hconstant : ∃ value, row' = constantRow value := by
    simp only [List.mem_cons, List.not_mem_nil, or_false] at hrow'
    rcases hrow' with rfl | rfl | rfl <;> exact ⟨_, rfl⟩
  obtain ⟨value, rfl⟩ := hconstant
  simp only [units, List.mem_cons, List.not_mem_nil, or_false] at hunit
  rcases hunit with rfl | rfl
  · cases hfield
  · exact ⟨value, by rw [← Option.some.inj hfield]; rfl⟩

theorem aggrEvents_countStar (lib : StdLib) (rows : List (Tuple × Tuple)) :
    aggrEvents lib [countStar] [{}] true false (rows.map fun row => .row row.1 row.2) =
      [.row (aggrTuple [countStar] [.ints (Int32.ofNat rows.length)])
        (aggrTuple [countStar] [.ints (Int32.ofNat rows.length)])] := by
  have hfinds : ∀ row ∈ rows, ∀ unit ∈ [countStar], unit.Finds row.1 := by
    intro row _ unit hunit findCell hfield
    rw [List.mem_singleton.1 hunit] at hfield
    cases hfield
  have hresult : countStar.result lib (rows.map Prod.fst) =
      .ints (Int32.ofNat rows.length) := by
    rw [AggrUnit.result_count lib _ rfl]
    simp [AggrUnit.counted, countStar]
  have hevents := @aggrEvents_init lib _ _ hfinds
  rw [List.map_singleton, List.map_singleton, hresult] at hevents
  exact hevents

/-- From `2 ^ 31` rows on the counter is no number of rows any more. -/
theorem countStar_wraps :
    ∃ rows : List (Tuple × Tuple), rows.length = 2 ^ 31 ∧
      ∀ lib, aggrEvents lib [countStar] [{}] true false (rows.map fun row => .row row.1 row.2) =
        [.row (aggrTuple [countStar] [.ints Int32.minValue])
          (aggrTuple [countStar] [.ints Int32.minValue])] ∧
        Int32.minValue.toInt ≠ rows.length := by
  obtain ⟨rows, hrows⟩ : ∃ rows : List (Tuple × Tuple), rows.length = 2 ^ 31 :=
    ⟨List.replicate _ (constantRow .nulls, constantRow .nulls), List.length_replicate⟩
  use rows, hrows
  intro lib
  have hwraps : Int32.ofNat (2 ^ 31) = Int32.minValue := by decide
  have hevents := aggrEvents_countStar lib rows
  rw [hrows, hwraps] at hevents
  refine ⟨hevents, ?_⟩
  rw [hrows]
  decide

end TDB
