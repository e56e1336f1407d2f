import TDB.OrderKeys

namespace TDB

open StdSort

/-! ## The operator -/

namespace OrderPhysicalOperator

variable {R : Type} {units : List (OrderByUnit R)} {rows : List R}

theorem mem_fetchTable {k : ℕ} {p : List Value × ℕ} :
    p ∈ fetchTable units k rows ↔ ∃ i r, rows[i]? = some r ∧ p = (keyCells units r, k + i) := by
  induction rows generalizing k with
  | nil => simp [fetchTable]
  | cons r rows ih =>
    rw [fetchTable, List.mem_cons, ih]
    constructor
    · rintro (rfl | ⟨i, r', hr', rfl⟩)
      · exact ⟨0, r, rfl, rfl⟩
      · exact ⟨i + 1, r', hr', by rw [Nat.add_assoc, Nat.add_comm 1]⟩
    · rintro ⟨i, r', hr', rfl⟩
      cases i with
      | zero =>
        obtain rfl : r = r' := by simpa using hr'
        exact Or.inl rfl
      | succ i => exact Or.inr ⟨i, r', by simpa using hr', by rw [Nat.add_assoc, Nat.add_comm 1]⟩

theorem length_fetchTable (units : List (OrderByUnit R)) (k : ℕ) (rows : List R) :
    (fetchTable units k rows).length = rows.length := by
  induction rows generalizing k with
  | nil => rfl
  | cons r rows ih => rw [fetchTable, List.length_cons, ih, List.length_cons]

theorem filterMap_fetchTable (units : List (OrderByUnit R)) (pre rows : List R) :
    (fetchTable units pre.length rows).filterMap (fun p => (pre ++ rows)[p.2]?) = rows := by
  induction rows generalizing pre with
  | nil => rfl
  | cons r rows ih =>
    have hih := ih (pre ++ [r])
    simp only [List.append_assoc, List.cons_append, List.nil_append, List.length_append,
      List.length_cons, List.length_nil] at hih
    simp [fetchTable, hih]

/-- Once sorted, the operator hands out the rows at the remaining indices. -/
theorem fetchAll_nextSorted (std : Sorter (List Value × ℕ)) (lib : StdLib)
    {o : OrderPhysicalOperator R} (hinit : o.isInit = false)
    (hidx : ∀ i ∈ o.stIdx, o.st[i]?.isSome) {fuel : ℕ} (hfuel : o.stIdx.length < fuel) :
    fetchAll (next std lib) fuel o =
      (o.stIdx.filterMap (fun i => o.st[i]?), some (.code .recordEof)) := by
  obtain ⟨orderUnits, child, isInit, st, stIdx⟩ := o
  simp only at hinit hidx hfuel ⊢
  subst hinit
  induction stIdx generalizing fuel with
  | nil =>
    cases fuel with
    | zero => simp at hfuel
    | succ fuel => rfl
  | cons i stIdx ih =>
    cases fuel with
    | zero => simp at hfuel
    | succ fuel =>
      obtain ⟨r, hr⟩ := Option.isSome_iff_exists.mp (hidx i (by simp))
      have hnext : next std lib ⟨orderUnits, child, false, st, i :: stIdx⟩ =
          (.tuple r, ⟨orderUnits, child, false, st, stIdx⟩) := by
        simp [next, nextSorted, hr]
      have hlt : stIdx.length < fuel := by simpa using hfuel
      have htail := ih (fun j hj => hidx j (by simp [hj])) hlt
      rw [fetchAll, hnext, List.filterMap_cons, hr]
      simp only [htail]

def sortedRows (std : Sorter (List Value × ℕ)) (lib : StdLib) (units : List (OrderByUnit R))
    (rows : List R) : List R :=
  (std.sort (cmp lib units) (fetchTable units 0 rows)).filterMap fun p => rows[p.2]?

theorem fetchAll_next {std : Sorter (List Value × ℕ)} {lib : StdLib}
    (hweak : StrictWeakOn (cmp lib units) (fetchTable units 0 rows)) {fuel : ℕ}
    (hfuel : rows.length < fuel) :
    fetchAll (next std lib) fuel { orderUnits := units, child := { rows := rows } } =
      (sortedRows std lib units rows, some (.code .recordEof)) := by
  set tab := std.sort (cmp lib units) (fetchTable units 0 rows) with htab
  have hperm : tab.Perm (fetchTable units 0 rows) := std.perm _ _ hweak
  let o : OrderPhysicalOperator R := { orderUnits := units, child := { rows := rows } }
  let o' : OrderPhysicalOperator R :=
    ⟨units, { rows := [] }, false, rows, tab.map Prod.snd⟩
  have hfirst : next std lib o = next std lib o' := rfl
  have hrun : fetchAll (next std lib) fuel o = fetchAll (next std lib) fuel o' := by
    cases fuel with
    | zero => rfl
    | succ fuel => rw [fetchAll, fetchAll, hfirst]
  have hidx : ∀ i ∈ o'.stIdx, o'.st[i]?.isSome := by
    intro i hi
    obtain ⟨p, hp, rfl⟩ := List.mem_map.mp hi
    obtain ⟨i, r, hr, rfl⟩ := mem_fetchTable.mp (hperm.mem_iff.mp hp)
    rw [Nat.zero_add]
    exact Option.isSome_iff_exists.mpr ⟨r, hr⟩
  have hlen : o'.stIdx.length < fuel := by
    simp only [o', List.length_map, hperm.length_eq, length_fetchTable]
    exact hfuel
  change fetchAll (next std lib) fuel o = _
  rw [hrun, fetchAll_nextSorted std lib rfl hidx hlen]
  simp only [sortedRows, o', List.filterMap_map]
  rfl

/-- What `ORDER BY` promises: the comparator is a strict weak order on the rows, and with every
correct `std::sort` the operator hands out the child's rows in the order of the keys and then
returns `RECORD_EOF`. -/
def OrderByCorrect (lib : StdLib) (units : List (OrderByUnit R)) (rows : List R) : Prop :=
  StrictWeakOn (cmp lib units) (fetchTable units 0 rows) ∧
  ∀ std : Sorter (List Value × ℕ), ∃ out,
    (∀ fuel, rows.length < fuel →
      fetchAll (next std lib) fuel { orderUnits := units, child := { rows := rows } } =
        (out, some (.code .recordEof))) ∧
    out.Perm rows ∧
    out.Pairwise fun r r' =>
      ¬ RowLt (units.map OrderByUnit.sortType) (keyCells units r') (keyCells units r)

theorem sortedRows_perm {std : Sorter (List Value × ℕ)} {lib : StdLib}
    (hweak : StrictWeakOn (cmp lib units) (fetchTable units 0 rows)) :
    (sortedRows std lib units rows).Perm rows := by
  have hperm := (std.perm _ _ hweak).filterMap fun p => rows[p.2]?
  have hback := filterMap_fetchTable units [] rows
  simp only [List.length_nil, List.nil_append] at hback
  rwa [hback] at hperm

section

variable {types : List AttrType} {lib : StdLib}

theorem length_sortTypes {r : R} (h : List.Forall₂ KeyCell types (keyCells units r)) :
    (units.map OrderByUnit.sortType).length = types.length := by
  rw [h.length_eq]
  simp [keyCells]

theorem cmp_iff (htypes : ∀ r ∈ rows, List.Forall₂ KeyCell types (keyCells units r))
    (hcomp : ∀ r ∈ rows, ∀ r' ∈ rows, RowsComparable (keyCells units r) (keyCells units r'))
    {p q : List Value × ℕ} (hp : p ∈ fetchTable units 0 rows) (hq : q ∈ fetchTable units 0 rows) :
    cmp lib units p q = true ↔ RowLt (units.map OrderByUnit.sortType) p.1 q.1 := by
  obtain ⟨i, r, hr, rfl⟩ := mem_fetchTable.mp hp
  obtain ⟨j, r', hr', rfl⟩ := mem_fetchTable.mp hq
  have hmem := List.mem_of_getElem? hr
  have hmem' := List.mem_of_getElem? hr'
  exact cmpCells_iff lib (htypes r hmem) (htypes r' hmem') (hcomp r hmem r' hmem')

theorem strictWeakOn_cmp
    (htypes : ∀ r ∈ rows, List.Forall₂ KeyCell types (keyCells units r))
    (hcomp : ∀ r ∈ rows, ∀ r' ∈ rows, RowsComparable (keyCells units r) (keyCells units r')) :
    StrictWeakOn (cmp lib units) (fetchTable units 0 rows) := by
  have hiff : ∀ {p q : List Value × ℕ}, p ∈ fetchTable units 0 rows →
      q ∈ fetchTable units 0 rows →
      (cmp lib units p q = true ↔ RowLt (units.map OrderByUnit.sortType) p.1 q.1) :=
    fun hp hq => cmp_iff htypes hcomp hp hq
  have htotal : ∀ p ∈ fetchTable units 0 rows, ∀ q ∈ fetchTable units 0 rows,
      cmp lib units p q = false → cmp lib units q p = false → p.1 = q.1 := by
    intro p hp q hq hpq hqp
    rw [← Bool.not_eq_true, hiff hp hq] at hpq
    rw [← Bool.not_eq_true, hiff hq hp] at hqp
    obtain ⟨i, r, hr, rfl⟩ := mem_fetchTable.mp hp
    obtain ⟨j, r', hr', rfl⟩ := mem_fetchTable.mp hq
    have htr := htypes r (List.mem_of_getElem? hr)
    rcases RowLt.total htr (htypes r' (List.mem_of_getElem? hr')) (length_sortTypes htr)
      with h | h | h
    · exact absurd h hpq
    · exact h
    · exact absurd h hqp
  constructor
  case irrefl =>
    intro p hp
    rw [← Bool.not_eq_true, hiff hp hp]
    exact RowLt.irrefl _ _
  case trans =>
    intro p hp q hq r hr hpq hqr
    rw [hiff hp hq] at hpq
    rw [hiff hq hr] at hqr
    rw [hiff hp hr]
    exact hpq.trans hqr
  case equiv_trans =>
    intro p hp q hq r hr hpq hqp hqr hrq
    have hcells : p.1 = r.1 := (htotal p hp q hq hpq hqp).trans (htotal q hq r hr hqr hrq)
    rw [← Bool.not_eq_true, hiff hp hr, hcells]
    exact RowLt.irrefl _ _

/-- With a sort that is free to put equal elements in either order, rows that the comparator does
not order come out in the wrong order. -/
theorem comparable_of_orderByCorrect
    (htypes : ∀ r ∈ rows, List.Forall₂ KeyCell types (keyCells units r))
    (hcorrect : OrderByCorrect lib units rows) {r r' : R} (hr : r ∈ rows) (hr' : r' ∈ rows)
    (hlt : RowLt (units.map OrderByUnit.sortType) (keyCells units r) (keyCells units r')) :
    RowsComparable (keyCells units r) (keyCells units r') := by
  by_contra hcomp
  obtain ⟨hweak, hsorted⟩ := hcorrect
  obtain ⟨i, hi⟩ := List.mem_iff_getElem?.mp hr
  obtain ⟨j, hj⟩ := List.mem_iff_getElem?.mp hr'
  have hp : (keyCells units r, i) ∈ fetchTable units 0 rows :=
    mem_fetchTable.mpr ⟨i, r, hi, by rw [Nat.zero_add]⟩
  have hq : (keyCells units r', j) ∈ fetchTable units 0 rows :=
    mem_fetchTable.mpr ⟨j, r', hj, by rw [Nat.zero_add]⟩
  have hne : (keyCells units r', j) ≠ (keyCells units r, i) := by
    intro heq
    rw [(Prod.mk.inj heq).1] at hlt
    exact RowLt.irrefl _ _ hlt
  have hcmp : cmp lib units (keyCells units r, i) (keyCells units r', j) = false := by
    rcases cmpCells_of_not_comparable lib (htypes r hr) (htypes r' hr') hcomp hlt with h | h
    · exact hweak.asymm hq hp h
    · exact h
  obtain ⟨std, hsub⟩ := exists_sorter_pair hweak hq hp hne hcmp
  obtain ⟨out, hrun, -, hpairwise⟩ := hsorted std
  have hout : out = sortedRows std lib units rows := by
    have h := hrun _ (Nat.lt_succ_self rows.length)
    rw [fetchAll_next hweak (Nat.lt_succ_self rows.length)] at h
    exact (Prod.mk.inj h).1.symm
  have hpair : [r', r].Sublist out := by
    have h := hsub.filterMap fun p => rows[p.2]?
    rw [hout, sortedRows]
    simpa [hi, hj] using h
  have hwrong := hpairwise.sublist hpair
  rw [List.pairwise_pair] at hwrong
  exact hwrong hlt

/-- `ORDER BY` keeps its promise exactly on the lists of rows that are pairwise comparable. -/
theorem orderByCorrect_iff (htypes : ∀ r ∈ rows, List.Forall₂ KeyCell types (keyCells units r)) :
    OrderByCorrect lib units rows ↔
      ∀ r ∈ rows, ∀ r' ∈ rows, RowsComparable (keyCells units r) (keyCells units r') := by
  constructor
  · intro hcorrect r hr r' hr'
    rcases RowLt.total (htypes r hr) (htypes r' hr') (length_sortTypes (htypes r hr))
      with h | h | h
    · exact comparable_of_orderByCorrect htypes hcorrect hr hr' h
    · rw [h]
      exact RowsComparable.refl _
    · exact (comparable_of_orderByCorrect htypes hcorrect hr' hr h).symm
  · intro hcomp
    have hweak : StrictWeakOn (cmp lib units) (fetchTable units 0 rows) :=
      strictWeakOn_cmp htypes hcomp
    refine ⟨hweak, fun std => ⟨sortedRows std lib units rows, ?_, sortedRows_perm hweak, ?_⟩⟩
    · intro fuel hfuel
      exact fetchAll_next hweak hfuel
    · have hperm := std.perm _ _ hweak
      rw [sortedRows, List.pairwise_filterMap]
      apply (std.sorted _ _ hweak).imp_of_mem
      intro p q hp hq hqp r hr r' hr'
      rw [hperm.mem_iff] at hp hq
      rw [← Bool.not_eq_true, cmp_iff htypes hcomp hq hp] at hqp
      obtain ⟨i, s, hs, rfl⟩ := mem_fetchTable.mp hp
      obtain ⟨j, s', hs', rfl⟩ := mem_fetchTable.mp hq
      rw [Nat.zero_add] at hr hr'
      obtain rfl : s = r := Option.some.inj (hs.symm.trans hr)
      obtain rfl : s' = r' := Option.some.inj (hs'.symm.trans hr')
      exact hqp

end

/-- Three rows with the keys `2`, `NULL` and `-1`, descending. -/
theorem orderByCorrect_three_ints :
    OrderByCorrect ⟨fun _ => none, fun _ => none, fun _ _ => none, fun _ => []⟩
      [⟨false, id⟩] [.ints 2, .nulls, .ints (-1)] := by
  have htypes : ∀ r ∈ [Value.ints 2, .nulls, .ints (-1)],
      List.Forall₂ KeyCell [.ints] (keyCells [⟨false, id⟩] r) := by
    intro r hr
    simp only [List.mem_cons, List.not_mem_nil, or_false] at hr
    rcases hr with rfl | rfl | rfl <;> exact .cons (by simp [KeyCell]) .nil
  rw [orderByCorrect_iff htypes]
  intro r hr r' hr'
  simp only [List.mem_cons, List.not_mem_nil, or_false] at hr hr'
  rcases hr with rfl | rfl | rfl <;> rcases hr' with rfl | rfl | rfl <;>
    simp [keyCells, RowsComparable, CellsComparable]

/-- The strings `x` and `xä`: the comparator puts the longer one first. -/
theorem not_orderByCorrect_non_ascii :
    ¬ ∀ (lib : StdLib) (units : List (OrderByUnit Value)) (types : List AttrType)
      (rows : List Value), (∀ r ∈ rows, List.Forall₂ KeyCell types (keyCells units r)) →
      OrderByCorrect lib units rows := by
  intro h
  have htypes : ∀ r ∈ [Value.chars [0x78], .chars [0x78, 0xC3, 0xA4]],
      List.Forall₂ KeyCell [.chars] (keyCells [⟨true, id⟩] r) := by
    intro r hr
    simp only [List.mem_cons, List.not_mem_nil, or_false] at hr
    rcases hr with rfl | rfl <;> exact .cons ⟨rfl, by decide⟩ .nil
  have hlt : RowLt [true] (keyCells [⟨true, id⟩] (Value.chars [0x78]))
      (keyCells [⟨true, id⟩] (Value.chars [0x78, 0xC3, 0xA4])) :=
    Or.inl (List.Lex.cons List.Lex.nil)
  have hcorrect := h ⟨fun _ => none, fun _ => none, fun _ _ => none, fun _ => []⟩ _ _ _ htypes
  have hcomp := comparable_of_orderByCorrect htypes hcorrect (by simp) (by simp) hlt
  have hchars : CharsComparable [0x78] [0x78, 0xC3, 0xA4] := hcomp.1 (by decide)
  exact absurd (hchars rfl) (show ¬ (0xC3 : UInt8).toNat ≤ 127 by decide)

end OrderPhysicalOperator

end TDB
