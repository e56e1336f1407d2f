import Mathlib.Data.List.Forall2
import TDB.Lib.StdSort
import TDB.PhysicalOperator

namespace TDB

open StdSort

/-- `OrderByUnit`: the direction, and what `get_value` of its expression leaves in the value. -/
structure OrderByUnit (R : Type) where
  sortType : Bool := true
  getValue : R → Value

def keyCells {R : Type} (units : List (OrderByUnit R)) (r : R) : List Value :=
  units.map fun unit => unit.getValue r

def cmpCells (lib : StdLib) : List Bool → List Value → List Value → Bool
  | asc :: ascs, a :: as, b :: bs =>
    if a.isNull && b.isNull then cmpCells lib ascs as bs
    else if a.isNull then asc
    else if b.isNull then !asc
    else
      let cmp := a.compare lib b
      if cmp ≠ 0 then (if asc then cmp < 0 else cmp > 0) else cmpCells lib ascs as bs
  | _, _, _ => false

/-- `OrderPhysicalOperator` over a child; `stIdx` is the part of `st_idx_` from `it_` on. -/
structure OrderPhysicalOperator (R : Type) where
  orderUnits : List (OrderByUnit R)
  child : Responses R
  isInit : Bool := true
  st : List R := []
  stIdx : List ℕ := []

namespace OrderPhysicalOperator

variable {R : Type}

def fetchTable (units : List (OrderByUnit R)) : ℕ → List R → List (List Value × ℕ)
  | _, [] => []
  | index, r :: rows => (keyCells units r, index) :: fetchTable units (index + 1) rows

def cmp (lib : StdLib) (units : List (OrderByUnit R)) (a b : List Value × ℕ) : Bool :=
  cmpCells lib (units.map OrderByUnit.sortType) a.1 b.1

/-- `sort_table`, with `std` for the sort of the library; `none` is `SUCCESS`. -/
def sortTable (std : Sorter (List Value × ℕ)) (lib : StdLib) (o : OrderPhysicalOperator R) :
    Option Failure × OrderPhysicalOperator R :=
  let table := fetchTable o.orderUnits 0 o.child.rows
  let o := { o with st := o.child.rows, child := { o.child with rows := [] } }
  if o.child.ending ≠ .code .recordEof then (some o.child.ending, o)
  else (none, { o with stIdx := (std.sort (cmp lib o.orderUnits) table).map Prod.snd })

def nextSorted (o : OrderPhysicalOperator R) : Response R × OrderPhysicalOperator R :=
  match o.stIdx with
  | i :: stIdx =>
    match o.st[i]? with
    | some r => (.tuple r, { o with stIdx := stIdx })
    | none => (.failed .crash, o)
  | [] => (.failed (.code .recordEof), o)

def next (std : Sorter (List Value × ℕ)) (lib : StdLib) (o : OrderPhysicalOperator R) :
    Response R × OrderPhysicalOperator R :=
  if o.isInit then
    match sortTable std lib { o with isInit := false } with
    | (some f, o) => (.failed f, o)
    | (none, o) => nextSorted o
  else nextSorted o

end OrderPhysicalOperator

/-! ## The order of the rows -/

/-- The cells that an order key of a column type can have.  The text of a stored string ends before
its first zero byte, where `set_string` cuts it. -/
def KeyCell (type : AttrType) : Value → Prop
  | .nulls => True
  | .ints _ => type = .ints
  | .dates _ => type = .dates
  | .chars s => type = .chars ∧ 0 ∉ s
  | _ => False

/-- `NULL` is lowest, numbers are compared as integers and strings by unsigned bytes with a proper
prefix lower. -/
def CellLt : Value → Value → Prop
  | .nulls, .nulls => False
  | .nulls, _ => True
  | .ints a, .ints b => a.toInt < b.toInt
  | .dates a, .dates b => a.toInt < b.toInt
  | .chars s, .chars t => List.Lex (fun a b : UInt8 => a.toNat < b.toNat) s t
  | _, _ => False

def KeyLt (asc : Bool) (a b : Value) : Prop := if asc then CellLt a b else CellLt b a

/-- The lexicographic order of the keys. -/
def RowLt : List Bool → List Value → List Value → Prop
  | asc :: ascs, a :: as, b :: bs => KeyLt asc a b ∨ a = b ∧ RowLt ascs as bs
  | _, _, _ => False

/-- The byte behind a proper prefix is not a negative character. -/
def CharsComparable : List UInt8 → List UInt8 → Prop
  | a :: s, b :: t => a = b → CharsComparable s t
  | c :: _, [] => c.toNat ≤ 127
  | [], c :: _ => c.toNat ≤ 127
  | [], [] => True

def CellsComparable : Value → Value → Prop
  | .ints a, .ints b => (a.toInt - b.toInt).natAbs < 2 ^ 31
  | .dates a, .dates b => (a.toInt - b.toInt).natAbs < 2 ^ 31
  | .chars s, .chars t => CharsComparable s t
  | _, _ => True

/-- Two rows are comparable at the first key where they differ. -/
def RowsComparable : List Value → List Value → Prop
  | a :: as, b :: bs => (a ≠ b → CellsComparable a b) ∧ (a = b → RowsComparable as bs)
  | _, _ => True

/-! ## The sign of a comparison -/

theorem CharsComparable.symm {s t : List UInt8} (h : CharsComparable s t) :
    CharsComparable t s := by
  induction s generalizing t with
  | nil => cases t <;> exact h
  | cons a s ih =>
    cases t with
    | nil => exact h
    | cons b t => exact fun hab => ih (h hab.symm)

theorem CellsComparable.symm {a b : Value} (h : CellsComparable a b) : CellsComparable b a := by
  cases a <;> cases b <;> try trivial
  case chars.chars => exact CharsComparable.symm h
  case ints.ints =>
    simp only [CellsComparable] at h ⊢
    omega
  case dates.dates =>
    simp only [CellsComparable] at h ⊢
    omega

theorem compareString_of_comparable {s t : List UInt8} (h : CharsComparable s t) (hs : 0 ∉ s)
    (ht : 0 ∉ t) : Value.compareString s t < 0 ↔
      List.Lex (fun a b : UInt8 => a.toNat < b.toNat) s t := by
  induction s generalizing t with
  | nil =>
    cases t with
    | nil => simp
    | cons b t =>
      have hb : b.toNat ≠ 0 := fun hb => ht (by simp [← UInt8.toNat_inj, hb])
      have hle : b.toNat ≤ 127 := h
      have hsign := Value.signedChar_sign b
      simp only [Value.compareString_nil_cons, List.Lex.nil, iff_true]
      omega
  | cons a s ih =>
    cases t with
    | nil =>
      have hle : a.toNat ≤ 127 := h
      have hsign := Value.signedChar_sign a
      simp only [Value.compareString_cons_nil, List.not_lex_nil, iff_false]
      omega
    | cons b t =>
      rw [Value.compareString_cons_cons, List.cons_lex_cons_iff]
      by_cases hab : a = b
      · subst hab
        rw [if_pos rfl, ih (h rfl) (fun h0 => hs (by simp [h0])) (fun h0 => ht (by simp [h0]))]
        simp
      · rw [if_neg hab]
        simp only [hab, false_and, or_false]
        omega

/-- A string with a negative character behind a proper prefix counts as lower than the prefix. -/
theorem compareString_of_not_comparable {s t : List UInt8} (h : ¬ CharsComparable s t)
    (hlt : List.Lex (fun a b : UInt8 => a.toNat < b.toNat) s t) :
    Value.compareString t s < 0 := by
  induction s generalizing t with
  | nil =>
    cases t with
    | nil => exact absurd trivial h
    | cons b t =>
      have hgt : ¬ b.toNat ≤ 127 := h
      have hsign := Value.signedChar_sign b
      rw [Value.compareString_cons_nil]
      omega
  | cons a s ih =>
    cases t with
    | nil => exact absurd hlt List.not_lex_nil
    | cons b t =>
      have hab : a = b := by
        by_contra hab
        exact h fun h' => absurd h' hab
      subst hab
      rw [List.cons_lex_cons_iff] at hlt
      rw [Value.compareString_cons_cons, if_pos rfl]
      apply ih
      · exact fun h' => h fun _ => h'
      · simpa using hlt

/-! ## Cells of one column -/

section

variable {type : AttrType} {a b c : Value}

theorem CellLt.irrefl (a : Value) : ¬ CellLt a a := by
  cases a with
  | chars s => exact List.lex_irrefl (fun x : UInt8 => Nat.lt_irrefl x.toNat) s
  | ints v => exact Int.lt_irrefl _
  | dates v => exact Int.lt_irrefl _
  | _ => exact id

theorem CellLt.trans (hab : CellLt a b) (hbc : CellLt b c) : CellLt a c := by
  cases b with
  | nulls => cases a <;> exact absurd hab id
  | chars s =>
    cases a <;> cases c <;> try contradiction
    · exact List.lex_trans (fun h h' => Nat.lt_trans h h') hab hbc
    · trivial
  | ints v =>
    cases a <;> cases c <;> try contradiction
    · exact Int.lt_trans hab hbc
    · trivial
  | dates v =>
    cases a <;> cases c <;> try contradiction
    · exact Int.lt_trans hab hbc
    · trivial
  | _ => cases c <;> exact absurd hbc id

/-- Two cells of one column: a `NULL`, or two values of one type. -/
theorem KeyCell.cases (ha : KeyCell type a) (hb : KeyCell type b) :
    a = .nulls ∨ b = .nulls ∨ (∃ x y, a = .ints x ∧ b = .ints y) ∨
      (∃ x y, a = .dates x ∧ b = .dates y) ∨
      ∃ s t, a = .chars s ∧ b = .chars t ∧ 0 ∉ s ∧ 0 ∉ t := by
  cases a <;> cases b <;> simp_all [KeyCell]

theorem lex_total (s t : List UInt8) :
    List.Lex (fun a b : UInt8 => a.toNat < b.toNat) s t ∨ s = t ∨
      List.Lex (fun a b : UInt8 => a.toNat < b.toNat) t s := by
  induction s generalizing t with
  | nil => cases t <;> simp
  | cons a s ih =>
    cases t with
    | nil => simp
    | cons b t =>
      rw [List.cons_lex_cons_iff, List.cons_lex_cons_iff]
      by_cases hab : a = b
      · subst hab
        simpa using ih t
      · have hne : a.toNat ≠ b.toNat := fun h => hab (UInt8.toNat_inj.mp h)
        rcases Nat.lt_or_gt_of_ne hne with h | h
        · exact Or.inl (Or.inl h)
        · exact Or.inr (Or.inr (Or.inl h))

theorem int32_total (x y : Int32) : x.toInt < y.toInt ∨ x = y ∨ y.toInt < x.toInt := by
  rw [← Int32.toInt_inj]
  omega

theorem CellLt.total (ha : KeyCell type a) (hb : KeyCell type b) :
    CellLt a b ∨ a = b ∨ CellLt b a := by
  rcases ha.cases hb with rfl | rfl | ⟨x, y, rfl, rfl⟩ | ⟨x, y, rfl, rfl⟩ |
    ⟨s, t, rfl, rfl, -, -⟩
  · cases b <;> simp [CellLt]
  · cases a <;> simp [CellLt]
  · simpa [CellLt] using int32_total x y
  · simpa [CellLt] using int32_total x y
  · simpa [CellLt] using lex_total s t

theorem Value.isNull_iff {v : Value} : v.isNull = true ↔ v = .nulls := by
  cases v <;> simp [Value.isNull, Value.attrType]

theorem compare_of_comparable (lib : StdLib) (ha : KeyCell type a) (hb : KeyCell type b)
    (ha' : a.isNull = false) (hb' : b.isNull = false) (h : CellsComparable a b) :
    (a.compare lib b < 0 ↔ CellLt a b) ∧ (0 < a.compare lib b ↔ CellLt b a) := by
  rcases ha.cases hb with rfl | rfl | ⟨x, y, rfl, rfl⟩ | ⟨x, y, rfl, rfl⟩ |
    ⟨s, t, rfl, rfl, hs, ht⟩
  · cases ha'
  · cases hb'
  · rw [Value.compare_ints, Value.compareInt_of_near h]
    simp only [CellLt]
    omega
  · rw [Value.compare_dates, Value.compareInt_of_near h]
    simp only [CellLt]
    omega
  · rw [Value.compare_chars]
    simp only [CellLt]
    rw [compareString_of_comparable h hs ht, ← compareString_of_comparable h.symm ht hs,
      Value.compareString_neg s t]
    simp

/-- On other cells the higher one counts as lower. -/
theorem compare_of_not_comparable (lib : StdLib) (ha : KeyCell type a) (hb : KeyCell type b)
    (h : ¬ CellsComparable a b) (hlt : CellLt a b) :
    a.isNull = false ∧ b.isNull = false ∧ b.compare lib a < 0 := by
  rcases ha.cases hb with rfl | rfl | ⟨x, y, rfl, rfl⟩ | ⟨x, y, rfl, rfl⟩ |
    ⟨s, t, rfl, rfl, hs, ht⟩
  · cases b <;> exact absurd trivial h
  · cases a <;> exact absurd trivial h
  · simp only [CellsComparable, CellLt] at h hlt
    exact ⟨rfl, rfl, Value.compareInt_of_far (by omega)⟩
  · simp only [CellsComparable, CellLt] at h hlt
    exact ⟨rfl, rfl, Value.compareInt_of_far (by omega)⟩
  · exact ⟨rfl, rfl, compareString_of_not_comparable h hlt⟩

theorem compare_self (lib : StdLib) (ha : KeyCell type a) (ha' : a.isNull = false) :
    a.compare lib a = 0 := by
  rcases ha.cases ha with rfl | rfl | ⟨x, -, rfl, -⟩ | ⟨x, -, rfl, -⟩ | ⟨s, -, rfl, -⟩
  · cases ha'
  · cases ha'
  · rw [Value.compare_ints, Value.compareInt_self]
  · rw [Value.compare_dates, Value.compareInt_self]
  · have hneg := Value.compareString_neg s s
    change Value.compareString s s = 0
    omega

theorem KeyLt.irrefl (asc : Bool) (a : Value) : ¬ KeyLt asc a a := by
  cases asc <;> exact CellLt.irrefl a

theorem KeyLt.trans {asc : Bool} (hab : KeyLt asc a b) (hbc : KeyLt asc b c) : KeyLt asc a c := by
  cases asc
  · exact CellLt.trans hbc hab
  · exact CellLt.trans hab hbc

theorem KeyLt.total (asc : Bool) (ha : KeyCell type a) (hb : KeyCell type b) :
    KeyLt asc a b ∨ a = b ∨ KeyLt asc b a := by
  cases asc
  · have h := CellLt.total hb ha
    rwa [eq_comm] at h
  · exact CellLt.total ha hb

/-- One key of the comparator decides as the order does, or passes equal cells on. -/
theorem cmpCells_cons (lib : StdLib) (asc : Bool) (ascs : List Bool) (as bs : List Value)
    (ha : KeyCell type a) (hb : KeyCell type b) (h : a ≠ b → CellsComparable a b) :
    cmpCells lib (asc :: ascs) (a :: as) (b :: bs) = true ↔
      KeyLt asc a b ∨ a = b ∧ cmpCells lib ascs as bs = true := by
  rw [cmpCells]
  by_cases hab : a = b
  · subst hab
    have hirrefl := KeyLt.irrefl asc a
    cases hnull : a.isNull
    · simp [hirrefl, compare_self lib ha hnull]
    · simp [hirrefl]
  · simp only [hab, false_and, or_false]
    cases hna : a.isNull <;> cases hnb : b.isNull
    · obtain ⟨hneg, hpos⟩ := compare_of_comparable lib ha hb hna hnb (h hab)
      have hne : a.compare lib b ≠ 0 := by
        intro h0
        rw [h0] at hneg hpos
        rcases CellLt.total ha hb with hlt | heq | hgt
        · exact absurd (hneg.mpr hlt) (Int.lt_irrefl 0)
        · exact hab heq
        · exact absurd (hpos.mpr hgt) (Int.lt_irrefl 0)
      cases asc <;> simp [hne, KeyLt, ← hneg, ← hpos]
    · obtain rfl := Value.isNull_iff.mp hnb
      cases asc <;> cases a <;> simp_all [KeyLt, CellLt]
    · obtain rfl := Value.isNull_iff.mp hna
      cases asc <;> cases b <;> simp_all [KeyLt, CellLt]
    · rw [Value.isNull_iff] at hna hnb
      exact absurd (hna.trans hnb.symm) hab

/-- On incomparable cells the comparator does not confirm the order, or it also confirms the
opposite one. -/
theorem cmpCells_cons_of_not_comparable (lib : StdLib) {asc : Bool} (ascs : List Bool)
    (as bs : List Value) (ha : KeyCell type a) (hb : KeyCell type b)
    (h : ¬ CellsComparable a b) (hlt : KeyLt asc a b) :
    cmpCells lib (asc :: ascs) (b :: bs) (a :: as) = true ∨
      cmpCells lib (asc :: ascs) (a :: as) (b :: bs) = false := by
  cases asc with
  | true =>
    obtain ⟨hna, hnb, hcmp⟩ := compare_of_not_comparable lib ha hb h hlt
    left
    rw [cmpCells]
    simp [hna, hnb, hcmp, Int.ne_of_lt hcmp]
  | false =>
    have h' : ¬ CellsComparable b a := fun h' => h h'.symm
    obtain ⟨hnb, hna, hcmp⟩ := compare_of_not_comparable lib hb ha h' hlt
    right
    rw [cmpCells]
    simp [hna, hnb, Int.ne_of_lt hcmp, Int.not_lt.mpr (Int.le_of_lt hcmp)]

end

/-! ## Rows -/

section

variable {types : List AttrType} {ascs : List Bool} {as bs cs : List Value}

theorem RowLt.irrefl (ascs : List Bool) (as : List Value) : ¬ RowLt ascs as as := by
  induction as generalizing ascs with
  | nil => cases ascs <;> exact id
  | cons a as ih =>
    cases ascs with
    | nil => exact id
    | cons asc ascs =>
      rintro (h | ⟨-, h⟩)
      · exact KeyLt.irrefl asc a h
      · exact ih ascs h

theorem RowLt.trans (hab : RowLt ascs as bs) (hbc : RowLt ascs bs cs) : RowLt ascs as cs := by
  induction ascs generalizing as bs cs with
  | nil => exact hab.elim
  | cons asc ascs ih =>
    cases as <;> cases bs <;> cases cs <;> try contradiction
    rcases hab with hab | ⟨rfl, hab⟩
    · rcases hbc with hbc | ⟨rfl, -⟩
      · exact Or.inl (hab.trans hbc)
      · exact Or.inl hab
    · rcases hbc with hbc | ⟨rfl, hbc⟩
      · exact Or.inl hbc
      · exact Or.inr ⟨rfl, ih hab hbc⟩

theorem RowLt.total (has : List.Forall₂ KeyCell types as) (hbs : List.Forall₂ KeyCell types bs)
    (hlen : ascs.length = types.length) : RowLt ascs as bs ∨ as = bs ∨ RowLt ascs bs as := by
  induction has generalizing ascs bs with
  | nil =>
    cases hbs
    exact Or.inr (Or.inl rfl)
  | @cons type a types as ha has ih =>
    cases hbs with
    | @cons _ b _ bs hb hbs =>
      cases ascs with
      | nil => simp at hlen
      | cons asc ascs =>
        rcases KeyLt.total asc ha hb with h | rfl | h
        · exact Or.inl (Or.inl h)
        · rcases ih hbs (by simpa using hlen) with h | rfl | h
          · exact Or.inl (Or.inr ⟨rfl, h⟩)
          · exact Or.inr (Or.inl rfl)
          · exact Or.inr (Or.inr (Or.inr ⟨rfl, h⟩))
        · exact Or.inr (Or.inr (Or.inl h))

theorem cmpCells_iff (lib : StdLib) (has : List.Forall₂ KeyCell types as)
    (hbs : List.Forall₂ KeyCell types bs) (h : RowsComparable as bs) :
    cmpCells lib ascs as bs = true ↔ RowLt ascs as bs := by
  induction has generalizing ascs bs with
  | nil =>
    cases ascs <;> simp [cmpCells, RowLt]
  | @cons type a types as ha has ih =>
    cases hbs with
    | @cons _ b _ bs hb hbs =>
      cases ascs with
      | nil => simp [cmpCells, RowLt]
      | cons asc ascs =>
        rw [cmpCells_cons lib asc ascs as bs ha hb h.1, RowLt]
        apply or_congr Iff.rfl
        apply and_congr_right
        intro hab
        exact ih hbs (h.2 hab)

/-- Of rows that are not comparable the comparator puts the later one first, or neither. -/
theorem cmpCells_of_not_comparable (lib : StdLib) (has : List.Forall₂ KeyCell types as)
    (hbs : List.Forall₂ KeyCell types bs) (h : ¬ RowsComparable as bs) (hlt : RowLt ascs as bs) :
    cmpCells lib ascs bs as = true ∨ cmpCells lib ascs as bs = false := by
  induction has generalizing ascs bs with
  | nil =>
    cases hbs
    exact absurd trivial h
  | @cons type a types as ha has ih =>
    cases hbs with
    | @cons _ b _ bs hb hbs =>
      cases ascs with
      | nil => exact hlt.elim
      | cons asc ascs =>
        by_cases hab : a = b
        · subst hab
          have hrest : ¬ RowsComparable as bs := fun h' => h ⟨fun h => absurd rfl h, fun _ => h'⟩
          have hlt' : RowLt ascs as bs := by
            rcases hlt with hlt | ⟨-, hlt⟩
            · exact absurd hlt (KeyLt.irrefl asc a)
            · exact hlt
          have hsame : ∀ xs ys, cmpCells lib (asc :: ascs) (a :: xs) (a :: ys) =
              cmpCells lib ascs xs ys := by
            intro xs ys
            rw [Bool.eq_iff_iff, cmpCells_cons lib asc ascs xs ys ha ha (fun h => absurd rfl h)]
            simp [KeyLt.irrefl]
          rw [hsame, hsame]
          exact ih hbs hrest hlt'
        · have hcell : ¬ CellsComparable a b := by
            intro hc
            exact h ⟨fun _ => hc, fun h' => absurd h' hab⟩
          have hkey : KeyLt asc a b := by
            rcases hlt with hlt | ⟨h', -⟩
            · exact hlt
            · exact absurd h' hab
          exact cmpCells_cons_of_not_comparable lib ascs as bs ha hb hcell hkey

theorem RowsComparable.refl (as : List Value) : RowsComparable as as := by
  induction as with
  | nil => trivial
  | cons a as ih => exact ⟨fun h => absurd rfl h, fun _ => ih⟩

theorem RowsComparable.symm (h : RowsComparable as bs) : RowsComparable bs as := by
  induction as generalizing bs with
  | nil => cases bs <;> trivial
  | cons a as ih =>
    cases bs with
    | nil => trivial
    | cons b bs =>
      exact ⟨fun hab => (h.1 (Ne.symm hab)).symm, fun hab => ih (h.2 hab.symm)⟩

end

end TDB
