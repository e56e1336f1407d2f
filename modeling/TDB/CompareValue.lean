import Mathlib.Data.List.Count
import TDB.Expression

namespace TDB

variable {T : Type} {lib : StdLib} {comp : CompOp} {left right : Value} {vs : List Value}

/-! ## `NULL` -/

/-- What three-valued logic asks of a comparison, other than `IS [NOT] NULL` and `[NOT] EXISTS`,
that is reported to be true. -/
def NullRule (lib : StdLib) (comp : CompOp) (leftExpr : Expression T)
    (rightExpr : Option (Expression T)) (left right : Value) : Prop :=
  comp ∉ [CompOp.isNull, .isNotNull, .existsOp, .notExistsOp] →
    compareValue lib comp leftExpr rightExpr left right = .ok true →
      left.isNull = false ∧
      (comp ∉ [CompOp.inOp, .notInOp] → right.isNull = false) ∧
      ∀ vs, rightExpr.bind Expression.values? = some vs →
        (comp = .inOp → ∃ v ∈ vs, v.isNull = false ∧ v.compare lib left = 0) ∧
        (comp = .notInOp → ∀ v ∈ vs, v.isNull = false)

/-- What `Value::compare` must not say about a list with `NULL` in it, or about a `NULL` on the
left.  It compares `NULL` as the number 0. -/
def NullsDecideNothing (lib : StdLib) (comp : CompOp) (left : Value) (vs : List Value) : Prop :=
  if comp = .inOp then
    (left.isNull = true → ∀ v ∈ vs, v.compare lib left ≠ 0) ∧
      ((∃ v ∈ vs, v.isNull = true ∧ v.compare lib left = 0) →
        ∃ v ∈ vs, v.isNull = false ∧ v.compare lib left = 0)
  else if comp = .notInOp then
    (left.isNull = true ∨ ∃ v ∈ vs, v.isNull = true) → ∃ v ∈ vs, v.compare lib left = 0
  else True

theorem valueIn_iff {value : Value} :
    valueIn lib value vs = true ↔ ∃ v ∈ vs, v.compare lib value = 0 := by
  simp [valueIn]

theorem compareValue_in (hcomp : comp = .inOp ∨ comp = .notInOp) {leftExpr : Expression T}
    {rightExpr : Option (Expression T)} :
    compareValue lib comp leftExpr rightExpr left right = .ok true ↔
      ∃ vs, rightExpr.bind Expression.values? = some vs ∧
        (if comp = .inOp then ∃ v ∈ vs, v.compare lib left = 0
          else ∀ v ∈ vs, v.compare lib left ≠ 0) := by
  cases rightExpr with
  | none => rcases hcomp with rfl | rfl <;> simp [compareValue]
  | some e =>
    cases hvs : e.values? with
    | none => rcases hcomp with rfl | rfl <;> simp [compareValue, hvs]
    | some vs =>
      rcases hcomp with rfl | rfl
      · simp [compareValue, hvs, valueIn_iff]
      · simp [compareValue, hvs, ← Bool.not_eq_true, valueIn_iff]

/-- All comparisons but `IN` and `NOT IN` see to `NULL` before they compare. -/
theorem isNull_of_compareValue {leftExpr : Expression T} {rightExpr : Option (Expression T)}
    (hcomp : comp ∉ [CompOp.isNull, .isNotNull, .existsOp, .notExistsOp, .inOp, .notInOp])
    (h : compareValue lib comp leftExpr rightExpr left right = .ok true) :
    left.isNull = false ∧ right.isNull = false := by
  have hnull : (left.isNull || right.isNull) = false := by
    by_contra hnull
    rw [Bool.not_eq_false] at hnull
    have hfalse : compareValue lib comp leftExpr rightExpr left right = .ok false := by
      cases comp <;> simp_all [compareValue]
    rw [hfalse] at h
    cases h
  exact Bool.or_eq_false_iff.1 hnull

section

variable {leftExpr : Expression T} {rightExpr : Option (Expression T)}

theorem nullRule_in (hvs : rightExpr.bind Expression.values? = some vs) :
    NullRule lib .inOp leftExpr rightExpr left right ↔ NullsDecideNothing lib .inOp left vs := by
  simp only [NullRule, NullsDecideNothing, compareValue_in (.inl rfl), hvs, if_true]
  constructor
  · intro hrule
    have hrule := fun v hv heq => hrule (by decide) ⟨vs, rfl, v, hv, heq⟩
    constructor
    · intro hnull v hv heq
      have hleft := (hrule v hv heq).1
      rw [hnull] at hleft
      cases hleft
    · rintro ⟨v, hv, -, heq⟩
      exact ((hrule v hv heq).2.2 vs rfl).1 trivial
  · rintro ⟨hleft, hnulls⟩ - ⟨us, hus, v, hv, heq⟩
    obtain rfl := Option.some.inj hus
    refine ⟨?_, fun hnot => absurd hnot (by decide), fun us hus => ⟨fun _ => ?_, ?_⟩⟩
    · by_contra hnull
      rw [Bool.not_eq_false] at hnull
      exact hleft hnull v hv heq
    · obtain rfl := Option.some.inj hus
      cases hnull : v.isNull with
      | false => exact ⟨v, hv, hnull, heq⟩
      | true => exact hnulls ⟨v, hv, hnull, heq⟩
    · rintro ⟨⟩

theorem nullRule_notIn (hvs : rightExpr.bind Expression.values? = some vs) :
    NullRule lib .notInOp leftExpr rightExpr left right ↔
      NullsDecideNothing lib .notInOp left vs := by
  have hne : CompOp.notInOp ≠ .inOp := by decide
  simp only [NullRule, NullsDecideNothing, compareValue_in (.inr rfl), hvs, if_neg hne, if_true]
  constructor
  · intro hrule hnulls
    by_contra hnone
    have hall : ∀ v ∈ vs, v.compare lib left ≠ 0 := fun v hv heq => hnone ⟨v, hv, heq⟩
    obtain ⟨hleft, -, hlist⟩ := hrule (by decide) ⟨vs, rfl, hall⟩
    rcases hnulls with hnull | ⟨v, hv, hnull⟩
    · rw [hnull] at hleft
      cases hleft
    · have hfalse := (hlist vs rfl).2 trivial v hv
      rw [hnull] at hfalse
      cases hfalse
  · rintro hnulls - ⟨us, hus, hall⟩
    obtain rfl := Option.some.inj hus
    have hno : ¬(left.isNull = true ∨ ∃ v ∈ vs, v.isNull = true) := by
      intro hnull
      obtain ⟨v, hv, heq⟩ := hnulls hnull
      exact hall v hv heq
    rw [not_or, Bool.not_eq_true] at hno
    refine ⟨hno.1, fun hnot => absurd hnot (by decide), fun us hus => ⟨?_, fun _ v hv => ?_⟩⟩
    · rintro ⟨⟩
    · obtain rfl := Option.some.inj hus
      by_contra hnull
      rw [Bool.not_eq_false] at hnull
      exact hno.2 ⟨v, hv, hnull⟩

theorem nullRule_of_no_list (hin : comp = .inOp ∨ comp = .notInOp)
    (hvs : rightExpr.bind Expression.values? = none) :
    NullRule lib comp leftExpr rightExpr left right := by
  rintro - htrue
  rw [compareValue_in hin] at htrue
  obtain ⟨vs, hsome, -⟩ := htrue
  rw [hvs] at hsome
  cases hsome

theorem nullRule_of_not_in (hin : comp ≠ .inOp) (hnotIn : comp ≠ .notInOp) :
    NullRule lib comp leftExpr rightExpr left right := by
  intro hsql htrue
  have hother : comp ∉
      [CompOp.isNull, .isNotNull, .existsOp, .notExistsOp, .inOp, .notInOp] := by
    simp only [List.mem_cons, List.not_mem_nil, or_false, not_or] at hsql ⊢
    exact ⟨hsql.1, hsql.2.1, hsql.2.2.1, hsql.2.2.2, hin, hnotIn⟩
  obtain ⟨hleft, hright⟩ := isNull_of_compareValue hother htrue
  exact ⟨hleft, fun _ => hright, fun vs _ =>
    ⟨fun heq => absurd heq hin, fun heq => absurd heq hnotIn⟩⟩

end

/-- The rule holds exactly where `NULL` does not decide the search of a list. -/
theorem nullRule_iff (lib : StdLib) (comp : CompOp) (leftExpr : Expression T)
    (rightExpr : Option (Expression T)) (left right : Value) :
    NullRule lib comp leftExpr rightExpr left right ↔
      ∀ vs, rightExpr.bind Expression.values? = some vs → NullsDecideNothing lib comp left vs := by
  by_cases hin : comp = .inOp ∨ comp = .notInOp
  · cases hvs : rightExpr.bind Expression.values? with
    | none => simp [nullRule_of_no_list hin hvs]
    | some vs =>
      have hiff : NullRule lib comp leftExpr rightExpr left right ↔
          NullsDecideNothing lib comp left vs := by
        rcases hin with rfl | rfl
        · exact nullRule_in hvs
        · exact nullRule_notIn hvs
      rw [hiff]
      simp
  · rw [not_or] at hin
    have hnothing : ∀ vs, NullsDecideNothing lib comp left vs := by
      intro vs
      rw [NullsDecideNothing, if_neg hin.1, if_neg hin.2]
      trivial
    simp [nullRule_of_not_in hin.1 hin.2, hnothing]

/-- `NULL NOT IN (NULL)` is reported to be true. -/
theorem not_nullRule_notIn :
    ¬ ∀ lib : StdLib, NullRule lib .notInOp (.value .nulls : Expression Unit)
      (some (.values [.nulls])) .nulls .undefined := by
  intro hrule
  have htrue := hrule ⟨fun _ => none, fun _ => none, fun _ _ => none, fun _ => []⟩ (by decide) rfl
  exact Bool.false_ne_true htrue.1.symm

/-! ## `LIKE` -/

namespace Like

inductive Token where
  | char (c : UInt8)
  | one
  | many
  deriving DecidableEq

def percent : UInt8 := 0x25

def underscore : UInt8 := 0x5F

/-- `'`. -/
def quote : UInt8 := 0x27

/-- The rule of SQL: `%` is any sequence, `_` is any character. -/
def token (c : UInt8) : Token :=
  if c = percent then .many else if c = underscore then .one else .char c

def lower (c : UInt8) : UInt8 := if 0x41 ≤ c ∧ c ≤ 0x5A then c + 0x20 else c

/-- A string matches tokens, where `one` and `many` take only characters of `wild`. -/
def matchesWith (wild : UInt8 → Bool) : List Token → List UInt8 → Bool
  | [], s => s.isEmpty
  | .char c :: ts, s =>
    match s with
    | [] => false
    | a :: s => lower a = lower c && matchesWith wild ts s
  | .one :: ts, s =>
    match s with
    | [] => false
    | a :: s => wild a && matchesWith wild ts s
  | .many :: ts, s => (List.range (s.length + 1)).any fun n =>
      (s.take n).all wild && matchesWith wild ts (s.drop n)

def sqlLike (s p : List UInt8) : Bool := matchesWith (fun _ => true) (p.map token) s

def Token.regex : Token → List UInt8
  | .char c => [c]
  | .one => [0x5B, 0x5E, 0x27, 0x5D]
  | .many => [0x5B, 0x5E, 0x27, 0x5D, 0x2A]

/-- The characters that mean something else in a regular expression. -/
def special : List UInt8 :=
  [0x5E, 0x24, 0x5C, 0x2E, 0x2A, 0x2B, 0x3F, 0x28, 0x29, 0x5B, 0x5D, 0x7B, 0x7D, 0x7C]

def printable (c : UInt8) : Bool := 0x20 ≤ c && c ≤ 0x7E

/-- `std::regex_match` implements ECMAScript with `icase` for expressions of ordinary characters,
`[^']` and `[^']*`. -/
def ImplementsECMAScript (lib : StdLib) : Prop :=
  ∀ (ts : List Token) (s : List UInt8), (∀ c, Token.char c ∈ ts → printable c ∧ c ∉ special) →
    lib.regexMatch s (ts.flatMap Token.regex) = some (matchesWith (· ≠ quote) ts s)

variable {wild wild' : UInt8 → Bool} {ts : List Token} {s p : List UInt8} {c a : UInt8}

@[simp] theorem matchesWith_char : matchesWith wild (.char c :: ts) s = true ↔
    ∃ a s', s = a :: s' ∧ lower a = lower c ∧ matchesWith wild ts s' = true := by
  cases s <;> simp [matchesWith]

@[simp] theorem matchesWith_one : matchesWith wild (.one :: ts) s = true ↔
    ∃ a s', s = a :: s' ∧ wild a = true ∧ matchesWith wild ts s' = true := by
  cases s <;> simp [matchesWith]

@[simp] theorem matchesWith_many : matchesWith wild (.many :: ts) s = true ↔
    ∃ t s', s = t ++ s' ∧ (∀ a ∈ t, wild a = true) ∧ matchesWith wild ts s' = true := by
  simp only [matchesWith, List.any_eq_true, List.mem_range, Bool.and_eq_true, List.all_eq_true]
  constructor
  · rintro ⟨n, -, hwild, hrest⟩
    exact ⟨s.take n, s.drop n, (List.take_append_drop n s).symm, hwild, hrest⟩
  · rintro ⟨t, s', rfl, hwild, hrest⟩
    have hlt : t.length < (t ++ s').length + 1 := by
      rw [List.length_append]
      omega
    exact ⟨t.length, hlt, by simpa using hwild, by simpa using hrest⟩

/-! ### The two replacements -/

/-- The translation of a pattern replaces each character by the expression of its token. -/
theorem likePattern_eq {v : Value} :
    likePattern lib v = ((v.dataBytes lib).map token).flatMap Token.regex := by
  unfold likePattern replaceAll
  rw [List.flatMap_assoc, List.flatMap_map]
  congr 1
  funext c
  by_cases hunderscore : c = underscore
  · subst hunderscore
    rfl
  · have hreplaced : (if c = 0x5F then [0x5B, 0x5E, 0x27, 0x5D] else [c]) = [c] :=
      if_neg hunderscore
    rw [hreplaced, List.flatMap_singleton]
    by_cases hpercent : c = percent
    · subst hpercent
      rfl
    · rw [token, if_neg hpercent, if_neg hunderscore]
      exact if_neg hpercent

/-! ### Quotes -/

theorem lower_eq_quote : lower a = lower quote ↔ a = quote := by
  unfold lower quote
  grind

def quotes (ts : List Token) : ℕ := ts.count (.char quote)

theorem quotes_cons (t : Token) (ts : List Token) :
    quotes (t :: ts) = quotes ts + if t = .char quote then 1 else 0 := by
  simp [quotes, List.count_cons]

theorem count_cons_lower (h : lower a = lower c) :
    (a :: s).count quote = s.count quote + if Token.char c = .char quote then 1 else 0 := by
  have hiff : a = quote ↔ c = quote := by
    constructor
    · rintro rfl
      exact lower_eq_quote.1 h.symm
    · rintro rfl
      exact lower_eq_quote.1 h
  simp [List.count_cons, hiff]

theorem quotes_le (h : matchesWith wild ts s = true) : quotes ts ≤ s.count quote := by
  induction ts generalizing s with
  | nil => simp [quotes]
  | cons t ts ih =>
    cases t with
    | char c =>
      obtain ⟨a, s', rfl, hlower, hrest⟩ := matchesWith_char.1 h
      rw [quotes_cons, count_cons_lower hlower]
      exact Nat.add_le_add_right (ih hrest) _
    | one =>
      obtain ⟨a, s', rfl, -, hrest⟩ := matchesWith_one.1 h
      rw [quotes_cons, if_neg (by decide), List.count_cons]
      exact Nat.le_trans (ih hrest) (Nat.le_add_right _ _)
    | many =>
      obtain ⟨t, s', rfl, -, hrest⟩ := matchesWith_many.1 h
      rw [quotes_cons, if_neg (by decide), List.count_append]
      exact Nat.le_trans (ih hrest) (Nat.le_add_left _ _)

/-- Wildcards that leave the quotes out match the strings that have no quote too many. -/
theorem matchesWith_quote_iff : matchesWith (· ≠ quote) ts s = true ↔
    matchesWith (fun _ => true) ts s = true ∧ s.count quote = quotes ts := by
  induction ts generalizing s with
  | nil =>
    have hnil : ∀ wild, matchesWith wild [] s = true ↔ s = [] := fun wild => List.isEmpty_iff
    rw [hnil, hnil]
    constructor
    · rintro rfl
      exact ⟨rfl, rfl⟩
    · exact And.left
  | cons t ts ih =>
    cases t with
    | char c =>
      rw [matchesWith_char, matchesWith_char]
      constructor
      · rintro ⟨a, s', rfl, hlower, hrest⟩
        obtain ⟨hmatches, hcount⟩ := ih.1 hrest
        refine ⟨⟨a, s', rfl, hlower, hmatches⟩, ?_⟩
        rw [quotes_cons, count_cons_lower hlower, hcount]
      · rintro ⟨⟨a, s', rfl, hlower, hrest⟩, hcount⟩
        rw [quotes_cons, count_cons_lower hlower] at hcount
        exact ⟨a, s', rfl, hlower, ih.2 ⟨hrest, Nat.add_right_cancel hcount⟩⟩
    | one =>
      rw [matchesWith_one, matchesWith_one, quotes_cons, if_neg (by decide)]
      constructor
      · rintro ⟨a, s', rfl, hwild, hrest⟩
        obtain ⟨hmatches, hcount⟩ := ih.1 hrest
        have ha : a ≠ quote := by simpa using hwild
        refine ⟨⟨a, s', rfl, rfl, hmatches⟩, ?_⟩
        rw [List.count_cons_of_ne ha, hcount, Nat.add_zero]
      -- a quote under the wildcard would be one too many
      · rintro ⟨⟨a, s', rfl, -, hrest⟩, hcount⟩
        have hle := quotes_le hrest
        have ha : a ≠ quote := by
          rintro rfl
          rw [List.count_cons_self] at hcount
          omega
        rw [List.count_cons_of_ne ha] at hcount
        exact ⟨a, s', rfl, by simpa using ha, ih.2 ⟨hrest, hcount⟩⟩
    | many =>
      rw [matchesWith_many, matchesWith_many, quotes_cons, if_neg (by decide)]
      constructor
      · rintro ⟨t, s', rfl, hwild, hrest⟩
        obtain ⟨hmatches, hcount⟩ := ih.1 hrest
        have ht : t.count quote = 0 := by
          apply List.count_eq_zero_of_not_mem
          intro hmem
          simpa using hwild quote hmem
        refine ⟨⟨t, s', rfl, fun _ _ => rfl, hmatches⟩, ?_⟩
        rw [List.count_append, ht, hcount]
        omega
      -- the rest already has all quotes of the pattern, so there is none under the wildcard
      · rintro ⟨⟨t, s', rfl, -, hrest⟩, hcount⟩
        have hle := quotes_le hrest
        rw [List.count_append] at hcount
        have ht : t.count quote = 0 := by omega
        refine ⟨t, s', rfl, fun a ha => ?_, ih.2 ⟨hrest, by omega⟩⟩
        have hne : a ≠ quote := by
          rintro rfl
          exact List.count_eq_zero.1 ht ha
        simpa using hne

theorem quotes_map_token (p : List UInt8) : quotes (p.map token) = p.count quote := by
  induction p with
  | nil => rfl
  | cons c p ih =>
    have htoken : token c = .char quote ↔ c = quote := by
      constructor
      · intro h
        unfold token at h
        split_ifs at h
        exact Token.char.inj h
      · rintro rfl
        rfl
    rw [List.map_cons, quotes_cons, ih, List.count_cons]
    simp only [htoken, beq_iff_eq]

/-! ### `compare_value` -/

/-- `LIKE` and `NOT LIKE` of two values say what SQL says about their strings. -/
def LikeAsSql (lib : StdLib) (leftExpr : Expression T) (rightExpr : Option (Expression T))
    (left right : Value) : Prop :=
  let matched := sqlLike (left.dataBytes lib) (right.dataBytes lib)
  compareValue lib .likeOp leftExpr rightExpr left right = .ok matched ∧
    compareValue lib .notLikeOp leftExpr rightExpr left right = .ok (!matched)

/-- The characters of a pattern that stand for themselves in a regular expression. -/
def Plain (p : List UInt8) : Prop := ∀ c ∈ p, printable c = true ∧ c ∉ special

instance (p : List UInt8) : Decidable (Plain p) :=
  inferInstanceAs (Decidable (∀ c ∈ p, printable c = true ∧ c ∉ special))

/-- A pattern of such characters is matched as in SQL, except for strings that match it only with a
quote for a wildcard. -/
theorem likeAsSql_iff (hlib : ImplementsECMAScript lib) {leftExpr : Expression T}
    {rightExpr : Option (Expression T)} (hleft : left.isNull = false)
    (hright : right.isNull = false) (hplain : Plain (right.dataBytes lib)) :
    LikeAsSql lib leftExpr rightExpr left right ↔
      (sqlLike (left.dataBytes lib) (right.dataBytes lib) = true →
        (left.dataBytes lib).count quote = (right.dataBytes lib).count quote) := by
  have hchars : ∀ c, Token.char c ∈ (right.dataBytes lib).map token →
      printable c = true ∧ c ∉ special := by
    intro c hc
    obtain ⟨c', hmem, htoken⟩ := List.mem_map.1 hc
    unfold token at htoken
    split_ifs at htoken
    rw [← Token.char.inj htoken]
    exact hplain c' hmem
  have hregex := hlib _ (left.dataBytes lib) hchars
  rw [← likePattern_eq] at hregex
  have hlike : ∀ b, compareValue lib .likeOp leftExpr rightExpr left right = .ok b ↔
      matchesWith (· ≠ quote) ((right.dataBytes lib).map token) (left.dataBytes lib) = b := by
    intro b
    simp [compareValue, hleft, hright, hregex]
  have hnotLike : ∀ b, compareValue lib .notLikeOp leftExpr rightExpr left right = .ok (!b) ↔
      matchesWith (· ≠ quote) ((right.dataBytes lib).map token) (left.dataBytes lib) = b := by
    intro b
    simp [compareValue, hleft, hright, hregex]
  rw [LikeAsSql, hlike, hnotLike, and_self, Bool.eq_iff_iff, matchesWith_quote_iff,
    quotes_map_token]
  exact ⟨fun h hmatched => (h.2 hmatched).2, fun h => ⟨And.left, fun hmatched =>
    ⟨hmatched, h hmatched⟩⟩⟩

/-- Reads an expression of ordinary characters, `[^']` and `[^']*`. -/
def parse : List UInt8 → Option (List Token)
  | [] => some []
  | c :: r =>
    if c = 0x5B then
      match r with
      | 0x5E :: 0x27 :: 0x5D :: 0x2A :: r => (parse r).map (Token.many :: ·)
      | 0x5E :: 0x27 :: 0x5D :: r => (parse r).map (Token.one :: ·)
      | _ => none
    else if c ∈ special then none
    else (parse r).map (Token.char c :: ·)

/-- The expression of a token begins with a bracket or an ordinary character. -/
theorem flatMap_regex_ne (hts : ∀ c, Token.char c ∈ ts → printable c = true ∧ c ∉ special)
    {r : List UInt8} (hc : c ∈ special) (hbracket : c ≠ 0x5B) :
    ts.flatMap Token.regex ≠ c :: r := by
  intro heq
  cases ts with
  | nil => cases heq
  | cons t ts =>
    have hhead := congrArg List.head? heq
    cases t with
    | char d =>
      obtain rfl : d = c := Option.some.inj hhead
      exact (hts d List.mem_cons_self).2 hc
    | one => exact hbracket (Option.some.inj hhead).symm
    | many => exact hbracket (Option.some.inj hhead).symm

theorem parse_flatMap (hts : ∀ c, Token.char c ∈ ts → printable c = true ∧ c ∉ special) :
    parse (ts.flatMap Token.regex) = some ts := by
  induction ts with
  | nil => rfl
  | cons t ts ih =>
    have htail' := fun c hc => hts c (List.mem_cons_of_mem t hc)
    have htail := ih htail'
    rw [List.flatMap_cons]
    cases t with
    | char c =>
      have hc := (hts c List.mem_cons_self).2
      have hbracket : c ≠ 0x5B := by
        rintro rfl
        exact hc (by decide)
      change parse (c :: ts.flatMap Token.regex) = _
      rw [parse, if_neg hbracket, if_neg hc, htail]
      · rfl
      · exact fun r => flatMap_regex_ne htail' (by decide) (by decide)
      · exact fun r => flatMap_regex_ne htail' (by decide) (by decide)
    | one =>
      change parse (0x5B :: 0x5E :: 0x27 :: 0x5D :: ts.flatMap Token.regex) = _
      rw [parse, if_pos rfl, htail]
      · rfl
      · exact fun r => flatMap_regex_ne htail' (by decide) (by decide)
    | many =>
      change parse (0x5B :: 0x5E :: 0x27 :: 0x5D :: 0x2A :: ts.flatMap Token.regex) = _
      rw [parse, if_pos rfl, htail]
      rfl

/-- A library that knows these expressions and throws for all others. -/
def fragmentLib : StdLib where
  stof _ := none
  stol _ := none
  regexMatch s r := (parse r).map fun ts => matchesWith (· ≠ quote) ts s
  numBytes _ := []

theorem implementsECMAScript_fragmentLib : ImplementsECMAScript fragmentLib := by
  intro ts s hts
  simp only [fragmentLib, parse_flatMap hts, Option.map_some]

/-- `'abc' LIKE 'A_%'`. -/
theorem likeAsSql_abc :
    LikeAsSql fragmentLib (.value .nulls : Expression Unit) none (.chars [0x61, 0x62, 0x63])
      (.chars [0x41, underscore, percent]) := by
  have hplain : Plain [0x41, underscore, percent] := by
    intro c hc
    simp only [List.mem_cons, List.not_mem_nil, or_false] at hc
    rcases hc with rfl | rfl | rfl <;> decide
  apply (likeAsSql_iff implementsECMAScript_fragmentLib rfl rfl _).2
  · decide
  · exact hplain

/-- A quote is no character for `%`, and a parenthesis in a pattern is an exception. -/
theorem not_likeAsSql_quote :
    ¬LikeAsSql fragmentLib (.value .nulls : Expression Unit) none (.chars [quote])
        (.chars [percent]) ∧
      compareValue fragmentLib .likeOp (.value .nulls : Expression Unit) none (.chars [0x28])
        (.chars [0x28]) = .error .exception := by
  constructor
  · intro h
    have hmatched := h.1
    have hnot : compareValue fragmentLib .likeOp (.value .nulls : Expression Unit) none
        (.chars [quote]) (.chars [percent]) = .ok false := rfl
    rw [hnot] at hmatched
    exact absurd hmatched (by decide)
  · rfl

end Like

end TDB
