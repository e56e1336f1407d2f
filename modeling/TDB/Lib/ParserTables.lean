import Mathlib.Data.List.GetD
import Mathlib.Data.List.Lemmas
import Mathlib.Tactic.NormNum
import Mathlib.Tactic.SplitIfs

namespace TableParser

/-! ## Parsers that Bison generates

A parser is its tables, which say what to do, and the code of its rules.  Symbols, states and rules
are numbered; the end of the input is the symbol `0`, and the rule `1` has the start symbol and the
end of the input behind it.
-/

structure Tables where
  yypact : List ℤ
  yypactNinf : ℤ
  yydefact : List ℕ
  yypgoto : List ℤ
  yydefgoto : List ℕ
  yytable : List ℤ
  yycheck : List ℤ
  yyr1 : List ℕ
  yyr2 : List ℕ
  yyntokens : ℕ
  yyfinal : ℕ
  yymaxdepth : ℕ

inductive Action where
  | shift (state : ℕ)
  | reduce (rule : ℕ)
  | error
deriving DecidableEq

namespace Tables

variable (t : Tables)

/-- `yydefault`. -/
def defaultAction (state : ℕ) : Action :=
  let yyn := t.yydefact.getD state 0
  if yyn = 0 then .error else .reduce yyn

def entryAction (yyn : ℤ) : Action :=
  if yyn ≤ 0 then .reduce (-yyn).toNat else .shift yyn.toNat

/-- `yybackup`. -/
def action (state token : ℕ) : Action :=
  let yyn := t.yypact.getD state t.yypactNinf
  if yyn = t.yypactNinf then t.defaultAction state
  else
    let yyn := yyn + token
    if yyn < 0 ∨ t.yytable.length ≤ yyn ∨ t.yycheck.getD yyn.toNat (-1) ≠ token then
      t.defaultAction state
    else entryAction (t.yytable.getD yyn.toNat 0)

def goto (state symbol : ℕ) : ℕ :=
  let yylhs := symbol - t.yyntokens
  let yyi := t.yypgoto.getD yylhs 0 + state
  if 0 ≤ yyi ∧ yyi < t.yytable.length ∧ t.yycheck.getD yyi.toNat (-1) = state then
    (t.yytable.getD yyi.toNat 0).toNat
  else t.yydefgoto.getD yylhs 0

end Tables

/-- A parser of tokens, with the values of its stack, the data that the code of its rules works on,
and what can go wrong in that code.  A rule sees the value to the left of its symbols. -/
structure Parser (Token V S E : Type) extends Tables where
  kind : Token → ℕ
  kind_ne : ∀ t, kind t ≠ 0
  kind_lt : ∀ t, kind t < yyntokens
  eof_lt : 0 < yyntokens
  value : Token → V
  eofValue : V
  bottom : V
  reduce : ℕ → V → List V → S → Except E (V × S)

/-- The stack above its bottom, the topmost state first; the tokens that are left; the data. -/
structure Config (Token V S : Type) where
  stack : List (ℕ × V)
  input : List Token
  data : S

inductive Outcome (E : Type) where
  | accept
  | abort
  | nomem
  | fault (e : E)

variable {Token V S E : Type}

namespace Config

variable (c : Config Token V S)

def states : List ℕ := c.stack.map Prod.fst

def state : ℕ := c.states.headD 0

def values : List V := (c.stack.map Prod.snd).reverse

def start (input : List Token) (data : S) : Config Token V S := ⟨[], input, data⟩

end Config

namespace Parser

variable (P : Parser Token V S E)

def look : List Token → ℕ
  | [] => 0
  | token :: _ => P.kind token

theorem look_lt (input : List Token) : P.look input < P.yyntokens := by
  cases input with
  | nil => exact P.eof_lt
  | cons token rest => exact P.kind_lt token

def lookValue : List Token → V
  | [] => P.eofValue
  | token :: _ => P.value token

/-- From one `yysetstate` to the next. -/
def step (c : Config Token V S) : Outcome E ⊕ Config Token V S :=
  if P.yymaxdepth ≤ c.stack.length + 1 then .inl .nomem
  else if c.state = P.yyfinal then .inl .accept
  else match P.action c.state (P.look c.input) with
    | .shift state =>
      .inr { c with stack := (state, P.lookValue c.input) :: c.stack, input := c.input.tail }
    | .reduce rule =>
      let yylen := P.yyr2.getD rule 0
      let rest := c.stack.drop yylen
      let args := ((c.stack.take yylen).map Prod.snd).reverse
      match P.reduce rule ((rest.map Prod.snd).headD P.bottom) args c.data with
      | .error e => .inl (.fault e)
      | .ok (v, data) =>
        let state := P.goto ((rest.map Prod.fst).headD 0) (P.yyr1.getD rule 0)
        .inr { c with stack := (state, v) :: rest, data := data }
    -- no rule has the `error` token, so that `yyerrlab1` takes everything off the stack
    | .error => .inl .abort

def run : ℕ → Config Token V S → Option (Outcome E × Config Token V S)
  | 0, _ => none
  | n + 1, c => match P.step c with
    | .inl outcome => some (outcome, c)
    | .inr c => run n c

end Parser

/-! ## The grammar -/

/-- `Derives P rules left symbols word values s s'`: the symbols derive the word, and the code of
the rules, run from left to right behind the value `left`, gives the values and changes the data. -/
inductive Derives (P : Parser Token V S E) (rules : List (ℕ × List ℕ)) :
    V → List ℕ → List Token → List V → S → S → Prop where
  | nil (left : V) (s : S) : Derives P rules left [] [] [] s s
  | token {left symbols word values s s'} (t : Token)
      (h : Derives P rules (P.value t) symbols word values s s') :
      Derives P rules left (P.kind t :: symbols) (t :: word) (P.value t :: values) s s'
  | eof {left symbols word values s s'}
      (h : Derives P rules P.eofValue symbols word values s s') :
      Derives P rules left (0 :: symbols) word (P.eofValue :: values) s s'
  | rule {left n lhs rhs word args s s₁ v s₂ symbols word' values s'}
      (hn : 0 < n) (hrule : rules[n]? = some (lhs, rhs))
      (hbody : Derives P rules left rhs word args s s₁)
      (hreduce : P.reduce n left args s₁ = .ok (v, s₂))
      (h : Derives P rules v symbols word' values s₂ s') :
      Derives P rules left (lhs :: symbols) (word ++ word') (v :: values) s s'

namespace Derives

variable {P : Parser Token V S E} {rules : List (ℕ × List ℕ)} {left : V} {symbols symbols' : List ℕ}
  {word word' : List Token} {values values' : List V} {s s' s'' : S}

theorem length_eq (h : Derives P rules left symbols word values s s') :
    values.length = symbols.length := by
  induction h with
  | nil => rfl
  | token t h ih => rw [List.length_cons, List.length_cons, ih]
  | eof h ih => rw [List.length_cons, List.length_cons, ih]
  | rule hn hrule hbody hreduce h _ ih => rw [List.length_cons, List.length_cons, ih]

theorem append (h : Derives P rules left symbols word values s s')
    (h' : Derives P rules (values.getLastD left) symbols' word' values' s' s'') :
    Derives P rules left (symbols ++ symbols') (word ++ word') (values ++ values') s s'' := by
  induction h with
  | nil => exact h'
  | token t h ih =>
    rw [List.getLastD_cons] at h'
    exact .token t (ih h')
  | eof h ih =>
    rw [List.getLastD_cons] at h'
    exact .eof (ih h')
  | rule hn hrule hbody hreduce h _ ih =>
    rw [List.getLastD_cons] at h'
    rw [List.append_assoc]
    exact .rule hn hrule hbody hreduce (ih h')

theorem split (h : Derives P rules left (symbols ++ symbols') word values s s'') :
    ∃ word₁ word₂ values₁ values₂ s', word = word₁ ++ word₂ ∧ values = values₁ ++ values₂ ∧
      Derives P rules left symbols word₁ values₁ s s' ∧
      Derives P rules (values₁.getLastD left) symbols' word₂ values₂ s' s'' := by
  induction symbols generalizing left word values s with
  | nil => exact ⟨[], word, [], values, s, rfl, rfl, .nil left s, h⟩
  | cons symbol symbols ih =>
    rw [List.cons_append] at h
    cases h with
    | token t h =>
      obtain ⟨word₁, word₂, values₁, values₂, s', rfl, rfl, h₁, h₂⟩ := ih h
      exact ⟨t :: word₁, word₂, P.value t :: values₁, values₂, s', rfl, rfl, .token t h₁,
        by rwa [List.getLastD_cons]⟩
    | eof h =>
      obtain ⟨word₁, word₂, values₁, values₂, s', rfl, rfl, h₁, h₂⟩ := ih h
      exact ⟨word₁, word₂, P.eofValue :: values₁, values₂, s', rfl, rfl, .eof h₁,
        by rwa [List.getLastD_cons]⟩
    | rule hn hrule hbody hreduce h =>
      obtain ⟨word₁, word₂, values₁, values₂, s', rfl, rfl, h₁, h₂⟩ := ih h
      exact ⟨_, word₂, _ :: values₁, values₂, s', (List.append_assoc ..).symm, rfl,
        .rule hn hrule hbody hreduce h₁, by rwa [List.getLastD_cons]⟩

/-- What all tokens have, and the rules give to what they build, all symbols have. -/
theorem good {Good : ℕ → V → Prop} (heof : Good 0 P.eofValue)
    (hrule : ∀ n lhs rhs left args s v s', 0 < n → rules[n]? = some (lhs, rhs) →
      List.Forall₂ Good rhs args → P.reduce n left args s = .ok (v, s') → Good lhs v)
    (h : Derives P rules left symbols word values s s')
    (htokens : ∀ t ∈ word, Good (P.kind t) (P.value t)) : List.Forall₂ Good symbols values := by
  induction h with
  | nil => exact .nil
  | token t h ih =>
    apply List.Forall₂.cons (htokens t List.mem_cons_self)
    exact ih fun t ht => htokens t (List.mem_cons_of_mem _ ht)
  | eof h ih => exact .cons heof (ih htokens)
  | rule hn hlhs hbody hreduce h ihbody ih =>
    apply List.Forall₂.cons
    · apply hrule _ _ _ _ _ _ _ _ hn hlhs _ hreduce
      exact ihbody fun t ht => htokens t (List.mem_append_left _ ht)
    · exact ih fun t ht => htokens t (List.mem_append_right _ ht)

end Derives

/-! ## What is checked of the tables -/

/-- What the tables were made from: the rules, the symbol in front of each state, its items (a rule,
and how many of its symbols are behind), the rules that may begin in it, and weights that fall while
the input stays. -/
structure Certificate where
  rules : List (ℕ × List ℕ)
  symbol : ℕ → ℕ
  itemsOf : ℕ → List (ℕ × ℕ)
  predictedIn : ℕ → List ℕ
  weight : ℕ → ℕ
  rankOf : ℕ → ℕ
  tokenWeight : ℕ

namespace Certificate

variable (k : Certificate)

def lhs (n : ℕ) : ℕ := (k.rules.getD n (0, [])).1

def rhs (n : ℕ) : List ℕ := (k.rules.getD n (0, [])).2

/-- `q` may stand on top of `p`: its items are those of `p`, one symbol further. -/
def enters (p q : ℕ) : Bool :=
  k.itemsOf q ≠ [] && (k.itemsOf q).all fun item => match item with
    | (_, 0) => false
    | (n, 1) => (k.rhs n)[0]? = some (k.symbol q) && n ∈ k.predictedIn p
    | (n, d + 2) => (k.rhs n)[d + 1]? = some (k.symbol q) && (n, d + 1) ∈ k.itemsOf p

def reducible (p n : ℕ) : Bool :=
  2 ≤ n && n < k.rules.length &&
    if k.rhs n = [] then n ∈ k.predictedIn p else (n, (k.rhs n).length) ∈ k.itemsOf p

end Certificate

namespace Tables

variable (t : Tables) (k : Certificate)

def row (p : ℕ) : List (ℤ × ℤ) :=
  let yyn := t.yypact.getD p t.yypactNinf
  let first := yyn.toNat
  if yyn = t.yypactNinf then []
  else ((((t.yycheck.drop first).take t.yyntokens).zip (t.yytable.drop first)).zipIdx first |>.filter
    fun e => (e.2 : ℤ) = yyn + e.1.1).map Prod.fst

def checkAction (p token : ℕ) : Action → Bool
  | .shift q => k.symbol q = token && k.enters p q && (token = 0) == (q = t.yyfinal) &&
      k.weight token + k.rankOf q < k.tokenWeight
  | .reduce n => k.reducible p n
  | .error => true

/-- Behind a rule that may begin in `p` stands a state that is meant for its symbol. -/
def checkGoto (p n : ℕ) : Bool :=
  if n = 1 then p = 0
  else
    let q := t.goto p (k.lhs n)
    k.symbol q = k.lhs n && k.enters p q && q ≠ t.yyfinal &&
      k.weight (k.lhs n) + k.rankOf q <
        ((k.rhs n).map k.weight).sum + if k.rhs n = [] then k.rankOf p else 0

def checkState (p : ℕ) : Bool :=
  (p = t.yyfinal || ((t.row p).all fun e =>
    e.1 < 0 || t.checkAction k p e.1.toNat (entryAction e.2)) &&
    t.checkAction k p 0 (t.defaultAction p)) && (k.predictedIn p).all (t.checkGoto k p)

def check : Bool :=
  t.yycheck.length = t.yytable.length && t.yydefact.length ≤ t.yypact.length &&
    k.itemsOf 0 = [] &&
    k.itemsOf t.yyfinal = [(1, 2)] && k.rules.map Prod.fst = t.yyr1 &&
    k.rules.map (fun rule => rule.2.length) = t.yyr2

structure Fits : Prop where
  root : k.itemsOf 0 = []
  final : k.itemsOf t.yyfinal = [(1, 2)]
  yyr1 : ∀ n, t.yyr1.getD n 0 = k.lhs n
  yyr2 : ∀ n, t.yyr2.getD n 0 = (k.rhs n).length
  action : ∀ p, ∀ token < t.yyntokens, p ≠ t.yyfinal → t.checkAction k p token (t.action p token) = true
  goto : ∀ p, ∀ n ∈ k.predictedIn p, t.checkGoto k p n = true

variable {t k}

theorem checkAction_default {p : ℕ} (token : ℕ)
    (h : t.checkAction k p 0 (t.defaultAction p) = true) :
    t.checkAction k p token (t.defaultAction p) = true := by
  unfold defaultAction at h ⊢
  dsimp only at h ⊢
  split_ifs at h ⊢
  · rfl
  · exact h

theorem action_cases (hlength : t.yycheck.length = t.yytable.length) (p : ℕ) {token : ℕ}
    (htoken : token < t.yyntokens) :
    t.action p token = t.defaultAction p ∨
      ∃ yyn, ((token : ℤ), yyn) ∈ t.row p ∧ t.action p token = entryAction yyn := by
  unfold action row
  dsimp only
  split_ifs with hninf hdefault
  · exact .inl rfl
  · exact .inl rfl
  · right
    push Not at hdefault
    obtain ⟨hpos, hlast, hcheck⟩ := hdefault
    obtain ⟨i, hi⟩ := Int.eq_ofNat_of_zero_le hpos
    rw [hi, Int.toNat_natCast] at hcheck ⊢
    have hlt : i < t.yytable.length := by omega
    refine ⟨t.yytable.getD i 0, ?_, rfl⟩
    obtain ⟨j, hj⟩ : ∃ j, i = (t.yypact.getD p t.yypactNinf).toNat + j :=
      ⟨i - (t.yypact.getD p t.yypactNinf).toNat, by omega⟩
    apply List.mem_map.mpr
    refine ⟨((t.yycheck.getD i (-1), t.yytable.getD i 0), i), ?_, Prod.ext hcheck rfl⟩
    rw [List.mem_filter]
    constructor
    · rw [List.mem_zipIdx_iff_le_and_getElem?_sub]
      refine ⟨by omega, ?_⟩
      rw [hj, Nat.add_sub_cancel_left, ← hj, List.getElem?_zip_eq_some,
        List.getElem?_take_of_lt (by omega), List.getElem?_drop, List.getElem?_drop, ← hj,
        List.getD_eq_getElem?_getD, List.getD_eq_getElem?_getD,
        List.getElem?_eq_getElem (hlength ▸ hlt), List.getElem?_eq_getElem hlt]
      exact ⟨rfl, rfl⟩
    · dsimp only
      rw [decide_eq_true_eq, hcheck]
      omega

theorem fits_of_check (h : t.check k = true)
    (hpredicted : ∀ p, t.yypact.length ≤ p → k.predictedIn p = [])
    (hstates : ∀ p < t.yypact.length, t.checkState k p = true) : t.Fits k := by
  unfold check at h
  simp only [Bool.and_eq_true, decide_eq_true_eq] at h
  obtain ⟨⟨⟨⟨⟨hlength, hdefact⟩, hroot⟩, hfinal⟩, hr1⟩, hr2⟩ := h
  have hstate : ∀ p, t.checkState k p = true := by
    intro p
    by_cases hp : p < t.yypact.length
    · exact hstates p hp
    · have hpact : t.yypact.getD p t.yypactNinf = t.yypactNinf :=
        List.getD_eq_default _ _ (by omega)
      have hnone : k.predictedIn p = [] := hpredicted p (by omega)
      have hdefault : t.yydefact.getD p 0 = 0 := List.getD_eq_default _ _ (by omega)
      have hrow : t.row p = [] := if_pos hpact
      have herror : t.defaultAction p = .error := if_pos hdefault
      unfold checkState
      rw [hrow, herror, hnone]
      simp [checkAction]
  constructor
  case root => exact hroot
  case final => exact hfinal
  case yyr1 =>
    intro n
    rw [← hr1]
    exact List.getD_map k.rules (0, []) Prod.fst
  case yyr2 =>
    intro n
    rw [← hr2]
    exact List.getD_map k.rules (0, []) fun rule => rule.2.length
  case action =>
    intro p token htoken hne
    have hp := hstate p
    unfold checkState at hp
    simp only [Bool.and_eq_true, Bool.or_eq_true, decide_eq_true_eq, hne, false_or,
      List.all_eq_true] at hp
    obtain ⟨⟨hrow, hdefault⟩, -⟩ := hp
    obtain haction | ⟨yyn, hmem, haction⟩ := action_cases hlength p htoken
    · rw [haction]
      exact checkAction_default token hdefault
    · have hentry := hrow _ hmem
      rw [haction]
      have hpos : ¬ (token : ℤ) < 0 := by omega
      simpa [hpos] using hentry
  case goto =>
    intro p n hn
    have hp := hstate p
    unfold checkState at hp
    simp only [Bool.and_eq_true, List.all_eq_true] at hp
    exact hp.2 n hn

end Tables

end TableParser
