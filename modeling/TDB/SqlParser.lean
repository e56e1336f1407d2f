import TDB.SqlTables
import TDB.SqlTokens

namespace TDB.Sql

open TableParser

/-! ## `yyparse` with the code of the rules -/

def Rule.number (n : ℕ) : Option Rule :=
  match n with
  | 0 => none
  | n + 1 => rules[n]?

def tokenName (sql : List UInt8) (loc : YYLTYPE) : String :=
  text ((sql.drop loc.firstColumn.toNat).take (loc.lastColumn - loc.firstColumn + 1).toNat)

/-- `$k` and `@k` of the symbols. -/
abbrev Cell := YYSTYPE × YYLTYPE

/-- `@$` when the code of the rule is done. -/
def Rule.finalPlace (r : Rule) (left : YYLTYPE) (locs : List YYLTYPE) : YYLTYPE :=
  match r.place with
  | none => yyllocDefault left locs
  | some k => locs.getD (k - 1) left

def Rule.reduce (sql : List UInt8) (r : Rule) (left : Cell) (args : List Cell)
    (sqlNodes : List ParsedSqlNode) : Except Fault (Cell × List ParsedSqlNode) :=
  let yyloc := yyllocDefault left.2 (args.map Prod.snd)
  match Curried.apply r.rhs (r.action (tokenName sql yyloc)) (args.map Prod.fst) with
  | none => .error .union
  | some action => do
    let (value, sqlNodes) ← action.run sqlNodes
    return ((⟨r.lhs.member, value⟩, r.finalPlace left.2 (args.map Prod.snd)), sqlNodes)

def reduce (sql : List UInt8) (n : ℕ) (left : Cell) (args : List Cell)
    (sqlNodes : List ParsedSqlNode) : Except Fault (Cell × List ParsedSqlNode) :=
  match Rule.number n with
  | none => .error .union
  | some r => r.reduce sql left args sqlNodes

theorem Lexeme.ctorIdx_pos (l : Lexeme) : 0 < l.symbol.ctorIdx := by
  have h := l.isToken
  unfold Symbol.isToken at h
  rw [Bool.and_eq_true, decide_eq_true_eq] at h
  exact h.1

theorem Lexeme.ctorIdx_lt (l : Lexeme) : l.symbol.ctorIdx < 79 := by
  have h := l.isToken
  unfold Symbol.isToken at h
  rw [Bool.and_eq_true, decide_eq_true_eq, decide_eq_true_eq] at h
  exact h.2

/-- The bottom of the stack, and the end of the input, whose place no rule reads. -/
def noCell : Cell := (⟨.untyped, ()⟩, ⟨1, 1⟩)

def sqlParser (sql : List UInt8) : Parser Token Cell (List ParsedSqlNode) Fault where
  toTables := sqlTables
  kind t := t.lexeme.symbol.ctorIdx
  kind_ne t := t.lexeme.ctorIdx_pos.ne'
  kind_lt t := t.lexeme.ctorIdx_lt
  eof_lt := by decide
  value t := (⟨t.lexeme.symbol.member, t.lexeme.value⟩, t.yylloc)
  eofValue := noCell
  bottom := noCell
  reduce := reduce sql

def stepsFor (tokens : ℕ) : ℕ :=
  sqlCertificate.rankOf 0 + sqlCertificate.tokenWeight * (tokens + 1) + 1

/-- `yyerror` adds a node of its own. -/
def parseResult : Outcome Fault → List ParsedSqlNode → Except Fault (List ParsedSqlNode)
  | .accept, sqlNodes => .ok sqlNodes
  | .abort, sqlNodes => .ok (sqlNodes ++ [.error])
  | .nomem, sqlNodes => .ok (sqlNodes ++ [.error])
  | .fault e, _ => .error e

def yyparse (sql : List UInt8) (tokens : List Token) : Option (Except Fault (List ParsedSqlNode)) :=
  ((sqlParser sql).run (stepsFor tokens.length) (.start tokens [])).map fun r =>
    parseResult r.1 r.2.data

/-- `sql_parse` of a text, which ends with its first zero byte. -/
def sqlParse (atof : List UInt8 → UInt32) (sql : List UInt8) :
    Option (Except Fault (List ParsedSqlNode)) :=
  let s := sql.takeWhile (· ≠ 0)
  yyparse s (yylex atof s)

/-! ## What the code of a rule does on the stack -/

def GoodCell (n : ℕ) (cell : Cell) : Prop :=
  ∃ (symbol : Symbol) (v : symbol.T), symbol.ctorIdx = n ∧ cell.1 = ⟨symbol.member, v⟩ ∧
    Good symbol v

variable {sql : List UInt8} {n lhs : ℕ} {rhs : List ℕ} {left cell : Cell} {args : List Cell}
  {sqlNodes sqlNodes' : List ParsedSqlNode} {e : Fault}

theorem ctorIdx_inj {symbol symbol' : Symbol} (h : symbol.ctorIdx = symbol'.ctorIdx) :
    symbol = symbol' := by
  have hof : ∀ s : Symbol, Symbol.ofNat s.ctorIdx = s := by
    intro s
    cases s <;> rfl
  rw [← hof symbol, h, hof]

theorem number_of_grammar (hn : 0 < n) (hrule : grammar[n]? = some (lhs, rhs)) :
    ∃ r ∈ rules, Rule.number n = some r ∧ lhs = r.lhs.ctorIdx ∧ rhs = r.rhs.map Symbol.ctorIdx := by
  cases n with
  | zero => exact absurd hn (Nat.lt_irrefl 0)
  | succ n =>
    rw [grammar_eq, List.getElem?_cons_succ, List.getElem?_map] at hrule
    obtain ⟨r, hr, hpair⟩ := Option.map_eq_some_iff.mp hrule
    obtain ⟨rfl, rfl⟩ := Prod.mk.inj hpair
    exact ⟨r, List.mem_of_getElem? hr, hr, rfl, rfl⟩

theorem apply_cons {R : Type} (symbol : Symbol) (symbols : List Symbol)
    (f : Curried (symbol :: symbols) R) (v : symbol.T) (values : List YYSTYPE) :
    Curried.apply (symbol :: symbols) f (⟨symbol.member, v⟩ :: values) =
      Curried.apply symbols (f v) values := by
  change dite (symbol.member = symbol.member) _ _ = _
  exact dif_pos rfl

theorem apply_of_good {R : Type} {Q : R → Prop} {symbols : List Symbol} {f : Curried symbols R}
    (h : Curried.All Q symbols f)
    (hargs : List.Forall₂ GoodCell (symbols.map Symbol.ctorIdx) args) :
    ∃ result, Curried.apply symbols f (args.map Prod.fst) = some result ∧ Q result := by
  induction symbols generalizing args with
  | nil =>
    cases hargs
    exact ⟨f, rfl, h⟩
  | cons symbol symbols ih =>
    rw [List.map_cons] at hargs
    cases hargs with
    | cons hcell hrest =>
      obtain ⟨symbol', v, hnumber, hvalue, hgood⟩ := hcell
      obtain rfl := ctorIdx_inj hnumber
      obtain ⟨result, hresult, hQ⟩ := ih (h v hgood) hrest
      refine ⟨result, ?_, hQ⟩
      rw [List.map_cons, hvalue, apply_cons, hresult]

/-- What the code of a rule gives for good values, and when it goes wrong. -/
theorem reduce_of_good (hn : 0 < n) (hrule : grammar[n]? = some (lhs, rhs))
    (hargs : List.Forall₂ GoodCell rhs args) :
    (∃ cell symbol, ∃ v : symbol.T, reduce sql n left args sqlNodes =
        .ok (cell, sqlNodes ++ addedBy symbol v) ∧ symbol.ctorIdx = lhs ∧
        cell.1 = ⟨symbol.member, v⟩ ∧ Good symbol v) ∨
      reduce sql n left args sqlNodes = .error .nullDereference ∧
        lhs = Symbol.conditionList.ctorIdx := by
  obtain ⟨r, hr, hnumber, rfl, rfl⟩ := number_of_grammar hn hrule
  unfold reduce
  rw [hnumber]
  dsimp only
  unfold Rule.reduce
  dsimp only
  obtain ⟨yyloc, hyyloc⟩ : ∃ loc, yyllocDefault left.2 (args.map Prod.snd) = loc := ⟨_, rfl⟩
  rw [hyyloc]
  obtain ⟨action, happly, hends⟩ := apply_of_good (rules_keep r hr (tokenName sql yyloc)) hargs
  rw [happly]
  dsimp only
  have hrun := hends sqlNodes
  cases haction : action.run sqlNodes with
  | error e =>
    rw [haction] at hrun
    obtain ⟨rfl, hcrash⟩ := hrun
    exact .inr ⟨rfl, by rw [hcrash]⟩
  | ok result =>
    rw [haction] at hrun
    obtain ⟨hgood, hadded⟩ := hrun
    refine .inl ⟨(⟨r.lhs.member, result.1⟩, r.finalPlace left.2 (args.map Prod.snd)), r.lhs,
      result.1, ?_, rfl, rfl, hgood⟩
    rw [← hadded]
    rfl

/-! ## What is on the stack -/

theorem sqlParser_fits (sql : List UInt8) : (sqlParser sql).Fits sqlCertificate := sqlTables_fit

variable {tokens : List Token} {c c' : Config Token Cell (List ParsedSqlNode)} {symbols : List ℕ}
  {word : List Token} {values : List Cell}

theorem good_of_derives (htokens : GoodTokens word)
    (h : Derives (sqlParser sql) grammar left symbols word values sqlNodes sqlNodes') :
    List.Forall₂ GoodCell symbols values := by
  refine h.good ⟨.YYEOF, (), rfl, rfl, trivial⟩ ?_
    fun t ht => ⟨t.lexeme.symbol, t.lexeme.value, rfl, rfl, htokens t ht⟩
  intro n lhs rhs left args s v s' hn hrule hargs hreduce
  obtain ⟨cell, symbol, value, hresult, hnumber, hcell, hgood⟩ | ⟨hresult, -⟩ :=
    reduce_of_good hn hrule hargs
  · obtain ⟨rfl, -⟩ := Prod.mk.inj (Except.ok.inj (hreduce.symm.trans hresult))
    exact ⟨symbol, value, hnumber, hcell, hgood⟩
  · cases hreduce.symm.trans hresult

theorem goodTokens_of_append {word' : List Token} (h : GoodTokens (word ++ word')) :
    GoodTokens word := fun t ht => h t (List.mem_append_left _ ht)

def Sentence (sql : List UInt8) (word : List Token) (node : ParsedSqlNode) : Prop :=
  ∃ place, Derives (sqlParser sql) grammar noCell [Symbol.commands.ctorIdx] word
    [(⟨.sqlNode, node⟩, place)] [] [node]

theorem Sentence.wellFormed (htokens : GoodTokens word) {node : ParsedSqlNode}
    (h : Sentence sql word node) : node.WellFormed := by
  obtain ⟨place, hderives⟩ := h
  cases good_of_derives htokens hderives with
  | cons hcell _ =>
    obtain ⟨symbol, v, hnumber, hvalue, hgood⟩ := hcell
    obtain rfl := ctorIdx_inj hnumber
    obtain rfl := eq_of_heq (Sigma.mk.inj hvalue).2
    exact hgood

/-- The states before a statement is complete, behind it, and behind the end of the input. -/
inductive Shape (sql : List UInt8) (tokens : List Token)
    (c : Config Token Cell (List ParsedSqlNode)) : Prop where
  | reading (hstates : ∀ q ∈ c.states, sqlCertificate.symbol q ≠ Symbol.commands.ctorIdx)
      (hdata : c.data = [])
  | complete {word : List Token} {node : ParsedSqlNode} (hstates : c.states = [19])
      (hword : word ++ c.input = tokens) (hsentence : Sentence sql word node)
      (hdata : c.data = [node])
  | accepted {node : ParsedSqlNode} (hstates : c.states = [80, 19])
      (hsentence : Sentence sql tokens node) (hdata : c.data = [node])

/-- Only one state stands behind a complete statement, and it stands on the bottom. -/
theorem eq_of_symbol_commands {p q : ℕ} (h : sqlCertificate.enters p q = true)
    (hsymbol : sqlCertificate.symbol q = Symbol.commands.ctorIdx) : q = 19 ∧ p = 0 := by
  have hlt : q < 294 := by
    by_contra hle
    have hnone : sqlCertificate.symbol q = 0 :=
      entry_of_le 0 (by decide +kernel) (by decide +kernel) (by rw [length_yypact]; omega)
    cases hnone.symm.trans hsymbol
  have hall : ∀ q < 294, sqlCertificate.symbol q = Symbol.commands.ctorIdx →
      q = 19 ∧ (1, 1) ∈ sqlCertificate.itemsOf q := by decide +kernel
  obtain ⟨rfl, hitem⟩ := hall q hlt hsymbol
  have hpredicted := (Certificate.enters_item h hitem).2
  rw [if_pos rfl] at hpredicted
  have hgoto := sqlTables_fit.goto p 1 hpredicted
  unfold Tables.checkGoto at hgoto
  rw [if_pos rfl, decide_eq_true_eq] at hgoto
  exact ⟨rfl, hgoto⟩

/-- Behind a complete statement only the end of the input is taken. -/
theorem action_complete : ∀ token < 79, sqlTables.action 19 token = .error ∨
    token = 0 ∧ sqlTables.action 19 token = .shift 80 := by decide +kernel

theorem addedBy_of_ne {symbol : Symbol} (h : symbol ≠ .commands) (v : symbol.T) :
    addedBy symbol v = [] := by
  cases symbol <;> first | exact absurd rfl h | rfl

theorem symbol_ne_of_shift {p token q : ℕ} (htoken : token < 79) (hne : p ≠ sqlTables.yyfinal)
    (haction : sqlTables.action p token = .shift q) :
    sqlCertificate.symbol q ≠ Symbol.commands.ctorIdx := by
  have hcheck := sqlTables_fit.action p token htoken hne
  rw [haction] at hcheck
  simp only [Tables.checkAction, Bool.and_eq_true, decide_eq_true_eq] at hcheck
  rw [hcheck.1.1.1]
  have hnumber : Symbol.commands.ctorIdx = 80 := rfl
  omega

theorem Shape.shift (h : Shape sql tokens c) (hne : c.state ≠ sqlTables.yyfinal) {q : ℕ}
    (haction : sqlTables.action c.state ((sqlParser sql).look c.input) = .shift q) :
    Shape sql tokens
      ⟨(q, (sqlParser sql).lookValue c.input) :: c.stack, c.input.tail, c.data⟩ := by
  have htoken := (sqlParser sql).look_lt c.input
  cases h with
  | reading hstates hdata =>
    refine .reading ?_ hdata
    intro q' hq'
    rcases List.mem_cons.mp hq' with rfl | hq'
    · exact symbol_ne_of_shift htoken hne haction
    · exact hstates q' hq'
  | complete hstates hword hsentence hdata =>
    have hstate : c.state = 19 := by rw [Config.state, hstates, List.headD_cons]
    rw [hstate] at haction
    obtain herror | ⟨hend, hshift⟩ := action_complete _ htoken
    · rw [herror] at haction
      cases haction
    · obtain rfl := Action.shift.inj (hshift.symm.trans haction)
      have hinput : c.input = [] := by
        cases hinput : c.input with
        | nil => rfl
        | cons token rest =>
          rw [hinput] at hend
          exact absurd hend ((sqlParser sql).kind_ne token)
      rw [hinput, List.append_nil] at hword
      rw [hword] at hsentence
      exact .accepted (congrArg (List.cons 80) hstates) hsentence hdata
  | accepted hstates hsentence hdata =>
    exact absurd (by rw [Config.state, hstates]; rfl) hne

/-- When the last rule of a statement is reduced, nothing else is on the stack. -/
theorem shape_of_commands {q : ℕ} {below : List (ℕ × Cell)} {input : List Token}
    {before : List ParsedSqlNode} {node : Symbol.commands.T}
    (h : Inv (sqlParser sql) sqlCertificate tokens []
      ⟨(q, cell) :: below, input, before ++ addedBy .commands node⟩)
    (hsymbol : sqlCertificate.symbol q = Symbol.commands.ctorIdx)
    (hcell : cell.1 = ⟨Symbol.commands.member, node⟩) (hdata : before = []) :
    Shape sql tokens ⟨(q, cell) :: below, input, before ++ addedBy .commands node⟩ := by
  obtain ⟨value, place⟩ := cell
  obtain rfl : value = ⟨.sqlNode, node⟩ := hcell
  obtain ⟨word, hword, hderives⟩ := h.derives
  obtain ⟨rfl, rfl⟩ : q = 19 ∧ below = [] := by
    have hpath := h.path
    cases hpath with
    | cons hbelow henters =>
      obtain ⟨rfl, hroot⟩ := eq_of_symbol_commands henters hsymbol
      refine ⟨rfl, ?_⟩
      cases below with
      | nil => rfl
      | cons entry below => exact absurd hroot (hbelow.headD_ne (sqlParser_fits sql).root)
  subst hdata
  have hsentence : Sentence sql word node := by
    refine ⟨place, ?_⟩
    change Derives _ grammar noCell [sqlCertificate.symbol 19] _ [(⟨.sqlNode, node⟩, place)] []
      [node] at hderives
    rwa [hsymbol] at hderives
  exact .complete rfl hword hsentence rfl

theorem Shape.reduce (hinv : Inv (sqlParser sql) sqlCertificate tokens [] c)
    (h : Shape sql tokens c) (hne : c.state ≠ sqlTables.yyfinal)
    (haction : sqlTables.action c.state ((sqlParser sql).look c.input) = .reduce n)
    (htokens : GoodTokens tokens)
    (hreduce : Sql.reduce sql n (((c.stack.drop (sqlCertificate.rhs n).length).map
      Prod.snd).headD noCell) ((c.stack.take (sqlCertificate.rhs n).length).map Prod.snd).reverse
      c.data = .ok (cell, sqlNodes')) :
    Shape sql tokens ⟨(sqlTables.goto ((c.states.drop (sqlCertificate.rhs n).length).headD 0)
      (sqlCertificate.lhs n), cell) :: c.stack.drop (sqlCertificate.rhs n).length, c.input,
      sqlNodes'⟩ := by
  have htoken := (sqlParser sql).look_lt c.input
  have hfits := sqlParser_fits sql
  cases h with
  | reading hstates hdata =>
    have hnew := hinv.reduce hfits hne haction hreduce
    have hcheck := hfits.action c.state _ htoken hne
    change sqlTables.checkAction _ _ _ (sqlTables.action _ _) = _ at hcheck
    rw [haction] at hcheck
    obtain ⟨htwo, hrule, -, hsymbols, hpredicted⟩ := hinv.path.reduce hfits.root hcheck
    obtain ⟨before, word, s, hword, -, hbody⟩ := hinv.split hsymbols
    have hgoodWord : GoodTokens word := by
      intro t ht
      rw [← hword] at htokens
      exact htokens t (by simp [ht])
    have hargs := good_of_derives hgoodWord hbody
    obtain ⟨cell', symbol, v, hresult, hnumber, hcell, -⟩ | ⟨hresult, -⟩ :=
      reduce_of_good (by omega) hrule hargs
    · obtain ⟨rfl, rfl⟩ := Prod.mk.inj (Except.ok.inj (hresult.symm.trans hreduce))
      have hsymbol := (hfits.goto_spec (by omega) hpredicted).1
      obtain ⟨q, hq⟩ : ∃ q, sqlTables.goto ((c.states.drop (sqlCertificate.rhs n).length).headD 0)
        (sqlCertificate.lhs n) = q := ⟨_, rfl⟩
      change sqlCertificate.symbol (sqlTables.goto _ _) = _ at hsymbol
      change Inv _ _ _ _ ⟨(sqlTables.goto _ _, _) :: _, _, _⟩ at hnew
      rw [hq] at hsymbol hnew ⊢
      rw [← hnumber] at hsymbol
      by_cases hcommands : symbol = .commands
      · subst hcommands
        exact shape_of_commands hnew hsymbol hcell hdata
      · refine .reading ?_ (by rw [hdata, addedBy_of_ne hcommands, List.append_nil])
        intro q' hq'
        rcases List.mem_cons.mp hq' with rfl | hq'
        · rw [hsymbol]
          exact fun heq => hcommands (ctorIdx_inj heq)
        · rw [List.map_drop] at hq'
          exact hstates q' (List.mem_of_mem_drop hq')
    · cases hresult.symm.trans hreduce
  | complete hstates hword hsentence hdata =>
    have hstate : c.state = 19 := by rw [Config.state, hstates, List.headD_cons]
    rw [hstate] at haction
    obtain herror | ⟨-, hshift⟩ := action_complete _ htoken
    · cases herror.symm.trans haction
    · cases hshift.symm.trans haction
  | accepted hstates hsentence hdata =>
    exact absurd (by rw [Config.state, hstates]; rfl) hne

theorem Shape.step (htokens : GoodTokens tokens)
    (hinv : Inv (sqlParser sql) sqlCertificate tokens [] c) (h : Shape sql tokens c)
    (hstep : (sqlParser sql).step c = .inr c') : Shape sql tokens c' := by
  unfold Parser.step at hstep
  split_ifs at hstep with hdepth hfinal
  cases haction : (sqlParser sql).action c.state ((sqlParser sql).look c.input) with
  | shift q =>
    rw [haction] at hstep
    obtain rfl := Sum.inr.inj hstep
    exact h.shift hfinal haction
  | reduce n =>
    rw [haction] at hstep
    dsimp only at hstep
    rw [(sqlParser_fits sql).yyr1, (sqlParser_fits sql).yyr2] at hstep
    split at hstep
    · cases hstep
    · next v s' hreduce =>
      obtain rfl := Sum.inr.inj hstep
      have hnew := h.reduce hinv hfinal haction htokens hreduce
      rwa [Config.states, ← List.map_drop] at hnew
  | error =>
    rw [haction] at hstep
    cases hstep

theorem shape_of_reaches (htokens : GoodTokens tokens)
    (h : TableParser.Reaches (sqlParser sql) (.start tokens []) c) : Shape sql tokens c := by
  induction h with
  | refl => exact .reading (List.forall_mem_nil _) rfl
  | step hreaches hstep ih => exact ih.step htokens (hreaches.inv (sqlParser_fits sql)) hstep

/-! ## How the parser ends -/

theorem sentence_of_final (hinv : Inv (sqlParser sql) sqlCertificate tokens [] c)
    (h : Shape sql tokens c) (hfinal : c.state = (sqlParser sql).yyfinal) :
    ∃ node, Sentence sql tokens node ∧ c.data = [node] := by
  have hfits := sqlParser_fits sql
  cases h with
  | reading hstates hdata =>
    have hitem : (1, 1 + 1) ∈ sqlCertificate.itemsOf (c.states.headD 0) := by
      rw [show c.states.headD 0 = (sqlParser sql).yyfinal from hfinal, hfits.final]
      exact List.mem_singleton.mpr rfl
    have hsymbols := (hinv.path.pop hfits.root hitem).2.1
    have hmem : Symbol.commands.ctorIdx ∈
        ((c.states.take (1 + 1)).map sqlCertificate.symbol).reverse := by
      rw [hsymbols]
      decide +kernel
    rw [List.mem_reverse] at hmem
    obtain ⟨q, hq, hsymbol⟩ := List.mem_map.mp hmem
    exact absurd hsymbol (hstates q (List.mem_of_mem_take hq))
  | complete hstates hword hsentence hdata =>
    rw [Config.state, hstates] at hfinal
    cases hfinal
  | accepted hstates hsentence hdata => exact ⟨_, hsentence, hdata⟩

/-- What `yyparse` leaves of good tokens. -/
inductive Parsed (sql : List UInt8) (tokens : List Token) :
    Except Fault (List ParsedSqlNode) → Prop where
  /-- All tokens are one statement. -/
  | statement {node : ParsedSqlNode} (h : Sentence sql tokens node) : Parsed sql tokens (.ok [node])
  /-- The statement stays in front of the error behind it. -/
  | garbage {word rest : List Token} {node : ParsedSqlNode} (h : Sentence sql word node)
      (hword : word ++ rest = tokens) (hrest : rest ≠ []) : Parsed sql tokens (.ok [node, .error])
  | syntaxError : Parsed sql tokens (.ok [.error])
  /-- A rule of `condition_list` dereferences what it has not got: a part of the tokens are the
  symbols of the rule, and its code fails on their values. -/
  | crash {n : ℕ} {rhs : List ℕ} {before word rest : List Token} {left : Cell} {args : List Cell}
      {sqlNodes sqlNodes' : List ParsedSqlNode}
      (hrule : grammar[n]? = some (Symbol.conditionList.ctorIdx, rhs))
      (hword : before ++ word ++ rest = tokens)
      (hargs : Derives (sqlParser sql) grammar left rhs word args sqlNodes sqlNodes')
      (hreduce : reduce sql n left args sqlNodes' = .error .nullDereference) :
      Parsed sql tokens (.error .nullDereference)

theorem parsed_of_fault (htokens : GoodTokens tokens)
    (hinv : Inv (sqlParser sql) sqlCertificate tokens [] c)
    (hstep : (sqlParser sql).step c = .inl (.fault e)) : Parsed sql tokens (.error e) := by
  obtain ⟨n, lhs, rhs, left, word, args, s, hn, hrule, -, ⟨before, hword⟩, hbody, hreduce⟩ :=
    hinv.fault (sqlParser_fits sql) hstep
  have hgoodWord : GoodTokens word := by
    intro t ht
    rw [← hword] at htokens
    exact htokens t (by simp [ht])
  obtain ⟨cell, symbol, v, hresult, -⟩ | ⟨hresult, rfl⟩ :=
    reduce_of_good hn hrule (good_of_derives hgoodWord hbody)
  · cases hresult.symm.trans hreduce
  · obtain rfl := Except.error.inj (hreduce.symm.trans hresult)
    exact .crash hrule hword hbody hreduce

/-- The end of the input is taken behind a complete statement. -/
theorem input_ne_of_ended {outcome : Outcome Fault} (hstates : c.states = [19])
    (hstep : (sqlParser sql).step c = .inl outcome) : c.input ≠ [] := by
  intro hinput
  have hlength : c.stack.length = 1 := by
    rw [← List.length_map (f := Prod.fst)]
    exact congrArg List.length hstates
  have hstate : c.state = 19 := by rw [Config.state, hstates, List.headD_cons]
  have hshift : (sqlParser sql).action 19 ((sqlParser sql).look []) = .shift 80 := by
    change sqlTables.action 19 0 = _
    decide +kernel
  have hdepth : ¬ (sqlParser sql).yymaxdepth ≤ 1 + 1 := by
    change ¬ sqlTables.yymaxdepth ≤ 1 + 1
    decide
  have hfinal : ¬ 19 = (sqlParser sql).yyfinal := by
    change ¬ 19 = sqlTables.yyfinal
    decide
  unfold Parser.step at hstep
  rw [hlength, if_neg hdepth, hstate, if_neg hfinal, hinput, hshift] at hstep
  cases hstep

theorem outcome_of_accepted {outcome : Outcome Fault} (hstates : c.states = [80, 19])
    (hstep : (sqlParser sql).step c = .inl outcome) : outcome = .accept := by
  have hlength : c.stack.length = 2 := by
    rw [← List.length_map (f := Prod.fst)]
    exact congrArg List.length hstates
  have hstate : c.state = (sqlParser sql).yyfinal := by rw [Config.state, hstates]; rfl
  have hdepth : ¬ (sqlParser sql).yymaxdepth ≤ 2 + 1 := by
    change ¬ sqlTables.yymaxdepth ≤ 2 + 1
    decide
  unfold Parser.step at hstep
  rw [hlength, if_neg hdepth, if_pos hstate] at hstep
  exact (Sum.inl.inj hstep).symm

/-- `yyerror` adds its node behind what the rules have added. -/
theorem Shape.parsed {outcome : Outcome Fault} (h : Shape sql tokens c)
    (hstep : (sqlParser sql).step c = .inl outcome) (hne : outcome ≠ .accept) :
    Parsed sql tokens (.ok (c.data ++ [.error])) := by
  cases h with
  | reading hstates hdata =>
    rw [hdata]
    exact .syntaxError
  | complete hstates hword hsentence hdata =>
    rw [hdata]
    exact .garbage hsentence hword (input_ne_of_ended hstates hstep)
  | accepted hstates hsentence hdata => exact absurd (outcome_of_accepted hstates hstep) hne

theorem yyparse_ends (htokens : GoodTokens tokens) :
    ∃ result, yyparse sql tokens = some result ∧ Parsed sql tokens result := by
  obtain ⟨outcome, c, hrun⟩ := run_ends (sqlParser_fits sql) tokens []
  obtain ⟨hreaches, hstep⟩ := reaches_of_run hrun
  have hinv := hreaches.inv (sqlParser_fits sql)
  have hshape := shape_of_reaches htokens hreaches
  have hparse : yyparse sql tokens = some (parseResult outcome c.data) := by
    unfold yyparse stepsFor
    rw [show (sqlParser sql).run _ _ = _ from hrun]
    rfl
  cases outcome with
  | accept =>
    obtain ⟨node, hsentence, hdata⟩ := sentence_of_final hinv hshape (state_of_accept hstep)
    rw [hdata] at hparse
    refine ⟨_, hparse, ?_⟩
    exact .statement hsentence
  | abort => exact ⟨_, hparse, hshape.parsed hstep (by simp)⟩
  | nomem => exact ⟨_, hparse, hshape.parsed hstep (by simp)⟩
  | fault e =>
    exact ⟨_, hparse, parsed_of_fault htokens hinv hstep⟩

theorem Parsed.wellFormed (htokens : GoodTokens tokens) {sqlNodes : List ParsedSqlNode}
    (h : Parsed sql tokens (.ok sqlNodes)) : ∀ node ∈ sqlNodes, node.WellFormed := by
  cases h with
  | statement h => exact List.forall_mem_singleton.mpr (h.wellFormed htokens)
  | garbage h hword hrest =>
    rw [← hword] at htokens
    intro node hnode
    rcases List.mem_cons.mp hnode with rfl | hnode
    · exact h.wellFormed (goodTokens_of_append htokens)
    · rw [List.mem_singleton.mp hnode]
      trivial
  | syntaxError =>
    intro node hnode
    rw [List.mem_singleton.mp hnode]
    trivial

/-- `sql_parse` of any text ends.  A node that is no error stands for a statement at the front of
the text, which the grammar derives and the code of the rules builds from left to right, and the
node is well formed; behind it stands an error if the text goes on.  Otherwise there is one error,
or a rule of `condition_list` has dereferenced a null pointer.  A `SELECT` is as the analyzer
expects it. -/
theorem sqlParse_gives_statements (atof : List UInt8 → UInt32) (sql : List UInt8) :
    ∃ result, sqlParse atof sql = some result ∧
      Parsed (sql.takeWhile (· ≠ 0)) (yylex atof (sql.takeWhile (· ≠ 0))) result ∧
      (∀ sqlNodes, result = .ok sqlNodes → ∀ node ∈ sqlNodes, node.WellFormed) ∧
      ∀ sqlNodes selection, result = .ok sqlNodes → .select selection ∈ sqlNodes →
        selection.Derived := by
  have htokens := goodTokens_yylex atof (sql.takeWhile (· ≠ 0))
  obtain ⟨result, hresult, hparsed⟩ := @yyparse_ends (sql.takeWhile (· ≠ 0)) _ htokens
  have hwellFormed : ∀ sqlNodes, result = .ok sqlNodes → ∀ node ∈ sqlNodes, node.WellFormed := by
    rintro sqlNodes rfl
    exact hparsed.wellFormed htokens
  refine ⟨result, hresult, hparsed, hwellFormed, ?_⟩
  intro sqlNodes selection hnodes hselection
  have hselect : IsSelect selection := hwellFormed sqlNodes hnodes _ hselection
  exact hselect.derived

end TDB.Sql
