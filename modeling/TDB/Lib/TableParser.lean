import TDB.Lib.ParserTables

namespace TableParser

variable {Token V S E : Type}

/-! ## The stack -/

/-- States one on top of the other, each of which may stand on the one below. -/
inductive Path (k : Certificate) : List ℕ → Prop where
  | nil : Path k []
  | cons {states : List ℕ} {q : ℕ} (h : Path k states)
      (henters : k.enters (states.headD 0) q = true) : Path k (q :: states)

variable {k : Certificate} {states : List ℕ} {n d p q : ℕ}

theorem Certificate.enters_item (h : k.enters p q = true) (hitem : (n, d + 1) ∈ k.itemsOf q) :
    (k.rhs n)[d]? = some (k.symbol q) ∧
      if d = 0 then n ∈ k.predictedIn p else (n, d) ∈ k.itemsOf p := by
  unfold Certificate.enters at h
  rw [Bool.and_eq_true, List.all_eq_true] at h
  have hall := h.2 _ hitem
  cases d with
  | zero => simpa using hall
  | succ d => simpa using hall

theorem Certificate.itemsOf_ne (h : k.enters p q = true) : k.itemsOf q ≠ [] := by
  unfold Certificate.enters at h
  rw [Bool.and_eq_true, decide_eq_true_eq] at h
  exact h.1

theorem Path.headD_ne (hroot : k.itemsOf 0 = []) (h : Path k (q :: states)) : q ≠ 0 := by
  rintro rfl
  cases h with
  | cons h henters => exact Certificate.itemsOf_ne henters hroot

/-- An item of the topmost state says what the symbols below are. -/
theorem Path.pop (hroot : k.itemsOf 0 = []) (h : Path k states)
    (hitem : (n, d + 1) ∈ k.itemsOf (states.headD 0)) :
    d + 1 ≤ states.length ∧ ((states.take (d + 1)).map k.symbol).reverse = (k.rhs n).take (d + 1) ∧
      n ∈ k.predictedIn ((states.drop (d + 1)).headD 0) := by
  induction d generalizing states with
  | zero =>
    cases h with
    | nil => simp [hroot] at hitem
    | @cons states q h henters =>
      obtain ⟨hsymbol, hpredicted⟩ := Certificate.enters_item henters hitem
      rw [if_pos rfl] at hpredicted
      refine ⟨by simp, ?_, by simpa using hpredicted⟩
      obtain ⟨symbol, rest, hrhs⟩ : ∃ symbol rest, k.rhs n = symbol :: rest := by
        cases hrhs : k.rhs n with
        | nil => simp [hrhs] at hsymbol
        | cons symbol rest => exact ⟨symbol, rest, rfl⟩
      rw [hrhs] at hsymbol ⊢
      simpa using hsymbol.symm
  | succ d ih =>
    cases h with
    | nil => simp [hroot] at hitem
    | @cons states q h henters =>
      obtain ⟨hsymbol, hitem'⟩ := Certificate.enters_item henters hitem
      rw [if_neg (Nat.succ_ne_zero d)] at hitem'
      obtain ⟨hlength, hsymbols, hpredicted⟩ := ih h hitem'
      refine ⟨by simpa using hlength, ?_, by simpa using hpredicted⟩
      rw [List.take_succ_cons, List.map_cons, List.reverse_cons, hsymbols,
        List.take_add_one (i := d + 1), hsymbol]
      rfl

theorem Path.drop (h : Path k states) (m : ℕ) : Path k (states.drop m) := by
  induction m generalizing states with
  | zero => exact h
  | succ m ih =>
    cases h with
    | nil => exact .nil
    | cons h henters => exact ih h

theorem Path.reduce (hroot : k.itemsOf 0 = []) (h : Path k states)
    (hreducible : k.reducible (states.headD 0) n = true) :
    2 ≤ n ∧ k.rules[n]? = some (k.lhs n, k.rhs n) ∧ (k.rhs n).length ≤ states.length ∧
      ((states.take (k.rhs n).length).map k.symbol).reverse = k.rhs n ∧
      n ∈ k.predictedIn ((states.drop (k.rhs n).length).headD 0) := by
  unfold Certificate.reducible at hreducible
  simp only [Bool.and_eq_true, decide_eq_true_eq] at hreducible
  obtain ⟨⟨htwo, hlt⟩, hitem⟩ := hreducible
  have hrule : k.rules[n]? = some (k.lhs n, k.rhs n) := by
    unfold Certificate.lhs Certificate.rhs
    rw [List.getD_eq_getElem?_getD, List.getElem?_eq_getElem hlt]
    rfl
  refine ⟨htwo, hrule, ?_⟩
  cases hrhs : k.rhs n with
  | nil =>
    rw [hrhs, if_pos rfl] at hitem
    exact ⟨Nat.zero_le _, rfl, by simpa using hitem⟩
  | cons symbol rest =>
    rw [hrhs, if_neg (List.cons_ne_nil _ _)] at hitem
    obtain ⟨hlength, hsymbols, hpredicted⟩ := h.pop hroot (by simpa using hitem)
    refine ⟨hlength, ?_, hpredicted⟩
    rw [List.length_cons, hsymbols, hrhs, List.take_of_length_le (by simp)]

/-- The state behind a rule that may begin in `p`. -/
theorem Tables.Fits.goto_spec {t : Tables} (hfits : t.Fits k) (hn : n ≠ 1)
    (h : n ∈ k.predictedIn p) :
    k.symbol (t.goto p (k.lhs n)) = k.lhs n ∧ k.enters p (t.goto p (k.lhs n)) = true ∧
      t.goto p (k.lhs n) ≠ t.yyfinal ∧ k.weight (k.lhs n) + k.rankOf (t.goto p (k.lhs n)) <
        ((k.rhs n).map k.weight).sum + if k.rhs n = [] then k.rankOf p else 0 := by
  have hgoto := hfits.goto p n h
  unfold Tables.checkGoto at hgoto
  rw [if_neg hn] at hgoto
  simp only [Bool.and_eq_true, decide_eq_true_eq] at hgoto
  obtain ⟨⟨⟨hsymbol, henters⟩, hfinal⟩, hweight⟩ := hgoto
  exact ⟨hsymbol, henters, hfinal, hweight⟩

/-! ## What the parser has derived -/

/-- The symbols on the stack derive what has been read, and their values are those on the stack. -/
structure Inv (P : Parser Token V S E) (k : Certificate) (input : List Token) (data : S)
    (c : Config Token V S) : Prop where
  path : Path k c.states
  derives : ∃ word, word ++ c.input = input ∧
    Derives P k.rules P.bottom (c.states.map k.symbol).reverse word c.values data c.data

section Run

variable {P : Parser Token V S E} {input : List Token} {data : S} {c c' : Config Token V S}

theorem Inv.start : Inv P k input data (.start input data) := ⟨.nil, [], rfl, .nil _ _⟩

/-- What is below the symbols of a rule, and the symbols. -/
theorem Inv.split (h : Inv P k input data c)
    (hsymbols : ((c.states.take (k.rhs n).length).map k.symbol).reverse = k.rhs n) :
    ∃ word word' s, (word ++ word') ++ c.input = input ∧
      Derives P k.rules P.bottom ((c.states.drop (k.rhs n).length).map k.symbol).reverse word
        (((c.stack.drop (k.rhs n).length).map Prod.snd).reverse) data s ∧
      Derives P k.rules (((c.stack.drop (k.rhs n).length).map Prod.snd).headD P.bottom) (k.rhs n)
        word' (((c.stack.take (k.rhs n).length).map Prod.snd).reverse) s c.data := by
  obtain ⟨word, hword, hderives⟩ := h.derives
  have hparts : (c.states.map k.symbol).reverse =
      ((c.states.drop (k.rhs n).length).map k.symbol).reverse ++ k.rhs n := by
    conv_lhs => rw [← List.take_append_drop (k.rhs n).length c.states]
    rw [List.map_append, List.reverse_append, hsymbols]
  have hvalues : c.values = ((c.stack.drop (k.rhs n).length).map Prod.snd).reverse ++
      ((c.stack.take (k.rhs n).length).map Prod.snd).reverse := by
    unfold Config.values
    conv_lhs => rw [← List.take_append_drop (k.rhs n).length c.stack]
    rw [List.map_append, List.reverse_append]
  rw [hparts] at hderives
  obtain ⟨word₁, word₂, values₁, values₂, s, rfl, hsplit, h₁, h₂⟩ := hderives.split
  have hstack : c.stack.length = c.states.length := (List.length_map ..).symm
  have hlen : (((c.stack.drop (k.rhs n).length).map Prod.snd).reverse).length =
      values₁.length := by
    rw [h₁.length_eq]
    simp [hstack]
  obtain ⟨rfl, rfl⟩ := List.append_inj (hvalues.symm.trans hsplit) hlen
  refine ⟨word₁, word₂, s, hword, h₁, ?_⟩
  rwa [List.getLastD_eq_getLast?, List.getLast?_reverse, ← List.headD_eq_head?_getD] at h₂

theorem Inv.shift (hfits : P.Fits k) (h : Inv P k input data c) (hne : c.state ≠ P.yyfinal)
    (haction : P.action c.state (P.look c.input) = .shift q) :
    Inv P k input data ⟨(q, P.lookValue c.input) :: c.stack, c.input.tail, c.data⟩ := by
  have hcheck := hfits.action c.state (P.look c.input) (P.look_lt c.input) hne
  rw [haction] at hcheck
  simp only [Tables.checkAction, Bool.and_eq_true, decide_eq_true_eq] at hcheck
  obtain ⟨⟨⟨hsymbol, henters⟩, -⟩, -⟩ := hcheck
  obtain ⟨word, hword, hderives⟩ := h.derives
  constructor
  case path => exact .cons h.path henters
  case derives =>
    have hsymbols : (q :: c.states).map k.symbol = P.look c.input :: c.states.map k.symbol := by
      rw [← hsymbol]
      rfl
    have hvalues : (((q, P.lookValue c.input) :: c.stack).map Prod.snd).reverse =
        c.values ++ [P.lookValue c.input] := List.reverse_cons
    unfold Config.values
    rw [hvalues]
    change ∃ word, _ ∧ Derives P k.rules P.bottom ((q :: c.states).map k.symbol).reverse _ _ _ _
    rw [hsymbols, List.reverse_cons]
    cases hinput : c.input with
    | nil =>
      refine ⟨word, by simpa [hinput] using hword, ?_⟩
      have happend := hderives.append (.eof (.nil _ _))
      rwa [List.append_nil] at happend
    | cons token rest =>
      refine ⟨word ++ [token], by simpa [hinput] using hword, ?_⟩
      exact hderives.append (.token token (.nil _ _))

theorem Inv.reduce (hfits : P.Fits k) (h : Inv P k input data c) (hne : c.state ≠ P.yyfinal)
    (haction : P.action c.state (P.look c.input) = .reduce n) {v : V} {s' : S}
    (hreduce : P.reduce n (((c.stack.drop (k.rhs n).length).map Prod.snd).headD P.bottom)
      ((c.stack.take (k.rhs n).length).map Prod.snd).reverse c.data = .ok (v, s')) :
    Inv P k input data ⟨(P.goto ((c.states.drop (k.rhs n).length).headD 0) (k.lhs n), v) ::
      c.stack.drop (k.rhs n).length, c.input, s'⟩ := by
  have hcheck := hfits.action c.state (P.look c.input) (P.look_lt c.input) hne
  rw [haction] at hcheck
  obtain ⟨htwo, hrule, -, hsymbols, hpredicted⟩ := h.path.reduce hfits.root hcheck
  obtain ⟨word, word', s, hword, hbelow, hbody⟩ := h.split hsymbols
  obtain ⟨hsymbol, henters, -, -⟩ := hfits.goto_spec (by omega) hpredicted
  have hdrop : (c.stack.drop (k.rhs n).length).map Prod.fst = c.states.drop (k.rhs n).length :=
    List.map_drop ..
  obtain ⟨q, hq⟩ : ∃ q, P.goto ((c.states.drop (k.rhs n).length).headD 0) (k.lhs n) = q := ⟨_, rfl⟩
  rw [hq] at hsymbol henters ⊢
  constructor
  case path =>
    change Path k (q :: (c.stack.drop (k.rhs n).length).map Prod.fst)
    rw [hdrop]
    exact .cons (h.path.drop _) henters
  case derives =>
    refine ⟨word ++ word', hword, ?_⟩
    change Derives P k.rules P.bottom
      ((q :: (c.stack.drop (k.rhs n).length).map Prod.fst).map k.symbol).reverse _
      (v :: (c.stack.drop (k.rhs n).length).map Prod.snd).reverse data s'
    rw [hdrop, List.map_cons, hsymbol, List.reverse_cons, List.reverse_cons]
    apply hbelow.append
    rw [List.getLastD_eq_getLast?, List.getLast?_reverse, ← List.headD_eq_head?_getD]
    have hone := Derives.rule (by omega) hrule hbody hreduce (.nil v s')
    rwa [List.append_nil] at hone

theorem Inv.step (hfits : P.Fits k) (h : Inv P k input data c) (hstep : P.step c = .inr c') :
    Inv P k input data c' := by
  unfold Parser.step at hstep
  split_ifs at hstep with hdepth hfinal
  cases haction : P.action c.state (P.look c.input) with
  | shift q =>
    rw [haction] at hstep
    obtain rfl := Sum.inr.inj hstep
    exact h.shift hfits hfinal haction
  | reduce n =>
    rw [haction] at hstep
    dsimp only at hstep
    rw [hfits.yyr1, hfits.yyr2] at hstep
    split at hstep
    · cases hstep
    · next v s' hreduce =>
      obtain rfl := Sum.inr.inj hstep
      have hnew := h.reduce hfits hfinal haction hreduce
      rwa [Config.states, ← List.map_drop] at hnew
  | error =>
    rw [haction] at hstep
    cases hstep

/-- What goes wrong, goes wrong in the code of a rule whose symbols are on the stack. -/
theorem Inv.fault (hfits : P.Fits k) (h : Inv P k input data c) {e : E}
    (hstep : P.step c = .inl (.fault e)) :
    ∃ n lhs rhs left word args s, 0 < n ∧ k.rules[n]? = some (lhs, rhs) ∧
      args = ((c.stack.take rhs.length).map Prod.snd).reverse ∧ (∃ before, before ++ word ++ c.input = input) ∧
      Derives P k.rules left rhs word args s c.data ∧ P.reduce n left args c.data = .error e := by
  unfold Parser.step at hstep
  split_ifs at hstep with hdepth hfinal
  · cases hstep
  · cases hstep
  cases haction : P.action c.state (P.look c.input) with
  | shift q =>
    rw [haction] at hstep
    cases hstep
  | reduce n =>
    have hcheck := hfits.action c.state (P.look c.input) (P.look_lt c.input) hfinal
    rw [haction] at hcheck hstep
    obtain ⟨htwo, hrule, -, hsymbols, -⟩ := h.path.reduce hfits.root hcheck
    obtain ⟨before, word, s, hword, -, hbody⟩ := h.split hsymbols
    dsimp only at hstep
    rw [hfits.yyr1, hfits.yyr2] at hstep
    split at hstep
    · next e' hreduce =>
      obtain rfl := Outcome.fault.inj (Sum.inl.inj hstep)
      exact ⟨n, _, _, _, word, _, s, by omega, hrule, rfl, ⟨before, hword⟩, hbody, hreduce⟩
    · cases hstep
  | error =>
    rw [haction] at hstep
    cases hstep

/-! ## Runs -/

inductive Reaches (P : Parser Token V S E) (c : Config Token V S) : Config Token V S → Prop where
  | refl : Reaches P c c
  | step {c' c''} (h : Reaches P c c') (hstep : P.step c' = .inr c'') : Reaches P c c''

theorem Reaches.inv (hfits : P.Fits k) (h : Reaches P (.start input data) c) :
    Inv P k input data c := by
  induction h with
  | refl => exact Inv.start
  | step h hstep ih => exact ih.step hfits hstep

theorem Reaches.head {c₁ c₂ : Config Token V S} (hstep : P.step c₁ = .inr c₂)
    (h : Reaches P c₂ c) : Reaches P c₁ c := by
  induction h with
  | refl => exact .step .refl hstep
  | step h hstep ih => exact .step ih hstep

theorem reaches_of_run {m : ℕ} {outcome : Outcome E} (hrun : P.run m c = some (outcome, c')) :
    Reaches P c c' ∧ P.step c' = .inl outcome := by
  induction m generalizing c with
  | zero => cases hrun
  | succ m ih =>
    rw [Parser.run] at hrun
    cases hstep : P.step c with
    | inl ended =>
      rw [hstep] at hrun
      obtain ⟨rfl, rfl⟩ := Prod.mk.inj (Option.some.inj hrun)
      exact ⟨.refl, hstep⟩
    | inr next =>
      rw [hstep] at hrun
      obtain ⟨hreaches, hended⟩ := ih hrun
      exact ⟨hreaches.head hstep, hended⟩

theorem state_of_accept (hstep : P.step c = .inl .accept) : c.state = P.yyfinal := by
  unfold Parser.step at hstep
  split_ifs at hstep with hdepth hfinal
  · cases hstep
  · exact hfinal
  · split at hstep
    · cases hstep
    · dsimp only at hstep
      split at hstep <;> cases hstep
    · cases hstep

/-! ## The parser ends -/

def weight (P : Parser Token V S E) (k : Certificate) (c : Config Token V S) : ℕ :=
  if c.state = P.yyfinal then 0
  else (c.states.map fun q => k.weight (k.symbol q)).sum + k.rankOf c.state +
    k.tokenWeight * (c.input.length + 1)

theorem weight_shift (hfits : P.Fits k) (hne : c.state ≠ P.yyfinal)
    (haction : P.action c.state (P.look c.input) = .shift q) :
    weight P k ⟨(q, P.lookValue c.input) :: c.stack, c.input.tail, c.data⟩ < weight P k c := by
  have hcheck := hfits.action c.state (P.look c.input) (P.look_lt c.input) hne
  rw [haction] at hcheck
  simp only [Tables.checkAction, Bool.and_eq_true, decide_eq_true_eq] at hcheck
  obtain ⟨⟨⟨hsymbol, -⟩, hend⟩, hweight⟩ := hcheck
  unfold weight
  rw [if_neg hne]
  cases hinput : c.input with
  | nil =>
    rw [hinput] at hend
    have hq : q = P.yyfinal := by simpa [Parser.look] using hend
    rw [if_pos (show Config.state ⟨(q, _) :: c.stack, _, c.data⟩ = P.yyfinal from hq)]
    simp only [List.length_nil, Nat.zero_add, Nat.mul_one]
    omega
  | cons token rest =>
    rw [hinput] at hend hsymbol hweight
    have hq : q ≠ P.yyfinal := by simpa [Parser.look, P.kind_ne] using hend
    rw [if_neg (show Config.state ⟨(q, _) :: c.stack, _, c.data⟩ ≠ P.yyfinal from hq)]
    change k.weight (k.symbol q) + (c.states.map fun q => k.weight (k.symbol q)).sum +
      k.rankOf q + k.tokenWeight * (rest.length + 1) < _
    rw [hsymbol, List.length_cons, Nat.mul_add k.tokenWeight (rest.length + 1) 1, Nat.mul_one]
    omega

theorem weight_reduce (hfits : P.Fits k) (h : Path k c.states) (hne : c.state ≠ P.yyfinal)
    (haction : P.action c.state (P.look c.input) = .reduce n) (v : V) (s' : S) :
    weight P k ⟨(P.goto ((c.states.drop (k.rhs n).length).headD 0) (k.lhs n), v) ::
      c.stack.drop (k.rhs n).length, c.input, s'⟩ < weight P k c := by
  have hcheck := hfits.action c.state (P.look c.input) (P.look_lt c.input) hne
  rw [haction] at hcheck
  obtain ⟨htwo, -, -, hsymbols, hpredicted⟩ := h.reduce hfits.root hcheck
  obtain ⟨hsymbol, -, hfinal, hweight⟩ := hfits.goto_spec (by omega) hpredicted
  have hbody : (((c.states.take (k.rhs n).length).map fun q => k.weight (k.symbol q))).sum =
      ((k.rhs n).map k.weight).sum := by
    conv_rhs => rw [← hsymbols, List.map_reverse, List.sum_reverse, List.map_map]
    rfl
  have hsum : (c.states.map fun q => k.weight (k.symbol q)).sum = ((k.rhs n).map k.weight).sum +
      ((c.states.drop (k.rhs n).length).map fun q => k.weight (k.symbol q)).sum := by
    conv_lhs => rw [← List.take_append_drop (k.rhs n).length c.states]
    rw [List.map_append, List.sum_append, hbody]
  have hrank : (if k.rhs n = [] then k.rankOf ((c.states.drop (k.rhs n).length).headD 0) else 0) ≤
      k.rankOf c.state := by
    split_ifs with hnil
    · rw [hnil]
      exact le_rfl
    · exact Nat.zero_le _
  obtain ⟨q, hq⟩ : ∃ q, P.goto ((c.states.drop (k.rhs n).length).headD 0) (k.lhs n) = q := ⟨_, rfl⟩
  rw [hq] at hsymbol hfinal hweight ⊢
  unfold weight
  rw [if_neg hne, if_neg (show Config.state ⟨(q, v) :: c.stack.drop (k.rhs n).length, c.input, s'⟩ ≠
    P.yyfinal from hfinal), hsum]
  change k.weight (k.symbol q) + (((c.stack.drop (k.rhs n).length).map Prod.fst).map
    fun q => k.weight (k.symbol q)).sum + k.rankOf q + k.tokenWeight * (c.input.length + 1) < _
  rw [List.map_drop, hsymbol]
  change k.weight (k.lhs n) + ((c.states.drop (k.rhs n).length).map
    fun q => k.weight (k.symbol q)).sum + k.rankOf q + _ < _
  omega

theorem weight_step (hfits : P.Fits k) (h : Inv P k input data c) (hstep : P.step c = .inr c') :
    weight P k c' < weight P k c := by
  unfold Parser.step at hstep
  split_ifs at hstep with hdepth hfinal
  cases haction : P.action c.state (P.look c.input) with
  | shift q =>
    rw [haction] at hstep
    obtain rfl := Sum.inr.inj hstep
    exact weight_shift hfits hfinal haction
  | reduce n =>
    rw [haction] at hstep
    dsimp only at hstep
    rw [hfits.yyr1, hfits.yyr2] at hstep
    split at hstep
    · cases hstep
    · next v s' hreduce =>
      obtain rfl := Sum.inr.inj hstep
      have hless := weight_reduce hfits h.path hfinal haction v s'
      rwa [Config.states, ← List.map_drop] at hless
  | error =>
    rw [haction] at hstep
    cases hstep

theorem exists_run (hfits : P.Fits k) (h : Inv P k input data c) {m : ℕ}
    (hm : weight P k c < m) : ∃ outcome c', P.run m c = some (outcome, c') := by
  induction m generalizing c with
  | zero => exact absurd hm (Nat.not_lt_zero _)
  | succ m ih =>
    rw [Parser.run]
    cases hstep : P.step c with
    | inl outcome => exact ⟨outcome, c, rfl⟩
    | inr next =>
      have hless := weight_step hfits h hstep
      exact ih (h.step hfits hstep) (by omega)

/-- The parser ends after a number of steps that is linear in the number of tokens. -/
theorem run_ends (hfits : P.Fits k) (input : List Token) (data : S) :
    ∃ outcome c, P.run (k.rankOf 0 + k.tokenWeight * (input.length + 1) + 1)
      (.start input data) = some (outcome, c) := by
  apply exists_run hfits Inv.start
  unfold weight
  split_ifs
  · omega
  · change 0 + k.rankOf 0 + k.tokenWeight * (input.length + 1) < _
    omega

end Run

end TableParser
