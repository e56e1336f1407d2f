import Mathlib.Data.List.Basic

namespace CallStream

variable {R L L' S : Type}

/-- One call of a function with what happened below it in the meantime. -/
structure Call (R L : Type) where
  result : R
  met : List L

/-- Calls one after another; `ending` is what happens below during the first call behind them. -/
structure CallSeq (R L : Type) where
  calls : List (Call R L)
  ending : List L := []

namespace CallSeq

def results (s : CallSeq R L) : List R := s.calls.map Call.result

def relabel (f : L → L') (s : CallSeq R L) : CallSeq R L' :=
  ⟨s.calls.map fun call => ⟨call.result, call.met.map f⟩, s.ending.map f⟩

/-- Every call reports what it has met, and the end has met nothing. -/
structure Reports (report : L → R) (s : CallSeq R L) : Prop where
  calls : ∀ call ∈ s.calls, ∀ l ∈ call.met, call.result = report l
  ending : s.ending = []

def HeadMet (l : L) (s : CallSeq R L) : Prop :=
  match s.calls with
  | [] => l ∈ s.ending
  | call :: _ => l ∈ call.met

theorem results_relabel (f : L → L') (s : CallSeq R L) : (s.relabel f).results = s.results := by
  simp [relabel, results]

/-- What the first call has met is reported by its result, whatever the names are. -/
theorem not_reports_relabel {report : L → R} {s : CallSeq R L} {l l' : L} (hhead : s.HeadMet l)
    (hs : s.Reports report) (hne : report l ≠ report l') :
    ¬ (s.relabel fun _ => l').Reports report := by
  intro hs'
  rw [HeadMet] at hhead
  split at hhead
  · rw [hs.ending] at hhead
    cases hhead
  · next call calls hcalls =>
    have hmem : call ∈ s.calls := by rw [hcalls]; exact List.mem_cons_self
    have hmem' : (⟨call.result, call.met.map fun _ => l'⟩ : Call R L) ∈
        (s.relabel fun _ => l').calls := List.mem_map_of_mem hmem
    have hreport := hs.calls call hmem l hhead
    have hreport' := hs'.calls _ hmem' l' (List.mem_map.2 ⟨l, hhead, rfl⟩)
    exact hne (hreport.symm.trans hreport')

end CallSeq

/-! ## Loops over the calls of a child -/

def CallSeq.cons (call : Call R L) (s : CallSeq R L) : CallSeq R L :=
  { s with calls := call :: s.calls }

/-- A loop that calls its child until `body` says what to return for the child's result; `finish`
says what it returns when the child has ended. -/
def loopFrom (body : S → R → Option R × S) (finish : S → Option R) (ending : List L) :
    S → List L → List (Call R L) → CallSeq R L
  | state, met, [] =>
    match finish state with
    | some result => ⟨[⟨result, met ++ ending⟩], []⟩
    | none => ⟨[], met ++ ending⟩
  | state, met, call :: calls =>
    match body state call.result with
    | (some result, state) =>
      (loopFrom body finish ending state [] calls).cons ⟨result, met ++ call.met⟩
    | (none, state) => loopFrom body finish ending state (met ++ call.met) calls

def loop (body : S → R → Option R × S) (finish : S → Option R) (init : S) (s : CallSeq R L) :
    CallSeq R L :=
  loopFrom body finish s.ending init [] s.calls

def loopResults (body : S → R → Option R × S) (finish : S → Option R) : S → List R → List R
  | state, [] => (finish state).toList
  | state, result :: results =>
    match body state result with
    | (some result, state) => result :: loopResults body finish state results
    | (none, state) => loopResults body finish state results

section

variable (body : S → R → Option R × S) (finish : S → Option R)

theorem loopFrom_results (ending : List L) (state : S) (met : List L) (calls : List (Call R L)) :
    (loopFrom body finish ending state met calls).results =
      loopResults body finish state (calls.map Call.result) := by
  induction calls generalizing state met with
  | nil =>
    rw [loopFrom, List.map_nil, loopResults]
    cases finish state <;> rfl
  | cons call calls ih =>
    rw [loopFrom, List.map_cons, loopResults]
    match body state call.result with
    | (some result, state') => exact congrArg (List.cons result) (ih state' [])
    | (none, state') => exact ih state' (met ++ call.met)

theorem loop_results (init : S) (s : CallSeq R L) :
    (loop body finish init s).results = loopResults body finish init s.results :=
  loopFrom_results body finish s.ending init [] s.calls

theorem loopFrom_relabel (f : L → L') (ending : List L) (state : S) (met : List L)
    (calls : List (Call R L)) :
    (loopFrom body finish ending state met calls).relabel f =
      loopFrom body finish (ending.map f) state (met.map f)
        (calls.map fun call => ⟨call.result, call.met.map f⟩) := by
  induction calls generalizing state met with
  | nil =>
    rw [loopFrom, List.map_nil, loopFrom]
    cases finish state <;> simp [CallSeq.relabel]
  | cons call calls ih =>
    rw [loopFrom, List.map_cons, loopFrom]
    match body state call.result with
    | (some result, state') =>
      have hrest := ih state' []
      rw [List.map_nil] at hrest
      dsimp only
      rw [← hrest, ← List.map_append]
      rfl
    | (none, state') =>
      have hrest := ih state' (met ++ call.met)
      rwa [List.map_append] at hrest

theorem loop_relabel (f : L → L') (init : S) (s : CallSeq R L) :
    (loop body finish init s).relabel f = loop body finish init (s.relabel f) :=
  loopFrom_relabel body finish f s.ending init [] s.calls

theorem headMet_loopFrom {l : L} {ending : List L} {calls : List (Call R L)} (state : S)
    {met : List L} (h : l ∈ met ∨ (⟨calls, ending⟩ : CallSeq R L).HeadMet l) :
    (loopFrom body finish ending state met calls).HeadMet l := by
  induction calls generalizing state met with
  | nil =>
    have hmem : l ∈ met ++ ending := List.mem_append.2 h
    rw [loopFrom]
    cases finish state <;> exact hmem
  | cons call calls ih =>
    have hmem : l ∈ met ++ call.met := List.mem_append.2 h
    rw [loopFrom]
    match body state call.result with
    | (some result, state') => exact hmem
    | (none, state') => exact ih state' (.inl hmem)

theorem headMet_loop {l : L} (init : S) {s : CallSeq R L} (h : s.HeadMet l) :
    (loop body finish init s).HeadMet l :=
  headMet_loopFrom body finish init (.inr h)

variable {body} {report : L → R}

theorem reports_loopFrom (hbody : ∀ state l, (body state (report l)).1 = some (report l))
    {calls : List (Call R L)} (hcalls : ∀ call ∈ calls, ∀ l ∈ call.met, call.result = report l)
    (state : S) : (loopFrom body finish [] state [] calls).Reports report := by
  induction calls generalizing state with
  | nil =>
    rw [loopFrom]
    cases finish state with
    | none => exact ⟨nofun, rfl⟩
    | some result =>
      refine ⟨?_, rfl⟩
      intro call hcall l hl
      rw [List.mem_singleton.1 hcall] at hl
      cases hl
  | cons call calls ih =>
    have hrest := fun state => ih (fun call' h => hcalls call' (List.mem_cons_of_mem call h)) state
    -- a call that has met something returns it, and so does the loop
    have hmet : ∀ l ∈ call.met, (body state call.result).1 = some (report l) := by
      intro l hl
      rw [hcalls call List.mem_cons_self l hl]
      exact hbody state l
    rw [loopFrom]
    match hcase : body state call.result with
    | (some result, state') =>
      refine ⟨?_, (hrest state').ending⟩
      intro call' hcall'
      rcases List.mem_cons.1 hcall' with rfl | hcall'
      · intro l hl
        have hl' := hmet l hl
        rw [hcase] at hl'
        exact Option.some.inj hl'
      · exact (hrest state').calls call' hcall'
    | (none, state') =>
      have hnil : call.met = [] := by
        apply List.eq_nil_iff_forall_not_mem.2
        intro l hl
        have hl' := hmet l hl
        rw [hcase] at hl'
        cases hl'
      rw [List.nil_append, hnil]
      exact hrest state'

theorem reports_loop (hbody : ∀ state l, (body state (report l)).1 = some (report l)) (init : S)
    {s : CallSeq R L} (hs : s.Reports report) : (loop body finish init s).Reports report := by
  rw [loop, hs.ending]
  exact reports_loopFrom finish hbody hs.calls init

end

end CallStream
