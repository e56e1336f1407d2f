import TDB.ReplyBytes

namespace TDB.SessionReply

open Framing

/-! ## Statements and their replies -/

def Statement.AnswersWithState (st : Statement) : Prop :=
  st.planFailed = false ∧ ∃ r ∈ st.sqlResult, r.1.AnswersWithState

/-- The statement breaks the connection: a cell cannot be sent, or there is nothing to execute. -/
def Statement.BreaksOff (st : Statement) : Prop :=
  st.planFailed = false ∧ ∀ r ∈ st.sqlResult, r.1.BreaksOff

theorem SqlResult.BreaksOff.not_answersWithState {result : SqlResult} (h : result.BreaksOff) :
    ¬ result.AnswersWithState := by
  obtain ⟨oper, hoper, hcode, hopen, hrows⟩ := h
  intro hstate
  exact hrows (hstate oper hoper hcode hopen).1

theorem processSessionRequest_disconnects {sql : List (BitVec 8)} (hsql : isBlank sql = false)
    (st : Statement) : (processSessionRequest sql st).2 = true ↔ st.BreaksOff := by
  unfold processSessionRequest Statement.BreaksOff
  rw [hsql]
  by_cases hplan : st.planFailed
  · simp [hplan]
  · cases hresult : st.sqlResult with
    | none => simp [hplan, execute, hresult]
    | some r =>
      by_cases hstate : r.1.AnswersWithState
      · have hkeeps := (sendResult_isState st.session r.2 r.1 hstate).keeps
        have hnot : ¬ r.1.BreaksOff := fun hbreaks => hbreaks.not_answersWithState hstate
        simp [hplan, execute, hresult, hkeeps, hnot]
      · have hneed := (sendResult_isRows st.session r.2 r.1 hstate).needDisconnect
        simp [hplan, execute, hresult, hneed]

/-- Every reply ends with a delimiter; it is the only one unless the statement is executed and
answers with a state. -/
theorem processSessionRequest_framed {sql : List (BitVec 8)} (hsql : isBlank sql = false)
    (st : Statement) :
    (∃ t, (processSessionRequest sql st).1 = t ++ [0#8]) ∧
      (Framed 0#8 (processSessionRequest sql st).1 ↔ ¬ st.AnswersWithState) := by
  unfold processSessionRequest Statement.AnswersWithState
  rw [hsql]
  have hcost := noNul_costText st.nanoseconds
  by_cases hplan : st.planFailed
  · have hframed := (isState_writeState st.returnCode st.state).framed
    refine ⟨?_, by simpa [hplan] using hframed⟩
    obtain ⟨t, -, ht⟩ := hframed
    exact ⟨t, by simpa [hplan] using ht⟩
  · have hreply : (execute st).bytes ++ costText st.nanoseconds ++ messageDelimiter =
        ((execute st).bytes ++ costText st.nanoseconds) ++ [0#8] := rfl
    simp only [hplan, Bool.false_eq_true, ↓reduceIte, true_and]
    refine ⟨⟨_, hreply⟩, ?_⟩
    rw [hreply, framed_append, List.mem_append, not_or]
    simp only [hcost, not_false_eq_true, and_true]
    cases hresult : st.sqlResult with
    | none => simp [execute, hresult]
    | some r =>
      by_cases hstate : r.1.AnswersWithState
      · obtain ⟨t, -, ht⟩ := (sendResult_isState st.session r.2 r.1 hstate).framed
        simp [execute, hresult, hstate, ht]
      · have hnone := (sendResult_isRows st.session r.2 r.1 hstate).noNul
        simp [execute, hresult, hstate, hnone]

/-! ## The session -/

theorem clientCommands_sendable (statement : List (List (BitVec 8)) → Statement)
    (lines : List Line) : ∀ c ∈ clientCommands lines,
      Sendable (connection statement) c ∧ isBlank c = false := by
  induction lines with
  | nil => simp [clientCommands]
  | cons line lines ih =>
    unfold clientCommands
    split_ifs with hblank hexit
    · exact ih
    · simp
    · rw [List.forall_mem_cons]
      refine ⟨⟨⟨line.noNul, ?_⟩, by simpa using hblank⟩, ih⟩
      have hfits := line.fits
      simp only [connection, PlainCommunicator.maxPacketSize, maxMemBufferSize] at hfits ⊢
      omega

theorem getLastD_mem {history : List (List (BitVec 8))} (hne : history ≠ []) :
    history.getLastD [] ∈ history := by
  rw [List.getLastD_eq_getLast?, List.getLast?_eq_getLast_of_ne_nil hne]
  exact List.getLast_mem hne

theorem served_iff {statement : List (List (BitVec 8)) → Statement}
    {history : List (List (BitVec 8))} (hblank : ∀ c ∈ history, isBlank c = false)
    (c : List (BitVec 8)) :
    Served (connection statement) (history ++ [c]) ↔
      ∀ before, before <+: history → before ≠ [] → ¬ (statement before).BreaksOff := by
  have hserve : ∀ before, before <+: history → before ≠ [] →
      (((connection statement).serve before).2 = false ↔ ¬ (statement before).BreaksOff) := by
    intro before hpast hne
    have hlast := hpast.subset (getLastD_mem hne)
    rw [← processSessionRequest_disconnects (hblank _ hlast), Bool.not_eq_true]
    rfl
  constructor
  · intro h before hpast hne
    rw [← hserve before hpast hne]
    have hlen := hpast.length_le
    have hkept := h before.length (List.length_pos_of_ne_nil hne) (by simp; omega)
    rwa [List.take_append_of_le_length hlen, ← List.prefix_iff_eq_take.mp hpast] at hkept
  · intro h k hk hlt
    rw [List.length_append, List.length_singleton] at hlt
    rw [List.take_append_of_le_length (by omega)]
    have hne : history.take k ≠ [] := by
      apply List.ne_nil_of_length_pos
      rw [List.length_take]
      omega
    exact (hserve _ (List.take_prefix k history) hne).mpr (h _ (List.take_prefix k history) hne)

/-- Replies are framed as long as no statement before the last answers with a state. -/
theorem repliesFramed_iff (statement : List (List (BitVec 8)) → Statement) (lines : List Line) :
    RepliesFramed (connection statement) (clientCommands lines) ↔
      ∀ history c rest, clientCommands lines = history ++ c :: rest → rest ≠ [] →
        (∀ before, before <+: history → before ≠ [] → ¬ (statement before).BreaksOff) →
        ¬ (statement (history ++ [c])).AnswersWithState := by
  have hcommands := clientCommands_sendable statement lines
  have hone : ∀ history c rest, clientCommands lines = history ++ c :: rest →
      (Served (connection statement) (history ++ [c]) ↔
        ∀ before, before <+: history → before ≠ [] → ¬ (statement before).BreaksOff) ∧
      (Framed 0#8 ((connection statement).serve (history ++ [c])).1 ↔
        ¬ (statement (history ++ [c])).AnswersWithState) := by
    intro history c rest hsplit
    have hblank : ∀ e ∈ history ++ [c], isBlank e = false := by
      intro e he
      apply (hcommands e _).2
      rw [hsplit]
      simp only [List.mem_append, List.mem_cons] at he ⊢
      tauto
    constructor
    · apply served_iff
      intro e he
      exact hblank e (List.mem_append_left _ he)
    · have hframed := processSessionRequest_framed (hblank c (by simp)) (statement (history ++ [c]))
      simpa [connection] using hframed.2
  constructor
  · intro h history c rest hsplit hrest hbefore
    have hc := hone history c rest hsplit
    exact hc.2.mp (h history c rest hsplit hrest (hc.1.mpr hbefore))
  · intro h history c rest hsplit hrest hserved
    have hc := hone history c rest hsplit
    exact hc.2.mpr (h history c rest hsplit hrest (hc.1.mp hserved))

theorem serve_ends (statement : List (List (BitVec 8)) → Statement) (lines : List Line)
    (history : List (List (BitVec 8))) (hpast : history <+: clientCommands lines)
    (hne : history ≠ []) : ∃ t, ((connection statement).serve history).1 = t ++ [0#8] := by
  have hlast := hpast.subset (getLastD_mem hne)
  exact (processSessionRequest_framed (clientCommands_sendable statement lines _ hlast).2
    (statement history)).1

theorem noNul_one : 0#8 ∉ ascii "1" := by decide

theorem recordEof_ne_success : RC.recordEof ≠ .success := by decide

def selectOne : Statement where
  session := ⟨false, .success⟩
  planRc := .success
  returnCode := .success
  state := ⟨[], List.not_mem_nil⟩
  work := .operator (.select [⟨ascii "1", noNul_one⟩])
    ⟨.success, [[⟨.success, .success, ⟨ascii "1", noNul_one⟩⟩]], .recordEof, recordEof_ne_success,
      .success⟩
  nanoseconds := 1500

theorem selectOne_not_answersWithState : ¬ selectOne.AnswersWithState := by
  intro h
  obtain ⟨-, r, hr, hstate⟩ := h
  have hr' : selectOne.sqlResult = some r := hr
  simp only [selectOne, Statement.sqlResult, setOperatorSchema, Option.some.injEq] at hr'
  subst hr'
  have hschema := (hstate _ rfl rfl rfl).2 rfl
  simp at hschema

example : (processSessionRequest (ascii "select 1\n") selectOne).1 =
    ascii "1\n1\nCost time: 1500 ns\n" ++ messageDelimiter := by
  decide

def selectLine : Line := ⟨⟨ascii "select 1\n", by decide⟩, by decide⟩

end TDB.SessionReply
