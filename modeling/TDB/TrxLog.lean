import TDB.TrxInterleaving

namespace TDB.Mvcc

open Redo

/-! ## The log of one transaction -/

/-- COMMIT and ROLLBACK come only while the session's transaction is started. -/
def EndsStarted (i : ℕ) (s : Server) (program : List Call) : Prop :=
  ∃ st : Statement, program = st.calls ∧
    (st = .commit ∨ st = .rollback → ∃ trxId, s.face i = some (trxId, true))

/-- Whether calls end only a started transaction, from a transaction that is not there, or is there
and has started or not.  After `sqlResultClose` it may have ended or not. -/
def endsStarted : Option Bool → List Call → Bool
  | _, [] => true
  | t, .currentTrx :: cs => endsStarted (some (t.getD false)) cs
  | t, .startIfNeed :: cs | t, .appendBeginTrxLog :: cs => t.isSome && endsStarted (some true) cs
  | t, .sqlResultClose _ :: cs =>
    t = some true && endsStarted (some true) cs && endsStarted (some false) cs
  | t, .commit :: cs | t, .commitWithTrxId _ :: cs | t, .rollback :: cs =>
    t = some true && endsStarted (some false) cs
  | _, .destroyTrx :: cs => endsStarted none cs
  | t, .setTrxMultiOperationMode _ :: cs | t, .insertRecord _ _ :: cs
  | t, .deleteRecord _ _ :: cs => endsStarted t cs

theorem endsStarted_operations (t : Option Bool) (ops : List Operation) (cs : List Call) :
    endsStarted t (ops.filterMap Operation.call ++ cs) = endsStarted t cs := by
  induction ops with
  | nil => rfl
  | cons op ops ih =>
    rw [List.filterMap_cons]
    unfold Operation.call
    split
    case h_1 hnone => exact ih
    case h_2 c hsome =>
      split at hsome <;> simp only [Option.some.injEq, reduceCtorEq] at hsome <;> subst hsome <;>
        exact ih

theorem EndsStarted.endsStarted {i : ℕ} {s : Server} {program : List Call}
    (h : EndsStarted i s program) : endsStarted ((s.face i).map Prod.snd) program = true := by
  obtain ⟨st, rfl, hends⟩ := h
  cases st with
  | query operations closed =>
    simp only [Statement.calls, List.cons_append, List.nil_append, Mvcc.endsStarted,
      endsStarted_operations, Option.isSome_some, Bool.true_and]
    cases closed <;> rfl
  | commit =>
    obtain ⟨trxId, hface⟩ := hends (Or.inl rfl)
    simp [Statement.calls, Mvcc.endsStarted, hface]
  | rollback =>
    obtain ⟨trxId, hface⟩ := hends (Or.inr rfl)
    simp [Statement.calls, Mvcc.endsStarted, hface]
  | _ => simp [Statement.calls, Mvcc.endsStarted]

namespace Server

def history (trxId : Int32) (s : Server) : List Int32 :=
  (s.handed.filter fun e => e.header.trxId = trxId).map fun e => e.header.type

/-- A transaction begins, and then commits or rolls back, at most once. -/
def Bracketed (types : List Int32) : Prop :=
  types <+: [LogEntryType.mtrBegin.toInteger, LogEntryType.mtrCommit.toInteger] ∨
    types <+: [LogEntryType.mtrBegin.toInteger, LogEntryType.mtrRollback.toInteger]

/-- The log of every transaction is bracketed, and every transaction there has its number from the
manager. -/
structure Brackets (s : Server) : Prop where
  bracketed : ∀ trxId, Bracketed (s.history trxId)
  given : ∀ e ∈ s.handed, ∃ i, (i, e.header.trxId) ∈ s.given

structure OwnLog (i : ℕ) (left : List Call) (s : Server) : Prop where
  started : ∀ trxId, s.face i = some (trxId, true) →
    s.history trxId = [LogEntryType.mtrBegin.toInteger]
  begins : left.head? = some .appendBeginTrxLog → ∀ trxId, s.face i = some (trxId, false) →
    s.history trxId = []
  ends : endsStarted ((s.face i).map Prod.snd) left = true

variable {lib : StdLib} {base : Int32} {i j : ℕ} {c : Call} {rest left : List Call} {s : Server}

theorem history_of_handed {s' : Server} {es : List LogEntry} (hhanded : s'.handed = s.handed ++ es)
    (trxId : Int32) : s'.history trxId = s.history trxId ++
      (es.filter fun e => e.header.trxId = trxId).map fun e => e.header.type := by
  simp [history, hhanded]

theorem history_eq_nil (h : ∀ e ∈ s.handed, ∃ i, (i, e.header.trxId) ∈ s.given) {trxId : Int32}
    (hnone : ∀ i, (i, trxId) ∉ s.given) : s.history trxId = [] := by
  rw [history, List.map_eq_nil_iff, List.filter_eq_nil_iff]
  intro e he heq
  obtain ⟨i, hi⟩ := h e he
  rw [of_decide_eq_true heq] at hi
  exact hnone i hi

/-- What a call hands to the log is an entry of the session's own transaction: its begin, or an end
of it once it has started. -/
theorem OwnLog.entry (h : s.OwnLog i (c :: rest)) (hheld : s.Held i (c :: rest)) (howns : s.Owns) :
    (effect i s c).events.filterMap Event.entry = [] ∨
      ∃ e trxId started, (effect i s c).events.filterMap Event.entry = [e] ∧
        s.face i = some (trxId, started) ∧ e.header.trxId = trxId ∧ (i, trxId) ∈ s.given ∧
        (c = .appendBeginTrxLog ∧ started = false ∧
            e.header.type = LogEntryType.mtrBegin.toInteger ∨
          c ≠ .appendBeginTrxLog ∧ started = true ∧
            (e.header.type = LogEntryType.mtrCommit.toInteger ∨
              e.header.type = LogEntryType.mtrRollback.toInteger)) := by
  have howned : ∀ trxId, s.face i = some (trxId, true) → (i, trxId) ∈ s.given := by
    intro trxId hface
    rcases howns i trxId true hface with hgiven | ⟨-, hfalse⟩
    · exact hgiven
    · cases hfalse
  rcases hface : s.face i with _ | ⟨trxId, started⟩
  · left
    cases c <;> simp [effect, hface]
  · have hends := h.ends
    rw [hface] at hends
    cases c with
    | startIfNeed =>
      left
      cases started <;> simp [effect, hface, Event.entry]
    | appendBeginTrxLog =>
      right
      obtain ⟨trxId', hface', hreserved⟩ := hheld.begins rfl
      obtain ⟨rfl, rfl⟩ : trxId = trxId' ∧ started = false := by simpa [hface] using hface'
      refine ⟨buildMtrEntry .mtrBegin trxId, trxId, false, ?_, rfl, rfl, hreserved.1,
        Or.inl ⟨rfl, rfl, rfl⟩⟩
      simp [effect, hface, appends, Event.entry]
    | commitWithTrxId commitXid =>
      right
      obtain rfl : started = true := by
        cases started with
        | true => rfl
        | false => simp [endsStarted] at hends
      refine ⟨buildCommitEntry trxId commitXid, trxId, true, ?_, rfl, rfl, howned trxId hface,
        Or.inr ⟨by simp, rfl, Or.inl rfl⟩⟩
      simp only [effect, hface]
      split <;> rfl
    | rollback =>
      right
      obtain rfl : started = true := by
        cases started with
        | true => rfl
        | false => simp [endsStarted] at hends
      refine ⟨buildMtrEntry .mtrRollback trxId, trxId, true, ?_, rfl, rfl, howned trxId hface,
        Or.inr ⟨by simp, rfl, Or.inr rfl⟩⟩
      simp [effect, hface, appends, Event.entry]
    | _ =>
      left
      simp [effect, hface, Event.entry]

theorem history_run (hdoes : Does lib i c s) (trxId : Int32) :
    (s.run lib i c).2.history trxId = s.history trxId ++
      (((effect i s c).events.filterMap Event.entry).filter fun e => e.header.trxId = trxId).map
        fun e => e.header.type :=
  history_of_handed hdoes.handed trxId

/-- A call changes the log of the session's own transaction only. -/
theorem OwnLog.history_other (h : s.OwnLog i (c :: rest)) (hheld : s.Held i (c :: rest))
    (howns : s.Owns) (hdoes : Does lib i c s) {trxId : Int32}
    (hne : ∀ started, s.face i = some (trxId, started) → (i, trxId) ∉ s.given) :
    (s.run lib i c).2.history trxId = s.history trxId := by
  rw [history_run hdoes]
  rcases h.entry hheld howns with hnone | ⟨e, trxId', started, hentry, hface, htrx, hgiven, -⟩
  · rw [hnone]
    exact List.append_nil _
  · have hdiffers : e.header.trxId ≠ trxId := by
      intro heq
      rw [← htrx, heq] at hface hgiven
      exact hne started hface hgiven
    simp [hentry, hdiffers]

theorem OwnLog.history_own (h : s.OwnLog i (c :: rest)) (hdoes : Does lib i c s) {e : LogEntry}
    {trxId : Int32} {started : Bool}
    (hentry : (effect i s c).events.filterMap Event.entry = [e])
    (hface : s.face i = some (trxId, started)) (htrx : e.header.trxId = trxId)
    (hcase : c = .appendBeginTrxLog ∧ started = false ∧
        e.header.type = LogEntryType.mtrBegin.toInteger ∨
      c ≠ .appendBeginTrxLog ∧ started = true ∧
        (e.header.type = LogEntryType.mtrCommit.toInteger ∨
          e.header.type = LogEntryType.mtrRollback.toInteger)) :
    (s.run lib i c).2.history trxId =
      if started then [LogEntryType.mtrBegin.toInteger, e.header.type]
      else [LogEntryType.mtrBegin.toInteger] := by
  rw [history_run hdoes]
  rcases hcase with ⟨rfl, rfl, htype⟩ | ⟨-, rfl, -⟩
  · rw [h.begins rfl trxId hface]
    simp [hentry, htrx, htype]
  · rw [h.started trxId hface]
    simp [hentry, htrx]

theorem Brackets.run (h : s.Brackets) (hown : s.OwnLog i (c :: rest)) (howns : s.Owns)
    (hdoes : Does lib i c s) (hheld : s.Held i (c :: rest)) : (s.run lib i c).2.Brackets := by
  have hmono : ∀ g ∈ s.given, g ∈ (s.run lib i c).2.given := by
    intro g hg
    rw [hdoes.given]
    exact List.mem_append_left _ hg
  rcases hown.entry hheld howns with hnone | ⟨e, trxId, started, hentry, hface, htrx, hgiven, hcase⟩
  · constructor
    case bracketed =>
      intro trxId
      rw [history_run hdoes, hnone]
      simpa using h.bracketed trxId
    case given =>
      intro e he
      rw [hdoes.handed, hnone, List.append_nil] at he
      obtain ⟨j, hj⟩ := h.given e he
      exact ⟨j, hmono _ hj⟩
  · constructor
    case bracketed =>
      intro trxId'
      by_cases heq : trxId' = trxId
      · subst heq
        rw [hown.history_own hdoes hentry hface htrx hcase]
        rcases hcase with ⟨-, rfl, -⟩ | ⟨-, rfl, htype | htype⟩
        · exact Or.inl ⟨[LogEntryType.mtrCommit.toInteger], rfl⟩
        · rw [htype]
          exact Or.inl (List.prefix_refl _)
        · rw [htype]
          exact Or.inr (List.prefix_refl _)
      · rw [hown.history_other hheld howns hdoes]
        · exact h.bracketed trxId'
        · intro started' hface'
          rw [hface] at hface'
          exact absurd (Prod.mk.inj (Option.some.inj hface')).1.symm heq
    case given =>
      intro e' he'
      rw [hdoes.handed, hentry, List.mem_append, List.mem_singleton] at he'
      rcases he' with he' | rfl
      · obtain ⟨j, hj⟩ := h.given e' he'
        exact ⟨j, hmono _ hj⟩
      · rw [htrx]
        exact ⟨i, hmono _ hgiven⟩

theorem OwnLog.of_run_other (hleft : s.OwnLog j left) (hheldj : s.Held j left) (hj : j ≠ i)
    (hsound : s.Sound base) (h : s.OwnLog i (c :: rest)) (hdoes : Does lib i c s)
    (hheld : s.Held i (c :: rest)) : (s.run lib i c).2.OwnLog j left := by
  have hface : (s.run lib i c).2.face j = s.face j := by
    rw [Server.face, hdoes.others _ (by simpa using hj), Server.face]
  have hhistory : ∀ trxId, (j, trxId) ∈ s.given →
      (s.run lib i c).2.history trxId = s.history trxId := by
    intro trxId hgiven
    apply h.history_other hheld hsound.owns hdoes
    intro started _ hgiven'
    exact hj (hsound.numbers.owner hgiven hgiven')
  constructor
  case started =>
    intro trxId htrx
    rw [hface] at htrx
    rw [hhistory]
    · exact hleft.started trxId htrx
    · rcases hsound.owns j trxId true htrx with hgiven | ⟨-, hfalse⟩
      · exact hgiven
      · cases hfalse
  case begins =>
    intro hhead trxId htrx
    rw [hface] at htrx
    obtain ⟨trxId', htrx', hreserved⟩ := hheldj.begins hhead
    obtain rfl : trxId = trxId' := by simpa [htrx] using htrx'
    rw [hhistory trxId hreserved.1]
    exact hleft.begins hhead trxId htrx
  case ends =>
    rw [hface]
    exact hleft.ends

/-- The outline behind a call that leaves the log of its transaction as the face says, and goes on
with plain calls. -/
theorem OwnLog.of_plain {left : List Call} (hplain : ∀ c ∈ left, c.plain = true)
    (hstarted : ∀ trxId, s.face i = some (trxId, true) →
      s.history trxId = [LogEntryType.mtrBegin.toInteger])
    (hends : endsStarted ((s.face i).map Prod.snd) left = true) : s.OwnLog i left := by
  refine ⟨hstarted, fun hhead => ?_, hends⟩
  have := hplain _ (List.mem_of_mem_head? hhead)
  cases this

theorem OwnLog.of_run (h : s.OwnLog i (c :: rest)) (hbrackets : s.Brackets)
    (hsound : s.Sound base) (hdoes : Does lib i c s) (hheld : s.Held i (c :: rest))
    (hbounded : (s.run lib i c).2.Bounded base) :
    (s.run lib i c).2.OwnLog i ((s.run lib i c).1 ++ rest) := by
  have hrest : ∀ c' ∈ rest, c'.plain = true := hheld.tail
  have hends := h.ends
  -- the calls that hand nothing to the log
  have hquiet : (effect i s c).events.filterMap Event.entry = [] →
      ∀ trxId, (s.run lib i c).2.history trxId = s.history trxId := by
    intro hnone trxId
    rw [history_run hdoes, hnone]
    exact List.append_nil _
  have hnext := hdoes.next
  have hface' := hdoes.face
  rcases hface : s.face i with _ | ⟨trxId, started⟩
  · rw [hface] at hends
    cases c with
    | currentTrx =>
      simp only [effect, hface] at hnext hface'
      rw [hnext, List.nil_append]
      apply OwnLog.of_plain hrest
      · intro trxId htrx
        simp [hface'] at htrx
      · simpa [hface', endsStarted] using hends
    | setTrxMultiOperationMode _ | insertRecord _ _ | deleteRecord _ _ | destroyTrx =>
      simp only [effect, hface] at hnext hface'
      rw [hnext, List.nil_append]
      apply OwnLog.of_plain hrest
      · intro trxId htrx
        simp [hface'] at htrx
      · simpa [hface', endsStarted] using hends
    | _ => simp [endsStarted] at hends
  · rw [hface] at hends
    have hstarted : started = true → s.history trxId = [LogEntryType.mtrBegin.toInteger] := by
      rintro rfl
      exact h.started trxId hface
    cases c with
    | currentTrx | setTrxMultiOperationMode _ | insertRecord _ _ | deleteRecord _ _ =>
      have hsame := hquiet (by simp [effect, hface])
      simp only [effect, hface] at hnext hface'
      rw [hnext, List.nil_append]
      apply OwnLog.of_plain hrest
      · intro trxId' htrx
        obtain ⟨rfl, hs⟩ : trxId = trxId' ∧ started = true := by simpa [hface'] using htrx
        rw [hsame, hstarted hs]
      · simpa [hface', endsStarted] using hends
    | destroyTrx =>
      simp only [effect, hface] at hnext hface'
      rw [hnext, List.nil_append]
      apply OwnLog.of_plain hrest
      · intro trxId' htrx
        simp [hface'] at htrx
      · simpa [hface', endsStarted] using hends
    | sqlResultClose rc =>
      have hsame := hquiet (by simp [effect, hface])
      simp only [effect, hface] at hnext hface'
      simp only [Option.map_some, endsStarted, Option.some.injEq, Bool.and_eq_true,
        decide_eq_true_eq] at hends
      obtain ⟨⟨rfl, htrue⟩, hfalse⟩ := hends
      apply OwnLog.of_plain
      · intro c' hc'
        rw [hnext, List.mem_append] at hc'
        rcases hc' with hc' | hc'
        · split at hc'
          · cases hc'
          · split at hc' <;> simp only [List.mem_singleton] at hc' <;> subst hc' <;> rfl
        · exact hrest c' hc'
      · intro trxId' htrx
        obtain ⟨rfl, -⟩ : trxId = trxId' ∧ True := by simpa [hface'] using htrx
        rw [hsame, hstarted rfl]
      · rw [hnext, hface']
        split
        · exact htrue
        · split <;> simpa [endsStarted] using hfalse
    | startIfNeed =>
      have hsame := hquiet (by cases started <;> simp [effect, hface, Event.entry])
      cases started with
      | true =>
        simp only [effect, hface] at hnext hface'
        rw [hnext, List.nil_append]
        apply OwnLog.of_plain hrest
        · intro trxId' htrx
          obtain ⟨rfl, -⟩ : trxId = trxId' ∧ True := by simpa [hface'] using htrx
          rw [hsame, hstarted rfl]
        · simpa [hface', endsStarted] using hends
      | false =>
        simp only [effect, hface] at hnext hface'
        rw [hnext]
        constructor
        case started =>
          intro trxId' htrx
          simp [hface'] at htrx
        case begins =>
          intro _ trxId' htrx
          obtain rfl : s.currentTrxId + 1 = trxId' := by simpa [hface'] using htrx
          rw [hsame]
          -- the number is new, and the log only has numbers that were given before
          apply history_eq_nil hbrackets.given
          intro j hj
          have hle : (s.currentTrxId + 1).toInt ≤ s.currentTrxId.toInt :=
            (hsound.numbers.mem hj).2
          have hgiven : (s.run lib i .startIfNeed).2.given =
              s.given ++ [(i, s.currentTrxId + 1)] := by
            rw [hdoes.given]
            simp [effect, hface, Event.given]
          rw [Bounded, hgiven, List.length_append, List.length_singleton] at hbounded
          have hsucc : (s.currentTrxId + 1).toInt = s.currentTrxId.toInt + 1 := by
            apply toInt_succ
            rw [hsound.numbers.current]
            push_cast at hbounded
            omega
          omega
        case ends => simpa [hface', endsStarted] using hends
    | commit =>
      have hsame := hquiet (by simp [effect, hface, Event.entry])
      simp only [effect, hface] at hnext hface'
      rw [hnext]
      constructor
      case started =>
        intro trxId' htrx
        obtain ⟨rfl, hs⟩ : trxId = trxId' ∧ started = true := by simpa [hface'] using htrx
        rw [hsame, hstarted hs]
      case begins =>
        intro hhead
        simp at hhead
      case ends => simpa [hface', endsStarted] using hends
    | appendBeginTrxLog =>
      rcases h.entry hheld hsound.owns with hnone | ⟨e, trxId', b, hentry, hface₁, htrx, -, hcase⟩
      · simp [effect, hface, appends, Event.entry] at hnone
      · have hown := h.history_own hdoes hentry hface₁ htrx hcase
        simp only [effect, hface] at hnext hface'
        rw [hnext, List.nil_append]
        apply OwnLog.of_plain hrest
        · intro trxId'' htrx'
          obtain rfl : trxId = trxId'' := by simpa [hface'] using htrx'
          obtain ⟨rfl, rfl⟩ : trxId = trxId' ∧ started = b := by simpa [hface] using hface₁
          rcases hcase with ⟨-, rfl, -⟩ | ⟨hne, -⟩
          · exact hown
          · exact absurd rfl hne
        · simpa [hface', endsStarted] using hends
    | commitWithTrxId _ | rollback =>
      simp only [effect, hface] at hnext hface'
      rw [hnext, List.nil_append]
      apply OwnLog.of_plain hrest
      · intro trxId' htrx
        simp [hface'] at htrx
      · have hends' : endsStarted (some false) rest = true := by
          cases started <;> simp [endsStarted] at hends
          exact hends
        simpa [hface'] using hends'

end Server

/-- In every order of the calls of sessions that end only started transactions, and until the
counter goes round, the log of each transaction is its begin and then at most one end, under a
number that the manager gave; that of a transaction in progress is its begin. -/
theorem log_bracketed (lib : StdLib) (tables : ℕ → Table) (log : LogManager)
    (recovery : List RecoveryCall) {s : Threads.Config ℕ Call Server}
    (h : Threads.Reaches (Server.run lib) EndsStarted
      (Server.start tables log recovery).waiting s)
    (hbounded : (Server.start tables log recovery).currentTrxId.toInt + s.shared.given.length <
      2 ^ 31) :
    (∀ trxId, Server.Bracketed (s.shared.history trxId)) ∧
    (∀ e ∈ s.shared.handed, ∃ i, (i, e.header.trxId) ∈ s.shared.given) ∧
    ∀ i t, s.shared.heap (.session i) = some t → t.started = true →
      s.shared.history t.trxId = [LogEntryType.mtrBegin.toInteger] := by
  have h₀ := Server.recovered_start tables log recovery
  generalize Server.start tables log recovery = s₀ at h hbounded h₀
  have hpreserved : Threads.Preserved (Server.run lib) EndsStarted
      (fun s => Server.Inv s₀.currentTrxId s₀ s ∧ (s.Bounded s₀.currentTrxId → s.Brackets))
      (fun i left s => Server.Counts s₀.currentTrxId i left s ∧
        (s.Bounded s₀.currentTrxId → s.OwnLog i left)) := by
    refine (Server.preserved_numbers lib (fun i s program hp => ?_) h₀).and ?_ ?_ ?_
    · obtain ⟨st, hst, -⟩ := hp
      exact ⟨st, hst⟩
    · intro i s program _ _ _ hown hmay hbounded
      have hplain : ∀ c ∈ program, c.plain = true := by
        obtain ⟨st, rfl, -⟩ := hmay
        exact st.plain_calls
      exact Server.OwnLog.of_plain hplain (hown hbounded).started hmay.endsStarted
    · intro i c rest s hinv hbrackets hheld hown
      have hdoes := Server.does lib hinv.recovers i c
      constructor
      · intro hbounded
        have hbefore := hbounded.of_run hdoes
        exact (hbrackets hbefore).run (hown hbefore) (hinv.sound hbefore).owns hdoes
          (hheld hbefore)
      · intro hbounded
        have hbefore := hbounded.of_run hdoes
        exact (hown hbefore).of_run (hbrackets hbefore) (hinv.sound hbefore) hdoes (hheld hbefore)
          hbounded
    · intro i c rest s hinv _ hheld hown j hj left hleft hownj hbounded
      have hdoes := Server.does lib hinv.recovers i c
      have hbefore := hbounded.of_run hdoes
      exact (hownj hbefore).of_run_other (hleft hbefore) hj (hinv.sound hbefore) (hown hbefore)
        hdoes (hheld hbefore)
  have hempty : s₀.handed = [] := by rw [Server.handed, h₀.trace, List.filterMap_nil]
  have hbegin : Threads.Outline
      (fun s => Server.Inv s₀.currentTrxId s₀ s ∧ (s.Bounded s₀.currentTrxId → s.Brackets))
      (fun i left s => Server.Counts s₀.currentTrxId i left s ∧
        (s.Bounded s₀.currentTrxId → s.OwnLog i left)) s₀.waiting := by
    refine ⟨⟨h₀.outline.inv, fun _ => ⟨fun trxId => ?_, fun e he => ?_⟩⟩,
      fun i => ⟨h₀.outline.holds i, fun _ => Server.OwnLog.of_plain (by simp [Server.waiting])
        (fun trxId hface => ?_) rfl⟩⟩
    · rw [Server.history, Server.waiting, hempty]
      exact Or.inl (List.nil_prefix)
    · rw [Server.waiting, hempty] at he
      cases he
    · simp [Server.waiting, Server.face, h₀.idle i] at hface
  have houtline := hpreserved.of_reaches hbegin h
  have hbrackets := houtline.inv.2 hbounded
  refine ⟨hbrackets.bracketed, hbrackets.given, fun i t ht hstarted => ?_⟩
  apply ((houtline.holds i).2 hbounded).started
  simp [Server.face, ht, hstarted]

/-- Two sessions begin, and the first commits while the second is in progress. -/
theorem log_bracketed_two_sessions : ∃ s : Threads.Config ℕ Call Server,
    Threads.Reaches (Server.run Store.plainLib) EndsStarted
      (Server.start (Store.own []).tables {} []).waiting s ∧
    s.shared.history 1 = [LogEntryType.mtrBegin.toInteger, LogEntryType.mtrCommit.toInteger] ∧
    s.shared.history 2 = [LogEntryType.mtrBegin.toInteger] ∧
    Server.Bracketed (s.shared.history 1) := by
  have hbegin : ∀ i (s : Server), EndsStarted i s Statement.begin.calls := by
    intro i s
    exact ⟨.begin, rfl, by simp⟩
  have h : Threads.Reaches (Server.run Store.plainLib) EndsStarted
      (Server.start (Store.own []).tables {} []).waiting _ :=
    (((((((((Relation.ReflTransGen.refl
      |>.tail (.begins _ 0 _ rfl (hbegin 0 _)))
      |>.tail (.calls _ 0 .currentTrx _ rfl))
      |>.tail (.calls _ 0 (.setTrxMultiOperationMode true) _ rfl))
      |>.tail (.calls _ 0 .startIfNeed _ rfl))
      |>.tail (.begins _ 1 _ rfl (hbegin 1 _)))
      |>.tail (.calls _ 1 .currentTrx _ rfl))
      |>.tail (.calls _ 0 .appendBeginTrxLog _ rfl))
      |>.tail (.begins _ 0 _ rfl ⟨.commit, rfl, fun _ => ⟨1, rfl⟩⟩))
      |>.tail (.calls _ 1 (.setTrxMultiOperationMode true) _ rfl))
      |>.tail (.calls _ 1 .startIfNeed _ rfl)
      |>.tail (.calls _ 1 .appendBeginTrxLog _ rfl)
      |>.tail (.calls _ 0 (.setTrxMultiOperationMode false) _ rfl)
      |>.tail (.calls _ 0 .currentTrx _ rfl)
      |>.tail (.calls _ 0 .commit _ rfl)
      |>.tail (.calls _ 0 (.commitWithTrxId 3) _ rfl)
  have hbracketed := log_bracketed Store.plainLib (Store.own []).tables {} [] h
    (show (0 : ℤ) + 3 < 2 ^ 31 by decide)
  exact ⟨_, h, rfl, rfl, hbracketed.1 1⟩

end TDB.Mvcc
