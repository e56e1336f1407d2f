import TDB.TrxInterleaving

namespace TDB.Redo

/-! ## Reading a file that has been cut -/

/-- A cut behind the bytes of the first entries leaves them complete. -/
theorem completeEntries_append {xs : List LogEntry} (ys : List LogEntry) {n : ℕ}
    (hn : (encodeAll xs).length ≤ n) : xs <+: completeEntries (xs ++ ys) n := by
  induction xs generalizing n with
  | nil => exact List.nil_prefix
  | cons e xs ih =>
    rw [encodeAll_cons, List.length_append] at hn
    rw [List.cons_append, completeEntries, if_pos (by omega)]
    exact (List.prefix_cons_inj e).2 (ih (by omega))

/-- What a call leaves in the buffer was there before, or has just been accepted. -/
theorem LogCall.run_length (lc : LogCall) (m : LogManager) :
    (lc.run m).2.logEntrys.length ≤ m.logEntrys.length + (lc.accepted m).length := by
  have happend : ∀ e, (appendLog e m).2.logEntrys.length ≤
      m.logEntrys.length + (if (appendLog e m).1 = .success then [e] else []).length := by
    intro e
    rcases appendLog_cases e m with ⟨-, heq⟩ | ⟨-, heq⟩ <;> simp [heq]
  cases lc with
  | appendCommit trxId commitXid =>
    change (appendCommitTrxLog trxId commitXid m).2.logEntrys.length ≤ _
    unfold appendCommitTrxLog
    rcases appendLog_cases (buildCommitEntry trxId commitXid) m with ⟨-, heq⟩ | ⟨-, heq⟩
    · simp [heq, RC.fail]
    · simp [heq, RC.fail, sync_eq]
  | sync => exact Nat.zero_le _
  | appendBegin trxId => exact happend _
  | appendRecord type ht trxId tableId rid dataOffset data hdata => exact happend _
  | appendRollback trxId => exact happend _

/-- A commit that returns SUCCESS has been accepted, and leaves nothing in the buffer. -/
theorem appendCommitTrxLog_success {trxId commitXid : Int32} {m : LogManager}
    (h : (appendCommitTrxLog trxId commitXid m).1 = .success) :
    (appendLog (buildCommitEntry trxId commitXid) m).1 = .success ∧
      (appendCommitTrxLog trxId commitXid m).2.logEntrys = [] := by
  unfold appendCommitTrxLog at h ⊢
  rcases appendLog_cases (buildCommitEntry trxId commitXid) m with ⟨-, heq⟩ | ⟨-, heq⟩
  · simp [heq, RC.fail] at h
  · simp [heq, RC.fail, sync_eq]

end TDB.Redo

namespace TDB.Mvcc

open Redo

/-! ## What a commit has made durable -/

def logCall (i : ℕ) (s : Server) (c : Call) : Option LogCall :=
  match s.face i, c with
  | some (trxId, _), .appendBeginTrxLog => some (.appendBegin trxId)
  | some (trxId, _), .commitWithTrxId commitXid => some (.appendCommit trxId commitXid)
  | some (trxId, _), .rollback => some (.appendRollback trxId)
  | _, _ => none

namespace Server

variable {lib : StdLib} {i : ℕ} {c : Call} {s : Server} {old : List LogEntry}

theorem logAfter_eq (i : ℕ) (s : Server) (c : Call) :
    logAfter i s c = (logCall i s c).elim s.log fun lc => (lc.run s.log).2 := by
  rcases hface : s.face i with _ | ⟨trxId, started⟩ <;> cases c <;>
    simp [logAfter, logCall, hface, LogCall.run]

theorem accepted_appends (e : LogEntry) (log : LogManager) :
    (appends e log).accepted = if (appendLog e log).1 = .success then some e else none := by
  unfold appends
  rcases appendLog_cases e log with ⟨-, heq⟩ | ⟨-, heq⟩ <;> simp [heq, Event.accepted]

theorem effect_accepted (i : ℕ) (s : Server) (c : Call) :
    (effect i s c).events.filterMap Event.accepted =
      (logCall i s c).elim [] fun lc => lc.accepted s.log := by
  have happend : ∀ (e : LogEntry) (events : List Event), events.filterMap Event.accepted = [] →
      (appends e s.log :: events).filterMap Event.accepted =
        if (appendLog e s.log).1 = .success then [e] else [] := by
    intro e events hnone
    rw [List.filterMap_cons, accepted_appends, hnone]
    split <;> split <;> simp_all
  rcases hface : s.face i with _ | ⟨trxId, started⟩
  · cases c <;> simp [effect, logCall, hface]
  · cases c with
    | startIfNeed => cases started <;> simp [effect, logCall, hface, Event.accepted]
    | appendBeginTrxLog =>
      simp only [effect, logCall, hface]
      exact happend _ _ rfl
    | commitWithTrxId commitXid =>
      simp only [effect, logCall, hface]
      apply happend
      split <;> rfl
    | rollback =>
      simp only [effect, logCall, hface]
      exact happend _ _ rfl
    | _ => simp [effect, logCall, hface, Event.accepted]

/-- The entries that `append_log` had accepted before the event number `n`. -/
def acceptedBefore (n : ℕ) (s : Server) : List LogEntry :=
  (s.trace.take n).filterMap Event.accepted

/-- The log file and the buffer hold what has been accepted, and the file has everything that was
accepted before a commit returned SUCCESS, with the entry of that commit. -/
structure Durable (old : List LogEntry) (s : Server) : Prop where
  keeps : s.log.Keeps (old ++ s.logged)
  committed : ∀ n trxId commitXid, s.trace[n]? = some (.committed trxId commitXid) →
    buildCommitEntry trxId commitXid ∈ s.acceptedBefore n ∧
      (s.acceptedBefore n).length + s.log.logEntrys.length ≤ s.logged.length

theorem Does.logged (h : Does lib i c s) : (s.run lib i c).2.logged =
    s.logged ++ (logCall i s c).elim [] fun lc => lc.accepted s.log := by
  rw [← effect_accepted, Server.logged, h.trace, List.filterMap_append]
  rfl

theorem Does.logEntrys_length (h : Does lib i c s) :
    (s.run lib i c).2.log.logEntrys.length + s.logged.length ≤
      s.log.logEntrys.length + (s.run lib i c).2.logged.length := by
  rw [h.log, logAfter_eq, h.logged, List.length_append]
  cases logCall i s c with
  | none => exact le_of_eq (by simp)
  | some lc =>
    have hlength := lc.run_length s.log
    simp only [Option.elim_some]
    omega

/-- The events of a call end with a commit only if the commit returned SUCCESS. -/
theorem committed_of_effect {n : ℕ} {trxId commitXid : Int32}
    (h : (effect i s c).events[n]? = some (.committed trxId commitXid)) :
    n = 1 ∧ c = .commitWithTrxId commitXid ∧ (∃ started, s.face i = some (trxId, started)) ∧
      (appendCommitTrxLog trxId commitXid s.log).1 = .success := by
  rcases hface : s.face i with _ | ⟨trxId', started⟩
  · cases c <;> simp [effect, hface] at h
  · cases c with
    | commitWithTrxId commitXid' =>
      simp only [effect, hface] at h
      by_cases hrc : (appendCommitTrxLog trxId' commitXid' s.log).1 = .success
      · rw [if_pos hrc] at h
        cases n with
        | zero => simp [appends] at h
        | succ n =>
          cases n with
          | zero =>
            obtain ⟨rfl, rfl⟩ : trxId' = trxId ∧ commitXid' = commitXid := by simpa using h
            exact ⟨rfl, rfl, ⟨started, rfl⟩, hrc⟩
          | succ n => simp at h
      · rw [if_neg hrc] at h
        cases n with
        | zero => simp [appends] at h
        | succ n => simp at h
    | startIfNeed =>
      cases started
      · cases n with
        | zero => simp [effect, hface] at h
        | succ n => simp [effect, hface] at h
      · simp [effect, hface] at h
    | appendBeginTrxLog | rollback | commit =>
      cases n with
      | zero => simp [effect, hface, appends] at h
      | succ n => simp [effect, hface] at h
    | _ => simp [effect, hface] at h

theorem acceptedBefore_append {s' : Server} {events : List Event}
    (htrace : s'.trace = s.trace ++ events) (n : ℕ) : s'.acceptedBefore n = s.acceptedBefore n ++
      (events.take (n - s.trace.length)).filterMap Event.accepted := by
  rw [acceptedBefore, htrace, List.take_append, List.filterMap_append, acceptedBefore]

theorem Durable.run (h : s.Durable old) (hdoes : Does lib i c s) :
    (s.run lib i c).2.Durable old := by
  constructor
  case keeps =>
    rw [hdoes.log, logAfter_eq, hdoes.logged, ← List.append_assoc]
    cases logCall i s c with
    | none => simpa using h.keeps
    | some lc => exact h.keeps.run lc
  case committed =>
    intro n trxId commitXid hevent
    rw [hdoes.trace] at hevent
    rw [acceptedBefore_append hdoes.trace]
    by_cases hn : n < s.trace.length
    · rw [List.getElem?_append_left hn] at hevent
      obtain ⟨hmem, hlength⟩ := h.committed n trxId commitXid hevent
      have hgrows := hdoes.logEntrys_length
      have htake : n - s.trace.length = 0 := by omega
      rw [htake, List.take_zero, List.filterMap_nil, List.append_nil]
      exact ⟨hmem, by omega⟩
    · rw [List.getElem?_append_right (by omega)] at hevent
      obtain ⟨hone, rfl, ⟨started, hface⟩, hrc⟩ := committed_of_effect hevent
      obtain ⟨haccepted, hempty⟩ := appendCommitTrxLog_success hrc
      have hall : s.acceptedBefore n = s.logged := by
        rw [acceptedBefore, List.take_of_length_le (by omega)]
        rfl
      have hlast : ((effect i s (.commitWithTrxId commitXid)).events.take 1).filterMap
          Event.accepted = [buildCommitEntry trxId commitXid] := by
        simp [effect, hface, accepted_appends, haccepted]
      have hlogged : (s.run lib i (.commitWithTrxId commitXid)).2.logged =
          s.logged ++ [buildCommitEntry trxId commitXid] := by
        rw [hdoes.logged]
        simp [logCall, hface, LogCall.accepted, LogCall.entry, haccepted]
      have hbuffer : (s.run lib i (.commitWithTrxId commitXid)).2.log.logEntrys = [] := by
        rw [hdoes.log]
        simpa [logAfter, hface] using hempty
      rw [hone, hlast, hall, hlogged, hbuffer]
      simp

end Server

theorem start_log (tables : ℕ → Table) (log : LogManager) (recovery : List RecoveryCall) :
    (Server.start tables log recovery).log = log := by
  have hfold : ∀ (cs : List RecoveryCall) (s : Server),
      (cs.foldl (fun s c => c.run s) s).log = s.log := by
    intro cs
    induction cs with
    | nil => exact fun s => rfl
    | cons c cs ih =>
      intro s
      rw [List.foldl_cons, ih]
      cases c with
      | createTrx trxId => rfl
      | updateTrxId trxId =>
        change (s.updateTrxId trxId).log = s.log
        unfold Server.updateTrxId
        split <;> rfl
  exact hfold recovery _

/-- A commit that returned SUCCESS survives a crash, whatever the sessions did around it and
afterwards: from any part of the log file that reaches as far as the file did when the commit
returned, the reader gets every entry that had been accepted until then, in order, the commit's own
among them. -/
theorem committed_survives_crash (lib : StdLib) (tables : ℕ → Table) {old : List LogEntry}
    (hold : ∀ e ∈ old, Built e) (syncFaults : List Bool) (recovery : List RecoveryCall)
    {s : Threads.Config ℕ Call Server}
    (h : Threads.Reaches (Server.run lib) AnyStatement
      (Server.start tables { logFile := { content := encodeAll old, syncFaults := syncFaults } }
        recovery).waiting s)
    {n : ℕ} {trxId commitXid : Int32}
    (hcommitted : s.shared.trace[n]? = some (.committed trxId commitXid)) {cut fuel : ℕ}
    (hcut : (encodeAll (old ++ s.shared.acceptedBefore n)).length ≤ cut)
    (hfuel : (old ++ s.shared.logged).length < fuel) :
    buildCommitEntry trxId commitXid ∈ s.shared.acceptedBefore n ∧
      encodeAll (old ++ s.shared.acceptedBefore n) <+: s.shared.log.logFile.content ∧
      old ++ s.shared.acceptedBefore n <+:
        (LogReader.readAll fuel ⟨s.shared.log.logFile.content.take cut, false⟩).1 := by
  have hlog := start_log tables
    { logFile := { content := encodeAll old, syncFaults := syncFaults } } recovery
  have h₀ := Server.recovered_start tables
    { logFile := { content := encodeAll old, syncFaults := syncFaults } } recovery
  generalize Server.start tables _ recovery = s₀ at h hlog h₀
  have hpreserved : Threads.Preserved (Server.run lib) AnyStatement
      (fun s => Server.Inv s₀.currentTrxId s₀ s ∧ s.Durable old)
      (fun i left s => Server.Counts s₀.currentTrxId i left s ∧ True) := by
    refine (Server.preserved_numbers lib (fun _ _ _ hp => hp) h₀).and ?_ ?_ ?_
    · exact fun _ _ _ _ _ _ _ _ => trivial
    · intro i c rest s hinv hdurable _ _
      exact ⟨hdurable.run (Server.does lib hinv.recovers i c), trivial⟩
    · exact fun _ _ _ _ _ _ _ _ _ _ _ _ _ => trivial
  have hbegin : s₀.Durable old := by
    have hlogged : s₀.logged = [] := by rw [Server.logged, h₀.trace, List.filterMap_nil]
    constructor
    case keeps =>
      rw [hlogged, hlog, List.append_nil]
      exact ⟨hold, rfl, ⟨old, rfl, List.append_nil _⟩, rfl,
        show (0 : ℤ) ≤ 0 ∧ 0 < logBufferSize by decide⟩
    case committed =>
      intro n trxId commitXid hevent
      simp [h₀.trace] at hevent
  have houtline := hpreserved.of_reaches
    ⟨⟨h₀.outline.inv, hbegin⟩, fun i => ⟨h₀.outline.holds i, trivial⟩⟩ h
  have hdurable := houtline.inv.2
  obtain ⟨hmem, hlength⟩ := hdurable.committed n trxId commitXid hcommitted
  obtain ⟨written, hcontent, hsplit⟩ := hdurable.keeps.split
  -- the file holds the first entries of the log, and those before the commit are among them
  have hbefore : s.shared.acceptedBefore n <+: s.shared.logged :=
    ((List.take_prefix n s.shared.trace).filterMap _)
  obtain ⟨later, hlater⟩ : old ++ s.shared.acceptedBefore n <+: written := by
    apply List.prefix_of_prefix_length_le ((List.prefix_append_right_inj old).2 hbefore)
    · rw [← hsplit]
      exact List.prefix_append _ _
    · have hlengths := congrArg List.length hsplit
      rw [List.length_append, List.length_append] at hlengths
      rw [List.length_append]
      omega
  refine ⟨hmem, ?_, ?_⟩
  · rw [hcontent, ← hlater]
    exact ⟨encodeAll later, (encodeAll_append _ _).symm⟩
  · have hbuilt : ∀ e ∈ written, Built e := by
      intro e he
      apply hdurable.keeps.built
      rw [← hsplit]
      exact List.mem_append_left _ he
    have hwritten : written.length < fuel := by
      rw [← hsplit, List.length_append] at hfuel
      omega
    rw [hcontent, readAll_take hbuilt cut false hwritten, ← hlater]
    exact completeEntries_append later hcut

/-- An old log with a transaction 6; the first session commits transaction 7, and then the second
begins.  A file that is cut right behind the commit still has both transactions. -/
theorem commit_survives_crash_seven : ∃ (s : Threads.Config ℕ Call Server) (n : ℕ),
    s.shared.trace[n]? = some (.committed 7 8) ∧
    s.shared.logged = [buildMtrEntry .mtrBegin 7, buildCommitEntry 7 8, buildMtrEntry .mtrBegin 9] ∧
    [buildMtrEntry .mtrBegin 6, buildMtrEntry .mtrBegin 7, buildCommitEntry 7 8] <+:
      (LogReader.readAll 5 ⟨s.shared.log.logFile.content.take 40, false⟩).1 := by
  have hold : ∀ e ∈ [buildMtrEntry .mtrBegin 6], Built e := by
    intro e he
    rw [List.mem_singleton.mp he]
    exact .mtr .mtrBegin 6 (Or.inl rfl)
  have h : Threads.Reaches (Server.run Store.plainLib) AnyStatement
      (Server.start (Store.own []).tables
        { logFile := { content := encodeAll [buildMtrEntry .mtrBegin 6], syncFaults := [] } }
        [.createTrx 6]).waiting _ :=
    (((((((((Relation.ReflTransGen.refl
      |>.tail (.begins _ 0 _ rfl ⟨.query [] (some .success), rfl⟩))
      |>.tail (.calls _ 0 .currentTrx _ rfl))
      |>.tail (.calls _ 0 .startIfNeed _ rfl))
      |>.tail (.calls _ 0 .appendBeginTrxLog _ rfl))
      |>.tail (.calls _ 0 (.sqlResultClose .success) _ rfl))
      |>.tail (.calls _ 0 .commit _ rfl))
      |>.tail (.calls _ 0 (.commitWithTrxId 8) _ rfl))
      |>.tail (.begins _ 1 _ rfl ⟨.query [] none, rfl⟩))
      |>.tail (.calls _ 1 .currentTrx _ rfl))
      |>.tail (.calls _ 1 .startIfNeed _ rfl)
      |>.tail (.calls _ 1 .appendBeginTrxLog _ rfl)
  have hsurvives := committed_survives_crash Store.plainLib (Store.own []).tables hold []
    [.createTrx 6] h (n := 4) (show _ = some (Event.committed 7 8) from rfl)
    (show _ ≤ 40 by decide) (show _ < 5 by decide)
  exact ⟨_, 4, rfl, rfl, hsurvives.2.2⟩

end TDB.Mvcc
