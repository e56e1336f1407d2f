import TDB.LogIterator
import TDB.TrxManager

namespace TDB.Mvcc

open Redo

/-! ## What one call does to the transaction of its session -/

/-- A transaction as the manager and the log know it: its number, and whether it has started. -/
abbrev Face := Option (Int32 × Bool)

namespace Server

def face (i : ℕ) (s : Server) : Face := (s.heap (.session i)).map fun t => (t.trxId, t.started)

def NoneRecovers (s : Server) : Prop :=
  ∀ i t, s.heap (.session i) = some t → t.recovering = false

end Server

/-- What a call leaves: the calls it is continued by, the face of the transaction, the counter, and
what is observed. -/
structure Effect where
  next : List Call := []
  face : Face
  currentTrxId : Int32
  events : List Event := []

def effect (i : ℕ) (s : Server) (c : Call) : Effect :=
  match s.face i, c with
  | none, .currentTrx => { face := some (-1, false), currentTrxId := s.currentTrxId }
  | some (_, false), .startIfNeed =>
    { next := [.appendBeginTrxLog], face := some (s.currentTrxId + 1, false),
      currentTrxId := s.currentTrxId + 1, events := [.gave i (s.currentTrxId + 1)] }
  | some (trxId, _), .appendBeginTrxLog =>
    { face := some (trxId, true), currentTrxId := s.currentTrxId
      events := [Server.appends (buildMtrEntry .mtrBegin trxId) s.log] }
  | face, .sqlResultClose rc =>
    { next := if s.multiOperationMode i then []
        else if rc = .success then [.commit] else [.rollback]
      face := face, currentTrxId := s.currentTrxId }
  | some face, .commit =>
    { next := [.commitWithTrxId (s.currentTrxId + 1)], face := some face,
      currentTrxId := s.currentTrxId + 1, events := [.gave i (s.currentTrxId + 1)] }
  | some (trxId, _), .commitWithTrxId commitXid =>
    { face := some (trxId, false), currentTrxId := s.currentTrxId
      events := Server.appends (buildCommitEntry trxId commitXid) s.log ::
        if (appendCommitTrxLog trxId commitXid s.log).1 = .success then
          [.committed trxId commitXid] else [] }
  | some (trxId, _), .rollback =>
    { face := some (trxId, false), currentTrxId := s.currentTrxId
      events := [Server.appends (buildMtrEntry .mtrRollback trxId) s.log] }
  | _, .destroyTrx => { face := none, currentTrxId := s.currentTrxId }
  | face, _ => { face := face, currentTrxId := s.currentTrxId }

def logAfter (i : ℕ) (s : Server) (c : Call) : LogManager :=
  match s.face i, c with
  | some (trxId, _), .appendBeginTrxLog => (appendBeginTrxLog trxId s.log).2
  | some (trxId, _), .commitWithTrxId commitXid => (appendCommitTrxLog trxId commitXid s.log).2
  | some (trxId, _), .rollback => (appendRollbackTrxLog trxId s.log).2
  | _, _ => s.log

namespace Store

theorem commitWithTrxId_log (lib : StdLib) (commitXid : Int32) (st : Store)
    (hrecovering : st.trx.recovering = false) :
    (st.commitWithTrxId lib commitXid).1.1 = (appendCommitTrxLog st.trx.trxId commitXid st.log).1 ∧
      (st.commitWithTrxId lib commitXid).2.log =
        (appendCommitTrxLog st.trx.trxId commitXid st.log).2 ∧
      (st.commitWithTrxId lib commitXid).2.currentTrxId = st.currentTrxId ∧
      (st.commitWithTrxId lib commitXid).2.trx = ⟨st.trx.trxId, false, false, []⟩ := by
  obtain ⟨currentTrxId, tables, log, ⟨trxId, started, recovering, operations⟩⟩ := st
  obtain rfl : recovering = false := hrecovering
  simp [commitWithTrxId]

theorem rollback_log (lib : StdLib) (st : Store) (hrecovering : st.trx.recovering = false) :
    (st.rollback lib).2.log = (appendRollbackTrxLog st.trx.trxId st.log).2 ∧
      (st.rollback lib).2.currentTrxId = st.currentTrxId ∧
      (st.rollback lib).2.trx = ⟨st.trx.trxId, false, false, []⟩ := by
  obtain ⟨currentTrxId, tables, log, ⟨trxId, started, recovering, operations⟩⟩ := st
  obtain rfl : recovering = false := hrecovering
  simp [rollback]

end Store

namespace Server

variable {lib : StdLib} {i j : ℕ} {c : Call} {s : Server}

/-- A call does what its effect says, and leaves the transactions of the others alone. -/
structure Does (lib : StdLib) (i : ℕ) (c : Call) (s : Server) : Prop where
  next : (s.run lib i c).1 = (effect i s c).next
  face : (s.run lib i c).2.face i = (effect i s c).face
  currentTrxId : (s.run lib i c).2.currentTrxId = (effect i s c).currentTrxId
  trace : (s.run lib i c).2.trace = s.trace ++ (effect i s c).events
  log : (s.run lib i c).2.log = logAfter i s c
  others : ∀ p ≠ TrxPtr.session i, (s.run lib i c).2.heap p = s.heap p
  recovers : (s.run lib i c).2.NoneRecovers
  trxes : (s.run lib i c).2.trxes =
    if s.face i = none ∧ c = .currentTrx then s.trxes ++ [.session i]
    else if s.face i ≠ none ∧ c = .destroyTrx then s.trxes.erase (.session i) else s.trxes

theorem Does.of_heap {o : Option MvccTrx} (h : s.NoneRecovers)
    (hheap : (s.run lib i c).2.heap = Function.update s.heap (.session i) o)
    (ho : ∀ t, o = some t → t.recovering = false)
    (hface : o.map (fun t => (t.trxId, t.started)) = (effect i s c).face)
    (hnext : (s.run lib i c).1 = (effect i s c).next)
    (hcurrent : (s.run lib i c).2.currentTrxId = (effect i s c).currentTrxId)
    (htrace : (s.run lib i c).2.trace = s.trace ++ (effect i s c).events)
    (hlog : (s.run lib i c).2.log = logAfter i s c)
    (htrxes : (s.run lib i c).2.trxes =
      if s.face i = none ∧ c = .currentTrx then s.trxes ++ [.session i]
      else if s.face i ≠ none ∧ c = .destroyTrx then s.trxes.erase (.session i) else s.trxes) :
    Does lib i c s := by
  constructor
  case next => exact hnext
  case currentTrxId => exact hcurrent
  case trace => exact htrace
  case log => exact hlog
  case trxes => exact htrxes
  case face =>
    rw [← hface, Server.face, hheap, Function.update_self]
  case others =>
    intro p hp
    rw [hheap, Function.update_of_ne hp]
  case recovers =>
    intro j t ht
    rw [hheap] at ht
    by_cases hj : TrxPtr.session j = .session i
    · rw [hj, Function.update_self] at ht
      exact ho t ht
    · rw [Function.update_of_ne hj] at ht
      exact h j t ht

theorem does_of_none (lib : StdLib) (hnone : s.heap (.session i) = none) (h : s.NoneRecovers)
    (c : Call) : Does lib i c s := by
  have hface : s.face i = none := by simp [face, hnone]
  have hsame : Function.update s.heap (.session i) none = s.heap := by
    rw [← hnone, Function.update_eq_self]
  cases c with
  | currentTrx =>
    apply Does.of_heap (o := some ⟨-1, false, false, []⟩) h <;>
      simp [run, effect, logAfter, hface, hnone, createTrx, setTrx]
  | _ =>
    apply Does.of_heap (o := none) h <;>
      simp [run, effect, logAfter, hface, hnone, hsame]

theorem does_of_some (lib : StdLib) {t : MvccTrx} (hsome : s.heap (.session i) = some t)
    (h : s.NoneRecovers) (c : Call) : Does lib i c s := by
  have hface : s.face i = some (t.trxId, t.started) := by simp [face, hsome]
  have hsame : Function.update s.heap (.session i) (some t) = s.heap := by
    rw [← hsome, Function.update_eq_self]
  have hrecovering : t.recovering = false := h i t hsome
  cases c with
  | startIfNeed =>
    by_cases hstarted : t.started = true
    · apply Does.of_heap (o := some t) h <;>
        simp [run, runTrx.eq_def, effect, logAfter, hface, hsome, hsame, hstarted, hrecovering]
    · simp only [Bool.not_eq_true] at hstarted
      apply Does.of_heap (o := some { t with trxId := s.currentTrxId + 1 }) h <;>
        simp [run, runTrx.eq_def, effect, logAfter, hface, hsome, hstarted, hrecovering, nextTrxId,
          setTrx]
  | appendBeginTrxLog =>
    apply Does.of_heap (o := some { t with started := true }) h <;>
      simp [run, runTrx.eq_def, effect, logAfter, hface, hsome, hrecovering, setTrx]
  | insertRecord table rid =>
    by_cases hop : (⟨.insert, table, rid⟩ : Operation) ∈ t.operations
    · apply Does.of_heap (o := some t) h <;>
        simp [run, runTrx.eq_def, effect, logAfter, hface, hsome, hsame, hop, hrecovering,
          addOperation]
    · apply Does.of_heap
        (o := some { t with operations := t.operations ++ [⟨.insert, table, rid⟩] }) h <;>
        simp [run, runTrx.eq_def, effect, logAfter, hface, hsome, hop, hrecovering, addOperation,
          setTrx]
  | deleteRecord table rid =>
    by_cases hop : (⟨.delete, table, rid⟩ : Operation) ∈ t.operations
    · apply Does.of_heap (o := some t) h <;>
        simp [run, runTrx.eq_def, effect, logAfter, hface, hsome, hsame, hop, hrecovering,
          addOperation]
    · apply Does.of_heap
        (o := some { t with operations := t.operations ++ [⟨.delete, table, rid⟩] }) h <;>
        simp [run, runTrx.eq_def, effect, logAfter, hface, hsome, hop, hrecovering, addOperation,
          setTrx]
  | commit =>
    apply Does.of_heap (o := some t) h <;>
      simp [run, runTrx.eq_def, effect, logAfter, hface, hsome, hsame, hrecovering, nextTrxId]
  | commitWithTrxId commitXid =>
    obtain ⟨hrc, hlog, hcurrent, htrx⟩ :=
      Store.commitWithTrxId_log lib commitXid (s.store t) hrecovering
    apply Does.of_heap (o := some ⟨t.trxId, false, false, []⟩) h <;>
      simp [run, runTrx.eq_def, effect, logAfter, hface, hsome, setStore, setTrx, hrc, hlog,
        hcurrent, htrx]
  | rollback =>
    obtain ⟨hlog, hcurrent, htrx⟩ := Store.rollback_log lib (s.store t) hrecovering
    apply Does.of_heap (o := some ⟨t.trxId, false, false, []⟩) h <;>
      simp [run, runTrx.eq_def, effect, logAfter, hface, hsome, setStore, setTrx, hlog, hcurrent,
        htrx]
  | destroyTrx =>
    apply Does.of_heap (o := none) h <;>
      simp [run, runTrx.eq_def, effect, logAfter, hface, hsome, Server.destroyTrx]
  | _ =>
    apply Does.of_heap (o := some t) h <;>
      simp [run, effect, logAfter, hface, hsome, hsame, hrecovering]

theorem does (lib : StdLib) (h : s.NoneRecovers) (i : ℕ) (c : Call) : Does lib i c s := by
  cases hheap : s.heap (.session i) with
  | none => exact does_of_none lib hheap h c
  | some t => exact does_of_some lib hheap h c

end Server

end TDB.Mvcc
