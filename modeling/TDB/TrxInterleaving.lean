import TDB.TrxNumbers

namespace TDB.Mvcc

open Redo

namespace Server

variable {lib : StdLib} {base : Int32} {i j : ℕ} {c : Call} {rest left : List Call} {s s' : Server}

/-! ## The list of transactions -/

/-- The list holds the transactions that exist, each once. -/
structure Registered (s : Server) : Prop where
  nodup : s.trxes.Nodup
  mem_iff : ∀ p, p ∈ s.trxes ↔ s.heap p ≠ none

theorem face_eq_none_iff : s.face i = none ↔ s.heap (.session i) = none := by
  simp [face]

theorem Registered.run (h : s.Registered) (hdoes : Does lib i c s) :
    (s.run lib i c).2.Registered := by
  have hothers : ∀ p ≠ TrxPtr.session i, ((s.run lib i c).2.heap p ≠ none ↔ p ∈ s.trxes) := by
    intro p hp
    rw [hdoes.others p hp, h.mem_iff]
  have hface : (s.run lib i c).2.heap (.session i) = none ↔ (effect i s c).face = none := by
    rw [← hdoes.face, face_eq_none_iff]
  have htrxes := hdoes.trxes
  by_cases hcreates : s.face i = none ∧ c = .currentTrx
  · rw [if_pos hcreates] at htrxes
    obtain ⟨hnone, rfl⟩ := hcreates
    have hnew : TrxPtr.session i ∉ s.trxes := by
      rw [h.mem_iff, not_not, ← face_eq_none_iff]
      exact hnone
    have hsome : (effect i s .currentTrx).face ≠ none := by simp [effect, hnone]
    constructor
    case nodup =>
      rw [htrxes, List.nodup_append]
      refine ⟨h.nodup, List.nodup_singleton _, ?_⟩
      rintro p hp q hq rfl
      rw [List.mem_singleton.mp hq] at hp
      exact hnew hp
    case mem_iff =>
      intro p
      by_cases hp : p = .session i
      · subst hp
        simp [htrxes, hface, hsome]
      · simp [htrxes, hothers p hp, hp]
  · rw [if_neg hcreates] at htrxes
    by_cases hdestroys : s.face i ≠ none ∧ c = .destroyTrx
    · rw [if_pos hdestroys] at htrxes
      obtain ⟨-, rfl⟩ := hdestroys
      have hgone : (effect i s .destroyTrx).face = none := by
        rcases hface : s.face i with _ | face <;> simp [effect, hface]
      constructor
      case nodup =>
        rw [htrxes]
        exact h.nodup.erase _
      case mem_iff =>
        intro p
        by_cases hp : p = .session i
        · subst hp
          simp [htrxes, hface, hgone, h.nodup.mem_erase_iff]
        · simp [htrxes, hothers p hp, h.nodup.mem_erase_iff, hp]
    · rw [if_neg hdestroys] at htrxes
      have hsame : (effect i s c).face = none ↔ s.face i = none := by
        rcases hface : s.face i with _ | ⟨trxId, started⟩
        · cases c <;> simp_all [effect]
        · cases c <;> cases started <;> simp_all [effect]
      constructor
      case nodup =>
        rw [htrxes]
        exact h.nodup
      case mem_iff =>
        intro p
        by_cases hp : p = .session i
        · subst hp
          rw [htrxes, h.mem_iff, ne_eq, ne_eq, hface, hsame, face_eq_none_iff]
        · rw [htrxes, hothers p hp]

/-! ## The start -/

structure Recovered (s : Server) : Prop where
  trace : s.trace = []
  idle : ∀ i, s.heap (.session i) = none
  trxes : s.trxes = (List.range s.trxes.length).map .recovered
  heap : ∀ k, s.heap (.recovered k) ≠ none ↔ k < s.trxes.length
  below : ∀ k t, s.heap (.recovered k) = some t → t.trxId.toInt ≤ s.currentTrxId.toInt
  nonneg : 0 ≤ s.currentTrxId.toInt

theorem Recovered.run (h : s.Recovered) (c : RecoveryCall) : (c.run s).Recovered := by
  cases c with
  | createTrx trxId =>
    change (s.createRecovered trxId).Recovered
    have hcurrent : s.currentTrxId.toInt ≤ (s.createRecovered trxId).currentTrxId.toInt ∧
        trxId.toInt ≤ (s.createRecovered trxId).currentTrxId.toInt := by
      unfold createRecovered
      dsimp only
      split
      case isTrue hlt =>
        rw [Int32.lt_iff_toInt_lt] at hlt
        exact ⟨hlt.le, le_refl _⟩
      case isFalse hge =>
        rw [Int32.lt_iff_toInt_lt] at hge
        exact ⟨le_refl _, not_lt.mp hge⟩
    have hheap : (s.createRecovered trxId).heap = Function.update s.heap
        (.recovered s.trxes.length) (some ⟨trxId, true, true, []⟩) := rfl
    have htrxes : (s.createRecovered trxId).trxes = s.trxes ++ [.recovered s.trxes.length] := rfl
    constructor
    case trace => exact h.trace
    case idle =>
      intro i
      rw [hheap, Function.update_of_ne (by simp)]
      exact h.idle i
    case trxes =>
      rw [htrxes, List.length_append, List.length_singleton, List.range_succ, List.map_append,
        ← h.trxes]
      rfl
    case heap =>
      intro k
      rw [hheap, htrxes, List.length_append, List.length_singleton]
      by_cases hk : k = s.trxes.length
      · simp [hk]
      · rw [Function.update_of_ne (by simpa using hk), h.heap]
        omega
    case below =>
      intro k t ht
      rw [hheap] at ht
      by_cases hk : k = s.trxes.length
      · rw [hk, Function.update_self, Option.some.injEq] at ht
        rw [← ht]
        exact hcurrent.2
      · rw [Function.update_of_ne (by simpa using hk)] at ht
        exact (h.below k t ht).trans hcurrent.1
    case nonneg => exact h.nonneg.trans hcurrent.1
  | updateTrxId trxId =>
    change (s.updateTrxId trxId).Recovered
    unfold updateTrxId
    split
    case isTrue hlt =>
      have hle : s.currentTrxId.toInt ≤ trxId.toInt := (Int32.lt_iff_toInt_lt.mp hlt).le
      exact ⟨h.trace, h.idle, h.trxes, h.heap, fun k t ht => (h.below k t ht).trans hle,
        h.nonneg.trans hle⟩
    case isFalse => exact h

theorem recovered_start (tables : ℕ → Table) (log : LogManager) (recovery : List RecoveryCall) :
    (start tables log recovery).Recovered := by
  have hfold : ∀ (cs : List RecoveryCall) (s : Server), s.Recovered →
      (cs.foldl (fun s c => c.run s) s).Recovered := by
    intro cs
    induction cs with
    | nil => exact fun s h => h
    | cons c cs ih => exact fun s h => ih _ (h.run c)
  apply hfold
  constructor
  case trace => rfl
  case idle => exact fun i => rfl
  case trxes => rfl
  case heap =>
    intro k
    simp
  case below =>
    intro k t ht
    cases ht
  case nonneg => exact (show (0 : ℤ) ≤ (0 : Int32).toInt by decide)

theorem Recovered.registered (h : s.Recovered) : s.Registered := by
  constructor
  case nodup =>
    rw [h.trxes]
    apply List.nodup_range.map
    intro k k' hkk'
    simpa using hkk'
  case mem_iff =>
    intro p
    rw [h.trxes]
    cases p with
    | session i => simp [h.idle i]
    | recovered k => simp [h.heap k]

theorem Recovered.sound (h : s.Recovered) : s.Sound s.currentTrxId := by
  have hgiven : s.given = [] := by simp [given, h.trace]
  have hhanded : s.handed = [] := by simp [handed, h.trace]
  constructor
  case numbers => constructor <;> simp [hgiven]
  case serials => constructor <;> simp [serials, hhanded]
  case owns =>
    intro i trxId started hface
    simp [face, h.idle i] at hface

theorem Recovered.noneRecovers (h : s.Recovered) : s.NoneRecovers := by
  intro i t ht
  rw [h.idle i] at ht
  cases ht

end Server

/-! ## Runs of the sessions -/

def AnyStatement (_ : ℕ) (_ : Server) (program : List Call) : Prop :=
  ∃ st : Statement, program = st.calls

def Server.waiting (s : Server) : Threads.Config ℕ Call Server := ⟨s, fun _ => []⟩

theorem Statement.plain_calls (st : Statement) : ∀ c ∈ st.calls, c.plain = true := by
  intro c hc
  cases st with
  | query operations closed =>
    simp only [calls, List.mem_append, List.mem_cons, List.not_mem_nil, or_false,
      List.mem_filterMap, List.mem_map] at hc
    rcases hc with ((rfl | rfl) | ⟨op, -, hop⟩) | ⟨rc, -, rfl⟩
    · rfl
    · rfl
    · unfold Operation.call at hop
      split at hop <;> simp at hop <;> rw [← hop] <;> rfl
    · rfl
  | _ =>
    simp only [calls, List.mem_cons, List.not_mem_nil, or_false] at hc
    rcases hc with rfl | rfl | rfl <;> rfl

namespace Server

structure Inv (base : Int32) (s₀ s : Server) : Prop where
  recovers : s.NoneRecovers
  registered : s.Registered
  recovered : ∀ k, s.heap (.recovered k) = s₀.heap (.recovered k)
  sound : s.Bounded base → s.Sound base

def Counts (base : Int32) (i : ℕ) (left : List Call) (s : Server) : Prop :=
  s.Bounded base → s.Held i left

theorem preserved_numbers (lib : StdLib) {may : ℕ → Server → List Call → Prop}
    (hmay : ∀ i s program, may i s program → AnyStatement i s program) {s₀ : Server}
    (h₀ : s₀.Recovered) :
    Threads.Preserved (Server.run lib) may (Inv s₀.currentTrxId s₀) (Counts s₀.currentTrxId) := by
  constructor
  case begins =>
    intro i s program _ _ hprogram _
    obtain ⟨st, rfl⟩ := hmay i s program hprogram
    exact Held.of_plain st.plain_calls
  case calls =>
    intro i c rest s hinv hheld
    have hdoes := does lib hinv.recovers i c
    constructor
    · constructor
      case recovers => exact hdoes.recovers
      case registered => exact hinv.registered.run hdoes
      case recovered =>
        intro k
        rw [hdoes.others _ (by simp), hinv.recovered]
      case sound =>
        intro hbounded
        have hbefore := hbounded.of_run hdoes
        exact (hinv.sound hbefore).run hdoes (hheld hbefore) hbounded
    · intro hbounded
      have hbefore := hbounded.of_run hdoes
      exact Held.of_run (hinv.sound hbefore) h₀.nonneg hdoes (hheld hbefore) hbounded
  case others =>
    intro i c rest s hinv hheld j hj left hleft hbounded
    have hdoes := does lib hinv.recovers i c
    have hbefore := hbounded.of_run hdoes
    exact Held.of_run_other (hinv.sound hbefore).numbers hdoes (hheld hbefore) hj (hleft hbefore)

theorem Recovered.outline {s₀ : Server} (h₀ : s₀.Recovered) :
    Threads.Outline (Inv s₀.currentTrxId s₀) (Counts s₀.currentTrxId) s₀.waiting :=
  ⟨⟨h₀.noneRecovers, h₀.registered, fun _ => rfl, fun _ => h₀.sound⟩,
    fun i _ => Held.of_plain (by simp [waiting])⟩

/-- `find_trx` finds a transaction of the list by a number that no other has. -/
theorem findTrx_eq {s : Server} (h : s.Registered) {p : TrxPtr} {t : MvccTrx}
    (hp : s.heap p = some t)
    (hunique : ∀ q u, s.heap q = some u → u.trxId = t.trxId → q = p) :
    s.findTrx t.trxId = some p := by
  have hmem : p ∈ s.trxes := by
    rw [h.mem_iff, hp]
    exact Option.some_ne_none t
  cases hfind : s.findTrx t.trxId with
  | none =>
    rw [findTrx, List.find?_eq_none] at hfind
    exact absurd (hfind p hmem) (by simp [hp])
  | some q =>
    have hq := List.find?_some hfind
    cases hheap : s.heap q with
    | none => simp [hheap] at hq
    | some u =>
      rw [hunique q u hheap (by simpa [hheap] using hq)]

theorem Inv.findTrx {i : ℕ} {s₀ s : Server} (h₀ : s₀.Recovered) (h : Inv s₀.currentTrxId s₀ s)
    (hsound : s.Sound s₀.currentTrxId) {t : MvccTrx} (ht : s.heap (.session i) = some t)
    (hstarted : t.started = true) : s.findTrx t.trxId = some (.session i) := by
  have howns : ∀ j u, s.heap (.session j) = some u → u.trxId ≠ -1 → (j, u.trxId) ∈ s.given := by
    intro j u hu hne
    rcases hsound.owns j u.trxId u.started (by simp [face, hu]) with hgiven | ⟨hminus, -⟩
    · exact hgiven
    · exact absurd hminus hne
  have hgiven : (i, t.trxId) ∈ s.given := by
    rcases hsound.owns i t.trxId t.started (by simp [face, ht]) with hgiven | ⟨-, hfalse⟩
    · exact hgiven
    · rw [hstarted] at hfalse
      cases hfalse
  have hlow : s₀.currentTrxId.toInt < t.trxId.toInt := (hsound.numbers.mem hgiven).1
  apply findTrx_eq h.registered ht
  intro q u hu htrxId
  cases q with
  | session j =>
    have hne : u.trxId ≠ -1 := by
      intro hminus
      have hnonneg := h₀.nonneg
      rw [← htrxId, hminus] at hlow
      have hminus : (-1 : Int32).toInt = -1 := by decide
      omega
    have hgiven' := howns j u hu hne
    rw [htrxId] at hgiven'
    rw [hsound.numbers.owner hgiven' hgiven]
  | recovered k =>
    rw [h.recovered] at hu
    have hle := h₀.below k u hu
    rw [htrxId] at hle
    omega

end Server

/-- In every order of the calls of any sessions, the manager gives numbers that only grow and are
above those of recovery, no two entries of the log use the same number, a commit's number is above
that of its transaction, and `find_trx` finds every transaction of a session that is in progress.
(Two recovered ones can have one number.) -/
theorem trxIds_never_reused (lib : StdLib) (tables : ℕ → Table) (log : LogManager)
    (recovery : List RecoveryCall) {s : Threads.Config ℕ Call Server}
    (h : Threads.Reaches (Server.run lib) AnyStatement
      (Server.start tables log recovery).waiting s)
    (hbounded : (Server.start tables log recovery).currentTrxId.toInt + s.shared.given.length <
      2 ^ 31) :
    let s₀ := Server.start tables log recovery
    (s.shared.given.map Prod.snd).Pairwise (fun x y => x.toInt < y.toInt) ∧
    (∀ k t, s₀.heap (.recovered k) = some t → ∀ g ∈ s.shared.given,
      t.trxId.toInt < g.2.toInt) ∧
    s.shared.serials.Nodup ∧ (∀ x ∈ s.shared.serials, ∃ i, (i, x) ∈ s.shared.given) ∧
    (∀ e ∈ s.shared.handed, e.header.type = LogEntryType.mtrCommit.toInteger →
      e.header.trxId.toInt < e.commitEntry.commitXid.toInt) ∧
    ∀ i t, s.shared.heap (.session i) = some t → t.started = true →
      s.shared.findTrx t.trxId = some (.session i) := by
  intro s₀
  have h₀ : s₀.Recovered := Server.recovered_start tables log recovery
  have houtline := (Server.preserved_numbers lib (fun _ _ _ hp => hp) h₀).of_reaches h₀.outline h
  have hsound := houtline.inv.sound hbounded
  refine ⟨?_, fun k t ht g hg => ?_, hsound.serials.nodup, hsound.serials.given,
    hsound.serials.commits, fun i t ht hstarted => houtline.inv.findTrx h₀ hsound ht hstarted⟩
  · have hgrow : (s.shared.given.map fun g => g.2.toInt).Pairwise (· < ·) := by
      rw [hsound.numbers.given, List.pairwise_map]
      apply List.pairwise_lt_range.imp
      intro k k' hkk'
      omega
    rw [List.pairwise_map] at hgrow ⊢
    exact hgrow
  · exact (h₀.below k t ht).trans_lt (hsound.numbers.mem hg).1

/-- Recovery has seen transaction 6.  Two sessions begin, and the one that is given its number
second is the first to log it. -/
theorem trxIds_two_sessions : ∃ s : Threads.Config ℕ Call Server,
    Threads.Reaches (Server.run Store.plainLib) AnyStatement
      (Server.start (Store.own []).tables {} [.createTrx 6]).waiting s ∧
    s.shared.given = [(0, 7), (1, 8)] ∧ s.shared.serials = [8, 7] ∧
    s.shared.findTrx 7 = some (.session 0) := by
  have h : Threads.Reaches (Server.run Store.plainLib) AnyStatement
      (Server.start (Store.own []).tables {} [.createTrx 6]).waiting _ :=
    ((((((((Relation.ReflTransGen.refl
      |>.tail (.begins _ 0 _ rfl ⟨.begin, rfl⟩))
      |>.tail (.begins _ 1 _ rfl ⟨.begin, rfl⟩))
      |>.tail (.calls _ 0 .currentTrx _ rfl))
      |>.tail (.calls _ 0 (.setTrxMultiOperationMode true) _ rfl))
      |>.tail (.calls _ 0 .startIfNeed _ rfl))
      |>.tail (.calls _ 1 .currentTrx _ rfl))
      |>.tail (.calls _ 1 (.setTrxMultiOperationMode true) _ rfl))
      |>.tail (.calls _ 1 .startIfNeed _ rfl))
      |>.tail (.calls _ 1 .appendBeginTrxLog _ rfl)
      |>.tail (.calls _ 0 .appendBeginTrxLog _ rfl)
  have hnumbers := trxIds_never_reused Store.plainLib (Store.own []).tables {} [.createTrx 6] h
    (show (6 : ℤ) + 2 < 2 ^ 31 by decide)
  exact ⟨_, h, rfl, rfl, hnumbers.2.2.2.2.2 0 ⟨7, true, false, []⟩ rfl rfl⟩

end TDB.Mvcc
