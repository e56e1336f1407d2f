import TDB.TrxCalls

namespace TDB.Mvcc

open Redo

/-! ## The numbers that the manager gives -/

def Event.given : Event → Option (ℕ × Int32)
  | .gave i trxId => some (i, trxId)
  | _ => none

def Event.entry : Event → Option LogEntry
  | .appended _ e => some e
  | _ => none

def Event.accepted : Event → Option LogEntry
  | .appended .success e => some e
  | _ => none

/-- The number that an entry uses: that of the transaction it begins, or the xid of the commit. -/
def serial (e : LogEntry) : Option Int32 :=
  if e.header.type = LogEntryType.mtrBegin.toInteger then some e.header.trxId
  else if e.header.type = LogEntryType.mtrCommit.toInteger then some e.commitEntry.commitXid
  else none

/-- The call does not go on with a number that the manager has given. -/
def Call.plain : Call → Bool
  | .appendBeginTrxLog | .commitWithTrxId _ => false
  | _ => true

namespace Server

/-- The numbers that `next_trx_id` has returned, each with the session that asked. -/
def given (s : Server) : List (ℕ × Int32) := s.trace.filterMap Event.given

def handed (s : Server) : List LogEntry := s.trace.filterMap Event.entry

def logged (s : Server) : List LogEntry := s.trace.filterMap Event.accepted

def serials (s : Server) : List Int32 := s.handed.filterMap serial

structure Numbers (base : Int32) (s : Server) : Prop where
  given : s.given.map (fun g => g.2.toInt) =
    (List.range s.given.length).map fun k : ℕ => base.toInt + (k + 1)
  current : s.currentTrxId.toInt = base.toInt + s.given.length

/-- No number is used twice, and only given ones are. -/
structure Serials (s : Server) : Prop where
  nodup : s.serials.Nodup
  given : ∀ x ∈ s.serials, ∃ i, (i, x) ∈ s.given
  commits : ∀ e ∈ s.handed, e.header.type = LogEntryType.mtrCommit.toInteger →
    e.header.trxId.toInt < e.commitEntry.commitXid.toInt

/-- The number of a transaction was given to its session, or it has none yet. -/
def Owns (s : Server) : Prop :=
  ∀ i trxId started, s.face i = some (trxId, started) →
    (i, trxId) ∈ s.given ∨ trxId = -1 ∧ started = false

/-- The counter has not gone round. -/
def Bounded (base : Int32) (s : Server) : Prop := base.toInt + s.given.length < 2 ^ 31

theorem Numbers.mem {base : Int32} {s : Server} (h : s.Numbers base) {g : ℕ × Int32}
    (hg : g ∈ s.given) : base.toInt < g.2.toInt ∧ g.2.toInt ≤ s.currentTrxId.toInt := by
  have hmem : g.2.toInt ∈ s.given.map fun g => g.2.toInt := List.mem_map_of_mem hg
  rw [h.given] at hmem
  obtain ⟨k, hk, hkg⟩ := List.mem_map.mp hmem
  have hlt := List.mem_range.mp hk
  rw [h.current]
  omega

theorem Numbers.owner {base : Int32} {s : Server} (h : s.Numbers base) {i j : ℕ} {x : Int32}
    (hi : (i, x) ∈ s.given) (hj : (j, x) ∈ s.given) : i = j := by
  have hnodup : (s.given.map fun g => g.2.toInt).Nodup := by
    rw [h.given]
    apply List.nodup_range.map
    intro k k' hkk'
    have : base.toInt + ((k : ℤ) + 1) = base.toInt + ((k' : ℤ) + 1) := hkk'
    omega
  have heq := List.inj_on_of_nodup_map hnodup hi hj rfl
  exact (Prod.mk.inj heq).1

theorem toInt_succ {x : Int32} (h : x.toInt + 1 < 2 ^ 31) : (x + 1).toInt = x.toInt + 1 := by
  have hlow := x.le_toInt
  rw [Int32.toInt_add, Int32.toInt_one]
  apply Int.bmod_eq_of_le <;> omega

theorem Numbers.gives {base : Int32} {s s' : Server} (h : s.Numbers base) {i : ℕ}
    (hgiven : s'.given = s.given ++ [(i, s.currentTrxId + 1)])
    (hcurrent : s'.currentTrxId = s.currentTrxId + 1) (hbounded : s'.Bounded base) :
    s'.Numbers base := by
  rw [Bounded, hgiven, List.length_append, List.length_singleton] at hbounded
  have hsucc : (s.currentTrxId + 1).toInt = s.currentTrxId.toInt + 1 := by
    apply toInt_succ
    rw [h.current]
    push_cast at hbounded
    omega
  constructor
  case given =>
    rw [hgiven, List.map_append, h.given, List.length_append, List.length_singleton,
      List.range_succ, List.map_append, List.map_singleton, List.map_singleton, hsucc, h.current]
    congr 2
    omega
  case current =>
    rw [hcurrent, hsucc, h.current, hgiven, List.length_append, List.length_singleton]
    push_cast
    omega

variable {lib : StdLib} {base : Int32} {i j : ℕ} {c : Call} {rest left : List Call} {s s' : Server}

theorem Does.given (h : Does lib i c s) :
    (s.run lib i c).2.given = s.given ++ (effect i s c).events.filterMap Event.given := by
  rw [Server.given, h.trace, List.filterMap_append]
  rfl

theorem Does.handed (h : Does lib i c s) :
    (s.run lib i c).2.handed = s.handed ++ (effect i s c).events.filterMap Event.entry := by
  rw [Server.handed, h.trace, List.filterMap_append]
  rfl

theorem effect_given (i : ℕ) (s : Server) (c : Call) :
    (effect i s c).events.filterMap Event.given = [] ∧
        (effect i s c).currentTrxId = s.currentTrxId ∨
      (effect i s c).events.filterMap Event.given = [(i, s.currentTrxId + 1)] ∧
        (effect i s c).currentTrxId = s.currentTrxId + 1 := by
  rcases hface : s.face i with _ | ⟨trxId, started⟩
  · cases c <;> simp [effect, hface]
  · cases c with
    | startIfNeed => cases started <;> simp [effect, hface, Event.given]
    | commitWithTrxId commitXid =>
      left
      simp only [effect, hface, and_true]
      split <;> rfl
    | _ => simp [effect, hface, appends, Event.given]

theorem Bounded.of_run (h : Does lib i c s) (hbounded : (s.run lib i c).2.Bounded base) :
    s.Bounded base := by
  rw [Bounded, h.given, List.length_append] at hbounded
  unfold Bounded
  push_cast at hbounded
  omega

/-! ## What a session has left to do with its numbers -/

/-- A number that has been given to the session and not used yet. -/
def Reserved (i : ℕ) (x : Int32) (s : Server) : Prop := (i, x) ∈ s.given ∧ x ∉ s.serials

structure Held (i : ℕ) (left : List Call) (s : Server) : Prop where
  tail : ∀ c ∈ left.tail, c.plain = true
  begins : left.head? = some .appendBeginTrxLog →
    ∃ trxId, s.face i = some (trxId, false) ∧ s.Reserved i trxId
  commits : ∀ x, left.head? = some (.commitWithTrxId x) → s.Reserved i x ∧
    ∀ trxId started, s.face i = some (trxId, started) → trxId.toInt < x.toInt

theorem Held.of_plain (h : ∀ c ∈ left, c.plain = true) : s.Held i left := by
  have hhead : ∀ c, left.head? = some c → c.plain = true := by
    intro c hc
    exact h c (List.mem_of_mem_head? hc)
  constructor
  case tail => exact fun c hc => h c (List.mem_of_mem_tail hc)
  case begins =>
    intro hc
    exact absurd (hhead _ hc) (by decide)
  case commits =>
    intro x hc
    exact absurd (hhead _ hc) (by simp [Call.plain])

/-- What a call logs uses no number, or one that the session has in reserve. -/
def Fresh (i : ℕ) (e : LogEntry) (s : Server) : Prop :=
  (∀ x, serial e = some x → s.Reserved i x) ∧
    (e.header.type = LogEntryType.mtrCommit.toInteger →
      e.header.trxId.toInt < e.commitEntry.commitXid.toInt)

theorem Held.entry (h : s.Held i (c :: rest)) :
    (effect i s c).events.filterMap Event.entry = [] ∨
      ∃ e, (effect i s c).events.filterMap Event.entry = [e] ∧ s.Fresh i e := by
  rcases hface : s.face i with _ | ⟨trxId, started⟩
  · left
    cases c <;> simp [effect, hface]
  · cases c with
    | startIfNeed =>
      left
      cases started <;> simp [effect, hface, Event.entry]
    | appendBeginTrxLog =>
      right
      obtain ⟨trxId', hface', hreserved⟩ := h.begins rfl
      obtain ⟨rfl, rfl⟩ : trxId = trxId' ∧ started = false := by simpa [hface] using hface'
      simp only [effect, hface]
      refine ⟨_, rfl, fun x hx => ?_, fun htype => absurd htype
        (show LogEntryType.mtrBegin.toInteger ≠ LogEntryType.mtrCommit.toInteger by decide)⟩
      obtain rfl : trxId = x := by simpa [serial, buildMtrEntry] using hx
      exact hreserved
    | commitWithTrxId commitXid =>
      right
      obtain ⟨hreserved, hlt⟩ := h.commits commitXid rfl
      have hentries : (effect i s (.commitWithTrxId commitXid)).events.filterMap Event.entry =
          [buildCommitEntry trxId commitXid] := by
        simp only [effect, hface]
        split <;> rfl
      refine ⟨_, hentries, fun x hx => ?_, fun _ => hlt trxId started hface⟩
      obtain rfl : commitXid = x := by
        simpa [serial, buildCommitEntry, LogEntryType.toInteger] using hx
      exact hreserved
    | rollback =>
      right
      simp only [effect, hface]
      refine ⟨_, rfl, fun x hx => ?_, fun htype => absurd htype
        (show LogEntryType.mtrRollback.toInteger ≠ LogEntryType.mtrCommit.toInteger by decide)⟩
      simp [serial, buildMtrEntry, LogEntryType.toInteger] at hx
    | _ =>
      left
      simp [effect, hface, Event.entry]

theorem serials_of_handed {e : LogEntry} (hhanded : s'.handed = s.handed ++ [e]) :
    s'.serials = s.serials ++ (serial e).toList := by
  rw [serials, hhanded, List.filterMap_append]
  cases hserial : serial e <;> simp [serials, hserial]

theorem Serials.hands (h : s.Serials) {e : LogEntry} (hfresh : s.Fresh i e)
    {g : List (ℕ × Int32)} (hgiven : s'.given = s.given ++ g)
    (hhanded : s'.handed = s.handed ++ [e]) : s'.Serials := by
  have hserials := serials_of_handed hhanded
  constructor
  case nodup =>
    rw [hserials, List.nodup_append]
    refine ⟨h.nodup, by cases serial e <;> simp, ?_⟩
    rintro x hx y hy rfl
    exact (hfresh.1 x (Option.mem_toList.mp hy)).2 hx
  case given =>
    intro x hx
    rw [hgiven]
    rw [hserials, List.mem_append] at hx
    rcases hx with hx | hx
    · obtain ⟨j, hj⟩ := h.given x hx
      exact ⟨j, List.mem_append_left g hj⟩
    · exact ⟨i, List.mem_append_left g (hfresh.1 x (Option.mem_toList.mp hx)).1⟩
  case commits =>
    intro e' he' htype
    rw [hhanded, List.mem_append, List.mem_singleton] at he'
    rcases he' with he' | rfl
    · exact h.commits e' he' htype
    · exact hfresh.2 htype

theorem Serials.gives (h : s.Serials) {g : List (ℕ × Int32)} (hgiven : s'.given = s.given ++ g)
    (hhanded : s'.handed = s.handed) : s'.Serials := by
  have hserials : s'.serials = s.serials := by rw [serials, hhanded, serials]
  constructor
  case nodup =>
    rw [hserials]
    exact h.nodup
  case given =>
    intro x hx
    rw [hserials] at hx
    obtain ⟨j, hj⟩ := h.given x hx
    use j
    rw [hgiven]
    exact List.mem_append_left g hj
  case commits =>
    rw [hhanded]
    exact h.commits

/-- What other sessions log and ask for leaves a reserve alone. -/
theorem Reserved.of_run {base : Int32} (hnumbers : s.Numbers base) (hdoes : Does lib i c s)
    (hheld : s.Held i (c :: rest)) (hj : j ≠ i) {x : Int32} (h : s.Reserved j x) :
    (s.run lib i c).2.Reserved j x := by
  constructor
  · rw [hdoes.given]
    exact List.mem_append_left _ h.1
  · rcases hheld.entry with hnone | ⟨e, he, hfresh⟩
    · have hhanded : (s.run lib i c).2.handed = s.handed := by
        rw [hdoes.handed, hnone, List.append_nil]
      rw [serials, hhanded]
      exact h.2
    · rw [serials_of_handed (hdoes.handed.trans (by rw [he])), List.mem_append, not_or]
      refine ⟨h.2, fun hx => ?_⟩
      have howner := (hfresh.1 x (Option.mem_toList.mp hx)).1
      exact hj (hnumbers.owner h.1 howner)

theorem Held.of_run_other {base : Int32} (hnumbers : s.Numbers base) (hdoes : Does lib i c s)
    (hheld : s.Held i (c :: rest)) (hj : j ≠ i) (h : s.Held j left) :
    (s.run lib i c).2.Held j left := by
  have hface : (s.run lib i c).2.face j = s.face j := by
    rw [Server.face, hdoes.others _ (by simpa using hj), Server.face]
  constructor
  case tail => exact h.tail
  case begins =>
    intro hhead
    obtain ⟨trxId, htrx, hreserved⟩ := h.begins hhead
    exact ⟨trxId, hface.trans htrx, hreserved.of_run hnumbers hdoes hheld hj⟩
  case commits =>
    intro x hhead
    obtain ⟨hreserved, hlt⟩ := h.commits x hhead
    refine ⟨hreserved.of_run hnumbers hdoes hheld hj, ?_⟩
    rw [hface]
    exact hlt

structure Sound (base : Int32) (s : Server) : Prop where
  numbers : s.Numbers base
  serials : s.Serials
  owns : s.Owns

theorem Owns.run (h : s.Owns) (hdoes : Does lib i c s) (hheld : s.Held i (c :: rest)) :
    (s.run lib i c).2.Owns := by
  intro j trxId started htrx
  have hmono : ∀ g ∈ s.given, g ∈ (s.run lib i c).2.given := by
    intro g hg
    rw [hdoes.given]
    exact List.mem_append_left _ hg
  have hkeeps : ∀ {b : Bool}, (started = true → b = true) → s.face j = some (trxId, b) →
      (j, trxId) ∈ (s.run lib i c).2.given ∨ trxId = -1 ∧ started = false := by
    intro b hb hface
    rcases h j trxId b hface with hgiven | ⟨htrxId, hfalse⟩
    · left
      exact hmono _ hgiven
    · right
      subst hfalse
      exact ⟨htrxId, by simpa using hb⟩
  by_cases hj : j = i
  · subst hj
    rw [hdoes.face] at htrx
    rcases hface : s.face j with _ | ⟨trxId', started'⟩
    · right
      cases c <;> simp [effect, hface] at htrx
      exact ⟨htrx.1.symm, htrx.2⟩
    · cases c with
      | startIfNeed =>
        cases started' with
        | true =>
          obtain ⟨rfl, rfl⟩ : trxId' = trxId ∧ true = started := by simpa [effect, hface] using htrx
          exact hkeeps id hface
        | false =>
          left
          obtain ⟨rfl, -⟩ : s.currentTrxId + 1 = trxId ∧ false = started := by
            simpa [effect, hface] using htrx
          rw [hdoes.given]
          simp [effect, hface, Event.given]
      | appendBeginTrxLog =>
        left
        obtain ⟨trxId'', htrx', hreserved⟩ := hheld.begins rfl
        obtain ⟨rfl, -⟩ : trxId' = trxId ∧ true = started := by simpa [effect, hface] using htrx
        obtain ⟨rfl, -⟩ : trxId' = trxId'' ∧ started' = false := by simpa [hface] using htrx'
        exact hmono _ hreserved.1
      | commitWithTrxId commitXid =>
        obtain ⟨rfl, rfl⟩ : trxId' = trxId ∧ false = started := by simpa [effect, hface] using htrx
        exact hkeeps (by simp) hface
      | rollback =>
        obtain ⟨rfl, rfl⟩ : trxId' = trxId ∧ false = started := by simpa [effect, hface] using htrx
        exact hkeeps (by simp) hface
      | destroyTrx => simp [effect, hface] at htrx
      | _ =>
        obtain ⟨rfl, rfl⟩ : trxId' = trxId ∧ started' = started := by
          simpa [effect, hface] using htrx
        exact hkeeps id hface
  · have hface : (s.run lib i c).2.face j = s.face j := by
      rw [Server.face, hdoes.others _ (by simpa using hj), Server.face]
    rw [hface] at htrx
    exact hkeeps id htrx

theorem Sound.run (h : s.Sound base) (hdoes : Does lib i c s) (hheld : s.Held i (c :: rest))
    (hbounded : (s.run lib i c).2.Bounded base) : (s.run lib i c).2.Sound base := by
  constructor
  case numbers =>
    rcases effect_given i s c with ⟨hgiven, hcurrent⟩ | ⟨hgiven, hcurrent⟩
    · have hsame : (s.run lib i c).2.given = s.given := by
        rw [hdoes.given, hgiven, List.append_nil]
      constructor
      case given =>
        rw [hsame]
        exact h.numbers.given
      case current =>
        rw [hsame, hdoes.currentTrxId, hcurrent]
        exact h.numbers.current
    · apply h.numbers.gives (i := i) _ _ hbounded
      · rw [hdoes.given, hgiven]
      · rw [hdoes.currentTrxId, hcurrent]
  case serials =>
    rcases hheld.entry with hnone | ⟨e, he, hfresh⟩
    · apply h.serials.gives hdoes.given
      rw [hdoes.handed, hnone, List.append_nil]
    · apply h.serials.hands hfresh hdoes.given
      rw [hdoes.handed, he]
  case owns => exact h.owns.run hdoes hheld

theorem Held.of_run (h : s.Sound base) (hbase : 0 ≤ base.toInt) (hdoes : Does lib i c s)
    (hheld : s.Held i (c :: rest)) (hbounded : (s.run lib i c).2.Bounded base) :
    (s.run lib i c).2.Held i ((s.run lib i c).1 ++ rest) := by
  have hrest : ∀ c' ∈ rest, c'.plain = true := hheld.tail
  have hplain : (∀ c' ∈ (effect i s c).next, c'.plain = true) →
      (s.run lib i c).2.Held i ((s.run lib i c).1 ++ rest) := by
    intro hnext
    apply Held.of_plain
    intro c' hc'
    rw [hdoes.next, List.mem_append] at hc'
    rcases hc' with hc' | hc'
    · exact hnext c' hc'
    · exact hrest c' hc'
  -- a number that has just been given is in reserve
  have hgives : (effect i s c).events = [.gave i (s.currentTrxId + 1)] →
      s.currentTrxId.toInt < (s.currentTrxId + 1).toInt ∧
        (s.run lib i c).2.Reserved i (s.currentTrxId + 1) := by
    intro hevents
    have hgiven : (s.run lib i c).2.given = s.given ++ [(i, s.currentTrxId + 1)] := by
      rw [hdoes.given, hevents]
      rfl
    have hhanded : (s.run lib i c).2.handed = s.handed := by
      rw [hdoes.handed, hevents]
      exact List.append_nil _
    have hsucc : (s.currentTrxId + 1).toInt = s.currentTrxId.toInt + 1 := by
      rw [Bounded, hgiven, List.length_append, List.length_singleton] at hbounded
      apply toInt_succ
      rw [h.numbers.current]
      push_cast at hbounded
      omega
    refine ⟨by omega, ?_, fun hmem => ?_⟩
    · rw [hgiven]
      simp
    · rw [serials, hhanded] at hmem
      obtain ⟨j, hj⟩ := h.serials.given _ hmem
      have hle : (s.currentTrxId + 1).toInt ≤ s.currentTrxId.toInt := (h.numbers.mem hj).2
      omega
  rcases hface : s.face i with _ | ⟨trxId, started⟩
  · apply hplain
    cases c with
    | sqlResultClose rc =>
      simp only [effect, hface]
      split
      · simp
      · split <;> simp [Call.plain]
    | _ => simp [effect, hface]
  · cases c with
    | sqlResultClose rc =>
      apply hplain
      simp only [effect, hface]
      split
      · simp
      · split <;> simp [Call.plain]
    | startIfNeed =>
      cases started with
      | true =>
        apply hplain
        simp [effect, hface]
      | false =>
        obtain ⟨-, hreserved⟩ := hgives (by simp [effect, hface])
        have hnext : (s.run lib i .startIfNeed).1 = [.appendBeginTrxLog] := by
          simp [hdoes.next, effect, hface]
        rw [hnext]
        constructor
        case tail => exact hrest
        case begins =>
          intro _
          refine ⟨s.currentTrxId + 1, ?_, hreserved⟩
          simp [hdoes.face, effect, hface]
        case commits =>
          intro x hx
          simp at hx
    | commit =>
      obtain ⟨hlt, hreserved⟩ := hgives (by simp [effect, hface])
      have hnext : (s.run lib i .commit).1 = [.commitWithTrxId (s.currentTrxId + 1)] := by
        simp [hdoes.next, effect, hface]
      rw [hnext]
      constructor
      case tail => exact hrest
      case begins =>
        intro hx
        simp at hx
      case commits =>
        intro x hx
        obtain rfl : s.currentTrxId + 1 = x := by simpa using hx
        refine ⟨hreserved, fun trxId' started' htrx => ?_⟩
        obtain ⟨rfl, rfl⟩ : trxId = trxId' ∧ started = started' := by
          simpa [hdoes.face, effect, hface] using htrx
        rcases h.owns i trxId started hface with hgiven | ⟨rfl, -⟩
        · have hle : trxId.toInt ≤ s.currentTrxId.toInt := (h.numbers.mem hgiven).2
          omega
        · have hcurrent := h.numbers.current
          have hminus : (-1 : Int32).toInt = -1 := by decide
          omega
    | _ =>
      apply hplain
      simp [effect, hface]

end Server

end TDB.Mvcc
