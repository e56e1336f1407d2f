import Mathlib.Data.List.Infix
import Mathlib.Data.List.TakeWhile
import Mathlib.Data.Prod.Lex
import Mathlib.Order.WellFounded
import Mathlib.Logic.Relation

namespace Framing

variable {α : Type} [DecidableEq α]

/-! ## One request, one reply, over two byte streams

The client sends a command and its delimiter, prints what comes back up to the first delimiter and
goes on with the next command.  The server reads up to a delimiter and answers.  Both drop what
stands behind the delimiter in the chunk that they have read.
-/

def text (d : α) (bytes : List α) : List α := bytes.takeWhile (· ≠ d)

def Framed (d : α) (bytes : List α) : Prop := ∃ t, d ∉ t ∧ bytes = t ++ [d]

/-- The two ends and the streams between them: `requests` and `replies` are sent and not read. -/
structure State (α : Type) where
  todo : List (List α)
  awaiting : Bool
  printed : List α
  answers : List (List α)
  requests : List α
  received : List α
  handled : List (List α)
  replies : List α
  closed : Bool

def start (commands : List (List α)) : State α :=
  ⟨commands, false, [], [], [], [], [], [], false⟩

/-- How the two ends talk: the delimiter, how many bytes the client reads at once and the server
keeps of a request, and what the server does with a request: its reply, and whether it closes the
connection.  That may depend on all requests up to this one. -/
structure Protocol (α : Type) where
  delimiter : α
  clientMax : ℕ
  serverMax : ℕ
  clientMax_pos : 0 < clientMax
  serverMax_pos : 0 < serverMax
  serve : List (List α) → List α × Bool

/-- One step of either end.  A read gives any nonempty prefix of what is in flight that it has room
for, and a server without room for a delimiter closes the connection. -/
inductive Step (p : Protocol α) : State α → State α → Prop where
  | send (s : State α) (c : List α) (rest : List (List α)) (hidle : s.awaiting = false)
      (htodo : s.todo = c :: rest) :
      Step p s { s with
        todo := rest, awaiting := true, printed := []
        requests := s.requests ++ (c ++ [p.delimiter]) }
  | serverReads (s : State α) (chunk rest : List α) (hopen : s.closed = false)
      (hrequests : s.requests = chunk ++ rest) (hne : chunk ≠ [])
      (hroom : s.received.length + chunk.length ≤ p.serverMax) (hnone : p.delimiter ∉ chunk) :
      Step p s { s with received := s.received ++ chunk, requests := rest }
  | serverAnswers (s : State α) (chunk rest : List α) (hopen : s.closed = false)
      (hrequests : s.requests = chunk ++ rest)
      (hroom : s.received.length + chunk.length ≤ p.serverMax) (hmem : p.delimiter ∈ chunk) :
      Step p s { s with
        received := [], requests := rest
        handled := s.handled ++ [s.received ++ text p.delimiter chunk]
        replies := s.replies ++ (p.serve (s.handled ++ [s.received ++ text p.delimiter chunk])).1
        closed := (p.serve (s.handled ++ [s.received ++ text p.delimiter chunk])).2 }
  | serverGivesUp (s : State α) (hopen : s.closed = false)
      (hfull : s.received.length = p.serverMax) :
      Step p s { s with closed := true }
  | clientReads (s : State α) (chunk rest : List α) (hawaiting : s.awaiting = true)
      (hreplies : s.replies = chunk ++ rest) (hne : chunk ≠ [])
      (hroom : chunk.length ≤ p.clientMax) (hnone : p.delimiter ∉ chunk) :
      Step p s { s with printed := s.printed ++ chunk, replies := rest }
  | clientEnds (s : State α) (chunk rest : List α) (hawaiting : s.awaiting = true)
      (hreplies : s.replies = chunk ++ rest) (hroom : chunk.length ≤ p.clientMax)
      (hmem : p.delimiter ∈ chunk) :
      Step p s { s with
        awaiting := false, printed := [], replies := rest
        answers := s.answers ++ [s.printed ++ text p.delimiter chunk] }

/-- Any number of steps of the two ends, in any order and with any chunks. -/
def Reaches (p : Protocol α) : State α → State α → Prop :=
  Relation.ReflTransGen (Step p)

def answersTo (p : Protocol α) (history : List (List α)) : List (List α) :=
  (List.range history.length).map fun k => text p.delimiter (p.serve (history.take (k + 1))).1

/-- The server handles the client's commands in order and loses none of them, and every answer
printed is the reply to its own command. -/
structure InStep (p : Protocol α) (commands : List (List α)) (s : State α) : Prop where
  handled : s.handled <+: commands
  ordered : s.answers.length ≤ s.handled.length
  answers : s.answers = answersTo p (s.handled.take s.answers.length)

/-- The server has kept the connection open before the last of these requests. -/
def Served (p : Protocol α) (history : List (List α)) : Prop :=
  ∀ k, 0 < k → k < history.length → (p.serve (history.take k)).2 = false

theorem Step.reaches {p : Protocol α} {s s' s'' : State α} (hstep : Step p s s')
    (h : Reaches p s' s'') : Reaches p s s'' :=
  Relation.ReflTransGen.head hstep h

theorem Reaches.trans {p : Protocol α} {s s' s'' : State α} (h : Reaches p s s')
    (h' : Reaches p s' s'') : Reaches p s s'' :=
  Relation.ReflTransGen.trans h h'

/-! ## Texts and histories -/

theorem text_append_of_notMem {d : α} {u : List α} (hu : d ∉ u) (v : List α) :
    text d (u ++ v) = u ++ text d v := by
  unfold text
  rw [List.takeWhile_append_of_pos]
  intro x hx
  simpa using ne_of_mem_of_not_mem hx hu

theorem text_append_of_mem {d : α} {u : List α} (hu : d ∈ u) (v : List α) :
    text d (u ++ v) = text d u := by
  unfold text
  rw [List.takeWhile_append, if_neg]
  intro hlen
  have hall := List.takeWhile_eq_self_iff.mp ((List.takeWhile_prefix _).eq_of_length hlen)
  simpa using hall d hu

@[simp] theorem text_delimiter (d : α) (v : List α) : text d (d :: v) = [] := by
  simp [text]

theorem notMem_text (d : α) (u : List α) : d ∉ text d u := by
  intro h
  simpa using List.mem_takeWhile_imp h

theorem text_framed {d : α} {u : List α} (hu : d ∉ u) : text d (u ++ [d]) = u := by
  rw [text_append_of_notMem hu, text_delimiter, List.append_nil]

omit [DecidableEq α] in
theorem framed_append {d : α} {t : List α} : Framed d (t ++ [d]) ↔ d ∉ t := by
  constructor
  · intro h
    obtain ⟨u, hu, heq⟩ := h
    rwa [List.append_cancel_right heq]
  · intro ht
    exact ⟨t, ht, rfl⟩

/-- The bytes behind the first delimiter stand behind the text and that delimiter. -/
theorem exists_text_append {d : α} {u : List α} (hu : d ∈ u) : ∃ v, u = text d u ++ d :: v := by
  induction u with
  | nil => simp at hu
  | cons x u ih =>
    by_cases hx : x = d
    · subst hx
      exact ⟨u, by simp⟩
    · obtain ⟨v, hv⟩ := ih ((List.mem_cons.mp hu).resolve_left (Ne.symm hx))
      refine ⟨v, ?_⟩
      have htext : text d (x :: u) = x :: text d u := by simp [text, hx]
      rw [htext, List.cons_append, ← hv]

variable {p : Protocol α}

theorem length_answersTo (p : Protocol α) (history : List (List α)) :
    (answersTo p history).length = history.length := by
  simp [answersTo]

theorem answersTo_snoc (p : Protocol α) (history : List (List α)) (c : List α) :
    answersTo p (history ++ [c]) =
      answersTo p history ++ [text p.delimiter (p.serve (history ++ [c])).1] := by
  unfold answersTo
  rw [List.length_append, List.length_singleton, List.range_succ, List.map_append]
  congr 1
  · apply List.map_congr_left
    intro k hk
    rw [List.take_append_of_le_length (by have := List.mem_range.mp hk; omega)]
  · rw [List.map_singleton, List.take_of_length_le (by simp)]

omit [DecidableEq α] in
theorem served_snoc {history : List (List α)} {c : List α} :
    Served p (history ++ [c]) ↔
      Served p history ∧ (history ≠ [] → (p.serve history).2 = false) := by
  constructor
  · intro h
    constructor
    · intro k hk hlt
      have hkept := h k hk (by simp; omega)
      rwa [List.take_append_of_le_length (by omega)] at hkept
    · intro hne
      have hpos := List.length_pos_of_ne_nil hne
      simpa using h history.length hpos (by simp)
  · intro h k hk hlt
    rw [List.length_append, List.length_singleton] at hlt
    rw [List.take_append_of_le_length (by omega)]
    by_cases hlast : k = history.length
    · subst hlast
      rw [List.take_length]
      exact h.2 (List.ne_nil_of_length_pos hk)
    · exact h.1 k hk (by omega)

omit [DecidableEq α] in
theorem Served.of_prefix {history history' : List (List α)} (h : Served p history')
    (hpast : history <+: history') : Served p history := by
  intro k hk hlt
  obtain ⟨after, rfl⟩ := hpast
  have hkept := h k hk (by simp; omega)
  rwa [List.take_append_of_le_length (by omega)] at hkept

/-! ## In step -/

/-- A command that the server can take in: no delimiter, and room for the one behind it. -/
structure Sendable (p : Protocol α) (c : List α) : Prop where
  noDelimiter : p.delimiter ∉ c
  fits : c.length < p.serverMax

/-- Every reply that another command stands behind is framed. -/
def RepliesFramed (p : Protocol α) (commands : List (List α)) : Prop :=
  ∀ history c rest, commands = history ++ c :: rest → rest ≠ [] → Served p (history ++ [c]) →
    Framed p.delimiter (p.serve (history ++ [c])).1

/-- Where the two ends are: between two commands, with a request under way, or with a reply. -/
inductive Phase (p : Protocol α) (commands : List (List α)) (s : State α) : Prop where
  | idle (hawaiting : s.awaiting = false) (hrequests : s.requests = [])
      (hreceived : s.received = []) (hreplies : s.todo ≠ [] → s.replies = [])
      (hanswers : s.answers = answersTo p s.handled)
      (hcommands : commands = s.handled ++ s.todo)
  | requesting (c : List α) (hawaiting : s.awaiting = true) (hprinted : s.printed = [])
      (hreplies : s.replies = []) (hrequests : s.received ++ s.requests = c ++ [p.delimiter])
      (hreceived : p.delimiter ∉ s.received) (hanswers : s.answers = answersTo p s.handled)
      (hcommands : commands = s.handled ++ c :: s.todo)
  | replying (before : List (List α)) (c : List α) (hawaiting : s.awaiting = true)
      (hrequests : s.requests = []) (hreceived : s.received = [])
      (hhandled : s.handled = before ++ [c]) (hprinted : p.delimiter ∉ s.printed)
      (hreplies : s.printed ++ s.replies = (p.serve s.handled).1)
      (hanswers : s.answers = answersTo p before) (hcommands : commands = s.handled ++ s.todo)

/-- The phase, and what the server has handled while the connection was open. -/
structure Invariant (p : Protocol α) (commands : List (List α)) (s : State α) : Prop where
  phase : Phase p commands s
  served : Served p s.handled
  kept : s.closed = false → s.handled ≠ [] → (p.serve s.handled).2 = false
  closed : s.closed = true → s.handled ≠ [] ∧ (p.serve s.handled).2 = true

variable {commands : List (List α)}

theorem invariant_start : Invariant p commands (start commands) := by
  constructor
  case phase => exact .idle rfl rfl rfl (fun _ => rfl) rfl rfl
  case served =>
    intro k hk hlt
    exact absurd hlt (Nat.not_lt_zero k)
  case kept =>
    intro _ hne
    exact absurd rfl hne
  case closed =>
    intro hclosed
    exact absurd hclosed Bool.false_ne_true

theorem Invariant.inStep {s : State α} (h : Invariant p commands s) : InStep p commands s := by
  cases h.phase with
  | idle _ _ _ _ hanswers hcommands =>
    have hlen : s.answers.length = s.handled.length := by rw [hanswers, length_answersTo]
    constructor
    · rw [hcommands]
      exact List.prefix_append _ _
    · omega
    · rw [hlen, List.take_length]
      exact hanswers
  | requesting c _ _ _ _ _ hanswers hcommands =>
    have hlen : s.answers.length = s.handled.length := by rw [hanswers, length_answersTo]
    constructor
    · rw [hcommands]
      exact List.prefix_append _ _
    · omega
    · rw [hlen, List.take_length]
      exact hanswers
  | replying before c _ _ _ hhandled _ _ hanswers hcommands =>
    have hlen : s.answers.length = before.length := by rw [hanswers, length_answersTo]
    constructor
    · rw [hcommands]
      exact List.prefix_append _ _
    · rw [hlen, hhandled]
      simp
    · rw [hlen, hhandled, List.take_left]
      exact hanswers

omit [DecidableEq α] in
theorem eq_nil_of_mem_of_framed {d : α} {u chunk rest c : List α} (hc : d ∉ c)
    (heq : u ++ (chunk ++ rest) = c ++ [d]) (hmem : d ∈ chunk) : rest = [] := by
  by_contra hrest
  obtain ⟨init, last, rfl⟩ := List.eq_nil_or_concat rest |>.resolve_left hrest
  rw [List.concat_eq_append, ← List.append_assoc, ← List.append_assoc] at heq
  have hinit := List.append_inj_left' heq rfl
  apply hc
  rw [← hinit]
  simp [hmem]

omit [DecidableEq α] in
theorem room_of_requests {s : State α} {c : List α} (hc : Sendable p c)
    (hrequests : s.received ++ s.requests = c ++ [p.delimiter])
    (hreceived : p.delimiter ∉ s.received) : s.received.length < p.serverMax := by
  have hlen := congrArg List.length hrequests
  simp only [List.length_append, List.length_singleton] at hlen
  have hfits := hc.fits
  by_contra hfull
  have hnil : s.requests = [] := List.eq_nil_of_length_eq_zero (by omega)
  rw [hnil, List.append_nil] at hrequests
  simp [hrequests] at hreceived

theorem Invariant.step (hcommands : ∀ c ∈ commands, Sendable p c)
    (hframed : RepliesFramed p commands) {s s' : State α} (h : Invariant p commands s)
    (hstep : Step p s s') : Invariant p commands s' := by
  obtain ⟨hphase, hserved, hkept, hclosed⟩ := h
  cases hstep with
  | send c rest hidle htodo =>
    refine ⟨?_, hserved, hkept, hclosed⟩
    cases hphase with
    | idle hawaiting hrequests hreceived hreplies hanswers hall =>
      rw [htodo] at hall
      apply Phase.requesting c
      case hawaiting => rfl
      case hprinted => rfl
      case hreplies => exact hreplies (by simp [htodo])
      case hrequests => simp [hrequests, hreceived]
      case hreceived => simp [hreceived]
      case hanswers => exact hanswers
      case hcommands => exact hall
    | requesting c' hawaiting => simp [hidle] at hawaiting
    | replying before c' hawaiting => simp [hidle] at hawaiting
  | serverReads chunk rest hopen hrequests hne hroom hnone =>
    refine ⟨?_, hserved, hkept, hclosed⟩
    cases hphase with
    | idle _ hnil =>
      rw [hnil] at hrequests
      simp_all
    | requesting c hawaiting hprinted hreplies hsent hreceived hanswers hall =>
      apply Phase.requesting c
      case hawaiting => exact hawaiting
      case hprinted => exact hprinted
      case hreplies => exact hreplies
      case hrequests =>
        rw [← hsent, hrequests]
        simp
      case hreceived => simp [hreceived, hnone]
      case hanswers => exact hanswers
      case hcommands => exact hall
    | replying _ _ _ hnil =>
      rw [hnil] at hrequests
      simp_all
  | serverAnswers chunk rest hopen hrequests hroom hmem =>
    cases hphase with
    | idle _ hnil =>
      rw [hnil] at hrequests
      simp_all
    | requesting c hawaiting hprinted hreplies hsent hreceived hanswers hall =>
      have hc := (hcommands c (by simp [hall])).noDelimiter
      rw [hrequests] at hsent
      have hrest := eq_nil_of_mem_of_framed hc hsent hmem
      subst hrest
      rw [List.append_nil] at hsent
      have hrequest : s.received ++ text p.delimiter chunk = c := by
        rw [← text_append_of_notMem hreceived, hsent, text_framed hc]
      rw [hrequest]
      constructor
      case phase =>
        apply Phase.replying s.handled c
        case hawaiting => exact hawaiting
        case hrequests => rfl
        case hreceived => rfl
        case hhandled => rfl
        case hprinted => simp [hprinted]
        case hreplies => simp [hprinted, hreplies]
        case hanswers => exact hanswers
        case hcommands => simpa using hall
      case served => exact served_snoc.mpr ⟨hserved, hkept hopen⟩
      case kept =>
        intro hopen' _
        exact hopen'
      case closed =>
        intro hclosed'
        exact ⟨by simp, hclosed'⟩
    | replying _ _ _ hnil =>
      rw [hnil] at hrequests
      simp_all
  | serverGivesUp hopen hfull =>
    -- a full buffer would hold the delimiter
    exfalso
    have hpos := p.serverMax_pos
    cases hphase with
    | idle _ _ hreceived =>
      rw [hreceived, List.length_nil] at hfull
      omega
    | requesting c _ _ _ hsent hreceived _ hall =>
      have hroom := room_of_requests (hcommands c (by simp [hall])) hsent hreceived
      omega
    | replying _ _ _ _ hreceived =>
      rw [hreceived, List.length_nil] at hfull
      omega
  | clientReads chunk rest hawaiting hreplies hne hroom hnone =>
    refine ⟨?_, hserved, hkept, hclosed⟩
    cases hphase with
    | idle hidle => simp [hidle] at hawaiting
    | requesting _ _ _ hnil =>
      rw [hnil] at hreplies
      simp_all
    | replying before c _ hrequests hreceived hhandled hprinted hreply hanswers hall =>
      apply Phase.replying before c
      case hawaiting => exact hawaiting
      case hrequests => exact hrequests
      case hreceived => exact hreceived
      case hhandled => exact hhandled
      case hprinted => simp [hprinted, hnone]
      case hreplies =>
        rw [← hreply, hreplies]
        simp
      case hanswers => exact hanswers
      case hcommands => exact hall
  | clientEnds chunk rest hawaiting hreplies hroom hmem =>
    refine ⟨?_, hserved, hkept, hclosed⟩
    cases hphase with
    | idle hidle => simp [hidle] at hawaiting
    | requesting _ _ _ hnil =>
      rw [hnil] at hreplies
      simp_all
    | replying before c _ hrequests hreceived hhandled hprinted hreply hanswers hall =>
      rw [hreplies] at hreply
      have hanswer : s.printed ++ text p.delimiter chunk =
          text p.delimiter (p.serve s.handled).1 := by
        rw [← hreply, text_append_of_notMem hprinted, text_append_of_mem hmem]
      apply Phase.idle
      case hawaiting => rfl
      case hrequests => exact hrequests
      case hreceived => exact hreceived
      case hreplies =>
        intro htodo
        rw [hhandled, List.append_assoc, List.singleton_append] at hall
        rw [hhandled] at hserved hreply
        obtain ⟨t, ht, hbytes⟩ := hframed before c s.todo hall htodo hserved
        rw [hbytes] at hreply
        exact eq_nil_of_mem_of_framed ht hreply hmem
      case hanswers =>
        rw [hanswer]
        simp only [hhandled, answersTo_snoc, hanswers]
      case hcommands => exact hall

/-- The two ends stay in step when every reply before another command is framed. -/
theorem Invariant.of_reaches (hcommands : ∀ c ∈ commands, Sendable p c)
    (hframed : RepliesFramed p commands) {s : State α} (h : Reaches p (start commands) s) :
    Invariant p commands s := by
  induction h with
  | refl => exact invariant_start
  | tail _ hstep ih => exact ih.step hcommands hframed hstep

/-- Nobody waits forever: when no end can go on, the client has printed the answer to everything
that the server has handled, and that is every command unless the server has closed. -/
theorem answered_of_stuck (hcommands : ∀ c ∈ commands, Sendable p c)
    (hframed : RepliesFramed p commands)
    (hends : ∀ history, history <+: commands → history ≠ [] →
      ∃ t, (p.serve history).1 = t ++ [p.delimiter]) {s : State α}
    (h : Reaches p (start commands) s) (hstuck : ∀ s', ¬ Step p s s') :
    s.answers = answersTo p s.handled ∧
      (s.handled = commands ∨ s.handled ≠ [] ∧ (p.serve s.handled).2 = true) := by
  have hinv := Invariant.of_reaches hcommands hframed h
  cases hinv.phase with
  | idle hawaiting hrequests hreceived hreplies hanswers hall =>
    cases htodo : s.todo with
    | nil =>
      refine ⟨hanswers, .inl ?_⟩
      rw [hall, htodo, List.append_nil]
    | cons c rest => exact absurd (Step.send s c rest hawaiting htodo) (hstuck _)
  | requesting c hawaiting hprinted hreplies hsent hreceived hanswers hall =>
    refine ⟨hanswers, .inr (hinv.closed ?_)⟩
    by_contra hclosed
    have hopen := Bool.not_eq_true _ ▸ hclosed
    have hroom := room_of_requests (hcommands c (by simp [hall])) hsent hreceived
    have hmem : p.delimiter ∈ s.received ++ s.requests := by simp [hsent]
    obtain ⟨x, rest, hrequests⟩ := List.exists_cons_of_ne_nil
      (List.ne_nil_of_mem ((List.mem_append.mp hmem).resolve_left hreceived))
    by_cases hx : p.delimiter ∈ [x]
    · exact hstuck _ (Step.serverAnswers s [x] rest hopen hrequests hroom hx)
    · exact hstuck _ (Step.serverReads s [x] rest hopen hrequests (by simp) hroom hx)
  | replying before c hawaiting hrequests hreceived hhandled hprinted hreply hanswers hall =>
    obtain ⟨t, ht⟩ := hends s.handled (by rw [hall]; exact List.prefix_append _ _)
      (by simp [hhandled])
    have hmem : p.delimiter ∈ s.printed ++ s.replies := by simp [hreply, ht]
    obtain ⟨x, rest, hreplies⟩ := List.exists_cons_of_ne_nil
      (List.ne_nil_of_mem ((List.mem_append.mp hmem).resolve_left hprinted))
    have hroom : [x].length ≤ p.clientMax := p.clientMax_pos
    by_cases hx : p.delimiter ∈ [x]
    · exact absurd (Step.clientEnds s [x] rest hawaiting hreplies hroom hx) (hstuck _)
    · exact absurd (Step.clientReads s [x] rest hawaiting hreplies (by simp) hroom hx) (hstuck _)

/-- What is left to do: commands, bytes on their way to the server, the connection, bytes on their
way back. -/
def remaining (s : State α) : ℕ ×ₗ ℕ ×ₗ ℕ ×ₗ ℕ :=
  toLex (s.todo.length, toLex (s.requests.length, toLex ((!s.closed).toNat, s.replies.length)))

theorem Step.remaining_lt {s s' : State α} (h : Step p s s') : remaining s' < remaining s := by
  have hpos : ∀ chunk : List α, p.delimiter ∈ chunk → 0 < chunk.length :=
    fun chunk hmem => List.length_pos_of_mem hmem
  unfold remaining
  simp only [Prod.Lex.toLex_lt_toLex]
  cases h with
  | send c rest hidle htodo => simp [htodo]
  | serverReads chunk rest hopen hrequests hne =>
    have := List.length_pos_of_ne_nil hne
    simp [hrequests, this]
  | serverAnswers chunk rest hopen hrequests hroom hmem => simp [hrequests, hpos chunk hmem]
  | serverGivesUp hopen => simp [hopen]
  | clientReads chunk rest hawaiting hreplies hne =>
    have := List.length_pos_of_ne_nil hne
    simp [hreplies, this]
  | clientEnds chunk rest hawaiting hreplies hroom hmem => simp [hreplies, hpos chunk hmem]

theorem not_forever (run : ℕ → State α) : ¬ ∀ n, Step p (run n) (run (n + 1)) := by
  intro h
  obtain ⟨n, hn⟩ := WellFounded.not_rel_apply_succ (r := (· < ·)) fun n => remaining (run n)
  exact hn (h n).remaining_lt

/-! ## Out of step -/

/-- A client that reads its answer byte by byte. -/
theorem reaches_answer {s : State α} {u rest : List α} (hawaiting : s.awaiting = true)
    (hreplies : s.replies = u ++ p.delimiter :: rest) (hu : p.delimiter ∉ u) :
    Reaches p s { s with
      awaiting := false, printed := [], replies := rest
      answers := s.answers ++ [s.printed ++ u] } := by
  induction u generalizing s with
  | nil =>
    apply Relation.ReflTransGen.single
    have hends := Step.clientEnds s [p.delimiter] rest hawaiting hreplies p.clientMax_pos (by simp)
    simpa using hends
  | cons x u ih =>
    rw [List.mem_cons, not_or] at hu
    have hreads := Step.clientReads s [x] (u ++ p.delimiter :: rest) hawaiting hreplies (by simp)
      p.clientMax_pos (by simpa using hu.1)
    apply hreads.reaches
    have hrest := @ih { s with
      printed := s.printed ++ [x], replies := u ++ p.delimiter :: rest } hawaiting rfl hu.2
    simpa using hrest

theorem reaches_handled {s : State α} {u : List α} (hopen : s.closed = false)
    (hrequests : s.requests = u ++ [p.delimiter]) (hu : p.delimiter ∉ u)
    (hroom : s.received.length + u.length < p.serverMax) :
    Reaches p s { s with
      received := [], requests := []
      handled := s.handled ++ [s.received ++ u]
      replies := s.replies ++ (p.serve (s.handled ++ [s.received ++ u])).1
      closed := (p.serve (s.handled ++ [s.received ++ u])).2 } := by
  induction u generalizing s with
  | nil =>
    apply Relation.ReflTransGen.single
    have hanswers := Step.serverAnswers s [p.delimiter] [] hopen hrequests hroom (by simp)
    simpa using hanswers
  | cons x u ih =>
    rw [List.mem_cons, not_or] at hu
    rw [List.length_cons] at hroom
    have hreads := Step.serverReads (p := p) s [x] (u ++ [p.delimiter]) hopen hrequests (by simp)
      (by simp; omega) (by simpa using hu.1)
    apply hreads.reaches
    have hrest := @ih { s with
      received := s.received ++ [x], requests := u ++ [p.delimiter] } hopen rfl hu.2
      (by simp; omega)
    simpa using hrest

def between (p : Protocol α) (history todo : List (List α)) : State α :=
  ⟨todo, false, [], answersTo p history, [], [], history, [], false⟩

/-- The last of these commands is handled, and its reply is on the way. -/
def replied (p : Protocol α) (history : List (List α)) (c : List α) (todo : List (List α)) :
    State α :=
  ⟨todo, true, [], answersTo p history, [], [], history ++ [c], (p.serve (history ++ [c])).1,
    (p.serve (history ++ [c])).2⟩

theorem reaches_replied {c : List α} (hc : Sendable p c) (history rest : List (List α)) :
    Reaches p (between p history (c :: rest)) (replied p history c rest) := by
  have hsend := Step.send (p := p) (between p history (c :: rest)) c rest rfl rfl
  apply hsend.reaches
  have hhandled := @reaches_handled _ _ p { between p history (c :: rest) with
    todo := rest, awaiting := true, printed := [], requests := [] ++ (c ++ [p.delimiter]) }
    c rfl rfl hc.noDelimiter (by simpa [between] using hc.fits)
  simpa [between, replied] using hhandled

/-- Framed replies bring the two ends between two commands again and again. -/
theorem reaches_between (hcommands : ∀ c ∈ commands, Sendable p c) {history rest : List (List α)}
    (hsplit : commands = history ++ rest)
    (hframed : ∀ before c, before ++ [c] <+: history →
      Framed p.delimiter (p.serve (before ++ [c])).1)
    (hserved : Served p history) (hopen : history ≠ [] → (p.serve history).2 = false) :
    Reaches p (start commands) (between p history rest) := by
  induction history using List.reverseRecOn generalizing rest with
  | nil =>
    rw [List.nil_append] at hsplit
    subst hsplit
    exact .refl
  | append_singleton history c ih =>
    rw [List.append_assoc, List.singleton_append] at hsplit
    have hkept := served_snoc.mp hserved
    have hbefore : Reaches p (start commands) (between p history (c :: rest)) := by
      apply ih hsplit _ hkept.1 hkept.2
      intro before e hpast
      exact hframed before e (hpast.trans (List.prefix_append _ _))
    obtain ⟨t, ht, hreply⟩ := hframed history c List.prefix_rfl
    have hends := @reaches_answer _ _ p (replied p history c rest) t [] rfl hreply ht
    have hreplied := reaches_replied (hcommands c (by simp [hsplit])) history rest
    apply (hbefore.trans hreplied).trans
    simpa [between, replied, answersTo_snoc, hreply, text_framed ht, hopen] using hends

/-- After a reply with a delimiter inside, the client takes what is left of it for the answer to the
next command. -/
theorem exists_ahead {history rest : List (List α)} {c c' : List α} {t : List α}
    (hreplied : Reaches p (start commands) (replied p history c (c' :: rest)))
    (hmem : p.delimiter ∈ t) (hreply : (p.serve (history ++ [c])).1 = t ++ [p.delimiter]) :
    ∃ s, Reaches p (start commands) s ∧ s.handled.length < s.answers.length := by
  obtain ⟨v, hv⟩ := exists_text_append hmem
  have hbytes : (replied p history c (c' :: rest)).replies =
      text p.delimiter t ++ p.delimiter :: (v ++ [p.delimiter]) := by
    rw [replied, hreply]
    nth_rewrite 1 [hv]
    simp
  have hfirst := reaches_answer rfl hbytes (notMem_text p.delimiter t)
  obtain ⟨s₁, hs₁⟩ : ∃ s₁, s₁ = { replied p history c (c' :: rest) with
      awaiting := false, printed := [], replies := v ++ [p.delimiter]
      answers := answersTo p history ++ [[] ++ text p.delimiter t] } := ⟨_, rfl⟩
  have hsend := Step.send (p := p) s₁ c' rest (by rw [hs₁]) (by rw [hs₁]; rfl)
  obtain ⟨w, hw⟩ := exists_text_append (show p.delimiter ∈ v ++ [p.delimiter] by simp)
  have hsecond := @reaches_answer _ _ p { s₁ with
    todo := rest, awaiting := true, printed := []
    requests := s₁.requests ++ (c' ++ [p.delimiter]) }
    (text p.delimiter (v ++ [p.delimiter])) w rfl (by rw [← hw, hs₁]) (notMem_text _ _)
  subst hs₁
  refine ⟨_, (hreplied.trans hfirst).trans (hsend.reaches hsecond), ?_⟩
  simp [replied, length_answersTo]

/-- The two ends stay in step, in every order of their steps and with every chunk, exactly when
every reply before another command is framed. -/
theorem inStep_iff (hcommands : ∀ c ∈ commands, Sendable p c)
    (hends : ∀ history, history <+: commands → history ≠ [] →
      ∃ t, (p.serve history).1 = t ++ [p.delimiter]) :
    (∀ s, Reaches p (start commands) s → InStep p commands s) ↔ RepliesFramed p commands := by
  constructor
  · intro hin history
    induction hlen : history.length using Nat.strong_induction_on generalizing history with
    | _ n ih =>
      intro c rest hsplit hrest hserved
      obtain ⟨hbefore, hopen⟩ := served_snoc.mp hserved
      have hbetween : Reaches p (start commands) (between p history (c :: rest)) := by
        apply reaches_between hcommands hsplit _ hbefore hopen
        intro before e hpast
        obtain ⟨after, hafter⟩ := hpast
        have hlt : before.length < n := by
          rw [← hlen, ← hafter]
          simp
        apply ih before.length hlt before rfl e (after ++ c :: rest)
        · rw [hsplit, ← hafter]
          simp
        · simp
        · exact hbefore.of_prefix ⟨after, hafter⟩
      obtain ⟨t, hreply⟩ := hends (history ++ [c]) (by simp [hsplit]) (by simp)
      refine ⟨t, ?_, hreply⟩
      intro hmem
      obtain ⟨c', rest', rfl⟩ := List.exists_cons_of_ne_nil hrest
      have hc := hcommands c (by simp [hsplit])
      obtain ⟨s, hreaches, hahead⟩ := exists_ahead
        (hbetween.trans (reaches_replied hc history (c' :: rest'))) hmem hreply
      have := (hin s hreaches).ordered
      omega
  · intro hframed s hreaches
    exact (Invariant.of_reaches hcommands hframed hreaches).inStep

end Framing
