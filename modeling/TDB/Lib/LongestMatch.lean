import Mathlib.Data.List.Basic
import Mathlib.Order.Nat

namespace LongestMatch

/-! ## Scanners that Flex generates

At the front of the input the rule with the longest match is taken, and the first one of those with
the same length.
-/

structure Rule (B A : Type) where
  length : List B → ℕ
  length_le : ∀ text, length text ≤ text.length
  action : List B → A

variable {B A : Type} {rules : List (Rule B A)} {r : Rule B A} {text word rest : List B}

/-- The rule that is taken; a match is not empty. -/
def longest (text : List B) : List (Rule B A) → Option (Rule B A)
  | [] => none
  | r :: rules => match longest text rules with
    | none => if r.length text = 0 then none else some r
    | some r' => if r'.length text ≤ r.length text then some r else some r'

structure Taken (text : List B) (rules : List (Rule B A)) (r : Rule B A) : Prop where
  pos : 0 < r.length text
  first : ∃ before behind, rules = before ++ r :: behind ∧
    (∀ r' ∈ before, r'.length text < r.length text) ∧
    ∀ r' ∈ behind, r'.length text ≤ r.length text

theorem Taken.mem (h : Taken text rules r) : r ∈ rules := by
  obtain ⟨before, behind, rfl, -, -⟩ := h.first
  exact List.mem_append_right _ List.mem_cons_self

theorem Taken.length_le (h : Taken text rules r) {r' : Rule B A} (hr' : r' ∈ rules) :
    r'.length text ≤ r.length text := by
  obtain ⟨before, behind, rfl, hbefore, hbehind⟩ := h.first
  rw [List.mem_append, List.mem_cons] at hr'
  rcases hr' with hr' | rfl | hr'
  · exact (hbefore _ hr').le
  · exact le_rfl
  · exact hbehind _ hr'

theorem longest_none (h : longest text rules = none) : ∀ r ∈ rules, r.length text = 0 := by
  induction rules with
  | nil => simp
  | cons r rules ih =>
    rw [longest] at h
    cases hrest : longest text rules with
    | none =>
      rw [hrest] at h
      dsimp only at h
      split at h
      · next hr => simpa [hr] using ih hrest
      · cases h
    | some r' =>
      rw [hrest] at h
      dsimp only at h
      split at h <;> cases h

theorem taken_of_longest (h : longest text rules = some r) : Taken text rules r := by
  induction rules generalizing r with
  | nil => cases h
  | cons r₁ rules ih =>
    rw [longest] at h
    cases hrest : longest text rules with
    | none =>
      rw [hrest] at h
      dsimp only at h
      split at h
      · cases h
      · next hr =>
        obtain rfl := Option.some.inj h
        refine ⟨Nat.pos_of_ne_zero hr, [], rules, rfl, by simp, ?_⟩
        intro r' hr'
        rw [longest_none hrest r' hr']
        exact Nat.zero_le _
    | some r₂ =>
      rw [hrest] at h
      dsimp only at h
      have htaken := ih hrest
      split at h
      · next hle =>
        obtain rfl := Option.some.inj h
        refine ⟨htaken.pos.trans_le hle, [], rules, rfl, by simp, ?_⟩
        intro r' hr'
        exact (htaken.length_le hr').trans hle
      · next hlt =>
        obtain rfl := Option.some.inj h
        obtain ⟨before, behind, rfl, hbefore, hbehind⟩ := htaken.first
        refine ⟨htaken.pos, r₁ :: before, behind, rfl, ?_, hbehind⟩
        intro r' hr'
        rcases List.mem_cons.mp hr' with rfl | hr'
        · omega
        · exact hbefore r' hr'

theorem longest_of_taken (h : Taken text rules r) : longest text rules = some r := by
  obtain ⟨before, behind, rfl, hbefore, hbehind⟩ := h.first
  induction before with
  | nil =>
    rw [List.nil_append, longest]
    cases hrest : longest text behind with
    | none =>
      dsimp only
      rw [if_neg h.pos.ne']
    | some r' =>
      dsimp only
      rw [if_pos (hbehind r' (taken_of_longest hrest).mem)]
  | cons r₁ before ih =>
    have hrest := ih ⟨h.pos, before, behind, rfl, fun r' hr' => hbefore r' (by simp [hr']), hbehind⟩
      fun r' hr' => hbefore r' (by simp [hr'])
    have hlt := hbefore r₁ (by simp)
    rw [List.cons_append, longest, hrest]
    dsimp only
    rw [if_neg (by omega)]

/-! ## A whole text -/

/-- The matches of a text, for so many of them, each with what its rule makes of it. -/
def scanFor (rules : List (Rule B A)) : ℕ → List B → List (A × List B)
  | 0, _ => []
  | n + 1, text => match longest text rules with
    | none => []
    | some r =>
      let yytext := text.take (r.length text)
      (r.action yytext, yytext) :: scanFor rules n (text.drop (r.length text))

def scan (rules : List (Rule B A)) (text : List B) : List (A × List B) :=
  scanFor rules text.length text

theorem scanFor_of_length_le {n : ℕ} (h : text.length ≤ n) :
    scanFor rules n text = scan rules text := by
  unfold scan
  induction n using Nat.strongRecOn generalizing text with
  | _ n ih =>
    cases n with
    | zero => rw [Nat.le_zero.mp h]
    | succ n =>
      cases hlongest : longest text rules with
      | none =>
        cases text with
        | nil => simp [scanFor, hlongest]
        | cons b text => simp [scanFor, hlongest]
      | some r =>
        have hpos := (taken_of_longest hlongest).pos
        have hle := r.length_le text
        obtain ⟨m, hm⟩ : ∃ m, text.length = m + 1 := ⟨text.length - 1, by omega⟩
        have hdrop : (text.drop (r.length text)).length ≤ m := by
          rw [List.length_drop]
          omega
        rw [hm, scanFor, scanFor, hlongest]
        dsimp only
        rw [ih n (by omega) (by omega), ih m (by omega) hdrop]

@[simp] theorem scan_nil : scan rules [] = [] := rfl

theorem scan_cons (h : Taken (word ++ rest) rules r)
    (hlength : r.length (word ++ rest) = word.length) :
    scan rules (word ++ rest) = (r.action word, word) :: scan rules rest := by
  have hpos := h.pos
  obtain ⟨n, hn⟩ : ∃ n, (word ++ rest).length = n + 1 := by
    refine ⟨(word ++ rest).length - 1, ?_⟩
    rw [List.length_append]
    omega
  have hrest : rest.length ≤ n := by
    rw [List.length_append] at hn
    omega
  unfold scan
  rw [hn, scanFor, longest_of_taken h]
  dsimp only
  rw [hlength, List.take_left, List.drop_left, scanFor_of_length_le hrest, scan]

def MatchesAll (rules : List (Rule B A)) : Prop :=
  ∀ b text, ∃ r ∈ rules, 0 < r.length (b :: text)

inductive Tokenizes (rules : List (Rule B A)) : List B → List (A × List B) → Prop where
  | nil : Tokenizes rules [] []
  | cons {r word rest matches'} (htaken : Taken (word ++ rest) rules r)
      (hlength : r.length (word ++ rest) = word.length) (h : Tokenizes rules rest matches') :
      Tokenizes rules (word ++ rest) ((r.action word, word) :: matches')

theorem tokenizes_scan (hcovers : MatchesAll rules) (text : List B) :
    Tokenizes rules text (scan rules text) := by
  obtain ⟨n, hn⟩ : ∃ n, text.length ≤ n := ⟨_, le_rfl⟩
  induction n generalizing text with
  | zero =>
    obtain rfl := List.length_eq_zero_iff.mp (Nat.le_zero.mp hn)
    exact .nil
  | succ n ih =>
    cases text with
    | nil => exact .nil
    | cons b text =>
      cases hlongest : longest (b :: text) rules with
      | none =>
        obtain ⟨r, hr, hpos⟩ := hcovers b text
        exact absurd (longest_none hlongest r hr) hpos.ne'
      | some r =>
        have htaken := taken_of_longest hlongest
        have hle := r.length_le (b :: text)
        have hpos := htaken.pos
        have hparts := List.take_append_drop (r.length (b :: text)) (b :: text)
        have hlength : r.length (b :: text) = ((b :: text).take (r.length (b :: text))).length := by
          rw [List.length_take]
          omega
        rw [← hparts] at htaken
        have hscan := scan_cons htaken (by rwa [hparts])
        have hrest := ih ((b :: text).drop (r.length (b :: text))) (by
          rw [List.length_drop]
          omega)
        have hscans := Tokenizes.cons htaken (by rwa [hparts]) hrest
        rwa [← hscan, hparts] at hscans

theorem Tokenizes.mem {found : List (A × List B)} (h : Tokenizes rules text found) {a : A}
    (hmem : (a, word) ∈ found) :
    ∃ r rest, Taken (word ++ rest) rules r ∧ r.length (word ++ rest) = word.length ∧
      a = r.action word := by
  induction h with
  | nil => cases hmem
  | @cons r _ rest _ htaken hlength h ih =>
    rcases List.mem_cons.mp hmem with heq | hmem
    · obtain ⟨rfl, rfl⟩ := Prod.mk.inj heq
      exact ⟨r, rest, htaken, hlength, rfl⟩
    · exact ih hmem

end LongestMatch
