import Mathlib.Logic.Function.Basic
import Mathlib.Logic.Relation

namespace Threads

variable {ι C S : Type} [DecidableEq ι]

/-- Threads over a shared state, each with the calls that it has left to make. -/
structure Config (ι C S : Type) where
  shared : S
  pending : ι → List C

/-- One step of one thread.  `run i c s` makes the call `c`: the calls that it is continued by, and
the state it leaves.  A thread with nothing left begins a program that it may begin. -/
inductive Step (run : ι → C → S → List C × S) (may : ι → S → List C → Prop) :
    Config ι C S → Config ι C S → Prop where
  | begins (s : Config ι C S) (i : ι) (program : List C) (hidle : s.pending i = [])
      (hmay : may i s.shared program) :
      Step run may s ⟨s.shared, Function.update s.pending i program⟩
  | calls (s : Config ι C S) (i : ι) (c : C) (rest : List C) (hpending : s.pending i = c :: rest) :
      Step run may s ⟨(run i c s.shared).2,
        Function.update s.pending i ((run i c s.shared).1 ++ rest)⟩

/-- Any number of steps, in any order of the threads. -/
def Reaches (run : ι → C → S → List C × S) (may : ι → S → List C → Prop) :
    Config ι C S → Config ι C S → Prop :=
  Relation.ReflTransGen (Step run may)

/-- What holds of the shared state, and of each thread with what it has left to do. -/
structure Outline (inv : S → Prop) (holds : ι → List C → S → Prop) (s : Config ι C S) : Prop where
  inv : inv s.shared
  holds : ∀ i, holds i (s.pending i) s.shared

variable {run : ι → C → S → List C × S} {may : ι → S → List C → Prop}

/-- Each call keeps the invariant and the outline of its own thread, and does not interfere with
the outlines of the others. -/
structure Preserved (run : ι → C → S → List C × S) (may : ι → S → List C → Prop) (inv : S → Prop)
    (holds : ι → List C → S → Prop) : Prop where
  begins : ∀ i s program, inv s → holds i [] s → may i s program → holds i program s
  calls : ∀ i c rest s, inv s → holds i (c :: rest) s →
    inv (run i c s).2 ∧ holds i ((run i c s).1 ++ rest) (run i c s).2
  others : ∀ i c rest s, inv s → holds i (c :: rest) s → ∀ j ≠ i, ∀ left, holds j left s →
    holds j left (run i c s).2

/-- Such an outline holds in every order of the steps. -/
theorem Preserved.of_reaches {inv : S → Prop} {holds : ι → List C → S → Prop}
    (hpreserved : Preserved run may inv holds) {s s' : Config ι C S} (h : Outline inv holds s)
    (hreaches : Reaches run may s s') : Outline inv holds s' := by
  induction hreaches with
  | refl => exact h
  | tail _ hstep ih =>
    cases hstep with
    | begins i program hidle hmay =>
      constructor
      case inv => exact ih.inv
      case holds =>
        intro j
        by_cases hj : j = i
        · subst hj
          have hheld := ih.holds j
          rw [hidle] at hheld
          simpa using hpreserved.begins j _ program ih.inv hheld hmay
        · simpa [Function.update_of_ne hj] using ih.holds j
    | calls i c rest hpending =>
      have hheld := ih.holds i
      rw [hpending] at hheld
      have hcall := hpreserved.calls i c rest _ ih.inv hheld
      constructor
      case inv => exact hcall.1
      case holds =>
        intro j
        by_cases hj : j = i
        · subst hj
          simpa using hcall.2
        · have hleft := hpreserved.others i c rest _ ih.inv hheld j hj _ (ih.holds j)
          simpa [Function.update_of_ne hj] using hleft

omit [DecidableEq ι] in
/-- A second outline may rely on the first. -/
theorem Preserved.and {inv inv' : S → Prop} {holds holds' : ι → List C → S → Prop}
    (h : Preserved run may inv holds)
    (hbegins : ∀ i s program, inv s → inv' s → holds i [] s → holds' i [] s → may i s program →
      holds' i program s)
    (hcalls : ∀ i c rest s, inv s → inv' s → holds i (c :: rest) s → holds' i (c :: rest) s →
      inv' (run i c s).2 ∧ holds' i ((run i c s).1 ++ rest) (run i c s).2)
    (hothers : ∀ i c rest s, inv s → inv' s → holds i (c :: rest) s → holds' i (c :: rest) s →
      ∀ j ≠ i, ∀ left, holds j left s → holds' j left s → holds' j left (run i c s).2) :
    Preserved run may (fun s => inv s ∧ inv' s) fun i left s => holds i left s ∧ holds' i left s
    where
  begins i s program hinv hheld hmay :=
    ⟨h.begins i s program hinv.1 hheld.1 hmay,
      hbegins i s program hinv.1 hinv.2 hheld.1 hheld.2 hmay⟩
  calls i c rest s hinv hheld := by
    obtain ⟨hinv₁, hheld₁⟩ := h.calls i c rest s hinv.1 hheld.1
    obtain ⟨hinv₂, hheld₂⟩ := hcalls i c rest s hinv.1 hinv.2 hheld.1 hheld.2
    exact ⟨⟨hinv₁, hinv₂⟩, hheld₁, hheld₂⟩
  others i c rest s hinv hheld j hj left hleft :=
    ⟨h.others i c rest s hinv.1 hheld.1 j hj left hleft.1,
      hothers i c rest s hinv.1 hinv.2 hheld.1 hheld.2 j hj left hleft.1 hleft.2⟩

end Threads
