import Mathlib.Data.List.Basic

/-- When a computation succeeds, and when it ends in an error of a certain kind. -/
structure Outcome {ε α : Type} (bad : ε → Prop) (r : Except ε α) (ok fails : Prop) : Prop where
  ok_iff : (∃ a, r = .ok a) ↔ ok
  fails_iff : (∃ e, r = .error e ∧ bad e) ↔ fails

namespace Outcome

variable {ε α β : Type} {bad : ε → Prop} {r : Except ε α} {ok ok' fails fails' : Prop}

/-- Some element fails, and all before it are passed. -/
def FirstFails (ok fails : α → Prop) : List α → Prop
  | [] => False
  | x :: xs => fails x ∨ ok x ∧ FirstFails ok fails xs

theorem success (a : α) : Outcome bad (.ok a : Except ε α) True False :=
  ⟨iff_true_intro ⟨a, rfl⟩, iff_false_intro fun ⟨_, h, _⟩ => (by cases h)⟩

theorem failure {e : ε} (he : bad e) : Outcome bad (.error e : Except ε α) False True :=
  ⟨iff_false_intro fun ⟨_, h⟩ => (by cases h), iff_true_intro ⟨e, rfl, he⟩⟩

theorem refusal {e : ε} (he : ¬bad e) : Outcome bad (.error e : Except ε α) False False := by
  refine ⟨iff_false_intro fun ⟨_, h⟩ => (by cases h), iff_false_intro ?_⟩
  rintro ⟨e', h, he'⟩
  obtain rfl := Except.error.inj h
  exact he he'

theorem congr (h : Outcome bad r ok fails) (hok : ok ↔ ok') (hfails : fails ↔ fails') :
    Outcome bad r ok' fails' :=
  ⟨h.ok_iff.trans hok, h.fails_iff.trans hfails⟩

theorem not_fails (h : Outcome bad r ok False) {e : ε} (he : r = .error e) : ¬bad e :=
  fun hbad => h.fails_iff.mp ⟨e, he, hbad⟩

/-- The second computation runs if the first one succeeds. -/
theorem bind {f : α → Except ε β} (h : Outcome bad r ok fails)
    (hf : ∀ a, r = .ok a → Outcome bad (f a) ok' fails') :
    Outcome bad (r >>= f) (ok ∧ ok') (fails ∨ ok ∧ fails') := by
  cases r with
  | error e =>
    have hno : ¬ok := fun hok => by
      obtain ⟨a, ha⟩ := h.ok_iff.mpr hok
      cases ha
    refine ⟨iff_of_false (fun ⟨_, ha⟩ => by cases ha) fun hok => hno hok.1, ?_⟩
    rw [← h.fails_iff]
    constructor
    · rintro ⟨e', he', hbad⟩
      obtain rfl := Except.error.inj he'
      exact .inl ⟨e, rfl, hbad⟩
    · rintro (⟨e', he', hbad⟩ | ⟨hok, -⟩)
      · obtain rfl := Except.error.inj he'
        exact ⟨e, rfl, hbad⟩
      · exact absurd hok hno
  | ok a =>
    have hok : ok := h.ok_iff.mp ⟨a, rfl⟩
    have hnot : ¬fails := fun hfails => by
      obtain ⟨e, he, -⟩ := h.fails_iff.mpr hfails
      cases he
    exact (hf a rfl).congr ⟨fun h' => ⟨hok, h'⟩, fun h' => h'.2⟩
      ⟨fun h' => .inr ⟨hok, h'⟩, fun h' => (h'.resolve_left hnot).2⟩

/-- A last step that always succeeds. -/
theorem bind_success {f : α → Except ε β} (h : Outcome bad r ok fails)
    (hf : ∀ a, r = .ok a → ∃ b, f a = .ok b) : Outcome bad (r >>= f) ok fails := by
  refine (h.bind fun a ha => ?_).congr (and_iff_left trivial)
    ⟨fun h' => h'.resolve_right And.right, .inl⟩
  obtain ⟨b, hb⟩ := hf a ha
  rw [hb]
  exact success b

/-- A loop over a list stops at the first element that does not succeed. -/
theorem mapM {f : α → Except ε β} {ok fails : α → Prop} {xs : List α}
    (h : ∀ x ∈ xs, Outcome bad (f x) (ok x) (fails x)) :
    Outcome bad (xs.mapM f) (∀ x ∈ xs, ok x) (FirstFails ok fails xs) := by
  induction xs with
  | nil => exact (success []).congr (by simp) (by simp [FirstFails])
  | cons x xs ih =>
    rw [List.mapM_cons]
    have hrest := ih fun y hy => h y (List.mem_cons_of_mem _ hy)
    have hstep := (h x List.mem_cons_self).bind fun b _ =>
      hrest.bind_success fun bs _ => ⟨b :: bs, rfl⟩
    exact hstep.congr (by rw [List.forall_mem_cons]) Iff.rfl

/-! ## Computations that do not fail -/

/-- There is no error of the kind, and the results have a property. -/
structure Gives (bad : ε → Prop) (r : Except ε α) (P : α → Prop) : Prop where
  errors : ∀ e, r = .error e → ¬bad e
  results : ∀ a, r = .ok a → P a

namespace Gives

variable {P : α → Prop} {Q : β → Prop}

theorem success {a : α} (h : P a) : Gives bad (.ok a : Except ε α) P := by
  refine ⟨fun e he => (by cases he), fun b hb => ?_⟩
  obtain rfl := Except.ok.inj hb
  exact h

theorem refusal {e : ε} (he : ¬bad e) : Gives bad (.error e : Except ε α) P := by
  refine ⟨fun e' he' => ?_, fun b hb => by cases hb⟩
  obtain rfl := Except.error.inj he'
  exact he

theorem bind {f : α → Except ε β} (h : Gives bad r P) (hf : ∀ a, P a → Gives bad (f a) Q) :
    Gives bad (r >>= f) Q := by
  cases r with
  | error e => exact refusal (h.errors e rfl)
  | ok a => exact hf a (h.results a rfl)

theorem mapM {f : α → Except ε β} {xs : List α} (h : ∀ x ∈ xs, Gives bad (f x) Q) :
    Gives bad (xs.mapM f) (fun ys => ∀ y ∈ ys, Q y) := by
  induction xs with
  | nil => exact success fun y hy => absurd hy List.not_mem_nil
  | cons x xs ih =>
    rw [List.mapM_cons]
    refine (h x List.mem_cons_self).bind fun y hy => ?_
    refine (ih fun z hz => h z (List.mem_cons_of_mem _ hz)).bind fun ys hys => ?_
    exact success (List.forall_mem_cons.mpr ⟨hy, hys⟩)

theorem outcome (h : Gives bad r P) : Outcome bad r (∃ a, r = .ok a) False :=
  ⟨Iff.rfl, iff_false_intro fun ⟨e, he, hbad⟩ => h.errors e he hbad⟩

end Gives

/-! ## Lists of steps -/

theorem firstFails_congr {ok ok' fails fails' : α → Prop} {xs : List α}
    (hok : ∀ x ∈ xs, ok x ↔ ok' x) (hfails : ∀ x ∈ xs, fails x ↔ fails' x) :
    FirstFails ok fails xs ↔ FirstFails ok' fails' xs := by
  induction xs with
  | nil => exact Iff.rfl
  | cons x xs ih =>
    have hrest := ih (fun y hy => hok y (List.mem_cons_of_mem _ hy))
      fun y hy => hfails y (List.mem_cons_of_mem _ hy)
    rw [FirstFails, FirstFails, hok x List.mem_cons_self, hfails x List.mem_cons_self, hrest]

theorem not_firstFails_false {ok : α → Prop} (xs : List α) :
    ¬FirstFails ok (fun _ => False) xs := by
  induction xs with
  | nil => exact id
  | cons x xs ih => rintro (h | ⟨-, h⟩) <;> [exact h; exact ih h]

theorem firstFails_not {ok : α → Prop} {xs : List α} :
    FirstFails ok (fun x => ¬ok x) xs ↔ ¬∀ x ∈ xs, ok x := by
  induction xs with
  | nil => simp [FirstFails]
  | cons x xs ih =>
    rw [FirstFails, ih, List.forall_mem_cons]
    tauto

theorem firstFails_append {ok fails : α → Prop} {xs ys : List α} :
    FirstFails ok fails (xs ++ ys) ↔
      FirstFails ok fails xs ∨ (∀ x ∈ xs, ok x) ∧ FirstFails ok fails ys := by
  induction xs with
  | nil => simp [FirstFails]
  | cons x xs ih =>
    rw [List.cons_append, FirstFails, FirstFails, ih, List.forall_mem_cons]
    tauto

theorem firstFails_flatMap {ok fails : β → Prop} {steps : α → List β} {xs : List α} :
    FirstFails ok fails (xs.flatMap steps) ↔
      FirstFails (fun x => ∀ b ∈ steps x, ok b) (fun x => FirstFails ok fails (steps x)) xs := by
  induction xs with
  | nil => exact Iff.rfl
  | cons x xs ih => rw [List.flatMap_cons, firstFails_append, FirstFails, ih]

end Outcome
