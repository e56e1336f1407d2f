import Mathlib.Logic.Basic

namespace Exec

variable {σ ε α β : Type}

/-- The program ends without an error, in a result and a state of which `Q` holds. -/
def Returns (m : StateT σ (Except ε) α) (s : σ) (Q : α → σ → Prop) : Prop :=
  ∃ a s', m s = .ok (a, s') ∧ Q a s'

theorem Returns.mono {m : StateT σ (Except ε) α} {s : σ} {P Q : α → σ → Prop}
    (h : Returns m s P) (hPQ : ∀ a s', P a s' → Q a s') : Returns m s Q := by
  obtain ⟨a, s', hm, hP⟩ := h
  exact ⟨a, s', hm, hPQ a s' hP⟩

theorem returns_of_eq {m : StateT σ (Except ε) α} {s s' : σ} {a : α} {Q : α → σ → Prop}
    (h : m s = .ok (a, s')) : Returns m s Q ↔ Q a s' := by
  constructor
  · rintro ⟨b, t, hm, hQ⟩
    rw [h] at hm
    cases hm
    exact hQ
  · exact fun hQ => ⟨a, s', h, hQ⟩

/-- What a program returns can be found out by running it. -/
instance decidableReturns {m : StateT σ (Except ε) α} {s : σ} {Q : α → σ → Prop}
    [∀ a s', Decidable (Q a s')] : Decidable (Returns m s Q) :=
  match h : m s with
  | .ok (a, s') => decidable_of_iff (Q a s') (returns_of_eq h).symm
  | .error _ => .isFalse fun hr => by
    obtain ⟨a, s', hm, -⟩ := hr
    rw [h] at hm
    cases hm

@[simp] theorem returns_bind {m : StateT σ (Except ε) α} {f : α → StateT σ (Except ε) β} {s : σ}
    {Q : β → σ → Prop} :
    Returns (m >>= f) s Q ↔ Returns m s fun a s' => Returns (f a) s' Q := by
  constructor
  · rintro ⟨b, t, hm, hQ⟩
    change (m s >>= fun p => f p.1 p.2) = .ok (b, t) at hm
    cases hs : m s with
    | error e => rw [hs] at hm; cases hm
    | ok p => rw [hs] at hm; exact ⟨p.1, p.2, hs, b, t, hm, hQ⟩
  · rintro ⟨a, s', hm, b, t, hf, hQ⟩
    refine ⟨b, t, ?_, hQ⟩
    change (m s >>= fun p => f p.1 p.2) = .ok (b, t)
    rw [hm]
    exact hf

/-- The rule for a call: what is known of the called program, then the rest. -/
theorem Returns.bind {m : StateT σ (Except ε) α} {f : α → StateT σ (Except ε) β} {s : σ}
    {P : α → σ → Prop} {Q : β → σ → Prop} (h : Returns m s P)
    (hf : ∀ a s', P a s' → Returns (f a) s' Q) : Returns (m >>= f) s Q :=
  returns_bind.mpr (h.mono hf)

@[simp] theorem returns_pure {a : α} {s : σ} {Q : α → σ → Prop} :
    Returns (pure a : StateT σ (Except ε) α) s Q ↔ Q a s :=
  returns_of_eq rfl

@[simp] theorem returns_map {m : StateT σ (Except ε) α} {f : α → β} {s : σ}
    {Q : β → σ → Prop} : Returns (f <$> m) s Q ↔ Returns m s fun a s' => Q (f a) s' := by
  rw [← bind_pure_comp, returns_bind]
  simp

@[simp] theorem returns_get {s : σ} {Q : σ → σ → Prop} :
    Returns (get : StateT σ (Except ε) σ) s Q ↔ Q s s :=
  returns_of_eq rfl

@[simp] theorem returns_modify {f : σ → σ} {s : σ} {Q : PUnit → σ → Prop} :
    Returns (modify f : StateT σ (Except ε) PUnit) s Q ↔ Q ⟨⟩ (f s) :=
  returns_of_eq rfl

@[simp] theorem returns_ite {c : Prop} [Decidable c] {m n : StateT σ (Except ε) α} {s : σ}
    {Q : α → σ → Prop} :
    Returns (if c then m else n) s Q ↔ if c then Returns m s Q else Returns n s Q := by
  split <;> rfl

/-! ## Partial correctness -/

/-- If the program ends without an error, then in a result and a state of which `Q` holds. -/
def Ensures (m : StateT σ (Except ε) α) (s : σ) (Q : α → σ → Prop) : Prop :=
  ∀ a s', m s = .ok (a, s') → Q a s'

theorem Ensures.mono {m : StateT σ (Except ε) α} {s : σ} {P Q : α → σ → Prop}
    (h : Ensures m s P) (hPQ : ∀ a s', P a s' → Q a s') : Ensures m s Q :=
  fun a s' hm => hPQ a s' (h a s' hm)

theorem Returns.ensures {m : StateT σ (Except ε) α} {s : σ} {Q : α → σ → Prop}
    (h : Returns m s Q) : Ensures m s Q := by
  obtain ⟨a, s', hm, hQ⟩ := h
  intro b t hm'
  rw [hm] at hm'
  cases hm'
  exact hQ

theorem ensures_of_eq {m : StateT σ (Except ε) α} {s s' : σ} {a : α} {Q : α → σ → Prop}
    (h : m s = .ok (a, s')) : Ensures m s Q ↔ Q a s' :=
  ⟨fun hm => hm a s' h, fun hQ => ((returns_of_eq h).mpr hQ).ensures⟩

theorem ensures_of_error {m : StateT σ (Except ε) α} {s : σ} {e : ε} {Q : α → σ → Prop}
    (h : m s = .error e) : Ensures m s Q := by
  intro a s' hm
  rw [h] at hm
  cases hm

@[simp] theorem ensures_bind {m : StateT σ (Except ε) α} {f : α → StateT σ (Except ε) β} {s : σ}
    {Q : β → σ → Prop} :
    Ensures (m >>= f) s Q ↔ Ensures m s fun a s' => Ensures (f a) s' Q := by
  constructor
  · intro h a s' hm b t hf
    refine h b t ?_
    change (m s >>= fun p => f p.1 p.2) = .ok (b, t)
    rw [hm]
    exact hf
  · intro h b t hm
    change (m s >>= fun p => f p.1 p.2) = .ok (b, t) at hm
    cases hs : m s with
    | error e => rw [hs] at hm; cases hm
    | ok p => rw [hs] at hm; exact h p.1 p.2 hs b t hm

theorem Ensures.bind {m : StateT σ (Except ε) α} {f : α → StateT σ (Except ε) β} {s : σ}
    {P : α → σ → Prop} {Q : β → σ → Prop} (h : Ensures m s P)
    (hf : ∀ a s', P a s' → Ensures (f a) s' Q) : Ensures (m >>= f) s Q :=
  ensures_bind.mpr (h.mono hf)

@[simp] theorem ensures_pure {a : α} {s : σ} {Q : α → σ → Prop} :
    Ensures (pure a : StateT σ (Except ε) α) s Q ↔ Q a s :=
  ensures_of_eq rfl

@[simp] theorem ensures_get {s : σ} {Q : σ → σ → Prop} :
    Ensures (get : StateT σ (Except ε) σ) s Q ↔ Q s s :=
  ensures_of_eq rfl

theorem ensures_throw {e : ε} {s : σ} {Q : α → σ → Prop} :
    Ensures (throw e : StateT σ (Except ε) α) s Q :=
  ensures_of_error rfl

end Exec
