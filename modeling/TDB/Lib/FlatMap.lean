import Mathlib.Data.List.Basic
import Mathlib.Data.List.Nodup

namespace ListLevels

variable {α β : Type}

/-- An element of a concatenation stands in one of the parts. -/
theorem flatMap_eq_append_cons {f : α → List β} {b : β} : ∀ {l : List α} {front back : List β},
    l.flatMap f = front ++ b :: back →
    ∃ pre y post a c, l = pre ++ y :: post ∧ f y = a ++ b :: c ∧
      front = pre.flatMap f ++ a ∧ back = c ++ post.flatMap f
  | [], front, back, h => by simp at h
  | x :: l, front, back, h => by
    rw [List.flatMap_cons] at h
    rcases List.append_eq_append_iff.mp h with ⟨a, rfl, hl⟩ | ⟨c, hx, hb⟩
    · obtain ⟨pre, y, post, a', c, rfl, hy, hf, hb⟩ := flatMap_eq_append_cons hl
      exact ⟨x :: pre, y, post, a', c, rfl, hy, by simp [hf], hb⟩
    · cases c with
      | nil =>
        obtain ⟨pre, y, post, a', c, rfl, hy, hf, hb⟩ :=
          flatMap_eq_append_cons (show _ = [] ++ _ by simpa using hb.symm)
        exact ⟨x :: pre, y, post, a', c, rfl, hy, by simpa [hx] using hf, hb⟩
      | cons b' c =>
        obtain ⟨rfl, rfl⟩ := List.cons.inj hb
        exact ⟨[], x, l, front, c, rfl, hx, by simp, rfl⟩

theorem map_eq_append_cons {f : α → β} {l : List α} {front back : List β} {b : β}
    (h : l.map f = front ++ b :: back) :
    ∃ pre y post, l = pre ++ y :: post ∧ pre.map f = front ∧ f y = b ∧ post.map f = back := by
  obtain ⟨pre, rest, rfl, hpre, hrest⟩ := List.map_eq_append_iff.mp h
  obtain ⟨y, post, rfl, hy, hpost⟩ := List.map_eq_cons_iff.mp hrest
  exact ⟨pre, y, post, rfl, hpre, hy, hpost⟩

end ListLevels
