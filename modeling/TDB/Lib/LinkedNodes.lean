import Mathlib.Logic.Function.Basic
import Mathlib.Data.List.Nodup

namespace LinkedNodes

variable {α : Type}

structure Node (α : Type) where
  item : α
  prev : Option ℕ
  next : Option ℕ

abbrev Heap (α : Type) := ℕ → Option (Node α)

/-- The address of the first node of a list; `next` is the one behind it. -/
def firstOf (next : Option ℕ) : List (ℕ × α) → Option ℕ
  | [] => next
  | (p, _) :: _ => some p

/-- The address of the last node of a list; `prev` is the one in front of it. -/
def lastOf (prev : Option ℕ) : List (ℕ × α) → Option ℕ
  | [] => prev
  | (p, _) :: rest => lastOf (some p) rest

/-- The nodes stand in the heap with links that join them in this order, between the nodes `prev`
and `next`. -/
def Linked (h : Heap α) (next : Option ℕ) : Option ℕ → List (ℕ × α) → Prop
  | _, [] => True
  | prev, (p, a) :: rest => h p = some ⟨a, prev, firstOf next rest⟩ ∧ Linked h next (some p) rest

theorem lastOf_append (prev : Option ℕ) (l₁ l₂ : List (ℕ × α)) :
    lastOf prev (l₁ ++ l₂) = lastOf (lastOf prev l₁) l₂ := by
  induction l₁ generalizing prev with
  | nil => rfl
  | cons n rest ih => exact ih (some n.1)

theorem firstOf_append (next : Option ℕ) (l₁ l₂ : List (ℕ × α)) :
    firstOf next (l₁ ++ l₂) = firstOf (firstOf next l₂) l₁ := by
  cases l₁ <;> rfl

theorem linked_append {h : Heap α} {prev next : Option ℕ} {l₁ l₂ : List (ℕ × α)} :
    Linked h next prev (l₁ ++ l₂) ↔
      Linked h (firstOf next l₂) prev l₁ ∧ Linked h next (lastOf prev l₁) l₂ := by
  induction l₁ generalizing prev with
  | nil => exact (iff_of_eq (true_and _)).symm
  | cons n rest ih =>
    simp only [List.cons_append, Linked, lastOf]
    rw [ih, firstOf_append, and_assoc]

theorem Linked.exists_node {h : Heap α} {prev next : Option ℕ} {l : List (ℕ × α)}
    (hl : Linked h next prev l) {p : ℕ} {a : α} (hp : (p, a) ∈ l) :
    ∃ before behind, h p = some ⟨a, before, behind⟩ := by
  obtain ⟨l₁, l₂, rfl⟩ := List.append_of_mem hp
  exact ⟨_, _, (linked_append.mp hl).2.1⟩

theorem Linked.congr {h h' : Heap α} {prev next : Option ℕ} {l : List (ℕ × α)}
    (hl : Linked h next prev l) (heq : ∀ n ∈ l, h' n.1 = h n.1) : Linked h' next prev l := by
  induction l generalizing prev with
  | nil => trivial
  | cons n rest ih =>
    exact ⟨(heq n (List.mem_cons_self ..)).trans hl.1,
      ih hl.2 fun m hm => heq m (List.mem_cons_of_mem _ hm)⟩

/-- Joins a list with another node behind it, if it is not empty. -/
theorem Linked.setNext {h : Heap α} {prev next next' : Option ℕ} {l : List (ℕ × α)} {p : ℕ}
    {a : α} (hl : Linked h next prev (l ++ [(p, a)])) (hp : p ∉ l.map Prod.fst) :
    h p = some ⟨a, lastOf prev l, next⟩ ∧
      Linked (Function.update h p (some ⟨a, lastOf prev l, next'⟩)) next' prev (l ++ [(p, a)]) := by
  obtain ⟨hfront, hlast⟩ := linked_append.mp hl
  refine ⟨hlast.1, linked_append.mpr ⟨hfront.congr fun n hn => ?_, ?_, trivial⟩⟩
  · refine Function.update_of_ne ?_ ..
    rintro rfl
    exact hp (List.mem_map_of_mem hn)
  · exact Function.update_self ..

/-- Joins a list with another node in front of it, if it is not empty. -/
theorem Linked.setPrev {h : Heap α} {prev prev' next : Option ℕ} {l : List (ℕ × α)} {p : ℕ}
    {a : α} (hl : Linked h next prev ((p, a) :: l)) (hp : p ∉ l.map Prod.fst) :
    h p = some ⟨a, prev, firstOf next l⟩ ∧
      Linked (Function.update h p (some ⟨a, prev', firstOf next l⟩)) next prev' ((p, a) :: l) := by
  refine ⟨hl.1, Function.update_self .., hl.2.congr fun n hn => ?_⟩
  refine Function.update_of_ne ?_ ..
  rintro rfl
  exact hp (List.mem_map_of_mem hn)

theorem Linked.setItem {h : Heap α} {prev next : Option ℕ} {l₁ l₂ : List (ℕ × α)} {p : ℕ} {a a' : α}
    (hl : Linked h next prev (l₁ ++ (p, a) :: l₂)) (hp : p ∉ (l₁ ++ l₂).map Prod.fst) :
    Linked (Function.update h p (some ⟨a', lastOf prev l₁, firstOf next l₂⟩)) next prev
      (l₁ ++ (p, a') :: l₂) := by
  obtain ⟨hfront, -, hbehind⟩ := linked_append.mp hl
  have hother : ∀ n ∈ l₁ ++ l₂, n.1 ≠ p := by
    intro n hn heq
    rw [← heq] at hp
    exact hp (List.mem_map_of_mem hn)
  refine linked_append.mpr ⟨hfront.congr fun n hn => ?_, Function.update_self .., ?_⟩
  · exact Function.update_of_ne (hother n (List.mem_append_left _ hn)) ..
  · exact hbehind.congr fun n hn =>
      Function.update_of_ne (hother n (List.mem_append_right _ hn)) ..

end LinkedNodes
