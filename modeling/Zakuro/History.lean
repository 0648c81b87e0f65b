import Mathlib.Data.List.Induction

/-!
# Histories

Lists that something is added to at the end, and what holds of each entry with
regard to the entries before it.
-/

namespace History

variable {α : Type}

/-- Each entry is as `P` says it is behind the entries before it. -/
def Each (P : List α → α → Prop) (history : List α) : Prop :=
  ∀ before x after, history = before ++ x :: after → P before x

theorem snoc_cases {history before after : List α} {x y : α} (h : history ++ [y] = before ++ x :: after) :
    (before = history ∧ x = y ∧ after = []) ∨
      ∃ after', after = after' ++ [y] ∧ history = before ++ x :: after' := by
  induction after using List.reverseRecOn with
  | nil =>
    obtain ⟨rfl, hlast⟩ := List.append_inj' h rfl
    exact .inl ⟨rfl, (List.singleton_inj.mp hlast).symm, rfl⟩
  | append_singleton after z _ =>
    rw [← List.cons_append, ← List.append_assoc] at h
    obtain ⟨hinit, hlast⟩ := List.append_inj' h rfl
    exact .inr ⟨after, by rw [List.singleton_inj.mp hlast], hinit⟩

theorem Each.nil (P : List α → α → Prop) : Each P [] := by
  intro before x after h
  simp at h

theorem Each.snoc {P : List α → α → Prop} {history : List α} {y : α} (h : Each P history) (hy : P history y) :
    Each P (history ++ [y]) := by
  intro before x after heq
  rcases snoc_cases heq with ⟨rfl, rfl, -⟩ | ⟨after', -, heq⟩
  · exact hy
  · exact h before x after' heq

end History
