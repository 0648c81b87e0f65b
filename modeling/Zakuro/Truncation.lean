import Mathlib.Algebra.BigOperators.Group.List.Basic
import Mathlib.Algebra.GroupWithZero.Nat
import Mathlib.Data.List.Infix

/-!
# Sums of parts that are rounded down

A length that is measured in parts, each rounded down to whole units: the units
counted, what the parts have left over, and how far the count stays behind that
of the whole length.
-/

namespace Truncation

/-- The whole units of each part. -/
def units (d : Nat) (xs : List Nat) : Nat := (xs.map (· / d)).sum

/-- What the parts have left over. -/
def rest (d : Nat) (xs : List Nat) : Nat := (xs.map (· % d)).sum

theorem sum_eq (d : Nat) (xs : List Nat) : xs.sum = d * units d xs + rest d xs := by
  induction xs with
  | nil => rfl
  | cons x xs ih =>
    have hx := Nat.div_add_mod x d
    simp only [units, rest, List.map_cons, List.sum_cons] at ih ⊢
    rw [ih, Nat.mul_add]
    omega

/-- The count stays behind by the units that the parts have left over together. -/
theorem sum_div {d : Nat} (hd : 0 < d) (xs : List Nat) :
    xs.sum / d = units d xs + rest d xs / d := by
  rw [sum_eq d xs, Nat.mul_add_div hd]

theorem rest_mono (d : Nat) {xs ys : List Nat} (h : xs <+: ys) : rest d xs ≤ rest d ys := by
  obtain ⟨zs, rfl⟩ := h
  rw [rest, rest, List.map_append, List.sum_append]
  exact Nat.le_add_right _ _

/-- Counts between `b` for each whole unit and `b / d` of each part have sums between
the same bounds. -/
theorem sum_map_bounds {d b : Nat} {f : Nat → Nat} (hlow : ∀ x, b * (x / d) ≤ f x)
    (hhigh : ∀ x, d * f x ≤ b * x) (xs : List Nat) :
    b * units d xs ≤ (xs.map f).sum ∧ d * (xs.map f).sum ≤ b * xs.sum := by
  induction xs with
  | nil => exact ⟨Nat.le_refl _, Nat.le_refl _⟩
  | cons x xs ih =>
    obtain ⟨ihlow, ihhigh⟩ := ih
    have hlow := hlow x
    have hhigh := hhigh x
    simp only [units, List.map_cons, List.sum_cons, Nat.mul_add] at ihlow ⊢
    omega

end Truncation
