import Mathlib.Data.Finset.Card
import Mathlib.Logic.Function.Iterate
import Mathlib.Algebra.Group.Nat.Defs

/-!
# Shift and exclusive or

Words that are combined with their own shifts. Doing so twice is doing it once
with twice the distance, so that after enough doublings nothing is left of the
shift: these maps have iterates of themselves as inverses. They are linear, and
a map that is one-to-one on finitely many points brings each of them back.
-/

namespace ShiftXor

variable {n : Nat}

def left (k : Nat) (x : BitVec n) : BitVec n := x ^^^ (x <<< k)

def right (k : Nat) (x : BitVec n) : BitVec n := x ^^^ (x >>> k)

theorem xor_twice (x a b : BitVec n) : x ^^^ a ^^^ (a ^^^ b) = x ^^^ b := by
  calc x ^^^ a ^^^ (a ^^^ b) = x ^^^ (a ^^^ a) ^^^ b := by simp only [BitVec.xor_assoc]
    _ = x ^^^ b := by rw [BitVec.xor_self, BitVec.xor_zero]

theorem left_left (k : Nat) (x : BitVec n) : left k (left k x) = left (k + k) x := by
  rw [left, left, left, BitVec.shiftLeft_xor_distrib, ← BitVec.shiftLeft_add, xor_twice]

theorem right_right (k : Nat) (x : BitVec n) : right k (right k x) = right (k + k) x := by
  rw [right, right, right, BitVec.ushiftRight_xor_distrib, ← BitVec.shiftRight_add, xor_twice]

/-- A shift by the width or more leaves nothing to combine with. -/
theorem left_of_le {k : Nat} (h : n ≤ k) (x : BitVec n) : left k x = x := by
  rw [left, BitVec.shiftLeft_eq_zero h, BitVec.xor_zero]

theorem right_of_le {k : Nat} (h : n ≤ k) (x : BitVec n) : right k x = x := by
  rw [right, BitVec.ushiftRight_eq_zero h, BitVec.xor_zero]

/-- A map whose square is the next map of a family, down to the identity, is
undone by iterating it. -/
theorem iterate_two_pow {α : Type} (f : Nat → α → α) (hf : ∀ k x, f k (f k x) = f (k + k) x) (j k : Nat)
    (x : α) : (f k)^[2 ^ j] x = f (k * 2 ^ j) x := by
  induction j generalizing x with
  | zero => simp
  | succ j ih =>
    rw [Nat.pow_succ, Nat.mul_two, Function.iterate_add_apply, ih, ih, hf, Nat.mul_add]

theorem le_mul_two_pow {k : Nat} (hk : 0 < k) (n : Nat) : n ≤ k * 2 ^ n :=
  Nat.le_trans (Nat.le_of_lt Nat.lt_two_pow_self) (Nat.le_mul_of_pos_left _ hk)

theorem left_iterate {k : Nat} (hk : 0 < k) (x : BitVec n) : (left k)^[2 ^ n] x = x := by
  rw [iterate_two_pow left left_left]
  exact left_of_le (le_mul_two_pow hk n) x

theorem right_iterate {k : Nat} (hk : 0 < k) (x : BitVec n) : (right k)^[2 ^ n] x = x := by
  rw [iterate_two_pow right right_right]
  exact right_of_le (le_mul_two_pow hk n) x

/-- A map that comes back to every point is one-to-one. -/
theorem injective_of_iterate {α : Type} {f : α → α} {m : Nat} (hm : 0 < m) (hf : ∀ x, f^[m] x = x) :
    Function.Injective f := by
  intro x y hxy
  obtain ⟨m, rfl⟩ := Nat.exists_eq_succ_of_ne_zero (Nat.ne_of_gt hm)
  have hx := hf x
  have hy := hf y
  rw [Function.iterate_succ_apply] at hx hy
  rw [← hx, ← hy, hxy]

theorem left_injective {k : Nat} (hk : 0 < k) : Function.Injective (left k : BitVec n → BitVec n) :=
  injective_of_iterate (Nat.two_pow_pos n) (left_iterate hk)

theorem right_injective {k : Nat} (hk : 0 < k) : Function.Injective (right k : BitVec n → BitVec n) :=
  injective_of_iterate (Nat.two_pow_pos n) (right_iterate hk)

@[simp] theorem left_zero (k : Nat) : left k (0#n) = 0#n := by simp [left]

@[simp] theorem right_zero (k : Nat) : right k (0#n) = 0#n := by simp [right]

/-- A one-to-one map brings each point of a finite set that it maps into itself
back, in no more steps than the set has points. -/
theorem exists_period {α : Type} {f : α → α} (hf : Function.Injective f) (S : Finset α)
    (hS : ∀ x ∈ S, f x ∈ S) {x : α} (hx : x ∈ S) : ∃ p, 0 < p ∧ p ≤ S.card ∧ f^[p] x = x := by
  have hmaps : ∀ m, f^[m] x ∈ S := by
    intro m
    induction m with
    | zero => exact hx
    | succ m ih => exact Function.iterate_succ_apply' f m x ▸ hS _ ih
  obtain ⟨a, ha, b, hb, hne, hab⟩ := Finset.exists_ne_map_eq_of_card_lt_of_maps_to
    (s := Finset.range (S.card + 1)) (t := S) (f := fun m => f^[m] x) (by simp) (fun m _ => hmaps m)
  have hback : ∀ a b, a < b → b < S.card + 1 → f^[a] x = f^[b] x →
      ∃ p, 0 < p ∧ p ≤ S.card ∧ f^[p] x = x := by
    intro a b hlt hb hab
    refine ⟨b - a, by omega, by omega, ?_⟩
    apply hf.iterate a
    rw [← Function.iterate_add_apply, Nat.add_sub_of_le (Nat.le_of_lt hlt)]
    exact hab.symm
  rw [Finset.mem_range] at ha hb
  rcases Nat.lt_or_gt_of_ne hne with hlt | hlt
  · exact hback a b hlt hb hab
  · exact hback b a hlt ha hab.symm

end ShiftXor
