import Mathlib.Data.FinEnum
import Mathlib.Data.Fintype.Prod
import Zakuro.ShiftXor

/-!
# Xorshift

The generator behind the sandstorm pictures. What it puts out from some point
on, and what it put out before, is fixed by any four numbers that follow each
other, and every generator comes back to the state it was made with.
-/

/-- The members `x`, `y`, `z` and `w`, with the seed of the default constructor. -/
structure Xorshift where
  x : BitVec 32 := 123456789
  y : BitVec 32 := 362436069
  z : BitVec 32 := 521288629
  w : BitVec 32 := 88675123
  deriving DecidableEq, Repr

namespace Xorshift

/-- The number that `Get` makes of the oldest and the newest word. -/
def mix (x w : BitVec 32) : BitVec 32 :=
  let t := x ^^^ (x <<< 11)
  (w ^^^ (w >>> 19)) ^^^ (t ^^^ (t >>> 8))

/-- `Get` -/
def get (s : Xorshift) : BitVec 32 × Xorshift :=
  let w := mix s.x s.w
  (w, { x := s.y, y := s.z, z := s.w, w := w })

/-- The generator after a call of `Get`. -/
def next (s : Xorshift) : Xorshift := s.get.2

/-- What the calls of `Get` return, one after the other. -/
def output (s : Xorshift) (k : Nat) : BitVec 32 := (next^[k] s).get.1

/-- The state from which nothing but zero comes. -/
def zero : Xorshift := ⟨0, 0, 0, 0⟩

theorem mix_eq (x w : BitVec 32) :
    mix x w = ShiftXor.right 19 w ^^^ ShiftXor.right 8 (ShiftXor.left 11 x) := rfl

theorem mix_injective (w : BitVec 32) : Function.Injective fun x => mix x w := by
  intro x y hxy
  have hright : ShiftXor.right 8 (ShiftXor.left 11 x) = ShiftXor.right 8 (ShiftXor.left 11 y) := by
    simpa only [mix_eq, BitVec.xor_right_inj] using hxy
  exact ShiftXor.left_injective (by omega) (ShiftXor.right_injective (by omega) hright)

/-- No two states have the same successor. -/
theorem next_injective : Function.Injective next := by
  rintro ⟨x, y, z, w⟩ ⟨x', y', z', w'⟩ h
  simp only [next, get, mk.injEq] at h
  obtain ⟨rfl, rfl, rfl, hmix⟩ := h
  rw [mix_injective w hmix]

theorem next_zero : next zero = zero := by decide

theorem next_ne_zero {s : Xorshift} (h : s ≠ zero) : s.next ≠ zero := by
  intro hzero
  exact h (next_injective (hzero.trans next_zero.symm))

/-! ## The words of a state -/

theorem output_zero (s : Xorshift) : s.output 0 = s.next.w := rfl

theorem output_add (s : Xorshift) (m k : Nat) : s.output (m + k) = (next^[m] s).output k := by
  rw [output, output, Nat.add_comm, Function.iterate_add_apply]

/-- Four numbers later, a state consists of these numbers. -/
theorem state_of_outputs (s : Xorshift) :
    next^[4] s = ⟨s.output 0, s.output 1, s.output 2, s.output 3⟩ := rfl

theorem iterate_of_outputs (s : Xorshift) (m : Nat) :
    next^[m + 4] s = ⟨s.output m, s.output (m + 1), s.output (m + 2), s.output (m + 3)⟩ := by
  rw [Nat.add_comm, Function.iterate_add_apply, state_of_outputs]
  simp only [← output_add, Nat.add_zero]

theorem iterate_ne_zero {s : Xorshift} (h : s ≠ zero) (m : Nat) : next^[m] s ≠ zero := by
  induction m with
  | zero => exact h
  | succ m ih =>
    rw [Function.iterate_succ_apply']
    exact next_ne_zero ih

/-! ## Coming back -/

/-- A state as the four words that it is. -/
def words : Xorshift ≃ (BitVec 32 × BitVec 32) × (BitVec 32 × BitVec 32) where
  toFun s := ((s.x, s.y), (s.z, s.w))
  invFun p := ⟨p.1.1, p.1.2, p.2.1, p.2.2⟩
  left_inv _ := rfl
  right_inv _ := rfl

instance : Fintype Xorshift := Fintype.ofEquiv _ words.symm

theorem card_states : Fintype.card Xorshift = 2 ^ 128 := by
  have hword : Fintype.card (BitVec 32) = 2 ^ 32 := FinEnum.card_eq_fintypeCard.symm
  rw [Fintype.card_congr words, Fintype.card_prod, Fintype.card_prod, hword]
  simp only [← Nat.pow_add]

theorem exists_nonzero : ∃ S : Finset Xorshift, (∀ s, s ∈ S ↔ s ≠ zero) ∧ S.card = 2 ^ 128 - 1 := by
  refine ⟨Finset.univ.erase zero, fun s => by simp, ?_⟩
  rw [Finset.card_erase_of_mem (Finset.mem_univ zero), Finset.card_univ, card_states]

/-- Every generator comes back to its seed. -/
theorem exists_period (s : Xorshift) : ∃ p, 0 < p ∧ p < 2 ^ 128 ∧ next^[p] s = s := by
  by_cases h : s = zero
  · exact ⟨1, Nat.one_pos, Nat.one_lt_two_pow (by omega), h ▸ next_zero⟩
  · obtain ⟨S, hmem, hcard⟩ := exists_nonzero
    obtain ⟨p, hp, hle, hback⟩ := ShiftXor.exists_period next_injective S
      (fun s hs => (hmem _).mpr (next_ne_zero ((hmem s).mp hs))) ((hmem s).mpr h)
    rw [hcard] at hle
    exact ⟨p, hp, Nat.lt_of_le_pred (Nat.two_pow_pos 128) hle, hback⟩

theorem zero_iterate (m : Nat) : next^[m] zero = zero := by
  induction m with
  | zero => rfl
  | succ m ih => rw [Function.iterate_succ_apply, next_zero, ih]

/-- From every seed the numbers repeat, with a period below 2^128. From every
seed but one, no four of them in a row are zero. -/
theorem outputs_recur (s : Xorshift) :
    (∃ p, 0 < p ∧ p < 2 ^ 128 ∧ ∀ k, s.output (k + p) = s.output k) ∧
      (s ≠ zero ↔ ∀ k, ∃ j < 4, s.output (k + j) ≠ 0) := by
  constructor
  · obtain ⟨p, hp, hlt, hback⟩ := exists_period s
    refine ⟨p, hp, hlt, fun k => ?_⟩
    rw [Nat.add_comm, output_add, hback]
  · constructor
    · intro h k
      by_contra hnone
      have hall : ∀ j < 4, s.output (k + j) = 0 := fun j hj => by_contra fun hne => hnone ⟨j, hj, hne⟩
      apply iterate_ne_zero h (k + 4)
      rw [iterate_of_outputs, zero, mk.injEq]
      exact ⟨hall 0 (by omega), hall 1 (by omega), hall 2 (by omega), hall 3 (by omega)⟩
    · rintro h rfl
      obtain ⟨j, -, hj⟩ := h 0
      apply hj
      rw [output, zero_iterate]
      rfl

/-! ## Four numbers -/

/-- Four numbers in a row are the state of the generator, so that they fix all
that it puts out after them, all that it has put out before them, and, where it
is known how many these are, the seed. -/
theorem outputs_determined {s t : Xorshift} {a b : Nat}
    (h : ∀ j < 4, s.output (a + j) = t.output (b + j)) :
    (∀ k, s.output (a + k) = t.output (b + k)) ∧
      (∀ k, k ≤ a → k ≤ b → s.output (a - k) = t.output (b - k)) ∧ (a = b → s = t) := by
  have hstate : next^[a + 4] s = next^[b + 4] t := by
    rw [iterate_of_outputs, iterate_of_outputs, mk.injEq]
    exact ⟨h 0 (by omega), h 1 (by omega), h 2 (by omega), h 3 (by omega)⟩
  have hwindow : ∀ k, k ≤ a → k ≤ b → next^[a - k] s = next^[b - k] t := by
    intro k ha hb
    apply next_injective.iterate (k + 4)
    rw [← Function.iterate_add_apply, ← Function.iterate_add_apply]
    have hs : k + 4 + (a - k) = a + 4 := by omega
    have ht : k + 4 + (b - k) = b + 4 := by omega
    rw [hs, ht, hstate]
  refine ⟨fun k => ?_, fun k ha hb => ?_, ?_⟩
  · have hnow := hwindow 0 (Nat.zero_le a) (Nat.zero_le b)
    rw [output_add, output_add]
    exact congrArg (fun r => output r k) hnow
  · exact congrArg (fun r => (get r).1) (hwindow k ha hb)
  · rintro rfl
    simpa using hwindow a (Nat.le_refl a) (Nat.le_refl a)

/-- A generator and the same one a call later. -/
theorem outputs_determined_next :
    (∀ k, ({} : Xorshift).output (1 + k) = ({} : Xorshift).next.output (0 + k)) ∧
      (∀ k, k ≤ 1 → k ≤ 0 → ({} : Xorshift).output (1 - k) = ({} : Xorshift).next.output (0 - k)) ∧
      (1 = 0 → ({} : Xorshift) = ({} : Xorshift).next) :=
  outputs_determined (by decide)

end Xorshift
