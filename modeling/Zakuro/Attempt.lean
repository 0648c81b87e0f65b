import Mathlib.Data.List.Basic

/-!
# Attempts

A computation that gives a value, refuses what it is given, or throws. The steps
of one run one after the other up to the first that gives no value, so whether
it throws depends on a step only where all steps before it succeed.
-/

inductive Attempt (α : Type) where
  | value (a : α)
  | refused
  | thrown
  deriving DecidableEq, Repr

namespace Attempt

variable {α β : Type}

def bind (x : Attempt α) (f : α → Attempt β) : Attempt β :=
  match x with
  | value a => f a
  | refused => refused
  | thrown => thrown

instance : Monad Attempt where
  pure := value
  bind := bind

theorem pure_eq (a : α) : (pure a : Attempt α) = value a := rfl

theorem bind_eq_value {x : Attempt α} {f : α → Attempt β} {b : β} :
    x >>= f = value b ↔ ∃ a, x = value a ∧ f a = value b := by
  cases x with
  | value a =>
    constructor
    · exact fun h => ⟨a, rfl, h⟩
    · rintro ⟨a', ha, h⟩
      rwa [value.inj ha]
  | refused => exact ⟨(nomatch ·), fun ⟨_, h, _⟩ => nomatch h⟩
  | thrown => exact ⟨(nomatch ·), fun ⟨_, h, _⟩ => nomatch h⟩

/-- A step throws, or lets the next one throw. -/
theorem bind_ne_thrown {x : Attempt α} {f : α → Attempt β} :
    x >>= f ≠ thrown ↔ x ≠ thrown ∧ ∀ a, x = value a → f a ≠ thrown := by
  cases x with
  | value a =>
    constructor
    · intro h
      refine ⟨(nomatch ·), fun a' ha => ?_⟩
      rwa [← value.inj ha]
    · exact fun h => h.2 a rfl
  | refused => exact ⟨fun _ => ⟨(nomatch ·), fun _ h => nomatch h⟩, fun _ => (nomatch ·)⟩
  | thrown => exact ⟨fun h => absurd rfl h, fun h => absurd rfl h.1⟩

/-! ## Steps in order -/

/-- Each first condition holds where the second conditions before it do. -/
def InOrder : List (Prop × Prop) → Prop
  | [] => True
  | (converts, accepts) :: steps => converts ∧ (accepts → InOrder steps)

/-- All second conditions hold. -/
def Accepted (steps : List (Prop × Prop)) : Prop := ∀ step ∈ steps, step.2

/-- A step that has the two conditions of its own, and steps behind it whose
conditions do not depend on its value. -/
theorem bind_inOrder {x : Attempt α} {f : α → Attempt β} {converts accepts : Prop}
    {steps : List (Prop × Prop)} (hconverts : x ≠ thrown ↔ converts)
    (haccepts : (∃ a, x = value a) ↔ accepts) (hsteps : ∀ a, f a ≠ thrown ↔ InOrder steps) :
    x >>= f ≠ thrown ↔ InOrder ((converts, accepts) :: steps) := by
  rw [bind_ne_thrown, hconverts, InOrder, ← haccepts]
  constructor
  · rintro ⟨hc, hf⟩
    exact ⟨hc, fun ⟨a, ha⟩ => (hsteps a).mp (hf a ha)⟩
  · rintro ⟨hc, hf⟩
    exact ⟨hc, fun a ha => (hsteps a).mpr (hf ⟨a, ha⟩)⟩

theorem bind_accepted {x : Attempt α} {f : α → Attempt β} {converts accepts : Prop}
    {steps : List (Prop × Prop)} (haccepts : (∃ a, x = value a) ↔ accepts)
    (hsteps : ∀ a, (∃ b, f a = value b) ↔ Accepted steps) :
    (∃ b, x >>= f = value b) ↔ Accepted ((converts, accepts) :: steps) := by
  rw [Accepted, List.forall_mem_cons, ← haccepts]
  constructor
  · rintro ⟨b, hb⟩
    obtain ⟨a, ha, hf⟩ := bind_eq_value.mp hb
    exact ⟨⟨a, ha⟩, (hsteps a).mp ⟨b, hf⟩⟩
  · rintro ⟨⟨a, ha⟩, hrest⟩
    obtain ⟨b, hf⟩ := (hsteps a).mpr hrest
    exact ⟨b, bind_eq_value.mpr ⟨a, ha, hf⟩⟩

end Attempt
