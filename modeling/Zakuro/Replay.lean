import Mathlib.Data.List.Induction

/-!
# Traces that a step function accepts

A protocol is a partial step function. A trace is accepted when every act of it
is allowed where it happens, and what holds of accepted traces is shown by
induction on the trace from its end.
-/

namespace Replay

variable {σ α : Type} {step : σ → α → Option σ} {start : σ}

def replay (step : σ → α → Option σ) (start : σ) (acts : List α) : Option σ :=
  acts.foldlM step start

theorem replay_snoc (acts : List α) (a : α) :
    replay step start (acts ++ [a]) = (replay step start acts).bind fun s => step s a := by
  simp [replay, List.foldlM_append]

/-- Induction on an accepted trace from its end. -/
theorem replay_induction {motive : List α → σ → Prop} (nil : motive [] start)
    (snoc : ∀ acts s a t, replay step start acts = some s → motive acts s → step s a = some t →
      motive (acts ++ [a]) t)
    {acts : List α} {s : σ} (h : replay step start acts = some s) : motive acts s := by
  induction acts using List.reverseRecOn generalizing s with
  | nil =>
    obtain rfl : start = s := by simpa [replay] using h
    exact nil
  | append_singleton acts a ih =>
    rw [replay_snoc] at h
    obtain ⟨t, ht, hs⟩ := Option.bind_eq_some_iff.mp h
    exact snoc acts t a s ht (ih ht) hs

/-- Every beginning of an accepted trace is accepted. -/
theorem replay_beginning {acts rest : List α} {s : σ}
    (h : replay step start (acts ++ rest) = some s) : ∃ t, replay step start acts = some t := by
  rw [replay, List.foldlM_append] at h
  obtain ⟨t, ht, _⟩ := Option.bind_eq_some_iff.mp h
  exact ⟨t, ht⟩

/-- What is read off a trace, at its end. -/
theorem filterMap_snoc {β : Type} (f : α → Option β) (acts : List α) (a : α) :
    (acts ++ [a]).filterMap f = acts.filterMap f ++ (f a).toList := by
  rw [List.filterMap_append]
  cases h : f a <;> simp [h]

end Replay
