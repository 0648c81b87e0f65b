import Zakuro.Machine

/-!
# Progress

A machine whose steps all use up a rank cannot go on for ever. When it can still
step wherever it is not done, it is done after no more steps than the rank.
-/

namespace Machine

variable {σ ε φ : Type}

/-- Under an invariant, each step uses up some of the rank. -/
structure Ranked (M : Machine σ ε φ) (I : σ → Prop) (rank : σ → Nat) : Prop where
  keeps : ∀ s e t, I s → M.enabled s e → M.step s e = .ok t → I t
  drops : ∀ s e t, I s → M.enabled s e → M.step s e = .ok t → rank t < rank s

theorem Ranked.length_le {M : Machine σ ε φ} {I : σ → Prop} {rank : σ → Nat} (h : Ranked M I rank)
    {s t : σ} {es : List ε} (hrun : Run M s es t) (hs : I s) : es.length + rank t ≤ rank s := by
  induction hrun with
  | nil s => simp
  | cons he hst _ ih =>
    have hdrop := h.drops _ _ _ hs he hst
    have hrest := ih (h.keeps _ _ _ hs he hst)
    rw [List.length_cons]
    omega

/-- The machine can step from a state. -/
def CanStep (M : Machine σ ε φ) (s : σ) : Prop := ∃ e t, M.enabled s e ∧ M.step s e = .ok t

/-- Every run can be carried on until it is done, in a bounded number of steps. -/
theorem Ranked.completes {M : Machine σ ε φ} {I : σ → Prop} {rank : σ → Nat} (h : Ranked M I rank)
    {Done : σ → Prop} (hgo : ∀ s, I s → Done s ∨ CanStep M s) {s : σ} (hs : I s) :
    ∃ es t, Run M s es t ∧ es.length ≤ rank s ∧ Done t := by
  generalize hn : rank s = n
  induction n using Nat.strongRecOn generalizing s with
  | ind n ih =>
    rcases hgo s hs with hdone | ⟨e, t, he, hst⟩
    · exact ⟨[], s, .nil s, Nat.zero_le _, hdone⟩
    · have hdrop := h.drops s e t hs he hst
      obtain ⟨es, u, hrun, hlen, hdone⟩ := ih (rank t) (by omega) (h.keeps s e t hs he hst) rfl
      refine ⟨e :: es, u, .cons he hst hrun, ?_, hdone⟩
      rw [List.length_cons]
      omega

end Machine
