import Mathlib.Data.List.Basic

/-!
# Loops that may not end

A loop is one pass of its body, which either goes on with a new state or leaves
with a result. Running it takes a bound on the number of passes; a loop ends
when some bound gives a result, and then every larger bound gives the same.
-/

namespace Loop

variable {σ ρ : Type}

def run (body : σ → σ ⊕ ρ) : Nat → σ → Option ρ
  | 0, _ => none
  | fuel + 1, s =>
    match body s with
    | .inl t => run body fuel t
    | .inr r => some r

theorem run_mono {body : σ → σ ⊕ ρ} {fuel fuel' : Nat} {s : σ} {r : ρ} (h : run body fuel s = some r)
    (hle : fuel ≤ fuel') : run body fuel' s = some r := by
  induction fuel generalizing fuel' s with
  | zero => cases h
  | succ fuel ih =>
    obtain ⟨fuel', rfl⟩ := Nat.exists_eq_add_of_le' hle
    rw [← Nat.add_assoc, run]
    rw [run] at h
    cases hb : body s with
    | inl t =>
      rw [hb] at h
      exact ih h (Nat.le_add_left fuel fuel')
    | inr q =>
      rw [hb] at h
      exact h

/-- Some number of passes leaves the loop with the result. -/
def Ends (body : σ → σ ⊕ ρ) (s : σ) (r : ρ) : Prop := ∃ fuel, run body fuel s = some r

/-- The loop passes from one state to another. -/
inductive Reach (body : σ → σ ⊕ ρ) : σ → σ → Prop where
  | refl (s : σ) : Reach body s s
  | tail {s t u : σ} : Reach body s t → body t = .inl u → Reach body s u

variable {body : σ → σ ⊕ ρ}

theorem ends_inr {s : σ} {r q : ρ} (h : body s = .inr r) : Ends body s q ↔ q = r := by
  constructor
  · rintro ⟨fuel, hf⟩
    cases fuel with
    | zero => simp [run] at hf
    | succ fuel => simpa [run, h, eq_comm] using hf
  · rintro rfl
    exact ⟨1, by simp [run, h]⟩

theorem ends_inl {s t : σ} {r : ρ} (h : body s = .inl t) : Ends body s r ↔ Ends body t r := by
  constructor
  · rintro ⟨fuel, hf⟩
    cases fuel with
    | zero => simp [run] at hf
    | succ fuel => exact ⟨fuel, by simpa [run, h] using hf⟩
  · rintro ⟨fuel, hf⟩
    exact ⟨fuel + 1, by simpa [run, h] using hf⟩

theorem ends_reach {s t : σ} {r : ρ} (h : Reach body s t) : Ends body s r ↔ Ends body t r := by
  induction h with
  | refl => rfl
  | tail _ hb ih => rw [ih, ends_inl hb]

/-- A loop that ends leaves from a state that it reaches. -/
theorem reach_of_ends {s : σ} {r : ρ} (h : Ends body s r) : ∃ t, Reach body s t ∧ body t = .inr r := by
  obtain ⟨fuel, hf⟩ := h
  suffices H : ∀ fuel t, Reach body s t → run body fuel t = some r →
      ∃ u, Reach body s u ∧ body u = .inr r from H fuel s (.refl s) hf
  clear hf
  intro fuel
  induction fuel with
  | zero => intro t _ hf; simp [run] at hf
  | succ fuel ih =>
    intro t ht hf
    rw [run] at hf
    cases hb : body t with
    | inl u =>
      rw [hb] at hf
      exact ih u (ht.tail hb) hf
    | inr q =>
      rw [hb] at hf
      exact ⟨t, ht, hb.trans (congrArg Sum.inr (Option.some.inj hf))⟩

/-- What every pass keeps holds in every state that the loop reaches. -/
theorem Reach.invariant {I : σ → Prop} (hpass : ∀ s t, I s → body s = .inl t → I t) {s t : σ}
    (h : Reach body s t) (hs : I s) : I t := by
  induction h with
  | refl => exact hs
  | tail _ hb ih => exact hpass _ _ ih hb

/-- A pass that changes nothing is repeated for ever. -/
theorem not_ends_of_stuck {s : σ} (h : body s = .inl s) (r : ρ) : ¬ Ends body s r := by
  rintro ⟨fuel, hf⟩
  induction fuel with
  | zero => simp [run] at hf
  | succ fuel ih => exact ih (by simpa [run, h] using hf)

/-- The rule of total correctness: the body keeps the invariant and lowers the
measure, or leaves with a result as wanted. -/
theorem ends_of_measure (I : σ → Prop) (μ : σ → Nat) (Q : ρ → Prop)
    (hgo : ∀ s t, I s → body s = .inl t → I t ∧ μ t < μ s)
    (hleave : ∀ s r, I s → body s = .inr r → Q r) {s : σ} (hs : I s) :
    ∃ r, Ends body s r ∧ Q r := by
  suffices H : ∀ n s, μ s < n → I s → ∃ r, Ends body s r ∧ Q r from
    H (μ s + 1) s (Nat.lt_succ_self _) hs
  intro n
  induction n with
  | zero => intro s h; omega
  | succ n ih =>
    intro s hn hs
    cases hb : body s with
    | inl t =>
      obtain ⟨ht, hlt⟩ := hgo s t hs hb
      obtain ⟨r, hr, hq⟩ := ih t (by omega) ht
      exact ⟨r, (ends_inl hb).mpr hr, hq⟩
    | inr r => exact ⟨r, (ends_inr hb).mpr rfl, hleave s r hs hb⟩

/-- Two bodies that go on and leave together have loops with the same result. -/
theorem ends_congr {τ : Type} {body' : τ → τ ⊕ ρ} (R : σ → τ → Prop)
    (hpass : ∀ s t, R s t → (∃ s' t', body s = .inl s' ∧ body' t = .inl t' ∧ R s' t') ∨
      ∃ r, body s = .inr r ∧ body' t = .inr r)
    {s : σ} {t : τ} (h : R s t) (r : ρ) : Ends body s r ↔ Ends body' t r := by
  suffices H : ∀ fuel s t, R s t → run body fuel s = run body' fuel t by
    simp only [Ends, H _ s t h]
  clear h
  intro fuel
  induction fuel with
  | zero => exact fun _ _ _ => rfl
  | succ fuel ih =>
    intro s t h
    obtain ⟨s', t', hs, ht, h'⟩ | ⟨q, hs, ht⟩ := hpass s t h
    · simp only [run, hs, ht]
      exact ih s' t' h'
    · simp only [run, hs, ht]

end Loop
