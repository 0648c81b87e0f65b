import Zakuro.Machine

/-!
# Projection

A machine whose steps are, seen through a view of its states, runs of another
machine. Its runs are then runs of that machine as well, so that what holds in
every run of a part holds of the part in every run of the whole.
-/

namespace Machine

variable {σ τ υ ε δ γ φ ψ χ : Type}

/-- Each step of `M` is a run of `N`, with the events that `acts` names. -/
def ProjectsTo (M : Machine σ ε φ) (N : Machine τ δ ψ) (view : σ → τ) (acts : σ → ε → List δ) : Prop :=
  ∀ s e t, M.enabled s e → M.step s e = .ok t → Run N (view s) (acts s e) (view t)

theorem Run.project {M : Machine σ ε φ} {N : Machine τ δ ψ} {view : σ → τ} {acts : σ → ε → List δ}
    (hproj : ProjectsTo M N view acts) {s t : σ} {es : List ε} (h : Run M s es t) :
    Run N (view s) (M.outputs acts s es) (view t) := by
  induction h with
  | nil s => exact .nil _
  | cons he hs _ ih =>
    rw [outputs, hs]
    exact (hproj _ _ _ he hs).append ih

/-- Where the state does not matter, the events of a run are those of its events. -/
theorem Run.outputs_eq_flatMap {M : Machine σ ε φ} (acts : ε → List δ) {s t : σ} {es : List ε}
    (h : Run M s es t) : M.outputs (fun _ => acts) s es = es.flatMap acts := by
  induction h with
  | nil s => rfl
  | cons he hs _ ih => rw [outputs, hs, List.flatMap_cons, ← ih]

/-- A run that keeps an invariant is one that always had it. -/
theorem Run.restrict_invariant {M : Machine σ ε φ} {I : σ → Prop}
    (keeps : ∀ s e t, I s → M.enabled s e → M.step s e = .ok t → I t) {s t : σ} {es : List ε} (h : Run M s es t)
    (hs : I s) : Run (M.restrict fun s _ => I s) s es t := by
  induction h with
  | nil s => exact .nil s
  | cons he hst _ ih => exact .cons ⟨he, hs⟩ hst (ih (keeps _ _ _ hs he hst))

/-- The projection of a projection. -/
theorem ProjectsTo.trans {M : Machine σ ε φ} {N : Machine τ δ ψ} {K : Machine υ γ χ} {view : σ → τ}
    {acts : σ → ε → List δ} {view' : τ → υ} {acts' : τ → δ → List γ} (h : ProjectsTo M N view acts)
    (h' : ProjectsTo N K view' acts') :
    ProjectsTo M K (fun s => view' (view s)) (fun s e => N.outputs acts' (view s) (acts s e)) :=
  fun s e t he hs => (h s e t he hs).project h'

theorem Run.eq_of_nil {N : Machine τ δ ψ} {s t : τ} (h : Run N s [] t) : t = s := by
  cases h
  rfl

/-- What no step of the whole changes is left out of all projections. -/
theorem Run.same {N : Machine τ δ ψ} {s t : τ} (h : t = s) : Run N s [] t := by
  rw [h]
  exact .nil s

end Machine
