import Mathlib.Data.List.Basic

/-!
# Machines whose handlers may throw

A machine reacts to one event at a time: the environment decides which events
are enabled, and the handler of an enabled event either throws or leaves a new
state. A run is a finite list of enabled events none of which threw. Nothing
here bounds a run or fixes the order of its events.
-/

structure Machine (σ ε φ : Type) where
  enabled : σ → ε → Prop
  step : σ → ε → Except φ σ

namespace Machine

variable {σ ε φ : Type}

inductive Run (M : Machine σ ε φ) : σ → List ε → σ → Prop where
  | nil (s : σ) : Run M s [] s
  | cons {s t u : σ} {e : ε} {es : List ε} :
    M.enabled s e → M.step s e = .ok t → Run M t es u → Run M s (e :: es) u

/-- The same machine in an environment that also keeps to the condition `C`. -/
def restrict (M : Machine σ ε φ) (C : σ → ε → Prop) : Machine σ ε φ where
  enabled s e := M.enabled s e ∧ C s e
  step := M.step

instance (M : Machine σ ε φ) (C : σ → ε → Prop) [∀ s e, Decidable (M.enabled s e)]
    [∀ s e, Decidable (C s e)] (s : σ) (e : ε) : Decidable ((M.restrict C).enabled s e) :=
  inferInstanceAs (Decidable (_ ∧ _))

theorem Run.single {M : Machine σ ε φ} {s t : σ} {e : ε} (he : M.enabled s e)
    (hs : M.step s e = .ok t) : Run M s [e] t :=
  .cons he hs (.nil t)

theorem Run.append {M : Machine σ ε φ} {s t u : σ} {es fs : List ε} (h : Run M s es t)
    (h' : Run M t fs u) : Run M s (es ++ fs) u := by
  induction h with
  | nil s => exact h'
  | cons he hs _ ih => exact .cons he hs (ih h')

theorem Run.split {M : Machine σ ε φ} {s u : σ} {es fs : List ε} (h : Run M s (es ++ fs) u) :
    ∃ t, Run M s es t ∧ Run M t fs u := by
  induction es generalizing s with
  | nil => exact ⟨s, .nil s, h⟩
  | cons e es ih =>
    cases h with
    | cons he hs hrest =>
      obtain ⟨t, ht, hu⟩ := ih hrest
      exact ⟨t, .cons he hs ht, hu⟩

theorem Run.of_restrict {M : Machine σ ε φ} {C : σ → ε → Prop} {s t : σ} {es : List ε}
    (h : Run (M.restrict C) s es t) : Run M s es t := by
  induction h with
  | nil s => exact .nil s
  | cons he hs _ ih => exact .cons he.1 hs ih

theorem Run.weaken {M : Machine σ ε φ} {C D : σ → ε → Prop} {s t : σ} {es : List ε}
    (h : Run (M.restrict C) s es t) (hCD : ∀ s e, C s e → D s e) : Run (M.restrict D) s es t := by
  induction h with
  | nil s => exact .nil s
  | cons he hs _ ih => exact .cons ⟨he.1, hCD _ _ he.2⟩ hs ih

theorem Run.to_restrict {M : Machine σ ε φ} {C : ε → Prop} {s t : σ} {es : List ε}
    (h : Run M s es t) (hes : ∀ e ∈ es, C e) : Run (M.restrict fun _ => C) s es t := by
  induction h with
  | nil s => exact .nil s
  | cons he hs _ ih =>
    obtain ⟨hc, hrest⟩ := List.forall_mem_cons.mp hes
    exact .cons ⟨he, hc⟩ hs (ih hrest)

/-- An invariant of one step is an invariant of every run. -/
theorem Run.invariant {M : Machine σ ε φ} {I : σ → Prop}
    (step : ∀ s e t, I s → M.enabled s e → M.step s e = .ok t → I t)
    {s t : σ} {es : List ε} (h : Run M s es t) (hs : I s) : I t := by
  induction h with
  | nil => exact hs
  | cons he hst _ ih => exact ih (step _ _ _ hs he hst)

/-- The invariant may also speak of the events so far: induction on a run from
its end, for runs that start in a fixed state. -/
theorem Run.history {M : Machine σ ε φ} {I : List ε → σ → Prop}
    (step : ∀ es s e t, I es s → M.enabled s e → M.step s e = .ok t → I (es ++ [e]) t)
    {s t : σ} {es : List ε} (h : Run M s es t) (hs : I [] s) : I es t := by
  suffices H : ∀ fs, I fs s → I (fs ++ es) t from H [] hs
  clear hs
  induction h with
  | nil s => intro fs hf; simpa using hf
  | cons he hst _ ih =>
    intro fs hf
    simpa using ih _ (step _ _ _ _ hf he hst)

/-- What the events of a run put out, one after the other. -/
def outputs {β : Type} (M : Machine σ ε φ) (out : σ → ε → List β) : σ → List ε → List β
  | _, [] => []
  | s, e :: es =>
    out s e ++
      match M.step s e with
      | .ok t => outputs M out t es
      | .error _ => []

theorem outputs_restrict {β : Type} (M : Machine σ ε φ) (C : σ → ε → Prop) (out : σ → ε → List β) (s : σ)
    (es : List ε) : (M.restrict C).outputs out s es = M.outputs out s es := by
  induction es generalizing s with
  | nil => rfl
  | cons e es ih =>
    rw [outputs, outputs]
    cases hs : M.step s e with
    | error f => simp [restrict, hs]
    | ok t => simp [restrict, hs, ← ih]

/-- The invariant may also speak of what has been put out so far. -/
theorem Run.outputs_invariant {β : Type} {M : Machine σ ε φ} {out : σ → ε → List β}
    {I : List β → σ → Prop}
    (step : ∀ bs s e t, I bs s → M.enabled s e → M.step s e = .ok t → I (bs ++ out s e) t)
    {s t : σ} {es : List ε} (h : Run M s es t) (hs : I [] s) : I (M.outputs out s es) t := by
  suffices H : ∀ bs, I bs s → I (bs ++ M.outputs out s es) t from H [] hs
  clear hs
  induction h with
  | nil s => intro bs hb; simpa [outputs] using hb
  | cons he hst _ ih =>
    intro bs hb
    simpa [outputs, hst] using ih _ (step _ _ _ _ hb he hst)

/-- Where each step puts out a part of what it puts out otherwise, a run does. -/
theorem Run.outputs_sublist {β γ : Type} {M : Machine σ ε φ} {out : σ → ε → List β} {out' : σ → ε → List γ}
    {f : β → Option γ} (step : ∀ s e, M.enabled s e → ((out s e).filterMap f).Sublist (out' s e)) {s t : σ}
    {es : List ε} (h : Run M s es t) : ((M.outputs out s es).filterMap f).Sublist (M.outputs out' s es) := by
  induction h with
  | nil s => exact .slnil
  | cons he hs _ ih =>
    rw [outputs, outputs, hs, List.filterMap_append]
    exact (step _ _ he).append ih

/-- A handler that goes on after a part of it throws when the part throws. -/
theorem map_eq_ok {α β : Type} {x : Except φ α} {f : α → β} {b : β} (h : x.map f = .ok b) :
    ∃ a, x = .ok a ∧ f a = b := by
  cases x with
  | error => simp [Except.map] at h
  | ok a => exact ⟨a, rfl, by simpa [Except.map] using h⟩

theorem map_eq_error {α β : Type} {x : Except φ α} {f : α → β} {e : φ} (h : x.map f = .error e) :
    x = .error e := by
  cases x with
  | error => simpa [Except.map] using h
  | ok a => simp [Except.map] at h

/-- Executing a list of events, when enabledness can be decided. -/
def exec (M : Machine σ ε φ) [∀ s e, Decidable (M.enabled s e)] : σ → List ε → Option σ
  | s, [] => some s
  | s, e :: es =>
    if M.enabled s e then
      match M.step s e with
      | .ok t => exec M t es
      | .error _ => none
    else none

theorem exec_run {M : Machine σ ε φ} [∀ s e, Decidable (M.enabled s e)] {s t : σ} {es : List ε}
    (h : M.exec s es = some t) : Run M s es t := by
  induction es generalizing s with
  | nil =>
    obtain rfl : s = t := by simpa [exec] using h
    exact .nil s
  | cons e es ih =>
    rw [exec] at h
    split at h
    next he =>
      split at h
      next u hu => exact .cons he hu (ih h)
      next => simp at h
    next => simp at h

/-- A list of events whose execution ends in a state with the decided property. -/
theorem exec_exists (M : Machine σ ε φ) [∀ s e, Decidable (M.enabled s e)] (s : σ) (es : List ε)
    (p : σ → Bool) (h : (M.exec s es).any p = true) : ∃ t, Run M s es t ∧ p t = true := by
  cases ht : M.exec s es with
  | none => simp [ht] at h
  | some t => exact ⟨t, exec_run ht, by simpa [ht] using h⟩

/-- Two executions, the second from where the first ends. -/
theorem exec_exists_then (M : Machine σ ε φ) [∀ s e, Decidable (M.enabled s e)] (s : σ)
    (es fs : List ε) (p : σ → σ → Bool)
    (h : (M.exec s es).any (fun t => (M.exec t fs).any (p t)) = true) :
    ∃ t u, Run M s es t ∧ Run M t fs u ∧ p t u = true := by
  obtain ⟨t, ht, hu⟩ := exec_exists M s es _ h
  obtain ⟨u, hu, hp⟩ := exec_exists M t fs _ hu
  exact ⟨t, u, ht, hu, hp⟩

/-- The state in which the execution of a list of events ends. -/
theorem exec_get_run (M : Machine σ ε φ) [∀ s e, Decidable (M.enabled s e)] (s : σ) (es : List ε)
    (h : (M.exec s es).isSome = true) : Run M s es ((M.exec s es).get h) :=
  exec_run (Option.some_get h).symm

end Machine
