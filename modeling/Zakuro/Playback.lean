import Mathlib.Data.List.GetD
import Zakuro.Machine

/-!
# Playback

A player with one buffer: a clip that is played takes the place of what is left
of the one before, and rendering takes samples from the front, with silence
behind the end. What comes out is a tape on which every clip begins where it was
played and goes on until the next one.
-/

namespace Playback

variable {α : Type} (silence : α)

inductive Cue (α : Type) where
  | play (clip : List α)
  | render (size : Nat)
  deriving DecidableEq, Repr

/-- What is rendered from a buffer. -/
def render (clip : List α) (size : Nat) : List α :=
  clip.take size ++ List.replicate (size - clip.length) silence

/-- All that a player renders that has a clip in its buffer. -/
def tape : List α → List (Cue α) → List α
  | _, [] => []
  | _, .play clip :: cues => tape clip cues
  | buffer, .render size :: cues => render silence buffer size ++ tape (buffer.drop size) cues

/-- The clips that are played, each with the number of samples before it. -/
def plays : Nat → List (Cue α) → List (Nat × List α)
  | _, [] => []
  | pos, .play clip :: cues => (pos, clip) :: plays pos cues
  | pos, .render size :: cues => plays (pos + size) cues

/-- The clip that was played last before a sample, if any was. -/
def lastPlay (starts : List (Nat × List α)) (t : Nat) : Option (Nat × List α) :=
  (starts.filter fun x => x.1 ≤ t).getLast?

/-- The sample that belongs at a place of the tape. -/
def sampleAt (first : Nat × List α) (starts : List (Nat × List α)) (t : Nat) : α :=
  let last := (lastPlay starts t).getD first
  last.2.getD (t - last.1) silence

theorem render_length (clip : List α) (size : Nat) : (render silence clip size).length = size := by
  rw [render, List.length_append, List.length_take, List.length_replicate]
  omega

theorem render_getElem? (clip : List α) {size i : Nat} (hi : i < size) :
    (render silence clip size)[i]? = some (clip.getD i silence) := by
  rw [render]
  rcases Nat.lt_or_ge i clip.length with hlt | hge
  · rw [List.getElem?_append_left (by rw [List.length_take]; omega), List.getElem?_take_of_lt hi,
      List.getElem?_eq_getElem hlt, List.getD_eq_getElem _ _ hlt]
  · rw [List.getElem?_append_right (by rw [List.length_take]; omega), List.getElem?_replicate,
      if_pos (by rw [List.length_take]; omega), List.getD_eq_default _ _ hge]

theorem le_of_mem_plays {pos : Nat} {cues : List (Cue α)} : ∀ x ∈ plays pos cues, pos ≤ x.1 := by
  induction cues generalizing pos with
  | nil => simp [plays]
  | cons cue cues ih =>
    cases cue with
    | play clip =>
      intro x hx
      rcases List.mem_cons.mp hx with rfl | hx
      · exact Nat.le_refl _
      · exact ih x hx
    | render size => exact fun x hx => Nat.le_trans (Nat.le_add_right pos size) (ih x hx)

/-- Nothing that is played later counts. -/
theorem lastPlay_eq_none {starts : List (Nat × List α)} {t : Nat} (h : ∀ x ∈ starts, t < x.1) :
    lastPlay starts t = none := by
  have hnone : (starts.filter fun x => x.1 ≤ t) = [] := by
    refine List.filter_eq_nil_iff.mpr fun x hx => ?_
    have hlt := h x hx
    simp only [decide_eq_true_eq]
    omega
  rw [lastPlay, hnone]
  rfl

theorem lastPlay_cons {x : Nat × List α} (starts : List (Nat × List α)) {t : Nat} (h : x.1 ≤ t) :
    lastPlay (x :: starts) t = some ((lastPlay starts t).getD x) := by
  rw [lastPlay, List.filter_cons_of_pos (by simpa using h), List.getLast?_cons]
  rfl

/-- Each sample of the tape is that of the clip played last, or silence. -/
theorem tape_getElem? (pos : Nat) (buffer : List α) (cues : List (Cue α)) {i : Nat}
    (hi : i < (tape silence buffer cues).length) :
    (tape silence buffer cues)[i]? = some (sampleAt silence (pos, buffer) (plays pos cues) (pos + i)) := by
  induction cues generalizing pos buffer i with
  | nil => simp [tape] at hi
  | cons cue cues ih =>
    cases cue with
    | play clip =>
      rw [tape] at hi ⊢
      rw [ih pos clip hi, plays, sampleAt, sampleAt, lastPlay_cons _ (Nat.le_add_right pos i)]
      rfl
    | render size =>
      rw [tape, List.length_append, render_length] at hi
      rw [tape, plays]
      rcases Nat.lt_or_ge i size with hlt | hge
      · have hlater : ∀ x ∈ plays (pos + size) cues, pos + i < x.1 := by
          intro x hx
          have hle := le_of_mem_plays x hx
          omega
        rw [List.getElem?_append_left (by rwa [render_length]), render_getElem? silence buffer hlt, sampleAt,
          lastPlay_eq_none hlater, Option.getD_none, Nat.add_sub_cancel_left]
      · have hpos : pos + size + (i - size) = pos + i := by omega
        rw [List.getElem?_append_right (by rwa [render_length]), render_length,
          ih (pos + size) (buffer.drop size) (by omega), sampleAt, sampleAt, hpos]
        cases lastPlay (plays (pos + size) cues) (pos + i) with
        | some x => rfl
        | none =>
          have hdrop : size + (pos + i - (pos + size)) = pos + i - pos := by omega
          rw [Option.getD_none, Option.getD_none, List.getD_eq_getElem?_getD, List.getElem?_drop, hdrop,
            List.getD_eq_getElem?_getD]

/-- What a machine puts out is the tape of its cues, if each step puts out what its
cue says and leaves what the cue leaves in the buffer. -/
theorem outputs_eq_tape {σ ε φ : Type} {M : Machine σ ε φ} {cue : σ → ε → List (Cue α)}
    {samples : σ → ε → List α} {Holds : σ → List α → Prop}
    (step : ∀ s e t buffer, Holds s buffer → M.step s e = .ok t → ∃ buffer', Holds t buffer' ∧
      ∀ cues, tape silence buffer (cue s e ++ cues) = samples s e ++ tape silence buffer' cues)
    {s t : σ} {es : List ε} (h : Machine.Run M s es t) {buffer : List α} (hs : Holds s buffer) :
    M.outputs samples s es = tape silence buffer (M.outputs cue s es) := by
  induction h generalizing buffer with
  | nil s => rfl
  | cons he hst _ ih =>
    obtain ⟨buffer', hholds, htape⟩ := step _ _ _ _ hs hst
    rw [Machine.outputs, Machine.outputs, hst]
    dsimp only
    rw [htape, ih hholds]

end Playback
