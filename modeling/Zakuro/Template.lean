import Mathlib.Data.List.Basic

/-!
# Templates

A template is a text with holes, and filling it puts one and the same text into
every hole. A template with a hole tells the texts that it is filled with apart,
whatever their lengths.
-/

namespace Template

variable {α : Type}

/-- The text of a template, with `none` for a hole. -/
def fill (text : List α) : List (Option α) → List α
  | [] => []
  | some a :: t => a :: fill text t
  | none :: t => text ++ fill text t

/-- The number of holes. -/
def holes : List (Option α) → Nat
  | [] => 0
  | some _ :: t => holes t
  | none :: t => holes t + 1

theorem holes_pos {t : List (Option α)} (h : none ∈ t) : 0 < holes t := by
  induction t with
  | nil => simp at h
  | cons a t ih =>
    cases a with
    | none => exact Nat.succ_pos _
    | some a => exact ih (by simpa using h)

theorem fill_length (text : List α) (t : List (Option α)) :
    (fill text t).length = (fill [] t).length + holes t * text.length := by
  induction t with
  | nil => simp [fill, holes]
  | cons a t ih =>
    cases a with
    | none => simp [fill, holes, ih, Nat.succ_mul]; omega
    | some a => simp [fill, holes, ih]; omega

/-- Texts of one length that fill a hole alike are the same. -/
theorem eq_of_fill {d e : List α} (hlen : d.length = e.length) {t : List (Option α)}
    (ht : none ∈ t) (h : fill d t = fill e t) : d = e := by
  induction t with
  | nil => simp at ht
  | cons a t ih =>
    cases a with
    | none => exact (List.append_inj h hlen).1
    | some a =>
      rw [fill, fill] at h
      exact ih (by simpa using ht) (List.cons.inj h).2

theorem fill_injective {t : List (Option α)} (ht : none ∈ t) {d e : List α}
    (h : fill d t = fill e t) : d = e := by
  have hlen : d.length = e.length := by
    have hl := congrArg List.length h
    rw [fill_length d, fill_length e] at hl
    exact Nat.eq_of_mul_eq_mul_left (holes_pos ht) (Nat.add_left_cancel hl)
  exact eq_of_fill hlen ht h

end Template
