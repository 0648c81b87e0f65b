import Mathlib.Data.List.Basic
import Mathlib.Logic.Function.Iterate

/-!
# Drawing and pacing

Loops that draw one value after the other from a generator, and times that keep
a distance from each other.
-/

namespace Generator

variable {σ α : Type}

/-- A loop that draws `n` values. -/
def draw (f : σ → α × σ) : Nat → σ → List α × σ
  | 0, s => ([], s)
  | n + 1, s => ((f s).1 :: (draw f n (f s).2).1, (draw f n (f s).2).2)

/-- The generator after a value has been drawn. -/
def after (f : σ → α × σ) (s : σ) : σ := (f s).2

theorem draw_eq (f : σ → α × σ) (n : Nat) (s : σ) :
    draw f n s = ((List.range n).map fun i => (f ((after f)^[i] s)).1, (after f)^[n] s) := by
  induction n generalizing s with
  | zero => rfl
  | succ n ih =>
    rw [draw, ih, List.range_succ_eq_map, List.map_cons, List.map_map]
    rfl

/-- A loop over a loop draws as one long loop. -/
theorem after_draw (f : σ → α × σ) (n : Nat) : after (draw f n) = (after f)^[n] := by
  funext s
  rw [after, draw_eq]

theorem draw_draw_eq (f : σ → α × σ) (m n : Nat) (s : σ) :
    draw (draw f n) m s = ((List.range m).map fun j => (List.range n).map fun i =>
      (f ((after f)^[i + n * j] s)).1, (after f)^[n * m] s) := by
  rw [draw_eq, after_draw, ← Function.iterate_mul]
  congr 2
  funext j
  rw [draw_eq, ← Function.iterate_mul]
  simp only [Function.iterate_add_apply]

end Generator

/-- Each of the times is at least `d` before the next one. -/
def Spaced (d : Int) (ts : List Int) : Prop := ts.Pairwise fun a b => a + d ≤ b

namespace Spaced

variable {d : Int} {ts : List Int}

theorem snoc (h : Spaced d ts) {t : Int} (ht : ∀ a ∈ ts, a + d ≤ t) : Spaced d (ts ++ [t]) := by
  refine List.pairwise_append.mpr ⟨h, List.pairwise_singleton _ t, fun a ha b hb => ?_⟩
  rw [List.mem_singleton.mp hb]
  exact ht a ha

/-- No more than `n` of the times fit a window of `n` distances. -/
theorem length_le (h : Spaced d ts) {t : Int} {n : Nat} (hts : ∀ a ∈ ts, t ≤ a ∧ a < t + n * d) :
    ts.length ≤ n := by
  induction ts generalizing t n with
  | nil => exact Nat.zero_le n
  | cons a ts ih =>
    obtain ⟨hle, hlt⟩ := hts a List.mem_cons_self
    obtain ⟨hhead, htail⟩ := List.pairwise_cons.mp h
    cases n with
    | zero => omega
    | succ n =>
      have hn : ((n + 1 : Nat) : Int) * d = n * d + d := by
        rw [Int.natCast_add, Int.add_mul]
        omega
      rw [hn] at hts
      rw [List.length_cons]
      refine Nat.succ_le_succ (ih htail (t := t + d) fun b hb => ?_)
      have hb' := hts b (List.mem_cons_of_mem a hb)
      have hab := hhead b hb
      omega

theorem window (h : Spaced d ts) (t : Int) (n : Nat) :
    (ts.filter fun a => t ≤ a ∧ a < t + n * d).length ≤ n := by
  refine length_le (List.Pairwise.filter _ h) (t := t) fun a ha => ?_
  simpa using (List.mem_filter.mp ha).2

end Spaced
