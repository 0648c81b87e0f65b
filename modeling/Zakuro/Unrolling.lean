import Mathlib.Data.List.Basic
import Mathlib.Data.Nat.Init

/-!
# A list that repeats its tail

A list of `n` entries that is passed through once and then, for ever, again from
entry `l` on: the position after each number of steps, and the entries passed.
-/

namespace Unrolling

/-- The position after `k` steps, of `n` entries that repeat from `l` on. -/
def index (n l k : Nat) : Nat := if k < n then k else l + (k - n) % (n - l)

theorem index_of_lt {n k : Nat} (l : Nat) (h : k < n) : index n l k = k := if_pos h

theorem index_of_le {n k : Nat} (l : Nat) (h : n ≤ k) : index n l k = l + (k - n) % (n - l) :=
  if_neg (Nat.not_lt.mpr h)

theorem index_lt {n l : Nat} (h : l < n) (k : Nat) : index n l k < n := by
  rw [index]
  split
  next hk => exact hk
  next =>
    have hmod := Nat.mod_lt (k - n) (Nat.sub_pos_of_lt h)
    omega

/-- A step goes to the next entry, and from the last one back to `l`. -/
theorem index_succ {n l : Nat} (h : l < n) (k : Nat) :
    index n l (k + 1) = if index n l k + 1 = n then l else index n l k + 1 := by
  rcases Nat.lt_trichotomy (k + 1) n with hk | hk | hk
  · rw [index_of_lt l hk, index_of_lt l (Nat.lt_of_succ_lt hk), if_neg (Nat.ne_of_lt hk)]
  · rw [index_of_le l (Nat.le_of_eq hk.symm), index_of_lt l (Nat.lt_of_succ_le (Nat.le_of_eq hk)), if_pos hk, hk,
      Nat.sub_self, Nat.zero_mod, Nat.add_zero]
  · have hmod := Nat.mod_lt (k - n) (Nat.sub_pos_of_lt h)
    have hsub : k + 1 - n = k - n + 1 := by omega
    rw [index_of_le l (Nat.le_of_lt hk), index_of_le l (Nat.le_of_lt_succ hk), hsub, ← Nat.mod_add_mod]
    by_cases hend : (k - n) % (n - l) + 1 = n - l
    · rw [if_pos (by omega), hend, Nat.mod_self, Nat.add_zero]
    · rw [if_neg (by omega), Nat.mod_eq_of_lt (by omega), Nat.add_assoc]

/-- Without a part that is passed only once, the position is a remainder. -/
theorem index_zero (n k : Nat) : index n 0 k = k % n := by
  rcases Nat.lt_or_ge k n with hk | hk
  · rw [index_of_lt 0 hk, Nat.mod_eq_of_lt hk]
  · rw [index_of_le 0 hk, Nat.zero_add, Nat.sub_zero, ← Nat.mod_eq_sub_mod hk]

/-- The steps up to the last entry go on one by one. -/
theorem index_add {n l k c : Nat} (h : l < n) (hc : index n l k + c < n) :
    index n l (k + c) = index n l k + c := by
  induction c with
  | zero => rfl
  | succ c ih =>
    have ih := ih (by omega)
    rw [← Nat.add_assoc, index_succ h, if_neg (by omega), ih, Nat.add_assoc]

/-- The step from the last entry goes back to `l`. -/
theorem index_add_end {n l k c : Nat} (h : l < n) (hpos : 0 < c) (hc : index n l k + c = n) :
    index n l (k + c) = l := by
  have hlast : index n l (k + (c - 1)) = index n l k + (c - 1) := index_add h (by omega)
  have hsum : k + c = k + (c - 1) + 1 := by omega
  rw [hsum, index_succ h, hlast, if_pos (by omega)]

/-- An entry before the tail is passed at one step only. -/
theorem index_eq_iff {n l k j : Nat} (h : l < n) (hk : k < l) : index n l j = k ↔ j = k := by
  rw [index]
  split <;> omega

/-- The positions of the first steps, one after the other. -/
def Walk (n l : Nat) (is : List Nat) : Prop := is = (List.range is.length).map (index n l)

theorem Walk.nil (n l : Nat) : Walk n l [] := rfl

theorem Walk.snoc {n l : Nat} {is : List Nat} (h : Walk n l is) :
    Walk n l (is ++ [index n l is.length]) := by
  rw [Walk, List.length_append, List.length_singleton, List.range_succ, List.map_append, ← h]
  rfl

theorem Walk.getElem? {n l : Nat} {is : List Nat} (h : Walk n l is) {a x : Nat} (hx : is[a]? = some x) :
    a < is.length ∧ x = index n l a := by
  obtain ⟨ha, -⟩ := List.getElem?_eq_some_iff.mp hx
  rw [h, List.getElem?_map, List.getElem?_range ha] at hx
  exact ⟨ha, (Option.some.inj hx).symm⟩

/-- A walk passes each entry before the tail once, as soon as it is long enough. -/
theorem Walk.count {n l k : Nat} (hl : l < n) (hk : k < l) {is : List Nat} (h : Walk n l is) :
    is.count k = if k < is.length then 1 else 0 := by
  have hsame : ∀ j, (index n l j == k) = (j == k) := by
    intro j
    rw [Bool.eq_iff_iff, beq_iff_eq, beq_iff_eq]
    exact index_eq_iff hl hk
  calc is.count k = ((List.range is.length).map (index n l)).count k := congrArg (List.count k) h
    _ = (List.range is.length).count k := by
      rw [List.count_eq_countP, List.countP_map, List.count_eq_countP]
      exact List.countP_congr fun j _ => by rw [Function.comp_apply, hsame]
    _ = if k < is.length then 1 else 0 := List.count_range

/-- Behind the last entry a walk goes on with the first of the tail. -/
theorem Walk.restart {n l : Nat} (hl : l < n) {is : List Nat} (h : Walk n l is) {a x y : Nat}
    (hx : is[a]? = some x) (hend : x + 1 = n) (hy : is[a + 1]? = some y) : y = l := by
  obtain ⟨-, rfl⟩ := h.getElem? hx
  rw [(h.getElem? hy).2, index_succ hl, if_pos hend]

variable {α : Type}

/-- The entries passed in `m` steps. -/
def unroll (xs : List α) (l : Nat) : Nat → List α
  | 0 => []
  | m + 1 => unroll xs l m ++ (xs[index xs.length l m]?).toList

theorem getElem?_index {xs : List α} {l : Nat} (h : l < xs.length) (m : Nat) :
    xs[index xs.length l m]? = some (xs.get ⟨index xs.length l m, index_lt h m⟩) := by
  simp

theorem unroll_succ {xs : List α} {l m : Nat} {x : α} (hx : xs[index xs.length l m]? = some x) :
    unroll xs l (m + 1) = unroll xs l m ++ [x] := by
  rw [unroll, hx, Option.toList_some]

theorem unroll_length {xs : List α} {l : Nat} (h : l < xs.length) (m : Nat) :
    (unroll xs l m).length = m := by
  induction m with
  | zero => rfl
  | succ m ih => rw [unroll_succ (getElem?_index h m), List.length_append, ih, List.length_singleton]

theorem unroll_mono (xs : List α) (l : Nat) {m k : Nat} (h : m ≤ k) :
    unroll xs l m <+: unroll xs l k := by
  induction k, h using Nat.le_induction with
  | base => exact List.prefix_rfl
  | succ k _ ih => exact ih.trans (List.prefix_append _ _)

/-- The `k`-th entry that is passed. -/
theorem unroll_getElem? {xs : List α} {l : Nat} (h : l < xs.length) {k m : Nat} (hk : k < m) :
    (unroll xs l m)[k]? = xs[index xs.length l k]? := by
  induction m with
  | zero => exact absurd hk (Nat.not_lt_zero k)
  | succ m ih =>
    have hlen := unroll_length h m
    rw [unroll_succ (getElem?_index h m)]
    by_cases hkm : k < m
    · rw [List.getElem?_append_left (by omega), ih hkm]
    · have heq : k = m := by omega
      rw [List.getElem?_append_right (by omega), hlen, heq, Nat.sub_self, getElem?_index h m]
      rfl

/-- A stretch that does not go beyond the last entry is a part of the list. -/
theorem unroll_add {xs : List α} {l k c : Nat} (h : l < xs.length)
    (hc : index xs.length l k + c ≤ xs.length) :
    unroll xs l (k + c) = unroll xs l k ++ (xs.drop (index xs.length l k)).take c := by
  induction c with
  | zero => simp
  | succ c ih =>
    have hindex : index xs.length l (k + c) = index xs.length l k + c := index_add h (by omega)
    have hx := getElem?_index h (k + c)
    rw [← Nat.add_assoc, unroll_succ hx, ih (by omega), List.append_assoc, List.take_add_one,
      List.getElem?_drop, ← hindex, hx, Option.toList_some]

/-- What is passed behind `j` stretches of `len` entries, up to the end of the next. -/
def stretch (xs : List α) (l len j : Nat) : List α := (unroll xs l ((j + 1) * len)).drop (j * len)

/-- The first entries of each of `q` stretches. -/
def heads (xs : List α) (l len taken q : Nat) : List (List α) :=
  (List.range q).map fun j => (stretch xs l len j).take taken

theorem heads_succ (xs : List α) (l len taken q : Nat) : heads xs l len taken (q + 1) =
    heads xs l len taken q ++ [(stretch xs l len q).take taken] := by
  rw [heads, List.range_succ, List.map_append]
  rfl

section Stretches

variable {xs : List α} {l : Nat} (h : l < xs.length)
include h

/-- The `k`-th position of a stretch. -/
theorem stretch_getElem? {len k : Nat} (hk : k < len) (j : Nat) :
    (stretch xs l len j)[k]? = xs[index xs.length l (j * len + k)]? := by
  have hlt : j * len + k < (j + 1) * len := by
    rw [Nat.succ_mul]
    omega
  rw [stretch, List.getElem?_drop, unroll_getElem? h hlt]

theorem stretch_length (len j : Nat) : (stretch xs l len j).length = len := by
  rw [stretch, List.length_drop, unroll_length h, Nat.succ_mul, Nat.add_sub_cancel_left]

variable {len taken : Nat} (htaken : taken ≤ len)
include htaken

theorem heads_length (q : Nat) : (heads xs l len taken q).flatten.length = q * taken := by
  induction q with
  | zero => simp [heads]
  | succ q ih =>
    rw [heads_succ, List.flatten_concat, List.length_append, ih, List.length_take,
      stretch_length h, Nat.min_eq_left htaken, Nat.succ_mul]

/-- Of every stretch the entries after the first so many are left out. -/
theorem heads_getElem? {k q : Nat} (hk : k < q * taken) :
    (heads xs l len taken q).flatten[k]? = xs[index xs.length l (k / taken * len + k % taken)]? := by
  induction q with
  | zero => simp at hk
  | succ q ih =>
    have hlength := heads_length h htaken q
    rw [heads_succ, List.flatten_concat]
    rw [Nat.succ_mul] at hk
    by_cases hkq : k < q * taken
    · rw [List.getElem?_append_left (by omega), ih hkq]
    · obtain ⟨p, rfl⟩ := Nat.exists_eq_add_of_le (Nat.le_of_not_lt hkq)
      have hp : p < taken := by omega
      have hdiv : (q * taken + p) / taken = q := by
        rw [Nat.add_comm, Nat.add_mul_div_right _ _ (by omega), Nat.div_eq_of_lt hp, Nat.zero_add]
      have hmod : (q * taken + p) % taken = p := by
        rw [Nat.mul_add_mod', Nat.mod_eq_of_lt hp]
      rw [List.getElem?_append_right (by omega), hlength, Nat.add_sub_cancel_left,
        List.getElem?_take_of_lt hp, stretch_getElem? h (by omega), hdiv, hmod]

end Stretches

/-- Entries that the tail does not have are passed once. -/
theorem unroll_filter {xs : List α} {l : Nat} (h : l < xs.length) {f : α → Bool}
    (hloop : ∀ x ∈ xs.drop l, f x = false) (m : Nat) :
    (unroll xs l m).filter f = (xs.take m).filter f := by
  induction m with
  | zero => rfl
  | succ m ih =>
    obtain ⟨x, hx⟩ : ∃ x, xs[index xs.length l m]? = some x := ⟨_, getElem?_index h m⟩
    rw [unroll_succ hx, List.filter_append, ih]
    rcases Nat.lt_or_ge m xs.length with hm | hm
    · rw [index_of_lt l hm] at hx
      rw [List.take_add_one, hx, List.filter_append, Option.toList_some]
    · have hmem : x ∈ xs.drop l := by
        rw [index_of_le l hm, ← List.getElem?_drop] at hx
        exact List.mem_of_getElem? hx
      rw [List.filter_cons_of_neg (by simp [hloop x hmem]), List.filter_nil, List.append_nil,
        List.take_of_length_le hm, List.take_of_length_le (by omega)]

/-- Before the end, what is passed is the beginning of the list. -/
theorem unroll_eq_take {xs : List α} {l k : Nat} (h : l < xs.length) (hk : k ≤ xs.length) :
    unroll xs l k = xs.take k := by
  have hzero : index xs.length l 0 = 0 := index_of_lt l (Nat.zero_lt_of_lt h)
  have hle : index xs.length l 0 + k ≤ xs.length := by rwa [hzero, Nat.zero_add]
  have hadd := unroll_add h hle
  rwa [Nat.zero_add, hzero, List.drop_zero] at hadd

/-! ## What passing costs -/

/-- What the entries of a list cost together. -/
def cost (f : α → Int) : List α → Int
  | [] => 0
  | x :: xs => f x + cost f xs

theorem cost_append (f : α → Int) (xs ys : List α) : cost f (xs ++ ys) = cost f xs + cost f ys := by
  induction xs with
  | nil => exact (Int.zero_add _).symm
  | cons x xs ih => rw [List.cons_append, cost, cost, ih, Int.add_assoc]

theorem cost_snoc (f : α → Int) (xs : List α) (x : α) : cost f (xs ++ [x]) = cost f xs + f x := by
  rw [cost_append, cost, cost, Int.add_zero]

theorem cost_nonneg {f : α → Int} (hf : ∀ x, 0 ≤ f x) (xs : List α) : 0 ≤ cost f xs := by
  induction xs with
  | nil => exact Int.le_refl 0
  | cons x xs ih => exact Int.add_nonneg (hf x) ih

theorem cost_prefix_le {f : α → Int} (hf : ∀ x, 0 ≤ f x) {xs ys : List α} (h : xs <+: ys) :
    cost f xs ≤ cost f ys := by
  obtain ⟨zs, rfl⟩ := h
  have hrest := cost_nonneg hf zs
  rw [cost_append]
  omega

theorem cost_of_const {f : α → Int} {c : Int} {xs : List α} (h : ∀ x ∈ xs, f x = c) :
    cost f xs = xs.length * c := by
  induction xs with
  | nil => exact (Int.zero_mul c).symm
  | cons x xs ih =>
    have hrest := ih fun y hy => h y (List.mem_cons_of_mem x hy)
    rw [cost, hrest, h x List.mem_cons_self, List.length_cons, Int.natCast_succ, Int.add_mul, Int.one_mul,
      Int.add_comm]

/-- Where each passage through the tail has entries of the kind `q` that bring as
much as it costs, all that is passed is paid for, up to what the list costs before
the present position. -/
theorem unroll_cost_le {xs : List α} {l : Nat} (h : l < xs.length) {f : α → Int} {q : α → Bool} {c : Int}
    (htail : cost f (xs.drop l) ≤ ((xs.drop l).filter q).length * c) (m : Nat) :
    cost f (unroll xs l m) + ((xs.take (index xs.length l m)).filter q).length * c ≤
      cost f (xs.take (index xs.length l m)) + ((unroll xs l m).filter q).length * c := by
  induction m with
  | zero =>
    rw [index_of_lt l (Nat.zero_lt_of_lt h)]
    exact Int.le_refl _
  | succ m ih =>
    obtain ⟨x, hx⟩ : ∃ x, xs[index xs.length l m]? = some x := ⟨_, getElem?_index h m⟩
    have hnext : cost f (unroll xs l (m + 1)) +
        ((xs.take (index xs.length l m + 1)).filter q).length * c ≤
          cost f (xs.take (index xs.length l m + 1)) + ((unroll xs l (m + 1)).filter q).length * c := by
      rw [List.take_add_one, hx, Option.toList_some, unroll_succ hx, cost_snoc, cost_snoc, List.filter_append,
        List.filter_append, List.length_append, List.length_append, Int.natCast_add, Int.natCast_add,
        Int.add_mul, Int.add_mul]
      omega
    rw [index_succ h]
    split
    next hend =>
      -- the tail has just been passed
      rw [hend, List.take_length] at hnext
      have hsplit : xs = xs.take l ++ xs.drop l := (List.take_append_drop l xs).symm
      rw [hsplit, cost_append, List.filter_append, List.length_append, Int.natCast_add, Int.add_mul, ← hsplit] at hnext
      omega
    next => exact hnext

/-- All that is passed is paid for, up to what no part of the first passage goes
beyond. -/
theorem unroll_cost_bounded {xs : List α} {l : Nat} (h : l < xs.length) {f : α → Int} {q : α → Bool} {c b : Int}
    (htail : cost f (xs.drop l) ≤ ((xs.drop l).filter q).length * c)
    (hfirst : ∀ k < xs.length, cost f (xs.take k) ≤ b + ((xs.take k).filter q).length * c) (m : Nat) :
    cost f (unroll xs l m) ≤ b + ((unroll xs l m).filter q).length * c := by
  have hpassed := unroll_cost_le h htail m
  have hposition := hfirst _ (index_lt h m)
  omega

end Unrolling
