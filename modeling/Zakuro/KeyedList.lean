import Mathlib.Data.List.Nodup

/-!
# Lists in which a new entry replaces those of its key

An entry is put at the end of the list, and every entry of the same key is
erased. Putting a whole list of entries keeps the last one of each key.
-/

namespace KeyedList

variable {α κ : Type} [DecidableEq κ]

def put (key : α → κ) (xs : List α) (a : α) : List α :=
  xs.filter (fun x => key x ≠ key a) ++ [a]

def putAll (key : α → κ) (xs as : List α) : List α := as.foldl (put key) xs

variable {key : α → κ} {xs as : List α} {a x : α} {p : α → Bool}

@[simp] theorem putAll_nil : putAll key xs [] = xs := rfl

@[simp] theorem putAll_cons : putAll key xs (a :: as) = putAll key (put key xs a) as := rfl

/-- A condition that only looks at the key of an entry. -/
def OfKey (key : α → κ) (p : α → Bool) : Prop := ∀ x y, key x = key y → p x = p y

theorem filter_put_of (ha : p a = true) :
    (put key xs a).filter p = put key (xs.filter p) a := by
  simp only [put, List.filter_append, List.filter_filter]
  rw [List.filter_cons_of_pos ha, List.filter_nil]
  simp only [Bool.and_comm]

theorem filter_put_of_not (hp : OfKey key p) (ha : p a = false) :
    (put key xs a).filter p = xs.filter p := by
  simp only [put, List.filter_append, List.filter_filter, List.filter_cons, ha, List.filter_nil]
  rw [if_neg (by simp), List.append_nil]
  refine List.filter_congr fun x _ => ?_
  cases hx : p x with
  | false => simp
  | true =>
    have : key x ≠ key a := by
      intro he
      rw [hp x a he, ha] at hx
      exact Bool.noConfusion hx
    simp [this]

/-- Choosing entries by their key can be done before or after the putting. -/
theorem filter_putAll (hp : OfKey key p) (xs as : List α) :
    (putAll key xs as).filter p = putAll key (xs.filter p) (as.filter p) := by
  induction as generalizing xs with
  | nil => rfl
  | cons a as ih =>
    rw [putAll_cons, ih]
    cases ha : p a with
    | true => rw [filter_put_of ha, List.filter_cons_of_pos ha, putAll_cons]
    | false => rw [filter_put_of_not hp ha, List.filter_cons_of_neg (by simp [ha])]

/-- Where no key comes twice, an entry is found by its key. -/
theorem find?_of_nodup (h : (xs.map key).Nodup) (ha : a ∈ xs) :
    xs.find? (fun x => key x = key a) = some a := by
  induction xs with
  | nil => simp at ha
  | cons x xs ih =>
    rw [List.map_cons, List.nodup_cons] at h
    rcases List.mem_cons.mp ha with rfl | ha
    · simp
    · have hne : key x ≠ key a := fun he => h.1 (he ▸ List.mem_map_of_mem ha)
      rw [List.find?_cons_of_neg (by simpa using hne), ih h.2 ha]

theorem mem_put (h : x ∈ put key xs a) : x ∈ xs ∨ x = a := by
  rcases List.mem_append.mp h with h | h
  · exact .inl (List.mem_filter.mp h).1
  · exact .inr (List.mem_singleton.mp h)

theorem mem_putAll (h : x ∈ putAll key xs as) : x ∈ xs ∨ x ∈ as := by
  induction as generalizing xs with
  | nil => exact .inl h
  | cons a as ih =>
    rcases ih h with h | h
    · rcases mem_put h with h | rfl
      · exact .inl h
      · exact .inr List.mem_cons_self
    · exact .inr (List.mem_cons_of_mem _ h)

theorem put_nodup (h : (xs.map key).Nodup) : ((put key xs a).map key).Nodup := by
  rw [put, List.map_append, List.nodup_append]
  refine ⟨h.sublist (List.filter_sublist.map key), List.nodup_singleton _, ?_⟩
  intro k hk k' hk'
  obtain ⟨x, hx, rfl⟩ := List.mem_map.mp hk
  obtain rfl : k' = key a := by simpa using hk'
  simpa using (List.mem_filter.mp hx).2

/-- However often a key is put, the list has it once. -/
theorem putAll_nodup (h : (xs.map key).Nodup) : ((putAll key xs as).map key).Nodup := by
  induction as generalizing xs with
  | nil => exact h
  | cons a as ih => exact ih (put_nodup h)

theorem put_of_new (h : key a ∉ xs.map key) : put key xs a = xs ++ [a] := by
  rw [put, List.filter_eq_self.mpr]
  intro x hx
  have : key x ≠ key a := fun he => h (he ▸ List.mem_map_of_mem hx)
  simpa using this

/-- Entries whose keys are all new and all different are appended in order. -/
theorem putAll_of_nodup (h : ((xs ++ as).map key).Nodup) : putAll key xs as = xs ++ as := by
  induction as generalizing xs with
  | nil => simp
  | cons a as ih =>
    have ha : key a ∉ xs.map key := by
      rw [List.map_append, List.nodup_append] at h
      intro hm
      exact h.2.2 _ hm (key a) (by simp) rfl
    rw [putAll_cons, put_of_new ha, ih (by simpa using h)]
    simp

/-- Putting the entries of a list, each rewritten first, gives the list back
exactly when the rewriting changes none of them and no key comes twice. -/
theorem putAll_map_perm_iff {f : α → α} (hf : ∀ x, f (f x) = f x) (as : List α) :
    (putAll key [] (as.map f)).Perm as ↔ (∀ a ∈ as, f a = a) ∧ (as.map key).Nodup := by
  constructor
  · intro h
    refine ⟨fun a ha => ?_, (h.map key).nodup_iff.mp (putAll_nodup List.nodup_nil)⟩
    have hm : a ∈ as.map f := by simpa using mem_putAll (h.mem_iff.mpr ha)
    obtain ⟨b, -, rfl⟩ := List.mem_map.mp hm
    exact hf b
  · rintro ⟨hf, hn⟩
    have hmap : as.map f = as.map id := List.map_congr_left hf
    rw [hmap, List.map_id, putAll_of_nodup (by simpa using hn)]
    simp

end KeyedList
