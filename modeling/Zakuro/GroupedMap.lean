import Mathlib.Data.List.Perm.Basic

/-!
# Grouping by two keys

A map of maps of lists, filled one entry at a time. It lists the entries it was
filled with, each as often as it came, and it has no other keys than theirs. The
maps are ordered, as those of the source are. What a value lists is given by any
function, so that one level of the grouping is treated like the other.
-/

open Std

namespace GroupedMap

section OneKey

variable {κ β γ : Type} [Ord κ]

/-- `f(t[k])`, where a key that is not there yet gets the value `b` first. -/
def update (t : TreeMap κ β) (k : κ) (b : β) (f : β → β) : TreeMap κ β :=
  t.insert k (f (t.getD k b))

/-- Everything that the values of a map list under their keys. -/
def listing (w : κ → β → List γ) (t : TreeMap κ β) : List γ := t.toList.flatMap fun p => w p.1 p.2

variable [TransOrd κ] [LawfulEqOrd κ] {t : TreeMap κ β} {k : κ}

theorem forall_update {P : κ → β → Prop} {b : β} {f : β → β} (hb : P k b)
    (hf : ∀ c, P k c → P k (f c)) (h : ∀ a c, t[a]? = some c → P a c) :
    ∀ a c, (update t k b f)[a]? = some c → P a c := by
  intro a c hac
  rw [update, TreeMap.getElem?_insert] at hac
  split at hac
  next hka =>
    obtain rfl := compare_eq_iff_eq.mp hka
    obtain rfl := Option.some.inj hac
    apply hf
    rw [TreeMap.getD_eq_getD_getElem?]
    cases hk : t[k]? with
    | none => exact hb
    | some c => exact h k c hk
  next => exact h a c hac
variable [DecidableEq κ]

theorem toList_perm_of_getElem? {b : β} (h : t[k]? = some b) :
    t.toList.Perm ((k, b) :: t.toList.filter fun p => ¬(k == p.1) = true) := by
  have heq : t.Equiv (t.insert k b) := by
    apply TreeMap.Equiv.of_forall_constGet?_eq
    intro a
    rw [TreeMap.getElem?_insert]
    split
    next hka =>
      obtain rfl := compare_eq_iff_eq.mp hka
      exact h
    next => rfl
  exact (TreeMap.equiv_iff_toList_perm.mp heq).trans TreeMap.toList_insert_perm

theorem filter_toList_of_getElem?_none (h : t[k]? = none) :
    (t.toList.filter fun p => ¬(k == p.1) = true) = t.toList := by
  rw [List.filter_eq_self]
  rintro ⟨a, b⟩ hm
  rw [TreeMap.mem_toList_iff_getElem?_eq_some] at hm
  have hne : k ≠ a := by
    rintro rfl
    rw [h] at hm
    cases hm
  simpa using hne

/-- The key a value is updated under is taken out of the listing and put back. -/
theorem listing_perm {w : κ → β → List γ} {b : β} (hw : w k b = []) :
    (listing w t).Perm
      (w k (t.getD k b) ++ (t.toList.filter fun p => ¬(k == p.1) = true).flatMap fun p => w p.1 p.2) := by
  rw [listing, TreeMap.getD_eq_getD_getElem?]
  cases h : t[k]? with
  | none =>
    rw [filter_toList_of_getElem?_none h, Option.getD_none, hw, List.nil_append]
  | some c => exact (toList_perm_of_getElem? h).flatMap_right _

theorem listing_update {w : κ → β → List γ} {b : β} {f : β → β} {xs : List γ} (hw : w k b = [])
    (hf : ∀ b, (w k (f b)).Perm (w k b ++ xs)) : (listing w (update t k b f)).Perm (listing w t ++ xs) := by
  have hins : (update t k b f).toList.Perm
      ((k, f (t.getD k b)) :: t.toList.filter fun p => ¬(k == p.1) = true) := TreeMap.toList_insert_perm
  refine (hins.flatMap_right _).trans ?_
  rw [List.flatMap_cons]
  refine ((hf _).append_right _).trans ?_
  refine List.Perm.trans ?_ ((listing_perm hw).append_right xs).symm
  rw [List.append_assoc, List.append_assoc]
  exact List.perm_append_comm.append_left _

end OneKey

section TwoKeys

variable {κ ν α : Type} [Ord κ] [Ord ν]

def push (d : TreeMap κ (TreeMap ν (List α))) (e : κ × ν × α) : TreeMap κ (TreeMap ν (List α)) :=
  update d e.1 {} fun m => update m e.2.1 [] fun xs => xs ++ [e.2.2]

def group (es : List (κ × ν × α)) : TreeMap κ (TreeMap ν (List α)) := es.foldl push {}

/-- All entries of a grouping, each with its keys. -/
def entries (d : TreeMap κ (TreeMap ν (List α))) : List (κ × ν × α) :=
  listing (fun k m => listing (fun n xs => xs.map fun a => (k, n, a)) m) d

variable [TransOrd κ] [LawfulEqOrd κ] [TransOrd ν] [LawfulEqOrd ν] {d : TreeMap κ (TreeMap ν (List α))}

/-- The keys of both levels have the properties `P` and `Q`. -/
def Keyed (P : κ → Prop) (Q : ν → Prop) (d : TreeMap κ (TreeMap ν (List α))) : Prop :=
  ∀ k m, d[k]? = some m → P k ∧ ∀ n xs, m[n]? = some xs → Q n

theorem Keyed.push {P : κ → Prop} {Q : ν → Prop} (h : Keyed P Q d) {e : κ × ν × α} (hP : P e.1)
    (hQ : Q e.2.1) : Keyed P Q (push d e) := by
  refine forall_update (P := fun k m => P k ∧ ∀ n xs, m[n]? = some xs → Q n) ⟨hP, by simp⟩ ?_ h
  rintro m ⟨-, hm⟩
  exact ⟨hP, forall_update hQ (fun _ _ => hQ) hm⟩

/-- What holds of the keys of all entries holds of all keys. -/
theorem keyed_group {P : κ → Prop} {Q : ν → Prop} {es : List (κ × ν × α)}
    (h : ∀ e ∈ es, P e.1 ∧ Q e.2.1) : Keyed P Q (group es) := by
  suffices H : ∀ d, Keyed P Q d → Keyed P Q (es.foldl GroupedMap.push d) from H {} (by simp [Keyed])
  induction es with
  | nil => exact fun d hd => hd
  | cons e es ih =>
    intro d hd
    obtain ⟨he, hes⟩ := List.forall_mem_cons.mp h
    exact ih hes _ (hd.push he.1 he.2)

variable [DecidableEq κ] [DecidableEq ν]

theorem entries_push (e : κ × ν × α) : (entries (push d e)).Perm (entries d ++ [e]) := by
  apply listing_update
  · rfl
  · intro m
    apply listing_update
    · rfl
    · intro xs
      rw [List.map_append, List.map_singleton]

/-- Nothing that is put into a grouping is lost, and nothing comes twice. -/
theorem entries_group (es : List (κ × ν × α)) : (entries (group es)).Perm es := by
  suffices H : ∀ d, (entries (es.foldl push d)).Perm (entries d ++ es) from H {}
  induction es with
  | nil =>
    intro d
    simp
  | cons e es ih =>
    intro d
    rw [List.foldl_cons]
    refine (ih _).trans (((entries_push e).append_right es).trans ?_)
    rw [List.append_assoc, List.singleton_append]

end TwoKeys

end GroupedMap
