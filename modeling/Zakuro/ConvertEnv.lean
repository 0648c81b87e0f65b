import Mathlib.Data.List.Infix
import Zakuro.Template

/-!
# ConvertEnv

The matches of the expression `\$\{(.*?)\}`, from left to right: a match is the
shortest one at the leftmost place that has one, and `.` is no line terminator.
Of a text in which `${` only comes as a part of `${}`, the loop fills the holes.
-/

namespace Util

/-- `(.*?)\}`: the text before the first closing brace, and what is behind it. -/
def closing : List Char → Option (List Char × List Char)
  | [] => none
  | c :: cs =>
    if c = '}' then some ([], cs)
    else if c = '\n' ∨ c = '\r' then none
    else (closing cs).map fun (name, suffix) => (c :: name, suffix)

def matchAt : List Char → Option (List Char × List Char)
  | '$' :: '{' :: cs => closing cs
  | _ => none

/-- `m.prefix()`, `m[1]` and `m.suffix()` of the next match. -/
def search : List Char → Option (List Char × List Char × List Char)
  | [] => none
  | c :: cs =>
    match matchAt (c :: cs) with
    | some (name, suffix) => some ([], name, suffix)
    | none => (search cs).map fun (before, name, suffix) => (c :: before, name, suffix)

theorem closing_eq {cs name suffix : List Char} (h : closing cs = some (name, suffix)) :
    cs = name ++ '}' :: suffix := by
  induction cs generalizing name with
  | nil => simp [closing] at h
  | cons c cs ih =>
    rw [closing] at h
    split at h
    next hc =>
      obtain ⟨rfl, rfl⟩ := Prod.mk.inj (Option.some.inj h)
      rw [hc, List.nil_append]
    · split at h
      · simp at h
      · obtain ⟨⟨name', suffix'⟩, hn, he⟩ := Option.map_eq_some_iff.mp h
        obtain ⟨rfl, rfl⟩ := Prod.mk.inj he
        rw [ih hn, List.cons_append]

theorem matchAt_eq {cs name suffix : List Char} (h : matchAt cs = some (name, suffix)) :
    cs = ['$', '{'] ++ name ++ '}' :: suffix := by
  unfold matchAt at h
  split at h
  · simp [closing_eq h]
  · simp at h

/-- A match is a part of the text, where `search` says. -/
theorem search_eq {cs before name suffix : List Char}
    (h : search cs = some (before, name, suffix)) :
    cs = before ++ (['$', '{'] ++ name ++ '}' :: suffix) := by
  induction cs generalizing before with
  | nil => simp [search] at h
  | cons c cs ih =>
    rw [search] at h
    split at h
    next name' suffix' hm =>
      obtain ⟨rfl, hrest⟩ := Prod.mk.inj (Option.some.inj h)
      obtain ⟨rfl, rfl⟩ := Prod.mk.inj hrest
      exact matchAt_eq hm
    · obtain ⟨⟨before', name', suffix'⟩, hs, he⟩ := Option.map_eq_some_iff.mp h
      obtain ⟨rfl, hrest⟩ := Prod.mk.inj he
      obtain ⟨rfl, rfl⟩ := Prod.mk.inj hrest
      rw [ih hs]
      rfl

/-- What a match is replaced by. -/
def replacement (envs : List (String × String)) (name : List Char) : List Char :=
  match envs.lookup (String.ofList name) with
  | some value => value.toList
  | none => ['$', '{'] ++ name ++ ['}']

/-- The loop over the matches, at what follows the last one. Without any match it
leaves the input as it is. -/
def convertLoop (envs : List (String × String)) (result rest : List Char) : List Char :=
  match _h : search rest with
  | some (before, name, suffix) =>
    convertLoop envs (result ++ before ++ replacement envs name) suffix
  | none => result ++ rest
termination_by rest.length
decreasing_by
  rw [search_eq _h]
  simp
  omega

def convertEnv (input : String) (envs : List (String × String)) : String :=
  String.ofList (convertLoop envs [] input.toList)

/-! ## Texts with holes -/

/-- The template of a text in which `${}` stands for a hole. -/
def template : List Char → List (Option Char)
  | '$' :: '{' :: '}' :: cs => none :: template cs
  | c :: cs => some c :: template cs
  | [] => []

/-- In the text `${` only comes as a part of `${}`. -/
def OnlyHoles (cs : List Char) : Prop :=
  ∀ before after, cs = before ++ '$' :: '{' :: after → ∃ rest, after = '}' :: rest

theorem onlyHoles_iff (cs : List Char) : OnlyHoles cs ↔
    ∀ tail ∈ cs.tails, tail.take 2 = ['$', '{'] → (tail.drop 2).head? = some '}' := by
  constructor
  · intro h tail ht htake
    obtain ⟨before, rfl⟩ := (List.mem_tails _ _).mp ht
    have htail : tail = '$' :: '{' :: tail.drop 2 := by
      rw [← List.take_append_drop 2 tail, htake]
      rfl
    obtain ⟨rest, hrest⟩ := h before (tail.drop 2) (by rw [← htail])
    rw [hrest]
    rfl
  · rintro h before after rfl
    have hhead : after.head? = some '}' :=
      h ('$' :: '{' :: after) ((List.mem_tails _ _).mpr (List.suffix_append _ _)) rfl
    cases after with
    | nil => simp at hhead
    | cons c rest => exact ⟨rest, by simpa using hhead⟩

instance (cs : List Char) : Decidable (OnlyHoles cs) := decidable_of_iff' _ (onlyHoles_iff cs)

theorem OnlyHoles.of_append {after : List Char} (before : List Char)
    (h : OnlyHoles (before ++ after)) : OnlyHoles after := by
  intro b a he
  exact h (before ++ b) a (by rw [he, List.append_assoc])

theorem mem_template {before after : List Char} :
    none ∈ template (before ++ '$' :: '{' :: '}' :: after) := by
  generalize hs : before ++ '$' :: '{' :: '}' :: after = cs
  fun_induction template cs generalizing before with
  | case1 cs ih => exact List.mem_cons_self
  | case2 c cs hc ih =>
    cases before with
    | nil =>
      obtain ⟨rfl, rfl⟩ := List.cons.inj hs
      exact absurd rfl (hc after rfl)
    | cons b before =>
      obtain ⟨-, hs⟩ := List.cons.inj hs
      exact List.mem_cons_of_mem _ (ih hs)
  | case3 => simp at hs

/-- Where no hole begins, the template goes on with the letter. -/
theorem template_cons {c : Char} {cs : List Char}
    (h : ∀ rest, c :: cs ≠ '$' :: '{' :: '}' :: rest) :
    template (c :: cs) = some c :: template cs := by
  rw [template]
  rintro rest rfl rfl
  exact h rest rfl

theorem matchAt_of_not_hole {cs : List Char} (h : OnlyHoles cs)
    (hc : ∀ rest, cs ≠ '$' :: '{' :: '}' :: rest) : matchAt cs = none := by
  unfold matchAt
  split
  next after =>
    obtain ⟨rest, rfl⟩ := h [] after rfl
    exact absurd rfl (hc rest)
  · rfl

/-- The next match in a text with holes is its first hole. -/
theorem search_template {cs : List Char} (h : OnlyHoles cs) (text : List Char) :
    match search cs with
    | some (before, name, suffix) => name = [] ∧
        Template.fill text (template cs) =
          before ++ text ++ Template.fill text (template suffix)
    | none => Template.fill text (template cs) = cs := by
  induction cs with
  | nil => rfl
  | cons c cs ih =>
    by_cases hc : ∃ rest, c :: cs = '$' :: '{' :: '}' :: rest
    · obtain ⟨rest, he⟩ := hc
      rw [he]
      exact ⟨rfl, rfl⟩
    · have hc : ∀ rest, c :: cs ≠ '$' :: '{' :: '}' :: rest := fun rest he => hc ⟨rest, he⟩
      have ih := ih (OnlyHoles.of_append [c] h)
      rw [search, matchAt_of_not_hole h hc, template_cons hc]
      cases hs : search cs with
      | none => simpa [Template.fill, hs] using ih
      | some found =>
        obtain ⟨before, name, suffix⟩ := found
        simpa [Template.fill, hs] using ih

theorem convertLoop_template {cs : List Char} (h : OnlyHoles cs) (text : String)
    (result : List Char) :
    convertLoop [("", text)] result cs = result ++ Template.fill text.toList (template cs) := by
  have hsearch := search_template h text.toList
  fun_induction convertLoop [("", text)] result cs with
  | case1 result cs before name suffix hs ih =>
    rw [hs] at hsearch
    obtain ⟨rfl, hfill⟩ := hsearch
    rw [search_eq hs] at h
    have hsuffix : OnlyHoles suffix := (h.of_append before).of_append ['$', '{', '}']
    rw [ih hsuffix (search_template hsuffix text.toList), hfill]
    simp [replacement]
  | case2 result cs hs =>
    rw [hs] at hsearch
    rw [hsearch]

/-- `${}` is replaced wherever it stands, and nothing else is. -/
theorem convertEnv_template {input : String} (h : OnlyHoles input.toList) (text : String) :
    convertEnv input [("", text)] =
      String.ofList (Template.fill text.toList (template input.toList)) := by
  rw [convertEnv, convertLoop_template h, List.nil_append]

end Util
