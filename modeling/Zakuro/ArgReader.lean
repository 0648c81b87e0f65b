import Mathlib.Data.List.Basic
import Mathlib.Data.List.TakeWhile

/-!
# Reading a command line

The rule by which an argument list is read from left to right, for any table of
options. A flag takes no token, an option with one value takes the next token
whatever it is, and an option with many values takes the next token and all
that follow up to the first one with a dash. A value may also be attached to the
name with `=`; an empty attached value counts as none.
-/

namespace ArgReader

inductive Arity where
  | flag : Arity
  | one : Arity
  | many : Arity
  deriving DecidableEq, Repr

/-- The options of a command line in their order, each with its values. -/
abbrev Given := List (String × List String)

/-- The text begins with a dash. -/
def dashed (text : String) : Bool := text.toList.head? = some '-'

/-- The name in a token, and the value attached to it. -/
def split (token : String) : String × Option String :=
  let name := token.toList.takeWhile (· ≠ '=')
  match token.toList.drop (name.length + 1) with
  | [] => (String.ofList name, none)
  | value => (String.ofList name, some (String.ofList value))

/-- What the next token is read as. -/
inductive Mode where
  | ready : Mode
  /-- the first value of an option that takes more of them, or no more -/
  | needs : String → Bool → Mode
  /-- another value of an option that has these -/
  | more : String → List String → Mode
  deriving DecidableEq, Repr

section Reading

variable (kind : String → Option Arity)

/-- A token where an option is due: the options that are complete with it. -/
def opening (token : String) : Option (Given × Mode) :=
  let (name, attached) := split token
  match kind name, attached with
  | none, _ => none
  | some .flag, _ => some ([(name, attached.toList)], .ready)
  | some .one, none => some ([], .needs name false)
  | some .one, some value => some ([(name, [value])], .ready)
  | some .many, none => some ([], .needs name true)
  | some .many, some value => some ([], .more name [value])

def step : Mode → String → Option (Given × Mode)
  | .ready, token => opening kind token
  | .needs name false, token => some ([(name, [token])], .ready)
  | .needs name true, token => some ([], .more name [token])
  | .more name values, token =>
    if dashed token then
      (opening kind token).map fun (done, mode) => ((name, values) :: done, mode)
    else some ([], .more name (values ++ [token]))

/-- What the end of the command line completes. -/
def finish : Mode → Option Given
  | .ready => some []
  | .needs _ _ => none
  | .more name values => some [(name, values)]

def readFrom : Mode → List String → Option Given
  | mode, [] => finish mode
  | mode, token :: tokens =>
    match step kind mode token with
    | none => none
    | some (done, next) => (readFrom next tokens).map (done ++ ·)

/-- The options that a command line gives, or nothing when it is refused. -/
def readArgs (tokens : List String) : Option Given := readFrom kind .ready tokens

end Reading

/-- The values of the last occurrence of an option. -/
def takeLast (given : Given) (name : String) : Option (List String) :=
  ((given.filter (·.1 = name)).getLast?).map Prod.snd

/-- The values of all occurrences of an option. -/
def takeAll (given : Given) (name : String) : Option (List String) :=
  let all := given.filter (·.1 = name)
  if all.isEmpty then none else some (all.flatMap Prod.snd)

/-! ## Reading what was written -/

/-- The tokens of options, with their values behind their names. -/
def unread (given : Given) : List String := given.flatMap fun p => p.1 :: p.2

/-- A name that is read as this name. -/
structure Plain (name : String) : Prop where
  dash : dashed name = true
  bare : split name = (name, none)

/-- An option whose tokens are read as this option. -/
inductive Clean (kind : String → Option Arity) : String × List String → Prop where
  | flag {name : String} : Plain name → kind name = some .flag → Clean kind (name, [])
  | one {name value : String} : Plain name → kind name = some .one → Clean kind (name, [value])
  | many {name value : String} {values : List String} :
    Plain name → kind name = some .many → (∀ v ∈ values, dashed v = false) →
      Clean kind (name, value :: values)

/-- An option with many values stops at these tokens. -/
def Stops (tokens : List String) : Prop := ∀ token ∈ tokens.head?, dashed token = true

variable {kind : String → Option Arity}

/-- The option whose values are being read. -/
def Mode.option : Mode → Option String
  | ready => none
  | needs name _ => some name
  | more name _ => some name

theorem readFrom_cons {mode : Mode} {token : String} {tokens : List String} {given : Given} :
    readFrom kind mode (token :: tokens) = some given ↔
      ∃ done next rest, step kind mode token = some (done, next) ∧
        readFrom kind next tokens = some rest ∧ done ++ rest = given := by
  rw [readFrom]
  cases step kind mode token with
  | none => simp
  | some found =>
    obtain ⟨done, next⟩ := found
    simp [Option.map_eq_some_iff]

theorem split_bare {name : String} (h : '=' ∉ name.toList) : split name = (name, none) := by
  have htake : name.toList.takeWhile (· ≠ '=') = name.toList := by
    have hall : ∀ c ∈ name.toList, decide (c ≠ '=') = true := fun c hc => by
      simpa using fun he : c = '=' => h (he ▸ hc)
    exact List.takeWhile_eq_self_iff.mpr hall
  have hdrop : name.toList.drop (name.toList.length + 1) = [] := by simp
  simp only [split, htake, hdrop, String.ofList_toList]

theorem split_name (token : String) :
    (split token).1 = String.ofList (token.toList.takeWhile (· ≠ '=')) := by
  simp only [split]
  split <;> rfl

/-- A token is the name in it, or has an equals sign and a value behind it. -/
theorem split_cases (token : String) : token = (split token).1 ∨
    ∃ rest, token.toList = (split token).1.toList ++ '=' :: rest ∧
      (split token).2 = if rest = [] then none else some (String.ofList rest) := by
  have happend := List.takeWhile_append_dropWhile (p := (· ≠ '=')) (l := token.toList)
  cases hd : token.toList.dropWhile (· ≠ '=') with
  | nil =>
    left
    rw [hd, List.append_nil] at happend
    rw [split_name, happend, String.ofList_toList]
  | cons c rest =>
    right
    have hc : c = '=' := by
      have hhead := List.head?_dropWhile_not (· ≠ '=') token.toList
      rw [hd] at hhead
      simpa using hhead
    rw [hd, hc] at happend
    refine ⟨rest, by rw [split_name, String.toList_ofList, happend], ?_⟩
    have hdrop : (token.toList.takeWhile (· ≠ '=') ++ '=' :: rest).drop
        ((token.toList.takeWhile (· ≠ '=')).length + 1) = ('=' :: rest).drop 1 :=
      List.drop_length_add_append 1
    rw [happend, List.drop_one, List.tail_cons] at hdrop
    simp only [split, hdrop]
    cases rest <;> simp

theorem readFrom_stops {name : String} {values tokens : List String} (h : Stops tokens) :
    readFrom kind (.more name values) tokens =
      (readFrom kind .ready tokens).map ((name, values) :: ·) := by
  cases tokens with
  | nil => rfl
  | cons token tokens =>
    have hd : dashed token = true := h token rfl
    rw [readFrom, readFrom, step, step, if_pos hd]
    cases opening kind token with
    | none => rfl
    | some next => simp [Function.comp_def]

theorem Stops.takeWhile {tokens : List String} (h : Stops tokens) :
    tokens.takeWhile (! dashed ·) = [] := by
  cases tokens with
  | nil => rfl
  | cons token tokens => simp [h token rfl]

theorem Stops.dropWhile {tokens : List String} (h : Stops tokens) :
    tokens.dropWhile (! dashed ·) = tokens := by
  cases tokens with
  | nil => rfl
  | cons token tokens => simp [h token rfl]

/-- The values of an option go up to the first token with a dash. -/
theorem readFrom_more {name : String} {values tokens : List String} :
    readFrom kind (.more name values) tokens =
      (readFrom kind .ready (tokens.dropWhile (! dashed ·))).map
        ((name, values ++ tokens.takeWhile (! dashed ·)) :: ·) := by
  induction tokens generalizing values with
  | nil => simp [readFrom, finish]
  | cons token tokens ih =>
    cases hd : dashed token with
    | true =>
      rw [readFrom_stops (fun t ht => by simpa [← Option.some.inj ht] using hd)]
      simp [hd]
    | false =>
      rw [readFrom, step, hd, if_neg (by simp)]
      simp [ih, hd, Function.comp_def]

theorem Clean.read_append {p : String × List String} (h : Clean kind p) {rest : List String}
    (hrest : Stops rest) :
    readArgs kind (p.1 :: p.2 ++ rest) = (readArgs kind rest).map (p :: ·) := by
  cases h with
  | flag hp hk => simp [readArgs, readFrom, step, opening, hp.bare, hk]
  | one hp hk => simp [readArgs, readFrom, step, opening, hp.bare, hk, Function.comp_def]
  | @many name value values hp hk hv =>
    have hall : ∀ v ∈ values, (! dashed v) = true := fun v hv' => by simp [hv v hv']
    have htake : (values ++ rest).takeWhile (! dashed ·) = values := by
      rw [List.takeWhile_append_of_pos hall, hrest.takeWhile, List.append_nil]
    have hdrop : (values ++ rest).dropWhile (! dashed ·) = rest := by
      rw [List.dropWhile_append_of_pos hall, hrest.dropWhile]
    simp [readArgs, readFrom, step, opening, hp.bare, hk, readFrom_more, htake, hdrop,
      Function.comp_def]

theorem Clean.stops {p : String × List String} (h : Clean kind p) (rest : List String) :
    Stops (p.1 :: p.2 ++ rest) := by
  intro token ht
  obtain rfl : p.1 = token := by simpa using ht
  cases h with
  | flag hp _ => exact hp.dash
  | one hp _ => exact hp.dash
  | many hp _ _ => exact hp.dash

theorem stops_unread {given : Given} (h : ∀ p ∈ given, Clean kind p) {rest : List String}
    (hrest : Stops rest) : Stops (unread given ++ rest) := by
  cases given with
  | nil => exact hrest
  | cons p given =>
    rw [unread, List.flatMap_cons, List.append_assoc]
    exact (h p List.mem_cons_self).stops _

/-- Options whose tokens are read as they are meant come back from their tokens,
whatever follows these. -/
theorem read_unread {given : Given} (h : ∀ p ∈ given, Clean kind p) {rest : List String}
    (hrest : Stops rest) :
    readArgs kind (unread given ++ rest) = (readArgs kind rest).map (given ++ ·) := by
  induction given with
  | nil => simp [unread]
  | cons p given ih =>
    obtain ⟨hp, hgiven⟩ := List.forall_mem_cons.mp h
    rw [unread, List.flatMap_cons, List.append_assoc, ← unread,
      hp.read_append (stops_unread hgiven hrest), ih hgiven]
    simp [Function.comp_def]

/-- The first option of a command line that begins with an option of many values. -/
theorem read_many {name value : String} {tokens : List String} {given : Given} (hp : Plain name)
    (hk : kind name = some .many) (h : readArgs kind (name :: value :: tokens) = some given) :
    given.head? = some (name, value :: tokens.takeWhile (! dashed ·)) := by
  rw [readArgs, readFrom, step, opening, hp.bare] at h
  simp only [hk, readFrom, step, readFrom_more] at h
  obtain ⟨rest, -, rfl⟩ : ∃ rest,
      readFrom kind .ready (tokens.dropWhile (! dashed ·)) = some rest ∧
      (name, value :: tokens.takeWhile (! dashed ·)) :: rest = given := by
    simpa using h
  rfl

/-- An option of many values that has none is not read as such. -/
theorem read_many_nil {name : String} {tokens : List String} {given : Given} (hp : Plain name)
    (hk : kind name = some .many) (h : readArgs kind (name :: tokens) = some given) :
    given.head? ≠ some (name, []) := by
  cases tokens with
  | nil => simp [readArgs, readFrom, step, opening, hp.bare, hk, finish] at h
  | cons value tokens => simp [read_many hp hk h]

/-! ## What is kept of an option -/

theorem takeLast_append (as bs : Given) (name : String) :
    takeLast (as ++ bs) name = (takeLast bs name).or (takeLast as name) := by
  rw [takeLast, takeLast, takeLast, List.filter_append, List.getLast?_append]
  cases (bs.filter (·.1 = name)).getLast? <;> rfl

theorem takeAll_append (as bs : Given) (name : String) :
    takeAll (as ++ bs) name =
      match takeAll as name, takeAll bs name with
      | none, values => values
      | some values, none => some values
      | some values, some values' => some (values ++ values') := by
  simp only [takeAll, List.filter_append, List.flatMap_append]
  cases as.filter (·.1 = name) with
  | nil => rfl
  | cons a as' =>
    cases bs.filter (·.1 = name) with
    | nil => simp
    | cons b bs' => simp

/-- An option that does not come is not kept. -/
theorem filter_absent {given : Given} {name : String} (h : ∀ p ∈ given, p.1 ≠ name) :
    given.filter (·.1 = name) = [] := by
  rw [List.filter_eq_nil_iff]
  intro p hp
  simpa using h p hp

theorem takeLast_absent {given : Given} {name : String} (h : ∀ p ∈ given, p.1 ≠ name) :
    takeLast given name = none := by
  rw [takeLast, filter_absent h]
  rfl

theorem takeAll_absent {given : Given} {name : String} (h : ∀ p ∈ given, p.1 ≠ name) :
    takeAll given name = none := by
  rw [takeAll, filter_absent h]
  rfl

/-- Leaving one option out changes nothing for another. -/
theorem filter_without {other name : String} (h : name ≠ other) (given : Given) :
    (given.filter (·.1 ≠ other)).filter (·.1 = name) = given.filter (·.1 = name) := by
  rw [List.filter_filter]
  refine List.filter_congr fun p _ => ?_
  by_cases hp : p.1 = name
  · simp [hp, h]
  · simp [hp]

theorem takeLast_without {other name : String} (h : name ≠ other) (given : Given) :
    takeLast (given.filter (·.1 ≠ other)) name = takeLast given name := by
  rw [takeLast, filter_without h, takeLast]

theorem takeAll_without {other name : String} (h : name ≠ other) (given : Given) :
    takeAll (given.filter (·.1 ≠ other)) name = takeAll given name := by
  simp only [takeAll, filter_without h]

/-- What is kept of all occurrences of an option that is read has a value. -/
theorem takeAll_ne_nil {given : Given} (h : ∀ p ∈ given, Clean kind p) {name : String}
    (hk : kind name = some .many) {values : List String} (hv : takeAll given name = some values) :
    values ≠ [] := by
  simp only [takeAll] at hv
  split at hv
  · simp at hv
  next hne =>
    obtain rfl := Option.some.inj hv
    cases hf : given.filter (·.1 = name) with
    | nil => simp [hf] at hne
    | cons p rest =>
      have hp : p ∈ given.filter (·.1 = name) := by simp [hf]
      obtain ⟨hmem, hname⟩ := List.mem_filter.mp hp
      have hname : p.1 = name := by simpa using hname
      cases h p hmem with
      | flag _ hflag => simp [← hname, hflag] at hk
      | one _ _ => simp
      | many _ _ _ => simp

/-- What is read begins with an option, and all names of options have a dash. -/
theorem stops_of_readArgs (hdash : ∀ name arity, kind name = some arity → dashed name = true)
    {tokens : List String} {given : Given} (h : readArgs kind tokens = some given) :
    Stops tokens := by
  cases tokens with
  | nil => simp [Stops]
  | cons token tokens =>
    intro t ht
    obtain rfl : token = t := by simpa using ht
    have hk : ∃ arity, kind (split token).1 = some arity := by
      cases hk : kind (split token).1 with
      | none => simp [readArgs, readFrom, step, opening, hk] at h
      | some arity => exact ⟨arity, rfl⟩
    obtain ⟨arity, hk⟩ := hk
    have hd := hdash _ _ hk
    rw [split_name, dashed, String.toList_ofList] at hd
    cases hl : token.toList with
    | nil => simp [hl] at hd
    | cons c cs =>
      rw [hl, List.takeWhile_cons] at hd
      split at hd
      · simpa [dashed, hl] using hd
      · simp at hd

end ArgReader
