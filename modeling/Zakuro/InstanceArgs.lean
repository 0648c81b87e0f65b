import Zakuro.ConvertEnv
import Zakuro.Json

/-!
# ParseInstanceToArgs

An instance of the config file becomes one list of arguments for each of its
copies. The calls of `add_option`, `add_flag` and `add_json_option` stand in
tables, in their order. `boost::json::serialize` is a parameter.
-/

namespace Util

/-- The members of a JSON object. -/
abbrev Members := List (String × Json)

/-- A call of one of the three functions that add a member's arguments. -/
inductive Adder where
  | option : String → Adder
  | flag : String → Adder
  | json : String → Adder
  deriving DecidableEq, Repr

def generalAdders : List Adder :=
  [.option "name", .option "vcs", .option "vcs-hatch-rate", .option "duration",
    .option "repeat-interval", .option "max-retry", .option "retry-interval",
    .flag "no-video-device", .flag "no-audio-device", .flag "fake-capture-device",
    .option "fake-video-capture", .option "fake-audio-capture", .flag "sandstorm",
    .option "video-device", .option "resolution", .option "framerate", .flag "fixed-resolution",
    .option "priority", .flag "insecure", .option "openh264", .option "scenario",
    .option "client-cert", .option "client-key", .option "initial-mute-video",
    .option "initial-mute-audio", .option "degradation-preference", .option "vp8-encoder",
    .option "vp9-encoder", .option "av1-encoder", .option "h264-encoder", .option "h265-encoder"]

/-- The calls for the `sora` object, behind its `signaling-url`. -/
def soraAdders : List Adder :=
  [.flag "disable-signaling-url-randomization", .option "channel-id", .option "client-id",
    .option "bundle-id", .option "role", .option "video", .option "audio",
    .option "video-codec-type", .option "audio-codec-type", .option "video-bit-rate",
    .option "audio-bit-rate", .option "simulcast", .option "simulcast-rid", .option "spotlight",
    .option "spotlight-number", .option "spotlight-focus-rid", .option "spotlight-unfocus-rid",
    .option "data-channel-signaling", .option "data-channel-signaling-timeout",
    .option "ignore-disconnect-websocket", .option "disconnect-wait-timeout", .json "metadata",
    .json "signaling-notify-metadata", .json "data-channels", .json "video-vp9-params",
    .json "video-av1-params", .json "video-h264-params", .json "video-h265-params"]

section Args

variable (serialize : Json → String)

def primitiveValueToString : Json → String
  | .string text => text
  | .array _ => ""
  | .object _ => ""
  | value => serialize value

/-- What a call adds to `args`, for a name prefix. -/
def Adder.add (envs : List (String × String)) (obj : Members) (namePrefix : String) :
    Adder → List String
  | .option key =>
    match obj.lookup key with
    | some value =>
      ["--" ++ namePrefix ++ key, convertEnv (primitiveValueToString serialize value) envs]
    | none => []
  | .flag key =>
    match obj.lookup key with
    | some (.bool true) => ["--" ++ namePrefix ++ key]
    | _ => []
  | .json key =>
    match obj.lookup key with
    | some value => ["--" ++ namePrefix ++ key, serialize value]
    | none => []

/-- The arguments of `sora.signaling-url`, a string or an array: anything else throws. -/
def signalingUrlArgs (envs : List (String × String)) (sora : Members) : Option (List String) :=
  match sora.lookup "signaling-url" with
  | none => some []
  | some (.array urls) =>
    some ("--sora-signaling-url" ::
      urls.map fun url => convertEnv (primitiveValueToString serialize url) envs)
  | some (.string url) => some ["--sora-signaling-url", convertEnv url envs]
  | some _ => none

def soraArgs (envs : List (String × String)) (obj : Members) : Option (List String) :=
  match obj.lookup "sora" with
  | none => some []
  | some (.object sora) =>
    (signalingUrlArgs serialize envs sora).map
      (· ++ soraAdders.flatMap (Adder.add serialize envs sora "sora-"))
  | some _ => none

/-- The arguments of the copy `i` of an instance. -/
def instanceArgs (obj : Members) (i : Nat) : Option (List String) :=
  let envs := [("", toString (i + 1))]
  (soraArgs serialize envs obj).map (generalAdders.flatMap (Adder.add serialize envs obj "") ++ ·)

/-- `instance-num`, which throws when it is no `int`. -/
def instanceNum (obj : Members) : Option Int :=
  match obj.lookup "instance-num" with
  | some value => value.asInt?
  | none => some 1

/-- `ParseInstanceToArgs`, without a result when it throws. -/
def parseInstanceToArgs : Json → Option (List (List String))
  | .object obj => do
    let num ← instanceNum obj
    (List.range num.toNat).mapM (instanceArgs serialize obj)
  | _ => none

end Args

/-! ## The template of an instance -/

/-- A token that is the same for all copies, or the value of an option. -/
inductive Token where
  | fixed : String → Token
  | value : String → Token
  deriving DecidableEq, Repr

/-- The token in the list of the copy `i`. -/
def Token.at (i : Nat) : Token → String
  | fixed text => text
  | value text => String.ofList (Template.fill (toString (i + 1)).toList (template text.toList))

section Tokens

variable (serialize : Json → String)

def Adder.tokens (obj : Members) (namePrefix : String) : Adder → List Token
  | .option key =>
    match obj.lookup key with
    | some value =>
      [.fixed ("--" ++ namePrefix ++ key), .value (primitiveValueToString serialize value)]
    | none => []
  | .flag key =>
    match obj.lookup key with
    | some (.bool true) => [.fixed ("--" ++ namePrefix ++ key)]
    | _ => []
  | .json key =>
    match obj.lookup key with
    | some value => [.fixed ("--" ++ namePrefix ++ key), .fixed (serialize value)]
    | none => []

def signalingUrlTokens (sora : Members) : List Token :=
  match sora.lookup "signaling-url" with
  | some (.array urls) =>
    .fixed "--sora-signaling-url" ::
      urls.map fun url => .value (primitiveValueToString serialize url)
  | some (.string url) => [.fixed "--sora-signaling-url", .value url]
  | _ => []

def soraTokens (obj : Members) : List Token :=
  match obj.lookup "sora" with
  | some (.object sora) =>
    signalingUrlTokens serialize sora ++ soraAdders.flatMap (Adder.tokens serialize sora "sora-")
  | _ => []

/-- The template of the argument lists of an instance. -/
def instanceTokens (obj : Members) : List Token :=
  generalAdders.flatMap (Adder.tokens serialize obj "") ++ soraTokens serialize obj

end Tokens

/-- Null, a boolean or a number. -/
def isScalar : Json → Bool
  | .string _ | .array _ | .object _ => false
  | _ => true

/-- In the strings that an instance gives its options, `${` only comes as a part
of `${}`. -/
structure HoledStrings (obj : Members) : Prop where
  general : ∀ key text, obj.lookup key = some (.string text) → OnlyHoles text.toList
  sora : ∀ sora, obj.lookup "sora" = some (.object sora) →
    ∀ key text, sora.lookup key = some (.string text) → OnlyHoles text.toList
  urls : ∀ sora, obj.lookup "sora" = some (.object sora) →
    ∀ urls, sora.lookup "signaling-url" = some (.array urls) →
      ∀ text, .string text ∈ urls → OnlyHoles text.toList

section Expansion

variable {serialize : Json → String}

theorem onlyHoles_of_not_mem {cs : List Char} (h : '$' ∉ cs) : OnlyHoles cs := by
  rintro before after rfl
  exact absurd (by simp) h

theorem primitiveValueToString_holes (hs : ∀ v, isScalar v = true → '$' ∉ (serialize v).toList)
    {v : Json} (hv : ∀ text, v = .string text → OnlyHoles text.toList) :
    OnlyHoles (primitiveValueToString serialize v).toList := by
  cases v with
  | string text => exact hv text rfl
  | array _ => exact onlyHoles_of_not_mem (by simp [primitiveValueToString])
  | object _ => exact onlyHoles_of_not_mem (by simp [primitiveValueToString])
  | _ => exact onlyHoles_of_not_mem (hs _ rfl)

/-- Every value among the tokens is a text with holes. -/
def Holed (tokens : List Token) : Prop := ∀ text, .value text ∈ tokens → OnlyHoles text.toList

theorem Holed.append {as bs : List Token} : Holed (as ++ bs) ↔ Holed as ∧ Holed bs := by
  simp only [Holed, List.mem_append]
  constructor
  · intro h
    exact ⟨fun text ht => h text (.inl ht), fun text ht => h text (.inr ht)⟩
  · rintro ⟨ha, hb⟩ text (ht | ht)
    · exact ha text ht
    · exact hb text ht

theorem at_value {i : Nat} {text : String} (h : OnlyHoles text.toList) :
    (Token.value text).at i = convertEnv text [("", toString (i + 1))] :=
  (convertEnv_template h _).symm

/-- The arguments of a member are its tokens. -/
theorem Adder.add_eq {obj : Members} {namePrefix : String} {a : Adder} (i : Nat)
    (h : Holed (a.tokens serialize obj namePrefix)) :
    a.add serialize [("", toString (i + 1))] obj namePrefix =
      (a.tokens serialize obj namePrefix).map (Token.at i) := by
  cases a with
  | option key =>
    simp only [Adder.add, Adder.tokens] at h ⊢
    split
    next value hvalue =>
      rw [hvalue] at h
      have hv := h (primitiveValueToString serialize value) (by simp)
      rw [List.map_cons, List.map_cons, at_value hv]
      rfl
    · rfl
  | flag key =>
    simp only [Adder.add, Adder.tokens]
    split <;> rfl
  | json key =>
    simp only [Adder.add, Adder.tokens]
    split <;> rfl

theorem adders_eq {obj : Members} {namePrefix : String} (adders : List Adder) (i : Nat)
    (h : Holed (adders.flatMap (Adder.tokens serialize obj namePrefix))) :
    adders.flatMap (Adder.add serialize [("", toString (i + 1))] obj namePrefix) =
      (adders.flatMap (Adder.tokens serialize obj namePrefix)).map (Token.at i) := by
  rw [List.map_flatMap]
  refine List.flatMap_congr fun a ha => ?_
  exact Adder.add_eq i fun text ht => h text (List.mem_flatMap.mpr ⟨a, ha, ht⟩)

theorem signalingUrlArgs_eq {sora : Members} {args : List String} (i : Nat)
    (h : Holed (signalingUrlTokens serialize sora))
    (ha : signalingUrlArgs serialize [("", toString (i + 1))] sora = some args) :
    args = (signalingUrlTokens serialize sora).map (Token.at i) := by
  unfold signalingUrlArgs at ha
  unfold signalingUrlTokens at h ⊢
  split at ha
  next hnone =>
    obtain rfl := Option.some.inj ha
    simp [hnone]
  next urls hurls =>
    obtain rfl := Option.some.inj ha
    simp only [hurls, List.map_cons, List.map_map] at h ⊢
    refine congrArg₂ _ rfl (List.map_congr_left fun url hurl => (at_value (h _ ?_)).symm)
    exact List.mem_cons_of_mem _ (List.mem_map.mpr ⟨url, hurl, rfl⟩)
  next url hurl =>
    obtain rfl := Option.some.inj ha
    simp only [hurl] at h ⊢
    rw [List.map_cons, List.map_cons, at_value (h url (by simp))]
    rfl
  · simp at ha

theorem instanceArgs_eq {obj : Members} {args : List String} {i : Nat}
    (h : Holed (instanceTokens serialize obj)) (ha : instanceArgs serialize obj i = some args) :
    args = (instanceTokens serialize obj).map (Token.at i) := by
  obtain ⟨hgeneral, hsora⟩ := Holed.append.mp h
  obtain ⟨sora, hs, rfl⟩ := Option.map_eq_some_iff.mp ha
  rw [instanceTokens, List.map_append, adders_eq generalAdders i hgeneral]
  congr 1
  unfold soraArgs at hs
  unfold soraTokens at hsora ⊢
  split at hs
  next hnone =>
    obtain rfl := Option.some.inj hs
    simp [hnone]
  next sora' hobj =>
    obtain ⟨urls, hurls, rfl⟩ := Option.map_eq_some_iff.mp hs
    rw [hobj] at hsora ⊢
    obtain ⟨hu, hrest⟩ := Holed.append.mp hsora
    rw [List.map_append, adders_eq soraAdders i hrest, signalingUrlArgs_eq i hu hurls]
  · simp at hs

/-- What holds of each result of a loop holds of all results. -/
theorem mapM_eq_map {α β : Type} {f : α → Option β} {g : α → β} {as : List α} {bs : List β}
    (h : as.mapM f = some bs) (hf : ∀ a ∈ as, ∀ b, f a = some b → b = g a) : bs = as.map g := by
  induction as generalizing bs with
  | nil => simpa using h.symm
  | cons a as ih =>
    rw [List.mapM_cons] at h
    obtain ⟨b, hb, h⟩ := Option.bind_eq_some_iff.mp h
    obtain ⟨bs', hbs, h⟩ := Option.bind_eq_some_iff.mp h
    obtain rfl : b :: bs' = bs := Option.some.inj h
    obtain ⟨ha, has⟩ := List.forall_mem_cons.mp hf
    rw [List.map_cons, ha b hb, ih hbs has]

theorem Adder.tokens_holed (hs : ∀ v, isScalar v = true → '$' ∉ (serialize v).toList)
    {obj : Members} (h : ∀ key text, obj.lookup key = some (.string text) → OnlyHoles text.toList)
    (namePrefix : String) (adders : List Adder) :
    Holed (adders.flatMap (Adder.tokens serialize obj namePrefix)) := by
  intro text ht
  obtain ⟨a, -, ha⟩ := List.mem_flatMap.mp ht
  cases a with
  | option key =>
    simp only [Adder.tokens] at ha
    split at ha
    next value hvalue =>
      obtain rfl : text = primitiveValueToString serialize value := by simpa using ha
      exact primitiveValueToString_holes hs fun t he => h key t (he ▸ hvalue)
    · simp at ha
  | flag key =>
    simp only [Adder.tokens] at ha
    split at ha <;> simp at ha
  | json key =>
    simp only [Adder.tokens] at ha
    split at ha <;> simp at ha

theorem instanceTokens_holed (hs : ∀ v, isScalar v = true → '$' ∉ (serialize v).toList)
    {obj : Members} (h : HoledStrings obj) : Holed (instanceTokens serialize obj) := by
  refine Holed.append.mpr ⟨Adder.tokens_holed hs h.general "" generalAdders, ?_⟩
  unfold soraTokens
  split
  next sora hsora =>
    refine Holed.append.mpr ⟨?_, Adder.tokens_holed hs (h.sora sora hsora) "sora-" soraAdders⟩
    intro text ht
    unfold signalingUrlTokens at ht
    split at ht
    next urls hurls =>
      obtain ⟨url, hurl, rfl⟩ : ∃ url ∈ urls, primitiveValueToString serialize url = text := by
        simpa using ht
      exact primitiveValueToString_holes hs fun t he => h.urls sora hsora urls hurls t (he ▸ hurl)
    next url hurl =>
      obtain rfl : text = url := by simpa using ht
      exact h.sora sora hsora _ _ hurl
    · simp at ht
  · simp [Holed]

/-- Different copies of an instance differ in every value that has a hole. -/
theorem at_value_injective {i j : Nat} {text : String} (h : none ∈ template text.toList)
    (he : (Token.value text).at i = (Token.value text).at j) : i = j := by
  have hfill := Template.fill_injective h (String.ofList_injective he)
  have hrepr : Nat.toDigits 10 (i + 1) = Nat.toDigits 10 (j + 1) := by
    simpa [Nat.toString_eq_ofList_toDigits] using hfill
  have hnum := congrArg (Nat.ofDigitChars 10 · 0) hrepr
  simpa [Nat.ofDigitChars_toDigits] using hnum

/-- `instance-num` copies are made of one template: in the values of options, and
there alone, `${}` is replaced by the number of the copy. -/
theorem parseInstanceToArgs_template
    (hs : ∀ v, isScalar v = true → '$' ∉ (serialize v).toList) {obj : Members} {num : Int}
    {argss : List (List String)} (hnum : instanceNum obj = some num) (hpos : 0 ≤ num)
    (hstrings : HoledStrings obj) (h : parseInstanceToArgs serialize (.object obj) = some argss) :
    (argss.length : Int) = num ∧
    (argss = (List.range argss.length).map fun i =>
      (instanceTokens serialize obj).map (Token.at i)) ∧
    ∀ i < argss.length, ∀ j < argss.length, i ≠ j →
      ∀ text, .value text ∈ instanceTokens serialize obj →
        (∃ before after, text.toList = before ++ '$' :: '{' :: '}' :: after) →
          (Token.value text).at i ≠ (Token.value text).at j := by
  have hargss : argss = (List.range num.toNat).map fun i =>
      (instanceTokens serialize obj).map (Token.at i) := by
    simp only [parseInstanceToArgs, hnum, bind, Option.bind] at h
    exact mapM_eq_map h fun i _ args ha => instanceArgs_eq (instanceTokens_holed hs hstrings) ha
  have hlength : argss.length = num.toNat := by rw [hargss]; simp
  refine ⟨by omega, hlength ▸ hargss, ?_⟩
  rintro i - j - hne text - ⟨before, after, he⟩ heq
  exact hne (at_value_injective (he ▸ mem_template) heq)

end Expansion

/-- The texts of the primitives of a small instance. -/
def serializeSmall : Json → String
  | .bool b => if b then "true" else "false"
  | .int64 x => toString x.toNat
  | _ => "null"

theorem serializeSmall_holes (v : Json) : '$' ∉ (serializeSmall v).toList := by
  unfold serializeSmall
  split
  · split <;> decide
  next x =>
    rw [Nat.toString_eq_ofList_toDigits, String.toList_ofList]
    intro h
    exact absurd (Nat.isDigit_of_mem_toDigits (by decide) (by decide) h) (by decide)
  · decide

theorem parseInstanceToArgs_template_two :
    parseInstanceToArgs serializeSmall
        (.object [("name", .string "z-${}"), ("instance-num", .int64 2), ("vcs", .int64 5)]) =
      some [["--name", "z-1", "--vcs", "5"], ["--name", "z-2", "--vcs", "5"]] ∧
    (Token.value "z-${}").at 0 ≠ (Token.value "z-${}").at 1 := by
  have hstrings : HoledStrings
      [("name", .string "z-${}"), ("instance-num", .int64 2), ("vcs", .int64 5)] := by
    refine ⟨fun key text h => ?_, by simp [List.lookup_cons], by simp [List.lookup_cons]⟩
    simp only [List.lookup_cons] at h
    split at h
    · obtain rfl : "z-${}" = text := by simpa using h
      decide
    · split at h
      · simp at h
      · split at h <;> simp at h
  have hparse : parseInstanceToArgs serializeSmall
      (.object [("name", .string "z-${}"), ("instance-num", .int64 2), ("vcs", .int64 5)]) =
      some [["--name", "z-1", "--vcs", "5"], ["--name", "z-2", "--vcs", "5"]] := by
    decide +kernel
  have hnum : instanceNum
      [("name", .string "z-${}"), ("instance-num", .int64 2), ("vcs", .int64 5)] = some 2 := rfl
  have h := parseInstanceToArgs_template (fun v _ => serializeSmall_holes v) hnum (by decide)
    hstrings hparse
  exact ⟨hparse, h.2.2 0 (by decide) 1 (by decide) (by decide) "z-${}" (by decide +kernel)
    ⟨['z', '-'], [], rfl⟩⟩

end Util
