import Zakuro.ArgReader
import Zakuro.InstanceArgs

/-!
# Reading the arguments of an instance

`ParseInstanceToArgs` writes its tokens one behind the other, and `ParseArgs`
reads them again. What is read is what was written as long as every
`signaling-url` array has a first URL and no dash at the beginning of another.
-/

namespace Util

open ArgReader

/-! ## The options of ParseArgs -/

def flagOptions : List String :=
  ["--version", "--show-video-codec-capability", "--ui", "--no-video-device", "--no-audio-device",
    "--fake-capture-device", "--sandstorm", "--fixed-resolution", "--insecure",
    "--sora-disable-signaling-url-randomization"]

/-- The options with `take_all()`. -/
def manyOptions : List String := ["--sora-signaling-url"]

def singleOptions : List String :=
  ["--config", "--log-level", "--http-host", "--http-port", "--ui-remote-url",
    "--output-file-connection-id", "--instance-hatch-rate", "--name", "--vcs", "--vcs-hatch-rate",
    "--duration", "--repeat-interval", "--max-retry", "--retry-interval", "--fake-video-capture",
    "--fake-audio-capture", "--video-device", "--resolution", "--framerate", "--priority",
    "--openh264", "--scenario", "--client-cert", "--client-key", "--initial-mute-video",
    "--initial-mute-audio", "--degradation-preference", "--sora-channel-id", "--sora-client-id",
    "--sora-bundle-id", "--sora-role", "--sora-video", "--sora-audio", "--sora-video-codec-type",
    "--sora-audio-codec-type", "--sora-video-bit-rate", "--sora-audio-bit-rate",
    "--sora-simulcast", "--sora-simulcast-rid", "--sora-spotlight", "--sora-spotlight-number",
    "--sora-spotlight-focus-rid", "--sora-spotlight-unfocus-rid", "--sora-data-channel-signaling",
    "--sora-data-channel-signaling-timeout", "--sora-ignore-disconnect-websocket",
    "--sora-disconnect-wait-timeout", "--sora-metadata", "--sora-signaling-notify-metadata",
    "--sora-data-channels", "--sora-video-vp9-params", "--sora-video-av1-params",
    "--sora-video-h264-params", "--sora-video-h265-params", "--vp8-encoder", "--vp9-encoder",
    "--av1-encoder", "--h264-encoder", "--h265-encoder"]

def optionKind (name : String) : Option Arity :=
  if name ∈ flagOptions then some .flag
  else if name ∈ manyOptions then some .many
  else if name ∈ singleOptions then some .one
  else none

/-! ## Where a converted text begins -/

/-- What is converted is appended to what has been. -/
theorem convertLoop_append (envs : List (String × String)) (result rest : List Char) :
    ∃ converted, convertLoop envs result rest = result ++ converted := by
  fun_induction convertLoop envs result rest with
  | case1 result rest before name suffix hs ih =>
    obtain ⟨converted, hc⟩ := ih
    exact ⟨before ++ replacement envs name ++ converted, by rw [hc]; simp⟩
  | case2 result rest hs => exact ⟨rest, rfl⟩

theorem replacement_head {text : String} (ht : text ≠ "") (hd : dashed text = false)
    (name : List Char) : ∃ c cs, replacement [("", text)] name = c :: cs ∧ c ≠ '-' := by
  unfold replacement
  split
  next value hv =>
    obtain rfl : text = value := by
      simp only [List.lookup_cons] at hv
      split at hv
      · exact Option.some.inj hv
      · simp at hv
    cases hl : text.toList with
    | nil => exact absurd (String.toList_eq_nil_iff.mp hl) ht
    | cons c cs => exact ⟨c, cs, rfl, by simpa [dashed, hl] using hd⟩
  · exact ⟨'$', '{' :: (name ++ ['}']), rfl, by decide⟩

/-- Converting keeps a dash at the beginning of a text, and adds none there. -/
theorem dashed_convertEnv {text : String} (ht : text ≠ "") (hd : dashed text = false)
    (input : String) : dashed (convertEnv input [("", text)]) = dashed input := by
  suffices h : (convertLoop [("", text)] [] input.toList).head? = some '-' ↔
      input.toList.head? = some '-' by
    simp [dashed, convertEnv, h]
  rw [convertLoop]
  split
  next before name suffix hs =>
    obtain ⟨converted, hc⟩ := convertLoop_append [("", text)]
      ([] ++ before ++ replacement [("", text)] name) suffix
    obtain ⟨c, cs, hr, hne⟩ := replacement_head ht hd name
    rw [hc, hr, search_eq hs]
    cases before with
    | nil => simp [hne]
    | cons b before => simp
  · rfl

/-! ## What an instance emits -/

section Emitted

variable (serialize : Json → String)

/-- The option that a call emits, with its values. -/
def Adder.given (envs : List (String × String)) (obj : Members) (namePrefix : String) :
    Adder → Given
  | .option key =>
    match obj.lookup key with
    | some value =>
      [("--" ++ namePrefix ++ key, [convertEnv (primitiveValueToString serialize value) envs])]
    | none => []
  | .flag key =>
    match obj.lookup key with
    | some (.bool true) => [("--" ++ namePrefix ++ key, [])]
    | _ => []
  | .json key =>
    match obj.lookup key with
    | some value => [("--" ++ namePrefix ++ key, [serialize value])]
    | none => []

/-- One value for each URL. -/
def signalingUrlGiven (envs : List (String × String)) (sora : Members) : Given :=
  match sora.lookup "signaling-url" with
  | some (.array urls) =>
    [("--sora-signaling-url",
      urls.map fun url => convertEnv (primitiveValueToString serialize url) envs)]
  | some (.string url) => [("--sora-signaling-url", [convertEnv url envs])]
  | _ => []

def soraGiven (envs : List (String × String)) (obj : Members) : Given :=
  match obj.lookup "sora" with
  | some (.object sora) =>
    signalingUrlGiven serialize envs sora ++
      soraAdders.flatMap (Adder.given serialize envs sora "sora-")
  | _ => []

/-- The options that the copy `i` of an instance emits. -/
def instanceGiven (obj : Members) (i : Nat) : Given :=
  let envs := [("", toString (i + 1))]
  generalAdders.flatMap (Adder.given serialize envs obj "") ++ soraGiven serialize envs obj

/-- An array of signaling URLs has a first one, and no other begins with a dash. -/
def UrlsReadable (obj : Members) : Prop :=
  ∀ sora, obj.lookup "sora" = some (.object sora) →
    ∀ urls, sora.lookup "signaling-url" = some (.array urls) →
      urls ≠ [] ∧ ∀ url ∈ urls.tail, dashed (primitiveValueToString serialize url) = false

end Emitted

section Reading

variable {serialize : Json → String}

theorem unread_append (as bs : Given) : unread (as ++ bs) = unread as ++ unread bs :=
  List.flatMap_append

theorem Adder.add_eq_unread (envs : List (String × String)) (obj : Members) (namePrefix : String)
    (a : Adder) : a.add serialize envs obj namePrefix =
      unread (a.given serialize envs obj namePrefix) := by
  cases a with
  | option key => cases h : obj.lookup key <;> simp [Adder.add, Adder.given, unread, h]
  | flag key =>
    cases h : obj.lookup key with
    | none => simp [Adder.add, Adder.given, unread, h]
    | some value =>
      cases value with
      | bool b => cases b <;> simp [Adder.add, Adder.given, unread, h]
      | _ => simp [Adder.add, Adder.given, unread, h]
  | json key => cases h : obj.lookup key <;> simp [Adder.add, Adder.given, unread, h]

theorem adders_eq_unread (envs : List (String × String)) (obj : Members) (namePrefix : String)
    (adders : List Adder) : adders.flatMap (Adder.add serialize envs obj namePrefix) =
      unread (adders.flatMap (Adder.given serialize envs obj namePrefix)) := by
  rw [unread, List.flatMap_assoc]
  exact List.flatMap_congr fun a _ => a.add_eq_unread envs obj namePrefix

/-- The argument list of a copy is what the emitted options are written as. -/
theorem instanceArgs_unread {obj : Members} {i : Nat} {args : List String}
    (h : instanceArgs serialize obj i = some args) : args = unread (instanceGiven serialize obj i) := by
  obtain ⟨sora, hs, rfl⟩ := Option.map_eq_some_iff.mp h
  rw [instanceGiven, unread_append, adders_eq_unread]
  congr 1
  unfold soraArgs at hs
  unfold soraGiven
  split at hs
  next hnone =>
    obtain rfl := Option.some.inj hs
    simp [hnone, unread]
  next sora' hobj =>
    obtain ⟨urls, hurls, rfl⟩ := Option.map_eq_some_iff.mp hs
    simp only [hobj]
    rw [unread_append, adders_eq_unread]
    congr 1
    unfold signalingUrlArgs at hurls
    unfold signalingUrlGiven
    split at hurls
    next hnone =>
      obtain rfl := Option.some.inj hurls
      simp [hnone, unread]
    next urls' hurl =>
      obtain rfl := Option.some.inj hurls
      simp [hurl, unread]
    next url hurl =>
      obtain rfl := Option.some.inj hurls
      simp [hurl, unread]
    · simp at hurls
  · simp at hs

/-- The name that a call emits is a name of `ParseArgs`, of the right arity. -/
def Adder.Known (namePrefix : String) : Adder → Prop
  | .option key => "--" ++ namePrefix ++ key ∈ singleOptions
  | .flag key => "--" ++ namePrefix ++ key ∈ flagOptions
  | .json key => "--" ++ namePrefix ++ key ∈ singleOptions

theorem generalAdders_known : ∀ a ∈ generalAdders, a.Known "" := by
  simp only [generalAdders, Adder.Known, singleOptions, flagOptions, List.forall_mem_cons,
    String.reduceAppend, List.not_mem_nil, false_implies, implies_true, and_true]
  repeat' apply And.intro
  all_goals repeat first | exact List.mem_cons_self | apply List.mem_cons_of_mem

theorem soraAdders_known : ∀ a ∈ soraAdders, a.Known "sora-" := by
  simp only [soraAdders, Adder.Known, singleOptions, flagOptions, List.forall_mem_cons,
    String.reduceAppend, List.not_mem_nil, false_implies, implies_true, and_true]
  repeat' apply And.intro
  all_goals repeat first | exact List.mem_cons_self | apply List.mem_cons_of_mem

theorem other_not_single : ∀ name ∈ flagOptions ++ manyOptions, name ∉ singleOptions := by
  simp [singleOptions, flagOptions, manyOptions]

theorem optionKind_single {name : String} (h : name ∈ singleOptions) :
    optionKind name = some .one := by
  have hf : name ∉ flagOptions := fun hf => other_not_single name (List.mem_append_left _ hf) h
  have hm : name ∉ manyOptions := fun hm => other_not_single name (List.mem_append_right _ hm) h
  rw [optionKind, if_neg hf, if_neg hm, if_pos h]

theorem optionKind_flag {name : String} (h : name ∈ flagOptions) :
    optionKind name = some .flag :=
  if_pos h

theorem plain_ofList (cs : List Char) (hd : cs.head? = some '-') (he : '=' ∉ cs) :
    Plain (String.ofList cs) := by
  refine ⟨?_, split_bare ?_⟩
  · rw [dashed, String.toList_ofList, decide_eq_true_iff]
    exact hd
  · rw [String.toList_ofList]
    exact he

/-- All names of options begin with a dash and have no equals sign. -/
theorem options_plain : ∀ name ∈ flagOptions ++ manyOptions ++ singleOptions, Plain name := by
  simp only [flagOptions, manyOptions, singleOptions, List.forall_mem_append, List.forall_mem_cons,
    List.not_mem_nil, false_implies, implies_true, and_true]
  repeat' apply And.intro
  all_goals exact plain_ofList _ (by decide) (by decide)

theorem optionKind_plain {name : String} {arity : Arity} (h : optionKind name = some arity) :
    Plain name := by
  refine options_plain name ?_
  simp only [optionKind] at h
  split at h
  next hf => simp [hf]
  · split at h
    next hm => simp [hm]
    · split at h
      next hs => simp [hs]
      · simp at h

theorem clean_single {name : String} (h : name ∈ singleOptions) (value : String) :
    Clean optionKind (name, [value]) := by
  have hk := optionKind_single h
  exact .one (optionKind_plain hk) hk

theorem clean_flag {name : String} (h : name ∈ flagOptions) : Clean optionKind (name, []) := by
  have hk := optionKind_flag h
  exact .flag (optionKind_plain hk) hk

theorem Adder.given_clean {a : Adder} {namePrefix : String} (h : a.Known namePrefix)
    (envs : List (String × String)) (obj : Members) :
    ∀ p ∈ a.given serialize envs obj namePrefix, Clean optionKind p := by
  intro p hp
  cases a with
  | option key =>
    simp only [Adder.given] at hp
    split at hp
    · obtain rfl := List.mem_singleton.mp hp
      exact clean_single h _
    · simp at hp
  | flag key =>
    simp only [Adder.given] at hp
    split at hp
    · obtain rfl := List.mem_singleton.mp hp
      exact clean_flag h
    · simp at hp
  | json key =>
    simp only [Adder.given] at hp
    split at hp
    · obtain rfl := List.mem_singleton.mp hp
      exact clean_single h _
    · simp at hp

theorem adders_clean {adders : List Adder} {namePrefix : String}
    (h : ∀ a ∈ adders, a.Known namePrefix) (envs : List (String × String))
    (obj : Members) :
    ∀ p ∈ adders.flatMap (Adder.given serialize envs obj namePrefix), Clean optionKind p := by
  intro p hp
  obtain ⟨a, ha, hp⟩ := List.mem_flatMap.mp hp
  exact Adder.given_clean (h a ha) envs obj p hp

theorem signalingUrl_plain : Plain "--sora-signaling-url" := by
  have hk : optionKind "--sora-signaling-url" = some .many := by decide
  exact optionKind_plain hk

/-- No decimal number begins with a dash. -/
theorem dashed_number (n : Nat) : dashed (toString n) = false := by
  rw [dashed, Nat.toString_eq_ofList_toDigits, String.toList_ofList, decide_eq_false_iff_not]
  intro h
  have hdigit := Nat.isDigit_of_mem_toDigits (by decide) (by decide) (List.mem_of_head? h)
  exact absurd hdigit (by decide)

theorem dashed_url (i : Nat) (url : String) :
    dashed (convertEnv url [("", toString (i + 1))]) = dashed url := by
  refine dashed_convertEnv (fun he => ?_) (dashed_number _) url
  rw [Nat.toString_eq_ofList_toDigits, String.ofList_eq_empty_iff] at he
  exact Nat.toDigits_ne_nil he

theorem instanceGiven_clean {obj : Members} (h : UrlsReadable serialize obj) (i : Nat) :
    ∀ p ∈ instanceGiven serialize obj i, Clean optionKind p := by
  have hgeneral : ∀ p ∈ generalAdders.flatMap
      (Adder.given serialize [("", toString (i + 1))] obj ""), Clean optionKind p :=
    adders_clean generalAdders_known _ obj
  refine List.forall_mem_append.mpr ⟨hgeneral, ?_⟩
  unfold soraGiven
  split
  next sora hsora =>
    refine List.forall_mem_append.mpr ⟨?_, adders_clean soraAdders_known _ sora⟩
    unfold signalingUrlGiven
    split
    next urls hurls =>
      obtain ⟨hne, htail⟩ := h sora hsora urls hurls
      cases urls with
      | nil => exact absurd rfl hne
      | cons url urls =>
        intro p hp
        obtain rfl := List.mem_singleton.mp hp
        refine .many signalingUrl_plain (by decide) fun v hv => ?_
        obtain ⟨u, hu, rfl⟩ := List.mem_map.mp hv
        rw [dashed_url]
        exact htail u hu
    · intro p hp
      obtain rfl := List.mem_singleton.mp hp
      exact .many signalingUrl_plain (by decide) (by simp)
    · simp
  · simp

/-- What a list that is read as it was written says of its signaling URLs. -/
theorem urls_of_read {urls : List String} {before after : Given}
    (hb : ∀ p ∈ before, Clean optionKind p)
    (h : readArgs optionKind (unread (before ++ ("--sora-signaling-url", urls) :: after)) =
      some (before ++ ("--sora-signaling-url", urls) :: after)) :
    urls ≠ [] ∧ ∀ url ∈ urls.tail, dashed url = false := by
  have hstops : Stops (unread (("--sora-signaling-url", urls) :: after)) := by
    intro token ht
    obtain rfl : "--sora-signaling-url" = token := by simpa [unread] using ht
    decide
  rw [unread_append, read_unread hb hstops] at h
  obtain ⟨given, hread, hgiven⟩ := Option.map_eq_some_iff.mp h
  obtain rfl := List.append_cancel_left hgiven
  cases urls with
  | nil => exact absurd rfl (read_many_nil signalingUrl_plain (by decide) hread)
  | cons url urls =>
    refine ⟨by simp, fun v hv => ?_⟩
    have hhead := read_many signalingUrl_plain (by decide) hread
    have hurls : urls = (urls ++ unread after).takeWhile (! dashed ·) :=
      (List.cons.inj (Prod.mk.inj (Option.some.inj hhead)).2).2
    rw [List.tail_cons, hurls] at hv
    simpa using List.all_eq_true.mp List.all_takeWhile v hv

/-- The argument lists of an instance, one for each copy. -/
theorem parseInstanceToArgs_copies {obj : Members} {argss : List (List String)}
    (h : parseInstanceToArgs serialize (.object obj) = some argss) :
    ∃ num, instanceNum obj = some num ∧
      argss = (List.range num.toNat).map fun i => unread (instanceGiven serialize obj i) := by
  obtain ⟨num, hnum, hargss⟩ : ∃ num, instanceNum obj = some num ∧
      (List.range num.toNat).mapM (instanceArgs serialize obj) = some argss :=
    Option.bind_eq_some_iff.mp h
  exact ⟨num, hnum, mapM_eq_map hargss fun i _ args ha => instanceArgs_unread ha⟩

/-- The generated argument lists are read as they were written exactly when there
is none, or when `signaling-url` can be read. -/
theorem parseInstanceToArgs_read_iff {obj : Members} {argss : List (List String)}
    (h : parseInstanceToArgs serialize (.object obj) = some argss) :
    (∀ i (hi : i < argss.length),
      readArgs optionKind (argss.get ⟨i, hi⟩) = some (instanceGiven serialize obj i)) ↔
      (∃ num, num ≤ 0 ∧ instanceNum obj = some num) ∨ UrlsReadable serialize obj := by
  obtain ⟨num, hnum, hmap⟩ := parseInstanceToArgs_copies h
  have hlist : ∀ i (hi : i < argss.length),
      argss.get ⟨i, hi⟩ = unread (instanceGiven serialize obj i) := by
    intro i hi
    simp [hmap]
  have hlength : argss.length = num.toNat := by simp [hmap]
  constructor
  · intro hread
    by_cases hpos : num ≤ 0
    · exact .inl ⟨num, hpos, hnum⟩
    · right
      intro sora hsora urls hurls
      have h0 : 0 < argss.length := by omega
      have hread := hread 0 h0
      rw [hlist, instanceGiven] at hread
      simp only [soraGiven, hsora, signalingUrlGiven, hurls, List.singleton_append] at hread
      obtain ⟨hne, htail⟩ := urls_of_read (adders_clean generalAdders_known _ obj) hread
      refine ⟨by simpa using hne, fun url hurl => ?_⟩
      rw [← dashed_url 0]
      refine htail _ ?_
      rw [← List.map_tail]
      exact List.mem_map.mpr ⟨url, hurl, rfl⟩
  · rintro (⟨num', hle, hnum'⟩ | hurls) i hi
    · obtain rfl : num = num' := Option.some.inj (hnum.symm.trans hnum')
      omega
    · rw [hlist, ← List.append_nil (unread _),
        read_unread (instanceGiven_clean hurls i) (by simp [Stops])]
      simp [readArgs, readFrom, finish]

end Reading

theorem parseInstanceToArgs_read_two : readArgs optionKind
      ["--name", "z-1", "--sora-signaling-url", "wss://a", "wss://b", "--sora-channel-id", "--ui"] =
    some [("--name", ["z-1"]), ("--sora-signaling-url", ["wss://a", "wss://b"]),
      ("--sora-channel-id", ["--ui"])] := by
  have h : parseInstanceToArgs serializeSmall (.object [("name", .string "z-${}"),
      ("sora", .object [("signaling-url", .array [.string "wss://a", .string "wss://b"]),
        ("channel-id", .string "--ui")])]) =
      some [["--name", "z-1", "--sora-signaling-url", "wss://a", "wss://b", "--sora-channel-id",
        "--ui"]] := by
    decide +kernel
  refine ((parseInstanceToArgs_read_iff h).mpr (.inr ?_) 0 (by decide)).trans (by decide +kernel)
  intro sora hsora urls hurls
  obtain rfl : _ = sora := by simpa [List.lookup_cons] using hsora
  obtain rfl : _ = urls := by simpa [List.lookup_cons] using hurls
  exact ⟨by simp, by simp [primitiveValueToString]; decide⟩

/-- With no URL in the array the option takes the name of the next one. -/
theorem parseInstanceToArgs_not_read :
    parseInstanceToArgs serializeSmall (.object [("sora", .object [("signaling-url", .array []),
        ("channel-id", .string "zakuro")])]) =
      some [["--sora-signaling-url", "--sora-channel-id", "zakuro"]] ∧
    readArgs optionKind ["--sora-signaling-url", "--sora-channel-id", "zakuro"] =
      some [("--sora-signaling-url", ["--sora-channel-id", "zakuro"])] ∧
    readArgs optionKind ["--sora-signaling-url", "--sora-channel-id", "zakuro"] ≠
      some (instanceGiven serializeSmall [("sora", .object [("signaling-url", .array []),
        ("channel-id", .string "zakuro")])] 0) := by
  decide +kernel

end Util
