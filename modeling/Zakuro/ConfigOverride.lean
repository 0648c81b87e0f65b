import Zakuro.ConfigFile

/-!
# The command line overrides the config file

The arguments of an instance are read as the common options, those of the file
and those of the command line, one behind the other. An option whose last value
counts is overridden by that; the signaling URLs are all kept, so that those of
the file stay in front.
-/

namespace Util

open ArgReader

/-! ## The command line without its config file -/

/-- The token is one that is taken for `--config`. -/
def looksConfig (token : String) : Bool :=
  token = "--config" || "--config=".toList.isPrefixOf token.toList

/-- No value that stands in a token of its own, but for the path of the config
file, is taken for `--config`, and no `--config=` lacks its path. -/
def configClear : Mode → List String → Bool
  | _, [] => true
  | mode, token :: tokens =>
    (match mode with
      | .needs name _ => name = "--config" || !looksConfig token
      | _ => token ≠ "--config=") &&
    match step optionKind mode token with
    | some (_, next) => configClear next tokens
    | none => true

theorem optionKind_dashed (name : String) (arity : Arity) (h : optionKind name = some arity) :
    dashed name = true :=
  (optionKind_plain h).dash

theorem dashed_of_looksConfig {token : String} (h : looksConfig token = true) :
    dashed token = true := by
  rcases Bool.or_eq_true_iff.mp h with h | h
  · obtain rfl := of_decide_eq_true h
    decide
  · obtain ⟨rest, hrest⟩ := List.isPrefixOf_iff_prefix.mp h
    rw [dashed, ← hrest]
    rfl

theorem looksConfig_iff (token : String) :
    looksConfig token = true ↔ (split token).1 = "--config" := by
  constructor
  · intro h
    rcases Bool.or_eq_true_iff.mp h with h | h
    · obtain rfl := of_decide_eq_true h
      decide
    · obtain ⟨rest, hrest⟩ := List.isPrefixOf_iff_prefix.mp h
      rw [split_name, ← hrest]
      rfl
  · intro h
    rcases split_cases token with he | ⟨rest, he, -⟩
    · rw [he, h]
      decide
    · refine Bool.or_eq_true_iff.mpr (.inr (List.isPrefixOf_iff_prefix.mpr ⟨rest, ?_⟩))
      rw [he, h]
      rfl

/-- A token that is taken for `--config` either is that or has the path attached. -/
theorem opening_config {token : String} (h : looksConfig token = true)
    (hne : token ≠ "--config=") :
    (token = "--config" ∧ opening optionKind token = some ([], .needs "--config" false)) ∨
    token ≠ "--config" ∧
      ∃ path, opening optionKind token = some ([("--config", [path])], .ready) := by
  have hname := (looksConfig_iff token).mp h
  have hkind : optionKind "--config" = some .one := by decide
  rcases split_cases token with he | ⟨rest, he, hrest⟩
  · left
    rw [hname] at he
    subst he
    exact ⟨rfl, by decide⟩
  · right
    rw [hname] at he
    have hrest0 : rest ≠ [] := by
      rintro rfl
      exact hne (String.toList_inj.mp he)
    refine ⟨by rintro rfl; simp at he, String.ofList rest, ?_⟩
    simp [opening, hname, hkind, hrest, hrest0]

/-- Any other token opens another option. -/
theorem opening_other {token : String} (h : looksConfig token = false) {done : Given} {mode : Mode}
    (ho : opening optionKind token = some (done, mode)) :
    (∀ p ∈ done, p.1 ≠ "--config") ∧ mode.option ≠ some "--config" := by
  have hname : (split token).1 ≠ "--config" := by
    rw [← Bool.not_eq_true, looksConfig_iff] at h
    exact h
  simp only [opening] at ho
  split at ho
  · simp at ho
  all_goals
    obtain ⟨rfl, rfl⟩ := Prod.mk.inj (Option.some.inj ho)
    simp [hname, Mode.option]

theorem postArgs_attached {token : String} (h : looksConfig token = true)
    (hne : token ≠ "--config") (tokens : List String) :
    postArgs false (token :: tokens) = postArgs false tokens := by
  rcases Bool.or_eq_true_iff.mp h with h | h
  · exact absurd (of_decide_eq_true h) hne
  · rw [postArgs, if_neg hne, if_pos h]

theorem postArgs_other {token : String} (h : looksConfig token = false) (tokens : List String) :
    postArgs false (token :: tokens) = token :: postArgs false tokens := by
  obtain ⟨hne, hattached⟩ := Bool.or_eq_false_iff.mp h
  rw [postArgs, if_neg (of_decide_eq_false hne), if_neg (by rw [hattached]; simp)]

theorem configClear_cons {mode next : Mode} {token : String} {tokens : List String} {done : Given}
    (h : configClear mode (token :: tokens) = true)
    (hs : step optionKind mode token = some (done, next)) : configClear next tokens = true := by
  unfold configClear at h
  rw [hs] at h
  exact (Bool.and_eq_true_iff.mp h).2

theorem ne_of_configClear {token : String} {tokens : List String}
    (h : configClear .ready (token :: tokens) = true) : token ≠ "--config=" := by
  unfold configClear at h
  exact of_decide_eq_true (Bool.and_eq_true_iff.mp h).1

theorem looksConfig_of_configClear {name token : String} {many : Bool} {tokens : List String}
    (hm : name ≠ "--config") (h : configClear (.needs name many) (token :: tokens) = true) :
    looksConfig token = false := by
  unfold configClear at h
  simpa [hm] using (Bool.and_eq_true_iff.mp h).1

/-- A token with a dash is seen in the same way where an option has many values. -/
theorem configClear_dashed {name token : String} {values tokens : List String}
    (hd : dashed token = true) (h : configClear (.more name values) (token :: tokens) = true) :
    configClear .ready (token :: tokens) = true := by
  unfold configClear at h ⊢
  simp only [step, hd, if_true] at h ⊢
  cases ho : opening optionKind token with
  | none => simpa [ho] using h
  | some found => simpa [ho] using h

/-- Without `--config` the tokens give the same other options. -/
def Unconfigured (mode : Mode) (tokens : List String) : Prop :=
  configClear mode tokens = true → ∀ given, readFrom optionKind mode tokens = some given →
    readFrom optionKind mode (postArgs false tokens) = some (given.filter (·.1 ≠ "--config"))

theorem unconfigured_nil {mode : Mode} (hm : mode.option ≠ some "--config") :
    Unconfigured mode [] := by
  intro _ given h
  cases mode with
  | ready =>
    obtain rfl : [] = given := by simpa [readFrom, finish] using h
    rfl
  | needs name many => simp [readFrom, finish] at h
  | more name values =>
    obtain rfl : [(name, values)] = given := by simpa [readFrom, finish] using h
    have hname : name ≠ "--config" := by simpa [Mode.option] using hm
    simp [postArgs, readFrom, finish, hname]

/-- A token that stays is read as before. -/
theorem unconfigured_kept {mode : Mode} {token : String} {tokens : List String}
    (hl : looksConfig token = false)
    (hnext : ∀ done next, step optionKind mode token = some (done, next) →
      (∀ p ∈ done, p.1 ≠ "--config") ∧ next.option ≠ some "--config")
    (ih : ∀ next : Mode, next.option ≠ some "--config" → Unconfigured next tokens) :
    Unconfigured mode (token :: tokens) := by
  intro hc given h
  obtain ⟨done, next, rest, hs, hrest, rfl⟩ := readFrom_cons.mp h
  obtain ⟨hdone, hoption⟩ := hnext done next hs
  have hfilter : done.filter (·.1 ≠ "--config") = done :=
    List.filter_eq_self.mpr fun p hp => by simpa using hdone p hp
  rw [postArgs_other hl, List.filter_append, hfilter]
  exact readFrom_cons.mpr
    ⟨done, next, _, hs, ih next hoption (configClear_cons hc hs) rest hrest, rfl⟩

/-- Where an option is due, `--config` goes with its path. -/
theorem unconfigured_ready {token : String} {tokens : List String}
    (ih : ∀ rest : List String, rest.length ≤ tokens.length →
      ∀ next : Mode, next.option ≠ some "--config" → Unconfigured next rest) :
    Unconfigured .ready (token :: tokens) := by
  cases hl : looksConfig token with
  | false => exact unconfigured_kept hl (fun _ _ hs => opening_other hl hs) (ih tokens le_rfl)
  | true =>
    intro hc given h
    obtain ⟨done, next, rest, hs, hrest, rfl⟩ := readFrom_cons.mp h
    have hc' := configClear_cons hc hs
    rcases opening_config hl (ne_of_configClear hc) with ⟨rfl, ho⟩ | ⟨hne, path, ho⟩
    · -- the path is the next token
      obtain ⟨rfl, rfl⟩ : [] = done ∧ .needs "--config" false = next := by
        simpa [step, ho] using hs
      cases tokens with
      | nil => simp [readFrom, finish] at hrest
      | cons path tokens =>
        obtain ⟨done, next, rest', hs', hrest', rfl⟩ := readFrom_cons.mp hrest
        obtain ⟨rfl, rfl⟩ : [("--config", [path])] = done ∧ .ready = next := by
          simpa [step] using hs'
        have hpost := ih tokens (by simp) .ready (by simp [Mode.option])
          (configClear_cons hc' hs') rest' hrest'
        simpa [postArgs] using hpost
    · obtain ⟨rfl, rfl⟩ : [("--config", [path])] = done ∧ .ready = next := by
        simpa [step, ho] using hs
      rw [postArgs_attached hl hne]
      simpa using ih tokens le_rfl .ready (by simp [Mode.option]) hc' rest hrest

/-- Without its `--config` the command line gives the same other options. -/
theorem readFrom_postArgs {mode : Mode} (tokens : List String)
    (hm : mode.option ≠ some "--config") : Unconfigured mode tokens := by
  match tokens with
  | [] => exact unconfigured_nil hm
  | token :: tokens =>
    have ih : ∀ rest : List String, rest.length ≤ tokens.length →
        ∀ next : Mode, next.option ≠ some "--config" → Unconfigured next rest :=
      fun rest _ next hn => readFrom_postArgs rest hn
    cases mode with
    | ready => exact unconfigured_ready ih
    | needs name many =>
      intro hc
      have hname : name ≠ "--config" := by simpa [Mode.option] using hm
      refine unconfigured_kept (looksConfig_of_configClear hname hc) (fun done next hs => ?_)
        (ih tokens le_rfl) hc
      cases many with
      | false =>
        obtain ⟨rfl, rfl⟩ : [(name, [token])] = done ∧ .ready = next := by simpa [step] using hs
        simp [hname, Mode.option]
      | true =>
        obtain ⟨rfl, rfl⟩ : [] = done ∧ .more name [token] = next := by simpa [step] using hs
        simp [hname, Mode.option]
    | more name values =>
      have hname : name ≠ "--config" := by simpa [Mode.option] using hm
      cases hd : dashed token with
      | false =>
        have hl : looksConfig token = false := by
          rw [← Bool.not_eq_true]
          intro hl
          rw [dashed_of_looksConfig hl] at hd
          exact absurd hd (by decide)
        refine unconfigured_kept hl (fun done next hs => ?_) (ih tokens le_rfl)
        obtain ⟨rfl, rfl⟩ : [] = done ∧ .more name (values ++ [token]) = next := by
          simpa [step, hd] using hs
        simp [hname, Mode.option]
      | true =>
        -- the values end here, and what follows is read as where an option is due
        intro hc given h
        rw [readFrom_stops (fun t ht => by simpa [← Option.some.inj ht] using hd)] at h
        obtain ⟨rest, hrest, rfl⟩ := Option.map_eq_some_iff.mp h
        have hpost := unconfigured_ready ih (configClear_dashed hd hc) rest hrest
        rw [readFrom_stops (stops_of_readArgs optionKind_dashed hpost), hpost]
        simp [hname]
termination_by tokens.length
decreasing_by simp only [List.length_cons]; omega

/-! ## What the argument lists are read as -/

section Lists

variable {serialize : Json → String}

theorem parseInstanceToArgs_unread {value : Json} {argss : List (List String)}
    (h : parseInstanceToArgs serialize value = some argss) :
    argss = (copiesGiven serialize value).map unread := by
  cases value with
  | object obj =>
    obtain ⟨num, hnum, rfl⟩ := parseInstanceToArgs_copies h
    simp only [copiesGiven, hnum, List.map_map]
    rfl
  | _ => simp [parseInstanceToArgs] at h

theorem fileGiven_unread {instances : List Json} {argss : List (List (List String))}
    (h : instances.mapM (parseInstanceToArgs serialize) = some argss) :
    argss.flatten = (fileGiven serialize instances).map unread := by
  rw [mapM_eq_map h fun value _ argss ha => parseInstanceToArgs_unread ha, fileGiven,
    List.map_flatMap]
  rfl

/-- The instances whose argument lists are read as they are written. -/
def InstancesReadable (serialize : Json → String) (instances : List Json) : Prop :=
  ∀ obj, .object obj ∈ instances →
    (∃ num, num ≤ 0 ∧ instanceNum obj = some num) ∨ UrlsReadable serialize obj

theorem fileGiven_clean {instances : List Json} (h : InstancesReadable serialize instances) :
    ∀ file ∈ fileGiven serialize instances, ∀ p ∈ file, Clean optionKind p := by
  intro file hfile
  obtain ⟨value, hvalue, hfile⟩ := List.mem_flatMap.mp hfile
  unfold copiesGiven at hfile
  split at hfile
  next obj =>
    split at hfile
    next num hnum =>
      obtain ⟨i, hi, rfl⟩ := List.mem_map.mp hfile
      rcases h obj hvalue with ⟨num', hle, hnum'⟩ | hurls
      · obtain rfl := Option.some.inj (hnum.symm.trans hnum')
        have hlt := List.mem_range.mp hi
        omega
      · exact instanceGiven_clean hurls i
    · simp at hfile
  · simp at hfile

/-- The keys of the options that are common to all instances. -/
def commonKeys : List String :=
  ["log-level", "http-port", "http-host", "ui-remote-url", "output-file-connection-id",
    "instance-hatch-rate"]

theorem commonOption_mem {zakuro : Members} {keys : List String} {p : String × List String}
    (hkeys : keys ⊆ commonKeys) (h : p ∈ keys.flatMap (commonOption serialize zakuro)) :
    ∃ key ∈ commonKeys, ∃ value, p = ("--" ++ key, [value]) := by
  obtain ⟨key, hkey, hp⟩ := List.mem_flatMap.mp h
  unfold commonOption at hp
  split at hp
  next value _ => exact ⟨key, hkeys hkey, _, List.mem_singleton.mp hp⟩
  · simp at hp

/-- The common options are `--ui` and options with one value. -/
theorem commonGiven_mem {zakuro : Members} {common : Given}
    (h : commonGiven serialize zakuro = some common) {p : String × List String} (hp : p ∈ common) :
    p = ("--ui", []) ∨ ∃ key ∈ commonKeys, ∃ value, p = ("--" ++ key, [value]) := by
  obtain ⟨ui, hui, rfl⟩ := Option.map_eq_some_iff.mp h
  have hflag : ∀ p ∈ ui, p = ("--ui", []) := by
    split at hui
    · obtain rfl := Option.some.inj hui
      simp
    · obtain rfl := Option.some.inj hui
      simp
    · obtain rfl := Option.some.inj hui
      simp
    · simp at hui
  rcases List.mem_append.mp hp with hp | hp
  · rcases List.mem_append.mp hp with hp | hp
    · exact .inr (commonOption_mem (by simp [commonKeys]) hp)
    · exact .inl (hflag p hp)
  · exact .inr (commonOption_mem (by simp [commonKeys]) hp)

theorem commonKeys_known : ∀ key ∈ commonKeys,
    "--" ++ key ∈ singleOptions ∧ "--" ++ key ∈ commonOptions := by decide

theorem not_common_of_mem {name : String} (h : name ∈ instanceOptions) : name ∉ commonOptions :=
  of_decide_eq_true (List.mem_filter.mp h).2

theorem commonGiven_clean {zakuro : Members} {common : Given}
    (h : commonGiven serialize zakuro = some common) : ∀ p ∈ common, Clean optionKind p := by
  intro p hp
  rcases commonGiven_mem h hp with rfl | ⟨key, hkey, value, rfl⟩
  · exact clean_flag (by decide)
  · exact clean_single (commonKeys_known key hkey).1 value

theorem commonGiven_absent {zakuro : Members} {common : Given}
    (h : commonGiven serialize zakuro = some common) {name : String}
    (hname : name ∈ instanceOptions) : ∀ p ∈ common, p.1 ≠ name := by
  rintro p hp rfl
  rcases commonGiven_mem h hp with rfl | ⟨key, hkey, value, rfl⟩
  · have hui : "--ui" ∉ singleOptions ++ manyOptions := by decide
    exact hui (List.mem_filter.mp hname).1
  · exact not_common_of_mem hname (commonKeys_known key hkey).2

/-- Every configuration is read from the common options, those of one copy of an
instance and those of the command line. -/
theorem mainConfigs_eq {load : String → Option Json} {accepts : Bool → Given → Bool}
    {args : List String} {given : Given} {zakuro : Members} {instances : List Json}
    {configs : List Given} (hgiven : parseArgs accepts false args = some given)
    (hpath : configFile given ≠ "") (hload : load (configFile given) = some (.object zakuro))
    (hinstances : zakuro.lookup "instances" = some (.array instances))
    (hclear : configClear .ready args = true) (hreadable : InstancesReadable serialize instances)
    (h : mainConfigs serialize load accepts args = some configs) :
    ∃ common, commonGiven serialize zakuro = some common ∧
      configs = (fileGiven serialize instances).map fun file =>
        common ++ file ++ given.filter (·.1 ≠ "--config") := by
  have hread : readArgs optionKind args = some given := Option.eq_some_of_filter_eq_some hgiven
  have hpost : readArgs optionKind (postArgs false args) =
      some (given.filter (·.1 ≠ "--config")) :=
    readFrom_postArgs args (by simp [Mode.option]) hclear given hread
  obtain ⟨argss, hargss, hparse⟩ : ∃ argss, fileArgs serialize zakuro args = some argss ∧
      argss.mapM (parseArgs accepts true) = some configs := by
    simpa [mainConfigs, hgiven, hpath, hload, Option.bind_eq_some_iff] using h
  obtain ⟨common, hcommon, hargss⟩ := Option.bind_eq_some_iff.mp hargss
  simp only [hinstances] at hargss
  split at hargss
  · simp at hargss
  obtain ⟨copies, hcopies, hargss⟩ := Option.bind_eq_some_iff.mp hargss
  obtain rfl := Option.some.inj hargss
  rw [fileGiven_unread hcopies, List.map_map, List.mapM_map] at hparse
  refine ⟨common, hcommon, mapM_eq_map hparse fun file hfile config hconfig => ?_⟩
  have hclean : ∀ p ∈ common ++ file, Clean optionKind p :=
    List.forall_mem_append.mpr
      ⟨commonGiven_clean hcommon, fileGiven_clean hreadable file hfile⟩
  have hconfig : readArgs optionKind (unread common ++ unread file ++ postArgs false args) =
      some config := Option.eq_some_of_filter_eq_some hconfig
  rw [← unread_append, read_unread hclean (stops_of_readArgs optionKind_dashed hpost), hpost]
    at hconfig
  exact (Option.some.inj hconfig).symm

end Lists

/-! ## Which value counts -/

theorem setting_of_ne {name : String} (h : name ≠ "--sora-signaling-url") (given : Given) :
    setting given name = takeLast given name := by
  have hkind : optionKind name ≠ some .many := by
    unfold optionKind
    split
    · simp
    · simp only [manyOptions, List.mem_singleton, if_neg h]
      split <;> simp
  rw [setting, if_neg hkind]

theorem setting_signalingUrl (given : Given) :
    setting given "--sora-signaling-url" = takeAll given "--sora-signaling-url" :=
  if_pos (by decide)

theorem ne_config_of_mem {name : String} (h : name ∈ instanceOptions) : name ≠ "--config" := by
  rintro rfl
  exact not_common_of_mem h List.mem_cons_self

theorem signalingUrl_mem : "--sora-signaling-url" ∈ instanceOptions := by
  refine List.mem_filter.mpr ⟨List.mem_append_right _ List.mem_cons_self, ?_⟩
  decide

/-- An option with one value is always overridden. -/
theorem setting_overridden {common given : Given} {name : String} (file : Given)
    (hname : name ∈ instanceOptions) (hne : name ≠ "--sora-signaling-url")
    (hcommon : ∀ p ∈ common, p.1 ≠ name) :
    setting (common ++ file ++ given.filter (·.1 ≠ "--config")) name =
      (setting given name).or (setting file name) := by
  simp only [setting_of_ne hne]
  rw [takeLast_append, takeLast_append, takeLast_without (ne_config_of_mem hname),
    takeLast_absent hcommon, Option.or_none]

/-- The signaling URLs are overridden unless both the file and the command line
have some. -/
theorem signalingUrl_overridden_iff {common file given : Given}
    (hfile : ∀ p ∈ file, Clean optionKind p)
    (hcommon : ∀ p ∈ common, p.1 ≠ "--sora-signaling-url") :
    setting (common ++ file ++ given.filter (·.1 ≠ "--config")) "--sora-signaling-url" =
        (setting given "--sora-signaling-url").or (setting file "--sora-signaling-url") ↔
      setting given "--sora-signaling-url" = none ∨ setting file "--sora-signaling-url" = none := by
  simp only [setting_signalingUrl]
  rw [takeAll_append, takeAll_append, takeAll_without (by decide), takeAll_absent hcommon]
  cases hf : takeAll file "--sora-signaling-url" with
  | none => cases takeAll given "--sora-signaling-url" <;> simp
  | some urls =>
    have hne : urls ≠ [] := takeAll_ne_nil hfile (by decide) hf
    cases takeAll given "--sora-signaling-url" <;> simp [hne]

theorem overrides_iff {common file given : Given} (hfile : ∀ p ∈ file, Clean optionKind p)
    (hcommon : ∀ name ∈ instanceOptions, ∀ p ∈ common, p.1 ≠ name) :
    Overrides given file (common ++ file ++ given.filter (·.1 ≠ "--config")) ↔
      setting given "--sora-signaling-url" = none ∨ setting file "--sora-signaling-url" = none := by
  have hurl := @signalingUrl_overridden_iff common file given hfile (hcommon _ signalingUrl_mem)
  constructor
  · intro h
    exact hurl.mp (h _ signalingUrl_mem)
  · intro h name hname
    by_cases hne : name = "--sora-signaling-url"
    · rw [hne]
      exact hurl.mpr h
    · exact setting_overridden file hname hne (hcommon name hname)

/-- The command line overrides the config file exactly when the two do not both
have signaling URLs, for arguments that are read as they are written. -/
theorem mainConfigs_overrides_iff {serialize : Json → String} {load : String → Option Json}
    {accepts : Bool → Given → Bool} {args : List String} {given : Given} {zakuro : Members}
    {instances : List Json} {configs : List Given}
    (hgiven : parseArgs accepts false args = some given) (hpath : configFile given ≠ "")
    (hload : load (configFile given) = some (.object zakuro))
    (hinstances : zakuro.lookup "instances" = some (.array instances))
    (hclear : configClear .ready args = true) (hreadable : InstancesReadable serialize instances)
    (h : mainConfigs serialize load accepts args = some configs) :
    List.Forall₂ (Overrides given) (fileGiven serialize instances) configs ↔
      setting given "--sora-signaling-url" = none ∨
        ∀ file ∈ fileGiven serialize instances, setting file "--sora-signaling-url" = none := by
  obtain ⟨common, hcommon, rfl⟩ :=
    mainConfigs_eq hgiven hpath hload hinstances hclear hreadable h
  rw [List.forall₂_map_right_iff, List.forall₂_same]
  have hiff : ∀ file ∈ fileGiven serialize instances,
      Overrides given file (common ++ file ++ given.filter (·.1 ≠ "--config")) ↔
        setting given "--sora-signaling-url" = none ∨
          setting file "--sora-signaling-url" = none := fun file hfile =>
    overrides_iff (fileGiven_clean hreadable file hfile) fun name hname =>
      commonGiven_absent hcommon hname
  constructor
  · intro hall
    by_cases hnone : setting given "--sora-signaling-url" = none
    · exact .inl hnone
    · exact .inr fun file hfile => ((hiff file hfile).mp (hall file hfile)).resolve_left hnone
  · rintro (hnone | hnone) file hfile
    · exact (hiff file hfile).mpr (.inl hnone)
    · exact (hiff file hfile).mpr (.inr (hnone file hfile))

/-- A file with one instance, and its only URL. -/
def smallInstances : List Json :=
  [.object [("name", .string "file"), ("sora", .object [("signaling-url", .string "wss://file"),
    ("channel-id", .string "zakuro"), ("role", .string "sendonly")])]]

theorem mainConfigs_overrides_small :
    List.Forall₂ (Overrides [("--config", ["zakuro.jsonc"]), ("--name", ["line"])])
      (fileGiven serializeSmall smallInstances)
      [[("--name", ["file"]), ("--sora-signaling-url", ["wss://file"]),
        ("--sora-channel-id", ["zakuro"]), ("--sora-role", ["sendonly"]), ("--name", ["line"])]] := by
  have hreadable : InstancesReadable serializeSmall smallInstances := by
    intro obj hobj
    obtain rfl := Json.object.inj (List.mem_singleton.mp hobj)
    right
    intro sora hsora urls hurls
    obtain rfl : _ = sora := by simpa [List.lookup_cons] using hsora
    simp at hurls
  have hgiven : parseArgs (fun _ _ => true) false ["--config", "zakuro.jsonc", "--name", "line"] =
      some [("--config", ["zakuro.jsonc"]), ("--name", ["line"])] := by decide +kernel
  have hmain : mainConfigs serializeSmall
      (fun _ => some (.object [("instances", .array smallInstances)])) (fun _ _ => true)
      ["--config", "zakuro.jsonc", "--name", "line"] =
        some [[("--name", ["file"]), ("--sora-signaling-url", ["wss://file"]),
          ("--sora-channel-id", ["zakuro"]), ("--sora-role", ["sendonly"]),
          ("--name", ["line"])]] := by
    decide +kernel
  exact (mainConfigs_overrides_iff hgiven (by decide +kernel) rfl rfl (by decide +kernel)
    hreadable hmain).mpr (.inl (by decide +kernel))

/-- URLs of the command line do not replace those of the file. -/
theorem mainConfigs_not_overrides :
    ∃ config, mainConfigs serializeSmall
        (fun _ => some (.object [("instances", .array smallInstances)])) (fun _ _ => true)
        ["--config", "zakuro.jsonc", "--sora-signaling-url", "wss://line"] = some [config] ∧
      setting config "--sora-signaling-url" = some ["wss://file", "wss://line"] ∧
      ¬ List.Forall₂ (Overrides [("--config", ["zakuro.jsonc"]),
        ("--sora-signaling-url", ["wss://line"])])
        (fileGiven serializeSmall smallInstances) [config] := by
  refine ⟨[("--name", ["file"]), ("--sora-signaling-url", ["wss://file"]),
    ("--sora-channel-id", ["zakuro"]), ("--sora-role", ["sendonly"]),
    ("--sora-signaling-url", ["wss://line"])], by decide +kernel, by decide +kernel, ?_⟩
  have hfile : fileGiven serializeSmall smallInstances = [[("--name", ["file"]),
      ("--sora-signaling-url", ["wss://file"]), ("--sora-channel-id", ["zakuro"]),
      ("--sora-role", ["sendonly"])]] := by
    decide +kernel
  rw [hfile]
  intro h
  cases h with
  | cons hurls _ =>
    have hurls := hurls "--sora-signaling-url" signalingUrl_mem
    exact absurd hurls (by decide +kernel)

end Util
