import Mathlib.Data.Fintype.Sigma
import Mathlib.Data.Fintype.Fin
import Zakuro.GroupedMap
import Zakuro.ScenarioPlayer

/-!
# The connection-id report

Every instance of a program has a timer on which it reports what its clients say
about themselves to one `ZakuroStats`, and a thread of `main` groups the latest
reports by URL and channel and writes them to a file. What a session answers, and
when it counts as connected, is the SDK's to say.
-/

open Std

/-- `ZakuroStats::Data` -/
structure ZakuroStats.Data where
  id : Int
  name : String
  stats : List VirtualClientStats
  lastUpdatedAt : Nat

structure ZakuroStats where
  data : TreeMap Int ZakuroStats.Data := {}

namespace ZakuroStats

def set (s : ZakuroStats) (id : Int) (name : String) (stats : List VirtualClientStats) (now : Nat) :
    ZakuroStats :=
  { s with data := s.data.insert id { id, name, stats, lastUpdatedAt := now } }

def get (s : ZakuroStats) : TreeMap Int Data := s.data

/-- The keys and the id that the loop over the stats of an instance appends. -/
def entry (st : VirtualClientStats) : String × String × List UInt8 :=
  (st.connectedUrl, st.channelId, st.connectionId)

/-- All entries of a snapshot, in the order of the loops. -/
def snapshotEntries (m : TreeMap Int Data) : List (String × String × List UInt8) :=
  m.toList.flatMap fun p => p.2.stats.map entry

/-- A `std::string` in JSON, one character for each byte. -/
def text (bytes : List UInt8) : String := String.ofList (bytes.map Char.ofUInt8)

/-- `obj` and its `obj2`s. The keys of a map differ, so that every assignment adds
a member. -/
def toJson (d : TreeMap String (TreeMap String (List (List UInt8)))) : Json :=
  .object (d.toList.map fun p =>
    (p.1, .object (p.2.toList.map fun q => (q.1, .array (q.2.map fun c => .string (text c))))))

/-- What the stats thread writes. -/
def connectionReport (m : TreeMap Int Data) : Json := toJson (GroupedMap.group (snapshotEntries m))

end ZakuroStats

/-! ## Reading a report -/

namespace Json

def members : Json → List (String × Json)
  | .object ms => ms
  | _ => []

def elements : Json → List Json
  | .array xs => xs
  | _ => []

/-- The ids in a report, each with the URL and the channel that it is listed under. -/
def listed (report : Json) : List (String × String × String) :=
  report.members.flatMap fun p => p.2.members.flatMap fun q =>
    (q.2.elements.filterMap asString?).map fun c => (p.1, q.1, c)

end Json

namespace ZakuroStats

theorem text_injective : Function.Injective text := by
  intro xs ys h
  have hmap : xs.map Char.ofUInt8 = ys.map Char.ofUInt8 := by
    simpa [text] using congrArg String.toList h
  refine List.map_injective_iff.mpr ?_ hmap
  intro a b hab
  rw [← UInt8.toNat_inj]
  have htoNat : a.toUInt32.toNat = b.toUInt32.toNat := congrArg Char.toNat hab
  simpa using htoNat

theorem text_eq_empty {bytes : List UInt8} : text bytes = "" ↔ bytes = [] := by
  rw [← text_injective.eq_iff]
  rfl

theorem listed_toJson (d : TreeMap String (TreeMap String (List (List UInt8)))) :
    (toJson d).listed = (GroupedMap.entries d).map fun e => (e.1, e.2.1, text e.2.2) := by
  simp [toJson, Json.listed, Json.members, Json.elements, Json.asString?, GroupedMap.entries,
    GroupedMap.listing, List.flatMap_map, List.map_flatMap, List.filterMap_map, Function.comp_def]

theorem members_toJson {P Q : String → Prop} {d : TreeMap String (TreeMap String (List (List UInt8)))}
    (h : GroupedMap.Keyed P Q d) : ∀ p ∈ (toJson d).members, P p.1 ∧ ∀ q ∈ p.2.members, Q q.1 := by
  intro p hp
  obtain ⟨⟨u, m⟩, hm, rfl⟩ := List.mem_map.mp hp
  obtain ⟨hP, hQ⟩ := h u m (TreeMap.mem_toList_iff_getElem?_eq_some.mp hm)
  refine ⟨hP, fun q hq => ?_⟩
  obtain ⟨⟨n, cs⟩, hn, rfl⟩ := List.mem_map.mp hq
  exact hQ n cs (TreeMap.mem_toList_iff_getElem?_eq_some.mp hn)

theorem get_set (s : ZakuroStats) (id k : Int) (name : String) (stats : List VirtualClientStats) (now : Nat) :
    (s.set id name stats now).get[k]? = if id = k then some ⟨id, name, stats, now⟩ else s.get[k]? := by
  rw [set, get, TreeMap.getElem?_insert]
  simp [get]

end ZakuroStats

/-! ## The instances of a program -/

/-- An instance at the time of a report, and what the sessions of its clients
answer then. -/
structure Poll (n : Nat) where
  world : World n
  sdk : Fin n → SignalingStats
  now : Nat

def Poll.stats {n : Nat} (p : Poll n) (cfg : VirtualClientConfig) : List VirtualClientStats :=
  (List.finRange n).map fun i => (p.world.vcs i).getStats cfg (p.sdk i)

/-- The members of the configuration of an instance that its reports depend on. -/
structure InstanceConfig where
  env : ScenarioPlayer.Env
  name : String

variable {m : Nat} {size : Fin m → Nat}

/-- The program: its instances, and the stats they share. The number of an
instance is its `id`. -/
structure Fleet (size : Fin m → Nat) where
  instances : (i : Fin m) → World (size i)
  stats : ZakuroStats := {}
  /-- The instances that each called `Set` last as they are here. -/
  polls : (i : Fin m) → Option (Poll (size i)) := fun _ => none
  /-- `Run` has returned, so that `stats_countdown` no longer counts the instance. -/
  returned : Fin m → Bool := fun _ => false
  /-- The content of the file, once it is written. -/
  file : Option Json := none

namespace Fleet

inductive Event (size : Fin m → Nat) where
  | run (i : Fin m) (e : World.Event (size i))
  | statsTimer (i : Fin m) (sdk : Fin (size i) → SignalingStats) (now : Nat)
  | returned (i : Fin m)
  | statsThread

def Enabled (cfg : Fin m → InstanceConfig) (f : Fleet size) : Event size → Prop
  | .run i e => f.returned i = false ∧ (World.machine (cfg i).env).enabled (f.instances i) e
  | .statsTimer i _ _ => f.returned i = false ∧ (f.instances i).stopped = false
  | .returned i => f.returned i = false
  | .statsThread => ∃ i, f.returned i = false

/-- The handler of the timer. -/
def onStatsTimer (cfg : Fin m → InstanceConfig) (f : Fleet size) (i : Fin m) (p : Poll (size i)) :
    Fleet size :=
  { f with
    stats := f.stats.set i (cfg i).name (p.stats (cfg i).env.vcConfig) p.now
    polls := Function.update f.polls i (some p) }

def step (cfg : Fin m → InstanceConfig) (f : Fleet size) :
    Event size → Except ScenarioPlayer.Fault (Fleet size)
  | .run i e => ((World.machine (cfg i).env).step (f.instances i) e).map fun w =>
      { f with instances := Function.update f.instances i w }
  | .statsTimer i sdk now => .ok (f.onStatsTimer cfg i ⟨f.instances i, sdk, now⟩)
  | .returned i => .ok { f with returned := Function.update f.returned i true }
  | .statsThread => .ok { f with file := some (ZakuroStats.connectionReport f.stats.get) }

def machine (cfg : Fin m → InstanceConfig) : Machine (Fleet size) (Event size) ScenarioPlayer.Fault where
  enabled := Enabled cfg
  step := step cfg

/-- A client: its instance and its number there. -/
abbrev Client (size : Fin m → Nat) : Type := Σ i, Fin (size i)

/-- What a client said about itself when its instance last reported. -/
def lastStats (cfg : Fin m → InstanceConfig) (f : Fleet size) (x : Client size) :
    Option VirtualClientStats :=
  (f.polls x.1).map fun p => (p.world.vcs x.2).getStats (cfg x.1).env.vcConfig (p.sdk x.2)

/-- The client had a connected session then. -/
def InSession (connected : SignalingStats → Bool) (f : Fleet size) (x : Client size) : Bool :=
  (f.polls x.1).any fun p => (p.world.vcs x.2).signaling.isSome && connected (p.sdk x.2)

/-- The instance of the client has reported. -/
def Reported (f : Fleet size) (x : Client size) : Prop := (f.polls x.1).isSome = true

/-- The entry a client has in the report. -/
def lastEntry (cfg : Fin m → InstanceConfig) (f : Fleet size) (x : Client size) :
    Option (String × String × List UInt8) :=
  (f.lastStats cfg x).map ZakuroStats.entry

/-- A report lists the connected clients and nothing else. -/
structure ListsExactly (connected : SignalingStats → Bool) (cfg : Fin m → InstanceConfig) (f : Fleet size)
    (report : Json) : Prop where
  count : ∀ u h c, report.listed.count (u, h, ZakuroStats.text c) =
    (Finset.univ.filter fun x : Client size =>
      f.InSession connected x ∧ f.lastEntry cfg x = some (u, h, c)).card
  total : report.listed.length = (Finset.univ.filter fun x : Client size => f.InSession connected x).card
  noEmptyKey : ∀ p ∈ report.members, p.1 ≠ "" ∧ ∀ q ∈ p.2.members, q.1 ≠ ""
  noEmptyId : ∀ e ∈ report.listed, e.2.2 ≠ ""

/-! ## What is listed -/

variable {cfg : Fin m → InstanceConfig}

/-- What `Set` stored at a poll. -/
def stored (cfg : Fin m → InstanceConfig) (i : Fin m) (p : Poll (size i)) : ZakuroStats.Data where
  id := i
  name := (cfg i).name
  stats := p.stats (cfg i).env.vcConfig
  lastUpdatedAt := p.now

/-- `ZakuroStats` holds the last report of each instance, and nothing else. -/
structure Stored (cfg : Fin m → InstanceConfig) (f : Fleet size) : Prop where
  get : ∀ i : Fin m, f.stats.get[(i : Int)]? = (f.polls i).map (stored cfg i)
  only : ∀ (k : Int) d, f.stats.get[k]? = some d → ∃ i : Fin m, k = i

theorem onStatsTimer_polls_self (f : Fleet size) (i : Fin m) (p : Poll (size i)) :
    (f.onStatsTimer cfg i p).polls i = some p := Function.update_self ..

theorem onStatsTimer_polls_of_ne (f : Fleet size) {i j : Fin m} (h : i ≠ j) (p : Poll (size i)) :
    (f.onStatsTimer cfg i p).polls j = f.polls j := Function.update_of_ne (Ne.symm h) ..

theorem onStatsTimer_get (f : Fleet size) (i : Fin m) (p : Poll (size i)) (k : Int) :
    (f.onStatsTimer cfg i p).stats.get[k]? =
      if (i : Int) = k then some (stored cfg i p) else f.stats.get[k]? :=
  ZakuroStats.get_set ..

theorem Stored.onStatsTimer {f : Fleet size} (h : Stored cfg f) (i : Fin m) (p : Poll (size i)) :
    Stored cfg (f.onStatsTimer cfg i p) := by
  constructor
  · intro j
    rw [onStatsTimer_get, h.get j]
    by_cases hij : i = j
    · subst hij
      rw [if_pos rfl, onStatsTimer_polls_self, Option.map_some]
    · rw [if_neg (by omega), onStatsTimer_polls_of_ne f hij]
  · intro k d hk
    rw [onStatsTimer_get] at hk
    split at hk
    next hik => exact ⟨i, hik.symm⟩
    next => exact h.only k d hk

theorem Stored.step {f g : Fleet size} (h : Stored cfg f) {e : Event size}
    (hs : step cfg f e = .ok g) : Stored cfg g := by
  cases e with
  | run i e =>
    obtain ⟨w, -, rfl⟩ := Machine.map_eq_ok hs
    exact ⟨h.get, h.only⟩
  | statsTimer i sdk now =>
    obtain rfl := Except.ok.inj hs
    exact h.onStatsTimer i _
  | returned i =>
    obtain rfl := Except.ok.inj hs
    exact ⟨h.get, h.only⟩
  | statsThread =>
    obtain rfl := Except.ok.inj hs
    exact ⟨h.get, h.only⟩

theorem run_stored {w : (i : Fin m) → World (size i)} {es : List (Event size)} {f : Fleet size}
    (h : Machine.Run (machine cfg) { instances := w } es f) : Stored cfg f :=
  h.invariant (fun _ _ _ hs _ hst => hs.step hst)
    ⟨fun _ => by simp [ZakuroStats.get], by simp [ZakuroStats.get]⟩

/-- All clients, one instance after the other. -/
def clients (size : Fin m → Nat) : List (Client size) :=
  (List.finRange m).flatMap fun i => (List.finRange (size i)).map (Sigma.mk i)

theorem mem_clients (x : Client size) : x ∈ clients size := by
  refine List.mem_flatMap.mpr ⟨x.1, List.mem_finRange _, ?_⟩
  exact List.mem_map.mpr ⟨x.2, List.mem_finRange _, rfl⟩

theorem clients_nodup : (clients size).Nodup := by
  rw [clients, List.nodup_flatMap]
  constructor
  · intro i _
    exact (List.nodup_finRange _).map sigma_mk_injective
  · refine (List.nodup_finRange m).imp fun hij => ?_
    intro x hx hx'
    obtain ⟨a, -, rfl⟩ := List.mem_map.mp hx
    obtain ⟨b, -, hb⟩ := List.mem_map.mp hx'
    exact hij (congrArg Sigma.fst hb).symm

/-- The snapshot has the data of the instances that reported, in some order. -/
theorem Stored.toList_perm {f : Fleet size} (h : Stored cfg f) :
    f.stats.get.toList.Perm ((List.finRange m).filterMap fun i =>
      (f.polls i).map fun p => ((i : Int), stored cfg i p)) := by
  rw [List.perm_ext_iff_of_nodup]
  · rintro ⟨k, d⟩
    rw [TreeMap.mem_toList_iff_getElem?_eq_some, List.mem_filterMap]
    constructor
    · intro hk
      obtain ⟨i, rfl⟩ := h.only k d hk
      rw [h.get i, Option.map_eq_some_iff] at hk
      obtain ⟨p, hp, rfl⟩ := hk
      exact ⟨i, List.mem_finRange i, by rw [hp]; rfl⟩
    · rintro ⟨i, -, hi⟩
      obtain ⟨p, hp, heq⟩ := Option.map_eq_some_iff.mp hi
      obtain ⟨rfl, rfl⟩ := Prod.mk.inj heq
      rw [h.get i, hp]
      rfl
  · refine (TreeMap.distinct_keys_toList).imp fun hne heq => hne ?_
    rw [heq, compare_self]
  · refine (List.nodup_finRange m).filterMap ?_
    intro i j q hi hj
    obtain ⟨p, -, rfl⟩ := Option.map_eq_some_iff.mp hi
    obtain ⟨p', -, heq⟩ := Option.map_eq_some_iff.mp hj
    have hij : ((j : Nat) : Int) = (i : Nat) := congrArg Prod.fst heq
    exact Fin.ext (by omega)

/-- What the snapshot is grouped from: an entry for each client of an instance
that has reported. -/
theorem Stored.entries_perm {f : Fleet size} (h : Stored cfg f) :
    (ZakuroStats.snapshotEntries f.stats.get).Perm
      ((clients size).filterMap (f.lastEntry cfg)) := by
  refine (h.toList_perm.flatMap_right _).trans (List.Perm.of_eq ?_)
  rw [clients, List.filterMap_flatMap, List.filterMap_eq_flatMap_toList, List.flatMap_assoc]
  congr 1
  funext i
  rw [List.filterMap_map]
  cases hp : f.polls i with
  | none =>
    simp [lastEntry, lastStats, hp]
  | some p =>
    simp [lastEntry, lastStats, hp, stored, Poll.stats, Function.comp_def]

theorem lastEntry_isSome (cfg : Fin m → InstanceConfig) {f : Fleet size} {x : Client size} :
    (f.lastEntry cfg x).isSome = true ↔ f.Reported x := by
  simp [lastEntry, lastStats, Reported]

theorem card_filter_eq_countP (p : Client size → Prop) [DecidablePred p] :
    (Finset.univ.filter p).card = (clients size).countP p := by
  have hfilter : Finset.univ.filter p = ((clients size).filter p).toFinset := by
    ext x
    simp [mem_clients]
  rw [hfilter, List.toFinset_card_of_nodup (clients_nodup.filter _), List.countP_eq_length_filter]

def written (e : String × String × List UInt8) : String × String × String :=
  (e.1, e.2.1, ZakuroStats.text e.2.2)

theorem written_injective : Function.Injective written := by
  rintro ⟨u, h, c⟩ ⟨u', h', c'⟩ heq
  obtain ⟨hu, heq⟩ := Prod.mk.inj heq
  obtain ⟨hh, hc⟩ := Prod.mk.inj heq
  exact Prod.ext hu (Prod.ext hh (ZakuroStats.text_injective hc))

theorem Stored.listed_perm {f : Fleet size} (h : Stored cfg f) :
    (ZakuroStats.connectionReport f.stats.get).listed.Perm
      (((clients size).filterMap (f.lastEntry cfg)).map written) := by
  rw [ZakuroStats.connectionReport, ZakuroStats.listed_toJson]
  exact ((GroupedMap.entries_group _).trans h.entries_perm).map _

/-- An entry is listed once for each client that has it, connected or not. -/
theorem Stored.count_listed {f : Fleet size} (h : Stored cfg f) (u n : String) (c : List UInt8) :
    (ZakuroStats.connectionReport f.stats.get).listed.count (u, n, ZakuroStats.text c) =
      (Finset.univ.filter fun x : Client size => f.lastEntry cfg x = some (u, n, c)).card := by
  have hwritten : (u, n, ZakuroStats.text c) = written (u, n, c) := rfl
  rw [hwritten, h.listed_perm.count_eq, List.count_map_of_injective _ _ written_injective, card_filter_eq_countP,
    List.count_eq_countP, List.countP_filterMap]
  refine List.countP_congr fun x _ => ?_
  cases f.lastEntry cfg x <;> simp

theorem Stored.length_listed {f : Fleet size} (h : Stored cfg f) :
    (ZakuroStats.connectionReport f.stats.get).listed.length =
      (Finset.univ.filter fun x : Client size => (f.lastEntry cfg x).isSome = true).card := by
  rw [h.listed_perm.length_eq, List.length_map, List.length_filterMap_eq_countP, card_filter_eq_countP]
  simp

theorem InSession.entry (cfg : Fin m → InstanceConfig) {connected : SignalingStats → Bool}
    {f : Fleet size} {x : Client size} (h : f.InSession connected x = true) :
    ∃ sdk, connected sdk = true ∧
      f.lastEntry cfg x = some (sdk.connectedUrl, (cfg x.1).env.vcConfig.channelId, sdk.connectionId) := by
  rw [InSession] at h
  cases hp : f.polls x.1 with
  | none =>
    rw [hp] at h
    cases h
  | some p =>
    rw [hp, Option.any_some, Bool.and_eq_true] at h
    obtain ⟨k, hk⟩ := Option.isSome_iff_exists.mp h.1
    refine ⟨p.sdk x.2, h.2, ?_⟩
    rw [lastEntry, lastStats, hp, Option.map_some, Option.map_some, VirtualClient.getStats, hk]
    rfl

variable {connected : SignalingStats → Bool}

/-- A client that was not connected is listed all the same. -/
theorem Stored.inSession_of_listsExactly {f : Fleet size} (h : Stored cfg f)
    (hexact : ListsExactly connected cfg f (ZakuroStats.connectionReport f.stats.get)) {x : Client size}
    (hx : f.Reported x) : f.InSession connected x = true := by
  obtain ⟨⟨u, n, c⟩, he⟩ := Option.isSome_iff_exists.mp ((lastEntry_isSome cfg).mpr hx)
  have hcount := hexact.count u n c
  rw [h.count_listed] at hcount
  have hsub : (Finset.univ.filter fun x : Client size =>
      f.InSession connected x ∧ f.lastEntry cfg x = some (u, n, c)) ⊆
      Finset.univ.filter fun x : Client size => f.lastEntry cfg x = some (u, n, c) :=
    Finset.monotone_filter_right _ fun x _ hx => hx.2
  have heq := Finset.eq_of_subset_of_card_le hsub hcount.le
  have hmem : x ∈ Finset.univ.filter fun x : Client size => f.lastEntry cfg x = some (u, n, c) := by
    simpa using he
  rw [← heq] at hmem
  exact (Finset.mem_filter.mp hmem).2.1

theorem lastEntry_of_inSession {f : Fleet size}
    (hsession : ∀ s, connected s = true → s.connectionId ≠ [] ∧ s.connectedUrl ≠ "")
    (hchannel : ∀ i, (cfg i).env.vcConfig.channelId ≠ "") {x : Client size}
    (hx : f.InSession connected x = true) {e : String × String × List UInt8}
    (he : f.lastEntry cfg x = some e) : e.1 ≠ "" ∧ e.2.1 ≠ "" ∧ e.2.2 ≠ [] := by
  obtain ⟨sdk, hsdk, hentry⟩ := InSession.entry cfg hx
  obtain rfl := Option.some.inj (he.symm.trans hentry)
  exact ⟨(hsession sdk hsdk).2, hchannel x.1, (hsession sdk hsdk).1⟩

theorem Stored.listsExactly {f : Fleet size} (h : Stored cfg f)
    (hsession : ∀ s, connected s = true → s.connectionId ≠ [] ∧ s.connectedUrl ≠ "")
    (hchannel : ∀ i, (cfg i).env.vcConfig.channelId ≠ "")
    (hall : ∀ x : Client size, f.Reported x → f.InSession connected x = true) :
    ListsExactly connected cfg f (ZakuroStats.connectionReport f.stats.get) := by
  have hreported : ∀ {x : Client size} {e}, f.lastEntry cfg x = some e → f.InSession connected x = true :=
    fun he => hall _ ((lastEntry_isSome cfg).mp (Option.isSome_of_eq_some he))
  have hnames : ∀ e ∈ (clients size).filterMap (f.lastEntry cfg), e.1 ≠ "" ∧ e.2.1 ≠ "" ∧ e.2.2 ≠ [] := by
    intro e he
    obtain ⟨x, -, hx⟩ := List.mem_filterMap.mp he
    exact lastEntry_of_inSession hsession hchannel (hreported hx) hx
  constructor
  · intro u n c
    rw [h.count_listed]
    refine congrArg Finset.card (Finset.filter_congr fun x _ => ?_)
    exact ⟨fun he => ⟨hreported he, he⟩, fun he => he.2⟩
  · rw [h.length_listed]
    refine congrArg Finset.card (Finset.filter_congr fun x _ => ?_)
    constructor
    · intro he
      exact hall x ((lastEntry_isSome cfg).mp he)
    · intro hx
      obtain ⟨sdk, -, hentry⟩ := InSession.entry cfg hx
      exact Option.isSome_of_eq_some hentry
  · apply ZakuroStats.members_toJson (P := fun u => u ≠ "") (Q := fun n => n ≠ "")
    apply GroupedMap.keyed_group
    intro e he
    obtain ⟨hu, hn, -⟩ := hnames e (h.entries_perm.mem_iff.mp he)
    exact ⟨hu, hn⟩
  · intro e he
    obtain ⟨e', he', rfl⟩ := List.mem_map.mp (h.listed_perm.mem_iff.mp he)
    rw [written, ne_eq, ZakuroStats.text_eq_empty]
    exact (hnames e' he').2.2

/-- The report is right exactly while every client whose instance has reported was
in a connected session then. -/
theorem connection_report_exact_iff
    (hsession : ∀ s, connected s = true → s.connectionId ≠ [] ∧ s.connectedUrl ≠ "")
    (hchannel : ∀ i, (cfg i).env.vcConfig.channelId ≠ "") {w : (i : Fin m) → World (size i)}
    {es : List (Event size)} {f : Fleet size} (h : Machine.Run (machine cfg) { instances := w } es f) :
    ∃ g report, (machine cfg).step f .statsThread = .ok g ∧ g.file = some report ∧
      (ListsExactly connected cfg f report ↔
        ∀ x : Client size, f.Reported x → f.InSession connected x = true) := by
  have hstored := run_stored h
  refine ⟨_, _, rfl, rfl, ?_⟩
  constructor
  · intro hexact x hx
    exact hstored.inSession_of_listsExactly hexact hx
  · intro hall
    exact hstored.listsExactly hsession hchannel hall

def soraConfig : Fin m → InstanceConfig := fun _ =>
  { name := "sora"
    env :=
      { vcConfig := { channelId := "sora" }
        pool := ⟨[0], Nat.one_pos⟩
        voice := fun _ => [] } }

theorem soraConfig_channel (i : Fin m) : (soraConfig i).env.vcConfig.channelId ≠ "" :=
  show "sora" ≠ "" by decide

/-- A session that has a connection and knows its names. -/
def online (s : SignalingStats) : Bool :=
  (s.websocketConnected || s.datachannelConnected) && s.connectionId ≠ [] && s.connectedUrl ≠ ""

theorem names_of_online (s : SignalingStats) (h : online s = true) :
    s.connectionId ≠ [] ∧ s.connectedUrl ≠ "" := by
  simp only [online, Bool.and_eq_true, decide_eq_true_eq] at h
  exact ⟨h.1.2, h.2⟩

/-- The client is connected when its instance reports. -/
def connectedEvents (size : Fin m → Nat) (i : Fin m) (j : Fin (size i)) : List (Event size) :=
  [.run i (.keyConnect j), .statsTimer i (fun _ => ⟨[97, 49], "wss://sora", false, true⟩) 5000]

theorem connection_report_connected : ∃ f g report,
    Machine.Run (machine soraConfig) { instances := fun _ => {} }
      (connectedEvents (fun _ : Fin 1 => 1) 0 0) f ∧
      (machine soraConfig).step f .statsThread = .ok g ∧ g.file = some report ∧
      ListsExactly online soraConfig f report := by
  have hrun : Machine.Run (machine soraConfig) { instances := fun _ => {} }
      (connectedEvents (fun _ : Fin 1 => 1) 0 0) _ :=
    .cons ⟨rfl, rfl, trivial⟩ rfl (.single ⟨rfl, rfl⟩ rfl)
  obtain ⟨g, report, hs, hfile, hiff⟩ :=
    connection_report_exact_iff names_of_online soraConfig_channel hrun
  refine ⟨_, g, report, hrun, hs, hfile, hiff.mpr ?_⟩
  rintro ⟨i, j⟩ -
  obtain rfl : i = 0 := Subsingleton.elim _ _
  obtain rfl : j = 0 := Subsingleton.elim _ _
  rfl

/-- The client is still waiting for its turn when its instance reports. -/
def waitingEvents (size : Fin m → Nat) (i : Fin m) (j : Fin (size i)) : List (Event size) :=
  [.run i (.play j.val [.sleep 10000 10000, .reconnect] 1),
    .statsTimer i (fun _ => ⟨[], "", false, false⟩) 5000]

theorem connection_report_waiting : ¬ ∀ (m : Nat) (size : Fin m → Nat) (cfg : Fin m → InstanceConfig)
    (connected : SignalingStats → Bool),
    (∀ s, connected s = true → s.connectionId ≠ [] ∧ s.connectedUrl ≠ "") →
    (∀ i, (cfg i).env.vcConfig.channelId ≠ "") → ∀ (w : (i : Fin m) → World (size i))
    (es : List (Event size)) (f g : Fleet size) (report : Json),
      Machine.Run (machine cfg) { instances := w } es f →
      (machine cfg).step f .statsThread = .ok g → g.file = some report →
      ListsExactly connected cfg f report := by
  intro h
  have hrun : Machine.Run (machine soraConfig) { instances := fun _ => {} }
      (waitingEvents (fun _ : Fin 1 => 1) 0 0) _ :=
    .cons ⟨rfl, rfl, trivial⟩ rfl (.single ⟨rfl, rfl⟩ rfl)
  have hexact := h 1 (fun _ => 1) soraConfig online names_of_online soraConfig_channel _ _ _ _ _ hrun rfl rfl
  have hsession := (run_stored hrun).inSession_of_listsExactly hexact (x := ⟨0, 0⟩) rfl
  cases hsession

end Fleet
