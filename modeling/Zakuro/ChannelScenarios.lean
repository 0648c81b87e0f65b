import Zakuro.DataChannelErrors
import Zakuro.ScenarioTree

/-!
# The scenarios of the channels

Each channel that is to send has a sub-scenario of its own, under the name of
its label, which a client starts on its first pass through its program. The
program of `--scenario reconnect` has none of them, and two channels with one
label share a player. In all other cases a client that is behind its first pass
keeps on sending on every channel.
-/

namespace DataChannels

open Attempt

/-! ## What the channels are -/

/-- The object of a channel that is to send. -/
def sendingObject : Json → Option Members
  | .object obj =>
    match direction obj with
    | some (.string text) => if sends text then some obj else none
    | _ => none
  | _ => none

def sendingObjects : Json → List Members
  | .array js => js.filterMap sendingObject
  | _ => []

/-- A number member, or the default where there is none. -/
def Says (member : Option Json) (default x : Int) : Prop :=
  member.elim (x = default) fun value => value.asInt? = some x

/-- The channel is the one that the object says. -/
structure Describes (obj : Members) (ch : DataChannel) : Prop where
  label : label obj = some (.string ch.label)
  interval : Says (interval obj) 500 ch.interval
  interval_pos : 0 < ch.interval
  sizeMin : Says (sizeMin obj) messageSizeMin ch.sizeMin
  sizeMax : ∃ x, Says (sizeMax obj) messageSizeMin x ∧ ch.sizeMax = max ch.sizeMin x
  sizes : messageSizeMin ≤ ch.sizeMin ∧ ch.sizeMax ≤ messageSizeMax

/-- The channel is announced under the label and the direction of its object. -/
structure Announces (obj : Members) (sch : SignalingDataChannel) : Prop where
  label : label obj = some (.string sch.label)
  direction : direction obj = some (.string sch.direction)

theorem readString_said {member : Option Json} {text : String} (h : readString member = .value text) :
    member = some (.string text) := by
  unfold readString at h
  split at h
  next text' => rw [value.inj h]
  next => cases h

theorem readNumber_said {accepted : Int → Bool} {default x : Int} {member : Option Json}
    (h : readNumber accepted default member = .value x) (hdefault : accepted default = true) :
    Says member default x ∧ accepted x = true := by
  cases member with
  | none =>
    obtain rfl := value.inj h
    exact ⟨rfl, hdefault⟩
  | some v =>
    rw [readNumber] at h
    split at h
    next =>
      split at h
      next => cases h
      next y hy =>
        split at h
        next ha =>
          obtain rfl := value.inj h
          exact ⟨hy, ha⟩
        next => cases h
    next => cases h

theorem sizeAllowed_iff (x : Int) : sizeAllowed x = true ↔ messageSizeMin ≤ x ∧ x ≤ messageSizeMax := by
  simp [sizeAllowed]

/-- A channel that is accepted has the members of its object. -/
theorem readChannel_describes {obj : Members} {r : DataChannel × SignalingDataChannel}
    (h : readChannel obj = .value r) :
    Describes obj r.1 ∧ Announces obj r.2 := by
  rw [readChannel] at h
  obtain ⟨label, hlabel, h⟩ := bind_eq_value.mp h
  obtain ⟨direction, hdirection, h⟩ := bind_eq_value.mp h
  obtain ⟨interval, hinterval, h⟩ := bind_eq_value.mp h
  obtain ⟨sizeMin, hmin, h⟩ := bind_eq_value.mp h
  obtain ⟨sizeMax, hmax, h⟩ := bind_eq_value.mp h
  obtain ⟨ordered, -, h⟩ := bind_eq_value.mp h
  obtain ⟨maxPacketLifeTime, -, h⟩ := bind_eq_value.mp h
  obtain ⟨maxRetransmits, -, h⟩ := bind_eq_value.mp h
  obtain ⟨protocol, -, h⟩ := bind_eq_value.mp h
  obtain ⟨compress, -, h⟩ := bind_eq_value.mp h
  obtain rfl := value.inj h
  obtain ⟨hinterval, hpos⟩ := readNumber_said hinterval (by decide)
  obtain ⟨hmin, hmin'⟩ := readNumber_said hmin (by decide)
  obtain ⟨hmax, hmax'⟩ := readNumber_said hmax (by decide)
  rw [sizeAllowed_iff] at hmin' hmax'
  refine ⟨⟨readString_said hlabel, hinterval, by simpa using hpos, hmin, ⟨sizeMax, hmax, ?_⟩, hmin'.1, ?_⟩,
    ⟨readString_said hlabel, readString_said hdirection⟩⟩
  · dsimp only
    omega
  · dsimp only
    omega

theorem readChannels_describes {m m' : DataChannels} {js : List Json} (h : readChannels m js = .value m') :
    ∃ chs, m'.channels = m.channels ++ chs ∧ List.Forall₂ Describes (js.filterMap sendingObject) chs := by
  induction js generalizing m with
  | nil =>
    obtain rfl := value.inj h
    exact ⟨[], by simp, .nil⟩
  | cons j js ih =>
    cases j with
    | object obj =>
      obtain ⟨r, hr, hrest⟩ := bind_eq_value.mp h
      obtain ⟨hdescribes, hannounces⟩ := readChannel_describes hr
      obtain ⟨chs, hchs, hall⟩ := ih hrest
      have hsending : sendingObject (.object obj) = if sends r.2.direction then some obj else none := by
        rw [sendingObject, hannounces.direction]
      cases hs : sends r.2.direction with
      | true =>
        refine ⟨r.1 :: chs, ?_, ?_⟩
        · rw [hchs, add, if_pos hs, List.append_assoc, List.singleton_append]
        · rw [List.filterMap_cons_some (by rw [hsending, if_pos hs])]
          exact .cons hdescribes hall
      | false =>
        refine ⟨chs, ?_, ?_⟩
        · rw [hchs, add, if_neg (by simp [hs])]
        · rwa [List.filterMap_cons_none (by rw [hsending, if_neg (by simp [hs])])]
    | _ => cases h

/-- The channels of an instance are those of the list that are to send, in order. -/
theorem ofConfig_describes {value : Json} {m : DataChannels} (h : ofConfig value = .value m) :
    List.Forall₂ Describes (sendingObjects value) m.channels := by
  cases value with
  | array js =>
    obtain ⟨chs, hchs, hall⟩ := readChannels_describes h
    rw [hchs]
    exact hall
  | null =>
    obtain rfl := value.inj h
    exact .nil
  | _ => cases h

end DataChannels

/-! ## The programs -/

theorem List.filter_eq_singleton {α β : Type} [DecidableEq β] {xs : List α} {f : α → β} {x : α}
    (h : (xs.map f).Nodup) (hx : x ∈ xs) : xs.filter (fun y => f y = f x) = [x] := by
  induction xs with
  | nil => exact absurd hx List.not_mem_nil
  | cons y xs ih =>
    rw [List.map_cons, List.nodup_cons] at h
    rcases List.mem_cons.mp hx with rfl | hx
    · have hrest : xs.filter (fun y => f y = f x) = [] := by
        rw [List.filter_eq_nil_iff]
        intro y hy heq
        exact h.1 (List.mem_map.mpr ⟨y, hy, by simpa using heq⟩)
      rw [List.filter_cons_of_pos (by simp), hrest]
    · have hne : f y ≠ f x := fun heq => h.1 (heq ▸ List.mem_map_of_mem hx)
      rw [List.filter_cons_of_neg (by simpa using hne)]
      exact ih h.2 hx

/-- The operation starts the sub-scenario of a label. -/
def Op.startsOn (label : String) : Op → Bool
  | .playSubScenario name _ _ => name == "scenario-dcs-" ++ label
  | _ => false

namespace World

open ScenarioPlayer ClientInfo Unrolling

variable {n : Nat}

def channelPath (ch : DataChannel) : PlayerPath := ["scenario-dcs-" ++ ch.label]

/-- The operation that starts the sub-scenario of a channel. -/
def startChannel (ch : DataChannel) : Op :=
  .playSubScenario ("scenario-dcs-" ++ ch.label) (channelData ch) 0

/-- The clients start a sub-scenario for each channel, under different names. -/
structure Drives (cfg : ZakuroConfig) : Prop where
  labels : (cfg.channels.map DataChannel.label).Nodup
  branch : ¬ (cfg.fakeAudioCapture = false ∧ cfg.scenario = .reconnect)

theorem Drives.channel_eq {cfg : ZakuroConfig} (h : Drives cfg) {ch ch' : DataChannel}
    (hch : ch ∈ cfg.channels) (hch' : ch' ∈ cfg.channels) (hlabel : ch'.label = ch.label) : ch' = ch := by
  have hmem : ch' ∈ cfg.channels.filter fun y => y.label = ch.label :=
    List.mem_filter.mpr ⟨hch', by simpa using hlabel⟩
  rw [List.filter_eq_singleton h.labels hch] at hmem
  exact List.mem_singleton.mp hmem

theorem voice_name (label : String) : "scenario-voice-number-client" ≠ "scenario-dcs-" ++ label := by
  intro h
  have htake := congrArg (fun s : String => s.toList.take 12) h
  rw [String.toList_append, List.take_append_of_le_length (by decide)] at htake
  exact absurd htake (by decide)

theorem startsOn_startChannel (ch : DataChannel) (label : String) :
    (startChannel ch).startsOn label = decide (ch.label = label) := by
  rw [Bool.eq_iff_iff, startChannel, Op.startsOn, beq_iff_eq, String.append_right_inj, decide_eq_true_iff]

theorem addReconnectScenario_startsOn (cfg : ZakuroConfig) (label : String) :
    ∀ op ∈ cfg.addReconnectScenario, op.startsOn label = false := by
  intro op hop
  cases op with
  | playSubScenario name data l => exact absurd hop (addReconnectScenario_sub cfg name data l)
  | _ => rfl

theorem program_of_branch {cfg : ZakuroConfig} (h : ¬ cfg.Reconnecting) (i : Nat) :
    cfg.program i = .sleep (cfg.firstWaitMs i) (cfg.firstWaitMs i) ::
      (cfg.opening ++ cfg.addReconnectScenario) := by
  rw [ZakuroConfig.program, ZakuroConfig.data_standard h]

/-- The program that only reconnects starts nothing. -/
theorem program_reconnect {cfg : ZakuroConfig}
    (h : cfg.fakeAudioCapture = false ∧ cfg.scenario = .reconnect) (i : Nat) (label : String) :
    ∀ op ∈ cfg.program i, op.startsOn label = false := by
  intro op hop
  cases op with
  | playSubScenario name data l =>
    rw [ZakuroConfig.program, ZakuroConfig.data_reconnecting h] at hop
    simp [ZakuroConfig.reconnectScenario] at hop
  | _ => rfl

/-- The loop of a program starts nothing. -/
theorem loop_startsOn (cfg : ZakuroConfig) (i : Nat) (label : String) :
    ∀ op ∈ (cfg.program i).drop cfg.loopIndex, op.startsOn label = false := by
  by_cases h : cfg.fakeAudioCapture = false ∧ cfg.scenario = .reconnect
  · exact fun op hop => program_reconnect h i label op (List.mem_of_mem_drop hop)
  · have hdrop : (cfg.program i).drop cfg.loopIndex = cfg.addReconnectScenario := by
      rw [program_of_branch h, ZakuroConfig.loopIndex, ZakuroConfig.data_standard h, List.drop_succ_cons,
        List.drop_left]
    rw [hdrop]
    exact addReconnectScenario_startsOn cfg label

/-- The operations of a program for a label are those of its channels. -/
theorem program_starts {cfg : ZakuroConfig}
    (h : ¬ (cfg.fakeAudioCapture = false ∧ cfg.scenario = .reconnect)) (i : Nat) (label : String) :
    (cfg.program i).filter (Op.startsOn label) =
      (cfg.channels.filter fun ch => ch.label = label).map startChannel := by
  have hadd : cfg.addReconnectScenario.filter (Op.startsOn label) = [] := by
    rw [List.filter_eq_nil_iff]
    exact fun op hop => by simp [addReconnectScenario_startsOn cfg label op hop]
  have hdcs : cfg.dcsData.filter (Op.startsOn label) =
      (cfg.channels.filter fun ch => ch.label = label).map startChannel := by
    have hpred : Op.startsOn label ∘ startChannel = fun ch => decide (ch.label = label) := by
      funext ch
      exact startsOn_startChannel ch label
    rw [← hpred]
    exact List.filter_map
  have hvoice : (if cfg.fakeAudioCapture then [] else [ZakuroConfig.voiceScenario]).filter
      (Op.startsOn label) = [] := by
    split
    · rfl
    · simp [ZakuroConfig.voiceScenario, Op.startsOn, voice_name]
  rw [program_of_branch h, ZakuroConfig.opening, List.filter_cons_of_neg (by simp [Op.startsOn]),
    List.filter_append, List.cons_append, List.filter_cons_of_neg (by simp [Op.startsOn]),
    List.filter_append, hdcs, hvoice, hadd, List.append_nil, List.append_nil]

/-- One operation of a program is for the channel. -/
theorem Drives.starts {cfg : ZakuroConfig} (h : Drives cfg) (i : Nat) {ch : DataChannel}
    (hch : ch ∈ cfg.channels) : (cfg.program i).filter (Op.startsOn ch.label) = [startChannel ch] := by
  rw [program_starts h.branch, List.filter_eq_singleton h.labels hch]
  rfl

/-! ## One channel of one client -/

/-- Nobody plays, pauses or resumes. -/
def Unpaused : Event n → Prop
  | .play _ _ _ | .pauseAll | .resumeAll => False
  | _ => True

instance : DecidablePred (Unpaused (n := n))
  | .play _ _ _ | .pauseAll | .resumeAll => .isFalse id
  | .onNext _ _ _ | .sleepExpired _ _ | .sleepReady _ _ | .sleepAborted _ _ | .keyClose _ | .keyConnect _
  | .client _ _ => .isTrue trivial

/-- The operations of a client that have started the sub-scenario of a label. -/
def started (w : World n) (i : Fin n) (label : String) : List Op :=
  (w.opsOf [] i).filter (Op.startsOn label)

section Channel

variable {env : Env} {w w' : World n} {e : Event n} {i : Fin n} {ch : DataChannel}

/-- The sub-scenario is played by an operation of the main player. -/
theorem started_play (hs : step env w e = .ok w') {data : List Op} {l : Int}
    (hv : w.view (channelPath ch) i e = some (.play data l)) :
    (w.info [] i).current = some (.playSubScenario ("scenario-dcs-" ++ ch.label) data l) ∧
      w'.opsOf [] i = w.opsOf [] i ++ [.playSubScenario ("scenario-dcs-" ++ ch.label) data l] := by
  rcases view_play hv with ⟨hnil, -⟩ | ⟨q, d, name, rfl, hpath, hop⟩
  · exact absurd hnil (List.cons_ne_nil _ _)
  · obtain ⟨rfl, rfl⟩ := List.cons.inj hpath
    refine ⟨hop, ?_⟩
    obtain ⟨op, hop', hexec⟩ := onNext_executed hs
    obtain rfl := Option.some.inj (hop'.symm.trans hop)
    rw [opsOf_append hexec, if_pos ⟨rfl, rfl⟩]

/-- No other event adds to the operations that have started it. -/
theorem started_unchanged (hs : step env w e = .ok w')
    (hv : ∀ data l, w.view (channelPath ch) i e ≠ some (.play data l)) :
    w'.started i ch.label = w.started i ch.label := by
  rcases step_executed hs with ⟨p, j, d, op, rfl, hop, hexec⟩ | ⟨-, hexec⟩
  · rw [started, opsOf_append hexec, List.filter_append]
    dsimp only
    split
    next hpath =>
      obtain ⟨rfl, rfl⟩ := hpath
      have hnot : op.startsOn ch.label = false := by
        cases op with
        | playSubScenario name data l =>
          by_contra hstarts
          have hname : name = "scenario-dcs-" ++ ch.label := by simpa [Op.startsOn] using hstarts
          apply hv data l
          rw [view, if_neg (by simp [channelPath]), hop]
          simp [channelPath, hname]
        | _ => rfl
      rw [List.filter_cons_of_neg (by simp [hnot]), List.filter_nil, List.append_nil]
      rfl
    next => rw [List.filter_nil, List.append_nil, started]
  · rw [started, started, opsOf, opsOf, hexec]

/-- The first pass of a client, as far as it has come, starts the sub-scenario,
and the passes of the loop do not. -/
theorem started_eq {cfg : ZakuroConfig}
    (h : ∃ m, (w.slot [] i).Following (cfg.program i.val) cfg.loopIndex m) (label : String) :
    w.started i label =
      ((cfg.program i.val).take (w.opsOf [] i).length).filter (Op.startsOn label) := by
  obtain ⟨m, hm⟩ := h
  have htrace : w.opsOf [] i = unroll (cfg.program i.val) cfg.loopIndex
      (if (w.slot [] i).info.posted = 0 then m + 1 else m) := hm.executed
  have hl := loopIndex_lt cfg i.val
  rw [started, htrace, unroll_length hl, unroll_filter hl (loop_startsOn cfg i.val label)]

theorem started_once {cfg : ZakuroConfig} (hd : Drives cfg) (hch : ch ∈ cfg.channels)
    (h : ∃ m, (w.slot [] i).Following (cfg.program i.val) cfg.loopIndex m) :
    (w.started i ch.label).length ≤ 1 := by
  have hsub := (List.take_sublist (w.opsOf [] i).length (cfg.program i.val)).filter (Op.startsOn ch.label)
  rw [hd.starts i.val hch, ← started_eq h] at hsub
  exact hsub.length_le

theorem main_step {cfg : ZakuroConfig} {i : Fin n}
    (h : ∃ m, (w.slot [] i).Following (cfg.program i.val) cfg.loopIndex m) (he : Queued env w e)
    (hc : Unpaused e) (hs : step env w e = .ok w') :
    ∃ m, (w'.slot [] i).Following (cfg.program i.val) cfg.loopIndex m := by
  obtain ⟨m, hm⟩ := h
  rw [step_slot hs [] i]
  cases hv : w.view [] i e with
  | none => exact ⟨m, hm⟩
  | some v =>
    refine hm.step (loopIndex_lt cfg i.val) (view_enabled he hs hv) ?_ ?_ ?_
    · rintro data l rfl
      rw [view_root_play hv] at hc
      exact hc
    · rintro rfl
      rw [view_pause hv] at hc
      exact hc
    · rintro rfl
      rw [view_resume hv] at hc
      exact hc

/-- A client and the sub-scenario of one channel: not started, or under way. -/
structure Sending (cfg : ZakuroConfig) (ch : DataChannel) (i : Fin n) (w : World n) : Prop where
  main : ∃ m, (w.slot [] i).Following (cfg.program i.val) cfg.loopIndex m
  sub : w.started i ch.label = [] ∧ (w.slot (channelPath ch) i).Fresh ∨
    w.started i ch.label ≠ [] ∧ ∃ k, (w.slot (channelPath ch) i).Following (channelData ch) 0 k

theorem channelData_loop (ch : DataChannel) : 0 < (channelData ch).length := Nat.succ_pos _

theorem Sending.step {cfg : ZakuroConfig} (h : Sending cfg ch i w) (hd : Drives cfg)
    (hch : ch ∈ cfg.channels) (he : Queued env w e) (hc : Unpaused e) (hs : World.step env w e = .ok w') :
    Sending cfg ch i w' := by
  have hmain := main_step h.main he hc hs
  refine ⟨hmain, ?_⟩
  by_cases hplay : ∃ data l, w.view (channelPath ch) i e = some (.play data l)
  · obtain ⟨data, l, hv⟩ := hplay
    obtain ⟨hop, hops⟩ := started_play hs hv
    obtain ⟨m, hm⟩ := h.main
    have hmem : .playSubScenario ("scenario-dcs-" ++ ch.label) data l ∈ cfg.program i.val :=
      List.mem_of_getElem? (hm.placed.current.symm.trans hop)
    have hstarted : w'.started i ch.label =
        w.started i ch.label ++ [.playSubScenario ("scenario-dcs-" ++ ch.label) data l] := by
      rw [started, hops, List.filter_append, started]
      simp [Op.startsOn]
    have honce := started_once hd hch hmain
    rw [hstarted, List.length_append, List.length_singleton] at honce
    have hnil : w.started i ch.label = [] := List.length_eq_zero_iff.mp (by omega)
    -- nothing has happened to the sub-scenario before
    have hfresh : (w.slot (channelPath ch) i).Fresh := by
      rcases h.sub with ⟨-, hfresh⟩ | ⟨hne, -⟩
      · exact hfresh
      · exact absurd hnil hne
    rcases program_sub_cases hmem with ⟨ch', hch', hname, rfl, rfl⟩ | ⟨hname, -, -⟩
    · obtain rfl : ch' = ch := hd.channel_eq hch hch' (String.append_right_inj _ |>.mp hname.symm)
      rw [hstarted, step_slot hs (channelPath ch') i, hv]
      exact .inr ⟨by simp, 0, hfresh.play (channelData_loop ch')⟩
    · exact absurd hname.symm (voice_name ch.label)
  · have hne : ∀ data l, w.view (channelPath ch) i e ≠ some (.play data l) :=
      fun data l heq => hplay ⟨data, l, heq⟩
    rw [started_unchanged hs hne, step_slot hs (channelPath ch) i]
    cases hv : w.view (channelPath ch) i e with
    | none => exact h.sub
    | some v =>
      have henabled := view_enabled he hs hv
      have hplay' : ∀ data l, v ≠ .play data l := fun data l heq => hne data l (heq ▸ hv)
      have hpause : v ≠ .pause := fun heq =>
        List.cons_ne_nil _ _ (view_pause_path (.inl (heq ▸ hv)))
      have hresume : v ≠ .resume := fun heq =>
        List.cons_ne_nil _ _ (view_pause_path (.inr (heq ▸ hv)))
      refine h.sub.imp (fun ⟨hnil, hfresh⟩ => ⟨hnil, hfresh.step henabled hplay' hresume⟩) ?_
      rintro ⟨hstarted, k, hk⟩
      exact ⟨hstarted, hk.step (channelData_loop ch) henabled hplay' hpause hresume⟩

theorem run_sending (cfg : ZakuroConfig) (ch : DataChannel) (i : Fin n) : Sending cfg ch i (run n cfg) := by
  have hexecuted : (run n cfg).executed = [] :=
    (foldl_play_same cfg (List.finRange n) (start (fun _ => .init) cfg.audios)).2.2
  have hops (p : PlayerPath) : (run n cfg).opsOf p i = [] := by
    rw [opsOf, hexecuted]
    rfl
  have hinfo : (run n cfg).info (channelPath ch) i = {} := by
    rw [run_info, if_neg (by simp [channelPath])]
  refine ⟨⟨0, run_following cfg i⟩, .inl ⟨?_, ?_, ?_, hops _⟩⟩
  · rw [started, hops]
    rfl
  · rw [slot, hinfo]
    rfl
  · rw [slot, hinfo]
    rfl

end Channel

theorem runs_sending {env : Env} {cfg : ZakuroConfig} (hd : Drives cfg) {ch : DataChannel}
    (hch : ch ∈ cfg.channels) (i : Fin n) {w : World n} {es : List (Event n)}
    (h : Machine.Run ((machine env).restrict fun _ => Unpaused) (run n cfg) es w) :
    Sending cfg ch i w := by
  refine h.invariant (I := Sending cfg ch i) ?_ (run_sending cfg ch i)
  rintro w e w' hw ⟨⟨-, he⟩, hc⟩ hs
  exact hw.step hd hch he hc hs

/-! ## Every channel is driven -/

/-- The client started the sub-scenario of the channel once, and it executes
what the channel says, sleeping its interval, for ever. -/
structure Driven (w : World n) (i : Fin n) (ch : DataChannel) : Prop where
  once : w.started i ch.label = [startChannel ch]
  data : (w.info (channelPath ch) i).data = channelData ch
  underway : (w.info (channelPath ch) i).paused = false ∧ (w.info (channelPath ch) i).pending = 1
  trace : ∃ k, w.opsOf (channelPath ch) i = unroll (channelData ch) 0 k

/-- A client that is behind its first pass drives every channel. -/
theorem Drives.driven {env : Env} {cfg : ZakuroConfig} (hd : Drives cfg) {ch : DataChannel}
    (hch : ch ∈ cfg.channels) (i : Fin n) {w : World n} {es : List (Event n)}
    (h : Machine.Run ((machine env).restrict fun _ => Unpaused) (run n cfg) es w)
    (hpass : (cfg.program i.val).length ≤ (w.opsOf [] i).length) : Driven w i ch := by
  have hsending := runs_sending hd hch i h
  have hstarted : w.started i ch.label = [startChannel ch] := by
    rw [started_eq hsending.main, List.take_of_length_le hpass, hd.starts i.val hch]
  rcases hsending.sub with ⟨hnil, -⟩ | ⟨-, k, hk⟩
  · rw [hstarted] at hnil
    exact absurd hnil (List.cons_ne_nil _ _)
  · exact ⟨hstarted, hk.placed.data, ⟨hk.running, hk.pending⟩, _, hk.executed⟩

/-- The sending channels have different labels, and the clients do not only
reconnect. -/
structure Drivable (cfg : ZakuroConfig) (value : Json) : Prop where
  labels : ((DataChannels.sendingObjects value).map DataChannels.label).Nodup
  branch : DataChannels.sendingObjects value = [] ∨
    ¬ (cfg.fakeAudioCapture = false ∧ cfg.scenario = .reconnect)

theorem labels_eq {objs : List DataChannels.Members} {chs : List DataChannel}
    (h : List.Forall₂ DataChannels.Describes objs chs) :
    objs.map DataChannels.label = (chs.map DataChannel.label).map fun text => some (.string text) := by
  induction h with
  | nil => rfl
  | cons hd _ ih => rw [List.map_cons, List.map_cons, List.map_cons, ih, hd.label]

theorem labels_nodup {objs : List DataChannels.Members} {chs : List DataChannel}
    (h : List.Forall₂ DataChannels.Describes objs chs) :
    (objs.map DataChannels.label).Nodup ↔ (chs.map DataChannel.label).Nodup := by
  rw [labels_eq h]
  refine List.nodup_map_iff fun a b heq => ?_
  injection heq with heq
  injection heq

theorem describes_label {obj : DataChannels.Members} {ch ch' : DataChannel}
    (h : DataChannels.Describes obj ch) (h' : DataChannels.Describes obj ch') : ch'.label = ch.label := by
  have heq := Option.some.inj (h'.label.symm.trans h.label)
  injection heq

/-- An entry of one of two related lists has its partner in the other. -/
theorem exists_partner {α β : Type} {R : α → β → Prop} {as : List α} {bs : List β}
    (h : List.Forall₂ R as bs) {a : α} (ha : a ∈ as) : ∃ b ∈ bs, R a b := by
  induction h with
  | nil => exact absurd ha List.not_mem_nil
  | cons hr _ ih =>
    rcases List.mem_cons.mp ha with rfl | ha
    · exact ⟨_, List.mem_cons_self, hr⟩
    · obtain ⟨b, hb, hr⟩ := ih ha
      exact ⟨b, List.mem_cons_of_mem _ hb, hr⟩

/-- A sleep between equal bounds is as long as they say. -/
theorem sleepMs_interval {obj : DataChannels.Members} {ch : DataChannel}
    (h : DataChannels.Describes obj ch) (rand : Nat) :
    Op.sleepMs rand ch.interval ch.interval = some ch.interval := by
  have hrange : -2147483648 ≤ ch.interval ∧ ch.interval ≤ 2147483647 := by
    have hsays := h.interval
    cases hm : DataChannels.interval obj with
    | none =>
      rw [hm] at hsays
      have hdefault : ch.interval = 500 := hsays
      omega
    | some value =>
      rw [hm] at hsays
      exact Json.asInt?_range hsays
  have hone : CData.toSize (CData.toInt (ch.interval - ch.interval + 1)) = 1 := by
    rw [Int.sub_self]
    decide
  rw [Op.sleepMs, hone, if_neg (by decide), Nat.mod_one, Int.natCast_zero, Int.zero_add,
    CData.toInt64_of_range (by omega) (by omega)]

theorem runs_following {env : Env} (cfg : ZakuroConfig) (i : Fin n) {w : World n} {es : List (Event n)}
    (h : Machine.Run ((machine env).restrict fun _ => Unpaused) (run n cfg) es w) :
    ∃ m, (w.slot [] i).Following (cfg.program i.val) cfg.loopIndex m := by
  refine h.invariant (I := fun w => ∃ m, (w.slot [] i).Following (cfg.program i.val) cfg.loopIndex m) ?_
    ⟨0, run_following cfg i⟩
  rintro w e w' hw ⟨⟨-, he⟩, hc⟩ hs
  exact main_step hw he hc hs

/-- A client that drives its channels has been able to. -/
theorem drivable_of_driven {env : Env} {cfg : ZakuroConfig} {value : Json}
    (hdescribes : List.Forall₂ DataChannels.Describes (DataChannels.sendingObjects value) cfg.channels)
    {w : World n} {es : List (Event n)}
    (h : Machine.Run ((machine env).restrict fun _ => Unpaused) (run n cfg) es w) (i : Fin n)
    (hpass : (cfg.program i.val).length ≤ (w.opsOf [] i).length)
    (hdriven : ∀ obj ∈ DataChannels.sendingObjects value, ∃ ch, DataChannels.Describes obj ch ∧
      Driven w i ch) : Drivable cfg value := by
  have hstarted (label : String) : w.started i label = (cfg.program i.val).filter (Op.startsOn label) := by
    rw [started_eq (runs_following cfg i h), List.take_of_length_le hpass]
  by_cases hbranch : cfg.fakeAudioCapture = false ∧ cfg.scenario = .reconnect
  · have hnil : DataChannels.sendingObjects value = [] := by
      rw [List.eq_nil_iff_forall_not_mem]
      intro obj hobj
      obtain ⟨ch, -, hch⟩ := hdriven obj hobj
      have honce := hch.once
      rw [hstarted, List.filter_eq_nil_iff.mpr fun op hop => by
        simp [program_reconnect hbranch i.val ch.label op hop]] at honce
      exact List.cons_ne_nil _ _ honce.symm
    exact ⟨hnil ▸ List.nodup_nil, .inl hnil⟩
  · refine ⟨(labels_nodup hdescribes).mpr ?_, .inr hbranch⟩
    rw [List.nodup_iff_count_le_one]
    intro label
    have hcount : (cfg.channels.map DataChannel.label).count label =
        (cfg.channels.filter fun ch => ch.label = label).length := by
      rw [List.count, List.countP_map, List.countP_eq_length_filter]
      rfl
    rw [hcount]
    by_contra hmany
    obtain ⟨ch, hch⟩ := List.exists_mem_of_length_pos (Nat.lt_of_succ_lt (Nat.lt_of_not_le hmany))
    obtain ⟨hch, hlabel⟩ := List.mem_filter.mp hch
    obtain ⟨obj, hobj, hobjch⟩ := exists_partner
      (R := flip DataChannels.Describes) hdescribes.flip hch
    obtain ⟨ch', hobjch', hch'⟩ := hdriven obj hobj
    have honce := congrArg List.length hch'.once
    rw [describes_label hobjch hobjch', hstarted, program_starts hbranch, List.length_map,
      of_decide_eq_true hlabel] at honce
    exact hmany (Nat.le_of_eq honce)

/-- A client that is behind its first pass drives each channel that is to send
exactly when the list of channels can be driven. -/
theorem channels_driven_iff (env : Env) {cfg : ZakuroConfig} {value : Json} {m : DataChannels}
    (hparse : DataChannels.ofConfig value = .value m) (hcfg : cfg.channels = m.channels)
    {w : World n} {es : List (Event n)}
    (h : Machine.Run ((machine env).restrict fun _ => Unpaused) (run n cfg) es w) (i : Fin n)
    (hpass : (cfg.program i.val).length ≤ (w.opsOf [] i).length) :
    (∀ obj ∈ DataChannels.sendingObjects value, ∃ ch, DataChannels.Describes obj ch ∧
      (∀ rand, Op.sleepMs rand ch.interval ch.interval = some ch.interval) ∧ Driven w i ch) ↔
    Drivable cfg value := by
  have hdescribes := DataChannels.ofConfig_describes hparse
  rw [← hcfg] at hdescribes
  constructor
  · intro hdriven
    apply drivable_of_driven hdescribes h i hpass
    intro obj hobj
    obtain ⟨ch, hd, -, hch⟩ := hdriven obj hobj
    exact ⟨ch, hd, hch⟩
  · intro hdrivable obj hobj
    have hdrives : Drives cfg := by
      refine ⟨(labels_nodup hdescribes).mp hdrivable.labels, ?_⟩
      rcases hdrivable.branch with hnil | hbranch
      · exact absurd (hnil ▸ hobj) List.not_mem_nil
      · exact hbranch
    obtain ⟨ch, hch, hd⟩ := exists_partner hdescribes hobj
    exact ⟨ch, hd, sleepMs_interval hd, hdrives.driven hch i h hpass⟩

/-- One channel to send on. -/
def oneChannel : Json :=
  .array [.object [("label", .string "#a"), ("direction", .string "sendonly"), ("interval", .int64 100)]]

/-- Clients that play a file, or voice numbers between reconnections. -/
def oneChannelConfig (scenario : ScenarioType) (fakeAudioCapture : Bool) : ZakuroConfig where
  fakeAudioCapture := fakeAudioCapture
  noAudioDevice := false
  scenario := scenario
  duration := ⟨true, 0⟩
  repeatInterval := ⟨true, 0⟩
  firstWaitMs := fun _ => 0
  channels := [⟨"#a", 100, 48, 48⟩]

def sleepEvents (i : Fin n) : List (Event n) :=
  [.onNext [] i zeroDraw, .sleepExpired [] i, .sleepReady [] i]

/-- A first pass: the place in the queue, three operations, and a sleep. -/
def firstPass (i : Fin n) : List (Event n) :=
  sleepEvents i ++ [.onNext [] i zeroDraw, .onNext [] i zeroDraw] ++ sleepEvents i

theorem channels_driven_one : ∃ (m : DataChannels) (w : World 1),
    DataChannels.ofConfig oneChannel = .value m ∧
      (oneChannelConfig .reconnect true).channels = m.channels ∧
      Machine.Run ((machine quietEnv).restrict fun _ => Unpaused)
        (run 1 (oneChannelConfig .reconnect true))
        (firstPass 0) w ∧
      ∀ obj ∈ DataChannels.sendingObjects oneChannel, ∃ ch, DataChannels.Describes obj ch ∧
        (∀ rand, Op.sleepMs rand ch.interval ch.interval = some ch.interval) ∧ Driven w 0 ch := by
  obtain ⟨w, hw, hpass⟩ := Machine.exec_exists ((machine quietEnv).restrict fun _ => Unpaused)
    (run 1 (oneChannelConfig .reconnect true)) (firstPass 0)
    (fun w => decide (((oneChannelConfig .reconnect true).program 0).length ≤ (w.opsOf [] 0).length))
    (by decide +kernel)
  refine ⟨⟨[⟨"#a", 100, 48, 48⟩], [⟨"#a", "sendonly", none, none, none, none, none⟩]⟩, w, rfl, rfl, hw, ?_⟩
  have hone : DataChannels.sendingObjects oneChannel =
      [[("label", .string "#a"), ("direction", .string "sendonly"), ("interval", .int64 100)]] := rfl
  have hlabels : ((DataChannels.sendingObjects oneChannel).map DataChannels.label).Nodup := by
    rw [hone]
    exact List.nodup_singleton _
  exact (channels_driven_iff quietEnv rfl rfl hw 0 (of_decide_eq_true hpass)).mpr
    ⟨hlabels, .inr (by decide)⟩

/-- Eight voice numbers between nine sleeps, behind the first wait and the connection. -/
def reconnectPass (i : Fin n) : List (Event n) :=
  sleepEvents i ++ [.onNext [] i zeroDraw] ++
    (List.replicate 8 (sleepEvents i ++ [.onNext [] i zeroDraw])).flatten ++ sleepEvents i

/-- Clients that only reconnect start nothing on their first pass. -/
theorem channels_not_driven : ∃ (m : DataChannels) (w : World 1),
    DataChannels.ofConfig oneChannel = .value m ∧
      (oneChannelConfig .reconnect false).channels = m.channels ∧
      Machine.Run ((machine quietEnv).restrict fun _ => Unpaused)
        (run 1 (oneChannelConfig .reconnect false))
        (reconnectPass 0) w ∧
      ((oneChannelConfig .reconnect false).program 0).length ≤ (w.opsOf [] 0).length ∧
      ∃ obj ∈ DataChannels.sendingObjects oneChannel, ∀ ch, DataChannels.Describes obj ch →
        ¬ Driven w 0 ch := by
  obtain ⟨w, hw, hp⟩ := Machine.exec_exists ((machine quietEnv).restrict fun _ => Unpaused)
    (run 1 (oneChannelConfig .reconnect false)) (reconnectPass 0)
    (fun w => decide (((oneChannelConfig .reconnect false).program 0).length ≤ (w.opsOf [] 0).length) &&
      (w.started 0 "#a").isEmpty) (by decide +kernel)
  simp only [Bool.and_eq_true, decide_eq_true_eq, List.isEmpty_iff] at hp
  refine ⟨⟨[⟨"#a", 100, 48, 48⟩], [⟨"#a", "sendonly", none, none, none, none, none⟩]⟩, w, rfl, rfl, hw, hp.1,
    _, List.mem_singleton.mpr rfl, fun ch hd hdriven => ?_⟩
  have hlabel : "#a" = ch.label := by
    have h := Option.some.inj hd.label
    injection h
  have honce := hdriven.once
  rw [← hlabel, hp.2] at honce
  exact List.cons_ne_nil _ _ honce.symm

end World
