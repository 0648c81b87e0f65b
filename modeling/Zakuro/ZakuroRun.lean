import Mathlib.Data.List.FinRange
import Zakuro.DataChannels
import Zakuro.ScenarioTrace

/-!
# Zakuro::Run

The scenario that `Zakuro::Run` builds from the configuration of an instance, and
the calls of `Play` with which it starts the clients before the event loop runs.
Values that the source computes with floating-point numbers are given as the
integers they are cast to.
-/

/-- A duration in seconds: whether it is zero, and `(int)(seconds * 1000)`. -/
structure Seconds where
  isZero : Bool
  ms : Int
  deriving DecidableEq, Repr

/-- The values that `--scenario` accepts. -/
inductive ScenarioType where
  | standard
  | reconnect
  deriving DecidableEq, Repr

/-- The members of `ZakuroConfig` that the scenario depends on. -/
structure ZakuroConfig where
  /-- `fake_audio_capture` is not empty. -/
  fakeAudioCapture : Bool
  noAudioDevice : Bool
  scenario : ScenarioType
  duration : Seconds
  repeatInterval : Seconds
  /-- `(int)(1000 * i / config_.vcs_hatch_rate)` -/
  firstWaitMs : Nat → Int
  channels : List DataChannel

namespace ZakuroConfig

/-- The sub-scenarios that keep on sending, one for each channel. -/
def dcsData (cfg : ZakuroConfig) : List Op :=
  cfg.channels.map fun ch =>
    .playSubScenario ("scenario-dcs-" ++ ch.label)
      [.sleep ch.interval ch.interval, .sendDataChannelMessage ch.label ch.sizeMin ch.sizeMax] 0

def voiceScenario : Op :=
  .playSubScenario "scenario-voice-number-client" [.sleep 1000 5000, .playVoiceNumberClient] 0

/-- `add_reconnect_scenario` -/
def addReconnectScenario (cfg : ZakuroConfig) : List Op :=
  if cfg.duration.isZero then [.sleep 10000 10000]
  else
    [.sleep cfg.duration.ms cfg.duration.ms, .disconnect] ++
      if cfg.repeatInterval.isZero then [.exit]
      else [.sleep cfg.repeatInterval.ms cfg.repeatInterval.ms, .reconnect]

/-- The scenario that only reconnects. -/
abbrev Reconnecting (cfg : ZakuroConfig) : Prop :=
  cfg.fakeAudioCapture = false ∧ cfg.scenario = .reconnect

def reconnectScenario : List Op :=
  [.reconnect, .sleep 1000 5000, .playVoiceNumberClient, .sleep 1000 5000, .playVoiceNumberClient,
    .sleep 1000 5000, .playVoiceNumberClient, .sleep 1000 5000, .playVoiceNumberClient,
    .sleep 1000 5000, .playVoiceNumberClient, .sleep 1000 5000, .playVoiceNumberClient,
    .sleep 1000 5000, .playVoiceNumberClient, .sleep 1000 5000, .playVoiceNumberClient,
    .sleep 1000 5000]

/-- The program that all clients share and `loop_index`, in the three branches. -/
def data (cfg : ZakuroConfig) : List Op × Nat :=
  if cfg.fakeAudioCapture then
    (.reconnect :: cfg.dcsData ++ cfg.addReconnectScenario, 1 + cfg.dcsData.length)
  else
    match cfg.scenario with
    | .standard =>
      (.reconnect :: cfg.dcsData ++ [voiceScenario] ++ cfg.addReconnectScenario, 1 + cfg.dcsData.length + 1)
    | .reconnect => (reconnectScenario, 0)

/-- The program of a client: its place in the queue comes first. -/
def program (cfg : ZakuroConfig) (i : Nat) : List Op :=
  .sleep (cfg.firstWaitMs i) (cfg.firstWaitMs i) :: cfg.data.1

def loopIndex (cfg : ZakuroConfig) : Nat := cfg.data.2 + 1

/-- The operations before those of `add_reconnect_scenario`. -/
def opening (cfg : ZakuroConfig) : List Op :=
  .reconnect :: cfg.dcsData ++ if cfg.fakeAudioCapture then [] else [voiceScenario]

theorem data_reconnecting {cfg : ZakuroConfig} (h : cfg.Reconnecting) : cfg.data = (reconnectScenario, 0) := by
  rw [data, h.1, h.2]
  rfl

/-- The two branches of the standard scenario differ by the voice numbers alone, and
both set the loop index behind what comes before `add_reconnect_scenario`. -/
theorem data_standard {cfg : ZakuroConfig} (h : ¬ cfg.Reconnecting) :
    cfg.data = (cfg.opening ++ cfg.addReconnectScenario, cfg.opening.length) := by
  cases hfake : cfg.fakeAudioCapture with
  | true => simp [data, opening, hfake, Nat.add_comm]
  | false =>
    cases hscenario : cfg.scenario with
    | standard => simp [data, opening, hfake, hscenario, Nat.add_comm]
    | reconnect => exact absurd ⟨hfake, hscenario⟩ h

theorem data_mem {cfg : ZakuroConfig} {op : Op} (h : op ∈ cfg.data.1) :
    op ∈ reconnectScenario ∨ op ∈ cfg.opening ∨ op ∈ cfg.addReconnectScenario := by
  by_cases hr : cfg.Reconnecting
  · rw [data_reconnecting hr] at h
    exact .inl h
  · rw [data_standard hr] at h
    exact .inr (List.mem_append.mp h)

theorem reconnectScenario_mem {op : Op} (h : op ∈ reconnectScenario) :
    op = .reconnect ∨ op = .sleep 1000 5000 ∨ op = .playVoiceNumberClient := by
  simp only [reconnectScenario, List.mem_cons, List.not_mem_nil, or_false] at h
  tauto

/-- The audio buffers: one, if the clients are to play voice numbers. -/
def audios (cfg : ZakuroConfig) : Option (List (List Int16)) :=
  if cfg.fakeAudioCapture then none else if cfg.noAudioDevice then some [] else some [[]]

end ZakuroConfig

namespace World

open ScenarioPlayer ClientInfo

variable {n : Nat}

def playClient (cfg : ZakuroConfig) (w : World n) (i : Fin n) : World n :=
  w.play [] i.val (cfg.program i.val) cfg.loopIndex

/-- The instance when its event loop begins to run. -/
def run (n : Nat) (cfg : ZakuroConfig) : World n :=
  (List.finRange n).foldl (playClient cfg) (start (fun _ => .init) cfg.audios)

/-! ## The programs -/

theorem loopIndex_lt (cfg : ZakuroConfig) (i : Nat) : cfg.loopIndex < (cfg.program i).length := by
  have hadd : 0 < cfg.addReconnectScenario.length := by
    rw [ZakuroConfig.addReconnectScenario]
    split <;> simp
  rw [ZakuroConfig.loopIndex, ZakuroConfig.program]
  by_cases h : cfg.Reconnecting
  · rw [ZakuroConfig.data_reconnecting h]
    exact Nat.succ_lt_succ (by decide)
  · rw [ZakuroConfig.data_standard h]
    simp only [List.length_cons, List.length_append]
    omega

/-- The programs of the sub-scenarios: a sleep, and an operation for the client. -/
def SubProgram (data : List Op) : Prop :=
  ∃ minTimeMs maxTimeMs op, data = [.sleep minTimeMs maxTimeMs, op] ∧
    (∀ rand, (Op.sleepMs rand minTimeMs maxTimeMs).isSome = true) ∧ op.isSleep = false ∧
    op ≠ .exit ∧ ∀ name data l, op ≠ .playSubScenario name data l

theorem subProgram_channel (ch : DataChannel) :
    SubProgram [.sleep ch.interval ch.interval, .sendDataChannelMessage ch.label ch.sizeMin ch.sizeMax] := by
  refine ⟨_, _, _, rfl, fun rand => ?_, rfl, by simp, by simp⟩
  obtain ⟨d, hd⟩ := Op.sleepMs_fixed rand ch.interval
  rw [hd]
  rfl

theorem subProgram_voice : SubProgram [.sleep 1000 5000, .playVoiceNumberClient] := by
  refine ⟨_, _, _, rfl, fun rand => ?_, rfl, by simp, by simp⟩
  rw [Op.sleepMs, if_neg (by decide)]
  rfl

theorem addReconnectScenario_sub (cfg : ZakuroConfig) (name : String) (data : List Op) (l : Int) :
    .playSubScenario name data l ∉ cfg.addReconnectScenario := by
  rw [ZakuroConfig.addReconnectScenario]
  split
  · simp
  · split <;> simp

/-- The sub-scenario of a channel. -/
def channelData (ch : DataChannel) : List Op :=
  [.sleep ch.interval ch.interval, .sendDataChannelMessage ch.label ch.sizeMin ch.sizeMax]

theorem dcsData_sub {cfg : ZakuroConfig} {op : Op} (h : op ∈ cfg.dcsData) : ∃ ch ∈ cfg.channels,
    op = .playSubScenario ("scenario-dcs-" ++ ch.label) (channelData ch) 0 := by
  obtain ⟨ch, hch, rfl⟩ := List.mem_map.mp h
  exact ⟨ch, hch, rfl⟩

theorem opening_mem {cfg : ZakuroConfig} {op : Op} (h : op ∈ cfg.opening) :
    op = .reconnect ∨ op ∈ cfg.dcsData ∨ op = ZakuroConfig.voiceScenario := by
  rw [ZakuroConfig.opening, List.cons_append, List.mem_cons, List.mem_append] at h
  refine h.imp id fun h => h.imp id fun h => ?_
  split at h
  · exact absurd h List.not_mem_nil
  · exact List.mem_singleton.mp h

/-- The sub-scenarios of a program are those of the channels and of the voice. -/
theorem program_sub_cases {cfg : ZakuroConfig} {i : Nat} {name : String} {data : List Op} {l : Int}
    (h : .playSubScenario name data l ∈ cfg.program i) :
    (∃ ch ∈ cfg.channels, name = "scenario-dcs-" ++ ch.label ∧ data = channelData ch ∧ l = 0) ∨
      (name = "scenario-voice-number-client" ∧ data = [.sleep 1000 5000, .playVoiceNumberClient] ∧
        l = 0) := by
  have hopening : .playSubScenario name data l ∈ cfg.opening := by
    rw [ZakuroConfig.program, List.mem_cons] at h
    simp only [reduceCtorEq, false_or] at h
    rcases ZakuroConfig.data_mem h with h | h | h
    · simp [ZakuroConfig.reconnectScenario] at h
    · exact h
    · exact absurd h (addReconnectScenario_sub cfg name data l)
  rcases opening_mem hopening with h | h | h
  · cases h
  · obtain ⟨ch, hch, heq⟩ := dcsData_sub h
    injection heq with hname hdata hl
    exact .inl ⟨ch, hch, hname, hdata, hl⟩
  · rw [ZakuroConfig.voiceScenario] at h
    injection h with hname hdata hl
    exact .inr ⟨hname, hdata, hl⟩

theorem program_sub {cfg : ZakuroConfig} {i : Nat} {name : String} {data : List Op} {l : Int}
    (h : .playSubScenario name data l ∈ cfg.program i) : SubProgram data ∧ l = 0 := by
  rcases program_sub_cases h with ⟨ch, -, -, rfl, rfl⟩ | ⟨-, rfl, rfl⟩
  · exact ⟨subProgram_channel ch, rfl⟩
  · exact ⟨subProgram_voice, rfl⟩

/-! ## The start -/

theorem foldl_play_info (cfg : ZakuroConfig) (is : List (Fin n)) (hnodup : is.Nodup) (w : World n)
    (p : PlayerPath) (i : Fin n) :
    (is.foldl (playClient cfg) w).info p i =
      if p = [] ∧ i ∈ is then (w.info p i).play (cfg.program i) cfg.loopIndex else w.info p i := by
  induction is generalizing w with
  | nil => simp
  | cons j is ih =>
    obtain ⟨hj, hnodup⟩ := List.nodup_cons.mp hnodup
    rw [List.foldl_cons, ih hnodup, playClient, play_client, info_modifyInfo]
    by_cases hp : p = []
    · by_cases hij : i = j
      · subst hij
        simp [hp, hj]
      · simp [hp, hij]
    · simp [hp]

theorem foldl_play_same (cfg : ZakuroConfig) (is : List (Fin n)) (w : World n) :
    let w' := is.foldl (playClient cfg) w
    w'.vcs = w.vcs ∧ w'.stopped = w.stopped ∧ w'.executed = w.executed := by
  induction is generalizing w with
  | nil => exact ⟨rfl, rfl, rfl⟩
  | cons j is ih =>
    obtain ⟨hvcs, hstopped, hexecuted⟩ := ih (playClient cfg w j)
    rw [playClient, play_client] at hvcs hstopped hexecuted
    rw [List.foldl_cons, playClient, play_client]
    exact ⟨hvcs, hstopped, hexecuted⟩

theorem run_info (cfg : ZakuroConfig) (p : PlayerPath) (i : Fin n) :
    (run n cfg).info p i =
      if p = [] then ({} : ClientInfo).play (cfg.program i) cfg.loopIndex else {} := by
  rw [run, foldl_play_info cfg _ (List.nodup_finRange n)]
  simp [List.mem_finRange, info, start]

/-- Every client begins with the first operation of its program. -/
theorem run_following (cfg : ZakuroConfig) (i : Fin n) :
    ((run n cfg).slot [] i).Following (cfg.program i) cfg.loopIndex 0 := by
  have hinfo : ((run n cfg).slot [] i).info =
      (Slot.step ⟨{}, []⟩ (.play (cfg.program i) cfg.loopIndex)).info := by
    change ((run n cfg).info [] i).control = _
    rw [run_info, if_pos rfl, control_play]
    rfl
  have hexecuted : ((run n cfg).slot [] i).executed = [] := by
    have hsame := (foldl_play_same cfg (List.finRange n) (start (fun _ => .init) cfg.audios)).2.2
    change ((run n cfg).executed.filter _).map _ = []
    rw [run, hsame]
    rfl
  have hfresh : Slot.Fresh ⟨{}, []⟩ := ⟨rfl, rfl, rfl⟩
  have hslot : (run n cfg).slot [] i = Slot.step ⟨{}, []⟩ (.play (cfg.program i) cfg.loopIndex) :=
    Slot.ext hinfo hexecuted
  rw [hslot]
  exact hfresh.play (loopIndex_lt cfg i)

end World
