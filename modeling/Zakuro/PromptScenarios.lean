import Zakuro.PromptWorld

/-!
# What an instance gets done

How many messages and sessions an instance has behind it at a time, while nothing
is paused and no handler of theirs is late by more than a delay.
-/

namespace PromptWorld

open ScenarioPlayer Unrolling
open TimedWorld (ns Stepped Cycling)

variable {n : Nat} {env : Env} {cfg : ZakuroConfig} {delay t0 : Int} {s t : PromptWorld n}
  {e : TimedWorld.Event n} {i : Fin n}

/-! ## Messages -/

section Channel

variable {ch : DataChannel} {first later : List DataChannel}

/-- The operations before the one that starts a channel. -/
def beforeChannel (cfg : ZakuroConfig) (i : Nat) (first : List DataChannel) : List Op :=
  .sleep (cfg.firstWaitMs i) (cfg.firstWaitMs i) :: .reconnect :: first.map World.startChannel

theorem program_channel (hd : World.Drives cfg) (hch : cfg.channels = first ++ ch :: later) (i : Nat) :
    ∃ rest, cfg.program i = beforeChannel cfg i first ++ World.startChannel ch :: rest := by
  have hdcs : cfg.dcsData = first.map World.startChannel ++ World.startChannel ch ::
      later.map World.startChannel := by
    rw [← List.map_cons, ← List.map_append, ← hch]
    rfl
  rw [(World.program_standard hd.branch i).1, ZakuroConfig.subs, hdcs]
  simp only [beforeChannel, List.append_assoc, List.cons_append]
  exact ⟨_, rfl⟩

theorem cost_beforeChannel (delay : Int) (i : Nat) (first : List DataChannel) :
    cost (takes delay) (beforeChannel cfg i first) =
      sleepNs (cfg.firstWaitMs i) + (first.length + 4) * delay := by
  have hstart : ∀ op ∈ first.map World.startChannel, takes delay op = delay := by
    intro op hop
    obtain ⟨ch, -, rfl⟩ := List.mem_map.mp hop
    rfl
  have hreconnect : takes delay .reconnect = delay := rfl
  rw [beforeChannel, cost, cost, cost_of_const hstart, List.length_map, Int.add_mul, takes, hreconnect]
  omega

/-- Until a channel is started, the main player is before that operation. -/
theorem unstarted_cost (hdelay : 0 ≤ delay) (hd : World.Drives cfg) (hch : cfg.channels = first ++ ch :: later)
    {w : World n} (hmain : ∃ m, (w.slot [] i).Following (cfg.program i.val) cfg.loopIndex m)
    (hnil : w.started i ch.label = []) :
    cost (takes delay) (w.opsOf [] i) ≤ sleepNs (cfg.firstWaitMs i.val) + (first.length + 4) * delay := by
  obtain ⟨rest, hprogram⟩ := program_channel hd hch i.val
  have hl := World.loopIndex_lt cfg i.val
  have hstarted := World.started_eq hmain ch.label
  rw [hnil] at hstarted
  have hshort : (w.opsOf [] i).length ≤ (beforeChannel cfg i.val first).length := by
    by_contra hlong
    have hmem : World.startChannel ch ∈ (cfg.program i.val).take (w.opsOf [] i).length := by
      apply List.mem_of_getElem? (i := (beforeChannel cfg i.val first).length)
      rw [List.getElem?_take_of_lt (by omega), hprogram, List.getElem?_append_right (Nat.le_refl _), Nat.sub_self]
      rfl
    have hstarts : World.startChannel ch ∈
        ((cfg.program i.val).take (w.opsOf [] i).length).filter (Op.startsOn ch.label) :=
      List.mem_filter.mpr ⟨hmem, by simp [World.startsOn_startChannel]⟩
    rw [← hstarted] at hstarts
    exact absurd hstarts List.not_mem_nil
  obtain ⟨m, hm⟩ := hmain
  have hops : w.opsOf [] i = unroll (cfg.program i.val) cfg.loopIndex (w.opsOf [] i).length := by
    have htrace : w.opsOf [] i = unroll (cfg.program i.val) cfg.loopIndex
        (if (w.slot [] i).info.posted = 0 then m + 1 else m) := hm.executed
    rw [htrace, unroll_length hl]
  have hlen : (w.opsOf [] i).length ≤ (cfg.program i.val).length := by
    rw [hprogram, List.length_append]
    omega
  rw [unroll_eq_take hl hlen, hprogram, List.take_append_of_le_length hshort] at hops
  rw [← cost_beforeChannel, hops]
  exact cost_prefix_le (takes_nonneg hdelay) (List.take_prefix _ _)

/-- The latest that the sub-scenario of a channel begins. -/
def channelStart (delay : Int) (cfg : ZakuroConfig) (t0 : Int) (i : Nat) (first : List DataChannel) : Int :=
  t0 + sleepNs (cfg.firstWaitMs i) + (first.length + 5) * delay

/-- A channel of a client that is not late. -/
structure Channel (delay : Int) (cfg : ZakuroConfig) (t0 : Int) (i : Fin n) (ch : DataChannel)
    (first : List DataChannel) (s : PromptWorld n) : Prop where
  main : Main delay cfg t0 i s
  sending : World.Sending cfg ch i s.timed.world
  kept : s.timed.world.started i ch.label ≠ [] →
    ∃ start, start ≤ channelStart delay cfg t0 i.val first ∧ Kept delay start (World.channelPath ch) i s

/-- As long as a channel is not started, it is not late. -/
theorem Channel.unstarted (h : Channel delay cfg t0 i ch first s) (hdelay : 0 ≤ delay) (hd : World.Drives cfg)
    (hch : cfg.channels = first ++ ch :: later) (hnil : s.timed.world.started i ch.label = []) :
    t0 + cost (takes delay) (s.ops [] i) + delay ≤ channelStart delay cfg t0 i.val first := by
  have hcost := unstarted_cost hdelay hd hch h.sending.main hnil
  have hops : s.ops [] i = s.timed.world.opsOf [] i := h.main.timed.recorded.ops [] i
  rw [hops, channelStart, Int.add_mul]
  rw [Int.add_mul] at hcost
  omega

/-- A client that `Play` gets going begins in time. -/
theorem Kept.begins {p : PlayerPath} (hs : Stepped env s.timed e t.timed) (hsince : t.since = s.sinceAfter e)
    (hdelay : 0 ≤ delay) {data : List Op} {l : Int} (hv : s.timed.world.view p i e.event = some (.play data l))
    (hfresh : (s.timed.world.slot p i).Fresh) (hrecorded : TimedWorld.Recorded t0 s.timed) :
    Kept delay e.time p i t := by
  have hops : t.ops p i = [] := by
    have hnone : s.timed.entriesOf p i = [] :=
      List.map_eq_nil_iff.mp ((hrecorded.ops p i).trans hfresh.executed)
    rcases hs.entries p i with ⟨d, op, heq, -⟩ | ⟨-, hentries⟩
    · rw [heq, World.view, if_pos ⟨rfl, rfl⟩] at hv
      cases hv
    · rw [ops, hentries, hnone, List.map_nil]
  have hpending := hfresh.pending
  change (s.timed.world.info p i).pending = 0 at hpending
  have hcontrol := World.step_control hs.world p i
  rw [hv] at hcontrol
  have htimer : (t.timed.world.info p i).timer = ((s.timed.world.info p i).play data l).timer := by
    rw [(TimedWorld.counters_of_control hcontrol).2, World.viewed, ClientInfo.step, ← ClientInfo.control_play]
    rfl
  have hidle : (t.timed.world.info p i).timer.waiting = 0 ∧ (t.timed.world.info p i).timer.ready = 0 := by
    rw [htimer, ClientInfo.play]
    rw [ClientInfo.pending] at hpending
    split
    · refine ⟨rfl, ?_⟩
      change (s.timed.world.info p i).timer.ready = 0
      omega
    · omega
  have hnow : t.timed.now = e.time := hs.now
  have hsince : t.since (p, i) = e.time := by rw [hsince, sinceAfter, hv]
  obtain ⟨hwaiting, hready⟩ := hidle
  constructor
  · rw [hops, cost]
    omega
  · rw [hops, cost]
    omega
  · omega
  · omega

theorem following_of_started {w : World n} (h : World.Sending cfg ch i w) (hstarted : w.started i ch.label ≠ []) :
    ∃ k, (w.slot (World.channelPath ch) i).Following (World.channelData ch) 0 k := by
  rcases h.sub with ⟨hnil, -⟩ | ⟨-, hk⟩
  · exact absurd hnil hstarted
  · exact hk

theorem pending_of_started {w : World n} (h : World.Sending cfg ch i w) (hstarted : w.started i ch.label ≠ []) :
    (w.info (World.channelPath ch) i).pending = 1 := by
  obtain ⟨k, hk⟩ := following_of_started h hstarted
  exact hk.pending

theorem Channel.step (h : Channel delay cfg t0 i ch first s) (hints : cfg.Ints n) (hdelay : 0 ≤ delay)
    (hd : World.Drives cfg) (hch : cfg.channels = first ++ ch :: later)
    (henabled : (TimedWorld.unpaused env).enabled s.timed e) (hmainOnTime : s.OnTime delay e.time ([], i))
    (hontime : s.OnTime delay e.time (World.channelPath ch, i)) (hs : Stepped env s.timed e t.timed)
    (hsince : t.since = s.sinceAfter e) : Channel delay cfg t0 i ch first t := by
  have hmem : ch ∈ cfg.channels := by rw [hch]; simp
  obtain ⟨⟨-, -, -, hqueued⟩, hunpaused⟩ := id henabled
  have hmain := h.main.step hints hdelay henabled hmainOnTime hs hsince
  have hsending := h.sending.step hd hmem hqueued hunpaused hs.world
  refine ⟨hmain, hsending, fun hstarted => ?_⟩
  by_cases hplay : ∃ data l, s.timed.world.view (World.channelPath ch) i e.event = some (.play data l)
  · obtain ⟨data, l, hv⟩ := hplay
    have hfresh := TimedWorld.fresh_of_play h.sending hsending hd hmem hs.world hv
    have hnil : s.timed.world.started i ch.label = [] := by
      rcases h.sending.sub with ⟨hnil, -⟩ | ⟨-, k, hk⟩
      · exact hnil
      · exact absurd (hk.pending.symm.trans hfresh.pending) Nat.one_ne_zero
    obtain ⟨m, hm⟩ := h.main.timed.following
    have hreached := h.main.kept.reached hdelay hmainOnTime hm.pending
    have hstart := h.unstarted hdelay hd hch hnil
    exact ⟨e.time, by omega, Kept.begins hs hsince hdelay hv hfresh h.main.timed.recorded⟩
  · have hne : ∀ data l, s.timed.world.view (World.channelPath ch) i e.event ≠ some (.play data l) :=
      fun data l hv => hplay ⟨data, l, hv⟩
    rw [World.started_unchanged hs.world hne] at hstarted
    obtain ⟨start, hle, hkept⟩ := h.kept hstarted
    refine ⟨start, hle, hkept.step hdelay hontime hs hsince hqueued (pending_of_started h.sending hstarted) ?_ hne ?_ ?_⟩
    · intro op hop
      obtain ⟨k, hk⟩ := following_of_started h.sending hstarted
      rcases List.mem_cons.mp (current_mem hk hop) with rfl | hop
      · exact bounded_same (hints.interval ch hmem)
      · rw [List.mem_singleton.mp hop]
        exact bounded_awake rfl
    · exact fun hv => List.cons_ne_nil _ _ (World.view_pause_path (.inl hv))
    · exact fun hv => List.cons_ne_nil _ _ (World.view_pause_path (.inr hv))

theorem runs_channel (hints : cfg.Ints n) (hdelay : 0 ≤ delay) (hd : World.Drives cfg)
    (hch : cfg.channels = first ++ ch :: later) {es : List (TimedWorld.Event n)}
    (h : Machine.Run (machine env delay [([], i), (World.channelPath ch, i)]) (run n cfg t0) es s) :
    Channel delay cfg t0 i ch first s := by
  have hsending : World.Sending cfg ch i (run n cfg t0).timed.world := World.run_sending cfg ch i
  have hnone : (run n cfg t0).timed.world.started i ch.label = [] := by
    have hops : (run n cfg t0).timed.world.opsOf [] i = [] :=
      ((TimedWorld.run_recorded cfg t0).ops [] i).symm
    rw [World.started, hops, List.filter_nil]
  refine h.invariant (I := Channel delay cfg t0 i ch first) ?_
    ⟨run_main t0 hdelay, hsending, fun hstarted => absurd hnone hstarted⟩
  rintro s e t hchannel ⟨henabled, hontime⟩ hs
  obtain ⟨hs, hsince⟩ := step_cases hs
  exact hchannel.step hints hdelay hd hch henabled (hontime _ (by simp)) (hontime _ (by simp)) hs hsince

/-- What a channel has executed takes an interval for each message, and one more. -/
theorem channel_cost (hdelay : 0 ≤ delay) (ch : DataChannel) (m : Nat) :
    cost (takes delay) (unroll (World.channelData ch) 0 m) ≤ sleepNs ch.interval + 3 * delay +
      ((unroll (World.channelData ch) 0 m).filter (Op.sendsOn ch.label)).length *
        (sleepNs ch.interval + 4 * delay) := by
  have hpos := sleepNs_nonneg ch.interval
  have hloop : cost (takes delay) (World.channelData ch) = sleepNs ch.interval + 3 * delay + (delay + 0) := rfl
  have hsends : (World.channelData ch).filter (Op.sendsOn ch.label) =
      [.sendDataChannelMessage ch.label ch.sizeMin ch.sizeMax] := by
    simp [World.channelData, Op.sendsOn]
  refine unroll_cost_bounded (World.channelData_loop ch) ?_ (fun k hk => ?_) m
  · rw [List.drop_zero, hsends, hloop, List.length_singleton]
    omega
  · rcases k with _ | _ | k
    · rw [List.take_zero, cost, List.filter_nil, List.length_nil]
      omega
    · have hone : cost (takes delay) ((World.channelData ch).take 1) = sleepNs ch.interval + 3 * delay + 0 := rfl
      have hnone : ((World.channelData ch).take 1).filter (Op.sendsOn ch.label) = [] := rfl
      rw [hone, hnone, List.length_nil]
      omega
    · have hlen : (World.channelData ch).length = 2 := rfl
      omega

/-- While no handler of a client and of one of its channels is late by more than
the delay, the messages on the channel are not late by more than its wait and four
delays each. -/
theorem channels_kept_up (hd : World.Drives cfg) (hints : cfg.Ints n) (hdelay : 0 ≤ delay)
    (hch : cfg.channels = first ++ ch :: later) {es : List (TimedWorld.Event n)}
    (h : Machine.Run (machine env delay [([], i), (World.channelPath ch, i)]) (run n cfg t0) es s) :
    s.timed.now ≤ channelStart delay cfg t0 i.val first +
      ((s.timed.sendTimes i ch.label).length + 1) * (sleepNs ch.interval + 4 * delay) := by
  have hchannel := runs_channel hints hdelay hd hch h
  have hpos := sleepNs_nonneg ch.interval
  rw [Int.add_mul, Int.one_mul]
  by_cases hstarted : s.timed.world.started i ch.label = []
  · have hnow := hchannel.main.kept.now
    have hstart := hchannel.unstarted hdelay hd hch hstarted
    have hsent : 0 ≤ ((s.timed.sendTimes i ch.label).length : Int) * (sleepNs ch.interval + 4 * delay) :=
      Int.mul_nonneg (Int.natCast_nonneg _) (by omega)
    omega
  · obtain ⟨start, hle, hkept⟩ := hchannel.kept hstarted
    obtain ⟨k, hk⟩ := following_of_started hchannel.sending hstarted
    have hops : s.ops (World.channelPath ch) i = unroll (World.channelData ch) 0
        (if (s.timed.world.slot (World.channelPath ch) i).info.posted = 0 then k + 1 else k) :=
      (hchannel.main.timed.recorded.ops _ i).trans hk.executed
    have hsends : (s.timed.sendTimes i ch.label).length =
        ((s.ops (World.channelPath ch) i).filter (Op.sendsOn ch.label)).length := by
      rw [(TimedWorld.runs_addressed (runs_timed h)).sendTimes_eq, List.length_map, ops, List.filter_map,
        List.length_map]
      rfl
    have hcost := channel_cost hdelay ch
      (if (s.timed.world.slot (World.channelPath ch) i).info.posted = 0 then k + 1 else k)
    have hnow := hkept.now
    rw [← hops, ← hsends] at hcost
    omega

end Channel

/-- A client goes through its main program up to its sleep, and sends two messages. -/
def promptEvents (i : Fin n) : List (TimedWorld.Event n) :=
  TimedWorld.slept [] i 5 0 ++ [⟨20, .onNext [] i World.zeroDraw⟩, ⟨25, .onNext [] i World.zeroDraw⟩,
      ⟨30, .onNext [] i World.zeroDraw⟩] ++
    TimedWorld.slept World.sendingPath i 35 100 ++ [⟨ns 100 + 50, .onNext World.sendingPath i World.zeroDraw⟩] ++
    TimedWorld.slept World.sendingPath i (ns 100 + 60) 100 ++
    [⟨ns 200 + 80, .onNext World.sendingPath i World.zeroDraw⟩]

theorem sendingConfig_ints : World.sendingConfig.Ints 1 := by
  have hzero : IsInt 0 := ⟨by decide, by decide⟩
  refine ⟨fun _ _ => hzero, hzero, hzero, fun ch hch => ?_⟩
  rw [List.mem_singleton.mp hch]
  exact ⟨by decide, by decide⟩

theorem channels_kept_up_two : ∃ s : PromptWorld 1,
    Machine.Run (machine World.quietEnv 100 [([], 0), (World.sendingPath, 0)]) (run 1 World.sendingConfig 5)
      (promptEvents 0) s ∧
      s.timed.sendTimes 0 "#a" = [ns 100 + 50, ns 200 + 80] ∧ s.timed.now ≤ 505 + 3 * (ns 100 + 400) := by
  obtain ⟨s, hs, hp⟩ := Machine.exec_exists (machine World.quietEnv 100 [([], 0), (World.sendingPath, 0)])
    (run 1 World.sendingConfig 5) (promptEvents 0)
    (fun s => s.timed.sendTimes 0 "#a" == [ns 100 + 50, ns 200 + 80]) (by decide +kernel)
  have hlabels : (World.sendingConfig.channels.map DataChannel.label).Nodup := List.nodup_singleton "#a"
  have hsent : s.timed.sendTimes 0 "#a" = [ns 100 + 50, ns 200 + 80] := by simpa using hp
  have hch : World.sendingConfig.channels = [] ++ ⟨"#a", 100, 48, 48⟩ :: [] := rfl
  have hkept := channels_kept_up ⟨hlabels, by decide⟩ sendingConfig_ints (by decide) hch hs
  rw [hsent] at hkept
  exact ⟨s, hs, hsent, hkept⟩

/-! ## Sessions -/

/-- One more cycle of an instance that disconnects and connects its clients. -/
def cycleNs (delay : Int) (cfg : ZakuroConfig) : Int :=
  sleepNs cfg.duration.ms + sleepNs cfg.repeatInterval.ms + 8 * delay

/-- The part of the program of a client that is not repeated. -/
def firstPart (cfg : ZakuroConfig) (i : Nat) : List Op :=
  .sleep (cfg.firstWaitMs i) (cfg.firstWaitMs i) :: .reconnect :: cfg.subs

/-- The loop of such a program. -/
def cycleOps (cfg : ZakuroConfig) : List Op :=
  [.sleep cfg.duration.ms cfg.duration.ms, .disconnect, .sleep cfg.repeatInterval.ms cfg.repeatInterval.ms, .reconnect]

theorem cycling_program (h : Cycling cfg) (i : Nat) : cfg.program i = firstPart cfg i ++ cycleOps cfg := by
  rw [(World.program_standard h.standard i).1, ZakuroConfig.addReconnectScenario, h.duration, h.repeatInterval]
  rfl

theorem cost_firstPart (delay : Int) (i : Nat) :
    cost (takes delay) (firstPart cfg i) = sleepNs (cfg.firstWaitMs i) + (cfg.subs.length + 4) * delay := by
  have hsub : ∀ op ∈ cfg.subs, takes delay op = delay := by
    intro op hop
    have hawake := World.subs_isSub cfg op hop
    cases op with
    | sleep lo hi => cases hawake
    | _ => rfl
  have hreconnect : takes delay .reconnect = delay := rfl
  rw [firstPart, cost, cost, cost_of_const hsub, Int.add_mul, takes, hreconnect]
  omega

theorem cost_cycleOps (delay : Int) : cost (takes delay) (cycleOps cfg) = cycleNs delay cfg := by
  have hops : cost (takes delay) (cycleOps cfg) = sleepNs cfg.duration.ms + 3 * delay + (delay +
      (sleepNs cfg.repeatInterval.ms + 3 * delay + (delay + 0))) := rfl
  rw [hops, cycleNs]
  omega

/-- What a client has executed takes a cycle for each time it was connected, behind
the part that is not repeated. -/
theorem session_cost (hcycling : Cycling cfg) (hdelay : 0 ≤ delay) (i m : Nat) :
    cost (takes delay) (unroll (cfg.program i) cfg.loopIndex m) ≤
      sleepNs (cfg.firstWaitMs i) + (cfg.subs.length + 4) * delay +
        ((unroll (cfg.program i) cfg.loopIndex m).filter Op.isReconnect).length * cycleNs delay cfg := by
  have hprogram := cycling_program hcycling i
  have hl : cfg.loopIndex = (firstPart cfg i).length := (World.program_standard hcycling.standard i).2
  have hcycle : 0 ≤ cycleNs delay cfg := by
    rw [← cost_cycleOps]
    exact cost_nonneg (takes_nonneg hdelay) _
  rw [← cost_firstPart]
  refine unroll_cost_bounded (World.loopIndex_lt cfg i) ?_ (fun k hk => ?_) m
  · have hone : (cycleOps cfg).filter Op.isReconnect = [.reconnect] := rfl
    rw [hprogram, hl, List.drop_left, cost_cycleOps, hone, List.length_singleton]
    omega
  · have hcount : 0 ≤ (((cfg.program i).take k).filter Op.isReconnect).length * cycleNs delay cfg :=
      Int.mul_nonneg (Int.natCast_nonneg _) hcycle
    rcases Nat.le_total k (firstPart cfg i).length with hle | hge
    · -- the loop has not begun
      have hprefix : (cfg.program i).take k <+: firstPart cfg i := by
        rw [hprogram, List.take_append_of_le_length hle]
        exact List.take_prefix _ _
      have hcost := cost_prefix_le (takes_nonneg hdelay) hprefix
      omega
    · -- the client has been connected before
      have hcost := cost_prefix_le (takes_nonneg hdelay) (List.take_prefix k (cfg.program i))
      rw [hprogram, cost_append, cost_cycleOps] at hcost
      have hmem : Op.reconnect ∈ (cfg.program i).take k := by
        apply List.mem_of_getElem? (i := 1)
        have hlong : (firstPart cfg i).length = cfg.subs.length + 2 := rfl
        rw [List.getElem?_take_of_lt (by omega), (World.program_start cfg i).2]
      have hsome : 0 < (((cfg.program i).take k).filter Op.isReconnect).length :=
        List.length_pos_of_mem (List.mem_filter.mpr ⟨hmem, rfl⟩)
      have hpaid := Int.mul_le_mul_of_nonneg_right (Int.ofNat_le.mpr hsome) hcycle
      rw [hprogram] at hpaid ⊢
      omega

/-- While no handler of the main player is late for a client by more than the
delay, the client is connected again and again, each time a cycle and eight delays
after the last one at the latest. -/
theorem sessions_kept_up (hcycling : Cycling cfg) (hints : cfg.Ints n) (hdelay : 0 ≤ delay)
    {es : List (TimedWorld.Event n)} (h : Machine.Run (machine env delay [([], i)]) (run n cfg t0) es s) :
    s.timed.now ≤ t0 + sleepNs (cfg.firstWaitMs i.val) + (cfg.subs.length + 5) * delay +
      (s.timed.connectTimes i).length * cycleNs delay cfg := by
  have hmain := runs_main hints hdelay (List.mem_singleton_self _) h
  obtain ⟨m, hm⟩ := hmain.timed.following
  have hops : s.ops [] i = unroll (cfg.program i.val) cfg.loopIndex
      (if (s.timed.world.slot [] i).info.posted = 0 then m + 1 else m) :=
    (hmain.timed.recorded.ops [] i).trans hm.executed
  have hconnects : (s.timed.connectTimes i).length = ((s.ops [] i).filter Op.isReconnect).length := by
    rw [TimedWorld.connectTimes, List.length_map, ops, List.filter_map, List.length_map]
    rfl
  have hcost := session_cost hcycling hdelay i.val
    (if (s.timed.world.slot [] i).info.posted = 0 then m + 1 else m)
  have hnow := hmain.kept.now
  rw [← hops, ← hconnects] at hcost
  rw [Int.add_mul] at hcost ⊢
  omega

theorem sessions_kept_up_twice : ∃ s : PromptWorld 2,
    Machine.Run (machine World.quietEnv 100 [([], 0)]) (run 2 TimedWorld.cyclingConfig 0)
      (TimedWorld.cyclingEvents 0) s ∧
      s.timed.connectTimes 0 = [10, ns 1500 + 50] ∧ s.timed.now ≤ 500 + 2 * (ns 1500 + 800) := by
  obtain ⟨s, hs, hp⟩ := Machine.exec_exists (machine World.quietEnv 100 [([], 0)])
    (run 2 TimedWorld.cyclingConfig 0) (TimedWorld.cyclingEvents 0)
    (fun s => s.timed.connectTimes 0 == [10, ns 1500 + 50]) (by decide +kernel)
  have hconnects : s.timed.connectTimes 0 = [10, ns 1500 + 50] := by simpa using hp
  have hkept := sessions_kept_up ⟨by decide, rfl, rfl⟩ TimedWorld.cyclingConfig_ints (by decide) hs
  rw [hconnects] at hkept
  exact ⟨s, hs, hconnects, hkept⟩

end PromptWorld
