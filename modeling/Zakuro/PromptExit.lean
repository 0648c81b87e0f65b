import Zakuro.ClientSessions
import Zakuro.PromptScenarios
import Zakuro.ScenarioExit

/-!
# The end of an instance in time

An instance with a duration and without a repeat interval is to end by itself. A
function that was given to `Close` is called sooner or later, so that what keeps
the event loop running past its time is a session that was asked to disconnect and
has not reported that it did.
-/

namespace VirtualClient

variable {κ : Type} {cfg : VirtualClientConfig} {s t : VirtualClient κ} {e : Event κ} {k : κ}

/-- The function waits for the end of the session. -/
structure Awaits (s : VirtualClient κ) (k : κ) : Prop where
  closing : s.closing = true
  onClose : s.onClose = some k
  inOnClose : s.inOnClose = false

/-- The function was called, or will be. -/
def Promised (s : VirtualClient κ) (k : κ) : Prop := k ∈ answered s.log ∨ Awaits s k

theorem answered_beginning {old log : List (Entry κ)} (h : old <+: log) (hk : k ∈ answered old) : k ∈ answered log := by
  obtain ⟨more, rfl⟩ := h
  rw [answered_append]
  exact List.mem_append_left _ hk

/-- A function that waits is called when the session ends, and nothing else takes
its place. -/
theorem awaits_step (hs : Inv s) (he : Enabled s e) (ht : step cfg s e = .ok t) (h : Awaits s k) :
    Promised t k := by
  have hopen {p : Prop} (hc : s.closing = false) : p := by
    rw [h.closing] at hc
    cases hc
  have hnone {p : Prop} (ho : s.onClose = none) : p := by
    rw [h.onClose] at ho
    cases ho
  cases step_cases hs he ht with
  | connects =>
    rw [connect_closing h.closing]
    exact .inr ⟨h.closing, h.onClose, h.inOnClose⟩
  | keeps cb hc ho => exact hnone ho
  | closes cb n hc hn => exact hopen hc
  | ends n message t hn hd =>
    cases hd with
    | dropped hc he => exact hopen hc
    | armed hc left he => exact hopen hc
    | answered f hc ho he =>
      obtain rfl : f = k := Option.some.inj (ho.symm.trans h.onClose)
      refine .inl ?_
      rw [he]
      simp
    | reconnected hc ho hr he => exact hnone ho
    | closed hc ho hr he => exact hnone ho
  | returns hi =>
    rw [h.inOnClose] at hi
    cases hi
  | retries hr hi ho => exact hnone ho
  | _ => exact .inr ⟨h.closing, h.onClose, h.inOnClose⟩

theorem promised_step (hs : Inv s) (he : Enabled s e) (ht : step cfg s e = .ok t) (h : Promised s k) :
    Promised t k := by
  rcases h with hanswered | hawaits
  · exact .inl (answered_beginning (step_log cfg ht) hanswered)
  · exact awaits_step hs he ht hawaits

theorem promised_run {es : List (Event κ)} (hrun : (machine cfg).Run s es t) (hs : Inv s) (h : Promised s k) :
    Promised t k := by
  refine (hrun.invariant (I := fun s => Inv s ∧ Promised s k) ?_ ⟨hs, h⟩).2
  rintro s e t ⟨hs, h⟩ he ht
  exact ⟨step_inv cfg hs he ht, promised_step hs he ht h⟩

/-- `Close` promises to call the function that it is given. -/
theorem close_promised (hquiet : s.inOnClose = false) (ht : close (some k) s = .ok t) : Promised t k := by
  obtain ⟨hc, ho, rfl⟩ | ⟨n, hc, hn, rfl⟩ | ⟨f, message, hf, -, rfl⟩ := close_cases ht
  · exact .inr ⟨hc, rfl, hquiet⟩
  · exact .inr ⟨rfl, rfl, hquiet⟩
  · obtain rfl : k = f := Option.some.inj hf
    exact .inl (by simp)

/-- Behind an event no callback is running. -/
theorem settled_quiet (hrun : (machine cfg).Run s (settled cfg s e) t) : t.inOnClose = false := by
  rw [settled] at hrun
  cases hrun with
  | cons he hs hrest =>
    have hstep : step cfg s e = .ok _ := hs
    rw [hstep] at hrest
    dsimp only at hrest
    split at hrest
    next hin =>
      cases hrest with
      | cons he' hs' hrest' =>
        obtain rfl := hrest'.eq_of_nil
        have hreturned : step cfg _ .onCloseReturned = .ok _ := hs'
        obtain rfl := Except.ok.inj hreturned
        rfl
    next hin =>
      obtain rfl := hrest.eq_of_nil
      exact Bool.not_eq_true _ ▸ hin

/-- A function that is given between the callbacks is promised behind the event. -/
theorem settled_promised (hs : Inv s) (hquiet : s.inOnClose = false)
    (hrun : (machine cfg).Run s (settled cfg s (.close (some k))) t) : Promised t k := by
  rw [settled] at hrun
  cases hrun with
  | cons he ht hrest =>
    have hclose : close (some k) s = .ok _ := ht
    exact promised_run hrest (close_inv hs hclose) (close_promised hquiet hclose)

end VirtualClient

namespace World

open ScenarioPlayer ClientInfo
open VirtualClient (Promised answered)

variable {n : Nat} {env : Env} {w w' : World n} {e : Event n} {i : Fin n}

theorem calls_cases (env : Env) (w : World n) (e : Event n) (i : Fin n) :
    w.calls env i e = [] ∨ ∃ f, w.calls env i e = [f] := by
  have choose {p : Prop} [Decidable p] (f : VirtualClient.Event (PlayerPath × Fin n)) :
      (if p then [f] else []) = [] ∨ ∃ g, (if p then [f] else []) = [g] := by
    split
    · exact .inr ⟨f, rfl⟩
    · exact .inl rfl
  cases e with
  | onNext p j d =>
    rw [calls]
    split
    next =>
      cases (w.info p i).current with
      | none => exact .inl rfl
      | some op =>
        rw [Option.toList_some, List.flatMap_singleton]
        cases op with
        | sendDataChannelMessage label lo hi =>
          rw [asked]
          split
          · exact .inl rfl
          · exact .inr ⟨_, rfl⟩
        | disconnect => exact .inr ⟨_, rfl⟩
        | reconnect => exact .inr ⟨_, rfl⟩
        | exit => exact .inr ⟨_, rfl⟩
        | _ => exact .inl rfl
    next => exact .inl rfl
  | keyClose j => exact choose _
  | keyConnect j => exact choose _
  | client j f => exact choose _
  | _ => exact .inl rfl

/-- A client whose `OP_EXIT`, once it is executed, is not forgotten. -/
structure Remembers (i : Fin n) (w : World n) : Prop where
  vc : VirtualClient.Inv (w.vcs i)
  quiet : (w.vcs i).inOnClose = false
  promised : .exit ∈ w.opsOf [] i → Promised (w.vcs i) ([], i)

theorem Remembers.step (h : Remembers i w) (he : (machine env).enabled w e) (hs : World.step env w e = .ok w') :
    Remembers i w' := by
  have hrun : (VirtualClient.machine env.vcConfig).Run (w.vcs i) (w.clientEvents env i e) (w'.vcs i) :=
    projects env i w e w' he hs
  have hkeeps := VirtualClient.promised_run (k := ([], i)) hrun h.vc
  refine ⟨VirtualClient.run_inv hrun h.vc, ?_, fun hexit => ?_⟩
  · rw [clientEvents] at hrun
    rcases calls_cases env w e i with hnone | ⟨f, hone⟩
    · rw [hnone] at hrun
      rw [hrun.eq_of_nil]
      exact h.quiet
    · rw [hone, List.flatMap_singleton] at hrun
      exact VirtualClient.settled_quiet hrun
  · rcases step_executed hs with ⟨p, j, d, op, rfl, hop, hexec⟩ | ⟨-, hexec⟩
    · rw [opsOf_append hexec, List.mem_append] at hexit
      rcases hexit with hold | hnew
      · exact hkeeps (h.promised hold)
      · split at hnew
        next hpath =>
          -- the exit has just been executed
          obtain ⟨rfl, rfl⟩ := hpath
          obtain rfl : Op.exit = op := List.mem_singleton.mp hnew
          have hcalls : w.calls env j (.onNext [] j d) = [.close (some ([], j))] := by
            rw [calls, if_pos rfl, hop]
            rfl
          rw [clientEvents, hcalls, List.flatMap_singleton] at hrun
          exact VirtualClient.settled_promised h.vc h.quiet hrun
        next => cases hnew
    · have hops : w'.opsOf [] i = w.opsOf [] i := by rw [opsOf, opsOf, hexec]
      exact hkeeps (h.promised (hops ▸ hexit))

theorem run_remembers (cfg : ZakuroConfig) (i : Fin n) : Remembers i (run n cfg) := by
  have hexecuted : (run n cfg).executed = [] :=
    (foldl_play_same cfg (List.finRange n) (start (fun _ => .init) cfg.audios)).2.2
  refine ⟨?_, ?_, fun hexit => ?_⟩
  · rw [run_vcs]
    exact VirtualClient.init_inv
  · rw [run_vcs]
    rfl
  · rw [opsOf, hexecuted] at hexit
    cases hexit

/-- A client that has executed its `OP_EXIT` has exited, or its session has been
asked to disconnect and has not reported. -/
theorem Remembers.exits (h : Remembers i w) (hstate : ExitState w) (hexit : .exit ∈ w.opsOf [] i) :
    (w.info [] i).exit = true ∨ ∃ m, VirtualClient.Live (w.vcs i).log m ∧ .disconnect m ∈ (w.vcs i).log := by
  rcases h.promised hexit with hanswered | hawaits
  · exact .inl ((hstate.exited i).mpr hanswered)
  · exact .inr (h.vc.closing_iff.mp hawaits.closing)

theorem unpaused_exitState {cfg : ZakuroConfig} (h : ExitState w) (htree : Tree cfg w) (he : Queued env w e)
    (hc : Unpaused e) (hs : World.step env w e = .ok w') : ExitState w' := by
  cases e with
  | keyClose j =>
    have hclient : w.client env j (.close none) = .ok w' := hs
    exact client_exitState h hclient (by simp)
  | keyConnect j =>
    have hclient : w.client env j .connect = .ok w' := hs
    exact client_exitState h hclient (by simp)
  | play clientId data l => exact absurd hc id
  | pauseAll => exact absurd hc id
  | resumeAll => exact absurd hc id
  | _ => exact step_exitState h htree he trivial hs

end World

namespace PromptWorld

open ScenarioPlayer Unrolling
open TimedWorld (ns)
open VirtualClient (Live)

variable {n : Nat} {env : Env} {cfg : ZakuroConfig} {delay t0 : Int} {s t : PromptWorld n} {i : Fin n}

/-! ## When a client leaves -/

/-- All that a client executes before its `OP_EXIT`. -/
def beforeExit (cfg : ZakuroConfig) (i : Nat) : List Op :=
  firstPart cfg i ++ [.sleep cfg.duration.ms cfg.duration.ms, .disconnect]

theorem leaving_program (hleaving : cfg.Leaving) (hstandard : ¬ cfg.Reconnecting) (i : Nat) :
    cfg.program i = beforeExit cfg i ++ [.exit] := by
  obtain ⟨hduration, hrepeat⟩ := hleaving
  rw [(World.program_standard hstandard i).1, ZakuroConfig.addReconnectScenario, hduration, hrepeat, beforeExit,
    firstPart, List.append_assoc]
  rfl

theorem cost_beforeExit (delay : Int) (i : Nat) :
    cost (takes delay) (beforeExit cfg i) =
      sleepNs (cfg.firstWaitMs i) + sleepNs cfg.duration.ms + (cfg.subs.length + 8) * delay := by
  have hops : cost (takes delay) [.sleep cfg.duration.ms cfg.duration.ms, .disconnect] =
      sleepNs cfg.duration.ms + 3 * delay + (delay + 0) := rfl
  rw [beforeExit, cost_append, cost_firstPart, hops, Int.add_mul, Int.add_mul]
  omega

/-- The latest that a client executes its `OP_EXIT`. -/
def exitBy (delay : Int) (cfg : ZakuroConfig) (t0 : Int) (i : Nat) : Int :=
  t0 + sleepNs (cfg.firstWaitMs i) + sleepNs cfg.duration.ms + (cfg.subs.length + 9) * delay

/-- A client that has not executed its `OP_EXIT` is before it. -/
theorem unexited_cost (hleaving : cfg.Leaving) (hstandard : ¬ cfg.Reconnecting) (hdelay : 0 ≤ delay) {i m : Nat}
    (h : .exit ∉ unroll (cfg.program i) cfg.loopIndex m) :
    cost (takes delay) (unroll (cfg.program i) cfg.loopIndex m) ≤
      sleepNs (cfg.firstWaitMs i) + sleepNs cfg.duration.ms + (cfg.subs.length + 8) * delay := by
  have hl := World.loopIndex_lt cfg i
  have hprogram := leaving_program hleaving hstandard i
  have hlength : (cfg.program i).length = (beforeExit cfg i).length + 1 := by
    rw [hprogram, List.length_append, List.length_singleton]
  have hle : m ≤ (beforeExit cfg i).length := by
    by_contra hlong
    have hexit := unroll_getElem? hl (Nat.lt_of_not_le hlong)
    rw [index_of_lt _ (by omega), hprogram, List.getElem?_append_right (Nat.le_refl _), Nat.sub_self] at hexit
    rw [hprogram] at h
    exact h (List.mem_of_getElem? hexit)
  rw [unroll_eq_take hl (by omega), hprogram, List.take_append_of_le_length hle, ← cost_beforeExit]
  exact cost_prefix_le (takes_nonneg hdelay) (List.take_prefix _ _)

theorem Main.exits (h : Main delay cfg t0 i s) (hleaving : cfg.Leaving) (hstandard : ¬ cfg.Reconnecting)
    (hdelay : 0 ≤ delay) : s.timed.now ≤ exitBy delay cfg t0 i.val ∨ .exit ∈ s.timed.world.opsOf [] i := by
  by_cases hexit : .exit ∈ s.timed.world.opsOf [] i
  · exact .inr hexit
  · refine .inl ?_
    obtain ⟨m, hm⟩ := h.timed.following
    have htrace : s.timed.world.opsOf [] i = unroll (cfg.program i.val) cfg.loopIndex
        (if (s.timed.world.slot [] i).info.posted = 0 then m + 1 else m) := hm.executed
    have hops : s.ops [] i = s.timed.world.opsOf [] i := h.timed.recorded.ops [] i
    rw [htrace] at hexit
    have hcost := unexited_cost hleaving hstandard hdelay hexit
    have hnow := h.kept.now
    rw [hops, htrace] at hnow
    rw [exitBy]
    rw [Int.add_mul] at hcost ⊢
    omega

/-! ## When the instance ends -/

/-- What holds of an instance, however late its handlers are. -/
structure Leaves (cfg : ZakuroConfig) (w : World n) : Prop where
  tree : World.Tree cfg w
  state : World.ExitState w
  remembers : ∀ i, World.Remembers i w

theorem runs_leaves (hn : 0 < n) {w : World n} {es : List (World.Event n)}
    (h : Machine.Run ((World.machine env).restrict fun _ => World.Unpaused) (World.run n cfg) es w) :
    Leaves cfg w := by
  refine h.invariant (I := Leaves cfg) ?_ ⟨World.run_tree cfg, World.run_exitState hn cfg, World.run_remembers cfg⟩
  rintro v e v' ⟨htree, hstate, hremembers⟩ ⟨henabled, hc⟩ hs
  exact {
    tree := World.step_tree htree henabled.2 (TimedWorld.unplayed_of_unpaused hc) hs
    state := World.unpaused_exitState hstate htree henabled.2 hc hs
    remembers := fun i => (hremembers i).step henabled hs }

/-- While no handler of the main player is late by more than the delay, an instance
that is to end has ended by the time at which its last client leaves, unless a
session that was asked to disconnect has not reported that it did. -/
theorem ends_in_time (hn : 0 < n) (hleaving : cfg.Leaving) (hstandard : ¬ cfg.Reconnecting) (hints : cfg.Ints n)
    (hdelay : 0 ≤ delay) {xs : List (PlayerPath × Fin n)} (hmem : ∀ i, ([], i) ∈ xs)
    {es : List (TimedWorld.Event n)} (h : Machine.Run (machine env delay xs) (run n cfg t0) es s) :
    s.timed.world.stopped = true ∨ (∃ i : Fin n, s.timed.now ≤ exitBy delay cfg t0 i.val) ∨
      ∃ i m, Live (s.timed.world.vcs i).log m ∧ .disconnect m ∈ (s.timed.world.vcs i).log := by
  have hleaves : Leaves cfg s.timed.world := runs_leaves hn ((runs_timed h).project (TimedWorld.projects env))
  have hclient : ∀ i : Fin n, s.timed.now ≤ exitBy delay cfg t0 i.val ∨ (s.timed.world.info [] i).exit = true ∨
      ∃ m, Live (s.timed.world.vcs i).log m ∧ .disconnect m ∈ (s.timed.world.vcs i).log := by
    intro i
    rcases (runs_main hints hdelay (hmem i) h).exits hleaving hstandard hdelay with hearly | hexit
    · exact .inl hearly
    · exact .inr ((hleaves.remembers i).exits hleaves.state hexit)
  by_cases hall : ∀ i, (s.timed.world.info [] i).exit = true
  · exact .inl (hleaves.state.stops.mpr hall)
  · obtain ⟨i, hi⟩ := not_forall.mp hall
    rcases hclient i with hearly | hexited | hopen
    · exact .inr (.inl ⟨i, hearly⟩)
    · exact absurd hexited hi
    · exact .inr (.inr ⟨i, hopen⟩)

/-- The session reports a tenth of a second after `OP_EXIT`. -/
def lateEvents (i : Fin n) : List (TimedWorld.Event n) :=
  TimedWorld.slept [] i 0 0 ++ [⟨10, .onNext [] i World.zeroDraw⟩] ++ TimedWorld.slept [] i 20 500 ++
    [⟨ns 500 + 30, .onNext [] i World.zeroDraw⟩, ⟨ns 500 + 40, .onNext [] i World.zeroDraw⟩,
      ⟨ns 500 + 50, .onNext [] i World.zeroDraw⟩, ⟨ns 600, .client i (.disconnected 0 "closed")⟩]

theorem leavingConfig_ints : World.leavingConfig.Ints 1 where
  firstWait i hi := by
    rw [IsInt, World.leavingConfig]
    dsimp only
    omega
  duration := ⟨by decide, by decide⟩
  repeatInterval := ⟨by decide, by decide⟩
  interval _ hch := absurd hch List.not_mem_nil

theorem ends_in_time_late : ∃ s : PromptWorld 1,
    Machine.Run (machine World.quietEnv 100 [([], 0)]) (run 1 World.leavingConfig 0) (lateEvents 0) s ∧
      exitBy 100 World.leavingConfig 0 0 < s.timed.now ∧
      (s.timed.world.stopped = true ∨ ∃ m, Live (s.timed.world.vcs 0).log m ∧
        .disconnect m ∈ (s.timed.world.vcs 0).log) := by
  obtain ⟨s, hs, hp⟩ := Machine.exec_exists (machine World.quietEnv 100 [([], 0)]) (run 1 World.leavingConfig 0)
    (lateEvents 0) (fun s => decide (exitBy 100 World.leavingConfig 0 0 < s.timed.now)) (by decide +kernel)
  have hlate : exitBy 100 World.leavingConfig 0 0 < s.timed.now := by simpa using hp
  have hmem : ∀ i : Fin 1, ([], i) ∈ [(([] : PlayerPath), (0 : Fin 1))] := by
    intro i
    rw [Fin.fin_one_eq_zero i]
    exact List.mem_singleton_self _
  refine ⟨s, hs, hlate, ?_⟩
  rcases ends_in_time Nat.zero_lt_one ⟨rfl, rfl⟩ (by decide) leavingConfig_ints (by decide) hmem hs with
    hstopped | ⟨i, hearly⟩ | ⟨i, m, hlive, hasked⟩
  · exact .inl hstopped
  · rw [Fin.fin_one_eq_zero i] at hearly
    exact absurd hearly (Int.not_le.mpr hlate)
  · rw [Fin.fin_one_eq_zero i] at hlive hasked
    exact .inr ⟨m, hlive, hasked⟩

end PromptWorld
