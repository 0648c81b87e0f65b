import Zakuro.ClientSessions
import Zakuro.TimedScenarios

/-!
# The queue of the clients

`Zakuro::Run` gives each client its place in a queue: its program begins with a
wait. Until the wait is over nothing happens to the client, however busy the
others are.
-/

namespace VirtualClient

variable {κ : Type}

/-- A client that was never connected does not notice its surroundings. -/
theorem init_external {n : Nat} {cfg : VirtualClientConfig} {e : Event (PlayerPath × Fin n)}
    {t : VirtualClient (PlayerPath × Fin n)} (hexternal : World.External e) (he : Enabled init e)
    (hs : step cfg init e = .ok t) : t = init := by
  cases e with
  | disconnected k message =>
    obtain ⟨⟨hcreated, -⟩, -⟩ := he
    exact absurd hcreated List.not_mem_nil
  | notify json =>
    rw [step, onNotify] at hs
    split at hs
    next eventType _ =>
      obtain rfl := Except.ok.inj hs
      split <;> rfl
    next => cases hs
  | retryExpired =>
    obtain rfl := Except.ok.inj hs
    rfl
  | retryReady => exact absurd he.1 (Nat.lt_irrefl 0)
  | retryAborted => exact absurd he.1 (Nat.lt_irrefl 0)
  | _ => exact hexternal.elim

theorem init_settled {n : Nat} {cfg : VirtualClientConfig} {e : Event (PlayerPath × Fin n)}
    {t : VirtualClient (PlayerPath × Fin n)} (hexternal : World.External e)
    (h : (machine cfg).Run init (settled cfg init e) t) : t = init := by
  rw [settled] at h
  cases h with
  | cons he hs hrest =>
    have hstep : step cfg init e = .ok _ := hs
    obtain rfl := init_external hexternal he hstep
    rw [hstep] at hrest
    exact hrest.eq_of_nil

end VirtualClient

namespace World

open ScenarioPlayer ClientInfo

variable {n : Nat} {env : Env} {w w' : World n} {e : Event n} {i : Fin n}

/-- A client for which nothing was done but to wait. -/
structure Waiting (i : Fin n) (w : World n) : Prop where
  vc : w.vcs i = .init
  subs : ∀ p, p ≠ [] → (w.info p i).pending = 0

/-- What is executed for a client that waits is executed by the main player. -/
theorem Waiting.root (h : Waiting i w) {p : PlayerPath} {d : Draw} (he : Queued env w (.onNext p i d)) :
    p = [] := by
  by_contra hp
  exact pending_of_posted he.1 (h.subs p hp)

theorem Waiting.calls (h : Waiting i w) (he : Queued env w e) (hkey : e ≠ .keyConnect i)
    (hs : step env w e = .ok w')
    (hsleeps : ∀ x ∈ w'.executed, x.client = i → x.op.isSleep = true) :
    w.calls env i e = [] ∨ ∃ f, w.calls env i e = [f] ∧ External f := by
  cases e with
  | onNext p j d =>
    rw [World.calls]
    by_cases hj : j = i
    · subst hj
      obtain ⟨op, hop, hexec⟩ := onNext_executed hs
      have hsleep := hsleeps ⟨p, j, (w.info p j).opIndex, op⟩ (by simp [hexec]) rfl
      rw [if_pos rfl, hop, Option.toList_some, List.flatMap_singleton]
      cases op with
      | sleep lo hi => exact .inl rfl
      | _ => cases hsleep
    · exact .inl (if_neg hj)
  | keyClose j =>
    rw [World.calls]
    by_cases hj : j = i
    · -- there is nothing to close
      subst hj
      rw [step, World.client, h.vc] at hs
      cases hs
    · exact .inl (if_neg hj)
  | keyConnect j =>
    rw [World.calls]
    exact .inl (if_neg fun hj => hkey (by rw [hj]))
  | client j f =>
    rw [World.calls]
    by_cases hj : j = i
    · exact .inr ⟨f, if_pos hj, he.1⟩
    · exact .inl (if_neg hj)
  | _ => exact .inl rfl

/-- What comes from its surroundings leaves the client as it is. -/
theorem Waiting.vc_step (h : Waiting i w) (he : (machine env).enabled w e) (hkey : e ≠ .keyConnect i)
    (hs : step env w e = .ok w') (hsleeps : ∀ x ∈ w'.executed, x.client = i → x.op.isSleep = true) :
    w'.vcs i = .init := by
  have hrun : (VirtualClient.machine env.vcConfig).Run (w.vcs i) (w.clientEvents env i e) (w'.vcs i) :=
    projects env i w e w' he hs
  rw [clientEvents, h.vc] at hrun
  rcases h.calls he.2 hkey hs hsleeps with hnone | ⟨f, hone, hexternal⟩
  · rw [hnone] at hrun
    exact hrun.eq_of_nil
  · rw [hone, List.flatMap_singleton] at hrun
    exact VirtualClient.init_settled hexternal hrun

theorem Waiting.step (h : Waiting i w) (he : (machine env).enabled w e)
    (hkey : e ≠ .keyConnect i) (hs : World.step env w e = .ok w')
    (hsleeps : ∀ x ∈ w'.executed, x.client = i → x.op.isSleep = true) : Waiting i w' := by
  refine ⟨h.vc_step he hkey hs hsleeps, fun p hp => sub_pending_step hp (h.subs p hp) he.2 hs ?_⟩
  rintro q d name data l rfl hop
  -- the main player would have executed something else than a sleep
  obtain ⟨op, hop', hexec⟩ := onNext_executed hs
  obtain rfl := Option.some.inj (hop'.symm.trans hop)
  have hsleep := hsleeps ⟨q, i, (w.info q i).opIndex, .playSubScenario name data l⟩ (by simp [hexec]) rfl
  cases hsleep

theorem run_waiting (cfg : ZakuroConfig) (i : Fin n) : Waiting i (run n cfg) := by
  refine ⟨run_vcs cfg i, fun p hp => ?_⟩
  rw [run_info, if_neg hp]
  rfl

end World

namespace TimedWorld

open ScenarioPlayer Unrolling

variable {n : Nat} {env : Env} {cfg : ZakuroConfig} {s : TimedWorld n} {i : Fin n}

/-- The time at which the place of a client in the queue comes. -/
def hatchTime (cfg : ZakuroConfig) (t0 : Int) (i : Fin n) : Int := t0 + ns (cfg.firstWaitMs i.val)

/-- The wait that the program of a client begins with. -/
def waitOp (cfg : ZakuroConfig) (i : Fin n) : Op := .sleep (cfg.firstWaitMs i.val) (cfg.firstWaitMs i.val)

/-- Until then the main player executes nothing but the wait, and that once. -/
theorem Main.early {t0 : Int} (h : Main cfg t0 i s) (hints : cfg.Ints n) (hearly : s.now < hatchTime cfg t0 i) :
    s.entriesOf [] i = [] ∨ ∃ u, s.entriesOf [] i = [(waitOp cfg i, u)] := by
  obtain ⟨m, hm⟩ := h.following
  have hl := World.loopIndex_lt cfg i.val
  have hops := (h.recorded.ops [] i).trans hm.executed
  have hpast := h.punctual.past
  have hordered := h.punctual.ordered
  cases hentries : s.entriesOf [] i with
  | nil => exact .inl rfl
  | cons z rest =>
    have hfirst : s.entriesOf [] i = [] ++ z :: rest := hentries
    have hz := entry_of_unroll hl hops hfirst
    rw [List.length_nil, index_of_lt _ (Nat.zero_lt_of_lt hl), (World.program_start cfg i.val).1] at hz
    have hop := Option.some.inj hz
    obtain ⟨op, u⟩ := z
    dsimp only at hop
    subst hop
    cases rest with
    | nil => exact .inr ⟨u, rfl⟩
    | cons y rest =>
      -- something is executed behind the wait, when it is over
      have hsecond : s.entriesOf [] i = ([] ++ [(.sleep _ _, u)]) ++ y :: rest := hentries
      have hbehind := (h.punctual.behind (hints.firstWait i.val i.isLt) hsecond).1
      have hsince : t0 ≤ u := h.recorded.entriesOf_since (by rw [hentries]; exact List.mem_cons_self)
      have hnow := hpast y (by rw [hentries]; simp)
      rw [hatchTime] at hearly
      omega

/-- A client for which nothing was executed is at the beginning of its program. -/
theorem Main.opIndex_zero {t0 : Int} (h : Main cfg t0 i s) (hnone : s.entriesOf [] i = []) :
    (s.world.info [] i).opIndex = 0 := by
  obtain ⟨m, hm⟩ := h.following
  have hl := World.loopIndex_lt cfg i.val
  have hops := (h.recorded.ops [] i).trans hm.executed
  have hlen := congrArg List.length hops
  rw [hnone, unroll_length hl, List.map_nil, List.length_nil] at hlen
  have hzero : m = 0 := by
    split at hlen <;> omega
  subst hzero
  exact hm.placed.opIndex.trans (index_of_lt _ (Nat.zero_lt_of_lt hl))

/-- What is executed for a client is the operation 0 of its main program, the wait, and
that at most once. -/
def OnlyWaits (cfg : ZakuroConfig) (i : Fin n) (w : World n) : Prop :=
  (w.executed.filter fun x => x.client = i) = [] ∨
    (w.executed.filter fun x => x.client = i) = [⟨[], i, 0, waitOp cfg i⟩]

theorem OnlyWaits.isSleep {w : World n} (h : OnlyWaits cfg i w) :
    ∀ x ∈ w.executed, x.client = i → x.op.isSleep = true := by
  intro x hx hclient
  have hmem : x ∈ w.executed.filter fun x => x.client = i :=
    List.mem_filter.mpr ⟨hx, decide_eq_true hclient⟩
  rcases h with hnone | hwait
  · rw [hnone] at hmem
    exact absurd hmem List.not_mem_nil
  · rw [hwait, List.mem_singleton] at hmem
    rw [hmem]
    rfl

theorem OnlyWaits.eq_nil {t0 : Int} (h : OnlyWaits cfg i s.world) (hr : Recorded t0 s)
    (hnone : s.entriesOf [] i = []) : (s.world.executed.filter fun x => x.client = i) = [] := by
  refine h.resolve_right fun hwait => ?_
  have hops := hr.ops [] i
  have hmem : (⟨[], i, 0, waitOp cfg i⟩ : Execution n) ∈ s.world.executed.filter fun x => x.client = i := by
    rw [hwait]
    exact List.mem_singleton_self _
  have hmain : waitOp cfg i ∈ s.world.opsOf [] i :=
    List.mem_map_of_mem (List.mem_filter.mpr ⟨(List.mem_filter.mp hmem).1, by simp⟩)
  rw [← hops, hnone] at hmain
  exact absurd hmain List.not_mem_nil

/-- What is executed before the place of the client comes is the wait, and the first of all. -/
theorem Main.executes_wait {t0 time : Int} {before : List (Op × Int)} {op : Op} (h : Main cfg t0 i s)
    (hints : cfg.Ints n) (hearly : s.now < hatchTime cfg t0 i)
    (hentries : s.entriesOf [] i = before ++ [(op, time)]) : before = [] ∧ op = waitOp cfg i := by
  rcases h.early hints hearly with hnone | ⟨u, hone⟩
  · rw [hentries] at hnone
    exact absurd hnone (List.append_ne_nil_of_right_ne_nil _ (List.cons_ne_nil _ _))
  · have happ : before ++ [(op, time)] = [] ++ [(waitOp cfg i, u)] := hentries.symm.trans hone
    obtain ⟨hnil, hlast⟩ := List.append_inj' happ rfl
    exact ⟨hnil, congrArg Prod.fst (List.singleton_inj.mp hlast)⟩

theorem OnlyWaits.step {t : TimedWorld n} {e : Event n} {t0 : Int} (h : OnlyWaits cfg i s.world)
    (hmain : Main cfg t0 i s) (hwaiting : World.Waiting i s.world)
    (hqueued : World.Queued env s.world e.event) (hs : Stepped env s e t) (hmain' : Main cfg t0 i t)
    (hints : cfg.Ints n) (hearly : t.now < hatchTime cfg t0 i) : OnlyWaits cfg i t.world := by
  rcases World.step_executed hs.world with ⟨q, j, d, op, heq, hop, hexec⟩ | ⟨-, hexec⟩
  · rw [OnlyWaits, hexec, List.filter_append]
    by_cases hj : j = i
    · subst hj
      rw [heq] at hqueued
      obtain rfl := hwaiting.root hqueued
      rcases hs.entries [] j with ⟨d', op', -, hop', hentries⟩ | ⟨hne, -⟩
      · obtain rfl := Option.some.inj (hop'.symm.trans hop)
        obtain ⟨hnone, rfl⟩ := hmain'.executes_wait hints hearly hentries
        rw [h.eq_nil hmain.recorded hnone, hmain.opIndex_zero hnone]
        exact .inr (by simp)
      · exact absurd heq (hne d)
    · have hother : [(⟨q, j, (s.world.info q j).opIndex, op⟩ : Execution n)].filter
          (fun x => x.client = i) = [] := by
        simp [hj]
      rw [hother, List.append_nil]
      exact h
  · rw [OnlyWaits, hexec]
    exact h

/-- Until the place of a client in the queue comes, its client is as it was made and all
that its main player has begun is the wait, whatever the others, the clock and the
handlers do, unless a key connects it. -/
theorem clients_hatched (hints : cfg.Ints n) {t0 : Int} {es : List (Event n)}
    (h : Machine.Run (unpaused env) (run n cfg t0) es s) (hkeys : ∀ e ∈ es, e.event ≠ .keyConnect i)
    (hearly : s.now < hatchTime cfg t0 i) : s.world.vcs i = .init ∧ OnlyWaits cfg i s.world := by
  have hrun := h.to_restrict (C := fun e => e.event ≠ .keyConnect i) hkeys
  suffices H : Main cfg t0 i s ∧
      (s.now < hatchTime cfg t0 i → World.Waiting i s.world ∧ OnlyWaits cfg i s.world) from
    ⟨(H.2 hearly).1.vc, (H.2 hearly).2⟩
  have hnone : OnlyWaits cfg i (run n cfg t0).world := by
    have hexecuted := (run_recorded (n := n) cfg t0).executed
    rw [OnlyWaits, ← hexecuted]
    exact .inl rfl
  refine hrun.invariant (I := fun s => Main cfg t0 i s ∧
    (s.now < hatchTime cfg t0 i → World.Waiting i s.world ∧ OnlyWaits cfg i s.world)) ?_
    ⟨run_main cfg t0 i, fun _ => ⟨World.run_waiting cfg i, hnone⟩⟩
  rintro s e t ⟨hmain, hwait⟩ ⟨he, hkey⟩ hs
  have hs := step_cases hs
  have hmain' := hmain.step he hs
  refine ⟨hmain', fun hearly' => ?_⟩
  obtain ⟨⟨hnow, -, henabled⟩, -⟩ := he
  have hle : s.now ≤ t.now := hs.now ▸ hnow
  obtain ⟨hwaiting, honly⟩ := hwait (Int.lt_of_le_of_lt hle hearly')
  have honly' := honly.step hmain hwaiting henabled.2 hs hmain' hints hearly'
  exact ⟨hwaiting.step henabled hkey hs.world honly'.isSleep, honly'⟩

/-- The second client waits while the first one is connected. -/
def queueEvents (i j : Fin n) : List (Event n) :=
  slept [] i 0 0 ++ [⟨10, .onNext [] i World.zeroDraw⟩, ⟨20, .onNext [] j World.zeroDraw⟩]

theorem clients_hatched_second : ∃ s : TimedWorld 2,
    Machine.Run (unpaused World.quietEnv) (run 2 cyclingConfig 0) (queueEvents 0 1) s ∧
      (s.world.vcs 0).created = 1 ∧ s.world.vcs 1 = .init ∧
        OnlyWaits cyclingConfig 1 s.world := by
  obtain ⟨s, hs, hp⟩ := Machine.exec_exists (unpaused World.quietEnv) (run 2 cyclingConfig 0)
    (queueEvents 0 1) (fun s => decide (s.now < hatchTime cyclingConfig 0 (1 : Fin 2)) &&
      (s.world.vcs 0).created == 1) (by decide +kernel)
  simp only [Bool.and_eq_true, decide_eq_true_eq, beq_iff_eq] at hp
  exact ⟨s, hs, hp.2, clients_hatched cyclingConfig_ints hs (by simp [queueEvents, slept]) hp.1⟩

end TimedWorld
