import Zakuro.TimedScenarios

/-!
# Handlers that are run in time

The event loop of an instance with a bound on how late it is: what goes on with a
client of a player is run no later than a delay behind the time at which it could
be. What an instance has done by a time is then bounded from below.
-/

/-- An instance with its clock, and the times at which what is to go on with each
client of each player came about. -/
structure PromptWorld (n : Nat) where
  timed : TimedWorld n
  since : PlayerPath × Fin n → Int

namespace PromptWorld

open ScenarioPlayer Unrolling
open TimedWorld (ns Stepped)

variable {n : Nat}

/-- A handler that has been aborted brings nothing about. -/
def sinceAfter (s : PromptWorld n) (e : TimedWorld.Event n) (x : PlayerPath × Fin n) : Int :=
  match s.timed.world.view x.1 x.2 e.event with
  | none | some .sleepAborted => s.since x
  | some _ => e.time

def step (env : Env) (s : PromptWorld n) (e : TimedWorld.Event n) : Except Fault (PromptWorld n) :=
  (TimedWorld.step env s.timed e).map fun t => { timed := t, since := s.sinceAfter e }

/-- A client is not late at a time: its posted continuation and the handler of its
timer have been there for the delay at most, and the expiry of its timer is past
for the delay at most. -/
structure OnTime (delay : Int) (s : PromptWorld n) (time : Int) (x : PlayerPath × Fin n) : Prop where
  posted : 0 < (s.timed.world.info x.1 x.2).posted → time ≤ s.since x + delay
  ready : 0 < (s.timed.world.info x.1 x.2).timer.ready → time ≤ s.since x + delay
  waiting : 0 < (s.timed.world.info x.1 x.2).timer.waiting → time ≤ s.timed.expiry x + delay

instance (delay : Int) (s : PromptWorld n) (time : Int) (x : PlayerPath × Fin n) :
    Decidable (s.OnTime delay time x) :=
  decidable_of_iff ((0 < (s.timed.world.info x.1 x.2).posted → time ≤ s.since x + delay) ∧
      (0 < (s.timed.world.info x.1 x.2).timer.ready → time ≤ s.since x + delay) ∧
      (0 < (s.timed.world.info x.1 x.2).timer.waiting → time ≤ s.timed.expiry x + delay))
    ⟨fun h => ⟨h.1, h.2.1, h.2.2⟩, fun h => ⟨h.posted, h.ready, h.waiting⟩⟩

/-- Whatever is run, none of the clients `xs` is late. -/
def machine (env : Env) (delay : Int) (xs : List (PlayerPath × Fin n)) :
    Machine (PromptWorld n) (TimedWorld.Event n) Fault where
  enabled s e := (TimedWorld.unpaused env).enabled s.timed e ∧ ∀ x ∈ xs, s.OnTime delay e.time x
  step := step env

instance (env : Env) (delay : Int) (xs : List (PlayerPath × Fin n)) (s : PromptWorld n) (e : TimedWorld.Event n) :
    Decidable ((machine env delay xs).enabled s e) :=
  inferInstanceAs (Decidable (_ ∧ _))

def run (n : Nat) (cfg : ZakuroConfig) (t0 : Int) : PromptWorld n where
  timed := TimedWorld.run n cfg t0
  since _ := t0

theorem step_cases {env : Env} {s t : PromptWorld n} {e : TimedWorld.Event n} (h : step env s e = .ok t) :
    Stepped env s.timed e t.timed ∧ t.since = s.sinceAfter e := by
  obtain ⟨u, hu, rfl⟩ := Machine.map_eq_ok h
  exact ⟨TimedWorld.step_cases hu, rfl⟩

theorem projects (env : Env) (delay : Int) (xs : List (PlayerPath × Fin n)) :
    Machine.ProjectsTo (machine env delay xs) (TimedWorld.unpaused env) timed fun _ e => [e] := by
  rintro s e t ⟨henabled, -⟩ hs
  obtain ⟨u, hu, rfl⟩ := Machine.map_eq_ok (f := fun u => PromptWorld.mk u (s.sinceAfter e)) hs
  exact .single henabled hu

theorem runs_timed {env : Env} {delay : Int} {xs : List (PlayerPath × Fin n)} {s t : PromptWorld n}
    {es : List (TimedWorld.Event n)} (h : Machine.Run (machine env delay xs) s es t) :
    Machine.Run (TimedWorld.unpaused env) s.timed es t.timed := by
  have hproject := h.project (projects env delay xs)
  rwa [h.outputs_eq_flatMap, List.flatMap_singleton'] at hproject

/-! ## How long operations take -/

/-- The nanoseconds of a sleep; one that is over before it begins takes none. -/
def sleepNs (ms : Int) : Int := ns (max 0 ms)

/-- The longest that an operation takes: each of its handlers comes with a delay. -/
def takes (delay : Int) : Op → Int
  | .sleep _ maxTimeMs => sleepNs maxTimeMs + 3 * delay
  | _ => delay

theorem ns_le_sleepNs (ms : Int) : ns ms ≤ sleepNs ms := by
  rw [sleepNs, ns, ns]
  omega

theorem sleepNs_nonneg (ms : Int) : 0 ≤ sleepNs ms := by
  rw [sleepNs, ns]
  omega

theorem takes_awake {op : Op} (h : op.isSleep = false) (delay : Int) : takes delay op = delay := by
  cases op with
  | sleep lo hi => cases h
  | _ => rfl

theorem takes_nonneg {delay : Int} (h : 0 ≤ delay) (op : Op) : 0 ≤ takes delay op := by
  cases op with
  | sleep lo hi =>
    have hsleep := sleepNs_nonneg hi
    rw [takes]
    omega
  | _ => exact h

/-- A sleep that draws no more than its upper bound. -/
def Bounded (op : Op) : Prop :=
  ∀ lo hi, op = .sleep lo hi → ∀ rand ms, Op.sleepMs rand lo hi = some ms → ms ≤ hi

theorem bounded_awake {op : Op} (h : op.isSleep = false) : Bounded op := by
  rintro lo hi rfl
  cases h

theorem bounded_same {ms : Int} (h : IsInt ms) : Bounded (.sleep ms ms) := by
  intro lo hi heq rand ms' hms
  injection heq with hlo hhi
  subst hlo hhi
  rw [TimedWorld.sleepMs_same h] at hms
  exact Int.le_of_eq (Option.some.inj hms).symm

/-- The operations that a player has executed for a client. -/
def ops (s : PromptWorld n) (p : PlayerPath) (i : Fin n) : List Op := (s.timed.entriesOf p i).map Prod.fst

/-- A client of a player that has begun at a time and has not fallen behind. -/
structure Kept (delay start : Int) (p : PlayerPath) (i : Fin n) (s : PromptWorld n) : Prop where
  now : s.timed.now ≤ start + cost (takes delay) (s.ops p i) + delay
  posted : 0 < (s.timed.world.info p i).posted → s.since (p, i) ≤ start + cost (takes delay) (s.ops p i)
  ready : 0 < (s.timed.world.info p i).timer.ready →
    s.since (p, i) + delay ≤ start + cost (takes delay) (s.ops p i)
  waiting : 0 < (s.timed.world.info p i).timer.waiting →
    s.timed.expiry (p, i) + 2 * delay ≤ start + cost (takes delay) (s.ops p i)

variable {env : Env} {delay start : Int} {s t : PromptWorld n} {e : TimedWorld.Event n} {p : PlayerPath} {i : Fin n}

/-- Whatever is run comes in time for a client that has something to go on with. -/
theorem Kept.reached (h : Kept delay start p i s) (hdelay : 0 ≤ delay) (hontime : s.OnTime delay e.time (p, i))
    (hone : (s.timed.world.info p i).pending = 1) :
    e.time ≤ start + cost (takes delay) (s.ops p i) + delay := by
  rw [ClientInfo.pending] at hone
  rcases Nat.lt_or_ge 0 (s.timed.world.info p i).posted with hposted | hposted
  · have hsince := h.posted hposted
    have htime := hontime.posted hposted
    omega
  · rcases Nat.lt_or_ge 0 (s.timed.world.info p i).timer.ready with hready | hready
    · have hsince := h.ready hready
      have htime := hontime.ready hready
      omega
    · have hwaiting : 0 < (s.timed.world.info p i).timer.waiting := by omega
      have hexpiry := h.waiting hwaiting
      have htime := hontime.waiting hwaiting
      omega

/-- An operation is executed for the client. -/
theorem Kept.onNext (h : Kept delay start p i s) (hdelay : 0 ≤ delay)
    (hontime : s.OnTime delay e.time (p, i)) (hs : Stepped env s.timed e t.timed)
    (hsince : t.since = s.sinceAfter e) {d : Draw} (he : e.event = .onNext p i d)
    (hposted : 0 < (s.timed.world.info p i).posted) (hone : (s.timed.world.info p i).pending = 1)
    {op : Op} (hop : (s.timed.world.info p i).current = some op) (hbounded : Bounded op)
    (hentries : t.timed.entriesOf p i = s.timed.entriesOf p i ++ [(op, e.time)]) :
    Kept delay start p i t := by
  have hops : t.ops p i = s.ops p i ++ [op] := by rw [ops, hentries, List.map_append]; rfl
  have hreached := h.reached hdelay hontime hone
  have hsince : t.since (p, i) = e.time := by
    rw [hsince, sinceAfter, he, World.view, if_pos ⟨rfl, rfl⟩]
  have hworld := hs.world
  rw [he] at hworld
  have hcontrol := World.step_control hworld p i
  rw [World.view, if_pos ⟨rfl, rfl⟩, World.viewed, ClientInfo.step] at hcontrol
  have hnow : t.timed.now = e.time := hs.now
  rw [ClientInfo.pending] at hone
  cases hsleep : op.isSleep with
  | false =>
    rw [ClientInfo.onNext_of_awake (by simpa using hop) hsleep] at hcontrol
    have htimer : (t.timed.world.info p i).timer = (s.timed.world.info p i).timer := by
      rw [(TimedWorld.counters_of_control hcontrol).2, ClientInfo.next]
      split
      · rfl
      · split <;> rfl
    have hcost : cost (takes delay) (t.ops p i) = cost (takes delay) (s.ops p i) + delay := by
      rw [hops, cost_snoc, takes_awake hsleep]
    refine ⟨?_, fun _ => ?_, fun hready => ?_, fun hwaiting => ?_⟩
    · omega
    · omega
    · rw [htimer] at hready
      omega
    · rw [htimer] at hwaiting
      omega
  | true =>
    cases op with
    | sleep lo hi =>
      obtain ⟨ms, hms⟩ := TimedWorld.sleep_drawn hworld hop
      have hle := hbounded lo hi rfl d.rand ms hms
      have hns : ns ms ≤ sleepNs hi := by
        have hsleepNs := ns_le_sleepNs hi
        rw [ns] at hsleepNs ⊢
        omega
      have hexpiry : t.timed.expiry (p, i) = e.time + ns ms := by
        rw [hs.expiry, TimedWorld.expiryAfter_sleep he hop hms]
      have hcost : cost (takes delay) (t.ops p i) =
          cost (takes delay) (s.ops p i) + (sleepNs hi + 3 * delay) := by
        rw [hops, cost_snoc]
        rfl
      have hpos := sleepNs_nonneg hi
      rw [ClientInfo.onNext_of_asleep (by simpa using hop) hsleep] at hcontrol
      obtain ⟨hposted', htimer⟩ := TimedWorld.counters_of_control hcontrol
      have hposted' : (t.timed.world.info p i).posted = 0 := by
        rw [hposted']
        change (s.timed.world.info p i).posted - 1 = 0
        omega
      have hready' : (t.timed.world.info p i).timer.ready = (s.timed.world.info p i).timer.ready := by
        rw [htimer]
        rfl
      refine ⟨?_, fun hposted => ?_, fun hready => ?_, fun _ => ?_⟩
      · omega
      · omega
      · omega
      · omega
    | _ => cases hsleep

/-- Nothing is executed for the client. -/
theorem Kept.stay (hops : t.ops p i = s.ops p i)
    (hnow : t.timed.now ≤ start + cost (takes delay) (s.ops p i) + delay)
    (hposted : 0 < (t.timed.world.info p i).posted → t.since (p, i) ≤ start + cost (takes delay) (s.ops p i))
    (hready : 0 < (t.timed.world.info p i).timer.ready →
      t.since (p, i) + delay ≤ start + cost (takes delay) (s.ops p i))
    (hwaiting : 0 < (t.timed.world.info p i).timer.waiting →
      t.timed.expiry (p, i) + 2 * delay ≤ start + cost (takes delay) (s.ops p i)) :
    Kept delay start p i t := by
  constructor
  · rwa [hops]
  · rwa [hops]
  · rwa [hops]
  · rwa [hops]

/-- A client with one continuation that is never late does not fall behind. -/
theorem Kept.step (h : Kept delay start p i s) (hdelay : 0 ≤ delay)
    (hontime : s.OnTime delay e.time (p, i)) (hs : Stepped env s.timed e t.timed)
    (hsince : t.since = s.sinceAfter e) (hqueued : World.Queued env s.timed.world e.event)
    (hone : (s.timed.world.info p i).pending = 1)
    (hbounded : ∀ op, (s.timed.world.info p i).current = some op → Bounded op)
    (hplay : ∀ data l, s.timed.world.view p i e.event ≠ some (.play data l))
    (hpause : s.timed.world.view p i e.event ≠ some .pause)
    (hresume : s.timed.world.view p i e.event ≠ some .resume) : Kept delay start p i t := by
  rcases hs.entries p i with ⟨d, op, heq, hop, hentries⟩ | ⟨hne, hentries⟩
  · rw [heq] at hqueued
    exact h.onNext hdelay hontime hs hsince heq hqueued.1 hone hop (hbounded op hop) hentries
  · have hreached := h.reached hdelay hontime hone
    have hnow : t.timed.now = e.time := hs.now
    have hops : t.ops p i = s.ops p i := by rw [ops, hentries, ops]
    have hexpiry : t.timed.expiry (p, i) = s.timed.expiry (p, i) := by
      rw [hs.expiry, TimedWorld.expiryAfter_of_ne hne]
    have hcontrol := World.step_control hs.world p i
    have hsince := congrFun hsince (p, i)
    rw [sinceAfter] at hsince
    rw [ClientInfo.pending] at hone
    rw [← hnow] at hreached
    cases hv : s.timed.world.view p i e.event with
    | none =>
      rw [hv] at hcontrol hsince
      obtain ⟨hposted, htimer⟩ := TimedWorld.counters_of_control hcontrol
      change (t.timed.world.info p i).posted = (s.timed.world.info p i).posted at hposted
      change (t.timed.world.info p i).timer = (s.timed.world.info p i).timer at htimer
      refine Kept.stay hops hreached ?_ ?_ ?_
      · rw [hposted, hsince]
        exact h.posted
      · rw [htimer, hsince]
        exact h.ready
      · rw [htimer, hexpiry]
        exact h.waiting
    | some v =>
      rw [hv] at hcontrol hsince
      have henabled := World.view_enabled hqueued hs.world hv
      obtain ⟨hposted, htimer⟩ := TimedWorld.counters_of_control hcontrol
      cases v with
      | play data l => exact absurd hv (hplay data l)
      | pause => exact absurd hv hpause
      | resume => exact absurd hv hresume
      | onNext ms =>
        obtain ⟨d, heq⟩ := TimedWorld.view_onNext hv
        exact absurd heq (hne d)
      | sleepExpired =>
        -- the expiry is past for the delay at most
        have hwas : 0 < (s.timed.world.info p i).timer.waiting := henabled
        have htime := hontime.waiting hwas
        have hexpired := h.waiting hwas
        have hsince : t.since (p, i) = e.time := hsince
        change (t.timed.world.info p i).posted = (s.timed.world.info p i).posted at hposted
        have hwaiting : (t.timed.world.info p i).timer.waiting = 0 := by
          rw [htimer]
          rfl
        refine Kept.stay hops hreached ?_ ?_ ?_
        · omega
        · omega
        · omega
      | sleepReady =>
        have hwas : 0 < (s.timed.world.info p i).timer.ready := henabled
        have htime := hontime.ready hwas
        have hready := h.ready hwas
        have hsince : t.since (p, i) = e.time := hsince
        have htaken : (t.timed.world.info p i).timer = (s.timed.world.info p i).timer.takeReady := by
          rw [htimer, World.viewed, ClientInfo.step, ClientInfo.next]
          split
          · rfl
          · split <;> rfl
        have hready' : (t.timed.world.info p i).timer.ready = (s.timed.world.info p i).timer.ready - 1 := by
          rw [htaken]
          rfl
        have hwaiting' : (t.timed.world.info p i).timer.waiting = (s.timed.world.info p i).timer.waiting := by
          rw [htaken]
          rfl
        refine Kept.stay hops hreached ?_ ?_ ?_
        · omega
        · omega
        · omega
      | sleepAborted =>
        change (t.timed.world.info p i).posted = (s.timed.world.info p i).posted at hposted
        change (t.timed.world.info p i).timer = (s.timed.world.info p i).timer.takeAborted at htimer
        refine Kept.stay hops hreached ?_ ?_ ?_
        · rw [hposted, hsince]
          exact h.posted
        · rw [htimer, hsince]
          exact h.ready
        · rw [htimer, hexpiry]
          exact h.waiting

/-! ## Whole runs -/

theorem bounded_voice : Bounded (.sleep 1000 5000) := by
  intro lo hi heq rand ms hms
  injection heq with hlo hhi
  subst hlo hhi
  have hsize : CData.toSize (CData.toInt (5000 - 1000 + 1)) = 4001 := by decide
  have hmod := Nat.mod_lt rand (show 0 < 4001 by decide)
  rw [Op.sleepMs, hsize, if_neg (by decide), CData.toInt64_of_range (by omega) (by omega)] at hms
  have hsum := Option.some.inj hms
  omega

/-- The sleeps of `Zakuro::Run`. -/
theorem program_bounded {cfg : ZakuroConfig} (hints : cfg.Ints n) (i : Fin n) :
    ∀ op ∈ cfg.program i.val, Bounded op := by
  intro op hop
  rcases List.mem_cons.mp hop with rfl | hop
  · exact bounded_same (hints.firstWait i.val i.isLt)
  · rcases ZakuroConfig.data_mem hop with hop | hop | hop
    · rcases ZakuroConfig.reconnectScenario_mem hop with rfl | rfl | rfl
      · exact bounded_awake rfl
      · exact bounded_voice
      · exact bounded_awake rfl
    · rcases World.opening_mem hop with rfl | hop | rfl
      · exact bounded_awake rfl
      · obtain ⟨ch, -, rfl⟩ := World.dcsData_sub hop
        exact bounded_awake rfl
      · exact bounded_awake rfl
    · rw [ZakuroConfig.addReconnectScenario] at hop
      split at hop
      · rw [List.mem_singleton.mp hop]
        exact bounded_same ⟨by decide, by decide⟩
      · rcases List.mem_append.mp hop with hop | hop
        · rcases List.mem_cons.mp hop with rfl | hop
          · exact bounded_same hints.duration
          · rw [List.mem_singleton.mp hop]
            exact bounded_awake rfl
        · split at hop
          · rw [List.mem_singleton.mp hop]
            exact bounded_awake rfl
          · rcases List.mem_cons.mp hop with rfl | hop
            · exact bounded_same hints.repeatInterval
            · rw [List.mem_singleton.mp hop]
              exact bounded_awake rfl

/-- The operation of a client that follows a program is one of it. -/
theorem current_mem {w : World n} {program : List Op} {l m : Nat} (h : (w.slot p i).Following program l m)
    {op : Op} (hop : (w.info p i).current = some op) : op ∈ program :=
  List.mem_of_getElem? (h.placed.current.symm.trans hop)

/-- A client of the main player. -/
structure Main (delay : Int) (cfg : ZakuroConfig) (t0 : Int) (i : Fin n) (s : PromptWorld n) : Prop where
  timed : TimedWorld.Main cfg t0 i s.timed
  kept : Kept delay t0 [] i s

theorem run_kept {cfg : ZakuroConfig} {t0 : Int} (hdelay : 0 ≤ delay) :
    Kept delay t0 [] i (run n cfg t0) := by
  have hposted : ((run n cfg t0).timed.world.info [] i).posted = 1 := by
    have hinfo := World.run_info (n := n) cfg [] i
    rw [if_pos rfl] at hinfo
    have hplay := (ClientInfo.play_of_playable (World.loopIndex_lt cfg i.val) {}).1
    rw [← hinfo] at hplay
    exact hplay
  have hpending := (World.run_following cfg i).pending
  change ((run n cfg t0).timed.world.info [] i).pending = 1 at hpending
  rw [ClientInfo.pending] at hpending
  have hops : (run n cfg t0).ops [] i = [] := rfl
  constructor
  · rw [hops, cost, Int.add_zero]
    exact Int.le_add_of_nonneg_right hdelay
  · rw [hops, cost, Int.add_zero]
    exact fun _ => Int.le_refl t0
  · omega
  · omega

theorem Main.step {cfg : ZakuroConfig} (hints : cfg.Ints n) (hdelay : 0 ≤ delay) {t0 : Int}
    (h : Main delay cfg t0 i s) (henabled : (TimedWorld.unpaused env).enabled s.timed e)
    (hontime : s.OnTime delay e.time ([], i)) (hs : Stepped env s.timed e t.timed)
    (hsince : t.since = s.sinceAfter e) : Main delay cfg t0 i t := by
  obtain ⟨⟨-, -, -, hqueued⟩, hunpaused⟩ := id henabled
  obtain ⟨m, hm⟩ := h.timed.following
  refine ⟨h.timed.step henabled hs, h.kept.step hdelay hontime hs hsince hqueued hm.pending ?_ ?_ ?_ ?_⟩
  · exact fun op hop => program_bounded hints i op (current_mem hm hop)
  · intro data l hv
    rw [World.view_root_play hv] at hunpaused
    exact hunpaused
  · intro hv
    rw [World.view_pause hv] at hunpaused
    exact hunpaused
  · intro hv
    rw [World.view_resume hv] at hunpaused
    exact hunpaused

theorem run_main {cfg : ZakuroConfig} (t0 : Int) (hdelay : 0 ≤ delay) : Main delay cfg t0 i (run n cfg t0) :=
  ⟨TimedWorld.run_main cfg t0 i, run_kept hdelay⟩

theorem runs_main {cfg : ZakuroConfig} (hints : cfg.Ints n) (hdelay : 0 ≤ delay)
    {xs : List (PlayerPath × Fin n)} (hmem : ([], i) ∈ xs) {t0 : Int} {es : List (TimedWorld.Event n)}
    (h : Machine.Run (machine env delay xs) (run n cfg t0) es s) : Main delay cfg t0 i s := by
  refine h.invariant (I := Main delay cfg t0 i) ?_ (run_main t0 hdelay)
  rintro s e t hmain ⟨henabled, hontime⟩ hs
  obtain ⟨hs, hsince⟩ := step_cases hs
  exact hmain.step hints hdelay henabled (hontime _ hmem) hs hsince

end PromptWorld
