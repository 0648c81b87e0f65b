import Zakuro.ChannelScenarios
import Zakuro.History
import Zakuro.Projection

/-!
# An instance and its clock

The event loop of an instance with the steady clock that its sleeps are measured
by. A handler runs at some time, which never goes back; `expires_after` adds to
it, and the wait of a timer ends no earlier than its expiry. Nothing bounds how
late a handler runs.
-/

open ScenarioPlayer (Execution)

/-- Times are in nanoseconds. -/
structure TimedWorld (n : Nat) where
  world : World n
  now : Int
  /-- The expiry of the sleep timer of each client of each player. -/
  expiry : PlayerPath × Fin n → Int := fun _ => 0
  /-- The operations that were executed, and when. -/
  log : List (Execution n × Int) := []

namespace TimedWorld

open ScenarioPlayer History

variable {n : Nat}

def ns (ms : Int) : Int := ms * 1000000

/-- A handler runs, or a wait ends, at a time. -/
structure Event (n : Nat) where
  time : Int
  event : World.Event n

/-- `OP_SLEEP` sets the expiry of the timer of its client. -/
def expiryAfter (s : TimedWorld n) (e : Event n) : PlayerPath × Fin n → Int :=
  match e.event with
  | .onNext p i d =>
    match (s.world.info p i).current with
    | some (.sleep lo hi) =>
      Function.update s.expiry (p, i) (e.time + ns (World.sleepOf d (some (.sleep lo hi))))
    | _ => s.expiry
  | _ => s.expiry

def step (env : Env) (s : TimedWorld n) (e : Event n) : Except Fault (TimedWorld n) :=
  (World.step env s.world e.event).map fun w =>
    { world := w
      now := e.time
      expiry := s.expiryAfter e
      log := s.log ++ (w.executed.drop s.world.executed.length).map fun x => (x, e.time) }

/-- A wait ends without an error when its expiry has passed. -/
def Due (s : TimedWorld n) (e : Event n) : Prop :=
  match e.event with
  | .sleepExpired p i => s.expiry (p, i) ≤ e.time
  | _ => True

instance (s : TimedWorld n) (e : Event n) : Decidable (s.Due e) :=
  match h : e.event with
  | .sleepExpired p i => decidable_of_iff (s.expiry (p, i) ≤ e.time) (by rw [Due, h])
  | .play _ _ _ | .pauseAll | .resumeAll | .onNext _ _ _ | .sleepReady _ _ | .sleepAborted _ _
  | .keyClose _ | .keyConnect _ | .client _ _ => .isTrue (by rw [Due, h]; trivial)

def machine (env : Env) : Machine (TimedWorld n) (Event n) Fault where
  enabled s e := s.now ≤ e.time ∧ s.Due e ∧ (World.machine env).enabled s.world e.event
  step := step env

instance (env : Env) (s : TimedWorld n) (e : Event n) : Decidable ((machine env).enabled s e) :=
  inferInstanceAs (Decidable (_ ∧ _ ∧ _))

/-- An instance whose event loop begins to run at a time. -/
def run (n : Nat) (cfg : ZakuroConfig) (t0 : Int) : TimedWorld n where
  world := World.run n cfg
  now := t0

/-- Nobody plays, pauses or resumes. -/
def unpaused (env : Env) : Machine (TimedWorld n) (Event n) Fault :=
  (machine env).restrict fun _ e => World.Unpaused e.event

instance (env : Env) (s : TimedWorld n) (e : Event n) : Decidable ((unpaused env).enabled s e) :=
  inferInstanceAs (Decidable (_ ∧ _))

/-! ## What is executed when -/

/-- The operations that a player has executed for a client, and when. -/
def entriesOf (s : TimedWorld n) (p : PlayerPath) (i : Fin n) : List (Op × Int) :=
  (s.log.filter fun x => x.1.path = p ∧ x.1.client = i).map fun x => (x.1.op, x.2)

/-- All that a step of the instance does to what is known of the times. -/
structure Stepped (env : Env) (s : TimedWorld n) (e : Event n) (t : TimedWorld n) : Prop where
  world : World.step env s.world e.event = .ok t.world
  now : t.now = e.time
  expiry : t.expiry = s.expiryAfter e
  log : t.log = s.log ++ (t.world.executed.drop s.world.executed.length).map fun x => (x, e.time)

theorem step_cases {env : Env} {s t : TimedWorld n} {e : Event n} (h : step env s e = .ok t) :
    Stepped env s e t := by
  obtain ⟨w, hw, rfl⟩ := Machine.map_eq_ok h
  exact ⟨hw, rfl, rfl, rfl⟩

/-- With its clock an instance goes through a run of its event loop. -/
theorem projects (env : Env) :
    Machine.ProjectsTo (unpaused (n := n) env) ((World.machine env).restrict fun _ => World.Unpaused)
      TimedWorld.world fun _ e => [e.event] := by
  rintro s e t ⟨⟨-, -, henabled⟩, hunpaused⟩ hs
  exact .single ⟨henabled, hunpaused⟩ (step_cases hs).world

theorem entriesOf_append {s t : TimedWorld n} {x : Execution n} {time : Int}
    (h : t.log = s.log ++ [(x, time)]) (p : PlayerPath) (i : Fin n) :
    t.entriesOf p i = s.entriesOf p i ++ if x.path = p ∧ x.client = i then [(x.op, time)] else [] := by
  rw [entriesOf, entriesOf, h, List.filter_append, List.map_append]
  by_cases hx : x.path = p ∧ x.client = i
  · simp [hx]
  · simp [hx]

/-- An `OnNext` of the client adds the operation that it finds, and nothing else
adds to the operations of the client. -/
theorem Stepped.entries {env : Env} {s t : TimedWorld n} {e : Event n} (h : Stepped env s e t)
    (p : PlayerPath) (i : Fin n) :
    (∃ d op, e.event = .onNext p i d ∧ (s.world.info p i).current = some op ∧
      t.entriesOf p i = s.entriesOf p i ++ [(op, e.time)]) ∨
    (∀ d, e.event ≠ .onNext p i d) ∧ t.entriesOf p i = s.entriesOf p i := by
  rcases World.step_executed h.world with ⟨q, j, d, op, heq, hop, hexec⟩ | ⟨hne, hexec⟩
  · have hlog : t.log = s.log ++ [(⟨q, j, (s.world.info q j).opIndex, op⟩, e.time)] := by
      rw [h.log, hexec, List.drop_left, List.map_singleton]
    rw [entriesOf_append hlog]
    by_cases hq : q = p ∧ j = i
    · obtain ⟨rfl, rfl⟩ := hq
      exact .inl ⟨d, op, heq, hop, by rw [if_pos ⟨rfl, rfl⟩]⟩
    · refine .inr ⟨fun d' heq' => hq ?_, by rw [if_neg hq, List.append_nil]⟩
      rw [heq] at heq'
      injection heq' with hpath hclient
      exact ⟨hpath, hclient⟩
  · have hlog : t.log = s.log := by rw [h.log, hexec, List.drop_length, List.map_nil, List.append_nil]
    exact .inr ⟨fun d => hne p i d, by rw [entriesOf, hlog, entriesOf]⟩

/-- The log has the operations that the players have executed since a time. -/
structure Recorded (t0 : Int) (s : TimedWorld n) : Prop where
  executed : s.log.map Prod.fst = s.world.executed
  begun : t0 ≤ s.now
  since : ∀ x ∈ s.log, t0 ≤ x.2

theorem Recorded.step {env : Env} {t0 : Int} {s t : TimedWorld n} {e : Event n} (h : Recorded t0 s)
    (hs : Stepped env s e t) (hnow : s.now ≤ e.time) : Recorded t0 t := by
  have hfst : ∀ xs : List (Execution n), (xs.map fun x => (x, e.time)).map Prod.fst = xs := by
    intro xs
    rw [List.map_map]
    exact List.map_id xs
  have hbegun : t0 ≤ e.time := Int.le_trans h.begun hnow
  constructor
  · rw [hs.log, List.map_append, h.executed, hfst]
    rcases World.step_executed hs.world with ⟨_, _, _, _, -, -, hexec⟩ | ⟨-, hexec⟩
    · rw [hexec, List.drop_left]
    · rw [hexec, List.drop_length, List.append_nil]
  · rwa [hs.now]
  · intro x hx
    rw [hs.log] at hx
    rcases List.mem_append.mp hx with hx | hx
    · exact h.since x hx
    · obtain ⟨y, -, rfl⟩ := List.mem_map.mp hx
      exact hbegun

theorem Recorded.ops {t0 : Int} {s : TimedWorld n} (h : Recorded t0 s) (p : PlayerPath) (i : Fin n) :
    (s.entriesOf p i).map Prod.fst = s.world.opsOf p i := by
  rw [entriesOf, World.opsOf, ← h.executed, List.filter_map, List.map_map, List.map_map]
  rfl

theorem Recorded.entriesOf_since {t0 : Int} {s : TimedWorld n} (h : Recorded t0 s) {p : PlayerPath}
    {i : Fin n} {x : Op × Int} (hx : x ∈ s.entriesOf p i) : t0 ≤ x.2 := by
  obtain ⟨y, hy, rfl⟩ := List.mem_map.mp hx
  exact h.since y (List.mem_of_mem_filter hy)

theorem run_recorded (cfg : ZakuroConfig) (t0 : Int) : Recorded t0 (run n cfg t0) where
  executed := (World.foldl_play_same cfg (List.finRange n) (World.start (fun _ => .init) cfg.audios)).2.2.symm
  begun := Int.le_refl t0
  since _ hx := absurd hx List.not_mem_nil

/-! ## Sleeping -/

/-- What was executed last is not a sleep, or one that is over at a time. -/
def Rested (before : List (Op × Int)) (time : Int) : Prop :=
  ∀ init lo hi u, before = init ++ [(.sleep lo hi, u)] →
    ∃ rand ms, Op.sleepMs rand lo hi = some ms ∧ u + ns ms ≤ time

theorem Rested.nil (time : Int) : Rested [] time := by
  intro init lo hi u h
  simp at h

theorem Rested.awake {before : List (Op × Int)} {op : Op} (h : op.isSleep = false) (u time : Int) :
    Rested (before ++ [(op, u)]) time := by
  intro init lo hi v heq
  obtain ⟨-, hlast⟩ := List.append_inj' heq rfl
  obtain rfl : op = .sleep lo hi := congrArg Prod.fst (List.singleton_inj.mp hlast)
  cases h

theorem Rested.asleep {before : List (Op × Int)} {rand : Nat} {lo hi ms : Int}
    (h : Op.sleepMs rand lo hi = some ms) (u : Int) : Rested (before ++ [(.sleep lo hi, u)]) (u + ns ms) := by
  intro init lo' hi' v heq
  obtain ⟨-, hlast⟩ := List.append_inj' heq rfl
  injection List.singleton_inj.mp hlast with hop hu
  injection hop with hlo hhi
  subst hlo hhi hu
  exact ⟨rand, ms, h, Int.le_refl _⟩

theorem Rested.mono {before : List (Op × Int)} {t u : Int} (h : Rested before t) (hle : t ≤ u) :
    Rested before u := by
  intro init lo hi v heq
  obtain ⟨rand, ms, hms, hover⟩ := h init lo hi v heq
  exact ⟨rand, ms, hms, Int.le_trans hover hle⟩

/-- A client of a player that sleeps as long as it is told to. -/
structure Punctual (p : PlayerPath) (i : Fin n) (s : TimedWorld n) : Prop where
  kept : Each (fun before x => Rested before x.2) (s.entriesOf p i)
  ordered : (s.entriesOf p i).Pairwise fun x y => x.2 ≤ y.2
  past : ∀ x ∈ s.entriesOf p i, x.2 ≤ s.now
  waiting : 0 < (s.world.info p i).timer.waiting → Rested (s.entriesOf p i) (s.expiry (p, i))
  goingOn : 0 < (s.world.info p i).posted ∨ 0 < (s.world.info p i).timer.ready →
    Rested (s.entriesOf p i) s.now

variable {env : Env} {s t : TimedWorld n} {e : Event n} {p : PlayerPath} {i : Fin n}

/-- Nothing is executed for the client. -/
theorem Punctual.stay (h : Punctual p i s) (hnow : s.now ≤ t.now)
    (hentries : t.entriesOf p i = s.entriesOf p i) (hexpiry : t.expiry (p, i) = s.expiry (p, i))
    (hwaiting : 0 < (t.world.info p i).timer.waiting → Rested (s.entriesOf p i) (s.expiry (p, i)))
    (hgoing : 0 < (t.world.info p i).posted ∨ 0 < (t.world.info p i).timer.ready →
      Rested (s.entriesOf p i) t.now) : Punctual p i t where
  kept := hentries ▸ h.kept
  ordered := hentries ▸ h.ordered
  past x hx := Int.le_trans (h.past x (hentries ▸ hx)) hnow
  waiting hw := by
    rw [hentries, hexpiry]
    exact hwaiting hw
  goingOn hg := by
    rw [hentries]
    exact hgoing hg

/-- An operation is executed for the client. -/
theorem Punctual.add (h : Punctual p i s) {op : Op} (hnow : s.now ≤ t.now)
    (hentries : t.entriesOf p i = s.entriesOf p i ++ [(op, t.now)])
    (hrested : Rested (s.entriesOf p i) t.now)
    (hwaiting : 0 < (t.world.info p i).timer.waiting → Rested (t.entriesOf p i) (t.expiry (p, i)))
    (hgoing : 0 < (t.world.info p i).posted ∨ 0 < (t.world.info p i).timer.ready →
      Rested (t.entriesOf p i) t.now) : Punctual p i t where
  kept := by
    rw [hentries]
    exact h.kept.snoc hrested
  ordered := by
    rw [hentries]
    refine List.pairwise_append.mpr ⟨h.ordered, List.pairwise_singleton _ _, fun x hx y hy => ?_⟩
    rw [List.mem_singleton.mp hy]
    exact Int.le_trans (h.past x hx) hnow
  past x hx := by
    rw [hentries] at hx
    rcases List.mem_append.mp hx with hx | hx
    · exact Int.le_trans (h.past x hx) hnow
    · rw [List.mem_singleton.mp hx]
  waiting := hwaiting
  goingOn := hgoing

theorem expiryAfter_of_ne (h : ∀ d, e.event ≠ .onNext p i d) : s.expiryAfter e (p, i) = s.expiry (p, i) := by
  rw [expiryAfter]
  cases heq : e.event with
  | onNext q j d =>
    dsimp only
    cases hop : (s.world.info q j).current with
    | none => rfl
    | some op =>
      cases op with
      | sleep lo hi =>
        dsimp only
        rw [Function.update_of_ne]
        intro hpi
        injection hpi with hp hi
        exact h d (by rw [heq, hp, hi])
      | _ => rfl
  | _ => rfl

theorem expiryAfter_sleep {d : Draw} (he : e.event = .onNext p i d) {lo hi ms : Int}
    (hop : (s.world.info p i).current = some (.sleep lo hi)) (hms : Op.sleepMs d.rand lo hi = some ms) :
    s.expiryAfter e (p, i) = e.time + ns ms := by
  rw [expiryAfter, he]
  simp only [hop, Function.update_self, World.sleepOf, hms, Option.getD_some]

/-- A sleep that is executed has drawn how long it is. -/
theorem sleep_drawn {w w' : World n} {d : Draw} (h : World.step env w (.onNext p i d) = .ok w') {lo hi : Int}
    (hop : (w.info p i).current = some (.sleep lo hi)) : ∃ ms, Op.sleepMs d.rand lo hi = some ms := by
  obtain ⟨op, u, v, hcurrent, -, -, -, hv, -⟩ := World.onNext_cases h
  obtain rfl := Option.some.inj (hcurrent.symm.trans hop)
  rcases World.operate_cases hv with ⟨lo', hi', ms, heq, hms, -⟩ | ⟨_, _, _, heq, -⟩ | ⟨hsleep, -, -⟩
  · injection heq with hlo hhi
    subst hlo hhi
    exact ⟨ms, hms⟩
  · cases heq
  · cases hsleep

/-- All but the `exit` flag is the same. -/
theorem counters_of_control {c d : ClientInfo} (h : c.control = d) :
    c.posted = d.posted ∧ c.timer = d.timer := by
  subst h
  exact ⟨rfl, rfl⟩

theorem view_onNext {w : World n} {f : World.Event n} {ms : Int} (h : w.view p i f = some (.onNext ms)) :
    ∃ d, f = .onNext p i d := by
  cases f <;> grind [World.view]

theorem view_sleepExpired {w : World n} {f : World.Event n} (h : w.view p i f = some .sleepExpired) :
    f = .sleepExpired p i := by
  cases f <;> grind [World.view]

/-- An operation of the client is executed. -/
theorem Punctual.onNext (h : Punctual p i s) (hs : Stepped env s e t) (hnow : s.now ≤ t.now) {d : Draw}
    (he : e.event = .onNext p i d) (hposted : 0 < (s.world.info p i).posted) {op : Op}
    (hop : (s.world.info p i).current = some op)
    (hentries : t.entriesOf p i = s.entriesOf p i ++ [(op, t.now)])
    (hone : (t.world.info p i).pending ≤ 1) : Punctual p i t := by
  have hrested : Rested (s.entriesOf p i) t.now := (h.goingOn (.inl hposted)).mono hnow
  cases hsleep : op.isSleep with
  | false =>
    have hover : ∀ time, Rested (t.entriesOf p i) time := fun time =>
      hentries ▸ Rested.awake hsleep t.now time
    exact h.add hnow hentries hrested (fun _ => hover _) fun _ => hover _
  | true =>
    cases op with
    | sleep lo hi =>
      have hworld := hs.world
      rw [he] at hworld
      obtain ⟨ms, hms⟩ := sleep_drawn hworld hop
      have hexpiry : t.expiry (p, i) = t.now + ns ms := by
        rw [hs.expiry, expiryAfter_sleep he hop hms, hs.now]
      have hcontrol := World.step_control hworld p i
      rw [World.view, if_pos ⟨rfl, rfl⟩, World.viewed, ClientInfo.step,
        ClientInfo.onNext_of_asleep (by simpa using hop) hsleep] at hcontrol
      have hwaiting : (t.world.info p i).timer.waiting = 1 := by
        rw [(counters_of_control hcontrol).2]
        rfl
      refine h.add hnow hentries hrested (fun _ => ?_) fun hgoing => ?_
      · rw [hentries, hexpiry]
        exact Rested.asleep hms t.now
      · -- the wait is the one continuation
        rw [ClientInfo.pending] at hone
        omega
    | _ => cases hsleep

/-- Whatever happens, a client with one continuation at most sleeps as long as it
is told to. -/
theorem Punctual.step (h : Punctual p i s) (hs : Stepped env s e t) (hnow : s.now ≤ e.time) (hdue : s.Due e)
    (hqueued : World.Queued env s.world e.event)
    (hplay : ∀ data l, s.world.view p i e.event = some (.play data l) → s.entriesOf p i = [])
    (hpause : s.world.view p i e.event ≠ some .pause)
    (hresume : s.world.view p i e.event ≠ some .resume)
    (hone : (t.world.info p i).pending ≤ 1) : Punctual p i t := by
  have hle : s.now ≤ t.now := hs.now ▸ hnow
  rcases hs.entries p i with ⟨d, op, heq, hop, hentries⟩ | ⟨hne, hentries⟩
  · rw [heq] at hqueued
    exact h.onNext hs hle heq hqueued.1 hop (hs.now ▸ hentries) hone
  · have hexpiry : t.expiry (p, i) = s.expiry (p, i) := by rw [hs.expiry, expiryAfter_of_ne hne]
    have hcontrol := World.step_control hs.world p i
    cases hv : s.world.view p i e.event with
    | none =>
      rw [hv] at hcontrol
      have hposted : (t.world.info p i).posted = (s.world.info p i).posted :=
        (counters_of_control hcontrol).1
      have htimer : (t.world.info p i).timer = (s.world.info p i).timer :=
        (counters_of_control hcontrol).2
      refine h.stay hle hentries hexpiry ?_ ?_
      · rw [htimer]
        exact h.waiting
      · rw [hposted, htimer]
        exact fun hgoing => (h.goingOn hgoing).mono hle
    | some v =>
      rw [hv] at hcontrol
      have henabled := World.view_enabled hqueued hs.world hv
      cases v with
      | pause => exact absurd hv hpause
      | resume => exact absurd hv hresume
      | onNext ms =>
        obtain ⟨d, heq⟩ := view_onNext hv
        exact absurd heq (hne d)
      | play data l =>
        have hover : ∀ time, Rested (s.entriesOf p i) time := fun time => by
          rw [hplay data l hv]
          exact Rested.nil time
        exact h.stay hle hentries hexpiry (fun _ => hover _) fun _ => hover _
      | sleepExpired =>
        -- the wait has ended at its expiry
        have hover : s.expiry (p, i) ≤ t.now := by
          rw [Due, view_sleepExpired hv] at hdue
          rw [hs.now]
          exact hdue
        have hrested := h.waiting henabled
        exact h.stay hle hentries hexpiry (fun _ => hrested) fun _ => hrested.mono hover
      | sleepReady =>
        have hrested : Rested (s.entriesOf p i) t.now := (h.goingOn (.inr henabled)).mono hle
        refine h.stay hle hentries hexpiry (fun hwaiting => h.waiting ?_) fun _ => hrested
        have htimer : (t.world.info p i).timer.waiting = (s.world.info p i).timer.waiting := by
          rw [(counters_of_control hcontrol).2]
          simp only [World.viewed, ClientInfo.step, ClientInfo.next]
          split
          · rfl
          · split <;> rfl
        rwa [htimer] at hwaiting
      | sleepAborted =>
        have hposted : (t.world.info p i).posted = (s.world.info p i).posted :=
          (counters_of_control hcontrol).1
        have htimer : (t.world.info p i).timer = (s.world.info p i).timer.takeAborted :=
          (counters_of_control hcontrol).2
        refine h.stay hle hentries hexpiry ?_ ?_
        · rw [htimer]
          exact h.waiting
        · rw [hposted, htimer]
          exact fun hgoing => (h.goingOn hgoing).mono hle

/-! ## Whole runs -/

theorem run_punctual (cfg : ZakuroConfig) (t0 : Int) (p : PlayerPath) (i : Fin n) :
    Punctual p i (run n cfg t0) := by
  have hover : ∀ time, Rested ((run n cfg t0).entriesOf p i) time := Rested.nil
  exact ⟨Each.nil _, List.Pairwise.nil, by simp [run, entriesOf], fun _ => hover _, fun _ => hover _⟩

/-- A client of the main player. -/
structure Main (cfg : ZakuroConfig) (t0 : Int) (i : Fin n) (s : TimedWorld n) : Prop where
  recorded : Recorded t0 s
  following : ∃ m, (s.world.slot [] i).Following (cfg.program i.val) cfg.loopIndex m
  punctual : Punctual [] i s

theorem Main.step {cfg : ZakuroConfig} {t0 : Int} (h : Main cfg t0 i s)
    (he : (unpaused env).enabled s e) (hs : Stepped env s e t) : Main cfg t0 i t := by
  obtain ⟨⟨hnow, hdue, -, hqueued⟩, hunpaused⟩ := he
  obtain ⟨m, hm⟩ := World.main_step h.following hqueued hunpaused hs.world
  refine ⟨h.recorded.step hs hnow, ⟨m, hm⟩, h.punctual.step hs hnow hdue hqueued ?_ ?_ ?_ ?_⟩
  · intro data l hv
    rw [World.view_root_play hv] at hunpaused
    exact hunpaused.elim
  · intro hv
    rw [World.view_pause hv] at hunpaused
    exact hunpaused
  · intro hv
    rw [World.view_resume hv] at hunpaused
    exact hunpaused
  · exact Nat.le_of_eq hm.pending

theorem run_main (cfg : ZakuroConfig) (t0 : Int) (i : Fin n) : Main cfg t0 i (run n cfg t0) :=
  ⟨run_recorded cfg t0, ⟨0, World.run_following cfg i⟩, run_punctual cfg t0 [] i⟩

theorem runs_main {cfg : ZakuroConfig} {t0 : Int} {es : List (Event n)}
    (h : Machine.Run (unpaused env) (run n cfg t0) es s) (i : Fin n) : Main cfg t0 i s :=
  h.invariant (I := Main cfg t0 i) (fun _ _ _ hI he hs => hI.step he (step_cases hs)) (run_main cfg t0 i)

/-- The sub-scenario of a channel is started where nothing has been done of it. -/
theorem fresh_of_play {cfg : ZakuroConfig} {ch : DataChannel} {w w' : World n} {f : World.Event n}
    (h : World.Sending cfg ch i w) (h' : World.Sending cfg ch i w') (hd : World.Drives cfg)
    (hch : ch ∈ cfg.channels) (hs : World.step env w f = .ok w') {data : List Op} {l : Int}
    (hv : w.view (World.channelPath ch) i f = some (.play data l)) :
    (w.slot (World.channelPath ch) i).Fresh := by
  have honce := World.started_once hd hch h'.main
  rw [World.started, (World.started_play hs hv).2, List.filter_append, List.length_append,
    List.filter_cons_of_pos (by simp [Op.startsOn]), List.length_cons] at honce
  rcases h.sub with ⟨-, hfresh⟩ | ⟨hne, -⟩
  · exact hfresh
  · exact absurd (List.length_eq_zero_iff.mp (by rw [World.started]; omega)) hne

/-- Each client of the sub-scenario of a channel is punctual. -/
theorem runs_channel {cfg : ZakuroConfig} (hd : World.Drives cfg) {ch : DataChannel}
    (hch : ch ∈ cfg.channels) {t0 : Int} {es : List (Event n)}
    (h : Machine.Run (unpaused env) (run n cfg t0) es s) (i : Fin n) :
    Recorded t0 s ∧ World.Sending cfg ch i s.world ∧ Punctual (World.channelPath ch) i s := by
  refine h.invariant (I := fun s => Recorded t0 s ∧ World.Sending cfg ch i s.world ∧
    Punctual (World.channelPath ch) i s) ?_
    ⟨run_recorded cfg t0, World.run_sending cfg ch i, run_punctual cfg t0 _ i⟩
  rintro s e t ⟨hrecorded, hsending, hpunctual⟩ ⟨⟨hnow, hdue, -, hqueued⟩, hunpaused⟩ hs
  have hs := step_cases hs
  have hsending' := hsending.step hd hch hqueued hunpaused hs.world
  have hroot : ∀ v, s.world.view (World.channelPath ch) i e.event = some v →
      v ≠ .pause ∧ v ≠ .resume := by
    intro v hv
    constructor
    · rintro rfl
      exact List.cons_ne_nil _ _ (World.view_pause_path (.inl hv))
    · rintro rfl
      exact List.cons_ne_nil _ _ (World.view_pause_path (.inr hv))
  refine ⟨hrecorded.step hs hnow, hsending', hpunctual.step hs hnow hdue hqueued ?_ ?_ ?_ ?_⟩
  · intro data l hv
    have hfresh := fresh_of_play hsending hsending' hd hch hs.world hv
    have hops := hrecorded.ops (World.channelPath ch) i
    rw [show s.world.opsOf (World.channelPath ch) i = [] from hfresh.executed] at hops
    exact List.map_eq_nil_iff.mp hops
  · exact fun hv => (hroot _ hv).1 rfl
  · exact fun hv => (hroot _ hv).2 rfl
  · rcases hsending'.sub with ⟨-, hfresh⟩ | ⟨-, k, hk⟩
    · exact Nat.le_trans (Nat.le_of_eq hfresh.pending) (Nat.zero_le 1)
    · exact Nat.le_of_eq hk.pending

end TimedWorld
