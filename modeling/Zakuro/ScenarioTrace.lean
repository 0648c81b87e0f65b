import Zakuro.Unrolling
import Zakuro.ScenarioSlot

/-!
# The trace of a scenario

While nothing is paused, a client of the main player passes through its program
once and then through the loop of it for ever, with one continuation at a time:
a posted `OnNext`, or a wait of its sleep timer.
-/

namespace ClientInfo

open Unrolling

/-- The client is at the `m`-th step of a program. -/
structure Placed (program : List Op) (l m : Nat) (c : ClientInfo) : Prop where
  data : c.data = program
  loopOpIndex : c.loopOpIndex = l
  opIndex : c.opIndex = index program.length l m

theorem Placed.current {program : List Op} {l m : Nat} {c : ClientInfo} (h : Placed program l m c) :
    c.current = program[index program.length l m]? := by
  rw [ClientInfo.current, h.data, h.opIndex]

theorem Placed.executed {program : List Op} {l m : Nat} {c : ClientInfo} {op : Op}
    (h : Placed program l m c) (hop : c.current = some op) :
    unroll program l (m + 1) = unroll program l m ++ [op] :=
  unroll_succ (h.current.symm.trans hop)

theorem Placed.next {program : List Op} {l m : Nat} (hl : l < program.length) {c : ClientInfo}
    (h : Placed program l m c) (hp : c.paused = false) : Placed program l (m + 1) c.next := by
  have hindex := index_succ hl m
  rw [← h.opIndex, ← h.data] at hindex
  rw [ClientInfo.next, if_neg (by simp [hp])]
  split
  next hend =>
    rw [if_pos hend, h.data] at hindex
    exact ⟨h.data, h.loopOpIndex, h.loopOpIndex.trans hindex.symm⟩
  next hend =>
    rw [if_neg hend, h.data] at hindex
    exact ⟨h.data, h.loopOpIndex, hindex.symm⟩

theorem Placed.play {program : List Op} {l : Nat} (hl : l < program.length) (c : ClientInfo) :
    Placed program l 0 (c.play program l) := by
  have hne : program ≠ [] := List.ne_nil_of_length_pos (Nat.zero_lt_of_lt hl)
  have hplay : Playable program l := ⟨hne, by omega, by omega⟩
  rw [ClientInfo.play, if_pos hplay]
  exact ⟨rfl, Int.toNat_natCast l, (index_of_lt l (Nat.zero_lt_of_lt hl)).symm⟩

theorem play_of_playable {program : List Op} {l : Nat} (hl : l < program.length) (c : ClientInfo) :
    (c.play program l).posted = c.posted + 1 ∧ (c.play program l).timer = c.timer.cancel ∧
      (c.play program l).paused = false := by
  have hne : program ≠ [] := List.ne_nil_of_length_pos (Nat.zero_lt_of_lt hl)
  have hplay : Playable program l := ⟨hne, by omega, by omega⟩
  rw [ClientInfo.play, if_pos hplay]
  exact ⟨rfl, rfl, rfl⟩

/-- A client for which `Play` has not been called. -/
structure Slot.Fresh (s : Slot) : Prop where
  data : s.info.data = []
  pending : s.info.pending = 0
  executed : s.executed = []

/-- The trace of a client at step `m` that nobody has paused. -/
structure Slot.Following (program : List Op) (l m : Nat) (s : Slot) : Prop where
  placed : Placed program l m s.info
  running : s.info.paused = false
  pending : s.info.pending = 1
  executed : s.executed = unroll program l (if s.info.posted = 0 then m + 1 else m)

/-- Only `Play` gets a client going. -/
theorem Slot.Fresh.step {s : Slot} (h : s.Fresh) {e : Event} (he : s.info.Enabled e)
    (hplay : ∀ data l, e ≠ .play data l) (hresume : e ≠ .resume) : (s.step e).Fresh := by
  obtain ⟨honNext, hexpired, hready⟩ := not_enabled_of_pending h.pending
  have hpending : (s.step e).info.pending = 0 :=
    Nat.le_zero.mp (h.pending ▸ pending_step_le he hplay hresume)
  cases e with
  | play data l => exact absurd rfl (hplay data l)
  | resume => exact absurd rfl hresume
  | onNext ms => exact absurd he (honNext ms)
  | sleepExpired => exact absurd he hexpired
  | sleepReady => exact absurd he hready
  | sleepAborted => exact ⟨h.data, hpending, h.executed⟩
  | pause => exact ⟨h.data, hpending, h.executed⟩

theorem Slot.Fresh.play {program : List Op} {l : Nat} (hl : l < program.length) {s : Slot}
    (h : s.Fresh) : (s.step (.play program l)).Following program l 0 := by
  have hpending := h.pending
  obtain ⟨hposted, htimer, hpaused⟩ := play_of_playable hl s.info
  simp only [ClientInfo.pending] at hpending
  refine ⟨Placed.play hl s.info, hpaused, ?_, ?_⟩
  · simp only [Slot.step, ClientInfo.step, ClientInfo.pending, hposted, htimer,
      SteadyTimer.cancel_waiting, SteadyTimer.cancel_ready]
    omega
  · simp only [Slot.step, ClientInfo.step, hposted, h.executed]
    rfl

theorem Slot.Following.keeps_going {program : List Op} {l m : Nat} {s : Slot}
    (h : s.Following program l m) {e : Event} (he : s.info.Enabled e)
    (hplay : ∀ data l, e ≠ .play data l) (hpause : e ≠ .pause) (hresume : e ≠ .resume) :
    (s.step e).info.paused = false ∧ (s.step e).info.pending = 1 := by
  have hle : (s.step e).info.pending ≤ 1 := h.pending ▸ pending_step_le he hplay hresume
  have hpos : (s.step e).info.pending ≠ 0 :=
    pending_step_pos he h.running hpause (h.pending ▸ Nat.one_ne_zero)
  exact ⟨paused_step h.running hpause, by omega⟩

theorem Slot.Following.onNext {program : List Op} {l m : Nat} (hl : l < program.length) {s : Slot}
    (h : s.Following program l m) {ms : Int} (he : s.info.Enabled (.onNext ms)) :
    ∃ m, (s.step (.onNext ms)).Following program l m := by
  obtain ⟨hrunning, hpending⟩ := h.keeps_going he (by simp) (by simp) (by simp)
  obtain ⟨hposted, hsome⟩ := he
  obtain ⟨op, hop⟩ := Option.isSome_iff_exists.mp hsome
  have htrace : (s.step (.onNext ms)).executed = unroll program l (m + 1) := by
    rw [h.placed.executed hop, Slot.step, hop, h.executed, if_neg (by omega)]
    rfl
  have hplaced : Placed program l m s.info.takePosted :=
    ⟨h.placed.data, h.placed.loopOpIndex, h.placed.opIndex⟩
  cases hs : op.isSleep with
  | true =>
    have hinfo : (s.step (.onNext ms)).info = s.info.takePosted.sleep ms :=
      onNext_of_asleep hop hs ms
    have hposted' : (s.info.takePosted.sleep ms).posted = 0 := by
      have hone := h.pending
      rw [ClientInfo.pending] at hone
      simp only [sleep, takePosted]
      omega
    refine ⟨m, ⟨hinfo ▸ ⟨hplaced.data, hplaced.loopOpIndex, hplaced.opIndex⟩, hrunning, hpending, ?_⟩⟩
    rw [htrace, hinfo, if_pos hposted']
  | false =>
    have hinfo : (s.step (.onNext ms)).info = s.info.takePosted.next := onNext_of_awake hop hs ms
    obtain ⟨hposted', -, -⟩ := next_of_running (c := s.info.takePosted) h.running
    refine ⟨m + 1, ⟨hinfo ▸ hplaced.next hl h.running, hrunning, hpending, ?_⟩⟩
    rw [htrace, hinfo, hposted', if_neg (by omega)]

theorem Slot.Following.sleepReady {program : List Op} {l m : Nat} (hl : l < program.length) {s : Slot}
    (h : s.Following program l m) (he : s.info.Enabled .sleepReady) :
    (s.step .sleepReady).Following program l (m + 1) := by
  obtain ⟨hrunning, hpending⟩ := h.keeps_going he (by simp) (by simp) (by simp)
  have hposted : s.info.posted = 0 := by
    have hone := h.pending
    have hready : 0 < s.info.timer.ready := he
    rw [ClientInfo.pending] at hone
    omega
  let c : ClientInfo := { s.info with timer := s.info.timer.takeReady }
  have hplaced : Placed program l m c := ⟨h.placed.data, h.placed.loopOpIndex, h.placed.opIndex⟩
  obtain ⟨hposted', -, -⟩ := next_of_running (c := c) h.running
  have hinfo : (s.step .sleepReady).info = c.next := rfl
  have htrace : (s.step .sleepReady).executed = s.executed := rfl
  refine ⟨hplaced.next hl h.running, hrunning, hpending, ?_⟩
  rw [hinfo, hposted', htrace, h.executed, if_pos hposted, if_neg (Nat.succ_ne_zero _)]

/-- The trace goes on whatever runs, if nothing is paused. -/
theorem Slot.Following.step {program : List Op} {l m : Nat} (hl : l < program.length) {s : Slot}
    (h : s.Following program l m) {e : Event} (he : s.info.Enabled e)
    (hplay : ∀ data l, e ≠ .play data l) (hpause : e ≠ .pause) (hresume : e ≠ .resume) :
    ∃ m, (s.step e).Following program l m := by
  obtain ⟨hrunning, hpending⟩ := h.keeps_going he hplay hpause hresume
  cases e with
  | play data l => exact absurd rfl (hplay data l)
  | pause => exact absurd rfl hpause
  | resume => exact absurd rfl hresume
  | onNext ms => exact h.onNext hl he
  | sleepReady => exact ⟨m + 1, h.sleepReady hl he⟩
  | sleepExpired =>
    exact ⟨m, ⟨h.placed.data, h.placed.loopOpIndex, h.placed.opIndex⟩, hrunning, hpending, h.executed⟩
  | sleepAborted =>
    exact ⟨m, ⟨h.placed.data, h.placed.loopOpIndex, h.placed.opIndex⟩, hrunning, hpending, h.executed⟩

end ClientInfo

namespace World

open ScenarioPlayer ClientInfo Unrolling

variable {n : Nat}

/-! ## Runs in which every client is played at most once -/

/-- An instance whose players have done nothing yet. -/
def start (vcs : Fin n → VirtualClient (PlayerPath × Fin n)) (gam : Option (List (List Int16))) : World n :=
  { vcs := vcs, gam := gam }

/-- `Play` is called for the client. -/
def playsFor (i : Fin n) : Event n → Bool
  | .play clientId _ _ => clientId = i.val
  | _ => false

/-- `Play` is called at most once for each client, with the program of the client. -/
structure PlayedOnce (program : Fin n → List Op) (loop : Fin n → Nat) (es : List (Event n)) :
    Prop where
  program : ∀ (i : Fin n) data (l : Int), .play i.val data l ∈ es → data = program i ∧ l = loop i
  once : ∀ i : Fin n, es.countP (playsFor i) ≤ 1

theorem PlayedOnce.init {program : Fin n → List Op} {loop : Fin n → Nat} {es : List (Event n)}
    {e : Event n} (h : PlayedOnce program loop (es ++ [e])) : PlayedOnce program loop es := by
  refine ⟨fun i data l hmem => h.program i data l (List.mem_append_left _ hmem), fun i => ?_⟩
  have honce := h.once i
  rw [List.countP_append] at honce
  omega

theorem view_root_play {w : World n} {i : Fin n} {e : Event n} {data : List Op} {l : Int}
    (h : w.view [] i e = some (.play data l)) : e = .play i.val data l := by
  cases e <;> grind [view]

theorem view_pause {w : World n} {p : PlayerPath} {i : Fin n} {e : Event n}
    (h : w.view p i e = some .pause) : e = .pauseAll := by
  cases e <;> grind [view]

theorem view_resume {w : World n} {p : PlayerPath} {i : Fin n} {e : Event n}
    (h : w.view p i e = some .resume) : e = .resumeAll := by
  cases e <;> grind [view]

theorem start_fresh (vcs : Fin n → VirtualClient (PlayerPath × Fin n)) (gam : Option (List (List Int16)))
    (p : PlayerPath) (i : Fin n) : ((start vcs gam).slot p i).Fresh := ⟨rfl, rfl, rfl⟩

/-- A client of the main player in such a run: `I` is gained by its `Play` and
kept by all that happens to it afterwards. -/
theorem run_played {env : Env} {program : Fin n → List Op} {loop : Fin n → Nat} {i : Fin n}
    {I : Slot → Prop} {C : Slot → ClientInfo.Event → Prop} {cond : World n → Event n → Prop}
    (hplay : ∀ s : Slot, s.Fresh → I (s.step (.play (program i) (loop i))))
    (hstep : ∀ s e, I s → s.info.Enabled e → (∀ data l, e ≠ .play data l) → C s e → I (s.step e))
    (hresume : ∀ s : Slot, s.Fresh → ¬ C s .resume)
    (hcond : ∀ w e v, cond w e → w.view [] i e = some v → C (w.slot [] i) v)
    {vcs : Fin n → VirtualClient (PlayerPath × Fin n)} {gam : Option (List (List Int16))} {w : World n}
    {es : List (Event n)} (h : Machine.Run ((machine env).restrict cond) (start vcs gam) es w)
    (hes : PlayedOnce program loop es) : (w.slot [] i).Fresh ∨ I (w.slot [] i) := by
  suffices H : PlayedOnce program loop es →
      ((w.slot [] i).Fresh ∨ I (w.slot [] i)) ∧ (es.countP (playsFor i) = 0 → (w.slot [] i).Fresh) from
    (H hes).1
  refine h.history (I := fun fs w => PlayedOnce program loop fs →
    ((w.slot [] i).Fresh ∨ I (w.slot [] i)) ∧ (fs.countP (playsFor i) = 0 → (w.slot [] i).Fresh)) ?_
    fun _ => ⟨.inl (start_fresh vcs gam [] i), fun _ => start_fresh vcs gam [] i⟩
  rintro fs v e v' ih ⟨⟨-, hqueued⟩, hc⟩ hs hplayed
  obtain ⟨hI, hzero⟩ := ih hplayed.init
  have hslot := step_slot hs [] i
  have honce := hplayed.once i
  rw [List.countP_append] at honce
  cases hv : v.view [] i e with
  | none =>
    rw [hv] at hslot
    rw [hslot]
    refine ⟨hI, fun hcount => hzero ?_⟩
    rw [List.countP_append] at hcount
    omega
  | some u =>
    have hu := view_enabled hqueued hs hv
    have hCu := hcond v e u hc hv
    rw [hv] at hslot
    rw [hslot]
    by_cases hup : ∃ data l, u = .play data l
    · -- the one `Play` for the client: nothing has happened to it before
      obtain ⟨data, l, rfl⟩ := hup
      obtain rfl := view_root_play hv
      obtain ⟨rfl, rfl⟩ := hplayed.program i data l (by simp)
      have hcount : List.countP (playsFor i) [Event.play i.val (program i) (loop i)] = 1 := by
        simp [playsFor]
      rw [hcount] at honce
      refine ⟨.inr (hplay _ (hzero (by omega))), fun hcount' => ?_⟩
      rw [List.countP_append, hcount] at hcount'
      omega
    · have hne : ∀ data l, u ≠ .play data l := fun data l heq => hup ⟨data, l, heq⟩
      have hfresh : (v.slot [] i).Fresh → ((v.slot [] i).step u).Fresh := fun hf =>
        hf.step hu hne fun heq => hresume _ hf (heq ▸ hCu)
      refine ⟨hI.imp hfresh fun hi => hstep _ u hi hu hne hCu, fun hcount => hfresh (hzero ?_)⟩
      rw [List.countP_append] at hcount
      omega

/-! ## The trace -/

theorem opIndex_other {env : Env} {w w' : World n} {p : PlayerPath} {i : Fin n} {d : Draw}
    (h : step env w (.onNext p i d) = .ok w') (q : PlayerPath) {j : Fin n} (hj : j ≠ i) :
    (w'.info q j).opIndex = (w.info q j).opIndex := by
  have hcontrol := step_control h q j
  have hview : w.view q j (.onNext p i d) = none := by grind [view]
  rw [hview] at hcontrol
  have hindex : (w'.info q j).control.opIndex = (w.info q j).control.opIndex := by rw [hcontrol, viewed]
  exact hindex

/-- Without a pause every client executes its program, and then the loop of it
for ever, with one continuation at a time and untouched by the other clients. -/
theorem scenario_trace (env : Env) (program : Fin n → List Op) (loop : Fin n → Nat)
    (hloop : ∀ i, loop i < (program i).length) {vcs : Fin n → VirtualClient (PlayerPath × Fin n)}
    {gam : Option (List (List Int16))} {w : World n} {es : List (Event n)}
    (h : Machine.Run (machine env) (start vcs gam) es w) (hplayed : PlayedOnce program loop es)
    (hpause : ∀ e ∈ es, e ≠ .pauseAll ∧ e ≠ .resumeAll) :
    (∀ i k, k < (w.opsOf [] i).length → (w.opsOf [] i)[k]? =
      if k < (program i).length then (program i)[k]?
      else (program i)[loop i + (k - (program i).length) % ((program i).length - loop i)]?) ∧
    (∀ i, (w.info [] i).pending ≤ 1) ∧
    (∀ p i d w', (machine env).enabled w (.onNext p i d) → step env w (.onNext p i d) = .ok w' →
      ∀ q j, j ≠ i → (w'.info q j).opIndex = (w.info q j).opIndex) := by
  have hslot : ∀ i, (w.slot [] i).Fresh ∨ ∃ m, (w.slot [] i).Following (program i) (loop i) m := by
    intro i
    refine run_played (i := i) (I := fun s => ∃ m, s.Following (program i) (loop i) m)
      (C := fun _ e => e ≠ .pause ∧ e ≠ .resume) (fun s hs => ⟨0, hs.play (hloop i)⟩) ?_
      (fun s _ hC => hC.2 rfl) ?_ (h.to_restrict hpause) hplayed
    · rintro s e ⟨m, hm⟩ he hne ⟨hp, hr⟩
      exact hm.step (hloop i) he hne hp hr
    · rintro v e u ⟨hp, hr⟩ hu
      exact ⟨fun heq => hp (view_pause (heq ▸ hu)), fun heq => hr (view_resume (heq ▸ hu))⟩
  refine ⟨fun i k hk => ?_, fun i => ?_, fun p i d w' _ hs q j hj => opIndex_other hs q hj⟩
  · rcases hslot i with hf | ⟨m, hm⟩
    · have hnil : w.opsOf [] i = [] := hf.executed
      rw [hnil] at hk
      exact absurd hk (Nat.not_lt_zero k)
    · have htrace : w.opsOf [] i = unroll (program i) (loop i)
          (if (w.slot [] i).info.posted = 0 then m + 1 else m) := hm.executed
      rw [htrace, unroll_length (hloop i)] at hk
      rw [htrace, unroll_getElem? (hloop i) hk, index]
      split <;> rfl
  · rcases hslot i with hf | ⟨m, hm⟩
    · exact Nat.le_trans (Nat.le_of_eq hf.pending) (Nat.zero_le 1)
    · exact Nat.le_of_eq hm.pending

/-- An environment without audio in which every draw is zero. -/
def quietEnv : Env where
  vcConfig := {}
  pool := ⟨[0], by decide⟩
  voice := fun _ => []

def zeroDraw : Draw := ⟨0, 0, 0, 0, ⟨[], "", false, false⟩⟩

def twoPrograms (i : Fin 2) : List Op :=
  if i = 0 then [.sleep 0 0, .playVoiceNumberClient]
  else [.playSubScenario "sub" [.sleep 1 1] 0, .sleep 1 2]

/-- The second client is played while the first one sleeps, and a sub-scenario
runs in between. -/
def twoEvents : List (Event 2) :=
  [.play 0 (twoPrograms 0) 1, .onNext [] 0 zeroDraw, .play 1 (twoPrograms 1) 0, .sleepExpired [] 0,
    .onNext [] 1 zeroDraw, .sleepReady [] 0, .onNext ["sub"] 1 zeroDraw, .onNext [] 0 zeroDraw,
    .onNext [] 0 zeroDraw, .onNext [] 1 zeroDraw]

theorem scenario_trace_two : ∃ w : World 2,
    Machine.Run (machine quietEnv) (start (fun _ => .init) (some [])) twoEvents w ∧
      (w.opsOf [] 0).length = 3 ∧ (w.opsOf [] 0)[2]? = some .playVoiceNumberClient ∧
      (w.info [] 1).pending ≤ 1 := by
  obtain ⟨w, hw, hlen⟩ := Machine.exec_exists (machine quietEnv) (start (fun _ => .init) (some []))
    twoEvents (fun w => (w.opsOf [] 0).length = 3) (by decide +kernel)
  have hlen : (w.opsOf [] 0).length = 3 := by simpa using hlen
  have hplayed : PlayedOnce twoPrograms (fun i => if i = 0 then 1 else 0) twoEvents := by
    refine ⟨fun i data l h => ?_, by decide⟩
    match i, h with
    | 0, h => simpa [twoEvents] using h
    | 1, h => simpa [twoEvents] using h
  obtain ⟨htrace, hpending, -⟩ := scenario_trace quietEnv twoPrograms (fun i => if i = 0 then 1 else 0)
    (by decide) hw hplayed (by simp [twoEvents])
  refine ⟨w, hw, hlen, ?_, hpending 1⟩
  rw [htrace 0 2 (by omega)]
  rfl

end World
