import Zakuro.ScenarioTrace

/-!
# Pausing a scenario

`PauseAll` cancels the sleep timers and sets the `paused` flags, but a posted
`OnNext` still runs its operation, and `ResumeAll` posts another `OnNext` for
every client. Between them they repeat or skip operations unless `ResumeAll`
finds every client at rest: on an `OP_SLEEP`, with no handler under way.
-/

namespace ClientInfo

open Unrolling

def awake (ops : List Op) : List Op := ops.filter fun op => !op.isSleep

theorem awake_append (ops : List Op) (op : Op) :
    awake (ops ++ [op]) = if op.isSleep = true then awake ops else awake ops ++ [op] := by
  cases h : op.isSleep <;> simp [awake, h]

theorem awake_mono (program : List Op) (l : Nat) {m k : Nat} (h : m ≤ k) :
    awake (unroll program l m) <+: awake (unroll program l k) :=
  (unroll_mono program l h).filter _

/-- The operation of the client is a sleep. -/
def Asleep (c : ClientInfo) : Prop := ∃ op, c.current = some op ∧ op.isSleep = true

instance (c : ClientInfo) : Decidable c.Asleep :=
  decidable_of_iff (c.current.any Op.isSleep = true) (by
    simp only [Asleep, Option.any_eq_true])

/-- The client's operation is still to be executed, or is a sleep. -/
structure Slot.Due (program : List Op) (l m : Nat) (s : Slot) : Prop where
  placed : Placed program l m s.info
  pending : s.info.pending ≤ 1
  asleep : s.info.posted = 0 → s.info.Asleep
  executed : awake s.executed = awake (unroll program l m)

/-- The client's operation has been executed under a pause. -/
structure Slot.Held (program : List Op) (l m : Nat) (s : Slot) : Prop where
  placed : Placed program l m s.info
  pending : s.info.pending = 0
  wide : ¬ s.info.Asleep
  executed : awake s.executed = awake (unroll program l (m + 1))

def Slot.Paced (program : List Op) (l : Nat) (s : Slot) : Prop :=
  ∃ m, s.Due program l m ∨ s.Held program l m

theorem Placed.takePosted {program : List Op} {l m : Nat} {c : ClientInfo}
    (h : Placed program l m c) : Placed program l m c.takePosted :=
  ⟨h.data, h.loopOpIndex, h.opIndex⟩

/-- The step from a sleep to the operation behind it. -/
theorem Slot.Due.sleepReady {program : List Op} {l m : Nat} (hl : l < program.length) {s : Slot}
    (h : s.Due program l m) (he : s.info.Enabled .sleepReady) :
    ∃ m, (s.step .sleepReady).Due program l m := by
  have hpending : (s.step .sleepReady).info.pending ≤ 1 :=
    Nat.le_trans (pending_sleepReady_le he) h.pending
  have hposted : s.info.posted = 0 := by
    have hone := h.pending
    have hready : 0 < s.info.timer.ready := he
    rw [ClientInfo.pending] at hone
    omega
  obtain ⟨op, hop, hsleep⟩ := h.asleep hposted
  let c : ClientInfo := { s.info with timer := s.info.timer.takeReady }
  have hplaced : Placed program l m c := ⟨h.placed.data, h.placed.loopOpIndex, h.placed.opIndex⟩
  have hinfo : (s.step .sleepReady).info = c.next := rfl
  cases hp : s.info.paused with
  | true =>
    have hc : c.next = c := next_of_paused hp
    rw [hc] at hinfo
    exact ⟨m, hinfo ▸ hplaced, hpending, fun _ => ⟨op, hinfo ▸ hop, hsleep⟩, h.executed⟩
  | false =>
    obtain ⟨hposted', -, -⟩ := next_of_running (c := c) hp
    refine ⟨m + 1, hinfo ▸ hplaced.next hl hp, hpending, fun h0 => ?_, ?_⟩
    · rw [hinfo, hposted'] at h0
      exact absurd h0 (Nat.succ_ne_zero _)
    · have htrace : (s.step .sleepReady).executed = s.executed := rfl
      rw [htrace, h.executed, h.placed.executed hop, awake_append, if_pos hsleep]

theorem Slot.Due.onNext {program : List Op} {l m : Nat} (hl : l < program.length) {s : Slot}
    (h : s.Due program l m) {ms : Int} (he : s.info.Enabled (.onNext ms)) :
    (s.step (.onNext ms)).Paced program l := by
  have hpending : (s.step (.onNext ms)).info.pending ≤ 1 :=
    Nat.le_trans (pending_onNext_le he.1 ms) h.pending
  obtain ⟨hposted, hsome⟩ := he
  obtain ⟨op, hop⟩ := Option.isSome_iff_exists.mp hsome
  have htrace : (s.step (.onNext ms)).executed = s.executed ++ [op] := by
    rw [Slot.step, hop]
    rfl
  cases hs : op.isSleep with
  | true =>
    have hinfo : (s.step (.onNext ms)).info = s.info.takePosted.sleep ms :=
      onNext_of_asleep hop hs ms
    have hplaced : Placed program l m (s.info.takePosted.sleep ms) :=
      ⟨h.placed.data, h.placed.loopOpIndex, h.placed.opIndex⟩
    refine ⟨m, .inl ⟨hinfo ▸ hplaced, hpending, fun _ => ⟨op, hinfo ▸ hop, hs⟩, ?_⟩⟩
    rw [htrace, awake_append, if_pos hs, h.executed]
  | false =>
    have hinfo : (s.step (.onNext ms)).info = s.info.takePosted.next := onNext_of_awake hop hs ms
    have hawake : awake (s.step (.onNext ms)).executed = awake (unroll program l (m + 1)) := by
      rw [htrace, h.placed.executed hop, awake_append, awake_append, h.executed]
    cases hp : s.info.paused with
    | true =>
      have hc : s.info.takePosted.next = s.info.takePosted := next_of_paused hp
      rw [hc] at hinfo
      refine ⟨m, .inr ⟨hinfo ▸ h.placed.takePosted, ?_, ?_, hawake⟩⟩
      · have htaken := pending_takePosted hposted
        have hone := h.pending
        rw [hinfo]
        omega
      · rw [hinfo]
        rintro ⟨op', hop', hs'⟩
        obtain rfl : op = op' := Option.some.inj (hop.symm.trans hop')
        simp [hs] at hs'
    | false =>
      obtain ⟨hposted', -, -⟩ := next_of_running (c := s.info.takePosted) hp
      refine ⟨m + 1, .inl ⟨hinfo ▸ h.placed.takePosted.next hl hp, hpending, fun h0 => ?_, hawake⟩⟩
      rw [hinfo, hposted'] at h0
      exact absurd h0 (Nat.succ_ne_zero _)

/-- `ResumeAll` finds the client on a sleep, with no handler under way. -/
def AtRest (c : ClientInfo) : Prop := c.pending = 0 ∧ c.Asleep

instance (c : ClientInfo) : Decidable c.AtRest := inferInstanceAs (Decidable (_ ∧ _))

theorem Slot.Due.step {program : List Op} {l m : Nat} (hl : l < program.length) {s : Slot}
    (h : s.Due program l m) {e : Event} (he : s.info.Enabled e)
    (hplay : ∀ data l, e ≠ .play data l) (hresume : e = .resume → s.info.AtRest) :
    (s.step e).Paced program l := by
  have hplaced := h.placed
  by_cases hr : e = .resume
  · subst hr
    obtain ⟨hrest, hasleep⟩ := hresume rfl
    have hpending : (s.step .resume).info.pending ≤ 1 := by
      have hone := pending_resume s.info
      rw [hrest] at hone
      exact Nat.le_of_eq hone
    exact ⟨m, .inl ⟨⟨hplaced.data, hplaced.loopOpIndex, hplaced.opIndex⟩, hpending, fun _ => hasleep,
      h.executed⟩⟩
  · have hpending : (s.step e).info.pending ≤ 1 :=
      Nat.le_trans (pending_step_le he hplay hr) h.pending
    cases e with
    | play data l => exact absurd rfl (hplay data l)
    | resume => exact absurd rfl hr
    | onNext ms => exact h.onNext hl he
    | sleepReady =>
      obtain ⟨m, hm⟩ := h.sleepReady hl he
      exact ⟨m, .inl hm⟩
    | _ =>
      exact ⟨m, .inl ⟨⟨hplaced.data, hplaced.loopOpIndex, hplaced.opIndex⟩, hpending, h.asleep,
        h.executed⟩⟩

/-- An operation that was executed under a pause is not at rest: nothing goes on
with it. -/
theorem Slot.Held.step {program : List Op} {l m : Nat} {s : Slot} (h : s.Held program l m) {e : Event}
    (he : s.info.Enabled e) (hplay : ∀ data l, e ≠ .play data l)
    (hresume : e = .resume → s.info.AtRest) : (s.step e).Paced program l := by
  have hplaced := h.placed
  obtain ⟨honNext, hexpired, hready⟩ := not_enabled_of_pending h.pending
  have hr : e ≠ .resume := fun heq => h.wide (hresume heq).2
  have hpending : (s.step e).info.pending = 0 :=
    Nat.le_zero.mp (h.pending ▸ pending_step_le he hplay hr)
  cases e with
  | play data l => exact absurd rfl (hplay data l)
  | resume => exact absurd rfl hr
  | onNext ms => exact absurd he (honNext ms)
  | sleepExpired => exact absurd he hexpired
  | sleepReady => exact absurd he hready
  | _ =>
    exact ⟨m, .inr ⟨⟨hplaced.data, hplaced.loopOpIndex, hplaced.opIndex⟩, hpending, h.wide,
      h.executed⟩⟩

theorem Slot.Fresh.due {program : List Op} {l : Nat} (hl : l < program.length) {s : Slot}
    (h : s.Fresh) : (s.step (.play program l)).Due program l 0 := by
  have hf := h.play hl
  obtain ⟨hposted, -, -⟩ := play_of_playable hl s.info
  have hposted' : (s.step (.play program l)).info.posted = s.info.posted + 1 := hposted
  refine ⟨hf.placed, Nat.le_of_eq hf.pending, fun h0 => ?_, ?_⟩
  · rw [hposted'] at h0
    exact absurd h0 (Nat.succ_ne_zero _)
  · rw [hf.executed, hposted', if_neg (Nat.succ_ne_zero _)]

end ClientInfo

namespace World

open ScenarioPlayer ClientInfo Unrolling

variable {n : Nat}

/-- `ResumeAll` is called only when every client of the main player is at rest. -/
def ResumesAtRest (w : World n) : Event n → Prop
  | .resumeAll => ∀ i, (w.info [] i).AtRest
  | _ => True

instance (w : World n) : DecidablePred (ResumesAtRest w)
  | .resumeAll => inferInstanceAs (Decidable (∀ i, (w.info [] i).AtRest))
  | .play _ _ _ | .pauseAll | .onNext _ _ _ | .sleepExpired _ _ | .sleepReady _ _ | .sleepAborted _ _
  | .keyClose _ | .keyConnect _ | .client _ _ => .isTrue trivial

/-- Then pauses neither repeat nor skip an operation, the one that `OnNext` is
about to execute included. -/
theorem pause_resume (env : Env) (program : Fin n → List Op) (loop : Fin n → Nat)
    (hloop : ∀ i, loop i < (program i).length) {vcs : Fin n → VirtualClient (PlayerPath × Fin n)}
    {gam : Option (List (List Int16))} {w : World n} {es : List (Event n)}
    (h : Machine.Run ((machine env).restrict ResumesAtRest) (start vcs gam) es w)
    (hplayed : PlayedOnce program loop es) (i : Fin n) :
    (∃ m, awake (w.opsOf [] i) = awake (unroll (program i) (loop i) m)) ∧
    (∀ d op, (machine env).enabled w (.onNext [] i d) → (w.info [] i).current = some op →
      ∃ m, awake (w.opsOf [] i ++ [op]) = awake (unroll (program i) (loop i) m)) := by
  have hslot : (w.slot [] i).Fresh ∨ (w.slot [] i).Paced (program i) (loop i) := by
    refine run_played (i := i) (I := Slot.Paced (program i) (loop i))
      (C := fun s e => e = .resume → s.info.AtRest) (fun s hs => ⟨0, .inl (hs.due (hloop i))⟩) ?_ ?_ ?_
      h hplayed
    · rintro s e ⟨m, hdue | hheld⟩ he hne hC
      · exact hdue.step (hloop i) he hne hC
      · exact hheld.step he hne hC
    · intro s hs hC
      obtain ⟨-, op, hop, -⟩ := hC rfl
      simp [current, hs.data] at hop
    · rintro v e u hc hu rfl
      obtain rfl := view_resume hu
      exact hc i
  rcases hslot with hf | ⟨m, hdue | hheld⟩
  · refine ⟨⟨0, congrArg awake hf.executed⟩, fun d op he hop => ?_⟩
    have hdata : (w.info [] i).data = [] := hf.data
    simp [current, hdata] at hop
  · refine ⟨⟨m, hdue.executed⟩, fun d op he hop => ⟨m + 1, ?_⟩⟩
    have htrace : awake (w.opsOf [] i) = awake (unroll (program i) (loop i) m) := hdue.executed
    rw [hdue.placed.executed hop, awake_append, awake_append, htrace]
  · refine ⟨⟨m + 1, hheld.executed⟩, fun d op he hop => ?_⟩
    exact absurd hheld.pending (pending_of_posted (c := w.info [] i) he.2.1)

def voiceProgram : List Op := [.sleep 0 0, .playVoiceNumberClient, .sleep 0 0, .reconnect]

theorem playedOnce_voice {es : List (Event 1)}
    (h : ∀ data l, .play 0 data l ∈ es → data = voiceProgram ∧ l = 0)
    (honce : es.countP (playsFor 0) ≤ 1) :
    PlayedOnce (fun _ => voiceProgram) (fun _ => 0) es := by
  constructor
  · intro i data l hmem
    rw [Subsingleton.elim i 0] at hmem
    exact h data l hmem
  · intro i
    rw [Subsingleton.elim i 0]
    exact honce

/-- A pause that finds the client asleep, and a resume. -/
def restEvents : List (Event 1) :=
  [.play 0 voiceProgram 0, .onNext [] 0 zeroDraw, .pauseAll, .sleepAborted [] 0, .resumeAll,
    .onNext [] 0 zeroDraw, .sleepExpired [] 0, .sleepReady [] 0, .onNext [] 0 zeroDraw]

theorem pause_resume_rest : ∃ w : World 1,
    Machine.Run ((machine quietEnv).restrict ResumesAtRest) (start (fun _ => .init) (some []))
      restEvents w ∧ (w.opsOf [] 0).length = 3 ∧
      ∃ m, awake (w.opsOf [] 0) = awake (unroll voiceProgram 0 m) := by
  obtain ⟨w, hw, hlen⟩ := Machine.exec_exists ((machine quietEnv).restrict ResumesAtRest)
    (start (fun _ => .init) (some [])) restEvents (fun w => (w.opsOf [] 0).length = 3)
    (by decide +kernel)
  have hplayed : PlayedOnce (fun _ => voiceProgram) (fun _ => 0) restEvents :=
    playedOnce_voice (by simp [restEvents]) (by decide)
  exact ⟨w, hw, by simpa using hlen,
    (pause_resume quietEnv (fun _ => voiceProgram) (fun _ => 0) (by decide) hw hplayed 0).1⟩

/-- A pause that finds an `OnNext` posted: the voice number is played under the
pause, and played again after the resume. -/
def repeatEvents : List (Event 1) :=
  [.play 0 voiceProgram 0, .onNext [] 0 zeroDraw, .sleepExpired [] 0, .sleepReady [] 0, .pauseAll,
    .onNext [] 0 zeroDraw, .resumeAll, .onNext [] 0 zeroDraw]

theorem pause_repeats : ∃ w : World 1,
    Machine.Run (machine quietEnv) (start (fun _ => .init) (some [])) repeatEvents w ∧
      PlayedOnce (fun _ => voiceProgram) (fun _ => 0) repeatEvents ∧
      ¬ ∃ m, awake (w.opsOf [] 0) = awake (unroll voiceProgram 0 m) := by
  refine ⟨_, Machine.exec_get_run (machine quietEnv) (start (fun _ => .init) (some [])) repeatEvents
    (by decide +kernel), playedOnce_voice (by simp [repeatEvents]) (by decide), ?_⟩
  rintro ⟨m, hm⟩
  have htwice : awake (unroll voiceProgram 0 m) = [.playVoiceNumberClient, .playVoiceNumberClient] :=
    hm.symm.trans (by rfl)
  have hfour : awake (unroll voiceProgram 0 4) = [.playVoiceNumberClient, .reconnect] := by rfl
  have hprefix := List.prefix_of_prefix_length_le (awake_mono voiceProgram 0 (Nat.le_add_left 4 m))
    (awake_mono voiceProgram 0 (Nat.le_add_right m 4)) (by rw [hfour, htwice]; rfl)
  rw [hfour, htwice] at hprefix
  simp at hprefix

end World
