import Zakuro.ZakuroRun

/-!
# The players of an instance

After `Zakuro::Run` has started the clients, only the operations of the main
player call `Play`. So the players that ever have something to do are the main
player, with the program of each client, and the sub-scenarios one level below.
-/

namespace ClientInfo

/-- The client stays in a program that is not replaced. -/
structure InProgram (program : List Op) (l : Nat) (c : ClientInfo) : Prop where
  data : c.data = program
  loopOpIndex : c.loopOpIndex = l
  opIndex : c.opIndex < program.length

theorem InProgram.control_iff {program : List Op} {l : Nat} {c : ClientInfo} :
    InProgram program l c.control ↔ InProgram program l c :=
  ⟨fun h => ⟨h.data, h.loopOpIndex, h.opIndex⟩, fun h => ⟨h.data, h.loopOpIndex, h.opIndex⟩⟩

theorem InProgram.current {program : List Op} {l : Nat} {c : ClientInfo}
    (h : InProgram program l c) : ∃ op, c.current = some op ∧ op ∈ program := by
  refine ⟨program.get ⟨c.opIndex, h.opIndex⟩, ?_, List.get_mem _ _⟩
  rw [ClientInfo.current, h.data]
  exact List.getElem?_eq_getElem h.opIndex

theorem InProgram.placed {program : List Op} {l : Nat} {c : ClientInfo} (h : InProgram program l c) :
    Placed program l c.opIndex c :=
  ⟨h.data, h.loopOpIndex, (Unrolling.index_of_lt l h.opIndex).symm⟩

theorem Placed.inProgram {program : List Op} {l m : Nat} (hl : l < program.length) {c : ClientInfo}
    (h : Placed program l m c) : InProgram program l c :=
  ⟨h.data, h.loopOpIndex, h.opIndex ▸ Unrolling.index_lt hl m⟩

theorem InProgram.next {program : List Op} {l : Nat} (hl : l < program.length) {c : ClientInfo}
    (h : InProgram program l c) : InProgram program l c.next := by
  cases hp : c.paused with
  | true =>
    rw [next_of_paused hp]
    exact h
  | false => exact (h.placed.next hl hp).inProgram hl

theorem InProgram.onNext {program : List Op} {l : Nat} (hl : l < program.length) {c : ClientInfo}
    (h : InProgram program l c) (ms : Int) : InProgram program l (c.onNext ms) := by
  have htaken : InProgram program l c.takePosted := ⟨h.data, h.loopOpIndex, h.opIndex⟩
  rw [ClientInfo.onNext]
  split
  · exact h
  · exact ⟨h.data, h.loopOpIndex, h.opIndex⟩
  · exact htaken.next hl

theorem InProgram.step {program : List Op} {l : Nat} (hl : l < program.length) {c : ClientInfo}
    (h : InProgram program l c) {e : Event} (hplay : ∀ data l, e ≠ .play data l) :
    InProgram program l (c.step e) := by
  cases e with
  | play data l => exact absurd rfl (hplay data l)
  | onNext ms => exact h.onNext hl ms
  | sleepReady => exact InProgram.next hl ⟨h.data, h.loopOpIndex, h.opIndex⟩
  | _ => exact ⟨h.data, h.loopOpIndex, h.opIndex⟩

end ClientInfo

namespace World

open ScenarioPlayer ClientInfo

variable {n : Nat}

/-- A client of a sub-scenario that has been started. -/
structure SubClient (data : List Op) (c : ClientInfo) : Prop where
  program : SubProgram data
  inProgram : InProgram data 0 c
  running : c.paused = false

theorem SubClient.control_iff {data : List Op} {c : ClientInfo} :
    SubClient data c.control ↔ SubClient data c :=
  ⟨fun h => ⟨h.program, InProgram.control_iff.mp h.inProgram, h.running⟩,
    fun h => ⟨h.program, InProgram.control_iff.mpr h.inProgram, h.running⟩⟩

theorem SubProgram.length {data : List Op} (h : SubProgram data) : data.length = 2 := by
  obtain ⟨_, _, _, rfl, -⟩ := h
  rfl

/-- No operation of a sub-scenario starts another one, or exits. -/
theorem SubProgram.mem {data : List Op} (h : SubProgram data) {op : Op} (hop : op ∈ data) :
    op ≠ .exit ∧ ∀ name sub l, op ≠ .playSubScenario name sub l := by
  obtain ⟨lo, hi, op', rfl, -, -, hexit, hsub⟩ := h
  rcases List.mem_pair.mp hop with rfl | rfl
  · exact ⟨by simp, by simp⟩
  · exact ⟨hexit, hsub⟩

/-- What holds of the players of an instance from its start on. -/
structure Tree (cfg : ZakuroConfig) (w : World n) : Prop where
  main : ∀ i, InProgram (cfg.program i.val) cfg.loopIndex (w.info [] i)
  sub : ∀ p i, p ≠ [] → (w.info p i).pending = 0 ∨ ∃ data, SubClient data (w.info p i)

theorem run_tree (cfg : ZakuroConfig) : Tree cfg (run n cfg) := by
  constructor
  · intro i
    exact InProgram.control_iff.mp ((run_following cfg i).placed.inProgram (loopIndex_lt cfg i))
  · intro p i hp
    rw [run_info, if_neg hp]
    exact .inl rfl

theorem view_play {w : World n} {p : PlayerPath} {i : Fin n} {e : Event n} {data : List Op} {l : Int}
    (h : w.view p i e = some (.play data l)) :
    (p = [] ∧ e = .play i.val data l) ∨ ∃ q d name, e = .onNext q i d ∧ p = name :: q ∧
      (w.info q i).current = some (.playSubScenario name data l) := by
  cases e <;> grind [view]

theorem view_pause_path {w : World n} {p : PlayerPath} {i : Fin n} {e : Event n}
    (h : w.view p i e = some .pause ∨ w.view p i e = some .resume) : p = [] := by
  cases e <;> grind [view]

/-- A sub-scenario without a handler gets one when the operation that plays it is
executed, and in no other way. -/
theorem sub_pending_step {env : Env} {w w' : World n} {e : Event n} {p : PlayerPath} {i : Fin n} (hp : p ≠ [])
    (hzero : (w.info p i).pending = 0) (he : Queued env w e) (hs : step env w e = .ok w')
    (hplay : ∀ q d name data l, e = .onNext q i d →
      (w.info q i).current ≠ some (.playSubScenario name data l)) : (w'.info p i).pending = 0 := by
  have hcontrol : (w.info p i).control.pending = 0 := hzero
  change (w'.info p i).control.pending = 0
  rw [step_control hs p i]
  cases hv : w.view p i e with
  | none => exact hcontrol
  | some v =>
    have hresume : v ≠ .resume := fun heq => hp (view_pause_path (.inr (heq ▸ hv)))
    refine Nat.le_zero.mp (hcontrol ▸ pending_step_le (view_enabled he hs hv) ?_ hresume)
    rintro data l rfl
    rcases view_play hv with ⟨hnil, -⟩ | ⟨q, d, name, rfl, -, hop⟩
    · exact hp hnil
    · exact hplay q d name data l rfl hop

/-- Nobody but the operations of the players calls `Play`. -/
def Unplayed : Event n → Prop
  | .play _ _ _ => False
  | _ => True

instance : DecidablePred (Unplayed (n := n))
  | .play _ _ _ => .isFalse id
  | .pauseAll | .resumeAll | .onNext _ _ _ | .sleepExpired _ _ | .sleepReady _ _ | .sleepAborted _ _
  | .keyClose _ | .keyConnect _ | .client _ _ => .isTrue trivial

theorem Tree.main_current {cfg : ZakuroConfig} {w : World n} (h : Tree cfg w) (i : Fin n) :
    ∃ op, (w.info [] i).current = some op ∧ op ∈ cfg.program i.val :=
  (h.main i).current

/-- A handler of a sub-scenario finds one of its operations. -/
theorem Tree.sub_current {cfg : ZakuroConfig} {w : World n} (h : Tree cfg w) {p : PlayerPath} (hp : p ≠ [])
    {i : Fin n} {op : Op} (hop : (w.info p i).current = some op) (hpending : (w.info p i).pending ≠ 0) :
    op ≠ .exit ∧ ∀ name sub l, op ≠ .playSubScenario name sub l := by
  rcases h.sub p i hp with h0 | ⟨data, hsub⟩
  · exact absurd h0 hpending
  · obtain ⟨op', hop', hmem⟩ := hsub.inProgram.current
    obtain rfl : op' = op := Option.some.inj (hop'.symm.trans hop)
    exact hsub.program.mem hmem

/-- Only an operation of the main player starts a sub-scenario. -/
theorem Tree.view_sub_play {cfg : ZakuroConfig} {w : World n} (h : Tree cfg w) {env : Env} {p : PlayerPath}
    {i : Fin n} {e : Event n} {data : List Op} {l : Int} (hp : p ≠ []) (he : Queued env w e)
    (hv : w.view p i e = some (.play data l)) : SubProgram data ∧ l = 0 := by
  rcases view_play hv with ⟨hnil, -⟩ | ⟨q, d, name, rfl, rfl, hop⟩
  · exact absurd hnil hp
  · by_cases hq : q = []
    · subst hq
      obtain ⟨op, hop', hmem⟩ := h.main_current i
      obtain rfl := Option.some.inj (hop'.symm.trans hop)
      exact program_sub hmem
    · exact absurd rfl ((h.sub_current hq hop (pending_of_posted he.1)).2 name data l)

theorem SubProgram.play {data : List Op} (h : SubProgram data) (c : ClientInfo) :
    SubClient data (c.play data 0) := by
  have hlen := h.length
  have hl : 0 < data.length := by omega
  exact ⟨h, (Placed.play hl c).inProgram hl, (play_of_playable hl c).2.2⟩

theorem SubClient.step {data : List Op} {c : ClientInfo} (h : SubClient data c)
    {e : ClientInfo.Event} (hplay : ∀ data l, e ≠ .play data l) (hpause : e ≠ .pause) :
    SubClient data (c.step e) := by
  have hlen := h.program.length
  exact ⟨h.program, h.inProgram.step (by omega) hplay, paused_step h.running hpause⟩

theorem step_tree {cfg : ZakuroConfig} {env : Env} {w w' : World n} {e : Event n} (h : Tree cfg w)
    (he : Queued env w e) (hc : Unplayed e) (hs : step env w e = .ok w') : Tree cfg w' := by
  constructor
  · intro i
    have hmain := InProgram.control_iff.mpr (h.main i)
    rw [← InProgram.control_iff, step_control hs [] i]
    cases hv : w.view [] i e with
    | none => exact hmain
    | some v =>
      refine hmain.step (loopIndex_lt cfg i) ?_
      rintro data l rfl
      rw [view_root_play hv] at hc
      exact hc
  · intro p i hp
    have hsub : (w.info p i).control.pending = 0 ∨ ∃ data, SubClient data (w.info p i).control :=
      (h.sub p i hp).imp id fun ⟨data, hd⟩ => ⟨data, SubClient.control_iff.mpr hd⟩
    suffices H : (w'.info p i).control.pending = 0 ∨ ∃ data, SubClient data (w'.info p i).control from
      H.imp id fun ⟨data, hd⟩ => ⟨data, SubClient.control_iff.mp hd⟩
    rw [step_control hs p i]
    cases hv : w.view p i e with
    | none => exact hsub
    | some v =>
      by_cases hplay : ∃ data l, v = .play data l
      · obtain ⟨data, l, rfl⟩ := hplay
        obtain ⟨hdata, rfl⟩ := h.view_sub_play hp he hv
        exact .inr ⟨data, hdata.play _⟩
      · have hne : ∀ data l, v ≠ .play data l := fun data l heq => hplay ⟨data, l, heq⟩
        have hpause : v ≠ .pause := fun heq => hp (view_pause_path (.inl (heq ▸ hv)))
        have hresume : v ≠ .resume := fun heq => hp (view_pause_path (.inr (heq ▸ hv)))
        refine hsub.imp (fun h0 => ?_) fun ⟨data, hd⟩ => ⟨data, hd.step hne hpause⟩
        exact Nat.le_zero.mp (h0 ▸ pending_step_le (view_enabled he hs hv) hne hresume)

theorem runs_tree {cfg : ZakuroConfig} {env : Env} {w : World n} {es : List (Event n)}
    (h : Machine.Run ((machine env).restrict fun _ => Unplayed) (run n cfg) es w) : Tree cfg w := by
  refine h.invariant (I := Tree cfg) ?_ (run_tree cfg)
  rintro w e w' htree ⟨⟨-, he⟩, hc⟩ hs
  exact step_tree htree he hc hs

end World
