import Zakuro.ScenarioTree

/-!
# The operation index

A client of a player may have several continuations at once, and `Play` may
replace its program while handlers for the old one are still queued. All of them
go on in the program that the client has by then. So what counts is not which
program a handler was posted for, but that an accepted `Play` came first.
-/

namespace ClientInfo

/-- Both indices of a client are indices of its program. -/
structure InRange (c : ClientInfo) : Prop where
  opIndex : c.opIndex < c.data.length
  loopOpIndex : c.loopOpIndex < c.data.length

theorem InRange.inProgram {c : ClientInfo} (h : c.InRange) : InProgram c.data c.loopOpIndex c :=
  ⟨rfl, rfl, h.opIndex⟩

theorem InProgram.inRange {program : List Op} {l : Nat} (hl : l < program.length) {c : ClientInfo}
    (h : InProgram program l c) : c.InRange := by
  refine ⟨?_, ?_⟩
  · rw [h.data]
    exact h.opIndex
  · rw [h.data, h.loopOpIndex]
    exact hl

theorem InRange.control_iff {c : ClientInfo} : c.control.InRange ↔ c.InRange :=
  ⟨fun h => ⟨h.opIndex, h.loopOpIndex⟩, fun h => ⟨h.opIndex, h.loopOpIndex⟩⟩

/-- A `Play` that passes the guard gives the client a program to be in. -/
theorem inRange_play {data : List Op} {l : Int} (h : Playable data l) (c : ClientInfo) :
    (c.play data l).InRange := by
  obtain ⟨hne, h0, hl⟩ := h
  rw [play, if_pos ⟨hne, h0, hl⟩]
  refine ⟨List.length_pos_of_ne_nil hne, ?_⟩
  change l.toNat < data.length
  omega

theorem play_rejected {data : List Op} {l : Int} (h : ¬ Playable data l) (c : ClientInfo) :
    c.play data l = c := if_neg h

/-- No continuation and no call leads out of the program, whichever it is. -/
theorem InRange.step {c : ClientInfo} (h : c.InRange) (e : Event) : (c.step e).InRange := by
  cases e with
  | play data l =>
    rw [ClientInfo.step]
    by_cases hplay : Playable data l
    · exact inRange_play hplay c
    · rw [play_rejected hplay]
      exact h
  | _ => exact (h.inProgram.step h.loopOpIndex (by simp)).inRange h.loopOpIndex

end ClientInfo

namespace World

open ScenarioPlayer ClientInfo

variable {n : Nat}

/-- A client of a player has had a `Play` that was not ignored: of the main
player it is a call, of a sub-scenario it is an operation of the player above. -/
def Accepted (es : List (Event n)) (w : World n) : PlayerPath → Fin n → Prop
  | [], i => ∃ data l, .play i.val data l ∈ es ∧ Playable data l
  | name :: p, i => ∃ x ∈ w.executed, x.path = p ∧ x.client = i ∧
      ∃ data l, x.op = .playSubScenario name data l ∧ Playable data l

/-- Every client has had an accepted `Play` before `PauseAll` or `ResumeAll` is
called. The other events of a client are handlers that a `Play` of it has posted. -/
def PlayedFirst (es : List (Event n)) : Prop :=
  ∀ fs gs e, es = fs ++ e :: gs → e = .pauseAll ∨ e = .resumeAll →
    ∀ i : Fin n, ∃ data l, .play i.val data l ∈ fs ∧ Playable data l

theorem PlayedFirst.init {es : List (Event n)} {e : Event n} (h : PlayedFirst (es ++ [e])) :
    PlayedFirst es := by
  intro fs gs e' hes he'
  exact h fs (gs ++ [e]) e' (by rw [hes, List.append_assoc, List.cons_append]) he'

theorem PlayedFirst.last {es : List (Event n)} {w : World n} (h : PlayedFirst (es ++ [.resumeAll]))
    (i : Fin n) : Accepted es w [] i :=
  h es [] .resumeAll rfl (.inr rfl) i

/-- One event is an accepted `Play` for a client exactly when its view is one. -/
theorem accepted_step {env : Env} {w w' : World n} {e : Event n} (h : step env w e = .ok w')
    (es : List (Event n)) (p : PlayerPath) (i : Fin n) :
    Accepted (es ++ [e]) w' p i ↔
      Accepted es w p i ∨ ∃ data l, w.view p i e = some (.play data l) ∧ Playable data l := by
  cases p with
  | nil =>
    have hview : ∀ data l, e = .play i.val data l ↔ w.view [] i e = some (.play data l) := by
      intro data l
      refine ⟨?_, view_root_play⟩
      rintro rfl
      rw [view, if_pos ⟨rfl, rfl⟩]
    simp only [Accepted, List.mem_append, List.mem_singleton, eq_comm (b := e), hview]
    grind
  | cons name p =>
    have hplay : ∀ data l, w.view (name :: p) i e = some (.play data l) →
        ∃ d, e = .onNext p i d ∧ (w.info p i).current = some (.playSubScenario name data l) := by
      intro data l hv
      rcases view_play hv with ⟨hnil, -⟩ | ⟨q, d, name', rfl, hpath, hop⟩
      · exact absurd hnil (List.cons_ne_nil name p)
      · obtain ⟨rfl, rfl⟩ := List.cons.inj hpath
        exact ⟨d, rfl, hop⟩
    rcases step_executed h with ⟨q, j, d, op, rfl, hop, hexec⟩ | ⟨hne, hexec⟩
    · simp only [Accepted, hexec, List.mem_append, List.mem_singleton, or_and_right, exists_or,
        exists_eq_left]
      refine or_congr Iff.rfl ⟨?_, ?_⟩
      · rintro ⟨rfl, rfl, data, l, rfl, hplayable⟩
        have hself : name :: q ≠ q := List.cons_ne_self name q
        refine ⟨data, l, ?_, hplayable⟩
        rw [view, if_neg fun heq => hself heq.1, hop]
        exact if_pos ⟨rfl, rfl⟩
      · rintro ⟨data, l, hv, hplayable⟩
        obtain ⟨d', heq, hcurrent⟩ := hplay data l hv
        obtain ⟨rfl, rfl, -⟩ := Event.onNext.inj heq
        exact ⟨rfl, rfl, data, l, Option.some.inj (hop.symm.trans hcurrent), hplayable⟩
    · simp only [Accepted, hexec]
      refine ⟨.inl, ?_⟩
      rintro (haccepted | ⟨data, l, hv, -⟩)
      · exact haccepted
      · obtain ⟨d, heq, -⟩ := hplay data l hv
        exact absurd heq (hne p i d)

/-! ## The invariant -/

/-- A client that has had an accepted `Play` is in its program, and one that has
not has no handlers. -/
structure Indexed (es : List (Event n)) (w : World n) (p : PlayerPath) (i : Fin n) : Prop where
  inRange : Accepted es w p i → (w.info p i).InRange
  idle : ¬ Accepted es w p i → (w.info p i).pending = 0

theorem step_indexed {env : Env} {w w' : World n} {e : Event n} {es : List (Event n)} {p : PlayerPath}
    {i : Fin n} (h : Indexed es w p i) (he : Queued env w e) (hs : step env w e = .ok w')
    (hfirst : PlayedFirst (es ++ [e])) : Indexed (es ++ [e]) w' p i := by
  have hcontrol := step_control hs p i
  have haccepted := accepted_step hs es p i
  have hrange : Accepted es w p i → (w.info p i).control.InRange := fun ha =>
    InRange.control_iff.mpr (h.inRange ha)
  have hidle : ¬ Accepted es w p i → (w.info p i).control.pending = 0 := h.idle
  suffices H : (Accepted (es ++ [e]) w' p i → (w'.info p i).control.InRange) ∧
      (¬ Accepted (es ++ [e]) w' p i → (w'.info p i).control.pending = 0) from
    ⟨fun ha => InRange.control_iff.mp (H.1 ha), H.2⟩
  rw [hcontrol, haccepted]
  by_cases hnow : ∃ data l, w.view p i e = some (.play data l) ∧ Playable data l
  · refine ⟨fun _ => ?_, fun hno => absurd (.inr hnow) hno⟩
    obtain ⟨data, l, hv, hplayable⟩ := hnow
    rw [hv]
    exact inRange_play hplayable _
  rw [or_iff_left hnow]
  cases hv : w.view p i e with
  | none => exact ⟨hrange, hidle⟩
  | some v =>
    refine ⟨fun ha => (hrange ha).step v, fun hno => ?_⟩
    by_cases hplay : ∃ data l, v = .play data l
    · -- a `Play` that is ignored changes nothing
      obtain ⟨data, l, rfl⟩ := hplay
      have hsame : viewed (w.info p i).control (some (.play data l)) = (w.info p i).control :=
        play_rejected (fun hplayable => hnow ⟨data, l, hv, hplayable⟩) _
      rw [hsame]
      exact hidle hno
    · -- nothing but `ResumeAll` could start a client without a program
      have hresume : v ≠ .resume := by
        rintro rfl
        obtain rfl := view_pause_path (.inr hv)
        obtain rfl := view_resume hv
        exact hno (hfirst.last i)
      have hle := pending_step_le (view_enabled he hs hv) (fun data l heq => hplay ⟨data, l, heq⟩) hresume
      exact Nat.le_zero.mp (hidle hno ▸ hle)

theorem run_indexed {env : Env} {vcs : Fin n → VirtualClient (PlayerPath × Fin n)}
    {gam : Option (List (List Int16))} {w : World n} {es : List (Event n)}
    (h : Machine.Run (machine env) (start vcs gam) es w) (hfirst : PlayedFirst es) (p : PlayerPath)
    (i : Fin n) : Indexed es w p i := by
  refine h.history (I := fun fs w => PlayedFirst fs → Indexed fs w p i) ?_ (fun _ => ?_) hfirst
  · rintro fs v e v' ih ⟨-, hqueued⟩ hs hplayed
    exact step_indexed (ih hplayed.init) hqueued hs hplayed
  · refine ⟨fun ha => ?_, fun _ => rfl⟩
    cases p with
    | nil =>
      obtain ⟨data, l, hmem, -⟩ := ha
      exact absurd hmem List.not_mem_nil
    | cons name p =>
      obtain ⟨x, hmem, -⟩ := ha
      exact absurd hmem List.not_mem_nil

/-- The operations themselves do not index anything. -/
theorem operate_inRange {env : Env} {p : PlayerPath} {i : Fin n} {d : Draw} {w : World n} {op : Op} :
    w.operate env p i d op ≠ .error .outOfRange := by
  have hclient : ∀ e, w.client env i e ≠ .error .outOfRange := by
    intro e
    rw [client]
    split <;> simp
  cases op with
  | sendDataChannelMessage label minSize maxSize =>
    rw [operate, sendMessage]
    split
    · simp
    · exact fun heq => hclient _ (Machine.map_eq_error heq)
  | disconnect => exact hclient (.close none)
  | reconnect => exact hclient .connect
  | exit => exact hclient (.close (some (p, i)))
  | playSubScenario name data l => simp [operate]
  | _ =>
    rw [operate]
    split <;> simp

/-- `OnNext` reads beside the end of a program only if the index is there. -/
theorem onNext_inRange {env : Env} {p : PlayerPath} {i : Fin n} {d : Draw} {w : World n}
    (h : (w.info p i).InRange) : w.onNext env p i d ≠ .error .outOfRange := by
  obtain ⟨op, hop, -⟩ := h.inProgram.current
  have htaken := info_modifyInfo w p p i i ClientInfo.takePosted
  rw [if_pos ⟨rfl, rfl⟩] at htaken
  have hcurrent : (w.info p i).takePosted.current = some op := hop
  rw [onNext]
  dsimp only
  rw [htaken, hcurrent]
  exact fun heq => operate_inRange (Machine.map_eq_error heq)

/-- A program is replaced while handlers for the old one are queued, but the
indices of a client never leave the program that it has. -/
theorem op_index_in_range (env : Env) {vcs : Fin n → VirtualClient (PlayerPath × Fin n)}
    {gam : Option (List (List Int16))} {w : World n} {es : List (Event n)}
    (h : Machine.Run (machine env) (start vcs gam) es w) (hfirst : PlayedFirst es) :
    (∀ p i, Accepted es w p i →
      (w.info p i).opIndex < (w.info p i).data.length ∧
        (w.info p i).loopOpIndex < (w.info p i).data.length) ∧
    ∀ p i d, (machine env).enabled w (.onNext p i d) →
      Accepted es w p i ∧ w.onNext env p i d ≠ .error .outOfRange := by
  have hindexed := run_indexed h hfirst
  refine ⟨fun p i ha => ?_, fun p i d he => ?_⟩
  · obtain ⟨hop, hloop⟩ := (hindexed p i).inRange ha
    exact ⟨hop, hloop⟩
  · have hpending : (w.info p i).pending ≠ 0 := pending_of_posted he.2.1
    have ha : Accepted es w p i := by
      by_contra hno
      exact hpending ((hindexed p i).idle hno)
    exact ⟨ha, onNext_inRange ((hindexed p i).inRange ha)⟩

/-- The program of a client, of three operations, is replaced by one of a single
operation while two handlers are queued, and a rejected `Play` and a pause follow. -/
def replacingEvents (i : Fin n) : List (Event n) :=
  [.play i.val [.playVoiceNumberClient, .playVoiceNumberClient, .playVoiceNumberClient] 2, .resumeAll,
    .onNext [] i zeroDraw, .onNext [] i zeroDraw, .play i.val [.playVoiceNumberClient] 0,
    .play i.val [] 0, .onNext [] i zeroDraw, .pauseAll, .onNext [] i zeroDraw]

theorem replacingEvents_playedFirst (i : Fin 1) : PlayedFirst (replacingEvents i) := by
  intro fs gs e hes he j
  obtain rfl : i = j := Subsingleton.elim i j
  refine ⟨[.playVoiceNumberClient, .playVoiceNumberClient, .playVoiceNumberClient], 2, ?_, by decide⟩
  cases fs with
  | nil =>
    obtain ⟨rfl, -⟩ := List.cons.inj hes
    simp at he
  | cons f fs =>
    obtain ⟨rfl, -⟩ := List.cons.inj hes
    exact List.mem_cons_self

theorem op_index_in_range_replaced : ∃ w : World 1,
    Machine.Run (machine quietEnv) (start (fun _ => .init) (some [])) (replacingEvents 0) w ∧
      (w.info [] 0).posted = 2 ∧ (w.info [] 0).data.length = 1 ∧
      (w.info [] 0).opIndex < (w.info [] 0).data.length := by
  obtain ⟨w, hw, hp⟩ := Machine.exec_exists (machine quietEnv) (start (fun _ => .init) (some []))
    (replacingEvents 0) (fun w : World 1 => (w.info [] 0).posted = 2 ∧ (w.info [] 0).data.length = 1)
    (by decide +kernel)
  obtain ⟨hposted, hlen⟩ : (w.info [] 0).posted = 2 ∧ (w.info [] 0).data.length = 1 := by simpa using hp
  have haccepted : Accepted (replacingEvents 0) w [] 0 :=
    ⟨[.playVoiceNumberClient], 0, by simp [replacingEvents], by decide⟩
  exact ⟨w, hw, hposted, hlen,
    ((op_index_in_range quietEnv hw (replacingEvents_playedFirst 0)).1 [] 0 haccepted).1⟩

end World
