import Zakuro.Generator
import Zakuro.MessageCounters
import Zakuro.ProgramLoop
import Zakuro.TimedWorld

/-!
# The pace of an instance

How dense the messages, the connections and the sessions of an instance are while
nothing is paused, whatever its clock, its sessions and its handlers do.
-/

/-- The operation sends on a label. -/
def Op.sendsOn (label : String) : Op → Bool
  | .sendDataChannelMessage l _ _ => l == label
  | _ => false

def Op.isReconnect : Op → Bool
  | .reconnect => true
  | _ => false

def Op.isDisconnect : Op → Bool
  | .disconnect => true
  | _ => false

/-- The number is one that an `int` holds. -/
def IsInt (x : Int) : Prop := -2 ^ 31 ≤ x ∧ x < 2 ^ 31

/-- What the source holds in an `int` is one, for each of the clients. -/
structure ZakuroConfig.Ints (cfg : ZakuroConfig) (n : Nat) : Prop where
  firstWait : ∀ i < n, IsInt (cfg.firstWaitMs i)
  duration : IsInt cfg.duration.ms
  repeatInterval : IsInt cfg.repeatInterval.ms
  interval : ∀ ch ∈ cfg.channels, IsInt ch.interval

namespace TimedWorld

open ScenarioPlayer History Unrolling

variable {n : Nat} {env : Env} {cfg : ZakuroConfig} {s : TimedWorld n}

/-! ## Behind a sleep -/

theorem sleepMs_same {ms : Int} (h : IsInt ms) (rand : Nat) : Op.sleepMs rand ms ms = some ms := by
  have hone : CData.toSize (CData.toInt (ms - ms + 1)) = 1 := by
    rw [Int.sub_self]
    decide
  obtain ⟨hlow, hhigh⟩ := h
  rw [Op.sleepMs, hone, if_neg (by decide), Nat.mod_one, Int.natCast_zero, Int.zero_add,
    CData.toInt64_of_range (by omega) (by omega)]

/-- What is executed behind a sleep comes later than all before the sleep by as
much as the sleep says. -/
theorem Punctual.behind {p : PlayerPath} {i : Fin n} (h : Punctual p i s) {init after : List (Op × Int)}
    {ms u : Int} {x : Op × Int} (hms : IsInt ms)
    (hentries : s.entriesOf p i = (init ++ [(.sleep ms ms, u)]) ++ x :: after) :
    u + ns ms ≤ x.2 ∧ ∀ y ∈ init ++ [(.sleep ms ms, u)], y.1.isSleep = false → y.2 + ns ms ≤ x.2 := by
  obtain ⟨rand, d, hd, hover⟩ := h.kept _ x after hentries init ms ms u rfl
  obtain rfl := Option.some.inj ((sleepMs_same hms rand).symm.trans hd)
  refine ⟨hover, fun y hy hawake => ?_⟩
  rcases List.mem_append.mp hy with hy | hy
  · have hordered := h.ordered
    rw [hentries] at hordered
    have hinit := (List.pairwise_append.mp (List.pairwise_append.mp hordered).1).2.2
    have hle := hinit y hy (.sleep ms ms, u) (List.mem_singleton_self _)
    dsimp only at hle
    omega
  · rw [List.mem_singleton.mp hy] at hawake
    cases hawake

/-- Entries that each come behind a sleep are spaced. -/
theorem spaced_of_behind {α : Type} {entries : List (α × Int)} {q : α → Bool} {d : Int}
    (h : ∀ before x after, entries = before ++ x :: after → q x.1 = true →
      ∀ y ∈ before, q y.1 = true → y.2 + d ≤ x.2) :
    Spaced d ((entries.filter fun x => q x.1).map Prod.snd) := by
  induction entries using List.reverseRecOn with
  | nil => exact List.Pairwise.nil
  | append_singleton entries x ih =>
    have hinit := ih fun before y after heq hy =>
      h before y (after ++ [x]) (by rw [heq, List.append_assoc, List.cons_append]) hy
    rw [List.filter_append, List.map_append]
    cases hq : q x.1 with
    | false =>
      rw [List.filter_cons_of_neg (by simp [hq]), List.filter_nil, List.map_nil, List.append_nil]
      exact hinit
    | true =>
      rw [List.filter_cons_of_pos (by simp [hq]), List.filter_nil, List.map_singleton]
      refine hinit.snoc fun a ha => ?_
      obtain ⟨y, hy, rfl⟩ := List.mem_map.mp ha
      obtain ⟨hmem, hqy⟩ := List.mem_filter.mp hy
      exact h entries x [] rfl hq y hmem hqy

/-- What is executed follows the program. -/
theorem entry_of_unroll {entries init after : List (Op × Int)} {program : List Op} {l k : Nat}
    (hl : l < program.length) (hops : entries.map Prod.fst = unroll program l k) {x : Op × Int}
    (hentries : entries = init ++ x :: after) :
    program[index program.length l init.length]? = some x.1 := by
  have hk : init.length < k := by
    have hlen := congrArg List.length hops
    rw [unroll_length hl, List.length_map, hentries, List.length_append, List.length_cons] at hlen
    omega
  rw [← unroll_getElem? hl hk, ← hops, hentries, List.map_append,
    List.getElem?_append_right (by rw [List.length_map]), List.length_map, Nat.sub_self]
  rfl

/-! ## Messages -/

/-- The times at which messages of a client are sent on a label. -/
def sendTimes (s : TimedWorld n) (i : Fin n) (label : String) : List Int :=
  (s.log.filter fun x => x.1.client = i ∧ x.1.op.sendsOn label).map Prod.snd

/-- The messages on a label are those of the player that is named after it. -/
structure Addressed (cfg : ZakuroConfig) (s : TimedWorld n) : Prop where
  tree : World.Tree cfg s.world
  owned : ∀ p i, World.Owned p (s.world.info p i).data
  path : ∀ x ∈ s.log, ∀ label, x.1.op.sendsOn label = true → x.1.path = ["scenario-dcs-" ++ label]

theorem unplayed_of_unpaused {e : World.Event n} (h : World.Unpaused e) : World.Unplayed e := by
  cases e with
  | play clientId data l => exact h.elim
  | _ => trivial

theorem Addressed.step {t : TimedWorld n} {e : Event n} (h : Addressed cfg s)
    (hqueued : World.Queued env s.world e.event) (hunpaused : World.Unpaused e.event)
    (hs : Stepped env s e t) : Addressed cfg t := by
  have hunplayed := unplayed_of_unpaused hunpaused
  refine ⟨World.step_tree h.tree hqueued hunplayed hs.world,
    World.step_owned h.tree h.owned hqueued hunplayed hs.world, fun x hx label hsends => ?_⟩
  rw [hs.log] at hx
  rcases List.mem_append.mp hx with hx | hx
  · exact h.path x hx label hsends
  · obtain ⟨y, hy, rfl⟩ := List.mem_map.mp hx
    rcases World.step_executed hs.world with ⟨q, j, d, op, -, hop, hexec⟩ | ⟨-, hexec⟩
    · rw [hexec, List.drop_left, List.mem_singleton] at hy
      subst hy
      cases op with
      | sendDataChannelMessage l lo hi =>
        obtain rfl : l = label := by simpa [Op.sendsOn] using hsends
        exact h.owned q j l lo hi (List.mem_of_getElem? hop)
      | _ => cases hsends
    · rw [hexec, List.drop_length] at hy
      exact absurd hy List.not_mem_nil

theorem runs_addressed {t0 : Int} {es : List (Event n)}
    (h : Machine.Run (unpaused env) (run n cfg t0) es s) : Addressed cfg s := by
  refine h.invariant (I := Addressed cfg) ?_
    ⟨World.run_tree cfg, (World.run_numbering cfg).owned, fun x hx => absurd hx List.not_mem_nil⟩
  rintro s e t hI ⟨⟨-, -, -, hqueued⟩, hunpaused⟩ hs
  exact hI.step hqueued hunpaused (step_cases hs)

theorem Addressed.sendTimes_eq (h : Addressed cfg s) (i : Fin n) (ch : DataChannel) :
    s.sendTimes i ch.label =
      ((s.entriesOf (World.channelPath ch) i).filter fun x => x.1.sendsOn ch.label).map Prod.snd := by
  rw [sendTimes, entriesOf, List.filter_map, List.map_map, List.filter_filter]
  congr 1
  apply List.filter_congr
  intro x hx
  rw [Bool.eq_iff_iff]
  simp only [decide_eq_true_eq, Bool.decide_and, Bool.and_eq_true, Function.comp_apply]
  constructor
  · rintro ⟨hclient, hsends⟩
    exact ⟨hsends, h.path x hx ch.label hsends, hclient⟩
  · rintro ⟨hsends, -, hclient⟩
    exact ⟨hclient, hsends⟩

/-- A message of a channel comes behind a sleep of its interval. -/
theorem behind_interval {i : Fin n} {ch : DataChannel} {t0 : Int} (hrecorded : Recorded t0 s)
    (hsending : World.Sending cfg ch i s.world) {before after : List (Op × Int)} {x : Op × Int}
    (hentries : s.entriesOf (World.channelPath ch) i = before ++ x :: after)
    (hsends : x.1.sendsOn ch.label = true) :
    ∃ init u, before = init ++ [(.sleep ch.interval ch.interval, u)] := by
  have hops := hrecorded.ops (World.channelPath ch) i
  rcases hsending.sub with ⟨-, hfresh⟩ | ⟨-, k, hk⟩
  · rw [show s.world.opsOf (World.channelPath ch) i = [] from hfresh.executed, hentries] at hops
    simp at hops
  · have hl := World.channelData_loop ch
    have hunroll := hops.trans hk.executed
    have hx := entry_of_unroll hl hunroll hentries
    rw [index_zero] at hx
    rcases List.eq_nil_or_concat' before with rfl | ⟨init, ⟨op, u⟩, rfl⟩
    · -- the first operation is the sleep
      rw [← Option.some.inj hx] at hsends
      cases hsends
    · have hpair : s.entriesOf (World.channelPath ch) i = init ++ (op, u) :: (x :: after) := by
        rw [hentries, List.append_assoc]
        rfl
      have hz := entry_of_unroll hl hunroll hpair
      rw [index_zero] at hz
      rw [List.length_append, List.length_singleton] at hx
      have hlen : (World.channelData ch).length = 2 := rfl
      rw [hlen] at hx hz
      rcases Nat.mod_two_eq_zero_or_one init.length with heven | hodd
      · rw [heven] at hz
        obtain rfl : Op.sleep ch.interval ch.interval = op := Option.some.inj hz
        exact ⟨init, u, rfl⟩
      · rw [Nat.add_mod, hodd] at hx
        rw [← (Option.some.inj hx : Op.sleep ch.interval ch.interval = x.1)] at hsends
        cases hsends

/-- However the clock, the clients and their sessions go, no client sends its first
message on a channel before the interval of the channel, and in no window of `k`
intervals more than `k` messages. -/
theorem channels_paced (hd : World.Drives cfg) (hints : cfg.Ints n) {ch : DataChannel}
    (hch : ch ∈ cfg.channels) {t0 : Int} {es : List (Event n)}
    (h : Machine.Run (unpaused env) (run n cfg t0) es s) (i : Fin n) :
    (∀ u ∈ s.sendTimes i ch.label, t0 + ns ch.interval ≤ u) ∧
      ∀ (u : Int) (k : Nat), ((s.sendTimes i ch.label).filter fun v =>
        u ≤ v ∧ v < u + k * ns ch.interval).length ≤ k := by
  obtain ⟨hrecorded, hsending, hpunctual⟩ := runs_channel hd hch h i
  have hms := hints.interval ch hch
  rw [(runs_addressed h).sendTimes_eq]
  constructor
  · intro u hu
    obtain ⟨x, hx, rfl⟩ := List.mem_map.mp hu
    obtain ⟨hmem, hsends⟩ := List.mem_filter.mp hx
    obtain ⟨before, after, hentries⟩ := List.append_of_mem hmem
    obtain ⟨init, v, rfl⟩ := behind_interval hrecorded hsending hentries hsends
    have hsince : t0 ≤ v := by
      apply hrecorded.entriesOf_since (p := World.channelPath ch) (i := i) (x := (_, v))
      rw [hentries]
      exact List.mem_append_left _ (List.mem_append_right _ (List.mem_singleton_self _))
    have hlater := (hpunctual.behind hms hentries).1
    omega
  · have hspaced := spaced_of_behind (q := Op.sendsOn ch.label) (d := ns ch.interval)
      fun before x after hentries hsends y hy hsendsy => by
        obtain ⟨init, v, rfl⟩ := behind_interval hrecorded hsending hentries hsends
        apply (hpunctual.behind hms hentries).2 y hy
        cases hop : y.1 with
        | sleep lo hi => simp [hop, Op.sendsOn] at hsendsy
        | _ => rfl
    exact hspaced.window

/-- An operation of a player, its sleep, and the going on, ten nanoseconds late each. -/
def slept (p : PlayerPath) (i : Fin n) (time ms : Int) : List (Event n) :=
  [⟨time, .onNext p i World.zeroDraw⟩, ⟨time + ns ms, .sleepExpired p i⟩,
    ⟨time + ns ms + 10, .sleepReady p i⟩]

/-- A client is connected, and sends two messages on its channel. -/
def pacedEvents (i : Fin n) : List (Event n) :=
  slept [] i 5 0 ++ [⟨20, .onNext [] i World.zeroDraw⟩, ⟨25, .onNext [] i World.zeroDraw⟩] ++
    slept World.sendingPath i 30 100 ++ [⟨ns 100 + 50, .onNext World.sendingPath i World.zeroDraw⟩] ++
    slept World.sendingPath i (ns 100 + 60) 100 ++
    [⟨ns 200 + 80, .onNext World.sendingPath i World.zeroDraw⟩]

theorem channels_paced_two : ∃ s : TimedWorld 1,
    Machine.Run (unpaused World.quietEnv) (run 1 World.sendingConfig 5) (pacedEvents 0) s ∧
      s.sendTimes 0 "#a" = [ns 100 + 50, ns 200 + 80] ∧
      ∀ (u : Int) (k : Nat), ((s.sendTimes 0 "#a").filter fun v => u ≤ v ∧ v < u + k * ns 100).length ≤ k := by
  obtain ⟨s, hs, hp⟩ := Machine.exec_exists (unpaused World.quietEnv) (run 1 World.sendingConfig 5)
    (pacedEvents 0) (fun s => s.sendTimes 0 "#a" == [ns 100 + 50, ns 200 + 80]) (by decide +kernel)
  have hone : (⟨"#a", 100, 48, 48⟩ : DataChannel) ∈ World.sendingConfig.channels := List.mem_singleton_self _
  have hzero : IsInt 0 := ⟨by decide, by decide⟩
  have hints : World.sendingConfig.Ints 1 := by
    refine ⟨fun _ _ => hzero, hzero, hzero, fun ch hch => ?_⟩
    rw [List.mem_singleton.mp hch]
    exact ⟨by decide, by decide⟩
  have hlabels : (World.sendingConfig.channels.map DataChannel.label).Nodup := List.nodup_singleton "#a"
  exact ⟨s, hs, by simpa using hp, (channels_paced ⟨hlabels, by decide⟩ hints hone hs 0).2⟩

/-! ## Sessions -/

/-- The instance disconnects its clients, and connects them again. -/
structure Cycling (cfg : ZakuroConfig) : Prop where
  standard : ¬ cfg.Reconnecting
  duration : cfg.duration.isZero = false
  repeatInterval : cfg.repeatInterval.isZero = false

/-- The loop of such an instance, and where its program connects and disconnects. -/
structure Cycle (cfg : ZakuroConfig) (i l : Nat) : Prop where
  length : (cfg.program i).length = l + 4
  inside : 1 < l
  session : (cfg.program i)[l]? = some (.sleep cfg.duration.ms cfg.duration.ms)
  disconnect : (cfg.program i)[l + 1]? = some .disconnect
  pause : (cfg.program i)[l + 2]? = some (.sleep cfg.repeatInterval.ms cfg.repeatInterval.ms)
  disconnects : ∀ (k : Nat) op, (cfg.program i)[k]? = some op → op.isDisconnect = true → k = l + 1
  reconnects : ∀ (k : Nat) op, (cfg.program i)[k]? = some op → op.isReconnect = true →
    k = 1 ∨ k = l + 3

theorem Cycling.cycle (h : Cycling cfg) (i : Nat) : Cycle cfg i cfg.loopIndex := by
  obtain ⟨hprogram, hl⟩ := World.program_standard h.standard i
  have hadd : cfg.addReconnectScenario = [.sleep cfg.duration.ms cfg.duration.ms, .disconnect,
      .sleep cfg.repeatInterval.ms cfg.repeatInterval.ms, .reconnect] := by
    rw [ZakuroConfig.addReconnectScenario, h.duration, h.repeatInterval]
    rfl
  rw [hadd] at hprogram
  have hloop : ∀ k, (cfg.program i)[cfg.subs.length + 2 + k]? = [Op.sleep cfg.duration.ms cfg.duration.ms,
      .disconnect, .sleep cfg.repeatInterval.ms cfg.repeatInterval.ms, .reconnect][k]? := by
    intro k
    have hindex : cfg.subs.length + 2 + k = cfg.subs.length + k + 1 + 1 := by omega
    rw [hprogram, hindex, List.getElem?_cons_succ, List.getElem?_cons_succ,
      List.getElem?_append_right (by omega), Nat.add_sub_cancel_left]
  have hsub : ∀ (k : Nat) op, (cfg.program i)[k]? = some op → op.isSub = false →
      k = 0 ∨ k = 1 ∨ ∃ c, k = cfg.subs.length + 2 + c := by
    intro k op hop hnot
    have hiff := World.program_isSub cfg hop
    rw [hnot, hl] at hiff
    rcases Nat.lt_or_ge k (cfg.subs.length + 2) with hlt | hge
    · have hk : ¬ 2 ≤ k := fun hle => Bool.false_ne_true (hiff.mpr ⟨hle, hlt⟩)
      omega
    · exact .inr (.inr (Nat.exists_eq_add_of_le hge))
  obtain ⟨hzero, hone⟩ := World.program_start cfg i
  rw [hl]
  refine ⟨?_, by omega, hloop 0, hloop 1, hloop 2, fun k op hop hdisconnect => ?_, fun k op hop hreconnect => ?_⟩
  · rw [hprogram, List.length_cons, List.length_cons, List.length_append]
    rfl
  · obtain rfl : op = .disconnect := by
      cases op with
      | disconnect => rfl
      | _ => cases hdisconnect
    rcases hsub k .disconnect hop rfl with rfl | rfl | ⟨c, rfl⟩
    · rw [hzero] at hop
      cases hop
    · rw [hone] at hop
      cases hop
    · rw [hloop] at hop
      rcases c with _ | _ | _ | _ | c
      · cases hop
      · rfl
      · cases hop
      · cases hop
      · cases hop
  · obtain rfl : op = .reconnect := by
      cases op with
      | reconnect => rfl
      | _ => cases hreconnect
    rcases hsub k .reconnect hop rfl with rfl | rfl | ⟨c, rfl⟩
    · rw [hzero] at hop
      cases hop
    · exact .inl rfl
    · rw [hloop] at hop
      rcases c with _ | _ | _ | _ | c
      · cases hop
      · cases hop
      · cases hop
      · exact .inr (by omega)
      · cases hop

/-- What is executed before an operation that the loop does not begin with. -/
theorem predecessor {entries before after : List (Op × Int)} {program : List Op} {l k m : Nat}
    (hl : l < program.length) (hops : entries.map Prod.fst = unroll program l m) {x : Op × Int}
    (hentries : entries = before ++ x :: after) (hindex : index program.length l before.length = k + 1)
    (hk : k + 1 ≠ l) : ∃ init z, before = init ++ [z] ∧ index program.length l init.length = k ∧
      program[k]? = some z.1 := by
  rcases List.eq_nil_or_concat' before with rfl | ⟨init, z, rfl⟩
  · rw [List.length_nil, index_of_lt l (Nat.zero_lt_of_lt hl)] at hindex
    cases hindex
  · have hsplit : entries = init ++ z :: (x :: after) := by rw [hentries, List.append_assoc]; rfl
    have hz := entry_of_unroll hl hops hsplit
    rw [List.length_append, List.length_singleton, index_succ hl] at hindex
    split at hindex
    next => exact absurd hindex.symm hk
    next =>
      have hinit : index program.length l init.length = k := Nat.succ.inj hindex
      exact ⟨init, z, rfl, hinit, hinit ▸ hz⟩

section Cycle

variable {i : Fin n} {l m : Nat} {entries before after : List (Op × Int)} {x : Op × Int}

/-- Where an operation that was executed stands in the program. -/
theorem Cycle.entry (h : Cycle cfg i.val l) (hops : entries.map Prod.fst = unroll (cfg.program i.val) l m)
    (hentries : entries = before ++ x :: after) :
    (cfg.program i.val)[index (cfg.program i.val).length l before.length]? = some x.1 :=
  entry_of_unroll (by rw [h.length]; omega) hops hentries

/-- A `Disconnect` comes behind a sleep of the duration. -/
theorem Cycle.behind_session (h : Cycle cfg i.val l)
    (hops : entries.map Prod.fst = unroll (cfg.program i.val) l m)
    (hentries : entries = before ++ x :: after) (hx : x.1.isDisconnect = true) :
    ∃ init u, before = init ++ [(.sleep cfg.duration.ms cfg.duration.ms, u)] := by
  have hl : l < (cfg.program i.val).length := by rw [h.length]; omega
  have hindex := h.disconnects _ _ (h.entry hops hentries) hx
  obtain ⟨init, ⟨op, u⟩, rfl, -, hop⟩ := predecessor hl hops hentries hindex (Nat.succ_ne_self l)
  obtain rfl := Option.some.inj (h.session.symm.trans hop)
  exact ⟨init, u, rfl⟩

/-- A later `Reconnect` comes behind a sleep of the repeat interval, and that
behind a `Disconnect`. -/
theorem Cycle.behind_pause (h : Cycle cfg i.val l)
    (hops : entries.map Prod.fst = unroll (cfg.program i.val) l m)
    (hentries : entries = before ++ x :: after) (hx : x.1.isReconnect = true) (hlater : 1 < before.length) :
    ∃ init z u, z.1.isDisconnect = true ∧
      before = (init ++ [z]) ++ [(.sleep cfg.repeatInterval.ms cfg.repeatInterval.ms, u)] := by
  have hl : l < (cfg.program i.val).length := by rw [h.length]; omega
  have hinside := h.inside
  have hindex : index (cfg.program i.val).length l before.length = l + 2 + 1 := by
    rcases h.reconnects _ _ (h.entry hops hentries) hx with hone | hend
    · have hfirst := (index_eq_iff hl hinside).mp hone
      omega
    · exact hend
  obtain ⟨init, ⟨op, u⟩, rfl, hinit, hop⟩ := predecessor hl hops hentries hindex (by omega)
  obtain rfl := Option.some.inj (h.pause.symm.trans hop)
  rw [List.append_assoc] at hentries
  obtain ⟨init, ⟨op, v⟩, rfl, -, hop⟩ := predecessor hl hops (k := l + 1) hentries hinit (by omega)
  obtain rfl := Option.some.inj (h.disconnect.symm.trans hop)
  exact ⟨init, _, u, rfl, rfl⟩

/-- Only the wait comes before the first `Reconnect`. -/
theorem Cycle.first (h : Cycle cfg i.val l) (hops : entries.map Prod.fst = unroll (cfg.program i.val) l m)
    (hentries : entries = before ++ x :: after) (hfirst : before.length ≤ 1) {y : Op × Int}
    (hy : y ∈ before) : y.1 = .sleep (cfg.firstWaitMs i.val) (cfg.firstWaitMs i.val) := by
  obtain ⟨init, rest, rfl⟩ := List.append_of_mem hy
  have hnil : init = [] := by
    rw [List.length_append, List.length_cons] at hfirst
    exact List.length_eq_zero_iff.mp (by omega)
  subst hnil
  rw [List.append_assoc, List.cons_append] at hentries
  have hop := h.entry hops hentries
  rw [List.length_nil, index_of_lt l (by rw [h.length]; omega), (World.program_start cfg i.val).1] at hop
  exact (Option.some.inj hop).symm

end Cycle

/-- The times at which the main player connects a client. -/
def connectTimes (s : TimedWorld n) (i : Fin n) : List Int :=
  ((s.entriesOf [] i).filter fun x => x.1.isReconnect).map Prod.snd

/-- What is executed for a client of an instance that connects its clients again
and again: a session has its duration before it is disconnected, and its client
rests for the repeat interval before it is connected again. -/
structure Lasting (cfg : ZakuroConfig) (before : List (Op × Int)) (x : Op × Int) : Prop where
  session : x.1.isDisconnect = true → ∀ y ∈ before, y.1.isReconnect = true →
    y.2 + ns cfg.duration.ms ≤ x.2
  pause : x.1.isReconnect = true → ∀ y ∈ before, y.1.isDisconnect = true →
    y.2 + ns cfg.repeatInterval.ms ≤ x.2
  period : x.1.isReconnect = true → ∀ y ∈ before, y.1.isReconnect = true →
    y.2 + (ns cfg.duration.ms + ns cfg.repeatInterval.ms) ≤ x.2

theorem not_sleep_of_isReconnect {op : Op} (h : op.isReconnect = true) : op.isSleep = false := by
  cases op with
  | reconnect => rfl
  | _ => cases h

theorem not_sleep_of_isDisconnect {op : Op} (h : op.isDisconnect = true) : op.isSleep = false := by
  cases op with
  | disconnect => rfl
  | _ => cases h

/-- Sessions have their duration, and clients rest between them, whatever the
clock, the sessions and the handlers do; in no window of `k` cycles a client is
connected more than `k` times. -/
theorem sessions_timed (hcycling : Cycling cfg) (hints : cfg.Ints n) {t0 : Int} {es : List (Event n)}
    (h : Machine.Run (unpaused env) (run n cfg t0) es s) (i : Fin n) :
    Each (Lasting cfg) (s.entriesOf [] i) ∧
      ∀ (u : Int) (k : Nat), ((s.connectTimes i).filter fun v =>
        u ≤ v ∧ v < u + k * (ns cfg.duration.ms + ns cfg.repeatInterval.ms)).length ≤ k := by
  obtain ⟨hrecorded, ⟨m, hm⟩, hpunctual⟩ := runs_main h i
  have hcycle := hcycling.cycle i.val
  have hops := (hrecorded.ops [] i).trans hm.executed
  have hsession : ∀ before x after, s.entriesOf [] i = before ++ x :: after → x.1.isDisconnect = true →
      ∀ y ∈ before, y.1.isReconnect = true → y.2 + ns cfg.duration.ms ≤ x.2 := by
    intro before x after hentries hx y hy hreconnect
    obtain ⟨init, u, rfl⟩ := hcycle.behind_session hops hentries hx
    exact (hpunctual.behind hints.duration hentries).2 y hy (not_sleep_of_isReconnect hreconnect)
  have hlasting : Each (Lasting cfg) (s.entriesOf [] i) := by
    intro before x after hentries
    rcases Nat.lt_or_ge 1 before.length with hlater | hfirst
    · refine ⟨hsession before x after hentries, fun hx y hy hdisconnect => ?_, fun hx y hy hreconnect => ?_⟩
      · obtain ⟨init, z, u, -, rfl⟩ := hcycle.behind_pause hops hentries hx hlater
        exact (hpunctual.behind hints.repeatInterval hentries).2 y hy (not_sleep_of_isDisconnect hdisconnect)
      · obtain ⟨init, z, u, hz, rfl⟩ := hcycle.behind_pause hops hentries hx hlater
        have hmem : z ∈ (init ++ [z]) ++ [(.sleep cfg.repeatInterval.ms cfg.repeatInterval.ms, u)] := by simp
        have hrest := (hpunctual.behind hints.repeatInterval hentries).2 z hmem (not_sleep_of_isDisconnect hz)
        have hinit : y ∈ init := by
          rcases List.mem_append.mp hy with hy | hy
          · rcases List.mem_append.mp hy with hy | hy
            · exact hy
            · rw [List.mem_singleton.mp hy] at hreconnect
              cases hop : z.1 <;> simp [hop, Op.isReconnect, Op.isDisconnect] at hreconnect hz
          · rw [List.mem_singleton.mp hy] at hreconnect
            cases hreconnect
        rw [List.append_assoc, List.append_assoc, List.singleton_append] at hentries
        have hlast := hsession init z _ hentries hz y hinit hreconnect
        omega
    · have hwait := fun y hy => hcycle.first hops hentries hfirst (y := y) hy
      refine ⟨hsession before x after hentries, fun _ y hy hdisconnect => ?_, fun _ y hy hreconnect => ?_⟩
      · rw [hwait y hy] at hdisconnect
        cases hdisconnect
      · rw [hwait y hy] at hreconnect
        cases hreconnect
  refine ⟨hlasting, ?_⟩
  exact (spaced_of_behind (q := Op.isReconnect) fun before x after hentries hx =>
    (hlasting before x after hentries).period hx).window

/-- Two clients half a second apart, which are connected for a second each time. -/
def cyclingConfig : ZakuroConfig where
  fakeAudioCapture := true
  noAudioDevice := false
  scenario := .standard
  duration := ⟨false, 1000⟩
  repeatInterval := ⟨false, 500⟩
  firstWaitMs i := 500 * i
  channels := []

theorem cyclingConfig_ints : cyclingConfig.Ints 2 where
  firstWait i hi := by
    rw [IsInt, cyclingConfig]
    dsimp only
    omega
  duration := ⟨by decide, by decide⟩
  repeatInterval := ⟨by decide, by decide⟩
  interval _ hch := absurd hch List.not_mem_nil

/-- The first client is connected, disconnected, and connected again. -/
def cyclingEvents (i : Fin n) : List (Event n) :=
  slept [] i 0 0 ++ [⟨10, .onNext [] i World.zeroDraw⟩] ++ slept [] i 20 1000 ++
    [⟨ns 1000 + 30, .onNext [] i World.zeroDraw⟩] ++ slept [] i (ns 1000 + 40) 500 ++
    [⟨ns 1500 + 50, .onNext [] i World.zeroDraw⟩]

theorem sessions_timed_twice : ∃ s : TimedWorld 2,
    Machine.Run (unpaused World.quietEnv) (run 2 cyclingConfig 0) (cyclingEvents 0) s ∧
      s.connectTimes 0 = [10, ns 1500 + 50] ∧ Each (Lasting cyclingConfig) (s.entriesOf [] 0) := by
  obtain ⟨s, hs, hp⟩ := Machine.exec_exists (unpaused World.quietEnv) (run 2 cyclingConfig 0)
    (cyclingEvents 0) (fun s => s.connectTimes 0 == [10, ns 1500 + 50]) (by decide +kernel)
  exact ⟨s, hs, by simpa using hp, (sessions_timed ⟨by decide, rfl, rfl⟩ cyclingConfig_ints hs 0).1⟩

end TimedWorld
