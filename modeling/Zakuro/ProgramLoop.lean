import Zakuro.ChannelScenarios

/-!
# The loop of the program

What `Zakuro::Run` says with its loop index, for each of its branches, and what
follows for a client: where its passes through the loop begin, that none of them
starts a sub-scenario again, and that each of them sleeps.
-/

def Op.isSub : Op → Bool
  | .playSubScenario _ _ _ => true
  | _ => false

namespace ZakuroConfig

/-- The sub-scenarios of a program, which follow its first `Reconnect`. -/
def subs (cfg : ZakuroConfig) : List Op :=
  cfg.dcsData ++ if cfg.fakeAudioCapture then [] else [voiceScenario]

end ZakuroConfig

namespace World

open ScenarioPlayer ClientInfo Unrolling

variable {n : Nat}

/-! ## The program -/

theorem program_reconnecting {cfg : ZakuroConfig} (h : cfg.Reconnecting) (i : Nat) :
    ∃ rest, cfg.program i = .sleep (cfg.firstWaitMs i) (cfg.firstWaitMs i) :: .reconnect ::
      .sleep 1000 5000 :: rest ∧ (∀ op ∈ rest, op.isSub = false) ∧ cfg.loopIndex = 1 := by
  rw [ZakuroConfig.program, ZakuroConfig.loopIndex, ZakuroConfig.data_reconnecting h]
  exact ⟨_, rfl, by simp [Op.isSub], rfl⟩

theorem addReconnectScenario_sleep (cfg : ZakuroConfig) :
    ∃ ms rest, cfg.addReconnectScenario = .sleep ms ms :: rest ∧ ∀ op ∈ rest, op.isSub = false := by
  rw [ZakuroConfig.addReconnectScenario]
  split
  · exact ⟨_, [], rfl, by simp⟩
  · split
    · exact ⟨_, _, rfl, by simp [Op.isSub]⟩
    · exact ⟨_, _, rfl, by simp [Op.isSub]⟩

theorem subs_isSub (cfg : ZakuroConfig) : ∀ op ∈ cfg.subs, op.isSub = true := by
  intro op hop
  rcases List.mem_append.mp hop with hop | hop
  · obtain ⟨ch, -, rfl⟩ := dcsData_sub hop
    rfl
  · split at hop
    · exact absurd hop List.not_mem_nil
    · obtain rfl := List.mem_singleton.mp hop
      rfl

theorem program_standard {cfg : ZakuroConfig} (h : ¬ cfg.Reconnecting) (i : Nat) :
    cfg.program i = .sleep (cfg.firstWaitMs i) (cfg.firstWaitMs i) :: .reconnect ::
      (cfg.subs ++ cfg.addReconnectScenario) ∧ cfg.loopIndex = cfg.subs.length + 2 := by
  have hopening : cfg.opening = .reconnect :: cfg.subs := rfl
  constructor
  · rw [program_of_branch h, hopening, List.cons_append]
  · rw [ZakuroConfig.loopIndex, ZakuroConfig.data_standard h, hopening, List.length_cons]

/-- The operations that every program begins with. -/
theorem program_start (cfg : ZakuroConfig) (i : Nat) :
    (cfg.program i)[0]? = some (.sleep (cfg.firstWaitMs i) (cfg.firstWaitMs i)) ∧
      (cfg.program i)[1]? = some .reconnect := by
  by_cases h : cfg.Reconnecting
  · obtain ⟨rest, hprogram, -, -⟩ := program_reconnecting h i
    rw [hprogram]
    exact ⟨rfl, rfl⟩
  · rw [(program_standard h i).1]
    exact ⟨rfl, rfl⟩

/-- The sub-scenarios lie between the first `Reconnect` and the loop. -/
theorem program_isSub (cfg : ZakuroConfig) {i k : Nat} {op : Op} (hop : (cfg.program i)[k]? = some op) :
    op.isSub = true ↔ 2 ≤ k ∧ k < cfg.loopIndex := by
  by_cases h : cfg.Reconnecting
  · obtain ⟨rest, hprogram, hrest, hl⟩ := program_reconnecting h i
    have hnone : op.isSub = false := by
      rw [hprogram] at hop
      rcases List.mem_cons.mp (List.mem_of_getElem? hop) with rfl | hmem
      · rfl
      · rcases List.mem_cons.mp hmem with rfl | hmem
        · rfl
        · rcases List.mem_cons.mp hmem with rfl | hmem
          · rfl
          · exact hrest op hmem
    rw [hnone, hl]
    exact iff_of_false Bool.false_ne_true (by omega)
  · obtain ⟨hprogram, hl⟩ := program_standard h i
    obtain ⟨ms, rest, hadd, hrest⟩ := addReconnectScenario_sleep cfg
    rw [hprogram] at hop
    rw [hl]
    match k, hop with
    | 0, hop =>
      obtain rfl := Option.some.inj hop
      exact iff_of_false Bool.false_ne_true (by omega)
    | 1, hop =>
      obtain rfl := Option.some.inj hop
      exact iff_of_false Bool.false_ne_true (by omega)
    | k + 2, hop =>
      rw [List.getElem?_cons_succ, List.getElem?_cons_succ] at hop
      rcases Nat.lt_or_ge k cfg.subs.length with hk | hk
      · rw [List.getElem?_append_left hk] at hop
        exact iff_of_true (subs_isSub cfg op (List.mem_of_getElem? hop)) (by omega)
      · rw [List.getElem?_append_right hk, hadd] at hop
        refine iff_of_false ?_ (by omega)
        rcases List.mem_cons.mp (List.mem_of_getElem? hop) with rfl | hmem
        · exact Bool.false_ne_true
        · rw [hrest op hmem]
          exact Bool.false_ne_true

/-- What the loop begins with. -/
theorem program_loop (cfg : ZakuroConfig) (i : Nat) : ∃ op, (cfg.program i)[cfg.loopIndex]? = some op ∧
    (cfg.Reconnecting → op = .reconnect) ∧ (¬ cfg.Reconnecting → op.isSleep = true) := by
  by_cases h : cfg.Reconnecting
  · obtain ⟨rest, hprogram, -, hl⟩ := program_reconnecting h i
    exact ⟨.reconnect, by rw [hprogram, hl]; rfl, fun _ => rfl, fun hno => absurd h hno⟩
  · obtain ⟨hprogram, hl⟩ := program_standard h i
    obtain ⟨ms, rest, hadd, -⟩ := addReconnectScenario_sleep cfg
    refine ⟨.sleep ms ms, ?_, fun hyes => absurd hyes h, fun _ => rfl⟩
    rw [hprogram, hl, List.getElem?_cons_succ, List.getElem?_cons_succ, hadd,
      List.getElem?_append_right (Nat.le_refl _), Nat.sub_self]
    rfl

/-- A sleep in the loop. -/
theorem program_sleep (cfg : ZakuroConfig) (i : Nat) : ∃ k op, cfg.loopIndex ≤ k ∧
    k < (cfg.program i).length ∧ (cfg.program i)[k]? = some op ∧ op.isSleep = true := by
  by_cases h : cfg.Reconnecting
  · obtain ⟨rest, hprogram, -, hl⟩ := program_reconnecting h i
    refine ⟨2, .sleep 1000 5000, by omega, ?_, by rw [hprogram]; rfl, rfl⟩
    rw [hprogram]
    simp
  · obtain ⟨op, hop, -, hsleep⟩ := program_loop cfg i
    exact ⟨cfg.loopIndex, op, Nat.le_refl _, loopIndex_lt cfg i, hop, hsleep h⟩

/-! ## The trace -/

/-- The operations that the main player has executed for a client. -/
def entries (w : World n) (i : Fin n) : List (Execution n) :=
  w.executed.filter fun x => x.path = [] ∧ x.client = i

theorem entries_length (w : World n) (i : Fin n) : (w.entries i).length = (w.opsOf [] i).length := by
  rw [opsOf, List.length_map, entries]

theorem entries_append {w w' : World n} {x : Execution n} (h : w'.executed = w.executed ++ [x]) (i : Fin n) :
    w'.entries i = w.entries i ++ if x.path = [] ∧ x.client = i then [x] else [] := by
  rw [entries, entries, h, List.filter_append]
  by_cases hx : x.path = [] ∧ x.client = i
  · simp [hx]
  · simp [hx]

/-- A client walks through its program, and executes what it finds. -/
structure Walking (cfg : ZakuroConfig) (i : Fin n) (w : World n) : Prop where
  following : ∃ m, (w.slot [] i).Following (cfg.program i.val) cfg.loopIndex m
  walk : Walk (cfg.program i.val).length cfg.loopIndex ((w.entries i).map Execution.index)
  op : ∀ x ∈ w.entries i, (cfg.program i.val)[x.index]? = some x.op

/-- An `OnNext` of the client executes the operation of the next step. -/
theorem Walking.next {cfg : ZakuroConfig} {i : Fin n} {w : World n} (h : Walking cfg i w) {op : Op}
    (hposted : 0 < (w.info [] i).posted) (hop : (w.info [] i).current = some op) :
    (w.info [] i).opIndex = index (cfg.program i.val).length cfg.loopIndex (w.entries i).length ∧
      (cfg.program i.val)[(w.info [] i).opIndex]? = some op := by
  obtain ⟨m, hm⟩ := h.following
  have hindex : (w.info [] i).opIndex = index (cfg.program i.val).length cfg.loopIndex m := hm.placed.opIndex
  have hslot : (w.slot [] i).info.posted ≠ 0 := Nat.ne_of_gt hposted
  have hexecuted : w.opsOf [] i = unroll (cfg.program i.val) cfg.loopIndex m := by
    have htrace := hm.executed
    rwa [if_neg hslot] at htrace
  have hlen : (w.entries i).length = m := by
    rw [entries_length, hexecuted, unroll_length (loopIndex_lt cfg i.val)]
  refine ⟨by rw [hindex, hlen], ?_⟩
  have hdata : (w.info [] i).data = cfg.program i.val := hm.placed.data
  rw [← hdata]
  exact hop

theorem step_walking {cfg : ZakuroConfig} {env : Env} {i : Fin n} {w w' : World n} {e : Event n}
    (h : Walking cfg i w) (he : Queued env w e) (hc : Unpaused e) (hs : step env w e = .ok w') :
    Walking cfg i w' := by
  have hfollowing := main_step h.following he hc hs
  rcases step_executed hs with ⟨q, j, d, op, rfl, hop, hexec⟩ | ⟨-, hexec⟩
  · have hentries := entries_append hexec i
    by_cases hq : q = [] ∧ j = i
    · obtain ⟨rfl, rfl⟩ := hq
      obtain ⟨hindex, hcurrent⟩ := h.next he.1 hop
      rw [if_pos ⟨rfl, rfl⟩] at hentries
      refine ⟨hfollowing, ?_, fun x hx => ?_⟩
      · have hsnoc := h.walk.snoc
        rw [List.length_map, ← hindex] at hsnoc
        rw [hentries, List.map_append]
        exact hsnoc
      · rw [hentries] at hx
        rcases List.mem_append.mp hx with hx | hx
        · exact h.op x hx
        · obtain rfl := List.mem_singleton.mp hx
          exact hcurrent
    · rw [if_neg hq, List.append_nil] at hentries
      exact ⟨hfollowing, hentries ▸ h.walk, hentries ▸ h.op⟩
  · have hentries : w'.entries i = w.entries i := by rw [entries, entries, hexec]
    exact ⟨hfollowing, hentries ▸ h.walk, hentries ▸ h.op⟩

theorem runs_walking {env : Env} (cfg : ZakuroConfig) (i : Fin n) {w : World n} {es : List (Event n)}
    (h : Machine.Run ((machine env).restrict fun _ => Unpaused) (run n cfg) es w) : Walking cfg i w := by
  have hnil : (run n cfg).entries i = [] := by
    rw [entries, run, (foldl_play_same cfg (List.finRange n) (start (fun _ => .init) cfg.audios)).2.2]
    rfl
  refine h.invariant (I := Walking cfg i) ?_ ⟨⟨0, run_following cfg i⟩, ?_, ?_⟩
  · rintro w e w' hw ⟨⟨-, he⟩, hc⟩ hs
    exact step_walking hw he hc hs
  · rw [hnil]
    exact Walk.nil _ _
  · rw [hnil]
    exact fun x hx => absurd hx List.not_mem_nil

/-! ## The passes -/

/-- The operation that a later pass is to begin with: the `Reconnect` of the
scenario that only reconnects, else the sleep right behind the sub-scenarios. -/
def Intended (cfg : ZakuroConfig) (i : Nat) (x : Execution n) : Prop :=
  (cfg.Reconnecting → x.op = .reconnect ∧ x.index = 1) ∧
    (¬ cfg.Reconnecting → x.op.isSleep = true ∧
      ∀ (k : Nat) op, (cfg.program i)[k]? = some op → (op.isSub = true ↔ 2 ≤ k ∧ k < x.index))

/-- The last operation of a program. -/
def AtEnd (cfg : ZakuroConfig) (i : Nat) (x : Execution n) : Prop := x.index + 1 = (cfg.program i).length

/-- The operation with an index is executed after the first `Reconnect`. -/
def AfterReconnect (xs : List (Execution n)) (k : Nat) : Prop :=
  ∃ (a b : Nat) (x y : Execution n), a < b ∧ xs[a]? = some x ∧ x.op = .reconnect ∧
    (∀ c < a, ∀ z, xs[c]? = some z → z.op ≠ .reconnect) ∧ xs[b]? = some y ∧ y.index = k

/-- What is to be seen of a client that has executed the operations of a list. -/
structure Looping (cfg : ZakuroConfig) (i : Nat) (xs : List (Execution n)) : Prop where
  /-- Each operation is the one that the program has at its index. -/
  op : ∀ x ∈ xs, (cfg.program i)[x.index]? = some x.op
  subOnce : ∀ (k : Nat) op, (cfg.program i)[k]? = some op → op.isSub = true →
    (xs.map Execution.index).count k ≤ 1
  /-- Behind the end, each sub-scenario has been started, after the first `Reconnect`. -/
  subReached : (∃ x ∈ xs, AtEnd cfg i x) → ∀ (k : Nat) op, (cfg.program i)[k]? = some op →
    op.isSub = true → (xs.map Execution.index).count k = 1 ∧ AfterReconnect xs k
  restart : ∀ (a : Nat) x y, xs[a]? = some x → AtEnd cfg i x → xs[a + 1]? = some y →
    Intended cfg i y
  /-- A pass from the beginning of the loop to the end of the program. -/
  sleeps : ∀ (a b : Nat) x y, a ≤ b → xs[a]? = some x → x.index = cfg.loopIndex →
    xs[b]? = some y → AtEnd cfg i y →
    ∃ c z, a ≤ c ∧ c ≤ b ∧ xs[c]? = some z ∧ z.op.isSleep = true

theorem index_getElem? {xs : List (Execution n)} {a : Nat} {x : Execution n} (hx : xs[a]? = some x) :
    (xs.map Execution.index)[a]? = some x.index := by
  rw [List.getElem?_map, hx, Option.map_some]

theorem Walking.getElem? {cfg : ZakuroConfig} {i : Fin n} {w : World n} (h : Walking cfg i w) {a : Nat}
    {x : Execution n} (hx : (w.entries i)[a]? = some x) : a < (w.entries i).length ∧
      x.index = index (cfg.program i.val).length cfg.loopIndex a ∧
      (cfg.program i.val)[x.index]? = some x.op := by
  obtain ⟨ha, hxi⟩ := h.walk.getElem? (index_getElem? hx)
  rw [List.length_map] at ha
  exact ⟨ha, hxi, h.op x (List.mem_of_getElem? hx)⟩

/-- The execution at a step of the walk. -/
theorem Walking.exists_getElem? {cfg : ZakuroConfig} {i : Fin n} {w : World n} (h : Walking cfg i w)
    {a : Nat} (ha : a < (w.entries i).length) {op : Op}
    (hop : (cfg.program i.val)[index (cfg.program i.val).length cfg.loopIndex a]? = some op) :
    ∃ x, (w.entries i)[a]? = some x ∧ x.op = op := by
  obtain ⟨x, hx⟩ : ∃ x, (w.entries i)[a]? = some x := ⟨_, List.getElem?_eq_getElem ha⟩
  obtain ⟨-, hindex, hxop⟩ := h.getElem? hx
  rw [hindex] at hxop
  exact ⟨x, hx, Option.some.inj (hxop.symm.trans hop)⟩

/-- A walk that has come to the end is as long as the program. -/
theorem Walking.length_of_atEnd {cfg : ZakuroConfig} {i : Fin n} {w : World n} (h : Walking cfg i w)
    {x : Execution n} (hx : x ∈ w.entries i) (hend : AtEnd cfg i.val x) :
    (cfg.program i.val).length ≤ (w.entries i).length := by
  obtain ⟨a, ha⟩ := List.mem_iff_getElem?.mp hx
  obtain ⟨hlt, hindex, -⟩ := h.getElem? ha
  rcases Nat.lt_or_ge a (cfg.program i.val).length with hk | hk
  · rw [index_of_lt _ hk] at hindex
    rw [AtEnd] at hend
    omega
  · omega

/-- The steps until the end of the program are its indices in order, and the one
after the wait is the first `Reconnect`. -/
theorem Walking.afterReconnect {cfg : ZakuroConfig} {i : Fin n} {w : World n} (h : Walking cfg i w)
    (hlen : (cfg.program i.val).length ≤ (w.entries i).length) {k : Nat} {op : Op}
    (hop : (cfg.program i.val)[k]? = some op) (h2 : 2 ≤ k) : AfterReconnect (w.entries i) k := by
  obtain ⟨hzero, hone⟩ := program_start cfg i.val
  obtain ⟨hk, -⟩ := List.getElem?_eq_some_iff.mp hop
  have hstep : ∀ a, a < (cfg.program i.val).length →
      index (cfg.program i.val).length cfg.loopIndex a = a := fun a ha => index_of_lt _ ha
  obtain ⟨x, hx, hxop⟩ := h.exists_getElem? (a := 1) (by omega) (by rw [hstep 1 (by omega)]; exact hone)
  obtain ⟨y, hy, -⟩ := h.exists_getElem? (a := k) (by omega) (by rw [hstep k hk]; exact hop)
  refine ⟨1, k, x, y, by omega, hx, hxop, fun c hc z hz => ?_, hy, ?_⟩
  · -- only the wait comes before
    obtain rfl : c = 0 := by omega
    obtain ⟨-, hindex, hzop⟩ := h.getElem? hz
    rw [hindex, hstep 0 (by omega), hzero] at hzop
    rw [← Option.some.inj hzop]
    simp
  · rw [(h.getElem? hy).2.1, hstep k hk]

/-- What is executed right behind the end of the program. -/
theorem Walking.restart {cfg : ZakuroConfig} {i : Fin n} {w : World n} (h : Walking cfg i w) {a : Nat}
    {x y : Execution n} (hx : (w.entries i)[a]? = some x) (hend : AtEnd cfg i.val x)
    (hy : (w.entries i)[a + 1]? = some y) : Intended cfg i.val y := by
  have hloop : y.index = cfg.loopIndex :=
    h.walk.restart (loopIndex_lt cfg i.val) (index_getElem? hx) hend (index_getElem? hy)
  obtain ⟨-, -, hyop⟩ := h.getElem? hy
  obtain ⟨op, hop, hreconnect, hsleep⟩ := program_loop cfg i.val
  rw [hloop, hop] at hyop
  obtain rfl := Option.some.inj hyop
  refine ⟨fun hrec => ⟨hreconnect hrec, ?_⟩, fun hno => ⟨hsleep hno, fun k op hk => ?_⟩⟩
  · obtain ⟨_, -, -, hl1⟩ := program_reconnecting hrec i.val
    rw [hloop, hl1]
  · rw [hloop]
    exact program_isSub cfg hk

/-- Between the beginning of the loop and the end of the program comes a sleep. -/
theorem Walking.sleeps {cfg : ZakuroConfig} {i : Fin n} {w : World n} (h : Walking cfg i w) {a b : Nat}
    {x y : Execution n} (hab : a ≤ b) (hx : (w.entries i)[a]? = some x) (hloop : x.index = cfg.loopIndex)
    (hy : (w.entries i)[b]? = some y) (hend : AtEnd cfg i.val y) :
    ∃ c z, a ≤ c ∧ c ≤ b ∧ (w.entries i)[c]? = some z ∧ z.op.isSleep = true := by
  obtain ⟨k, op, hlk, hk, hop, hsleep⟩ := program_sleep cfg i.val
  obtain ⟨ha, hxi, -⟩ := h.getElem? hx
  obtain ⟨hb, hyi, -⟩ := h.getElem? hy
  rw [hloop] at hxi
  -- the walk has not come to the end before it passes the sleep
  have hsteps : ∀ c, cfg.loopIndex + c < (cfg.program i.val).length →
      index (cfg.program i.val).length cfg.loopIndex (a + c) = cfg.loopIndex + c := by
    intro c hc
    rw [index_add (loopIndex_lt cfg i.val) (by rw [← hxi]; exact hc), ← hxi]
  obtain ⟨d, rfl⟩ := Nat.exists_eq_add_of_le hab
  obtain ⟨c, rfl⟩ := Nat.exists_eq_add_of_le hlk
  have hcd : c ≤ d := by
    by_contra hlt
    rw [hsteps d (by omega)] at hyi
    rw [AtEnd] at hend
    omega
  obtain ⟨z, hz, rfl⟩ := h.exists_getElem? (a := a + c) (by omega) (by rw [hsteps c hk]; exact hop)
  exact ⟨a + c, z, by omega, by omega, hz, hsleep⟩

theorem Walking.looping {cfg : ZakuroConfig} {i : Fin n} {w : World n} (h : Walking cfg i w) :
    Looping cfg i.val (w.entries i) where
  op := h.op
  subOnce k op hop hsub := by
    rw [h.walk.count (loopIndex_lt cfg i.val) ((program_isSub cfg hop).mp hsub).2]
    split <;> omega
  subReached := by
    rintro ⟨x, hx, hend⟩ k op hop hsub
    obtain ⟨h2, hk⟩ := (program_isSub cfg hop).mp hsub
    have hlt := loopIndex_lt cfg i.val
    have hlen := h.length_of_atEnd hx hend
    rw [h.walk.count hlt hk, List.length_map, if_pos (by omega)]
    exact ⟨rfl, h.afterReconnect hlen hop h2⟩
  restart _ _ _ hx hend hy := h.restart hx hend hy
  sleeps _ _ _ _ hab hx hloop hy hend := h.sleeps hab hx hloop hy hend

/-- The loop of the program that is built, for any configuration and any client:
`Play` accepts it, its sub-scenarios are started once, and its loop begins and
sleeps as intended. -/
theorem program_loops (env : Env) (cfg : ZakuroConfig) (i : Fin n) :
    Playable (cfg.program i.val) cfg.loopIndex ∧
      ∀ (w : World n) (es : List (Event n)),
        Machine.Run ((machine env).restrict fun _ => Unpaused) (run n cfg) es w →
          Looping cfg i.val (w.entries i) := by
  refine ⟨?_, fun w es h => (runs_walking cfg i h).looping⟩
  have hl := loopIndex_lt cfg i.val
  exact ⟨List.ne_nil_of_length_pos (Nat.zero_lt_of_lt hl), by omega, by omega⟩

/-- Two passes, the second through the loop only. -/
theorem program_loops_twice : ∃ w : World 1,
    Machine.Run ((machine quietEnv).restrict fun _ => Unpaused) (run 1 (oneChannelConfig .standard true))
      (firstPass 0 ++ sleepEvents 0) w ∧
      (w.entries 0).length = 5 ∧ ((w.entries 0).map Execution.index).count 2 = 1 := by
  obtain ⟨w, hw, hp⟩ := Machine.exec_exists ((machine quietEnv).restrict fun _ => Unpaused)
    (run 1 (oneChannelConfig .standard true)) (firstPass 0 ++ sleepEvents 0)
    (fun w => decide ((w.entries 0).length = 5) && (w.entries 0).any fun x => x.index + 1 == 4)
    (by decide +kernel)
  simp only [Bool.and_eq_true, decide_eq_true_eq, List.any_eq_true, beq_iff_eq] at hp
  have hlooping := (program_loops quietEnv (oneChannelConfig .standard true) (0 : Fin 1)).2 w _ hw
  exact ⟨w, hw, hp.1, (hlooping.subReached hp.2 2 _ rfl rfl).1⟩

end World
