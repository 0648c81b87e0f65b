import Zakuro.ClientSessions
import Zakuro.DataChannelMessage
import Zakuro.ScenarioTree

/-!
# The counters of the messages

The counters belong to a player, and the player of a sub-scenario is shared by
all clients. Each label is sent by the one player that is named after it, so its
counters go up by one from message to message, whichever clients the messages
are for.
-/

namespace VirtualClient

variable {κ : Type}

/-- The messages that went to a session, with their labels. -/
def sent (log : List (Entry κ)) : List (String × List UInt8) :=
  log.filterMap fun
    | .sendDataChannel _ label data => some (label, data)
    | .create _ | .disconnect _ | .disconnected _ | .onClose _ _ => none

/-- The message that a client is handed. -/
def Event.message : Event κ → Option (String × List UInt8)
  | .sendMessage label data => some (label, data)
  | _ => none

theorem sent_append (log log' : List (Entry κ)) : sent (log ++ log') = sent log ++ sent log' :=
  List.filterMap_append

theorem connect_sent (s : VirtualClient κ) : sent s.connect.log = sent s.log := by
  rw [connect]
  split
  · rfl
  · split <;> simp [sent]

theorem sendMessage_sent (label : String) (data : List UInt8) (s : VirtualClient κ) :
    ∃ more, sent (s.sendMessage label data).log = sent s.log ++ more ∧ more.Sublist [(label, data)] := by
  have hnone : ∃ more, sent s.log = sent s.log ++ more ∧ more.Sublist [(label, data)] :=
    ⟨[], (List.append_nil _).symm, List.nil_sublist _⟩
  rw [sendMessage]
  split
  · exact hnone
  · split
    · exact hnone
    · exact ⟨_, sent_append _ _, .refl _⟩

theorem DisconnectStep.sent_eq {cfg : VirtualClientConfig} {message : String} {s t : VirtualClient κ}
    (h : DisconnectStep cfg message s t) : sent t.log = sent s.log := by
  cases h with
  | dropped hc he => rw [he]
  | armed hc left he => rw [he]
  | answered f hc ho he => rw [he]; simp [sent]
  | reconnected hc ho hr he => rw [he]; simp [sent]
  | closed hc ho hr he => rw [he]

theorem filterMap_message_cons (e : Event κ) (es : List (Event κ)) :
    (e :: es).filterMap Event.message = e.message.toList ++ es.filterMap Event.message := by
  cases hm : e.message <;> simp [hm]

/-- Only a message that it is handed goes to the session of a client. -/
theorem step_sent {cfg : VirtualClientConfig} {s t : VirtualClient κ} {e : Event κ} (hs : Inv s)
    (he : Enabled s e) (ht : step cfg s e = .ok t) :
    ∃ more, sent t.log = sent s.log ++ more ∧ more.Sublist e.message.toList := by
  by_cases hsend : ∃ label data, e = .sendMessage label data
  · obtain ⟨label, data, rfl⟩ := hsend
    obtain rfl := Except.ok.inj ht
    exact sendMessage_sent label data s
  · suffices H : sent t.log = sent s.log from ⟨[], by rw [H, List.append_nil], List.nil_sublist _⟩
    cases step_cases hs he ht with
    | connects => exact connect_sent s
    | retries => exact connect_sent _
    | sends label data => exact absurd ⟨label, data, rfl⟩ hsend
    | closes => simp [sent]
    | calls => simp [sent]
    | ends n message t hn hd => rw [hd.sent_eq]; simp [sent]
    | _ => rfl

theorem run_sent {cfg : VirtualClientConfig} {s t : VirtualClient κ} {es : List (Event κ)} (hs : Inv s)
    (h : (machine cfg).Run s es t) :
    ∃ more, sent t.log = sent s.log ++ more ∧ more.Sublist (es.filterMap Event.message) := by
  induction h with
  | nil s => exact ⟨[], (List.append_nil _).symm, .slnil⟩
  | @cons s t u e es he ht _ ih =>
    obtain ⟨more, hmore, hsub⟩ := step_sent hs he ht
    obtain ⟨rest, hrest, hsub'⟩ := ih (step_inv cfg hs he ht)
    refine ⟨more ++ rest, by rw [hrest, hmore, List.append_assoc], ?_⟩
    rw [filterMap_message_cons]
    exact hsub.append hsub'

theorem settled_message (cfg : VirtualClientConfig) (s : VirtualClient κ) (e : Event κ) :
    (settled cfg s e).filterMap Event.message = e.message.toList := by
  rw [settled, filterMap_message_cons]
  cases step cfg s e with
  | error => exact List.append_nil _
  | ok t =>
    dsimp only
    split <;> exact List.append_nil _

end VirtualClient

namespace World

open ScenarioPlayer ClientInfo

variable {n : Nat}

/-! ## The messages of a run -/

/-- The message that an event writes, with its label. -/
def written (env : Env) (w : World n) : Event n → List (String × List UInt8)
  | .onNext p i d =>
    match (w.info p i).current with
    | some (.sendDataChannelMessage label _ _) =>
      ((w.message env p i d label).map fun message => (label, message)).toList
    | _ => []
  | _ => []

/-- The counter in a message. -/
def counterOf (message : List UInt8) : Nat := ofBigEndian ((message.drop 14).take 8)

/-- The counters of the messages with one label, in the order of the messages. -/
def countersOf (label : String) (messages : List (String × List UInt8)) : List Nat :=
  (messages.filter fun m => m.1 = label).map fun m => counterOf m.2

theorem message_counter {env : Env} {p : PlayerPath} {i : Fin n} {d : Draw} {label : String}
    {w : World n} {message : List UInt8} (h : w.message env p i d label = some message) :
    counterOf message = ((w.players p).dcCounter label).toNat := by
  rw [World.message, Option.map_eq_some_iff] at h
  obtain ⟨data, -, rfl⟩ := h
  exact messageBuffer_counter _ _ _ _

/-! ## What changes a counter -/

/-- No counter differs. -/
def SameCounters (w w' : World n) : Prop := ∀ q, (w'.players q).dcCounter = (w.players q).dcCounter

theorem SameCounters.trans {u v w : World n} (h : SameCounters u v) (h' : SameCounters v w) :
    SameCounters u w := fun q => (h' q).trans (h q)

theorem modifyInfo_counters (w : World n) (p : PlayerPath) (i : Fin n) (f : ClientInfo → ClientInfo) :
    SameCounters w (w.modifyInfo p i f) := by
  intro q
  by_cases hq : q = p
  · subst hq
    simp [modifyInfo, setInfo]
  · simp [modifyInfo, setInfo, hq]

theorem modifyAll_counters (w : World n) (f : ClientInfo → ClientInfo) : SameCounters w (w.modifyAll f) := by
  intro q
  by_cases hq : q = []
  · subst hq
    simp [modifyAll]
  · simp [modifyAll, hq]

theorem onExit_counters (w : World n) (k : PlayerPath × Fin n) : SameCounters w (w.onExit k) := by
  have hexit := modifyInfo_counters w k.1 k.2 fun c => { c with exit := true }
  rw [onExit]
  split
  · exact hexit
  · exact hexit

theorem client_counters {env : Env} {i : Fin n} {e : VirtualClient.Event (PlayerPath × Fin n)}
    {w w' : World n} (h : w.client env i e = .ok w') : SameCounters w w' :=
  client_rel SameCounters SameCounters.trans (fun _ _ _ => rfl) onExit_counters h

theorem play_counters (w : World n) (p : PlayerPath) (clientId : Int) (data : List Op) (l : Int) :
    SameCounters w (w.play p clientId data l) := by
  rw [play]
  split
  · exact modifyInfo_counters w _ _ _
  · exact fun _ => rfl

/-- Only one operation counts. -/
theorem operate_counters {env : Env} {p : PlayerPath} {i : Fin n} {d : Draw} {op : Op} {w w' : World n}
    (h : w.operate env p i d op = .ok w') (hop : ∀ label lo hi, op ≠ .sendDataChannelMessage label lo hi) :
    SameCounters w w' := by
  cases op with
  | sleep minTimeMs maxTimeMs =>
    rw [operate] at h
    split at h
    next => simp at h
    next ms _ =>
      cases h
      exact modifyInfo_counters w p i _
  | playSubScenario name data l =>
    cases h
    exact play_counters w _ _ _ _
  | playVoiceNumberClient =>
    rw [operate] at h
    split at h
    next => simp at h
    next audios _ =>
      cases h
      exact fun _ => rfl
  | sendDataChannelMessage label lo hi => exact absurd rfl (hop label lo hi)
  | disconnect => exact client_counters h
  | reconnect =>
    have hconnect : w.client env i .connect = .ok w' := h
    exact client_counters hconnect
  | exit => exact client_counters h

/-- A message is sent with the next counter of its label. -/
theorem operate_sends {env : Env} {p : PlayerPath} {i : Fin n} {d : Draw} {label : String} {lo hi : Int}
    {w w' : World n} (h : w.operate env p i d (.sendDataChannelMessage label lo hi) = .ok w') :
    ∃ message v, w.message env p i d label = some message ∧
      w.client env i (.sendMessage label message) = .ok v ∧
      w' = v.setCounter p label ((w.players p).dcCounter label + 1) := by
  have hsend : w.sendMessage env p i d label = .ok w' := h
  cases hm : w.message env p i d label with
  | none =>
    rw [sendMessage, hm] at hsend
    cases hsend
  | some message =>
    rw [sendMessage_of_message hm] at hsend
    obtain ⟨v, hv, rfl⟩ := Machine.map_eq_ok hsend
    exact ⟨message, v, rfl, hv, rfl⟩

/-- The client lets through what it is handed, or drops it, as `SendMessage` says. -/
theorem client_sends {env : Env} {i : Fin n} {label : String} {message : List UInt8} {w w' : World n}
    (h : w.client env i (.sendMessage label message) = .ok w') :
    (w'.vcs i).log = (VirtualClient.sendMessage label message (w.vcs i)).log := by
  obtain rfl : w.react i (VirtualClient.sendMessage label message (w.vcs i)) = w' := Except.ok.inj h
  rw [react, foldl_onExit_vcs]
  dsimp only
  rw [Function.update_self]
  split <;> rfl

theorem begun_counters (w : World n) (p : PlayerPath) (i : Fin n) (op : Op) :
    SameCounters w (w.begun p i op) :=
  modifyInfo_counters w p i ClientInfo.takePosted

theorem setCounter_counters (w : World n) (p q : PlayerPath) (label : String) (counter : UInt64) :
    ((w.setCounter p label counter).players q).dcCounter =
      if q = p then Function.update (w.players p).dcCounter label counter else (w.players q).dcCounter := by
  by_cases hq : q = p
  · subst hq
    simp [setCounter]
  · simp [setCounter, hq]

/-- What an `OnNext` that finds the operation does: it hands the message that it
writes to its client, with the next counter of the label. -/
structure Sends (env : Env) (w w' : World n) (p : PlayerPath) (i : Fin n) (d : Draw) (label : String)
    (message : List UInt8) : Prop where
  written : written env w (.onNext p i d) = [(label, message)]
  handed : (w'.vcs i).log = (VirtualClient.sendMessage label message (w.vcs i)).log
  counter : counterOf message = ((w.players p).dcCounter label).toNat
  same : (w'.players p).dcCounter label = (w.players p).dcCounter label + 1
  other : ∀ q l, ¬ (q = p ∧ l = label) → (w'.players q).dcCounter l = (w.players q).dcCounter l

/-- An operation sends one message with the counter of its label, or none. -/
theorem onNext_counters {env : Env} {w w' : World n} {p : PlayerPath} {i : Fin n} {d : Draw}
    (h : step env w (.onNext p i d) = .ok w') :
    (∃ label lo hi message, (w.info p i).current = some (.sendDataChannelMessage label lo hi) ∧
      Sends env w w' p i d label message) ∨
    (written env w (.onNext p i d) = [] ∧ SameCounters w w') := by
  obtain ⟨op, v, hop, hv, hw'⟩ := onNext_operates h
  have hbegun := begun_counters w p i op
  have hnext : SameCounters v w' := by
    rw [hw']
    split
    · exact fun _ => rfl
    · exact modifyInfo_counters v p i ClientInfo.next
  have hvcs : w'.vcs = v.vcs := by
    rw [hw']
    split <;> rfl
  by_cases hsend : ∃ label lo hi, op = .sendDataChannelMessage label lo hi
  · obtain ⟨label, lo, hi, rfl⟩ := hsend
    obtain ⟨message, u, hm, hu, rfl⟩ := operate_sends hv
    rw [begun_message] at hm
    have hsame := hbegun.trans (client_counters hu)
    refine .inl ⟨label, lo, hi, message, hop, ?_, ?_, message_counter hm, ?_, ?_⟩
    · rw [written, hop]
      simp [hm]
    · have hhanded := client_sends hu
      rw [hvcs]
      exact hhanded
    · rw [hnext, setCounter_counters, if_pos rfl, Function.update_self, hbegun]
    · intro q l hne
      rw [hnext, setCounter_counters]
      split
      next hq =>
        rw [Function.update_of_ne fun hl => hne ⟨hq, hl⟩, hsame, hq]
      next => rw [hsame]
  · refine .inr ⟨?_, (hbegun.trans (operate_counters hv ?_)).trans hnext⟩
    · rw [written, hop]
      split
      next label lo hi heq => exact absurd ⟨label, lo, hi, Option.some.inj heq⟩ hsend
      next => rfl
    · exact fun label lo hi heq => hsend ⟨label, lo, hi, heq⟩

/-- An event sends one message with the counter of its label, or none. -/
theorem step_counters {env : Env} {w w' : World n} {e : Event n} (h : step env w e = .ok w') :
    (∃ p i d label lo hi message, e = .onNext p i d ∧
      (w.info p i).current = some (.sendDataChannelMessage label lo hi) ∧
      Sends env w w' p i d label message) ∨
    (written env w e = [] ∧ SameCounters w w') := by
  cases e with
  | onNext p i d =>
    rcases onNext_counters h with ⟨label, lo, hi, message, hsend⟩ | hsame
    · exact .inl ⟨p, i, d, label, lo, hi, message, rfl, hsend⟩
    · exact .inr hsame
  | play clientId data l =>
    obtain rfl : w.play [] clientId data l = w' := by simpa [step] using h
    exact .inr ⟨rfl, play_counters w _ _ _ _⟩
  | pauseAll =>
    obtain rfl := Except.ok.inj h
    exact .inr ⟨rfl, modifyAll_counters w _⟩
  | resumeAll =>
    obtain rfl := Except.ok.inj h
    exact .inr ⟨rfl, modifyAll_counters w _⟩
  | keyClose j => exact .inr ⟨rfl, client_counters h⟩
  | keyConnect j =>
    have hconnect : w.client env j .connect = .ok w' := h
    exact .inr ⟨rfl, client_counters hconnect⟩
  | client j e => exact .inr ⟨rfl, client_counters h⟩
  | _ =>
    obtain rfl := Except.ok.inj h
    exact .inr ⟨rfl, modifyInfo_counters w _ _ _⟩

/-- A client is handed nothing but what is written. -/
theorem clientEvents_written {env : Env} {w : World n} {e : Event n} (i : Fin n) (he : Queued env w e) :
    ((w.clientEvents env i e).filterMap VirtualClient.Event.message).Sublist (written env w e) := by
  have hmessages : (w.clientEvents env i e).filterMap VirtualClient.Event.message =
      (w.calls env i e).filterMap VirtualClient.Event.message := by
    rw [clientEvents, List.filterMap_flatMap]
    simp only [VirtualClient.settled_message]
    exact (List.filterMap_eq_flatMap_toList _ _).symm
  rw [hmessages]
  cases e with
  | onNext p j d =>
    rw [calls, written]
    by_cases hj : j = i
    · subst hj
      rw [if_pos rfl]
      cases (w.info p j).current with
      | none => exact .slnil
      | some op =>
        rw [Option.toList_some, List.flatMap_singleton]
        cases op with
        | sendDataChannelMessage label lo hi =>
          rw [asked]
          dsimp only
          cases w.message env p j d label <;> exact .refl _
        | _ => exact List.nil_sublist _
    · rw [if_neg hj]
      exact List.nil_sublist _
  | keyClose j =>
    rw [calls]
    split <;> exact List.nil_sublist _
  | keyConnect j =>
    rw [calls]
    split <;> exact List.nil_sublist _
  | client j f =>
    have hexternal : External f := he.1
    rw [calls]
    split
    · cases f with
      | sendMessage => exact hexternal.elim
      | _ => exact List.nil_sublist _
    · exact List.nil_sublist _
  | _ => exact List.nil_sublist _

/-! ## Who sends what -/

/-- The labels that a program sends on are those of its player. -/
def Owned (p : PlayerPath) (data : List Op) : Prop :=
  ∀ label lo hi, .sendDataChannelMessage label lo hi ∈ data → p = ["scenario-dcs-" ++ label]

theorem addReconnectScenario_owned (cfg : ZakuroConfig) (p : PlayerPath) :
    Owned p cfg.addReconnectScenario := by
  intro label lo hi h
  rw [ZakuroConfig.addReconnectScenario] at h
  split at h
  · simp at h
  · split at h <;> simp at h

/-- The main player does not send. -/
theorem program_owned (cfg : ZakuroConfig) (i : Nat) (p : PlayerPath) : Owned p (cfg.program i) := by
  intro label lo hi h
  rw [ZakuroConfig.program, List.mem_cons] at h
  simp only [reduceCtorEq, false_or] at h
  rcases ZakuroConfig.data_mem h with h | h | h
  · simp [ZakuroConfig.reconnectScenario] at h
  · rcases opening_mem h with h | h | h
    · cases h
    · obtain ⟨ch, -, heq⟩ := dcsData_sub h
      cases heq
    · cases h
  · exact addReconnectScenario_owned cfg p label lo hi h

theorem program_sub_owned {cfg : ZakuroConfig} {i : Nat} {name : String} {data : List Op} {l : Int}
    (h : .playSubScenario name data l ∈ cfg.program i) : Owned [name] data := by
  intro label lo hi hmem
  rcases program_sub_cases h with ⟨ch, -, rfl, rfl, -⟩ | ⟨-, rfl, -⟩
  · simp only [channelData, List.mem_cons, reduceCtorEq, Op.sendDataChannelMessage.injEq, false_or,
      List.not_mem_nil, or_false] at hmem
    rw [hmem.1]
  · simp at hmem

theorem data_step {c : ClientInfo} {e : ClientInfo.Event} (he : ∀ data l, e ≠ .play data l) :
    (c.step e).data = c.data := by
  have hnext : ∀ d : ClientInfo, d.next.data = d.data := by
    intro d
    rw [next]
    repeat' split
    all_goals rfl
  cases e with
  | play data l => exact absurd rfl (he data l)
  | onNext ms =>
    rw [ClientInfo.step, ClientInfo.onNext]
    split
    · rfl
    · rfl
    · exact hnext _
  | sleepReady => exact hnext _
  | _ => rfl

/-- A player sends on its own label only, whatever the clients do. -/
theorem step_owned {cfg : ZakuroConfig} {env : Env} {w w' : World n} {e : Event n} (h : Tree cfg w)
    (howned : ∀ p i, Owned p (w.info p i).data) (he : Queued env w e) (hc : Unplayed e)
    (hs : step env w e = .ok w') (p : PlayerPath) (i : Fin n) : Owned p (w'.info p i).data := by
  have hcontrol := congrArg ClientInfo.data (step_control hs p i)
  have hdata : (w'.info p i).data = (viewed (w.info p i).control (w.view p i e)).data := hcontrol
  rw [hdata]
  cases hv : w.view p i e with
  | none => exact howned p i
  | some v =>
    by_cases hplay : ∃ data l, v = .play data l
    · obtain ⟨data, l, rfl⟩ := hplay
      rcases view_play hv with ⟨rfl, rfl⟩ | ⟨q, d, name, rfl, rfl, hop⟩
      · exact absurd hc id
      · have hq : q = [] := by
          by_contra hq
          exact (h.sub_current hq hop (pending_of_posted he.1)).2 name data l rfl
        subst hq
        obtain ⟨op, hop', hmem⟩ := h.main_current i
        obtain rfl := Option.some.inj (hop'.symm.trans hop)
        rw [viewed, ClientInfo.step, ClientInfo.play]
        split
        · exact program_sub_owned hmem
        · exact howned _ i
    · rw [viewed, data_step fun data l heq => hplay ⟨data, l, heq⟩]
      exact howned p i

/-! ## The numbering -/

/-- What holds of an instance and the messages it has written so far. -/
structure Numbering (cfg : ZakuroConfig) (messages : List (String × List UInt8)) (w : World n) : Prop where
  tree : Tree cfg w
  owned : ∀ p i, Owned p (w.info p i).data
  counters : ∀ label, countersOf label messages =
    (List.range (countersOf label messages).length).map (· % 2 ^ 64)
  following : ∀ label, ((w.players ["scenario-dcs-" ++ label]).dcCounter label).toNat =
    (countersOf label messages).length % 2 ^ 64

theorem countersOf_append (label : String) (messages : List (String × List UInt8)) (l : String)
    (message : List UInt8) : countersOf label (messages ++ [(l, message)]) =
      countersOf label messages ++ if l = label then [counterOf message] else [] := by
  rw [countersOf, countersOf, List.filter_append, List.map_append]
  by_cases hl : l = label
  · simp [hl]
  · simp [hl]

theorem step_numbering {cfg : ZakuroConfig} {env : Env} {messages : List (String × List UInt8)}
    {w w' : World n} {e : Event n} (h : Numbering cfg messages w) (he : Queued env w e) (hc : Unplayed e)
    (hs : step env w e = .ok w') : Numbering cfg (messages ++ written env w e) w' := by
  have htree := step_tree h.tree he hc hs
  have howned := step_owned h.tree h.owned he hc hs
  rcases step_counters hs with ⟨p, i, d, label, lo, hi, message, rfl, hop, hsends⟩ | ⟨hwritten, hsame⟩
  · -- the player is the one that is named after the label
    have hp : p = ["scenario-dcs-" ++ label] := by
      apply h.owned p i label lo hi
      rw [ClientInfo.current] at hop
      exact List.mem_of_getElem? hop
    have hfollowing := h.following label
    rw [← hp] at hfollowing
    rw [hsends.written]
    refine ⟨htree, howned, fun l => ?_, fun l => ?_⟩
    · rw [countersOf_append]
      by_cases hl : label = l
      · subst hl
        rw [if_pos rfl, List.length_append, List.length_singleton, List.range_succ, List.map_append,
          ← h.counters, hsends.counter, hfollowing]
        rfl
      · rw [if_neg hl, List.append_nil]
        exact h.counters l
    · rw [countersOf_append]
      by_cases hl : label = l
      · subst hl
        rw [if_pos rfl, List.length_append, List.length_singleton, ← hp, hsends.same,
          UInt64.toNat_add, hfollowing]
        exact Nat.mod_add_mod _ _ _
      · rw [if_neg hl, List.append_nil, hsends.other _ _ fun hq => hl hq.2.symm]
        exact h.following l
  · rw [hwritten, List.append_nil]
    refine ⟨htree, howned, h.counters, fun l => ?_⟩
    rw [hsame]
    exact h.following l

theorem run_counters (cfg : ZakuroConfig) (p : PlayerPath) (label : String) :
    ((run n cfg).players p).dcCounter label = 0 := by
  have hfold : ∀ (is : List (Fin n)) (w : World n), SameCounters w (is.foldl (playClient cfg) w) := by
    intro is
    induction is with
    | nil => exact fun w q => rfl
    | cons i is ih => exact fun w => (play_counters w _ _ _ _).trans (ih _)
  rw [run, hfold]
  rfl

theorem run_numbering (cfg : ZakuroConfig) : Numbering cfg [] (run n cfg) := by
  refine ⟨run_tree cfg, fun p i => ?_, fun label => rfl, fun label => ?_⟩
  · rw [run_info]
    split
    next =>
      rw [ClientInfo.play]
      split
      · exact program_owned cfg _ p
      · exact fun _ _ _ hmem => absurd hmem List.not_mem_nil
    next => exact fun _ _ _ hmem => absurd hmem List.not_mem_nil
  · rw [run_counters]
    rfl

theorem runs_numbering {cfg : ZakuroConfig} {env : Env} {w : World n} {es : List (Event n)}
    (h : Machine.Run ((machine env).restrict fun _ => Unplayed) (run n cfg) es w) :
    Numbering cfg (((machine env).restrict fun _ => Unplayed).outputs (written env) (run n cfg) es) w := by
  refine h.outputs_invariant (I := Numbering cfg) ?_ (run_numbering cfg)
  rintro messages w e w' hw ⟨⟨-, he⟩, hc⟩ hs
  exact step_numbering hw he hc hs

/-- What a client sends to its sessions is written, in the same order. -/
theorem runs_sent {env : Env} {cfg : ZakuroConfig} {w : World n} {es : List (Event n)}
    (h : Machine.Run ((machine env).restrict fun _ => Unplayed) (run n cfg) es w) (i : Fin n) :
    (VirtualClient.sent (w.vcs i).log).Sublist
      (((machine env).restrict fun _ => Unplayed).outputs (written env) (run n cfg) es) := by
  have hrun := h.of_restrict
  have hclient := hrun.project (projects env i)
  rw [run_vcs] at hclient
  obtain ⟨more, hmore, hsub⟩ := VirtualClient.run_sent VirtualClient.init_inv hclient
  have hsent : VirtualClient.sent (w.vcs i).log = more := hmore
  rw [hsent, Machine.outputs_restrict]
  refine hsub.trans (hrun.outputs_sublist ?_)
  rintro v e ⟨-, hqueued⟩
  exact clientEvents_written i hqueued

/-- The messages that an instance writes with a label have the counters 0, 1, 2
and so on, in the order in which they are written; what the clients send to their
sessions is among them, in this order; each is the message that its client is handed;
and a message with another label leaves the counter of the label as it is. -/
theorem counters_in_order (env : Env) (cfg : ZakuroConfig) {w : World n} {es : List (Event n)}
    (h : Machine.Run ((machine env).restrict fun _ => Unplayed) (run n cfg) es w) (label : String) :
    (∃ m, countersOf label
      (((machine env).restrict fun _ => Unplayed).outputs (written env) (run n cfg) es) =
        (List.range m).map (· % 2 ^ 64)) ∧
    (∀ i, (VirtualClient.sent (w.vcs i).log).Sublist
      (((machine env).restrict fun _ => Unplayed).outputs (written env) (run n cfg) es)) ∧
    (∀ e w', step env w e = .ok w' → ∀ m ∈ written env w e, ∃ p i d, e = .onNext p i d ∧
      (w'.vcs i).log = (VirtualClient.sendMessage m.1 m.2 (w.vcs i)).log) ∧
    ∀ e w', step env w e = .ok w' → (∀ m ∈ written env w e, m.1 ≠ label) →
      (w'.players ["scenario-dcs-" ++ label]).dcCounter label =
        (w.players ["scenario-dcs-" ++ label]).dcCounter label := by
  refine ⟨⟨_, (runs_numbering h).counters label⟩, runs_sent h, fun e w' hs m hm => ?_, fun e w' hs hne => ?_⟩
  · rcases step_counters hs with ⟨p, i, d, l, lo, hi, message, rfl, -, hsends⟩ | ⟨hnone, -⟩
    · rw [hsends.written] at hm
      obtain rfl := List.mem_singleton.mp hm
      exact ⟨p, i, d, rfl, hsends.handed⟩
    · rw [hnone] at hm
      exact absurd hm List.not_mem_nil
  · rcases step_counters hs with ⟨p, i, d, l, lo, hi, message, rfl, -, hsends⟩ | ⟨-, hsame⟩
    · have hl : l ≠ label := hne (l, message) (by rw [hsends.written]; exact List.mem_singleton.mpr rfl)
      exact hsends.other _ _ fun hq => hl hq.2.symm
    · rw [hsame]

/-- Clients that send on one channel and play nothing. -/
def sendingConfig : ZakuroConfig where
  fakeAudioCapture := true
  noAudioDevice := false
  scenario := .standard
  duration := ⟨true, 0⟩
  repeatInterval := ⟨true, 0⟩
  firstWaitMs := fun _ => 0
  channels := [⟨"#a", 100, 48, 48⟩]

def sendingPath : PlayerPath := ["scenario-dcs-#a"]

/-- Until a client has sent its first message. -/
def sendingEvents (i : Fin n) : List (Event n) :=
  [.onNext [] i zeroDraw, .sleepExpired [] i, .sleepReady [] i, .onNext [] i zeroDraw,
    .onNext [] i zeroDraw, .onNext sendingPath i zeroDraw, .sleepExpired sendingPath i,
    .sleepReady sendingPath i, .onNext sendingPath i zeroDraw]

/-- The counter goes on from one client to the other, and each client sends its message. -/
theorem counters_in_order_two : ∃ w : World 2,
    Machine.Run ((machine quietEnv).restrict fun _ => Unplayed) (run 2 sendingConfig)
      (sendingEvents 0 ++ sendingEvents 1) w ∧
    countersOf "#a" (((machine quietEnv).restrict fun _ => Unplayed).outputs (written quietEnv)
      (run 2 sendingConfig) (sendingEvents 0 ++ sendingEvents 1)) = [0, 1] ∧
    (∃ m, countersOf "#a" (((machine quietEnv).restrict fun _ => Unplayed).outputs (written quietEnv)
      (run 2 sendingConfig) (sendingEvents 0 ++ sendingEvents 1)) = (List.range m).map (· % 2 ^ 64)) ∧
    ∀ i, (VirtualClient.sent (w.vcs i).log).length = 1 ∧ (VirtualClient.sent (w.vcs i).log).Sublist
      (((machine quietEnv).restrict fun _ => Unplayed).outputs (written quietEnv) (run 2 sendingConfig)
        (sendingEvents 0 ++ sendingEvents 1)) := by
  obtain ⟨w, hw, hp⟩ := Machine.exec_exists ((machine quietEnv).restrict fun _ => Unplayed)
    (run 2 sendingConfig) (sendingEvents 0 ++ sendingEvents 1)
    (fun w => decide (∀ i, (VirtualClient.sent (w.vcs i).log).length = 1)) (by decide +kernel)
  have hcounters := counters_in_order quietEnv sendingConfig hw "#a"
  exact ⟨w, hw, by decide +kernel, hcounters.1, fun i => ⟨of_decide_eq_true hp i, hcounters.2.1 i⟩⟩

end World
