import Mathlib.Data.Fintype.BigOperators
import Zakuro.ConnectionStats
import Zakuro.Projection
import Zakuro.VirtualClientSession
import Zakuro.ZakuroRun
import Zakuro.ExitCallback

/-!
# The sessions of a program

What the operations of the players, the keys, the sessions and the timers do to
one client of an instance is a run of that client alone. So what is known of the
runs of a client is known of each client of each instance of a program, whatever
the others do.
-/

namespace VirtualClient

variable {κ : Type}

/-- An event of a client, and the return from the callback if there is a call. -/
def settled (cfg : VirtualClientConfig) (s : VirtualClient κ) (e : Event κ) : List (Event κ) :=
  e :: match step cfg s e with
    | .ok t => if t.inOnClose then [.onCloseReturned] else []
    | .error _ => []

/-- The same as a run. -/
theorem run_settled {cfg : VirtualClientConfig} {s t : VirtualClient κ} {e : Event κ} (he : Enabled s e)
    (hs : step cfg s e = .ok t) :
    (machine cfg).Run s (settled cfg s e) (if t.inOnClose then t.onCloseReturned else t) := by
  rw [settled, hs]
  refine .cons he hs ?_
  dsimp only
  cases hin : t.inOnClose with
  | false =>
    rw [if_neg Bool.false_ne_true, if_neg Bool.false_ne_true]
    exact .nil t
  | true =>
    rw [if_pos rfl, if_pos rfl]
    exact .single (M := machine cfg) hin rfl

end VirtualClient

namespace World

open ScenarioPlayer
open VirtualClient (settled)

variable {n : Nat}

/-! ## The clients of an instance -/

/-- What an operation is to the client that it is executed for. -/
def asked (env : Env) (w : World n) (p : PlayerPath) (i : Fin n) (d : Draw) :
    Op → List (VirtualClient.Event (PlayerPath × Fin n))
  | .sendDataChannelMessage label _ _ =>
    match w.message env p i d label with
    | none => []
    | some message => [.sendMessage label message]
  | .disconnect => [.close none]
  | .reconnect => [.connect]
  | .exit => [.close (some (p, i))]
  | .sleep _ _ | .playSubScenario _ _ _ | .playVoiceNumberClient => []

/-- What an event is to a client, if anything. -/
def calls (env : Env) (i : Fin n) (w : World n) :
    Event n → List (VirtualClient.Event (PlayerPath × Fin n))
  | .onNext p j d =>
    if j = i then ((w.info p i).current.toList.flatMap fun op => w.asked env p i d op) else []
  | .keyClose j => if j = i then [.close none] else []
  | .keyConnect j => if j = i then [.connect] else []
  | .client j e => if j = i then [e] else []
  | .play _ _ _ | .pauseAll | .resumeAll | .sleepExpired _ _ | .sleepReady _ _ | .sleepAborted _ _ => []

/-- The events of a client in an event of the instance. -/
def clientEvents (env : Env) (i : Fin n) (w : World n) (e : Event n) :
    List (VirtualClient.Event (PlayerPath × Fin n)) :=
  (w.calls env i e).flatMap (settled env.vcConfig (w.vcs i))

/-- A call of a client runs that client, and no other. -/
theorem client_run {env : Env} {j : Fin n} {e : VirtualClient.Event (PlayerPath × Fin n)} {w w' : World n}
    (he : VirtualClient.Enabled (w.vcs j) e) (h : w.client env j e = .ok w') (i : Fin n) :
    (VirtualClient.machine env.vcConfig).Run (w.vcs i)
      ((if j = i then [e] else []).flatMap (settled env.vcConfig (w.vcs i))) (w'.vcs i) := by
  rw [client] at h
  split at h
  next vc hvc =>
    obtain rfl := Except.ok.inj h
    rw [react, foldl_onExit_vcs]
    dsimp only
    by_cases hij : j = i
    · subst hij
      rw [if_pos rfl, List.flatMap_singleton, Function.update_self]
      exact VirtualClient.run_settled he hvc
    · rw [if_neg hij, List.flatMap_nil, Function.update_of_ne (Ne.symm hij)]
      exact .nil _
  next => cases h

/-- The operation of an `OnNext` does to the clients what it asks of its own. -/
theorem operate_run {env : Env} {p : PlayerPath} {j : Fin n} {d : Draw} {op : Op} {w w' : World n}
    (h : w.operate env p j d op = .ok w') (i : Fin n) :
    (VirtualClient.machine env.vcConfig).Run (w.vcs i)
      ((if j = i then w.asked env p j d op else []).flatMap (settled env.vcConfig (w.vcs i))) (w'.vcs i) := by
  cases op with
  | sleep minTimeMs maxTimeMs =>
    rw [operate] at h
    split at h
    next => cases h
    next ms _ =>
      obtain rfl := Except.ok.inj h
      simp only [asked, ite_self]
      exact .nil _
  | playSubScenario name data l =>
    obtain rfl := Except.ok.inj h
    rw [play_client]
    simp only [asked, ite_self]
    exact .nil _
  | playVoiceNumberClient =>
    rw [operate] at h
    split at h
    next => cases h
    next audios _ =>
      obtain rfl := Except.ok.inj h
      simp only [asked, ite_self]
      exact .nil _
  | sendDataChannelMessage label minSize maxSize =>
    rw [operate, sendMessage] at h
    split at h
    next => cases h
    next data hdata =>
      obtain ⟨v, hv, rfl⟩ := Machine.map_eq_ok h
      rw [asked, hdata]
      exact client_run (e := .sendMessage label _) trivial hv i
  | disconnect => exact client_run (e := .close none) trivial h i
  | reconnect => exact client_run (e := .connect) trivial h i
  | exit => exact client_run (e := .close (some (p, j))) trivial h i

theorem asked_begun (env : Env) (w : World n) (p : PlayerPath) (j : Fin n) (d : Draw) (op : Op) :
    (w.begun p j op).asked env p j d op = w.asked env p j d op := by
  cases op with
  | sendDataChannelMessage label minSize maxSize => rw [asked, asked, begun_message]
  | _ => rfl

theorem onNext_run {env : Env} {p : PlayerPath} {j : Fin n} {d : Draw} {w w' : World n}
    (h : w.onNext env p j d = .ok w') (i : Fin n) :
    (VirtualClient.machine env.vcConfig).Run (w.vcs i) (w.clientEvents env i (.onNext p j d)) (w'.vcs i) := by
  obtain ⟨op, v, hop, hv, rfl⟩ := onNext_operates h
  have hrun := operate_run hv i
  rw [asked_begun] at hrun
  have hcalls : w.calls env i (.onNext p j d) = if j = i then w.asked env p j d op else [] := by
    rw [calls]
    by_cases hij : j = i
    · subst hij
      rw [if_pos rfl, if_pos rfl, hop, Option.toList_some, List.flatMap_singleton]
    · rw [if_neg hij, if_neg hij]
  have hvcs : (if op.isSleep then v else v.modifyInfo p j ClientInfo.next).vcs = v.vcs := by
    split <;> rfl
  rw [clientEvents, hcalls, hvcs]
  exact hrun

/-- Every step of an instance is a run of each of its clients. -/
theorem projects (env : Env) (i : Fin n) :
    (machine env).ProjectsTo (VirtualClient.machine env.vcConfig) (fun w => w.vcs i) (clientEvents env i) := by
  rintro w e w' ⟨-, hqueued⟩ hs
  cases e with
  | onNext p j d => exact onNext_run hs i
  | keyClose j => exact client_run (e := .close none) trivial hs i
  | keyConnect j => exact client_run (e := .connect) trivial hs i
  | client j e => exact client_run hqueued.2 hs i
  | play clientId data l =>
    obtain rfl := Except.ok.inj hs
    refine Machine.Run.same ?_
    rw [play]
    split <;> rfl
  | _ =>
    obtain rfl := Except.ok.inj hs
    exact .nil _

theorem run_vcs (cfg : ZakuroConfig) (i : Fin n) : (run n cfg).vcs i = .init := by
  rw [run, (foldl_play_same cfg _ _).1]
  rfl

end World

/-! ## The clients of a program -/

namespace Fleet

variable {m : Nat} {size : Fin m → Nat}

open VirtualClient (Entry Live)

/-- The events of an instance. -/
def instanceEvents (i : Fin m) : Event size → List (World.Event (size i))
  | .run j e => if h : j = i then [h ▸ e] else []
  | .statsTimer _ _ _ | .returned _ | .statsThread => []

/-- Every step of a program is a run of each of its instances. -/
theorem projects (cfg : Fin m → InstanceConfig) (i : Fin m) :
    (machine cfg).ProjectsTo (World.machine (cfg i).env) (fun f : Fleet size => f.instances i)
      (fun _ => instanceEvents i) := by
  rintro f e g he hs
  cases e with
  | run j e =>
    obtain ⟨w, hw, rfl⟩ := Machine.map_eq_ok hs
    dsimp only [instanceEvents]
    by_cases hij : j = i
    · subst hij
      rw [dif_pos rfl, Function.update_self]
      exact .single he.2 hw
    · rw [dif_neg hij, Function.update_of_ne (Ne.symm hij)]
      exact .nil _
  | _ =>
    obtain rfl := Except.ok.inj hs
    exact .nil _

/-- A client as it is in its instance. -/
def clientOf (f : Fleet size) (x : Client size) : VirtualClient (PlayerPath × Fin (size x.1)) :=
  (f.instances x.1).vcs x.2

/-- The events of a client in an event of the program. -/
def clientEvents (cfg : Fin m → InstanceConfig) (x : Client size) (f : Fleet size) (e : Event size) :
    List (VirtualClient.Event (PlayerPath × Fin (size x.1))) :=
  (World.machine (cfg x.1).env).outputs (World.clientEvents (cfg x.1).env x.2) (f.instances x.1)
    (instanceEvents x.1 e)

theorem projects_client (cfg : Fin m → InstanceConfig) (x : Client size) :
    (machine cfg).ProjectsTo (VirtualClient.machine (cfg x.1).env.vcConfig) (fun f => f.clientOf x)
      (clientEvents cfg x) :=
  (projects cfg x.1).trans (World.projects (cfg x.1).env x.2)

/-- The program when the event loops of its instances begin to run. -/
def start (zakuro : Fin m → ZakuroConfig) : Fleet size where
  instances i := World.run (size i) (zakuro i)

theorem client_runs {cfg : Fin m → InstanceConfig} {zakuro : Fin m → ZakuroConfig} {es : List (Event size)}
    {f : Fleet size} (h : Machine.Run (machine cfg) (start zakuro) es f) (x : Client size) :
    VirtualClient.Runs (cfg x.1).env.vcConfig ((machine cfg).outputs (clientEvents cfg x) (start zakuro) es)
      (f.clientOf x) := by
  have hrun := h.project (projects_client cfg x)
  have hinit : (start zakuro).clientOf x = .init := World.run_vcs (zakuro x.1) x.2
  rwa [hinit] at hrun

/-- A session that is there: the client that it is of, and its number. -/
def IsLive (f : Fleet size) (y : Client size × Nat) : Prop := Live (f.clientOf y.1).log y.2

instance (f : Fleet size) (y : Client size × Nat) : Decidable (f.IsLive y) :=
  inferInstanceAs (Decidable (Live (f.clientOf y.1).log y.2))

/-- In every run of a program, whatever its players, keys, sessions and timers do
in whatever order, each client does what it does alone with the events that are
its own, each keeps the session protocol, and there are never more sessions than
clients. -/
theorem sessions_kept {cfg : Fin m → InstanceConfig} {zakuro : Fin m → ZakuroConfig}
    {es : List (Event size)} {f : Fleet size} (h : Machine.Run (machine cfg) (start zakuro) es f) :
    (∀ x, VirtualClient.Runs (cfg x.1).env.vcConfig
      ((machine cfg).outputs (clientEvents cfg x) (start zakuro) es) (f.clientOf x)) ∧
    (∀ x, SessionProtocol.replay (VirtualClient.acts (f.clientOf x).log) =
      some (VirtualClient.protocol (f.clientOf x))) ∧
    ∀ S : Finset (Client size × Nat), (∀ y ∈ S, f.IsLive y) → S.card ≤ ∑ i, size i := by
  have hruns := client_runs h
  have hinv : ∀ x, VirtualClient.Inv (f.clientOf x) := fun x => VirtualClient.runs_inv (hruns x)
  refine ⟨hruns, fun x => (hinv x).accepted, fun S hS => ?_⟩
  have hinj : Set.InjOn Prod.fst (S : Set (Client size × Nat)) := by
    rintro ⟨x, a⟩ hx ⟨y, b⟩ hy rfl
    have ha := ((hinv x).live_iff a).mp (hS _ hx)
    have hb := ((hinv x).live_iff b).mp (hS _ hy)
    rw [Option.some.inj (ha.symm.trans hb)]
  calc S.card = (S.image Prod.fst).card := (Finset.card_image_of_injOn hinj).symm
    _ ≤ Fintype.card (Client size) := Finset.card_le_univ _
    _ = ∑ i, size i := by simp

def plainConfig : ZakuroConfig where
  fakeAudioCapture := true
  noAudioDevice := false
  scenario := .standard
  duration := ⟨true, 0⟩
  repeatInterval := ⟨true, 0⟩
  firstWaitMs _ := 0
  channels := []

/-- Two instances, of each of which the second client is connected by its key. -/
theorem sessions_kept_keys : ∃ f : Fleet (fun _ : Fin 2 => 2),
    Machine.Run (machine soraConfig) (start fun _ => plainConfig)
      [.run 0 (.keyConnect 1), .run 1 (.keyConnect 1)] f ∧ f.IsLive (⟨0, 1⟩, 0) ∧ f.IsLive (⟨1, 1⟩, 0) ∧
      ∀ S : Finset (Client (fun _ : Fin 2 => 2) × Nat), (∀ y ∈ S, f.IsLive y) → S.card ≤ ∑ _i : Fin 2, 2 := by
  have hrun : Machine.Run (machine soraConfig) (start fun _ => plainConfig)
      [.run 0 (.keyConnect 1), .run 1 (.keyConnect 1)] (_ : Fleet (fun _ : Fin 2 => 2)) :=
    .cons ⟨rfl, rfl, trivial⟩ rfl (.single ⟨rfl, rfl, trivial⟩ rfl)
  exact ⟨_, hrun, by decide, by decide, (sessions_kept hrun).2.2⟩

end Fleet
