import Zakuro.KeyedWorld

/-!
# GameKeyCore

The thread that reads the keys of the terminal and gives each of them to every
trigger that has registered its queue, one after the other, with the instances
that these triggers are of. Nothing guards the list of the queues: it must not
change while a key is given out.
-/

open History (Each)

variable {m : Nat}

namespace GameKeyCore

/-- `Register` -/
def register (keys : List (Fin m)) (i : Fin m) : List (Fin m) := keys ++ [i]

/-- `Unregister` -/
def unregister (keys : List (Fin m)) (i : Fin m) : List (Fin m) := keys.filter fun j => j ≠ i

end GameKeyCore

/-- The program as the keys see it. A queue is named by the instance it is of. -/
structure KeyedProgram (size : Fin m → Nat) where
  /-- `keys_` -/
  keys : List (Fin m) := []
  /-- The loop of `PushKey`: the queues that it has still to come to, with its byte. -/
  pushing : List (Fin m × UInt8) := []
  /-- The thread of the core has not returned. -/
  reading : Bool
  instances : (i : Fin m) → KeyedWorld (size i)

namespace KeyedProgram

open ScenarioPlayer

variable {size : Fin m → Nat}

inductive Fault where
  | world (fault : ScenarioPlayer.Fault)
  /-- `keys_` changes while the loop of `PushKey` passes over it. -/
  | keysRace
  deriving DecidableEq, Repr

inductive Event (size : Fin m → Nat) where
  /-- `read` gives a byte, and `PushKey` begins. -/
  | typed (c : UInt8)
  /-- `PushKey` gives its byte to the next queue. -/
  | push
  /-- `select` or `read` fails, or the core is to stop. -/
  | readEnds
  | run (i : Fin m) (e : KeyedWorld.Event (size i))
  /-- The trigger of an instance is gone, and its `key_` with it. -/
  | destroy (i : Fin m)

def Event.byte : Event size → Option UInt8
  | .typed c => some c
  | .push | .readEnds | .run _ _ | .destroy _ => none

/-- What an instance does itself; only the core gives it keys. -/
def Own {n : Nat} : KeyedWorld.Event n → Prop
  | .pushKey _ => False
  | .make | .pass _ | .reset | .handler _ | .sound _ => True

instance {n : Nat} : DecidablePred (Own (n := n))
  | .pushKey _ => .isFalse id
  | .make | .pass _ | .reset | .handler _ | .sound _ => .isTrue trivial

def Enabled (env : Fin m → Env) (s : KeyedProgram size) : Event size → Prop
  | .typed _ | .readEnds => s.reading = true ∧ s.pushing = []
  | .push => s.pushing ≠ []
  | .run i e => Own e ∧ (KeyedWorld.machine (env i)).enabled (s.instances i) e
  | .destroy i =>
    i ∈ s.keys ∧ (s.instances i).trigger.stopped = true ∧ (s.instances i).trigger.running = false

instance (env : Fin m → Env) (s : KeyedProgram size) : DecidablePred (Enabled env s)
  | .typed _ | .readEnds => inferInstanceAs (Decidable (_ ∧ _))
  | .push => inferInstanceAs (Decidable (_ ≠ _))
  | .run _ _ => inferInstanceAs (Decidable (_ ∧ _))
  | .destroy _ => inferInstanceAs (Decidable (_ ∧ _ ∧ _))

def push (s : KeyedProgram size) : KeyedProgram size :=
  match s.pushing with
  | [] => s
  | (i, c) :: pushing =>
    { s with
      pushing := pushing
      instances := Function.update s.instances i ((s.instances i).pushKey c) }

/-- The queue of a trigger registers when it is made. -/
def registers (s : KeyedProgram size) (i : Fin m) : KeyedWorld.Event (size i) → Bool
  | .make => (s.instances i).keyed
  | .pushKey _ | .pass _ | .reset | .handler _ | .sound _ => false

def step (env : Fin m → Env) (s : KeyedProgram size) : Event size → Except Fault (KeyedProgram size)
  | .typed c => .ok { s with pushing := s.keys.map fun i => (i, c) }
  | .push => .ok s.push
  | .readEnds => .ok { s with reading := false }
  | .run i e =>
    if s.registers i e ∧ s.pushing ≠ [] then .error .keysRace
    else
      match KeyedWorld.step (env i) (s.instances i) e with
      | .ok w =>
        .ok { s with
          keys := if s.registers i e then GameKeyCore.register s.keys i else s.keys
          instances := Function.update s.instances i w }
      | .error fault => .error (.world fault)
  | .destroy i =>
    if s.pushing ≠ [] then .error .keysRace else .ok { s with keys := GameKeyCore.unregister s.keys i }

def machine (env : Fin m → Env) : Machine (KeyedProgram size) (Event size) Fault where
  enabled := Enabled env
  step := step env

instance (env : Fin m → Env) (s : KeyedProgram size) (e : Event size) :
    Decidable ((machine env).enabled s e) :=
  inferInstanceAs (Decidable (Enabled env s e))

/-- The program when its instances are started; the core may have failed already. -/
def start (zakuro : Fin m → ZakuroConfig) (reading : Bool) : KeyedProgram size where
  reading := reading
  instances i := KeyedWorld.start (size i) (zakuro i)

/-! ## The queues that are registered -/

/-- Each queue is registered once, by an instance that has a trigger. -/
structure Registered (s : KeyedProgram size) : Prop where
  nodup : s.keys.Nodup
  made : ∀ i ∈ s.keys, (s.instances i).keyed = true ∧ (s.instances i).made = true
  /-- What is not there is not waited for. -/
  fresh : ∀ i, (s.instances i).made = false → (s.instances i).trigger = {}
  /-- The loop of `PushKey` is on its way through `keys_`. -/
  pushing : s.pushing.map Prod.fst <:+ s.keys

theorem start_registered (zakuro : Fin m → ZakuroConfig) (reading : Bool) :
    Registered (start zakuro reading : KeyedProgram size) where
  nodup := List.nodup_nil
  made _ hi := absurd hi List.not_mem_nil
  fresh _ _ := rfl
  pushing := List.suffix_rfl

theorem run_cases {env : Fin m → Env} {s t : KeyedProgram size} {i : Fin m} {e : KeyedWorld.Event (size i)}
    (h : step env s (.run i e) = .ok t) :
    (s.registers i e = true → s.pushing = []) ∧ ∃ w, KeyedWorld.step (env i) (s.instances i) e = .ok w ∧
      t = { s with
        keys := if s.registers i e then GameKeyCore.register s.keys i else s.keys
        instances := Function.update s.instances i w } := by
  rw [step] at h
  split at h
  next => cases h
  next hapart =>
    refine ⟨fun hregisters => by_contra fun hpushing => hapart ⟨hregisters, hpushing⟩, ?_⟩
    cases hw : KeyedWorld.step (env i) (s.instances i) e with
    | error fault => rw [hw] at h; cases h
    | ok w =>
      rw [hw] at h
      exact ⟨w, rfl, (Except.ok.inj h).symm⟩

theorem destroy_cases (env : Fin m → Env) {s t : KeyedProgram size} {i : Fin m}
    (h : step env s (.destroy i) = .ok t) :
    s.pushing = [] ∧ t = { s with keys := GameKeyCore.unregister s.keys i } := by
  rw [step] at h
  split at h
  next => cases h
  next hpushing => exact ⟨Decidable.not_not.mp hpushing, (Except.ok.inj h).symm⟩

theorem registers_iff {s : KeyedProgram size} {i : Fin m} {e : KeyedWorld.Event (size i)} :
    s.registers i e = true ↔ e = .make ∧ (s.instances i).keyed = true := by
  cases e with
  | make => exact (and_iff_right rfl).symm
  | _ => exact iff_of_false Bool.false_ne_true fun h => by cases h.1

theorem push_cons {s : KeyedProgram size} {i : Fin m} {c : UInt8} {pushing : List (Fin m × UInt8)}
    (h : s.pushing = (i, c) :: pushing) : s.push = { s with
      pushing := pushing
      instances := Function.update s.instances i ((s.instances i).pushKey c) } := by
  rw [push, h]

theorem Registered.head {s : KeyedProgram size} (h : Registered s) {i : Fin m} {c : UInt8}
    {pushing : List (Fin m × UInt8)} (hpushing : s.pushing = (i, c) :: pushing) :
    i ∈ s.keys ∧ pushing.map Prod.fst <:+ s.keys := by
  have hsuffix := h.pushing
  rw [hpushing, List.map_cons] at hsuffix
  exact ⟨hsuffix.subset List.mem_cons_self, (List.suffix_cons _ _).trans hsuffix⟩

/-- An instance that is there goes on, and nothing registers but its queue. -/
theorem Registered.update {s : KeyedProgram size} (h : Registered s) {i : Fin m} {w : KeyedWorld (size i)}
    {keys : List (Fin m)} {pushing : List (Fin m × UInt8)} (hmade : w.made = true)
    (hkeyed : w.keyed = (s.instances i).keyed) (hnodup : keys.Nodup) (hpushing : pushing.map Prod.fst <:+ keys)
    (hkeys : ∀ j ∈ keys, j ∈ s.keys ∨ (j = i ∧ (s.instances i).keyed = true)) :
    Registered { s with keys := keys, pushing := pushing, instances := Function.update s.instances i w } := by
  refine ⟨hnodup, fun j hj => ?_, fun j hj => ?_, hpushing⟩
  · by_cases hij : j = i
    · subst hij
      dsimp only
      rw [Function.update_self, hkeyed]
      rcases hkeys j hj with hj | ⟨-, hj⟩
      · exact ⟨(h.made j hj).1, hmade⟩
      · exact ⟨hj, hmade⟩
    · dsimp only
      rw [Function.update_of_ne hij]
      exact h.made j ((hkeys j hj).resolve_right fun hnew => hij hnew.1)
  · by_cases hij : j = i
    · subst hij
      dsimp only at hj
      rw [Function.update_self, hmade] at hj
      cases hj
    · dsimp only at hj ⊢
      rw [Function.update_of_ne hij] at hj ⊢
      exact h.fresh j hj

theorem Registered.push {s : KeyedProgram size} (h : Registered s) : Registered s.push := by
  cases hpushing : s.pushing with
  | nil =>
    rw [KeyedProgram.push, hpushing]
    exact h
  | cons x pushing =>
    obtain ⟨i, c⟩ := x
    obtain ⟨hi, hsuffix⟩ := h.head hpushing
    rw [push_cons hpushing]
    exact h.update (h.made i hi).2 rfl h.nodup hsuffix fun _ => .inl

theorem mem_registered {s : KeyedProgram size} {i j : Fin m} {e : KeyedWorld.Event (size i)}
    (h : j ∈ if s.registers i e then GameKeyCore.register s.keys i else s.keys) :
    j ∈ s.keys ∨ (j = i ∧ (s.instances i).keyed = true ∧ e = .make) := by
  split at h
  next hregisters =>
    obtain ⟨hmake, hkeyed⟩ := registers_iff.mp hregisters
    rcases List.mem_append.mp h with h | h
    · exact .inl h
    · exact .inr ⟨List.mem_singleton.mp h, hkeyed, hmake⟩
  next => exact .inl h

theorem registered_nodup {env : Env} {s : KeyedProgram size} (h : Registered s) {i : Fin m}
    {e : KeyedWorld.Event (size i)} (he : KeyedWorld.Enabled env (s.instances i) e) :
    (if s.registers i e then GameKeyCore.register s.keys i else s.keys).Nodup := by
  split
  next hregisters =>
    obtain ⟨rfl, -⟩ := registers_iff.mp hregisters
    have hunmade : (s.instances i).made = false := he
    refine List.nodup_append.mpr ⟨h.nodup, List.nodup_singleton i, fun j hj k hk hjk => ?_⟩
    obtain rfl := List.mem_singleton.mp hk
    rw [hjk] at hj
    rw [(h.made _ hj).2] at hunmade
    cases hunmade
  next => exact h.nodup

theorem Registered.run {env : Env} {s : KeyedProgram size} (h : Registered s) {i : Fin m}
    {e : KeyedWorld.Event (size i)} {w : KeyedWorld (size i)} (he : KeyedWorld.Enabled env (s.instances i) e)
    (hs : KeyedWorld.step env (s.instances i) e = .ok w)
    (hapart : s.registers i e = true → s.pushing = []) :
    Registered { s with
      keys := if s.registers i e then GameKeyCore.register s.keys i else s.keys
      instances := Function.update s.instances i w } := by
  refine h.update (KeyedWorld.made_of_step he hs) (KeyedWorld.made_step hs).1 (registered_nodup h he) ?_
    fun j hj => (mem_registered hj).imp_right fun hnew => ⟨hnew.1, hnew.2.1⟩
  split
  next hregisters =>
    rw [hapart hregisters]
    exact List.nil_suffix
  next => exact h.pushing

theorem Registered.step {env : Fin m → Env} {s t : KeyedProgram size} {e : Event size} (h : Registered s)
    (he : (machine env).enabled s e) (hs : (machine env).step s e = .ok t) : Registered t := by
  cases e with
  | typed c =>
    obtain rfl := Except.ok.inj hs
    refine ⟨h.nodup, h.made, h.fresh, ?_⟩
    dsimp only
    rw [List.map_map]
    exact (List.map_id s.keys).symm ▸ List.suffix_rfl
  | push =>
    obtain rfl := Except.ok.inj hs
    exact h.push
  | readEnds =>
    obtain rfl := Except.ok.inj hs
    exact ⟨h.nodup, h.made, h.fresh, h.pushing⟩
  | run i e =>
    obtain ⟨hapart, w, hw, rfl⟩ := run_cases hs
    exact h.run he.2 hw hapart
  | destroy i =>
    obtain ⟨hpushing, rfl⟩ := destroy_cases env hs
    refine ⟨h.nodup.filter _, fun j hj => h.made j (List.mem_of_mem_filter hj), h.fresh, ?_⟩
    dsimp only
    rw [hpushing]
    exact List.nil_suffix

theorem runs_registered {env : Fin m → Env} {zakuro : Fin m → ZakuroConfig} {reading : Bool}
    {es : List (Event size)} {s : KeyedProgram size}
    (h : Machine.Run (machine env) (start zakuro reading) es s) :
    Registered s :=
  h.invariant (fun _ _ _ hI he hs => hI.step he hs) (start_registered zakuro reading)

/-! ## The instances -/

/-- An event as an instance has it: a key comes to it when the loop of `PushKey` does. -/
def instanceEvents (i : Fin m) (s : KeyedProgram size) : Event size → List (KeyedWorld.Event (size i))
  | .push => (s.pushing.head?.toList.filter fun x => x.1 = i).map fun x => .pushKey x.2
  | .run j e => if h : j = i then [h ▸ e] else []
  | .typed _ | .readEnds | .destroy _ => []

/-- Every step of the program is a run of each of its instances. -/
theorem projects (env : Fin m → Env) (i : Fin m) :
    ((machine env).restrict fun s _ => Registered s).ProjectsTo (KeyedWorld.machine (env i))
      (fun s : KeyedProgram size => s.instances i) (instanceEvents i) := by
  rintro s e t ⟨he, hI⟩ hs
  cases e with
  | push =>
    obtain rfl := Except.ok.inj hs
    cases hpushing : s.pushing with
    | nil => exact absurd hpushing he
    | cons x pushing =>
      obtain ⟨j, c⟩ := x
      rw [push_cons hpushing, instanceEvents, hpushing, List.head?_cons, Option.toList_some]
      dsimp only
      by_cases hij : j = i
      · subst hij
        have hfilter : [(j, c)].filter (fun x => x.1 = j) = [(j, c)] := by simp
        rw [Function.update_self, hfilter]
        exact .single (hI.made j (hI.head hpushing).1) rfl
      · have hfilter : [(j, c)].filter (fun x => x.1 = i) = [] := by simp [hij]
        rw [Function.update_of_ne (Ne.symm hij), hfilter]
        exact .nil _
  | run j e =>
    obtain ⟨-, w, hw, rfl⟩ := run_cases hs
    dsimp only [instanceEvents]
    by_cases hij : j = i
    · subst hij
      rw [dif_pos rfl, Function.update_self]
      exact .single he.2 hw
    · rw [dif_neg hij, Function.update_of_ne (Ne.symm hij)]
      exact .nil _
  | destroy j =>
    obtain ⟨-, rfl⟩ := destroy_cases env hs
    exact .nil _
  | _ =>
    obtain rfl := Except.ok.inj hs
    exact .nil _

theorem instance_run {env : Fin m → Env} {zakuro : Fin m → ZakuroConfig} {reading : Bool}
    {es : List (Event size)} {s : KeyedProgram size}
    (h : Machine.Run (machine env) (start zakuro reading) es s)
    (i : Fin m) : (KeyedWorld.machine (env i)).Run (KeyedWorld.start (size i) (zakuro i))
      ((machine env).outputs (instanceEvents i) (start zakuro reading) es) (s.instances i) := by
  have hrun := (h.restrict_invariant (I := Registered) (fun _ _ _ hI he hs => hI.step he hs)
    (start_registered zakuro reading)).project (projects env i)
  rwa [Machine.outputs_restrict] at hrun

/-! ## Keys -/

/-- The byte that `PushKey` has still to give to an instance. -/
def due (s : KeyedProgram size) (i : Fin m) : List UInt8 := (s.pushing.filter fun x => x.1 = i).map Prod.snd

theorem due_typed {keys : List (Fin m)} {i : Fin m} (hnodup : keys.Nodup) (hi : i ∈ keys) (c : UInt8) :
    (((keys.map fun j => (j, c)).filter fun x => x.1 = i).map Prod.snd) = [c] := by
  have hkeys : keys.filter (fun j => decide (j = i)) = [i] := by
    rw [List.filter_eq, List.count_eq_one_of_mem hnodup hi]
    rfl
  have hfilter : (keys.map fun j => (j, c)).filter (fun x => decide (x.1 = i)) =
      (keys.filter fun j => decide (j = i)).map fun j => (j, c) := List.filter_map
  rw [hfilter, hkeys]
  rfl

/-- No instance gets a key twice. -/
theorem Registered.due_le {s : KeyedProgram size} (h : Registered s) (i : Fin m) : (s.due i).length ≤ 1 := by
  have hnodup : (s.pushing.map Prod.fst).Nodup := h.nodup.sublist h.pushing.sublist
  have hcount := List.nodup_iff_count_le_one.mp hnodup i
  have hdue : (s.due i).length = (s.pushing.map Prod.fst).count i := by
    rw [due, List.length_map, List.count, List.countP_map, List.countP_eq_length_filter]
    rfl
  rwa [hdue]

/-- While an instance is registered, what it has received and what is due are what was
typed. -/
theorem heard_step {env : Fin m → Env} {s t : KeyedProgram size} {e : Event size} {i : Fin m}
    (hI : Registered s) (hi : i ∈ s.keys) (he : Enabled env s e) (hs : step env s e = .ok t)
    (hdestroy : e ≠ .destroy i) :
    i ∈ t.keys ∧ (t.instances i).trigger.received ++ t.due i =
      (s.instances i).trigger.received ++ s.due i ++ e.byte.toList := by
  cases e with
  | typed c =>
    obtain rfl := Except.ok.inj hs
    refine ⟨hi, ?_⟩
    have hdue : s.due i = [] := by rw [due, he.2]; rfl
    rw [due, due_typed hI.nodup hi, hdue, List.append_nil]
    rfl
  | push =>
    obtain rfl := Except.ok.inj hs
    rw [Event.byte, Option.toList_none, List.append_nil]
    cases hpushing : s.pushing with
    | nil => exact absurd hpushing he
    | cons x pushing =>
      obtain ⟨j, c⟩ := x
      rw [push_cons hpushing, due, due, hpushing]
      refine ⟨hi, ?_⟩
      dsimp only
      by_cases hij : j = i
      · subst hij
        rw [Function.update_self, List.filter_cons_of_pos (by simp), List.map_cons]
        simp [FakeAudioKeyTrigger.received, KeyedWorld.pushKey, GameKey.pushKey]
      · rw [Function.update_of_ne (Ne.symm hij), List.filter_cons_of_neg (by simp [hij])]
  | readEnds =>
    obtain rfl := Except.ok.inj hs
    exact ⟨hi, (List.append_nil _).symm⟩
  | run j e =>
    obtain ⟨-, w, hw, rfl⟩ := run_cases hs
    constructor
    · dsimp only
      split
      · exact List.mem_append_left _ hi
      · exact hi
    · rw [Event.byte, Option.toList_none, List.append_nil]
      refine congrArg (· ++ s.due i) ?_
      dsimp only
      by_cases hij : i = j
      · subst hij
        rw [Function.update_self]
        refine KeyedWorld.received_step hw ?_
        rintro c rfl
        exact he.1
      · rw [Function.update_of_ne hij]
  | destroy j =>
    obtain ⟨-, rfl⟩ := destroy_cases env hs
    refine ⟨List.mem_filter.mpr ⟨hi, ?_⟩, (List.append_nil _).symm⟩
    simp only [decide_eq_true_eq]
    rintro rfl
    exact hdestroy rfl

theorem unheard_step {env : Fin m → Env} {s t : KeyedProgram size} {e : Event size} {i : Fin m}
    (hI : Registered s) (hi : i ∉ s.keys) (hmade : (s.instances i).made = true) (he : Enabled env s e)
    (hs : step env s e = .ok t) :
    i ∉ t.keys ∧ (t.instances i).made = true ∧
      (t.instances i).trigger.received = (s.instances i).trigger.received := by
  cases e with
  | push =>
    obtain rfl := Except.ok.inj hs
    cases hpushing : s.pushing with
    | nil => exact absurd hpushing he
    | cons x pushing =>
      obtain ⟨j, c⟩ := x
      have hij : i ≠ j := fun hij => hi (hij ▸ (hI.head hpushing).1)
      rw [push_cons hpushing]
      dsimp only
      rw [Function.update_of_ne hij]
      exact ⟨hi, hmade, rfl⟩
  | run j e =>
    obtain ⟨-, w, hw, rfl⟩ := run_cases hs
    by_cases hij : i = j
    · subst hij
      dsimp only
      rw [Function.update_self]
      refine ⟨fun hmem => ?_, (KeyedWorld.made_step hw).2 hmade, KeyedWorld.received_step hw ?_⟩
      · rcases mem_registered hmem with hmem | ⟨-, -, rfl⟩
        · exact hi hmem
        · have hunmade : (s.instances i).made = false := he.2
          rw [hmade] at hunmade
          cases hunmade
      · rintro c rfl
        exact he.1
    · dsimp only
      rw [Function.update_of_ne hij]
      refine ⟨fun hmem => ?_, hmade, rfl⟩
      rcases mem_registered hmem with hmem | ⟨heq, -⟩
      · exact hi hmem
      · exact hij heq
  | destroy j =>
    obtain ⟨-, rfl⟩ := destroy_cases env hs
    exact ⟨fun hmem => hi (List.mem_of_mem_filter hmem), hmade, rfl⟩
  | _ =>
    obtain rfl := Except.ok.inj hs
    exact ⟨hi, hmade, rfl⟩

theorem runs_keyed {env : Fin m → Env} {zakuro : Fin m → ZakuroConfig} {reading : Bool}
    {es : List (Event size)} {s : KeyedProgram size}
    (h : Machine.Run (machine env) (start zakuro reading) es s)
    (i : Fin m) : (s.instances i).keyed = !(zakuro i).fakeAudioCapture :=
  (instance_run h i).invariant (I := fun w => w.keyed = !(zakuro i).fakeAudioCapture)
    (fun _ _ _ hI _ hs => (KeyedWorld.made_step hs).1.trans hI) rfl

theorem heard_run {env : Fin m → Env} {s t : KeyedProgram size} {es : List (Event size)} {i : Fin m}
    (h : Machine.Run (machine env) s es t) (hI : Registered s) (hi : i ∈ s.keys)
    (hdestroy : .destroy i ∉ es) :
    Registered t ∧ i ∈ t.keys ∧ (t.instances i).trigger.received ++ t.due i =
      (s.instances i).trigger.received ++ s.due i ++ es.filterMap Event.byte := by
  induction h with
  | nil s => exact ⟨hI, hi, (List.append_nil _).symm⟩
  | @cons s t u e es he hs _ ih =>
    rw [List.mem_cons, not_or] at hdestroy
    obtain ⟨hi', hreceived⟩ := heard_step hI hi he hs (Ne.symm hdestroy.1)
    obtain ⟨hI', hi', hreceived'⟩ := ih (hI.step he hs) hi' hdestroy.2
    refine ⟨hI', hi', ?_⟩
    rw [hreceived', hreceived, List.append_assoc]
    cases e <;> rfl

theorem unheard_run {env : Fin m → Env} {s t : KeyedProgram size} {es : List (Event size)} {i : Fin m}
    (h : Machine.Run (machine env) s es t) (hI : Registered s) (hi : i ∉ s.keys)
    (hmade : (s.instances i).made = true) :
    (t.instances i).trigger.received = (s.instances i).trigger.received := by
  induction h with
  | nil s => rfl
  | cons he hs _ ih =>
    obtain ⟨hi', hmade', hsame⟩ := unheard_step hI hi hmade he hs
    exact (ih (hI.step he hs) hi' hmade').trans hsame

/-- From when its trigger is made until it is gone, an instance receives what is
typed, each key once and in order, whatever all threads do meanwhile, but for the
last key while `PushKey` is still on its way. No queue registers or unregisters
during a `PushKey` in a run: that would be a `keysRace`. -/
theorem keys_heard {env : Fin m → Env} {zakuro : Fin m → ZakuroConfig} {reading : Bool} {i : Fin m}
    (hkeyed : (zakuro i).fakeAudioCapture = false) {es es' : List (Event size)} {s : KeyedProgram size}
    (h : Machine.Run (machine env) (start zakuro reading) (es ++ .run i .make :: es') s)
    (hdestroy : .destroy i ∉ es') :
    (s.instances i).trigger.received ++ s.due i = es'.filterMap Event.byte ∧ (s.due i).length ≤ 1 ∧
      (s.pushing = [] → (s.instances i).trigger.received = es'.filterMap Event.byte) ∧
      ∀ es'' u, Machine.Run (machine env) s (.destroy i :: es'') u →
        (u.instances i).trigger.received = es'.filterMap Event.byte := by
  obtain ⟨t, hbefore, hrest⟩ := h.split
  have hI := runs_registered hbefore
  have hkeyed' := runs_keyed hbefore i
  rw [hkeyed] at hkeyed'
  cases hrest with
  | cons he hs hafter =>
    have hmade := hI.step he hs
    have hstep : step env t (.run i .make) = .ok _ := hs
    obtain ⟨hapart, w, hw, rfl⟩ := run_cases hstep
    obtain rfl := Except.ok.inj hw
    have hregisters : t.registers i .make = true := hkeyed'
    obtain ⟨hI', hi, hheard⟩ := heard_run hafter hmade (i := i) (by
      dsimp only
      rw [if_pos hregisters]
      exact List.mem_append_right _ (List.mem_singleton_self i)) hdestroy
    rw [due, due] at hheard
    dsimp only at hheard
    rw [Function.update_self, hI.fresh i he.2, hapart hregisters] at hheard
    have hquiet : s.pushing = [] → (s.instances i).trigger.received = es'.filterMap Event.byte := by
      intro hpushing
      rw [hpushing, List.filter_nil, List.map_nil, List.append_nil] at hheard
      exact hheard
    refine ⟨hheard, hI'.due_le i, hquiet, fun es'' u hu => ?_⟩
    cases hu with
    | cons he' hs' hlast =>
      have hgone := hI'.step he' hs'
      obtain ⟨hpushing, rfl⟩ := destroy_cases env hs'
      exact (unheard_run hlast hgone (by simp [GameKeyCore.unregister]) (hI'.made i hi).2).trans
        (hquiet hpushing)

/-- Two keys before the trigger of `i` is made and three after, of which the last is still
to be given to it. -/
def typedEvents (i j : Fin m) : List (Event size) :=
  [.typed (ascii 'a'), .run j .make, .typed (ascii 'b'), .push] ++ .run i .make ::
    [.typed (ascii 'q'), .push, .run j (.pass 0), .push, .run i (.pass 0), .typed (ascii '1'), .push, .push,
      .typed (ascii 's'), .push]

def keyedStart : KeyedProgram (fun _ : Fin 2 => 2) := start (fun _ => World.numberConfig) true

theorem keys_heard_typed : ∃ s : KeyedProgram (fun _ : Fin 2 => 2),
    Machine.Run (machine fun _ => World.numberEnv) keyedStart (typedEvents 0 1) s ∧
      (s.instances 0).trigger.received ++ s.due 0 = [ascii 'q', ascii '1', ascii 's'] := by
  obtain ⟨s, hs, -⟩ := Machine.exec_exists (machine fun _ => World.numberEnv) keyedStart (typedEvents 0 1)
    (fun _ => true) (by decide +kernel)
  exact ⟨s, hs, (keys_heard rfl hs (by simp)).1⟩

/-- Each pass of each trigger does what the keys before it say, and what it posts
runs once at most. -/
theorem keys_obeyed {env : Fin m → Env} {zakuro : Fin m → ZakuroConfig} {reading : Bool}
    {es : List (Event size)} {s : KeyedProgram size}
    (h : Machine.Run (machine env) (start zakuro reading) es s)
    (i : Fin m) : Each KeyStrokes.KeyLaw (s.instances i).trigger.passes ∧
      ((s.instances i).handled ++ (s.instances i).posted).Perm (s.instances i).trigger.issued :=
  KeyedWorld.runs_accounted (instance_run h i)

/-- What the event loop of an instance goes through. -/
def loopEvents (env : Fin m → Env) (i : Fin m) (s : KeyedProgram size) (es : List (Event size)) :
    List (World.Event (size i)) :=
  ((machine env).outputs (instanceEvents i) s es).flatMap KeyedWorld.loopEvents

/-- With its keys and its sound, each instance of a program goes through a run of
its event loop, in which the only commands are those of its trigger; so its
clients keep to the session protocol. -/
theorem loops_refined {env : Fin m → Env} {zakuro : Fin m → ZakuroConfig} {reading : Bool}
    {es : List (Event size)} {s : KeyedProgram size}
    (h : Machine.Run (machine env) (start zakuro reading) es s)
    (i : Fin m) :
    (World.machine (env i)).Run (World.run (size i) { zakuro i with noAudioDevice := true })
        (loopEvents env i (start zakuro reading) es) (s.instances i).world.silence ∧
      (loopEvents env i (start zakuro reading) es).filterMap KeyCommand.ofEvent = (s.instances i).handled ∧
      ∀ x, SessionProtocol.replay (VirtualClient.acts ((s.instances i).world.vcs x).log) =
        some (VirtualClient.protocol ((s.instances i).world.vcs x)) := by
  obtain ⟨hrun, hhandled⟩ := KeyedWorld.runs_silent (instance_run h i)
  refine ⟨hrun, hhandled, fun x => ?_⟩
  have hclient := hrun.project (World.projects (env i) x)
  rw [World.run_vcs] at hclient
  exact (VirtualClient.runs_inv hclient).accepted

/-- `Q` and `1` connect the first client. -/
def connectingEvents (i : Fin m) (x : Fin (size i)) : List (Event size) :=
  [.run i .make, .typed (ascii 'Q'), .push, .typed (ascii '1'), .push, .run i (.pass 0),
    .run i (.pass 200000000), .run i (.handler (.connect x))]

theorem connecting_run : ∃ s : KeyedProgram (fun _ : Fin 2 => 2),
    Machine.Run (machine fun _ => World.numberEnv) keyedStart (connectingEvents 1 0) s ∧
      (s.instances 1).handled = [.connect 0] := by
  obtain ⟨s, hs, hp⟩ := Machine.exec_exists (machine fun _ => World.numberEnv) keyedStart
    (connectingEvents 1 0) (fun s => (s.instances 1).handled == [.connect 0]) (by decide +kernel)
  exact ⟨s, hs, by simpa using hp⟩

theorem keys_obeyed_connecting : ∃ s : KeyedProgram (fun _ : Fin 2 => 2),
    Machine.Run (machine fun _ => World.numberEnv) keyedStart (connectingEvents 1 0) s ∧
      (s.instances 1).handled = [.connect 0] ∧ Each KeyStrokes.KeyLaw (s.instances 1).trigger.passes := by
  obtain ⟨s, hs, hhandled⟩ := connecting_run
  exact ⟨s, hs, hhandled, (keys_obeyed hs 1).1⟩

theorem loops_refined_connecting : ∃ s : KeyedProgram (fun _ : Fin 2 => 2),
    Machine.Run (machine fun _ => World.numberEnv) keyedStart (connectingEvents 1 0) s ∧
      (loopEvents (fun _ => World.numberEnv) 1 keyedStart (connectingEvents 1 0)).filterMap
        KeyCommand.ofEvent = [.connect 0] := by
  obtain ⟨s, hs, hhandled⟩ := connecting_run
  exact ⟨s, hs, (loops_refined hs 1).2.1.trans hhandled⟩

end KeyedProgram
