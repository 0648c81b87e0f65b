import Zakuro.VirtualClientRetry

/-!
# Reconnecting at the end of a close

`Connect` during a close only leaves a request behind. The end of the close
honours it unless a function given to `Close` waits in `on_close_`: then that
function is called, and the request is dropped.
-/

namespace VirtualClient

variable {κ : Type}

/-- An event that neither ends the close in progress nor is another `Close`. -/
def Event.Waits : Event κ → Prop
  | .close _ | .disconnected _ _ => False
  | _ => True

instance : DecidablePred (Event.Waits (κ := κ))
  | .close _ | .disconnected _ _ => .isFalse id
  | .connect | .sendMessage _ _ | .onCloseReturned | .notify _ | .retryExpired | .retryReady
  | .retryAborted => .isTrue trivial

/-- A close is in progress with this function kept, and a reconnect waits unless one is. -/
structure Requested (f : Option κ) (s : VirtualClient κ) : Prop where
  closing : s.closing = true
  kept : kept s = f
  waits : f = none → s.needReconnect = true

theorem connect_requested {s : VirtualClient κ} (hc : s.closing = true) :
    Requested (kept s) (connect s) := by
  rw [connect_closing hc]
  exact ⟨hc, rfl, fun _ => rfl⟩

/-- A request outlives every event until the close ends. -/
theorem step_requested {cfg : VirtualClientConfig} {f : Option κ} {s t : VirtualClient κ}
    {e : Event κ} (hs : Inv s) (h : Requested f s) (he : Enabled s e) (hwaits : e.Waits)
    (ht : step cfg s e = .ok t) : Requested f t := by
  cases step_cases hs he ht with
  | keeps | closes | calls | ends => exact absurd hwaits id
  | connects => exact h.kept ▸ connect_requested h.closing
  | sends label data log => exact ⟨h.closing, h.kept, h.waits⟩
  | returns hi =>
    have hnone : none = f := by simpa [kept, hi] using h.kept
    exact ⟨h.closing, hnone, h.waits⟩
  | ignores json => exact h
  | resets json hcreated => exact ⟨h.closing, h.kept, h.waits⟩
  | expires => exact ⟨h.closing, h.kept, h.waits⟩
  | forgoes hr hi ho =>
    have hkept : s.onClose = f := by simpa [kept, hi] using h.kept
    exact ⟨h.closing, h.kept, fun hf => absurd (hkept.trans hf) ho⟩
  | retries hr hi ho =>
    rw [← h.kept]
    exact connect_requested
      (s := { s with retryTimer := s.retryTimer.takeReady, needReconnect := false }) h.closing
  | aborts => exact ⟨h.closing, h.kept, h.waits⟩

theorem run_requested {cfg : VirtualClientConfig} {f : Option κ} {s t : VirtualClient κ}
    {es : List (Event κ)} (h : (machine cfg).Run s es t) (hes : ∀ e ∈ es, e.Waits) (hs : Inv s)
    (hf : Requested f s) : Requested f t := by
  refine ((h.to_restrict hes).invariant (I := fun s => Inv s ∧ Requested f s) ?_ ⟨hs, hf⟩).2
  rintro s e t ⟨hs, hf⟩ ⟨he, hwaits⟩ ht
  exact ⟨step_inv cfg hs he ht, step_requested hs hf he hwaits ht⟩

/-- `Connect` is called during a close and no `Close` follows: the `OnDisconnect` that
ends the close creates a session exactly if no function is kept for it, and calls the
function that is kept and creates none otherwise. -/
theorem reconnect_honoured_iff {cfg : VirtualClientConfig} {es fs : List (Event κ)}
    {s t u : VirtualClient κ} {n : Nat} {message : String} (h : Runs cfg es s)
    (hc : s.closing = true) (hrun : (machine cfg).Run (connect s) fs t) (hfs : ∀ e ∈ fs, e.Waits)
    (he : Enabled t (.disconnected n message)) (ht : step cfg t (.disconnected n message) = .ok u) :
    ((u.created = t.created + 1 ∧ u.signaling = some t.created) ↔ kept s = none) ∧
      ∀ f, kept s = some f → u.log = t.log ++ [.disconnected n, .onClose f message] ∧
        u.created = t.created ∧ u.signaling = none := by
  have hinv : Inv t := run_inv hrun (connect_inv (runs_inv h))
  have hreq : Requested (kept s) t := run_requested hrun hfs (connect_inv (runs_inv h)) (connect_requested hc)
  have hkept : t.onClose = kept s := by simpa [kept, he.2] using hreq.kept
  cases disconnected_step hinv he ht with
  | dropped hopen heq => exact absurd (hopen.symm.trans hreq.closing) Bool.false_ne_true
  | armed hopen left heq => exact absurd (hopen.symm.trans hreq.closing) Bool.false_ne_true
  | answered f hclosing ho heq =>
    have hsome : kept s = some f := hkept.symm.trans ho
    refine ⟨by simp [heq, hsome], fun g hg => ?_⟩
    obtain rfl : f = g := Option.some.inj (hsome.symm.trans hg)
    subst heq
    exact ⟨List.append_assoc _ _ _, rfl, rfl⟩
  | reconnected hclosing ho hr heq =>
    have hnone : kept s = none := hkept.symm.trans ho
    refine ⟨by simp [heq, hnone], fun f hf => ?_⟩
    rw [hnone] at hf
    cases hf
  | closed hclosing ho hr heq =>
    have hwaits := hreq.waits (hkept.symm.trans ho)
    exact absurd (hr.symm.trans hwaits) Bool.false_ne_true

/-- A close without a function, a `Connect`, a message that is not sent, and a new
session; and the same with a function, which is called instead. -/
theorem reconnect_honoured_once : (∃ s t u : VirtualClient Unit,
    Runs {} [.connect, .close none] s ∧ (machine {}).Run (connect s) [.sendMessage "label" []] t ∧
      step {} t (.disconnected 0 "closed") = .ok u ∧ u.created = t.created + 1 ∧
        u.signaling = some t.created) ∧
    ∃ s t u : VirtualClient Unit,
      Runs {} [.connect, .close (some ())] s ∧ (machine {}).Run (connect s) [] t ∧
        step {} t (.disconnected 0 "closed") = .ok u ∧
          u.log = t.log ++ [.disconnected 0, .onClose () "closed"] ∧ u.created = t.created := by
  constructor
  · have hs := Machine.exec_get_run (machine (κ := Unit) {}) init [.connect, .close none] (by decide)
    have ht := Machine.exec_get_run (machine (κ := Unit) {})
      (connect (((machine {}).exec init [.connect, .close none]).get (by decide)))
      [.sendMessage "label" []] (by decide)
    have hu := reconnect_honoured_iff hs rfl ht (by decide) (by decide)
      (show step {} _ (.disconnected 0 "closed") = .ok _ from rfl)
    exact ⟨_, _, _, hs, ht, rfl, hu.1.mpr rfl⟩
  · have hs := Machine.exec_get_run (machine (κ := Unit) {}) init [.connect, .close (some ())] (by decide)
    have hu := reconnect_honoured_iff hs rfl (.nil _) (by decide) (by decide)
      (show step {} _ (.disconnected 0 "closed") = .ok _ from rfl)
    obtain ⟨hlog, hcreated, -⟩ := hu.2 () rfl
    exact ⟨_, _, _, hs, .nil _, rfl, hlog, hcreated⟩

/-- `Close` with a function, then `Connect`: the function is called, and no session
follows. -/
theorem reconnect_dropped : ¬ ∀ (es fs : List (Event Unit)) (s t u : VirtualClient Unit) (n : Nat)
    (message : String), Runs {} es s → s.closing = true → (machine {}).Run (connect s) fs t →
      (∀ e ∈ fs, e.Waits) → Enabled t (.disconnected n message) →
      step {} t (.disconnected n message) = .ok u → u.created = t.created + 1 := by
  intro h
  have hs := Machine.exec_get_run (machine (κ := Unit) {}) init [.connect, .close (some ())] (by decide)
  have hcreated := h _ [] _ _ _ 0 "closed" hs rfl (.nil _) (by decide) (by decide) rfl
  exact absurd hcreated (by decide)

end VirtualClient
