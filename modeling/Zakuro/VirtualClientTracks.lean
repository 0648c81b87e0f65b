import Zakuro.Projection
import Zakuro.VirtualClientSession

/-!
# The tracks of a client

`Connect` makes an audio and a video track beside the session that it creates, and
`OnSetOffer` hands them to the peer connection of the session. The client keeps
the tracks when their session has ended.
-/

/-- The members of `VirtualClientConfig` that are about the tracks. -/
structure TrackConfig where
  /-- `audio_type` is not `NoAudio`. -/
  audio : Bool := true
  noVideoDevice : Bool := false
  fixedResolution : Bool := false
  priority : String := "BALANCE"
  disableEchoCancellation : Bool := false
  disableAutoGainControl : Bool := false
  disableNoiseSuppression : Bool := false
  disableHighpassFilter : Bool := false
  initialMuteVideo : Bool := false
  initialMuteAudio : Bool := false

/-- `webrtc::AudioOptions`; what is not set is left to WebRTC. -/
structure AudioOptions where
  echoCancellation : Option Bool
  autoGainControl : Option Bool
  noiseSuppression : Option Bool
  highpassFilter : Option Bool
  deriving DecidableEq, Repr

/-- The audio tracks of a client are numbered in the order in which they are made. -/
structure AudioTrack where
  number : Nat
  options : AudioOptions
  enabled : Bool := true
  deriving DecidableEq, Repr

structure VideoTrack where
  number : Nat
  /-- Its content hint is `kText`. -/
  text : Bool
  enabled : Bool := true
  deriving DecidableEq, Repr

inductive DegradationPreference where
  | balanced
  | maintainFramerate
  | maintainResolution
  deriving DecidableEq, Repr

/-- A call of `AddTrack` on the peer connection of a session, and the preference
that its sender is given when it returns one. -/
inductive AddTrack where
  | audio (session : Nat) (track : AudioTrack)
  | video (session : Nat) (track : VideoTrack) (preference : Option DegradationPreference)
  deriving DecidableEq, Repr

namespace TrackConfig

def audioOptions (cfg : TrackConfig) : AudioOptions where
  echoCancellation := if cfg.disableEchoCancellation then some false else none
  autoGainControl := if cfg.disableAutoGainControl then some false else none
  noiseSuppression := if cfg.disableNoiseSuppression then some false else none
  highpassFilter := if cfg.disableHighpassFilter then some false else none

def preference (cfg : TrackConfig) : DegradationPreference :=
  if cfg.priority = "FRAMERATE" then .maintainResolution
  else if cfg.priority = "RESOLUTION" then .maintainFramerate
  else .balanced

end TrackConfig

structure TrackClient (κ : Type) where
  client : VirtualClient κ := .init
  audioTrack : Option AudioTrack := none
  videoTrack : Option VideoTrack := none
  audioMade : Nat := 0
  videoMade : Nat := 0
  added : List AddTrack := []

namespace TrackClient

open VirtualClient (Live Inv)

variable {κ : Type}

inductive Fault where
  | client (f : VirtualClient.Fault)
  /-- `signaling_` is empty. -/
  | nullDeref

inductive Event (κ : Type) where
  | client (e : VirtualClient.Event κ)
  /-- A session calls `OnSetOffer`; `AddTrack` takes the video track or not. -/
  | offer (n : Nat) (videoOk : Bool)

/-- The tracks that `Connect` makes. -/
def makeTracks (cfg : TrackConfig) (s : TrackClient κ) : TrackClient κ :=
  let s :=
    if cfg.audio then
      { s with audioTrack := some ⟨s.audioMade, cfg.audioOptions, true⟩, audioMade := s.audioMade + 1 }
    else s
  if cfg.noVideoDevice then s
  else { s with videoTrack := some ⟨s.videoMade, cfg.fixedResolution, true⟩, videoMade := s.videoMade + 1 }

def addAudio (cfg : TrackConfig) (s : TrackClient κ) : Except Fault (TrackClient κ) :=
  match s.audioTrack with
  | none => .ok s
  | some track =>
    let track := if cfg.initialMuteAudio then { track with enabled := false } else track
    match s.client.signaling with
    | none => .error .nullDeref
    | some n => .ok { s with audioTrack := some track, added := s.added ++ [.audio n track] }

def addVideo (cfg : TrackConfig) (videoOk : Bool) (s : TrackClient κ) : Except Fault (TrackClient κ) :=
  match s.videoTrack with
  | none => .ok s
  | some track =>
    let track := if cfg.initialMuteVideo then { track with enabled := false } else track
    match s.client.signaling with
    | none => .error .nullDeref
    | some n =>
      .ok { s with
        videoTrack := some track
        added := s.added ++ [.video n track (if videoOk then some cfg.preference else none)] }

def onSetOffer (cfg : TrackConfig) (videoOk : Bool) (s : TrackClient κ) : Except Fault (TrackClient κ) :=
  (addAudio cfg s).bind (addVideo cfg videoOk)

/-- The client calls `Connect` from several places; where it creates a session it
has made the tracks before. -/
def step (vcfg : VirtualClientConfig) (cfg : TrackConfig) (s : TrackClient κ) :
    Event κ → Except Fault (TrackClient κ)
  | .client e =>
    match VirtualClient.step vcfg s.client e with
    | .error f => .error (.client f)
    | .ok client =>
      .ok { (if client.created = s.client.created then s else makeTracks cfg s) with client := client }
  | .offer _ videoOk => onSetOffer cfg videoOk s

/-- Only a session that has not ended calls `OnSetOffer`. -/
def Enabled (s : TrackClient κ) : Event κ → Prop
  | .client e => VirtualClient.Enabled s.client e
  | .offer n _ => Live s.client.log n ∧ s.client.inOnClose = false

instance [DecidableEq κ] (s : TrackClient κ) : DecidablePred (Enabled s)
  | .client e => inferInstanceAs (Decidable (VirtualClient.Enabled s.client e))
  | .offer n _ => inferInstanceAs (Decidable (Live s.client.log n ∧ s.client.inOnClose = false))

def machine (vcfg : VirtualClientConfig) (cfg : TrackConfig) : Machine (TrackClient κ) (Event κ) Fault where
  enabled := Enabled
  step := step vcfg cfg

instance [DecidableEq κ] (vcfg : VirtualClientConfig) (cfg : TrackConfig) (s : TrackClient κ) (e : Event κ) :
    Decidable ((machine vcfg cfg).enabled s e) :=
  inferInstanceAs (Decidable (Enabled s e))

def init : TrackClient κ := {}

/-! ## The client by itself -/

/-- The events of the client. -/
def Event.own : Event κ → List (VirtualClient.Event κ)
  | .client e => [e]
  | .offer _ _ => []

theorem onSetOffer_client {cfg : TrackConfig} {videoOk : Bool} {s t : TrackClient κ}
    (h : onSetOffer cfg videoOk s = .ok t) : t.client = s.client := by
  have audio {u v : TrackClient κ} (h : addAudio cfg u = .ok v) : v.client = u.client := by
    unfold addAudio at h
    repeat' split at h
    all_goals cases h
    all_goals rfl
  have video {u v : TrackClient κ} (h : addVideo cfg videoOk u = .ok v) : v.client = u.client := by
    unfold addVideo at h
    repeat' split at h
    all_goals cases h
    all_goals rfl
  rw [onSetOffer] at h
  cases ha : addAudio cfg s with
  | error f =>
    rw [ha] at h
    cases h
  | ok u =>
    rw [ha] at h
    exact (video h).trans (audio ha)

theorem projects (vcfg : VirtualClientConfig) (cfg : TrackConfig) :
    Machine.ProjectsTo (machine (κ := κ) vcfg cfg) (VirtualClient.machine vcfg) TrackClient.client
      (fun _ => Event.own) := by
  intro s e t he ht
  change step vcfg cfg s e = .ok t at ht
  cases e with
  | offer n videoOk => exact .same (onSetOffer_client ht)
  | client e =>
    rw [step] at ht
    cases hc : VirtualClient.step vcfg s.client e with
    | error f => simp [hc] at ht
    | ok client =>
      simp only [hc] at ht
      obtain rfl := Except.ok.inj ht
      exact .single he hc

/-- The tracks do not change what the client does. -/
theorem runs_client {vcfg : VirtualClientConfig} {cfg : TrackConfig} {es : List (Event κ)} {s : TrackClient κ}
    (h : (machine vcfg cfg).Run init es s) : VirtualClient.Runs vcfg (es.flatMap Event.own) s.client := by
  have hrun := h.project (projects vcfg cfg)
  rw [h.outputs_eq_flatMap] at hrun
  exact hrun

theorem makeTracks_added (cfg : TrackConfig) (s : TrackClient κ) : (makeTracks cfg s).added = s.added := by
  rw [makeTracks]
  split <;> split <;> rfl

/-! ## One track a session -/

/-- A step creates no session, or one that becomes the current one. -/
theorem created_step {vcfg : VirtualClientConfig} {s t : VirtualClient κ} {e : VirtualClient.Event κ} (hs : Inv s)
    (he : VirtualClient.Enabled s e) (ht : VirtualClient.step vcfg s e = .ok t) :
    t.created = s.created ∧ (∀ n, t.signaling = some n → s.signaling = some n) ∨
      t.created = s.created + 1 ∧ t.signaling = some s.created := by
  have connects (u : VirtualClient κ) :
      (VirtualClient.connect u).created = u.created ∧ (VirtualClient.connect u).signaling = u.signaling ∨
        (VirtualClient.connect u).created = u.created + 1 ∧
          (VirtualClient.connect u).signaling = some u.created := by
    cases hc : u.closing with
    | true =>
      rw [VirtualClient.connect_closing hc]
      exact .inl ⟨rfl, rfl⟩
    | false =>
      cases hn : u.signaling with
      | some n =>
        rw [VirtualClient.connect_live hc hn]
        exact .inl ⟨rfl, hn⟩
      | none =>
        rw [VirtualClient.connect_idle hc hn]
        exact .inr ⟨rfl, rfl⟩
  cases VirtualClient.step_cases hs he ht with
  | connects =>
    obtain ⟨hc, hn⟩ | h := connects s
    · exact .inl ⟨hc, fun n h => hn ▸ h⟩
    · exact .inr h
  | retries hr hi ho =>
    obtain ⟨hc, hn⟩ | h := connects { s with retryTimer := s.retryTimer.takeReady, needReconnect := false }
    · exact .inl ⟨hc, fun n h => hn ▸ h⟩
    · exact .inr h
  | ends n message t hn hd =>
    cases hd with
    | reconnected hc ho hr hd => exact .inr (hd ▸ ⟨rfl, rfl⟩)
    | dropped hc hd => exact .inl (hd ▸ ⟨rfl, by simp⟩)
    | armed hc left hd => exact .inl (hd ▸ ⟨rfl, by simp⟩)
    | answered f hc ho hd => exact .inl (hd ▸ ⟨rfl, by simp⟩)
    | closed hc ho hr hd => exact .inl (hd ▸ ⟨rfl, by simp⟩)
  | _ => exact .inl ⟨rfl, fun _ h => h⟩

/-- What a client holds of one kind of track when it has created so many
sessions: nothing, or the track that it made for the last of them. Only a client
that is to be muted has a track that is not enabled. -/
structure Holds {τ : Type} (wanted mute : Bool) (track : Nat → Bool → τ) (created made : Nat) (held : Option τ) :
    Prop where
  unwanted : wanted = false → held = none
  count : wanted = true → made = created
  last : wanted = true → ∀ n, created = n + 1 → ∃ enabled, held = some (track n enabled) ∧ (enabled = false → mute = true)

section Holds

variable {τ : Type} {wanted mute : Bool} {track : Nat → Bool → τ} {created made : Nat} {held : Option τ}

theorem Holds.start : Holds wanted mute track 0 0 none where
  unwanted := fun _ => rfl
  count := fun _ => rfl
  last := by simp

/-- A session is created, and the track for it was made. -/
theorem Holds.make (h : Holds true mute track created made held) :
    Holds true mute track (created + 1) (made + 1) (some (track made true)) where
  unwanted := by simp
  count := fun hw => congrArg (· + 1) (h.count hw)
  last := by
    intro hw n hn
    obtain rfl : made = n := by
      have := h.count hw
      omega
    exact ⟨true, rfl, by simp⟩

theorem Holds.skip (h : Holds false mute track created made held) :
    Holds false mute track (created + 1) made held where
  unwanted := h.unwanted
  count := by simp
  last := by simp

/-- The track of the last session, muted or not as it is to be. -/
theorem Holds.give {n : Nat} (h : Holds true mute track (n + 1) made held) :
    Holds true mute track (n + 1) made (some (track n (!mute))) where
  unwanted := by simp
  count := h.count
  last := by
    intro hw m hm
    obtain rfl : n = m := by omega
    exact ⟨!mute, rfl, by simp⟩

end Holds

def audioOf (cfg : TrackConfig) (n : Nat) (enabled : Bool) : AudioTrack := ⟨n, cfg.audioOptions, enabled⟩

def videoOf (cfg : TrackConfig) (n : Nat) (enabled : Bool) : VideoTrack := ⟨n, cfg.fixedResolution, enabled⟩

structure OwnTracks (cfg : TrackConfig) (s : TrackClient κ) : Prop where
  client : Inv s.client
  current : ∀ n, s.client.signaling = some n → s.client.created = n + 1
  audio : Holds cfg.audio cfg.initialMuteAudio (audioOf cfg) s.client.created s.audioMade s.audioTrack
  video : Holds (!cfg.noVideoDevice) cfg.initialMuteVideo (videoOf cfg) s.client.created s.videoMade s.videoTrack

theorem init_ownTracks (cfg : TrackConfig) : OwnTracks cfg (init : TrackClient κ) where
  client := VirtualClient.init_inv
  current := by simp [init, VirtualClient.init]
  audio := .start
  video := .start

/-- What an offer of session `n` hands to its peer connection. -/
def given (cfg : TrackConfig) (n : Nat) (videoOk : Bool) : List AddTrack :=
  (if cfg.audio then [.audio n (audioOf cfg n (!cfg.initialMuteAudio))] else []) ++
    if cfg.noVideoDevice then []
    else [.video n (videoOf cfg n (!cfg.initialMuteVideo)) (if videoOk then some cfg.preference else none)]

theorem makeTracks_ownTracks {cfg : TrackConfig} {s : TrackClient κ} (h : OwnTracks cfg s) {client : VirtualClient κ}
    (hinv : Inv client) (hcreated : client.created = s.client.created + 1)
    (hsignaling : client.signaling = some s.client.created) :
    OwnTracks cfg { makeTracks cfg s with client := client } where
  client := hinv
  current := by
    intro n hn
    obtain rfl : s.client.created = n := Option.some.inj (hsignaling.symm.trans hn)
    exact hcreated
  audio := by
    have haudio := h.audio
    change Holds _ _ _ client.created _ _
    rw [hcreated]
    cases ha : cfg.audio with
    | true =>
      rw [ha] at haudio
      cases hv : cfg.noVideoDevice <;> simpa [makeTracks, ha, hv, audioOf] using haudio.make
    | false =>
      rw [ha] at haudio
      cases hv : cfg.noVideoDevice <;> simpa [makeTracks, ha, hv] using haudio.skip
  video := by
    have hvideo := h.video
    change Holds _ _ _ client.created _ _
    rw [hcreated]
    cases hv : cfg.noVideoDevice with
    | true =>
      rw [hv] at hvideo
      cases ha : cfg.audio <;> simpa [makeTracks, ha, hv] using hvideo.skip
    | false =>
      rw [hv] at hvideo
      cases ha : cfg.audio <;> simpa [makeTracks, ha, hv, videoOf] using hvideo.make

theorem addAudio_eq {cfg : TrackConfig} {s : TrackClient κ} (h : OwnTracks cfg s) {n : Nat}
    (hn : s.client.signaling = some n) :
    ∃ t, addAudio cfg s = .ok t ∧ OwnTracks cfg t ∧ t.client = s.client ∧
      t.added = s.added ++ if cfg.audio then [.audio n (audioOf cfg n (!cfg.initialMuteAudio))] else [] := by
  have haudio := h.audio
  rw [h.current n hn] at haudio
  cases ha : cfg.audio with
  | false =>
    rw [ha] at haudio
    exact ⟨s, by simp [addAudio, haudio.unwanted rfl], h, rfl, by simp⟩
  | true =>
    rw [ha] at haudio
    obtain ⟨enabled, hheld, hmute⟩ := haudio.last rfl n rfl
    refine ⟨{ s with
      audioTrack := some (audioOf cfg n (!cfg.initialMuteAudio))
      added := s.added ++ [.audio n (audioOf cfg n (!cfg.initialMuteAudio))] }, ?_, ?_, rfl, by simp⟩
    · cases hm : cfg.initialMuteAudio with
      | true => simp [addAudio, hheld, hn, hm, audioOf]
      | false =>
        obtain rfl : enabled = true := by simpa [hm] using hmute
        simp [addAudio, hheld, hn, hm, audioOf]
    · exact { h with audio := by simpa [ha, h.current n hn] using haudio.give }

theorem addVideo_eq {cfg : TrackConfig} {s : TrackClient κ} (h : OwnTracks cfg s) {n : Nat}
    (hn : s.client.signaling = some n) (videoOk : Bool) :
    ∃ t, addVideo cfg videoOk s = .ok t ∧ OwnTracks cfg t ∧ t.client = s.client ∧
      t.added = s.added ++ if cfg.noVideoDevice then []
        else [.video n (videoOf cfg n (!cfg.initialMuteVideo)) (if videoOk then some cfg.preference else none)] := by
  have hvideo := h.video
  rw [h.current n hn] at hvideo
  cases hv : cfg.noVideoDevice with
  | true =>
    rw [hv] at hvideo
    exact ⟨s, by simp [addVideo, hvideo.unwanted rfl], h, rfl, by simp⟩
  | false =>
    rw [hv] at hvideo
    obtain ⟨enabled, hheld, hmute⟩ := hvideo.last rfl n rfl
    refine ⟨{ s with
      videoTrack := some (videoOf cfg n (!cfg.initialMuteVideo))
      added := s.added ++
        [.video n (videoOf cfg n (!cfg.initialMuteVideo)) (if videoOk then some cfg.preference else none)] },
      ?_, ?_, rfl, by simp⟩
    · cases hm : cfg.initialMuteVideo with
      | true => simp [addVideo, hheld, hn, hm, videoOf]
      | false =>
        obtain rfl : enabled = true := by simpa [hm] using hmute
        simp [addVideo, hheld, hn, hm, videoOf]
    · exact { h with video := by simpa [hv, h.current n hn] using hvideo.give }

/-- An offer finds the tracks of its own session. -/
theorem onSetOffer_eq {cfg : TrackConfig} {s : TrackClient κ} (h : OwnTracks cfg s) {n : Nat}
    (hn : s.client.signaling = some n) (videoOk : Bool) :
    ∃ t, onSetOffer cfg videoOk s = .ok t ∧ OwnTracks cfg t ∧ t.client = s.client ∧
      t.added = s.added ++ given cfg n videoOk := by
  obtain ⟨u, hu, hown, hclient, hadded⟩ := addAudio_eq h hn
  obtain ⟨t, ht, hown, hclient', hadded'⟩ := addVideo_eq hown (hclient ▸ hn) videoOk
  refine ⟨t, ?_, hown, hclient'.trans hclient, ?_⟩
  · rw [onSetOffer, hu]
    exact ht
  · rw [hadded', hadded, given, List.append_assoc]

/-- What an event hands to peer connections. -/
def Event.given (cfg : TrackConfig) : Event κ → List AddTrack
  | .client _ => []
  | .offer n videoOk => TrackClient.given cfg n videoOk

theorem ownTracks_step {vcfg : VirtualClientConfig} {cfg : TrackConfig} {s t : TrackClient κ} {e : Event κ}
    (h : OwnTracks cfg s) (he : Enabled s e) (ht : step vcfg cfg s e = .ok t) :
    OwnTracks cfg t ∧ t.added = s.added ++ e.given cfg := by
  cases e with
  | offer n videoOk =>
    obtain ⟨u, hu, hown, -, hadded⟩ := onSetOffer_eq h ((h.client.live_iff n).mp he.1) videoOk
    obtain rfl := Except.ok.inj (hu.symm.trans ht)
    exact ⟨hown, hadded⟩
  | client e =>
    rw [step] at ht
    cases hc : VirtualClient.step vcfg s.client e with
    | error f => simp [hc] at ht
    | ok client =>
      simp only [hc] at ht
      obtain rfl := Except.ok.inj ht
      have hinv := VirtualClient.step_inv vcfg h.client he hc
      obtain ⟨hsame, hsignaling⟩ | ⟨hnext, hsignaling⟩ := created_step h.client he hc
      · rw [if_pos hsame]
        refine ⟨?_, by simp [Event.given]⟩
        exact {
          client := hinv
          current := fun n hn => hsame.trans (h.current n (hsignaling n hn))
          audio := hsame ▸ h.audio
          video := hsame ▸ h.video }
      · rw [if_neg (by omega)]
        exact ⟨makeTracks_ownTracks h hinv hnext hsignaling, by simp [makeTracks_added, Event.given]⟩

/-- In every run of a client, whatever its sessions, retries and callbacks: an
offer hands the tracks that were made for the very session that calls it to that
session, muted as the configuration says, and nothing else; it never finds
`signaling_` empty. -/
theorem own_tracks {vcfg : VirtualClientConfig} {cfg : TrackConfig} {es : List (Event κ)} {s : TrackClient κ}
    (h : (machine vcfg cfg).Run init es s) :
    s.added = es.flatMap (Event.given cfg) ∧
      ∀ n videoOk, Enabled s (.offer n videoOk) → ∃ t, step vcfg cfg s (.offer n videoOk) = .ok t := by
  have hown : OwnTracks cfg s ∧ s.added = es.flatMap (Event.given cfg) := by
    refine Machine.Run.history (I := fun es s => OwnTracks cfg s ∧ s.added = es.flatMap (Event.given cfg)) ?_ h
      ⟨init_ownTracks cfg, rfl⟩
    rintro es s e t ⟨hs, hadded⟩ he ht
    obtain ⟨hown, hstep⟩ := ownTracks_step hs he ht
    refine ⟨hown, ?_⟩
    rw [hstep, hadded, List.flatMap_append]
    simp
  refine ⟨hown.2, ?_⟩
  intro n videoOk he
  obtain ⟨t, ht, -⟩ := onSetOffer_eq hown.1 ((hown.1.client.live_iff n).mp he.1) videoOk
  exact ⟨t, ht⟩

/-- A muted client whose first session is lost, and whose second one is not told
about a sender for the video. -/
theorem own_tracks_retry : ∃ s : TrackClient Unit,
    (machine { maxRetry := 1 } { initialMuteAudio := true }).Run init
        [.client .connect, .offer 0 true, .client (.disconnected 0 "lost"), .client .retryExpired,
          .client .retryReady, .offer 1 false] s ∧
      s.added =
        [.audio 0 ⟨0, ⟨none, none, none, none⟩, false⟩, .video 0 ⟨0, false, true⟩ (some .balanced),
          .audio 1 ⟨1, ⟨none, none, none, none⟩, false⟩, .video 1 ⟨1, false, true⟩ none] := by
  obtain ⟨s, hs, -⟩ := Machine.exec_exists (machine { maxRetry := 1 } { initialMuteAudio := true }) init
    [.client .connect, .offer 0 true, .client (.disconnected 0 "lost"), .client .retryExpired,
      .client .retryReady, .offer 1 false] (fun s : TrackClient Unit => s.client.created == 2) (by decide)
  exact ⟨s, hs, (own_tracks hs).1⟩

end TrackClient
