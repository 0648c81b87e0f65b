import Mathlib.Data.List.Count
import Zakuro.FakeVideoCapturer
import Zakuro.History

/-!
# The pictures of the fake video

What the capture thread hands over, whatever its surroundings do: how densely the
pictures follow each other, how they are numbered, and what each of them shows.
-/

namespace FakeVideoCapturer

open History (Each)

variable {cfg : FakeVideoCapturerConfig}

/-! ## Passes -/

/-- The source has taken the picture. -/
def Pass.wasCaptured (p : Pass) : Bool := p.captured == some true

def capturedPasses (s : FakeVideoCapturer) : List Pass := s.passes.filter Pass.wasCaptured

theorem Makes.kept {now : Nat} {s u : FakeVideoCapturer} {picture : Picture} (h : Makes cfg now s picture u) :
    u.startedAt = s.startedAt ∧ u.frame = s.frame ∧ u.clock = s.clock ∧ u.passes = s.passes := by
  rw [h.same]
  exact ⟨rfl, rfl, rfl, rfl⟩

theorem start_eq (cfg : FakeVideoCapturerConfig) (content : List UInt8) (fontLoaded : Bool) (t0 : Nat) :
    ∃ reader running, startCapture cfg content fontLoaded t0 =
      { startedAt := t0, wake := t0, clock := t0, y4mReader := reader, running := running } := by
  rw [startCapture]
  cases fontLoaded with
  | false => exact ⟨_, false, rfl⟩
  | true => cases cfg.kind <;> exact ⟨_, _, rfl⟩

/-! ## Pacing -/

/-- `1000 / config_.fps - 2` -/
def interval (cfg : FakeVideoCapturerConfig) : Int := (1000 : Int).tdiv cfg.fps - 2

/-- What the thread keeps to. -/
structure Paced (cfg : FakeVideoCapturerConfig) (s : FakeVideoCapturer) : Prop where
  frame : s.frame = BitVec.ofNat 32 s.capturedPasses.length
  spaced : Spaced (interval cfg * 1000000) (s.capturedPasses.map fun p => (p.now : Int))
  asleep : ∀ p ∈ s.capturedPasses, p.now + interval cfg * 1000000 ≤ s.wake
  ordered : s.passes.Pairwise fun p q => p.now ≤ q.now
  past : ∀ p ∈ s.passes, s.startedAt ≤ p.now ∧ p.now ≤ s.clock
  begun : s.startedAt ≤ s.clock

/-- A pass that begins in time keeps to it. -/
theorem Paced.add {s t : FakeVideoCapturer} (h : Paced cfg s) {p : Pass} (hwake : s.wake ≤ p.now)
    (hclock : s.clock ≤ p.now) (hstarted : t.startedAt = s.startedAt) (hnow : t.clock = p.now)
    (hpasses : t.passes = s.passes ++ [p])
    (hframe : t.frame = if p.wasCaptured then s.frame + 1 else s.frame) (hnext : (p.now : Int) ≤ t.wake)
    (hsleep : p.wasCaptured = true → p.now + interval cfg * 1000000 ≤ t.wake) : Paced cfg t := by
  have hbegun := h.begun
  have hpast : ∀ q ∈ t.passes, t.startedAt ≤ q.now ∧ q.now ≤ t.clock := by
    intro q hq
    rw [hpasses] at hq
    rw [hstarted, hnow]
    rcases List.mem_append.mp hq with hq | hq
    · have hle := h.past q hq
      omega
    · obtain rfl := List.mem_singleton.mp hq
      omega
  have hordered : t.passes.Pairwise fun p q => p.now ≤ q.now := by
    rw [hpasses]
    refine List.pairwise_append.mpr ⟨h.ordered, List.pairwise_singleton _ p, fun a ha b hb => ?_⟩
    rw [List.mem_singleton.mp hb]
    exact Nat.le_trans (h.past a ha).2 hclock
  cases hp : p.wasCaptured with
  | false =>
    have hcaptured : t.capturedPasses = s.capturedPasses := by
      rw [capturedPasses, hpasses, List.filter_append]
      simp [hp, capturedPasses]
    constructor
    · rw [hframe, hcaptured, hp]
      exact h.frame
    · rw [hcaptured]
      exact h.spaced
    · intro q hq
      rw [hcaptured] at hq
      have hle := h.asleep q hq
      omega
    · exact hordered
    · exact hpast
    · omega
  | true =>
    have hcaptured : t.capturedPasses = s.capturedPasses ++ [p] := by
      rw [capturedPasses, hpasses, List.filter_append]
      simp [hp, capturedPasses]
    constructor
    · rw [hframe, hcaptured, hp, if_pos rfl, h.frame, List.length_append, List.length_singleton]
      exact (BitVec.ofNat_add _ 1).symm
    · rw [hcaptured, List.map_append]
      refine h.spaced.snoc fun a ha => ?_
      obtain ⟨q, hq, rfl⟩ := List.mem_map.mp ha
      exact Int.le_trans (h.asleep q hq) hwake
    · intro q hq
      rw [hcaptured] at hq
      rcases List.mem_append.mp hq with hq | hq
      · have hle := h.asleep q hq
        omega
      · obtain rfl := List.mem_singleton.mp hq
        exact hsleep hp
    · exact hordered
    · exact hpast
    · omega

theorem interval_pos (hfps : 1 ≤ cfg.fps ∧ cfg.fps ≤ 60) : 14 ≤ interval cfg := by
  rw [interval, Int.tdiv_eq_ediv_of_nonneg (by omega)]
  have hdiv : (16 : Int) ≤ 1000 / cfg.fps := (Int.le_ediv_iff_mul_le (by omega)).mpr (by omega)
  omega

theorem Paced.step (hfps : 1 ≤ cfg.fps ∧ cfg.fps ≤ 60) {s t : FakeVideoCapturer} {e : Event}
    (h : Paced cfg s) (he : s.Enabled e) (hs : step cfg s e = .ok t) : Paced cfg t := by
  have hinterval := interval_pos hfps
  cases step_cases hs with
  | stops => exact { h with }
  | leaves now taken captured hstopped =>
    obtain ⟨-, -, hclock⟩ := he
    have hbegun := h.begun
    exact { h with
      past := fun p hp => ⟨(h.past p hp).1, Nat.le_trans (h.past p hp).2 hclock⟩
      begun := Nat.le_trans hbegun hclock }
  | fails now taken captured o r hkind hread hcode =>
    obtain ⟨-, -, hclock⟩ := he
    have hbegun := h.begun
    exact { h with
      past := fun p hp => ⟨(h.past p hp).1, Nat.le_trans (h.past p hp).2 hclock⟩
      begun := Nat.le_trans hbegun hclock }
  | drops now captured picture u hmakes =>
    obtain ⟨hstarted, hframe, hnow, hpasses⟩ := hmakes.kept
    refine h.add (p := ⟨now, picture, none⟩) he.2.1 he.2.2 hstarted hnow ?_ hframe ?_ (fun hp => nomatch hp)
    · exact congrArg (· ++ [_]) hpasses
    · show (now : Int) ≤ now + 16 * 1000000
      omega
  | refused now taken picture u hmakes =>
    obtain ⟨hstarted, hframe, hnow, hpasses⟩ := hmakes.kept
    refine h.add (p := ⟨now, picture, some false⟩) he.2.1 he.2.2 hstarted hnow ?_ hframe ?_
      (fun hp => nomatch hp)
    · exact congrArg (· ++ [_]) hpasses
    · show (now : Int) ≤ now + 1000000
      omega
  | captures now taken picture u hzero hmakes =>
    obtain ⟨hstarted, hframe, hnow, hpasses⟩ := hmakes.kept
    refine h.add (p := ⟨now, picture, some true⟩) he.2.1 he.2.2 hstarted hnow ?_ ?_ ?_ ?_
    · exact congrArg (· ++ [_]) hpasses
    · exact congrArg (· + 1) hframe
    · show (now : Int) ≤ now + interval cfg * 1000000
      omega
    · exact fun _ => Int.le_refl _

theorem start_paced (content : List UInt8) (fontLoaded : Bool) (t0 : Nat) :
    Paced cfg (startCapture cfg content fontLoaded t0) := by
  obtain ⟨reader, running, heq⟩ := start_eq cfg content fontLoaded t0
  rw [heq]
  exact ⟨rfl, List.Pairwise.nil, by simp [capturedPasses], List.Pairwise.nil, by simp, Nat.le_refl t0⟩

theorem runs_paced (hfps : 1 ≤ cfg.fps ∧ cfg.fps ≤ 60) {content : List UInt8} {fontLoaded : Bool} {t0 : Nat}
    {es : List Event} {s : FakeVideoCapturer}
    (h : Machine.Run (machine cfg) (startCapture cfg content fontLoaded t0) es s) : Paced cfg s :=
  h.invariant (I := Paced cfg) (fun _ _ _ hI he hs => hI.step hfps he hs) (start_paced content fontLoaded t0)

/-- The timestamps of the pictures that the source has taken. -/
def timestamps (s : FakeVideoCapturer) : List Int :=
  s.capturedPasses.map fun p => (s.timestampUs p.now : Int)

theorem Paced.timestamps_spaced {s : FakeVideoCapturer} (h : Paced cfg s) :
    Spaced (interval cfg * 1000) s.timestamps := by
  have hspaced := List.pairwise_map.mp h.spaced
  refine List.pairwise_map.mpr (hspaced.imp_of_mem fun {p q} hp hq hpq => ?_)
  have hpast := h.past p (List.mem_of_mem_filter hp)
  have hpast' := h.past q (List.mem_of_mem_filter hq)
  simp only [timestampUs]
  omega

/-- With a frame rate that the command line allows, every run of the capture
thread numbers the pictures that are taken, hands all pictures over in the order
of time, and in no window of `n` intervals of its sleep more than `n`. -/
theorem pictures_paced (hfps : 1 ≤ cfg.fps ∧ cfg.fps ≤ 60) {content : List UInt8} {fontLoaded : Bool}
    {t0 : Nat} {es : List Event} {s : FakeVideoCapturer}
    (h : Machine.Run (machine cfg) (startCapture cfg content fontLoaded t0) es s) :
    s.frame = BitVec.ofNat 32 s.capturedPasses.length ∧
      (s.passes.Pairwise fun p q => s.timestampUs p.now ≤ s.timestampUs q.now) ∧
      ∀ (t : Int) (n : Nat),
        (s.timestamps.filter fun ts => t ≤ ts ∧ ts < t + n * (interval cfg * 1000)).length ≤ n := by
  have hpaced := runs_paced hfps h
  refine ⟨hpaced.frame, hpaced.ordered.imp fun hle => ?_, fun t n => hpaced.timestamps_spaced.window t n⟩
  exact Nat.div_le_div_right (Nat.sub_le_sub_right hle _)

/-- Two pictures that are taken and one that is not, at sixty frames a second. -/
theorem pictures_paced_sixty : ∃ s : FakeVideoCapturer,
    Machine.Run (machine ⟨2, 2, 60, .external⟩) (startCapture ⟨2, 2, 60, .external⟩ [] true 5)
      [.pass 5 true true, .pass 14000005 true false, .pass 15000005 true true] s ∧
      s.timestamps = [0, 15000] ∧
      ∀ (t : Int) (n : Nat), (s.timestamps.filter fun ts =>
        t ≤ ts ∧ ts < t + n * (interval ⟨2, 2, 60, .external⟩ * 1000)).length ≤ n := by
  obtain ⟨s, hs, hp⟩ := Machine.exec_exists (machine ⟨2, 2, 60, .external⟩)
    (startCapture ⟨2, 2, 60, .external⟩ [] true 5)
    [.pass 5 true true, .pass 14000005 true false, .pass 15000005 true true]
    (fun s => s.timestamps == [0, 15000]) (by decide +kernel)
  exact ⟨s, hs, by simpa using hp, (pictures_paced ⟨by decide, by decide⟩ hs).2.2⟩

/-! ## What is drawn -/

/-- The `k`-th random picture of a size. -/
def randomPicture (width height k : Nat) : List (List (BitVec 32)) :=
  (List.range height).map fun y => (List.range width).map fun x =>
    0xff000000 ||| ({} : Xorshift).output (x + width * y + width * height * k)

/-- What a picture that is drawn shows. -/
def Drawn (cfg : FakeVideoCapturerConfig) (startedAt : Nat) (before : List Pass) (p : Pass) : Prop :=
  p.picture = match cfg.kind with
    | .safari => .safari (FakeVideoTexts.drawTexts cfg.width cfg.height cfg.fps
        ((p.now - startedAt) / 1000000 : Nat) (BitVec.ofNat 32 (before.countP Pass.wasCaptured)))
    | .sandstorm => .sandstorm (randomPicture cfg.width.toNat cfg.height.toNat before.length)
    | .y4mFile | .external => .external p.now

theorem after_pixel : Generator.after pixel = Xorshift.next := rfl

theorem sandstorm_eq (width height : Nat) (g : Xorshift) :
    sandstorm width height g = ((List.range height).map fun y => (List.range width).map fun x =>
      0xff000000 ||| g.output (x + width * y), Xorshift.next^[width * height] g) := by
  rw [sandstorm, Generator.draw_draw_eq, after_pixel]
  rfl

/-- Where the thread stands in the sequence of its pictures. -/
structure Drawing (cfg : FakeVideoCapturerConfig) (t0 : Nat) (s : FakeVideoCapturer) : Prop where
  startedAt : s.startedAt = t0
  frame : s.frame = BitVec.ofNat 32 (s.passes.countP Pass.wasCaptured)
  random : cfg.kind = .sandstorm →
    s.random = Xorshift.next^[cfg.width.toNat * cfg.height.toNat * s.passes.length] {}
  drawn : Each (Drawn cfg t0) s.passes

/-- The picture that is drawn next. -/
theorem Drawing.updateImage {t0 now : Nat} {s : FakeVideoCapturer} (h : Drawing cfg t0 s)
    (hkind : cfg.kind ≠ .y4mFile) {p : Pass} (hnow : p.now = now)
    (hpicture : p.picture = (FakeVideoCapturer.updateImage cfg now { s with clock := now }).1) :
    Drawn cfg t0 s.passes p ∧ (cfg.kind = .sandstorm →
      (FakeVideoCapturer.updateImage cfg now { s with clock := now }).2.random =
        Xorshift.next^[cfg.width.toNat * cfg.height.toNat * (s.passes.length + 1)] {}) := by
  subst hnow
  rw [Drawn, hpicture, FakeVideoCapturer.updateImage]
  cases hk : cfg.kind with
  | y4mFile => exact absurd hk hkind
  | external => exact ⟨rfl, by simp⟩
  | safari =>
    dsimp only
    rw [elapsedMs, h.startedAt, h.frame]
    exact ⟨rfl, by simp⟩
  | sandstorm =>
    dsimp only
    rw [sandstorm_eq, h.random hk]
    constructor
    · simp only [← Xorshift.output_add, randomPicture, Nat.add_comm]
    · intro _
      rw [← Function.iterate_add_apply, Nat.mul_add, Nat.mul_one, Nat.add_comm]

theorem Makes.updated {now : Nat} {s u : FakeVideoCapturer} {picture : Picture}
    (h : Makes cfg now s picture u) (hkind : cfg.kind ≠ .y4mFile) :
    picture = (s.updateImage cfg now).1 ∧ u = (s.updateImage cfg now).2 := by
  cases h with
  | drawn _ => exact ⟨rfl, rfl⟩
  | read o r hfile _ _ => exact absurd hfile hkind

theorem Drawing.add {t0 : Nat} {s t u : FakeVideoCapturer} (h : Drawing cfg t0 s)
    (hkind : cfg.kind ≠ .y4mFile) {p : Pass} (hmakes : Makes cfg p.now { s with clock := p.now } p.picture u)
    (hstarted : t.startedAt = u.startedAt) (hrandom : t.random = u.random) (hpasses : t.passes = u.passes ++ [p])
    (hframe : t.frame = if p.wasCaptured then u.frame + 1 else u.frame) : Drawing cfg t0 t := by
  obtain ⟨hstarted', hframe', -, hpasses'⟩ := hmakes.kept
  rw [hpasses'] at hpasses
  have hnext : Drawn cfg t0 s.passes p ∧ (cfg.kind = .sandstorm → u.random =
      Xorshift.next^[cfg.width.toNat * cfg.height.toNat * (s.passes.length + 1)] {}) := by
    obtain ⟨hpicture, rfl⟩ := hmakes.updated hkind
    exact h.updateImage hkind rfl hpicture
  constructor
  · rw [hstarted, hstarted', h.startedAt]
  · rw [hframe, hframe', hpasses, List.countP_append, List.countP_singleton]
    cases p.wasCaptured with
    | false => exact h.frame
    | true =>
      rw [if_pos rfl, if_pos rfl]
      exact (congrArg (· + 1) h.frame).trans (BitVec.ofNat_add _ 1).symm
  · intro hsandstorm
    rw [hrandom, hnext.2 hsandstorm, hpasses, List.length_append, List.length_singleton]
  · rw [hpasses]
    exact h.drawn.snoc hnext.1

theorem Drawing.step {t0 : Nat} {s t : FakeVideoCapturer} {e : Event} (h : Drawing cfg t0 s)
    (hkind : cfg.kind ≠ .y4mFile) (hs : FakeVideoCapturer.step cfg s e = .ok t) : Drawing cfg t0 t := by
  cases step_cases hs with
  | stops => exact { h with }
  | leaves now taken captured hstopped => exact { h with }
  | fails now taken captured o r hfile hread hcode => exact absurd hfile hkind
  | drops now captured picture u hmakes =>
    exact h.add (p := ⟨now, picture, none⟩) hkind hmakes rfl rfl rfl rfl
  | refused now taken picture u hmakes =>
    exact h.add (p := ⟨now, picture, some false⟩) hkind hmakes rfl rfl rfl rfl
  | captures now taken picture u hzero hmakes =>
    exact h.add (p := ⟨now, picture, some true⟩) hkind hmakes rfl rfl rfl rfl

theorem runs_drawing (hkind : cfg.kind ≠ .y4mFile) {content : List UInt8} {fontLoaded : Bool} {t0 : Nat}
    {es : List Event} {s : FakeVideoCapturer}
    (h : Machine.Run (machine cfg) (startCapture cfg content fontLoaded t0) es s) : Drawing cfg t0 s := by
  refine h.invariant (I := Drawing cfg t0) (fun _ _ _ hI _ hs => hI.step hkind hs) ?_
  obtain ⟨reader, running, heq⟩ := start_eq cfg content fontLoaded t0
  rw [heq]
  exact ⟨rfl, rfl, fun _ => rfl, Each.nil _⟩

/-- The random pictures of a run are consecutive pieces of what one generator
puts out, row by row, with nothing left out and nothing shown twice. -/
theorem random_pictures (hkind : cfg.kind = .sandstorm) {content : List UInt8} {fontLoaded : Bool} {t0 : Nat}
    {es : List Event} {s : FakeVideoCapturer}
    (h : Machine.Run (machine cfg) (startCapture cfg content fontLoaded t0) es s) :
    s.passes.map Pass.picture = (List.range s.passes.length).map fun k =>
      .sandstorm (randomPicture cfg.width.toNat cfg.height.toNat k) := by
  have hdrawn := (runs_drawing (by simp [hkind]) h).drawn
  apply List.ext_getElem (by simp)
  intro k hk hk'
  rw [List.length_map] at hk
  rw [List.getElem_map, List.getElem_map, List.getElem_range]
  have hsplit : s.passes = s.passes.take k ++ s.passes[k] :: s.passes.drop (k + 1) := by
    rw [← List.drop_eq_getElem_cons hk, List.take_append_drop]
  have hpass := hdrawn _ _ _ hsplit
  rw [Drawn, hkind, List.length_take, Nat.min_eq_left (Nat.le_of_lt hk)] at hpass
  exact hpass

theorem random_pictures_two : ∃ s : FakeVideoCapturer,
    Machine.Run (machine ⟨2, 1, 30, .sandstorm⟩) (startCapture ⟨2, 1, 30, .sandstorm⟩ [] true 0)
      [.pass 0 true true, .pass 31000000 true false] s ∧ s.passes.length = 2 ∧
      s.passes.map Pass.picture = (List.range s.passes.length).map fun k =>
        .sandstorm (randomPicture (Int.toNat 2) (Int.toNat 1) k) := by
  obtain ⟨s, hs, hp⟩ := Machine.exec_exists (machine ⟨2, 1, 30, .sandstorm⟩)
    (startCapture ⟨2, 1, 30, .sandstorm⟩ [] true 0) [.pass 0 true true, .pass 31000000 true false]
    (fun s => s.passes.length == 2) (by decide +kernel)
  have hpictures := random_pictures rfl hs
  exact ⟨s, hs, by simpa using hp, hpictures⟩

/-- What is written in a picture can be read back: the time since the capture has
started, and how many pictures were taken before. -/
def Readable (startedAt : Nat) (before : List Pass) (p : Pass) : Prop :=
  ∃ time count rest, p.picture = .safari (time :: count :: rest) ∧
    ((p.now - startedAt) / 1000000 < 2 ^ 31 * 3600000 →
      FakeVideoTexts.readTime time = (p.now - startedAt) / 1000000) ∧
    (before.countP Pass.wasCaptured < 2 ^ 31 →
      FakeVideoTexts.number count = before.countP Pass.wasCaptured)

theorem written_pictures (hkind : cfg.kind = .safari) {content : List UInt8} {fontLoaded : Bool} {t0 : Nat}
    {es : List Event} {s : FakeVideoCapturer}
    (h : Machine.Run (machine cfg) (startCapture cfg content fontLoaded t0) es s) :
    Each (Readable t0) s.passes := by
  intro before p after hsplit
  have hdrawn := (runs_drawing (by simp [hkind]) h).drawn before p after hsplit
  rw [Drawn, hkind] at hdrawn
  refine ⟨_, _, _, hdrawn, FakeVideoTexts.readTime_timeText, fun hcount => ?_⟩
  have hnat : (BitVec.ofNat 32 (before.countP Pass.wasCaptured)).toNat = before.countP Pass.wasCaptured := by
    rw [BitVec.toNat_ofNat, Nat.mod_eq_of_lt (by omega)]
  rw [FakeVideoTexts.number_frameText (by omega), hnat]

theorem written_pictures_one : ∃ s : FakeVideoCapturer,
    Machine.Run (machine ⟨640, 480, 30, .safari⟩) (startCapture ⟨640, 480, 30, .safari⟩ [] true 0)
      [.pass 3723004000000 true true] s ∧ s.passes.length = 1 ∧ Each (Readable 0) s.passes := by
  obtain ⟨s, hs, hp⟩ := Machine.exec_exists (machine ⟨640, 480, 30, .safari⟩)
    (startCapture ⟨640, 480, 30, .safari⟩ [] true 0) [.pass 3723004000000 true true]
    (fun s => s.passes.length == 1) (by decide +kernel)
  exact ⟨s, hs, by simpa using hp, written_pictures rfl hs⟩

/-! ## What is read from a file -/

open Y4MSampling (Video Ready)

/-- The times that `GetFrame` can compute with. -/
def InTime (v : Video) (s : FakeVideoCapturer) : Event → Prop
  | .pass now _ _ => s.elapsedMs now < 2 ^ 32 ∧ v.frameNumber (s.elapsedMs now) < 2 ^ 31
  | .stop => True

/-- The picture shows the frame of its time, of the file that repeats for ever. -/
def Sampled (v : Video) (startedAt : Nat) (p : Pass) : Prop :=
  p.picture = .y4m (v.shown (v.frameNumber ((p.now - startedAt) / 1000000)))

theorem frameNumber_mono (v : Video) {a b : Nat} (h : a ≤ b) : v.frameNumber a ≤ v.frameNumber b := by
  have hnum := v.fpsNum_pos
  have hden := v.fpsDen_pos
  apply Int.toNat_le_toNat
  apply Int.ediv_le_ediv (by omega)
  exact Int.mul_le_mul_of_nonneg_right (by omega) (by omega)

/-- The reader, and the buffer that shows its last frame. -/
structure Reading (v : Video) (t0 : Nat) (s : FakeVideoCapturer) : Prop where
  startedAt : s.startedAt = t0
  ready : ∃ last, Ready v last s.y4mReader ∧ (last = none → s.y4mBuffer = []) ∧
    ∀ f, last = some f → f ≤ v.frameNumber (s.elapsedMs s.clock) ∧ s.y4mBuffer = v.shown f
  going : s.stopped = false → s.running = true
  sampled : ∀ p ∈ s.passes, Sampled v t0 p

/-- A call of `GetFrame` at a later time leaves the frame of that time in the buffer. -/
theorem Reading.getFrame {v : Video} {t0 now : Nat} {s : FakeVideoCapturer} (h : Reading v t0 s)
    (hclock : s.clock ≤ now) (hms : s.elapsedMs now < 2 ^ 32)
    (hf : v.frameNumber (s.elapsedMs now) < 2 ^ 31) :
    ∃ o r, s.y4mReader.getFrame (s.elapsedMs now) = some (o, r) ∧ o.code = 0 ∧
      Ready v (some (v.frameNumber (s.elapsedMs now))) r ∧
      o.data ++ s.y4mBuffer.drop o.data.length = v.shown (v.frameNumber (s.elapsedMs now)) := by
  obtain ⟨last, hready, hempty, hlast⟩ := h.ready
  have hmono : v.frameNumber (s.elapsedMs s.clock) ≤ v.frameNumber (s.elapsedMs now) :=
    frameNumber_mono v (Nat.div_le_div_right (Nat.sub_le_sub_right hclock _))
  by_cases hsame : last = some (v.frameNumber (s.elapsedMs now))
  · refine ⟨_, _, Y4MSampling.getFrame_same hready hms hf hsame, rfl, hsame ▸ hready, ?_⟩
    exact (hlast _ hsame).2
  · have hnew : ¬ ∃ g, last = some g ∧ v.frameNumber (s.elapsedMs now) ≤ g := by
      rintro ⟨g, hg, hle⟩
      have hg' := (hlast g hg).1
      exact hsame (hg.trans (congrArg some (by omega)))
    obtain ⟨r, hread, hready'⟩ := Y4MSampling.getFrame_fresh hready hms hf hnew
    refine ⟨_, r, hread, rfl, hready', ?_⟩
    have hlength : s.y4mBuffer.length ≤ (v.shown (v.frameNumber (s.elapsedMs now))).length := by
      cases last with
      | none => simp [hempty rfl]
      | some g =>
        have hold := Y4MSampling.shown_length v g
        have hshown := Y4MSampling.shown_length v (v.frameNumber (s.elapsedMs now))
        rw [(hlast g rfl).2]
        omega
    rw [List.drop_eq_nil_of_le hlength, List.append_nil]

theorem Makes.got {now : Nat} {s u : FakeVideoCapturer} {picture : Picture} (h : Makes cfg now s picture u)
    (hkind : cfg.kind = .y4mFile) : ∃ o r, s.y4mReader.getFrame (s.elapsedMs now) = some (o, r) ∧
      picture = .y4m (o.data ++ s.y4mBuffer.drop o.data.length) ∧
      u = { s with y4mReader := r, y4mBuffer := o.data ++ s.y4mBuffer.drop o.data.length } := by
  cases h with
  | drawn hdrawn => exact absurd hkind hdrawn
  | read o r _ hread _ => exact ⟨o, r, hread, rfl, rfl⟩

theorem Reading.add {v : Video} {t0 : Nat} {s t u : FakeVideoCapturer} (h : Reading v t0 s)
    (hkind : cfg.kind = .y4mFile) {p : Pass} (hrunning : s.running = true) (hclock : s.clock ≤ p.now)
    (hms : s.elapsedMs p.now < 2 ^ 32) (hf : v.frameNumber (s.elapsedMs p.now) < 2 ^ 31)
    (hmakes : Makes cfg p.now { s with clock := p.now } p.picture u)
    (ht : t = { u with wake := t.wake, frame := t.frame, passes := u.passes ++ [p] }) : Reading v t0 t := by
  obtain ⟨o, r, hread, -, hready, hshown⟩ := h.getFrame hclock hms hf
  obtain ⟨o', r', hread', hpicture, rfl⟩ := hmakes.got hkind
  obtain ⟨rfl, rfl⟩ := Prod.mk.inj (Option.some.inj (hread.symm.trans hread'))
  rw [ht]
  constructor
  · exact h.startedAt
  · refine ⟨some (v.frameNumber (s.elapsedMs p.now)), hready, ?_, ?_⟩
    · intro hnone
      cases hnone
    · intro f hlast
      obtain rfl := Option.some.inj hlast
      exact ⟨Nat.le_refl _, hshown⟩
  · exact fun _ => hrunning
  · intro q hq
    rcases List.mem_append.mp hq with hq | hq
    · exact h.sampled q hq
    · obtain rfl := List.mem_singleton.mp hq
      rw [Sampled, hpicture, hshown, elapsedMs, h.startedAt]

theorem Reading.step {v : Video} {t0 : Nat} {s t : FakeVideoCapturer} {e : Event} (h : Reading v t0 s)
    (hkind : cfg.kind = .y4mFile) (he : s.Enabled e) (hin : InTime v s e)
    (hs : FakeVideoCapturer.step cfg s e = .ok t) : Reading v t0 t := by
  cases step_cases hs with
  | stops => exact { h with going := fun hno => nomatch hno }
  | leaves now taken captured hstopped =>
    obtain ⟨last, hready, hempty, hlast⟩ := h.ready
    have hmono : v.frameNumber (s.elapsedMs s.clock) ≤ v.frameNumber (s.elapsedMs now) :=
      frameNumber_mono v (Nat.div_le_div_right (Nat.sub_le_sub_right he.2.2 _))
    exact { h with
      ready := ⟨last, hready, hempty, fun f hf => ⟨Nat.le_trans (hlast f hf).1 hmono, (hlast f hf).2⟩⟩
      going := fun hno => by simp [hstopped] at hno }
  | fails now taken captured o r _ hread hcode =>
    obtain ⟨o', r', hread', hzero, -⟩ := h.getFrame he.2.2 hin.1 hin.2
    obtain ⟨rfl, -⟩ := Prod.mk.inj (Option.some.inj (hread.symm.trans hread'))
    exact absurd hzero hcode
  | drops now captured picture u hmakes =>
    exact h.add (p := ⟨now, picture, none⟩) hkind he.1 he.2.2 hin.1 hin.2 hmakes rfl
  | refused now taken picture u hmakes =>
    exact h.add (p := ⟨now, picture, some false⟩) hkind he.1 he.2.2 hin.1 hin.2 hmakes rfl
  | captures now taken picture u hzero hmakes =>
    exact h.add (p := ⟨now, picture, some true⟩) hkind he.1 he.2.2 hin.1 hin.2 hmakes rfl

/-- With a well-formed file the thread goes on until it is stopped, and each
picture that it makes shows the frame of its time. -/
theorem file_pictures (v : Video) (hkind : cfg.kind = .y4mFile) {t0 : Nat} {es : List Event}
    {s : FakeVideoCapturer}
    (h : Machine.Run ((machine cfg).restrict (InTime v)) (startCapture cfg v.content true t0) es s) :
    (s.stopped = false → s.running = true) ∧ ∀ p ∈ s.passes, Sampled v t0 p := by
  have hstart : Reading v t0 (startCapture cfg v.content true t0) := by
    obtain ⟨r, hopen, hready⟩ := Y4MSampling.open_ready v
    rw [startCapture, if_neg (by simp), hkind, hopen]
    exact ⟨rfl, ⟨none, hready, fun _ => rfl, fun f hf => nomatch hf⟩, fun _ => rfl, by simp⟩
  have hreading : Reading v t0 s := by
    refine h.invariant (fun r e t hI he hs => ?_) hstart
    exact hI.step hkind he.1 he.2 hs
  exact ⟨hreading.going, hreading.sampled⟩

instance (v : Video) (s : FakeVideoCapturer) : DecidablePred (InTime v s)
  | .pass now _ _ =>
    inferInstanceAs (Decidable (s.elapsedMs now < 2 ^ 32 ∧ v.frameNumber (s.elapsedMs now) < 2 ^ 31))
  | .stop => .isTrue trivial

theorem file_pictures_two : ∃ s : FakeVideoCapturer,
    Machine.Run ((machine ⟨2, 2, 30, .y4mFile⟩).restrict (InTime Y4MSampling.twoFrames))
      (startCapture ⟨2, 2, 30, .y4mFile⟩ Y4MSampling.twoFrames.content true 0)
      [.pass 0 true true, .pass 34000000 true true] s ∧ s.passes.length = 2 ∧
      ∀ p ∈ s.passes, Sampled Y4MSampling.twoFrames 0 p := by
  obtain ⟨s, hs, hp⟩ := Machine.exec_exists
    ((machine ⟨2, 2, 30, .y4mFile⟩).restrict (InTime Y4MSampling.twoFrames))
    (startCapture ⟨2, 2, 30, .y4mFile⟩ Y4MSampling.twoFrames.content true 0)
    [.pass 0 true true, .pass 34000000 true true] (fun s => s.passes.length == 2) (by decide +kernel)
  exact ⟨s, hs, by simpa using hp, (file_pictures Y4MSampling.twoFrames rfl hs).2⟩

end FakeVideoCapturer
