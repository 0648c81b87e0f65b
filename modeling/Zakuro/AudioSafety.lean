import Zakuro.AudioFrames
import Zakuro.WavFile

/-!
# Whether the fake audio is read beside its end

A frame reads one sample for each channel and the position goes back to the
first sample only between frames. So the reader stays inside exactly the data
that consists of whole frames, of which there has to be one.
-/

namespace AudioThread

open CData AudioSource

variable {a : FakeAudioData}

/-- Every access of every frame is inside the data. -/
def Safe (a : FakeAudioData) : Prop :=
  ∀ count i t, Amid a count i t → i < count → frame a t ≠ .error .outOfBounds

section MonoOrStereo

variable (hch : a.channels = 1 ∨ a.channels = 2)
include hch

theorem safe_of_whole (hwhole : Whole a) : Safe a := by
  intro count i t h _ herror
  have haligned := amid_invariant (fun s t hs => frame_aligned hch hwhole hs)
    (start_aligned hch hwhole) h
  obtain ⟨u, hu, -⟩ := frame_index haligned.inside (channels_ne_zero hch)
  rw [hu] at herror
  cases herror

/-- Frames that begin inside the data are passed one after the other. -/
theorem frames_inside (k : Nat) (hk : k = 0 ∨ k * a.channels.toNat < a.data.length) :
    ∃ t, frames a k {} = .ok t ∧ t.index = k * a.channels.toNat := by
  induction k with
  | zero => exact ⟨{}, rfl, by simp⟩
  | succ k ih =>
    have hk : (k + 1) * a.channels.toNat < a.data.length := hk.resolve_left (Nat.succ_ne_zero k)
    rw [Nat.succ_mul] at hk
    obtain ⟨t, ht, hindex⟩ := ih (.inr (Nat.lt_of_le_of_lt (Nat.le_add_right _ _) hk))
    obtain ⟨u, hu, hnext⟩ := frame_index (s := t) (by omega) (channels_ne_zero hch)
    refine ⟨u, ?_, ?_⟩
    · simp only [frames, ht, hu]
    · rw [hnext, hindex, nextIndex, if_neg (by omega), Nat.succ_mul]

/-- The frame that the data ends in, or the first one if there is none. -/
theorem exists_frame_error (hwhole : ¬ Whole a) : ∃ n t, n + 1 < 2 ^ 31 ∧ frames a n {} = .ok t ∧
    frame a t = .error .outOfBounds := by
  have hfits := a.dataFits
  have herror (n : Nat) (hn : n = 0 ∨ n * a.channels.toNat < a.data.length)
      (hle : n * a.channels.toNat ≤ a.data.length)
      (hlast : a.data.length < n * a.channels.toNat + a.channels.toNat) :
      ∃ t, frames a n {} = .ok t ∧ frame a t = .error .outOfBounds := by
    obtain ⟨t, ht, hindex⟩ := frames_inside hch n hn
    exact ⟨t, ht, frame_error (hindex ▸ hle) (hindex ▸ hlast)⟩
  rcases Nat.eq_zero_or_pos a.data.length with hempty | hpos
  · obtain ⟨t, ht, hframe⟩ := herror 0 (.inl rfl) (by omega) (by omega)
    exact ⟨0, t, by decide, ht, hframe⟩
  · have hodd : ¬ a.channels ∣ a.data.length := fun hdvd =>
      hwhole ⟨List.ne_nil_of_length_pos hpos, hdvd⟩
    have hstereo : a.channels = 2 := hch.resolve_left fun hmono => hodd (hmono ▸ Int.one_dvd _)
    have htwo : a.channels.toNat = 2 := by rw [hstereo]; rfl
    rw [hstereo] at hodd
    rw [htwo] at herror
    obtain ⟨t, ht, hframe⟩ := herror (a.data.length / 2) (by omega) (by omega) (by omega)
    exact ⟨a.data.length / 2, t, by omega, ht, hframe⟩

theorem not_safe (hwhole : ¬ Whole a) (hrate : 0 < a.sampleRate)
    (hsize : 0 ≤ bufSize a.sampleRate a.channels) : ¬ Safe a := by
  intro hsafe
  obtain ⟨n, t, hn, ht, herror⟩ := exists_frame_error hch hwhole
  obtain ⟨elapsed, count, hcount, hle⟩ := exists_elapsed hrate a.rateFits hn
  exact hsafe count n t ⟨.start hsize, hcount, reach_frames (by omega) (by omega) ht⟩ (by omega) herror

omit hch in
/-- No frame is passed unless some are counted. -/
theorem amid_idle {count i : Int} {t : AudioThread} (h : Amid a count i t) (hcount : count ≤ 0) :
    i = 0 := by
  obtain ⟨-, -, hreach⟩ := h
  refine hreach.invariant (I := fun cur => cur.1 = 0) ?_ rfl
  intro cur cur' hcur hpass
  have hcur : cur.1 = 0 := hcur
  simp [framePass, hcur, Int.not_lt.mpr hcount] at hpass

omit hch in
theorem amid_count {count i : Int} {t : AudioThread} (h : Amid a count i t) (hrate : a.sampleRate ≤ 0) :
    count ≤ 0 := by
  obtain @⟨_, _, elapsed, -, hcount, -⟩ := h
  unfold sampleCount at hcount
  dsimp only at hcount
  split at hcount
  · obtain rfl := Option.some.inj hcount
    have hproduct := Int.mul_nonpos_of_nonpos_of_nonneg hrate
      (Int.natCast_nonneg (elapsed / 10 ^ 6))
    have htdiv := Int.tdiv_nonneg (Int.neg_nonneg_of_nonpos hproduct) (b := 1000) (by decide)
    rw [Int.neg_tdiv] at htdiv
    omega
  · cases hcount

/-- The reader is safe exactly with data of whole frames, unless nothing is read. -/
theorem safe_iff_whole : Safe a ↔
    a.sampleRate ≤ 0 ∨ bufSize a.sampleRate a.channels < 0 ∨ Whole a := by
  constructor
  · intro hsafe
    by_contra hnone
    simp only [not_or, Int.not_le, Int.not_lt] at hnone
    exact not_safe hch hnone.2.2 hnone.1 hnone.2.1 hsafe
  · rintro (hrate | hsize | hwhole)
    · intro count i t h hlt
      have hcount := amid_count h hrate
      have hidle := amid_idle h hcount
      omega
    · intro count i t h
      exact absurd (amid_start h) (Int.not_le.mpr hsize)
    · exact safe_of_whole hch hwhole

end MonoOrStereo

end AudioThread

/-! ## The data of a WAV file -/

namespace WavReader

open CData

theorem readSamples_length {b : Buffer} {off n : Nat} {samples : List Int16}
    (h : readSamples b off n = .ok samples) : samples.length = n := by
  induction n generalizing off samples with
  | zero =>
    obtain rfl := Except.ok.inj h
    rfl
  | succ n ih =>
    rw [readSamples] at h
    simp only [bind, Except.bind] at h
    split at h
    · cases h
    · split at h
      · cases h
      · cases hrest : readSamples b (off + 2) n with
        | error f => simp [hrest] at h
        | ok rest =>
          rw [hrest] at h
          obtain rfl := Except.ok.inj h
          rw [List.length_cons, ih hrest]

/-- Where the loop leaves with 0, it has added fewer samples than an `int` counts. -/
theorem chunkPass_loads {b : Buffer} {r r' : WavReader} {cur : Nat × Nat}
    (h : chunkPass b r cur = .inr (.ok (0, r'))) :
    ∃ samples, r' = { r with data := r.data ++ samples } ∧ samples.length < 2 ^ 31 := by
  unfold chunkPass at h
  split at h
  · cases h
  · cases h
  · split at h
    next chunk _ _ =>
      have hload := Sum.inr.inj h
      unfold loadData at hload
      dsimp only at hload
      split at hload
      · cases hload
      next hn =>
        cases hsamples : readSamples b chunk.chunkData (toInt (chunk.chunkSize / 2 : Nat)).toNat with
        | error f =>
          rw [hsamples] at hload
          cases hload
        | ok samples =>
          rw [hsamples] at hload
          obtain ⟨-, rfl⟩ := Prod.mk.inj (Except.ok.inj hload)
          have hlength := readSamples_length hsamples
          have hrange := (toInt_range (chunk.chunkSize / 2 : Nat)).2
          exact ⟨samples, rfl, by omega⟩
    · cases h

structure Loaded (r : WavReader) : Prop where
  channels : r.channels = 1 ∨ r.channels = 2
  rateFits : r.sampleRate < 2 ^ 31
  dataFits : r.data.length < 2 ^ 31

/-- What a reader without samples holds after it has loaded a file. -/
theorem Loads.loaded {b : Buffer} {r r' : WavReader} (hr : r.data = []) (h : Loads b r r') :
    Loaded r' := by
  have hb := headed_of_loads h
  rw [loads_of_headed hb] at h
  obtain ⟨cur, -, hleave⟩ := Loop.reach_of_ends h
  obtain ⟨samples, rfl, hsamples⟩ := chunkPass_loads hleave
  refine ⟨hb.fmt.2.1, Int32.toInt_lt _, ?_⟩
  simpa [withFormat, hr] using hsamples

/-- The fake audio that `Run` makes of a reader that has loaded a file. -/
def Loaded.fakeAudio {r : WavReader} (h : Loaded r) : FakeAudioData where
  sampleRate := r.sampleRate
  channels := r.channels
  data := r.data
  rateFits := h.rateFits
  dataFits := h.dataFits

end WavReader

namespace AudioThread

open WavReader

/-- With the fake audio of a WAV file every access is inside the data exactly when
there are samples and their number is a multiple of the channels, unless none is read. -/
theorem load_safe_iff_whole {b : Buffer} {r r' : WavReader} (hr : r.data = []) (h : Loads b r r') :
    Safe (h.loaded hr).fakeAudio ↔
      r'.sampleRate ≤ 0 ∨ bufSize r'.sampleRate r'.channels < 0 ∨
        r'.data ≠ [] ∧ r'.channels ∣ r'.data.length :=
  safe_iff_whole (h.loaded hr).channels

theorem load_safe_stereo : ∃ b r', ∃ h : Loads b ⟨0, 0, []⟩ r', Safe (h.loaded rfl).fakeAudio :=
  have h := stereoFile.loads (b := ⟨stereoFile.encode, by decide⟩) (r := ⟨0, 0, []⟩) rfl rfl
  ⟨_, _, h, (load_safe_iff_whole rfl h).mpr (.inr (.inr ⟨by decide, by decide⟩))⟩

/-- A stereo file with three samples, of which the last has no partner. -/
def brokenStereoFile : WavFile :=
  { stereoFile with
    chunks := []
    samples := [1, 2, 3]
    chunksEven := by decide
    samplesBounded := by decide }

theorem load_unsafe_stereo : ¬ ∀ b r', ∀ h : Loads b ⟨0, 0, []⟩ r', Safe (h.loaded rfl).fakeAudio := by
  intro hall
  have h := brokenStereoFile.loads (b := ⟨brokenStereoFile.encode, by decide⟩) (r := ⟨0, 0, []⟩) rfl rfl
  have hwhole : ¬ Whole (h.loaded rfl).fakeAudio := fun hwhole =>
    absurd hwhole.2 (show ¬ (2 : Int) ∣ 3 by decide)
  exact not_safe (h.loaded rfl).channels hwhole (show (0 : Int) < 48000 by decide)
    (show 0 ≤ bufSize 48000 2 by decide) (hall _ _ h)

end AudioThread
