import Zakuro.AudioThread

/-!
# Frames of fake audio

What one frame does to the thread, and what that means for the loop over the
frames of a wake-up and for all wake-ups.
-/

namespace AudioThread

open CData AudioSource

variable {a : FakeAudioData}

/-! ## One frame -/

theorem pushSamples_ok {n : Nat} {s : AudioThread} (h : s.index + n ≤ a.data.length) :
    pushSamples a n s = .ok { s with
      buf := s.buf ++ (a.data.drop s.index).take n
      index := s.index + n } := by
  induction n generalizing s with
  | zero => simp [pushSamples]
  | succ n ih =>
    have hindex : s.index < a.data.length := by omega
    have hpush : pushSample a s = .ok { s with
        buf := s.buf ++ [a.data[s.index]], index := s.index + 1 } := by
      simp [pushSample, hindex]
    have htake : (a.data.drop s.index).take (n + 1) =
        a.data[s.index] :: (a.data.drop (s.index + 1)).take n := by
      rw [List.drop_eq_getElem_cons hindex, List.take_succ_cons]
    rw [pushSamples, hpush]
    simp only
    rw [ih (show s.index + 1 + n ≤ a.data.length by omega), htake]
    simp [Nat.add_assoc, Nat.add_comm 1 n]

theorem pushSamples_error {n : Nat} {s : AudioThread} (hi : s.index ≤ a.data.length)
    (h : a.data.length < s.index + n) : pushSamples a n s = .error .outOfBounds := by
  induction n generalizing s with
  | zero => omega
  | succ n ih =>
    rcases Nat.lt_or_ge s.index a.data.length with hindex | hindex
    · have hpush : pushSample a s = .ok { s with
          buf := s.buf ++ [a.data[s.index]], index := s.index + 1 } := by
        simp [pushSample, hindex]
      rw [pushSamples, hpush]
      exact ih hindex (show a.data.length < s.index + 1 + n by omega)
    · have hpush : pushSample a s = .error .outOfBounds := by
        simp [pushSample, hindex]
      rw [pushSamples, hpush]

/-- The position behind a frame. -/
def nextIndex (a : FakeAudioData) (i : Nat) : Nat :=
  if a.data.length ≤ i + a.channels.toNat then 0 else i + a.channels.toNat

/-- The samples of the frame at a position. -/
def frameAt (a : FakeAudioData) (i : Nat) : List Int16 := (a.data.drop i).take a.channels.toNat

/-- The buffer is full, and this much of it is handed over. -/
def handedOver (a : FakeAudioData) (buf : List Int16) : List Int16 :=
  buf.take ((bufSize a.sampleRate a.channels).tdiv a.channels * a.channels).toNat

theorem wrap_eq (s : AudioThread) (i : Nat) :
    wrap a { s with index := i + a.channels.toNat } = { s with index := nextIndex a i } := by
  simp only [wrap, nextIndex]
  split <;> rfl

section Frame

variable {s : AudioThread} (h : s.index + a.channels.toNat ≤ a.data.length)
include h

/-- A frame whose samples are there, and with which the buffer is not yet full. -/
theorem frame_filling
    (hfill : (s.buf ++ frameAt a s.index).length < toSize (bufSize a.sampleRate a.channels)) :
    frame a s = .ok { s with index := nextIndex a s.index, buf := s.buf ++ frameAt a s.index } := by
  have hpush := pushSamples_ok h
  rw [← frameAt] at hpush
  simp only [frame, hpush, bind, Except.bind, deliver, if_neg (Nat.not_le_of_lt hfill)]
  exact congrArg Except.ok (wrap_eq { s with buf := s.buf ++ frameAt a s.index } s.index)

variable (hch : a.channels ≠ 0)
include hch

/-- A frame with which the buffer is full. -/
theorem frame_full
    (hfull : toSize (bufSize a.sampleRate a.channels) ≤ (s.buf ++ frameAt a s.index).length) :
    frame a s = .ok {
      index := nextIndex a s.index
      buf := []
      delivered := s.delivered ++ [handedOver a (s.buf ++ frameAt a s.index)] } := by
  have hpush := pushSamples_ok h
  rw [← frameAt] at hpush
  simp only [frame, hpush, bind, Except.bind, deliver, recorded, if_pos hfull, if_neg hch, Except.map]
  exact congrArg Except.ok (wrap_eq ⟨s.index, [], s.delivered ++ [handedOver a (s.buf ++ frameAt a s.index)]⟩
    s.index)

/-- Either way the position is the next one. -/
theorem frame_index : ∃ t, frame a s = .ok t ∧ t.index = nextIndex a s.index := by
  rcases Nat.lt_or_ge (s.buf ++ frameAt a s.index).length
    (toSize (bufSize a.sampleRate a.channels)) with hfill | hfull
  · exact ⟨_, frame_filling h hfill, rfl⟩
  · exact ⟨_, frame_full h hch hfull, rfl⟩

end Frame

theorem frame_error {s : AudioThread} (hi : s.index ≤ a.data.length)
    (h : a.data.length < s.index + a.channels.toNat) : frame a s = .error .outOfBounds := by
  rw [frame, pushSamples_error hi h]
  rfl

/-! ## Data of whole frames -/

/-- The data consists of whole frames. -/
def Whole (a : FakeAudioData) : Prop := a.data ≠ [] ∧ a.channels ∣ a.data.length

/-- Between two frames of such data the position is that of a frame. -/
structure Aligned (a : FakeAudioData) (s : AudioThread) : Prop where
  aligned : a.channels ∣ s.index
  inside : s.index + a.channels.toNat ≤ a.data.length

section MonoOrStereo

variable (hch : a.channels = 1 ∨ a.channels = 2)
include hch

theorem channels_ne_zero : a.channels ≠ 0 := by omega

theorem frame_aligned (hwhole : Whole a) {s t : AudioThread} (h : Aligned a s)
    (ht : frame a s = .ok t) : Aligned a t := by
  obtain ⟨hdata, hdvd⟩ := hwhole
  obtain ⟨hindex, hinside⟩ := h
  obtain ⟨u, hu, hnext⟩ := frame_index hinside (channels_ne_zero hch)
  obtain rfl := Except.ok.inj (hu.symm.trans ht)
  have hlength : 0 < a.data.length := List.length_pos_of_ne_nil hdata
  constructor
  all_goals
    rw [hnext, nextIndex]
    rcases hch with hch | hch
    all_goals
      rw [hch] at hdvd hindex hinside ⊢
      split <;> omega

theorem start_aligned (hwhole : Whole a) : Aligned a {} := by
  obtain ⟨hdata, hdvd⟩ := hwhole
  have hlength : 0 < a.data.length := List.length_pos_of_ne_nil hdata
  refine ⟨Int.dvd_zero _, ?_⟩
  rcases hch with hch | hch
  all_goals
    rw [hch] at hdvd ⊢
    simp only [Nat.zero_add]
    omega

end MonoOrStereo

/-! ## All frames -/

/-- So many frames, one after the other. -/
def frames (a : FakeAudioData) : Nat → AudioThread → Except Fault AudioThread
  | 0, s => .ok s
  | n + 1, s =>
    match frames a n s with
    | .ok t => frame a t
    | .error f => .error f

theorem frames_add {m n : Nat} {s t : AudioThread} (h : frames a m s = .ok t) :
    frames a (m + n) s = frames a n t := by
  induction n with
  | zero => exact h
  | succ n ih => rw [← Nat.add_assoc, frames, frames, ih]

/-- A sequence of frames that succeeds does so up to any of them. -/
theorem frames_split {m n : Nat} {s t : AudioThread} (h : frames a (m + n) s = .ok t) :
    ∃ u, frames a m s = .ok u ∧ frames a n u = .ok t := by
  induction n generalizing t with
  | zero => exact ⟨t, h, rfl⟩
  | succ n ih =>
    rw [← Nat.add_assoc, frames] at h
    cases hf : frames a (m + n) s with
    | error f => simp [hf] at h
    | ok v =>
      rw [hf] at h
      obtain ⟨u, hu, hv⟩ := ih hf
      exact ⟨u, hu, by rw [frames, hv]; exact h⟩

theorem framePass_goes {count : Int} {cur cur' : Int × AudioThread}
    (h : framePass a count cur = .inl cur') :
    cur.1 < count ∧ cur'.1 = toInt (cur.1 + 1) ∧ frame a cur.2 = .ok cur'.2 := by
  unfold framePass at h
  split at h
  next hcount =>
    cases hf : frame a cur.2 with
    | ok t =>
      rw [hf] at h
      obtain rfl := Sum.inl.inj h
      exact ⟨hcount, rfl, rfl⟩
    | error f => simp [hf] at h
  next => simp at h

/-- What every frame keeps holds between any two passes of the loop. -/
theorem framePass_invariant {I : AudioThread → Prop} (hframe : ∀ s t, I s → frame a s = .ok t → I t)
    {count : Int} {cur cur' : Int × AudioThread} (h : Loop.Reach (framePass a count) cur cur')
    (hs : I cur.2) : I cur'.2 :=
  h.invariant (I := fun cur => I cur.2)
    (fun _ _ hcur hpass => hframe _ _ hcur (framePass_goes hpass).2.2) hs

theorem framePass_leaves {count : Int} {cur : Int × AudioThread} {t : AudioThread}
    (h : framePass a count cur = .inr (.ok t)) : ¬ cur.1 < count ∧ t = cur.2 := by
  unfold framePass at h
  split at h
  next =>
    cases hf : frame a cur.2 <;> simp [hf] at h
  next hcount => exact ⟨hcount, (Except.ok.inj (Sum.inr.inj h)).symm⟩

theorem runs_invariant {I : AudioThread → Prop} (hframe : ∀ s t, I s → frame a s = .ok t → I t)
    (hstart : I {}) {ds : List Nat} {s : AudioThread} (h : Runs (fakeAudio a) ds s) : I s := by
  induction h with
  | start => exact hstart
  | wake elapsed _ hwakes ih =>
    obtain ⟨count, -, hends⟩ := hwakes
    obtain ⟨cur, hreach, hleave⟩ := Loop.reach_of_ends hends
    obtain rfl := (framePass_leaves hleave).2
    exact framePass_invariant hframe hreach ih

theorem amid_invariant {I : AudioThread → Prop} (hframe : ∀ s t, I s → frame a s = .ok t → I t)
    (hstart : I {}) {count i : Int} {t : AudioThread} (h : Amid a count i t) : I t := by
  obtain ⟨hruns, -, hreach⟩ := h
  exact framePass_invariant hframe hreach (runs_invariant hframe hstart hruns)

theorem amid_start {count i : Int} {t : AudioThread} (h : Amid a count i t) :
    0 ≤ bufSize a.sampleRate a.channels := by
  obtain ⟨hruns, -, -⟩ := h
  induction hruns with
  | start hsize => exact hsize
  | wake _ _ _ ih => exact ih

/-- The thread only depends on the number of frames so far. -/
theorem amid_frames {count i : Int} {t : AudioThread} (h : Amid a count i t) :
    ∃ n, frames a n {} = .ok t := by
  refine amid_invariant (I := fun t => ∃ n, frames a n {} = .ok t) ?_ ⟨0, rfl⟩ h
  rintro s t ⟨n, hn⟩ ht
  exact ⟨n + 1, by rw [frames, hn]; exact ht⟩

/-- The loop comes to any number of frames that it counts. -/
theorem reach_frames {count : Int} {n : Nat} {s t : AudioThread} (hn : n < 2 ^ 31)
    (hcount : (n : Int) ≤ count) (h : frames a n s = .ok t) :
    Loop.Reach (framePass a count) (0, s) ((n : Int), t) := by
  induction n generalizing t with
  | zero =>
    obtain rfl := Except.ok.inj h
    exact .refl _
  | succ n ih =>
    rw [frames] at h
    cases hf : frames a n s with
    | error f => simp [hf] at h
    | ok u =>
      rw [hf] at h
      have hframe : frame a u = .ok t := h
      refine (ih (by omega) (by omega) hf).tail ?_
      have hlt : (n : Int) < count := by omega
      have hnext : toInt ((n : Int) + 1) = (n + 1 : Nat) := toInt_of_range (by omega) (by omega)
      simp only [framePass, if_pos hlt, hframe, hnext]

/-- The loop passes the frames that it counts, and ends. -/
theorem ends_frames {n : Nat} {s t : AudioThread} (hn : n < 2 ^ 31) (h : frames a n s = .ok t) :
    Loop.Ends (framePass a n) (0, s) (.ok t) := by
  have hleave : framePass a n ((n : Int), t) = .inr (.ok t) := by
    simp only [framePass, Int.lt_irrefl, if_false]
  exact (Loop.ends_reach (reach_frames hn (Int.le_refl _) h)).mpr ((Loop.ends_inr hleave).mpr rfl)

/-- A loop that ends has passed the frames that it counts, and could count them in an `int`. -/
theorem frames_of_ends {n : Nat} {s t : AudioThread}
    (h : Loop.Ends (framePass a n) (0, s) (.ok t)) : n < 2 ^ 31 ∧ frames a n s = .ok t := by
  obtain ⟨cur, hreach, hleave⟩ := Loop.reach_of_ends h
  obtain ⟨hlast, rfl⟩ := framePass_leaves hleave
  have hbound : cur.1 < 2 ^ 31 := by
    refine hreach.invariant (I := fun cur => cur.1 < 2 ^ 31) ?_ (show (0 : Int) < 2 ^ 31 by decide)
    intro cur cur' _ hpass
    have hrange := toInt_range (cur.1 + 1)
    rw [(framePass_goes hpass).2.1]
    exact hrange.2
  have hn : n < 2 ^ 31 := by omega
  obtain ⟨k, hk, hle, hframes⟩ :
      ∃ k : Nat, cur.1 = (k : Int) ∧ k ≤ n ∧ frames a k s = .ok cur.2 := by
    refine hreach.invariant
      (I := fun cur => ∃ k : Nat, cur.1 = (k : Int) ∧ k ≤ n ∧ frames a k s = .ok cur.2)
      ?_ ⟨0, rfl, Nat.zero_le n, rfl⟩
    rintro cur cur' ⟨k, hk, hle, hframes⟩ hpass
    obtain ⟨hcount, hnext, hframe⟩ := framePass_goes hpass
    refine ⟨k + 1, ?_, by omega, ?_⟩
    · rw [hnext, hk]
      exact toInt_of_range (by omega) (by omega)
    · rw [frames, hframes]
      exact hframe
  obtain rfl : k = n := by omega
  exact ⟨hn, hframes⟩

theorem sampleCount_of_range {rate : Int} {elapsed : Nat}
    (hlow : -2 ^ 63 ≤ rate * (elapsed / 10 ^ 6 : Nat)) (hhigh : rate * (elapsed / 10 ^ 6 : Nat) < 2 ^ 63) :
    sampleCount rate elapsed = some ((rate * (elapsed / 10 ^ 6 : Nat)).tdiv 1000) := by
  simp only [sampleCount, toInt64_of_range hlow hhigh, if_true]

/-- A wake-up may be late enough for any number of samples. -/
theorem exists_elapsed {rate : Int} (hpos : 0 < rate) (hfits : rate < 2 ^ 31) {n : Nat}
    (hn : n < 2 ^ 31) : ∃ elapsed count, sampleCount rate elapsed = some count ∧ (n : Int) ≤ count := by
  obtain ⟨r, rfl⟩ := Int.eq_ofNat_of_zero_le (Int.le_of_lt hpos)
  have hr : 0 < r := by omega
  have hlow : 1000 * n < r * (1000 * n / r + 1) := Nat.lt_mul_div_succ _ hr
  have hhigh : r * (1000 * n / r) ≤ 1000 * n := Nat.mul_div_le _ _
  let elapsed := (1000 * n / r + 1) * 10 ^ 6
  have hms : (r : Int) * ((elapsed / 10 ^ 6 : Nat) : Int) = (r * (1000 * n / r) + r : Nat) := by
    rw [Nat.mul_div_cancel _ (by decide), ← Int.natCast_mul, Nat.mul_add, Nat.mul_one]
  rw [Nat.mul_add, Nat.mul_one] at hlow
  refine ⟨elapsed, _, sampleCount_of_range (by omega) (by omega), ?_⟩
  rw [hms, Int.tdiv_eq_ediv_of_nonneg (by omega)]
  omega

end AudioThread
