import Zakuro.AudioFrames
import Zakuro.Unrolling

/-!
# What of the fake audio is handed over

With data of whole frames the thread goes through the endless repetition of the
data. It cuts that into stretches of as many frames as fill the buffer, and of
each stretch it hands over `buf_size / channels` frames. The rest of a stretch
is thrown away when the buffer is emptied, which is none of it for an even
`buf_size`, or for one channel.
-/

namespace AudioThread

open CData AudioSource Unrolling

variable {a : FakeAudioData}

/-- The frames that fill the buffer. One frame is pushed in any case. -/
def fillFrames (a : FakeAudioData) : Nat :=
  max 1 (((bufSize a.sampleRate a.channels).toNat + a.channels.toNat - 1) / a.channels.toNat)

/-- The samples that fill the buffer. -/
def fillSamples (a : FakeAudioData) : Nat := fillFrames a * a.channels.toNat

/-- How many of them are handed over. -/
def handedSamples (a : FakeAudioData) : Nat :=
  ((bufSize a.sampleRate a.channels).tdiv a.channels * a.channels).toNat

/-- The thread as it is after so many frames. -/
structure Follows (a : FakeAudioData) (n : Nat) (s : AudioThread) : Prop where
  aligned : Aligned a s
  index : s.index = Unrolling.index a.data.length 0 (n * a.channels.toNat)
  buf : s.buf = (unroll a.data 0 (n * a.channels.toNat)).drop (n / fillFrames a * fillSamples a)
  delivered : s.delivered = heads a.data 0 (fillSamples a) (handedSamples a) (n / fillFrames a)

/-- What has been handed over is a beginning of the endless repetition of the data. -/
def Lossless (a : FakeAudioData) : Prop :=
  ∀ count i t, Amid a count i t → ∃ m, t.delivered.flatten <+: unroll a.data 0 m

/-- The data sounds the same when the frame behind every `buf_size - 1` samples is missing. -/
def Repeats (a : FakeAudioData) : Prop :=
  ∀ k, a.data[(k + k / ((bufSize a.sampleRate a.channels).toNat - 1) * 2) % a.data.length]? =
    a.data[k % a.data.length]?

theorem fillFrames_pos : 0 < fillFrames a := Nat.lt_of_lt_of_le Nat.zero_lt_one (Nat.le_max_left 1 _)

theorem bufSize_lt (rate channels : Int) : bufSize rate channels < 2 ^ 31 := by
  have hrange := toInt_range (toInt (rate * channels) * 10)
  unfold bufSize
  rcases Int.le_total 0 (toInt (toInt (rate * channels) * 10)) with hpos | hneg
  · rw [Int.tdiv_eq_ediv_of_nonneg hpos]
    omega
  · have htdiv := Int.tdiv_nonneg (Int.neg_nonneg_of_nonpos hneg) (b := 1000) (by decide)
    rw [Int.neg_tdiv] at htdiv
    omega

theorem toSize_bufSize {rate channels : Int} (h : 0 ≤ bufSize rate channels) :
    toSize (bufSize rate channels) = (bufSize rate channels).toNat := by
  have hlt := bufSize_lt rate channels
  exact toSize_of_range h (by omega)

section MonoOrStereo

variable (hch : a.channels = 1 ∨ a.channels = 2)
include hch

/-- So many frames behind full stretches, the buffer is full exactly with the last
frame of a stretch. -/
theorem full_iff (hsize : 0 ≤ bufSize a.sampleRate a.channels) {r : Nat} (hr : r < fillFrames a) :
    toSize (bufSize a.sampleRate a.channels) ≤ r * a.channels.toNat + a.channels.toNat ↔
      r + 1 = fillFrames a := by
  rw [toSize_bufSize hsize]
  unfold fillFrames at hr ⊢
  generalize (bufSize a.sampleRate a.channels).toNat = size at hr ⊢
  rcases hch with hch | hch
  all_goals
    rw [hch] at hr ⊢
    simp only [Int.toNat_one, Int.reduceToNat] at hr ⊢
    omega

theorem start_follows (hwhole : Whole a) : Follows a 0 {} := by
  refine ⟨start_aligned hch hwhole, ?_, ?_, ?_⟩
  · simp [index_zero]
  · simp [unroll]
  · simp [heads]

theorem nextIndex_eq (hwhole : Whole a) {k : Nat}
    (h : Unrolling.index a.data.length 0 k + a.channels.toNat ≤ a.data.length) :
    nextIndex a (Unrolling.index a.data.length 0 k) =
      Unrolling.index a.data.length 0 (k + a.channels.toNat) := by
  have hlength : 0 < a.data.length := List.length_pos_of_ne_nil hwhole.1
  unfold nextIndex
  rcases Nat.lt_or_eq_of_le h with hlt | heq
  · rw [if_neg (by omega), index_add hlength hlt]
  · rw [if_pos (by omega), index_add_end hlength (by omega) heq]

omit hch in
/-- The buffer with one more frame in it. -/
theorem follows_buf (hwhole : Whole a) {n : Nat} {s : AudioThread} (h : Follows a n s) :
    s.buf ++ frameAt a s.index =
      (unroll a.data 0 ((n + 1) * a.channels.toNat)).drop (n / fillFrames a * fillSamples a) := by
  have hlength : 0 < a.data.length := List.length_pos_of_ne_nil hwhole.1
  have hinside := h.aligned.inside
  rw [h.index] at hinside
  have hle : n / fillFrames a * fillSamples a ≤ (unroll a.data 0 (n * a.channels.toNat)).length := by
    rw [unroll_length hlength, fillSamples, ← Nat.mul_assoc]
    exact Nat.mul_le_mul_right _ (Nat.div_mul_le_self n _)
  rw [Nat.succ_mul, unroll_add hlength hinside, List.drop_append_of_le_length hle, h.buf, h.index,
    frameAt]

omit hch in
theorem follows_buf_length (hwhole : Whole a) {n : Nat} {s : AudioThread} (h : Follows a n s) :
    (s.buf ++ frameAt a s.index).length =
      n % fillFrames a * a.channels.toNat + a.channels.toNat := by
  have hlength : 0 < a.data.length := List.length_pos_of_ne_nil hwhole.1
  have hn : (n + 1) * a.channels.toNat = n / fillFrames a * fillSamples a +
      (n % fillFrames a * a.channels.toNat + a.channels.toNat) := by
    rw [fillSamples, ← Nat.mul_assoc, ← Nat.add_assoc, ← Nat.add_mul, Nat.div_add_mod', Nat.succ_mul]
  rw [follows_buf hwhole h, List.length_drop, unroll_length hlength, hn, Nat.add_sub_cancel_left]

/-- One more frame. -/
theorem frame_follows (hwhole : Whole a) (hsize : 0 ≤ bufSize a.sampleRate a.channels) {n : Nat}
    {s : AudioThread} (h : Follows a n s) : ∃ t, frame a s = .ok t ∧ Follows a (n + 1) t := by
  have hlength : 0 < a.data.length := List.length_pos_of_ne_nil hwhole.1
  have hinside := h.aligned.inside
  have hbuf := follows_buf hwhole h
  have hfull := full_iff hch hsize (Nat.mod_lt n fillFrames_pos)
  rw [← follows_buf_length hwhole h] at hfull
  have hindex : nextIndex a s.index =
      Unrolling.index a.data.length 0 ((n + 1) * a.channels.toNat) := by
    rw [Nat.succ_mul, h.index, nextIndex_eq hch hwhole (h.index ▸ hinside)]
  have hdecomp := Nat.div_add_mod' n (fillFrames a)
  by_cases hlast : n % fillFrames a + 1 = fillFrames a
  · have hn : n + 1 = (n / fillFrames a + 1) * fillFrames a := by
      rw [Nat.succ_mul]
      omega
    have hdiv : (n + 1) / fillFrames a = n / fillFrames a + 1 :=
      Nat.succ_div_of_dvd ⟨n / fillFrames a + 1, hn.trans (Nat.mul_comm _ _)⟩
    have hsamples : (n + 1) * a.channels.toNat = (n / fillFrames a + 1) * fillSamples a := by
      rw [fillSamples, ← Nat.mul_assoc, ← hn]
    have hframe := frame_full hinside (channels_ne_zero hch) (hfull.mpr hlast)
    refine ⟨_, hframe, frame_aligned hch hwhole h.aligned hframe, hindex, ?_, ?_⟩
    · rw [hdiv, hsamples, List.drop_eq_nil_of_le (Nat.le_of_eq (unroll_length hlength _))]
    · rw [hdiv, heads_succ, ← h.delivered, hbuf, hsamples]
      rfl
  · have hdiv : (n + 1) / fillFrames a = n / fillFrames a := by
      have hmod := Nat.mod_lt n (fillFrames_pos (a := a))
      refine Nat.div_eq_of_lt_le (by omega) ?_
      rw [Nat.succ_mul]
      omega
    have hframe := frame_filling hinside (Nat.lt_of_not_le fun hle => hlast (hfull.mp hle))
    refine ⟨_, hframe, frame_aligned hch hwhole h.aligned hframe, hindex, ?_, ?_⟩
    · rw [hdiv, hbuf]
    · rw [hdiv, h.delivered]

theorem frames_follows (hwhole : Whole a) (hsize : 0 ≤ bufSize a.sampleRate a.channels) (n : Nat) :
    ∃ t, frames a n {} = .ok t ∧ Follows a n t := by
  induction n with
  | zero => exact ⟨{}, rfl, start_follows hch hwhole⟩
  | succ n ih =>
    obtain ⟨s, hs, hfollows⟩ := ih
    obtain ⟨t, ht, hnext⟩ := frame_follows hch hwhole hsize hfollows
    exact ⟨t, by rw [frames, hs]; exact ht, hnext⟩

theorem amid_follows (hwhole : Whole a) (hsize : 0 ≤ bufSize a.sampleRate a.channels)
    {count i : Int} {t : AudioThread} (h : Amid a count i t) : ∃ n, Follows a n t := by
  obtain ⟨n, hn⟩ := amid_frames h
  obtain ⟨u, hu, hfollows⟩ := frames_follows hch hwhole hsize n
  obtain rfl := Except.ok.inj (hn.symm.trans hu)
  exact ⟨n, hfollows⟩

/-- Wake-ups one second apart pass as many frames as the rate says. -/
theorem runs_seconds (hwhole : Whole a) (hsize : 0 ≤ bufSize a.sampleRate a.channels)
    (hrate : 0 < a.sampleRate) (q : Nat) :
    ∃ s, Runs (fakeAudio a) (List.replicate q (10 ^ 9)) s ∧
      frames a (q * a.sampleRate.toNat) {} = .ok s := by
  have hfits := a.rateFits
  have hcount : sampleCount a.sampleRate (10 ^ 9) = some (a.sampleRate.toNat : Int) := by
    rw [sampleCount_of_range (by omega) (by omega), Int.toNat_of_nonneg (Int.le_of_lt hrate)]
    exact congrArg some (Int.mul_tdiv_cancel _ (by decide))
  induction q with
  | zero => exact ⟨{}, .start hsize, by rw [Nat.zero_mul, frames]⟩
  | succ q ih =>
    obtain ⟨s, hruns, hs⟩ := ih
    obtain ⟨t, ht, -⟩ := frames_follows hch hwhole hsize ((q + 1) * a.sampleRate.toNat)
    rw [Nat.succ_mul, frames_add hs] at ht
    have hwake := hruns.wake (10 ^ 9) ⟨_, hcount, ends_frames (by omega) ht⟩
    refine ⟨t, ?_, ?_⟩
    · rwa [← List.replicate_succ'] at hwake
    · rw [Nat.succ_mul, frames_add hs, ht]

/-- The thread comes to any number of frames. -/
theorem exists_amid (hwhole : Whole a) (hsize : 0 ≤ bufSize a.sampleRate a.channels)
    (hrate : 0 < a.sampleRate) (n : Nat) : ∃ count i t, Amid a count i t ∧ Follows a n t := by
  have hfits := a.rateFits
  obtain ⟨s, hruns, hs⟩ := runs_seconds hch hwhole hsize hrate (n / a.sampleRate.toNat)
  obtain ⟨t, ht, hfollows⟩ := frames_follows hch hwhole hsize n
  have hmod := Nat.mod_lt n (show 0 < a.sampleRate.toNat by omega)
  obtain ⟨elapsed, count, hcount, hle⟩ :=
    exists_elapsed hrate a.rateFits (show n % a.sampleRate.toNat < 2 ^ 31 by omega)
  rw [← Nat.div_add_mod' n a.sampleRate.toNat, frames_add hs] at ht
  exact ⟨count, _, t, ⟨hruns, hcount, reach_frames (by omega) hle ht⟩, hfollows⟩

/-! ## Whether anything is lost -/

theorem handedSamples_le (hsize : 0 ≤ bufSize a.sampleRate a.channels) :
    handedSamples a ≤ fillSamples a := by
  unfold handedSamples fillSamples fillFrames
  rw [Int.tdiv_eq_ediv_of_nonneg hsize]
  rcases hch with hch | hch
  all_goals
    rw [hch]
    simp only [Int.toNat_one, Int.reduceToNat]
    omega

/-- Every sample that is handed over has to be the one that is due. -/
theorem lossless_iff_due (hwhole : Whole a) (hsize : 0 ≤ bufSize a.sampleRate a.channels)
    (hrate : 0 < a.sampleRate) : Lossless a ↔ (0 < handedSamples a → ∀ k,
      a.data[(k / handedSamples a * fillSamples a + k % handedSamples a) % a.data.length]? =
        a.data[k % a.data.length]?) := by
  have hlength : 0 < a.data.length := List.length_pos_of_ne_nil hwhole.1
  have hle := handedSamples_le hch hsize
  simp only [← index_zero a.data.length]
  constructor
  · intro hlossless hpos k
    obtain ⟨count, i, t, ht, hfollows⟩ := exists_amid hch hwhole hsize hrate ((k + 1) * fillFrames a)
    obtain ⟨m, rest, hm⟩ := hlossless count i t ht
    have hdelivered := hfollows.delivered
    rw [Nat.mul_div_cancel _ fillFrames_pos] at hdelivered
    have hk : k < (k + 1) * handedSamples a := Nat.le_mul_of_pos_right (k + 1) hpos
    have hflatten := heads_length hlength hle (k + 1)
    rw [← hdelivered] at hflatten
    have hkm : k < m := by
      have hlen := congrArg List.length hm
      rw [List.length_append, unroll_length hlength] at hlen
      omega
    rw [← heads_getElem? hlength hle hk, ← hdelivered, ← unroll_getElem? hlength hkm, ← hm,
      List.getElem?_append_left (by omega)]
  · intro hdue count i t ht
    obtain ⟨n, hfollows⟩ := amid_follows hch hwhole hsize ht
    have hflatten := heads_length hlength hle (n / fillFrames a)
    have hunroll := unroll_length hlength (n / fillFrames a * handedSamples a)
    have heq : t.delivered.flatten = unroll a.data 0 (n / fillFrames a * handedSamples a) := by
      rw [hfollows.delivered]
      refine List.ext_getElem? fun k => ?_
      rcases Nat.lt_or_ge k (n / fillFrames a * handedSamples a) with hk | hk
      · have hpos : 0 < handedSamples a := Nat.pos_of_ne_zero fun hzero => by simp [hzero] at hk
        rw [heads_getElem? hlength hle hk, unroll_getElem? hlength hk, hdue hpos k]
      · rw [List.getElem?_eq_none (by omega), List.getElem?_eq_none (by omega)]
    exact ⟨n / fillFrames a * handedSamples a, [], by rw [List.append_nil, heq]⟩

/-- A buffer of whole frames is handed over whole. -/
theorem fillSamples_of_even (hsize : 0 ≤ bufSize a.sampleRate a.channels)
    (heven : a.channels = 1 ∨ bufSize a.sampleRate a.channels % 2 = 0)
    (hpos : 0 < handedSamples a) : fillSamples a = handedSamples a := by
  unfold handedSamples at hpos ⊢
  unfold fillSamples fillFrames
  rw [Int.tdiv_eq_ediv_of_nonneg hsize] at hpos ⊢
  rcases hch with hch | hch
  all_goals
    rw [hch] at hpos heven ⊢
    simp only [Int.toNat_one, Int.reduceToNat]
    omega

omit hch in
/-- Otherwise the last frame is left out. -/
theorem fillSamples_of_odd (hstereo : a.channels = 2) (hsize : 0 ≤ bufSize a.sampleRate a.channels)
    (hodd : bufSize a.sampleRate a.channels % 2 ≠ 0) :
    handedSamples a = (bufSize a.sampleRate a.channels).toNat - 1 ∧
      fillSamples a = handedSamples a + 2 := by
  unfold fillSamples handedSamples fillFrames
  rw [Int.tdiv_eq_ediv_of_nonneg hsize, hstereo]
  simp only [Int.reduceToNat]
  rw [hstereo] at hsize hodd
  omega

/-- The fake audio is handed over without loss exactly with one channel or a `buf_size`
that consists of whole frames, or where none is handed over, or the data is such that a
missing frame of every stretch makes no difference. -/
theorem lossless_iff (hwhole : Whole a) (hrate : 100 ≤ a.sampleRate) :
    Lossless a ↔ a.channels = 1 ∨ bufSize a.sampleRate a.channels % 2 = 0 ∨
      bufSize a.sampleRate a.channels ≤ 1 ∨ Repeats a := by
  have hpos : 0 < a.sampleRate := by omega
  rcases Int.lt_or_le (bufSize a.sampleRate a.channels) 0 with hneg | hsize
  · refine iff_of_true (fun count i t h => ?_) (.inr (.inr (.inl (by omega))))
    exact absurd (amid_start h) (Int.not_le.mpr hneg)
  rw [lossless_iff_due hch hwhole hsize hpos]
  by_cases heven : a.channels = 1 ∨ bufSize a.sampleRate a.channels % 2 = 0
  · refine iff_of_true (fun hhanded k => ?_) (heven.imp_right .inl)
    rw [fillSamples_of_even hch hsize heven hhanded, Nat.div_add_mod']
  · obtain ⟨hmono, hodd⟩ := not_or.mp heven
    obtain ⟨hhanded, hfill⟩ := fillSamples_of_odd (hch.resolve_left hmono) hsize hodd
    have hdue (k : Nat) : k / handedSamples a * fillSamples a + k % handedSamples a =
        k + k / handedSamples a * 2 := by
      have hdecomp := Nat.div_add_mod' k (handedSamples a)
      rw [hfill, Nat.mul_add]
      omega
    simp only [hdue, hmono, hodd, false_or, Repeats, ← hhanded]
    constructor
    · intro h
      by_cases hone : bufSize a.sampleRate a.channels ≤ 1
      · exact .inl hone
      · exact .inr (h (by omega))
    · rintro (hone | hrepeats) hpos
      · omega
      · exact hrepeats

end MonoOrStereo

/-- Fake audio of two frames, a silent one and one that is not. -/
def beep (rate channels : Int) (hrate : rate < 2 ^ 31) : FakeAudioData where
  sampleRate := rate
  channels := channels
  data := [0, 0, 1, 1]
  rateFits := hrate
  dataFits := by decide

/-- At 48 kHz nothing is lost. -/
theorem lossless_iff_48000 : Lossless (beep 48000 2 (by decide)) :=
  (lossless_iff (.inr rfl) ⟨by decide, by decide⟩ (by decide)).mpr (.inr (.inl (by decide)))

/-- At 22.05 kHz one frame of each 221 is lost. -/
theorem lossy_22050 : ¬ ∀ a : FakeAudioData, a.channels = 1 ∨ a.channels = 2 → Whole a →
    100 ≤ a.sampleRate → Lossless a := by
  intro hall
  let a := beep 22050 2 (by decide)
  have hch : a.channels = 1 ∨ a.channels = 2 := .inr rfl
  have hwhole : Whole a := ⟨by decide, by decide⟩
  have hdue := (lossless_iff_due hch hwhole (by decide) (by decide)).mp
    (hall a hch hwhole (by decide)) (by decide) 440
  exact absurd hdue (by decide)

end AudioThread
