import Zakuro.AudioStream
import Zakuro.Truncation

/-!
# Whether the audio keeps up with the clock

A wake-up turns the time since the last one into milliseconds and these into
samples, and what is left over of either is lost. With a buffer of 10 ms the
External mode loses what is left over of full buffers as well, while the other
modes keep the samples in their buffer. So the buffers handed over stay behind
the clock by what the intervals have left over of 10 ms, in a run of any length.
-/

namespace AudioThread

open CData AudioSource Truncation

/-- The samples of a wake-up, as a number without bounds. -/
def samples (rate : Int) (elapsed : Nat) : Nat := rate.toNat * (elapsed / 10 ^ 6) / 1000

section Samples

variable {rate : Int} (hrate : 0 ≤ rate) {elapsed : Nat}
include hrate

theorem sampleCount_eq_some {count : Int} (h : sampleCount rate elapsed = some count) :
    count = samples rate elapsed := by
  obtain ⟨r, rfl⟩ := Int.eq_ofNat_of_zero_le hrate
  have hproduct : 0 ≤ (r : Int) * (elapsed / 10 ^ 6 : Nat) :=
    Int.mul_nonneg hrate (Int.natCast_nonneg _)
  unfold sampleCount at h
  dsimp only at h
  split at h
  · obtain rfl := Option.some.inj h
    rw [Int.tdiv_eq_ediv_of_nonneg hproduct]
    rfl
  · cases h

theorem sampleCount_samples (h : samples rate elapsed < 2 ^ 31) :
    sampleCount rate elapsed = some (samples rate elapsed : Int) := by
  obtain ⟨r, rfl⟩ := Int.eq_ofNat_of_zero_le hrate
  have hproduct : (r : Int) * ((elapsed / 10 ^ 6 : Nat) : Int) = (r * (elapsed / 10 ^ 6) : Nat) :=
    (Int.natCast_mul _ _).symm
  simp only [samples, Int.toNat_natCast] at h ⊢
  rw [sampleCount_of_range (by omega) (by omega), hproduct,
    Int.tdiv_eq_ediv_of_nonneg (Int.natCast_nonneg _)]
  rfl

end Samples

/-! ## Runs -/

theorem runs_nil {src : AudioSource} {s : AudioThread} : Runs src [] s ↔ 0 ≤ src.bufSize ∧ s = {} := by
  constructor
  · intro h
    generalize hds : ([] : List Nat) = ds at h
    cases h with
    | start hsize => exact ⟨hsize, rfl⟩
    | wake => simp at hds
  · rintro ⟨hsize, rfl⟩
    exact .start hsize

theorem runs_concat {src : AudioSource} {ds : List Nat} {elapsed : Nat} {t : AudioThread} :
    Runs src (ds ++ [elapsed]) t ↔ ∃ s, Runs src ds s ∧ src.Wakes elapsed s t := by
  constructor
  · intro h
    generalize hds : ds ++ [elapsed] = es at h
    cases h with
    | start => simp at hds
    | wake _ hruns hwakes =>
      obtain ⟨rfl, hlast⟩ := List.append_inj' hds rfl
      obtain rfl := List.singleton_inj.mp hlast
      exact ⟨_, hruns, hwakes⟩
  · rintro ⟨s, hruns, hwakes⟩
    exact hruns.wake elapsed hwakes

/-- A wake-up passes the frames that it counts, unless the counter of the loop, an `int`,
cannot come that far. -/
theorem fakeAudio_wakes_iff {a : FakeAudioData} (hrate : 0 ≤ a.sampleRate) {elapsed : Nat}
    {s t : AudioThread} : (fakeAudio a).Wakes elapsed s t ↔
      samples a.sampleRate elapsed < 2 ^ 31 ∧ frames a (samples a.sampleRate elapsed) s = .ok t := by
  constructor
  · rintro ⟨count, hcount, hends⟩
    obtain rfl := sampleCount_eq_some hrate hcount
    exact frames_of_ends hends
  · rintro ⟨hsamples, hframes⟩
    exact ⟨_, sampleCount_samples hrate hsamples, ends_frames hsamples hframes⟩

theorem fakeAudio_runs_iff {a : FakeAudioData} (hrate : 0 ≤ a.sampleRate) {ds : List Nat}
    {s : AudioThread} : Runs (fakeAudio a) ds s ↔ 0 ≤ bufSize a.sampleRate a.channels ∧
      (∀ d ∈ ds, samples a.sampleRate d < 2 ^ 31) ∧
      frames a (ds.map (samples a.sampleRate)).sum {} = .ok s := by
  induction ds using List.reverseRecOn generalizing s with
  | nil =>
    rw [runs_nil]
    simp [AudioSource.bufSize, frames, eq_comm]
  | append_singleton ds d ih =>
    simp only [runs_concat, ih, fakeAudio_wakes_iff hrate, List.forall_mem_append, List.map_append,
      List.sum_append, List.forall_mem_singleton, List.map_singleton, List.sum_singleton]
    constructor
    · rintro ⟨u, ⟨hsize, hds, hu⟩, hd, hs⟩
      exact ⟨hsize, ⟨hds, hd⟩, by rw [frames_add hu, hs]⟩
    · rintro ⟨hsize, ⟨hds, hd⟩, hs⟩
      obtain ⟨u, hu, hs⟩ := frames_split hs
      exact ⟨u, ⟨hsize, hds, hu⟩, hd, hs⟩

/-- What has been handed over and what the samples that are left make up. -/
def Due (size : Int) (k : Nat) (cur : Int × AudioThread) : Prop :=
  ∃ n : Nat, cur.1 = n ∧ cur.2.delivered.length + n / size.toNat = k

section External

variable {rate channels : Int} {render : Nat → List Int16}

theorem renderPass_leaves {cur : Int × AudioThread} (h : ¬ bufSize rate channels ≤ cur.1) :
    renderPass (bufSize rate channels) channels render cur = .inr (.ok cur.2) := if_neg h

variable (hch : channels ≠ 0)
include hch

theorem renderPass_goes (render : Nat → List Int16) {cur : Int × AudioThread}
    (h : bufSize rate channels ≤ cur.1) : ∃ t, renderPass (bufSize rate channels) channels render cur =
      .inl (cur.1 - bufSize rate channels, t) ∧
      t.delivered.length = cur.2.delivered.length + 1 := by
  simp only [renderPass, if_pos h, recorded, if_neg hch]
  exact ⟨_, rfl, List.length_append⟩

variable (hsize : 0 < bufSize rate channels)
include hsize

theorem renderPass_due {k : Nat} {cur cur' : Int × AudioThread}
    (hdue : Due (bufSize rate channels) k cur)
    (h : renderPass (bufSize rate channels) channels render cur = .inl cur') :
    Due (bufSize rate channels) k cur' ∧ cur'.1.toNat < cur.1.toNat := by
  obtain ⟨n, hn, hk⟩ := hdue
  by_cases hle : bufSize rate channels ≤ cur.1
  · obtain ⟨t, ht, hlength⟩ := renderPass_goes hch render hle
    obtain rfl := Sum.inl.inj (ht.symm.trans h)
    have hdiv := Nat.div_eq_sub_div (a := n) (show 0 < (bufSize rate channels).toNat by omega) (by omega)
    refine ⟨⟨n - (bufSize rate channels).toNat, ?_, ?_⟩, ?_⟩
    all_goals
      dsimp only
      omega
  · rw [renderPass_leaves hle] at h
    cases h

/-- It leaves with everything handed over. -/
theorem renderPass_last {k : Nat} {cur : Int × AudioThread} {r : Except Fault AudioThread}
    (hdue : Due (bufSize rate channels) k cur)
    (h : renderPass (bufSize rate channels) channels render cur = .inr r) :
    ∃ t, r = .ok t ∧ t.delivered.length = k := by
  obtain ⟨n, hn, hk⟩ := hdue
  by_cases hle : bufSize rate channels ≤ cur.1
  · obtain ⟨t, ht, -⟩ := renderPass_goes hch render hle
    rw [ht] at h
    cases h
  · rw [renderPass_leaves hle] at h
    have hdiv : n / (bufSize rate channels).toNat = 0 := Nat.div_eq_of_lt (by omega)
    rw [hdiv] at hk
    exact ⟨cur.2, (Sum.inr.inj h).symm, hk⟩

variable (hrate : 0 ≤ rate)
include hrate

/-- A wake-up hands over as many buffers as its samples fill. -/
theorem external_wakes_length {elapsed : Nat} {s t : AudioThread}
    (h : (external rate channels render).Wakes elapsed s t) : t.delivered.length =
      s.delivered.length + samples rate elapsed / (bufSize rate channels).toNat := by
  obtain ⟨count, hcount, hends⟩ := h
  obtain rfl := sampleCount_eq_some hrate hcount
  obtain ⟨cur, hreach, hleave⟩ := Loop.reach_of_ends hends
  have hdue := hreach.invariant (I := Due (bufSize rate channels) _)
    (fun _ _ hcur hpass => (renderPass_due hch hsize hcur hpass).1) ⟨_, rfl, rfl⟩
  obtain ⟨u, hu, hlength⟩ := renderPass_last hch hsize hdue hleave
  obtain rfl := Except.ok.inj hu
  exact hlength

theorem external_wakes (render : Nat → List Int16) {elapsed : Nat}
    (h : samples rate elapsed < 2 ^ 31) (s : AudioThread) :
    ∃ t, (external rate channels render).Wakes elapsed s t := by
  have hloop : ∃ r, Loop.Ends (renderPass (bufSize rate channels) channels render)
      ((samples rate elapsed : Int), s) r ∧ ∃ t : AudioThread, r = .ok t ∧ t.delivered.length = _ :=
    Loop.ends_of_measure (Due (bufSize rate channels) _) (fun cur => cur.1.toNat) _
      (fun _ _ hcur hpass => renderPass_due hch hsize hcur hpass)
      (fun _ _ hcur hpass => renderPass_last hch hsize hcur hpass) ⟨_, rfl, rfl⟩
  obtain ⟨r, hends, t, rfl, -⟩ := hloop
  exact ⟨t, _, sampleCount_samples hrate h, hends⟩

theorem external_runs_length {ds : List Nat} {s : AudioThread}
    (h : Runs (external rate channels render) ds s) : s.delivered.length =
      (ds.map fun d => samples rate d / (bufSize rate channels).toNat).sum := by
  induction h with
  | start => rfl
  | wake elapsed _ hwakes ih =>
    rw [external_wakes_length hch hsize hrate hwakes, ih, List.map_append, List.sum_append,
      List.map_singleton, List.sum_singleton]

theorem external_runs {ds : List Nat} (h : ∀ d ∈ ds, samples rate d < 2 ^ 31) :
    ∃ s, Runs (external rate channels render) ds s := by
  induction ds using List.reverseRecOn with
  | nil => exact ⟨{}, .start (Int.le_of_lt hsize)⟩
  | append_singleton ds d ih =>
    rw [List.forall_mem_append, List.forall_mem_singleton] at h
    obtain ⟨s, hs⟩ := ih h.1
    obtain ⟨t, ht⟩ := external_wakes hch hsize hrate render h.2 s
    exact ⟨t, hs.wake d ht⟩

end External

/-! ## Buffers of 10 ms -/

/-- A buffer has the samples of 10 ms. -/
structure TenMs (rate : Int) (b : Nat) : Prop where
  pos : 0 < b
  rate_eq : rate = 100 * b
  size_eq : bufSize rate 1 = b

theorem exists_tenMs {rate : Int} (hpos : 0 < rate) (hdvd : 100 ∣ rate) (hfits : rate * 10 < 2 ^ 31) :
    ∃ b, TenMs rate b := by
  have hproduct : toInt (rate * 1) = rate := by
    rw [Int.mul_one]
    exact toInt_of_range (by omega) (by omega)
  refine ⟨(rate / 100).toNat, by omega, by omega, ?_⟩
  rw [bufSize, hproduct, toInt_of_range (by omega) hfits, Int.tdiv_eq_ediv_of_nonneg (by omega)]
  omega

section TenMs

variable {rate : Int} {b : Nat} (h : TenMs rate b) {elapsed : Nat}
include h

theorem samples_eq : samples rate elapsed = b * (elapsed / 10 ^ 6) / 10 := by
  have htoNat : rate.toNat = 100 * b := by
    have hrate := h.rate_eq
    omega
  rw [samples, htoNat, Nat.mul_assoc]
  omega

theorem samples_low : b * (elapsed / 10 ^ 7) ≤ samples rate elapsed := by
  rw [samples_eq h, Nat.le_div_iff_mul_le (by decide), Nat.mul_assoc]
  exact Nat.mul_le_mul_left b (by omega)

theorem samples_high : 10 ^ 7 * samples rate elapsed ≤ b * elapsed := by
  have hms : b * (10 ^ 6 * (elapsed / 10 ^ 6)) ≤ b * elapsed :=
    Nat.mul_le_mul_left b (Nat.mul_div_le _ _)
  rw [samples_eq h]
  rw [Nat.mul_left_comm] at hms
  omega

/-- The full buffers among the samples of a wake-up are its full 10 ms. -/
theorem samples_div : samples rate elapsed / b = elapsed / 10 ^ 7 := by
  rw [samples_eq h, Nat.div_div_eq_div_mul, Nat.mul_comm 10 b, Nat.mul_div_mul_left _ _ h.pos,
    Nat.div_div_eq_div_mul]
  rfl

variable {ds : List Nat} {s : AudioThread}

/-- The External mode hands over the full 10 ms of each interval. -/
theorem external_runs_units {render : Nat → List Int16} (hs : Runs (external rate 1 render) ds s) :
    s.delivered.length = units (10 ^ 7) ds := by
  have hb := h.pos
  have hrate := h.rate_eq
  have hsize := h.size_eq
  have hlength := external_runs_length (by decide) (by omega) (by omega) hs
  simp only [hsize, Int.toNat_natCast, samples_div h] at hlength
  exact hlength

end TenMs

section FakeAudio

variable {a : FakeAudioData} {b : Nat} (h : TenMs a.sampleRate b) (hch : a.channels = 1)
  (hdata : a.data ≠ []) {ds : List Nat}
include h hch hdata

omit h in
theorem whole_of_mono : Whole a := ⟨hdata, hch ▸ Int.one_dvd _⟩

theorem fakeAudio_follows (n : Nat) :
    ∃ t, frames a n {} = .ok t ∧ t.delivered.length = n / b := by
  have hb := h.pos
  have hsize : bufSize a.sampleRate a.channels = b := by rw [hch, h.size_eq]
  have hwhole := whole_of_mono hch hdata
  obtain ⟨t, ht, hfollows⟩ := frames_follows (.inl hch) hwhole (by omega) n
  have hfill : fillFrames a = b := by
    rw [fillFrames, hsize, hch]
    simp only [Int.toNat_natCast, Int.toNat_one, Nat.div_one]
    omega
  refine ⟨t, ht, ?_⟩
  rw [hfollows.delivered, Unrolling.heads, List.length_map, List.length_range, hfill]

theorem fakeAudio_runs (hds : ∀ d ∈ ds, samples a.sampleRate d < 2 ^ 31) :
    ∃ s, Runs (fakeAudio a) ds s := by
  have hrate := h.rate_eq
  have hsize : bufSize a.sampleRate a.channels = b := by rw [hch, h.size_eq]
  obtain ⟨t, ht, -⟩ := fakeAudio_follows h hch hdata (ds.map (samples a.sampleRate)).sum
  exact ⟨t, (fakeAudio_runs_iff (by omega)).mpr ⟨by omega, hds, ht⟩⟩

theorem fakeAudio_runs_length {s : AudioThread} (hs : Runs (fakeAudio a) ds s) :
    s.delivered.length = (ds.map (samples a.sampleRate)).sum / b := by
  have hrate := h.rate_eq
  obtain ⟨-, -, hframes⟩ := (fakeAudio_runs_iff (by omega)).mp hs
  obtain ⟨t, ht, hlength⟩ := fakeAudio_follows h hch hdata (ds.map (samples a.sampleRate)).sum
  obtain rfl := Except.ok.inj (hframes.symm.trans ht)
  exact hlength

/-- The other modes hand over at least these, and never more than the clock says. -/
theorem fakeAudio_runs_bounds {s : AudioThread} (hs : Runs (fakeAudio a) ds s) :
    units (10 ^ 7) ds ≤ s.delivered.length ∧ s.delivered.length ≤ ds.sum / 10 ^ 7 := by
  have hb := h.pos
  obtain ⟨hlow, hhigh⟩ := sum_map_bounds (fun _ => samples_low h) (fun _ => samples_high h) ds
  rw [fakeAudio_runs_length h hch hdata hs, Nat.le_div_iff_mul_le hb,
    Nat.le_div_iff_mul_le (by decide), Nat.mul_comm _ b]
  refine ⟨hlow, Nat.le_of_mul_le_mul_left (Nat.le_trans ?_ hhigh) hb⟩
  rw [← Nat.mul_assoc, Nat.mul_comm _ (10 ^ 7)]
  exact Nat.mul_le_mul_left _ (Nat.mul_div_le _ _)

end FakeAudio

/-! ## The clock -/

/-- Two counts that differ by one at most. -/
def Near (m n : Nat) : Prop := m ≤ n + 1 ∧ n ≤ m + 1

/-- After each wake-up about as many buffers have been handed over as 10 ms have passed. -/
def PacedBy (src : AudioSource) (ds : List Nat) : Prop :=
  ∀ es, es <+: ds → ∃ s, Runs src es s ∧ Near s.delivered.length (es.sum / 10 ^ 7)

/-- Both paths are, and they agree with each other. -/
structure Paced (a : FakeAudioData) (render : Nat → List Int16) (ds : List Nat) : Prop where
  fakeAudio : PacedBy (fakeAudio a) ds
  external : PacedBy (external a.sampleRate 1 render) ds
  alike : ∀ es s t, es <+: ds → Runs (.fakeAudio a) es s → Runs (.external a.sampleRate 1 render) es t →
    Near s.delivered.length t.delivered.length

/-- The External mode stays behind by what the intervals have left over together. -/
theorem external_drift {rate : Int} {b : Nat} (h : TenMs rate b) {render : Nat → List Int16}
    {ds : List Nat} {s : AudioThread} (hs : Runs (external rate 1 render) ds s) :
    ds.sum / 10 ^ 7 = s.delivered.length + rest (10 ^ 7) ds / 10 ^ 7 := by
  rw [external_runs_units h hs, sum_div (by decide)]

theorem samples_lt_iff {rate : Int} (hrate : 0 ≤ rate) (elapsed : Nat) :
    samples rate elapsed < 2 ^ 31 ↔ rate * (elapsed / 10 ^ 6 : Nat) < 1000 * 2 ^ 31 := by
  obtain ⟨r, rfl⟩ := Int.eq_ofNat_of_zero_le hrate
  rw [samples, Int.toNat_natCast, ← Int.natCast_mul]
  omega

section Paced

variable {a : FakeAudioData} {b : Nat} (h : TenMs a.sampleRate b) (hch : a.channels = 1)
  (hdata : a.data ≠ []) {render : Nat → List Int16} {ds : List Nat}
include h hch hdata

/-- Where the intervals have less than 20 ms left over, no path stays behind by more than one. -/
theorem paced_of_rest (hds : ∀ d ∈ ds, samples a.sampleRate d < 2 ^ 31)
    (hrest : rest (10 ^ 7) ds < 2 * 10 ^ 7) : Paced a render ds := by
  have hb := h.pos
  have hrate := h.rate_eq
  have hsize := h.size_eq
  have hrest {es : List Nat} (hes : es <+: ds) : rest (10 ^ 7) es / 10 ^ 7 ≤ 1 := by
    have hmono := rest_mono (10 ^ 7) hes
    omega
  constructor
  · intro es hes
    obtain ⟨s, hs⟩ := fakeAudio_runs h hch hdata fun d hd => hds d (hes.subset hd)
    have hbounds := fakeAudio_runs_bounds h hch hdata hs
    have hsum := sum_div (show 0 < 10 ^ 7 by decide) es
    have hle := hrest hes
    exact ⟨s, hs, by omega, by omega⟩
  · intro es hes
    obtain ⟨s, hs⟩ := external_runs (show (1 : Int) ≠ 0 by decide) (by omega) (by omega)
      fun d hd => hds d (hes.subset hd)
    have hdrift := external_drift h hs
    have hle := hrest hes
    exact ⟨s, hs, by omega, by omega⟩
  · intro es s t hes hs ht
    have hbounds := fakeAudio_runs_bounds h hch hdata hs
    have hunits := external_runs_units h ht
    have hsum := sum_div (show 0 < 10 ^ 7 by decide) es
    have hle := hrest hes
    exact ⟨by omega, by omega⟩

omit hch hdata in
theorem rest_of_paced (hpaced : Paced a render ds) : (∀ d ∈ ds, samples a.sampleRate d < 2 ^ 31) ∧
    rest (10 ^ 7) ds < 2 * 10 ^ 7 := by
  have hrate := h.rate_eq
  obtain ⟨s, hs, -⟩ := hpaced.fakeAudio ds List.prefix_rfl
  obtain ⟨t, ht, -, hbehind⟩ := hpaced.external ds List.prefix_rfl
  have hdrift := external_drift h ht
  exact ⟨((fakeAudio_runs_iff (by omega)).mp hs).2.1, by omega⟩

end Paced

/-- The audio keeps up with the clock exactly as long as the intervals have less than
20 ms left over of 10 ms together, and none counts more samples than an `int` can. -/
theorem paced_iff {a : FakeAudioData} (hch : a.channels = 1) (hdata : a.data ≠ [])
    (hpos : 0 < a.sampleRate) (hdvd : 100 ∣ a.sampleRate) (hfits : a.sampleRate * 10 < 2 ^ 31)
    (render : Nat → List Int16) (ds : List Nat) : Paced a render ds ↔
      (∀ d ∈ ds, a.sampleRate * (d / 10 ^ 6 : Nat) < 1000 * 2 ^ 31) ∧
        (ds.map (· % 10 ^ 7)).sum < 2 * 10 ^ 7 := by
  obtain ⟨b, h⟩ := exists_tenMs hpos hdvd hfits
  simp only [← samples_lt_iff (Int.le_of_lt hpos)]
  exact ⟨rest_of_paced h, fun hcond => paced_of_rest h hch hdata hcond.1 hcond.2⟩

/-- Three wake-ups that come 5 ms late each; a fourth one is too much. -/
theorem paced_late : Paced (beep 48000 1 (by decide)) (fun _ => List.replicate 480 0)
    [15000000, 15000000, 15000000] :=
  (paced_iff rfl (by decide) (by decide) (by decide) (by decide) _ _).mpr ⟨by decide, by decide⟩

/-- With wake-ups every 15 ms the External mode comes to be two buffers behind, and with
wake-ups every 10.9 ms the other modes do. -/
theorem unpaced_48000 :
    ¬ PacedBy (external 48000 1 fun _ => List.replicate 480 0) (List.replicate 4 15000000) ∧
      ¬ PacedBy (fakeAudio (beep 48000 1 (by decide))) (List.replicate 23 10900000) := by
  obtain ⟨b, h⟩ := exists_tenMs (show (0 : Int) < 48000 by decide) (by decide) (by decide)
  obtain rfl : b = 480 := by
    have hrate := h.rate_eq
    omega
  constructor
  · intro hpaced
    obtain ⟨s, hs, -, hbehind⟩ := hpaced _ List.prefix_rfl
    rw [external_runs_units h hs] at hbehind
    exact absurd hbehind (by decide)
  · intro hpaced
    obtain ⟨s, hs, -, hbehind⟩ := hpaced _ List.prefix_rfl
    rw [fakeAudio_runs_length h rfl (by decide) hs] at hbehind
    exact absurd hbehind (by decide)

end AudioThread
