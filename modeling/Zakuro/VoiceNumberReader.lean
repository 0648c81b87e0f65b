import Mathlib.Algebra.BigOperators.Group.List.Basic
import Mathlib.Algebra.Order.Ring.Nat
import Zakuro.WavFile

/-!
# VoiceNumberReader

The sound of a number: one recording for the numbers below thirty and for the
tens, and otherwise a recording of the tens before one of the last digit. The
recordings are part of the program.
-/

/-- `RESOURCE_NUM0nn_01_WAV`, or `_02_` for a number that another one follows. -/
structure VoiceResource where
  number : Nat
  form : Nat
  deriving DecidableEq, Repr

namespace VoiceNumberReader

open WavReader (WavFile)

inductive Fault where
  | wav (fault : WavReader.Fault)
  /-- `EmbeddedBinary::Get(-1)` reads beside its tables. -/
  | noResource
  | assertion
  deriving DecidableEq, Repr

/-- The recordings among `RESOURCE_FILES`. -/
def resourceFiles : List VoiceResource :=
  [⟨0, 1⟩, ⟨1, 1⟩, ⟨2, 1⟩, ⟨3, 1⟩, ⟨4, 1⟩, ⟨5, 1⟩, ⟨6, 1⟩, ⟨7, 1⟩, ⟨8, 1⟩, ⟨9, 1⟩, ⟨10, 1⟩,
    ⟨11, 1⟩, ⟨12, 1⟩, ⟨13, 1⟩, ⟨14, 1⟩, ⟨15, 1⟩, ⟨16, 1⟩, ⟨17, 1⟩, ⟨18, 1⟩, ⟨19, 1⟩, ⟨20, 1⟩,
    ⟨21, 1⟩, ⟨22, 1⟩, ⟨23, 1⟩, ⟨24, 1⟩, ⟨25, 1⟩, ⟨26, 1⟩, ⟨27, 1⟩, ⟨28, 1⟩, ⟨29, 1⟩, ⟨30, 1⟩,
    ⟨30, 2⟩, ⟨40, 1⟩, ⟨40, 2⟩, ⟨50, 1⟩, ⟨50, 2⟩, ⟨60, 1⟩, ⟨60, 2⟩, ⟨70, 1⟩, ⟨70, 2⟩, ⟨80, 1⟩,
    ⟨80, 2⟩, ⟨90, 1⟩, ⟨90, 2⟩]

def num (number form : Nat) : Option VoiceResource := some ⟨number, form⟩

/-- The `res1` of the numbers up to 29. -/
def units : List (Option VoiceResource) :=
  [num 0 1, num 1 1, num 2 1, num 3 1, num 4 1, num 5 1, num 6 1, num 7 1, num 8 1, num 9 1,
    num 10 1, num 11 1, num 12 1, num 13 1, num 14 1, num 15 1, num 16 1, num 17 1, num 18 1,
    num 19 1, num 20 1, num 21 1, num 22 1, num 23 1, num 24 1, num 25 1, num 26 1, num 27 1,
    num 28 1, num 29 1]

/-- The `res10` of the tens. -/
def tens : List (Option VoiceResource) :=
  [none, none, none, num 30 1, num 40 1, num 50 1, num 60 1, num 70 1, num 80 1, num 90 1]

/-- The `res10` of the other numbers. -/
def tensBefore : List (Option VoiceResource) :=
  [none, none, none, num 30 2, num 40 2, num 50 2, num 60 2, num 70 2, num 80 2, num 90 2]

/-- The `res1` of the other numbers. -/
def lastDigit : List (Option VoiceResource) :=
  [none, num 1 1, num 2 1, num 3 1, num 4 1, num 5 1, num 6 1, num 7 1, num 8 1, num 9 1]

/-- The ids that `Read` gets, with `none` for -1. -/
def ids (n : Int) : List (Option VoiceResource) :=
  if n < 0 then []
  else if n ≥ 100 then []
  else if 0 ≤ n ∧ n ≤ 29 then [units.getD n.toNat none]
  else if n.tmod 10 = 0 then [tens.getD (n.tdiv 10).toNat none]
  else if n ≤ 99 then [tensBefore.getD (n.tdiv 10).toNat none, lastDigit.getD (n.tmod 10).toNat none]
  else []

/-- `Concat`. The members of a new reader have no value but for `data`. -/
def concat (fuel : Nat) : List Buffer → List Int16 → Option (Except Fault (List Int16))
  | [], buf => some (.ok buf)
  | content :: contents, buf =>
    match WavReader.load fuel content ⟨0, 0, []⟩ with
    | none => none
    | some (.error f) => some (.error (.wav f))
    | some (.ok (r, reader)) =>
      if r = 0 ∧ reader.channels = 1 ∧ reader.sampleRate = 16000 then
        concat fuel contents (buf ++ reader.data)
      else some (.error .assertion)

/-- `EmbeddedBinary::Get` -/
def get (content : VoiceResource → Buffer) : Option VoiceResource → Except Fault Buffer
  | some r => .ok (content r)
  | none => .error .noResource

/-- `Read`, with a bound on the passes of each `Load`. -/
def read (content : VoiceResource → Buffer) (fuel : Nat) (n : Int) :
    Option (Except Fault (List Int16)) :=
  match (ids n).mapM (get content) with
  | .ok contents => concat fuel contents []
  | .error f => some (.error f)

/-! ## What is spoken -/

/-- The recordings that make up a number. -/
def spoken (n : Nat) : List VoiceResource :=
  if n < 30 ∨ n % 10 = 0 then [⟨n, 1⟩] else [⟨n / 10 * 10, 2⟩, ⟨n % 10, 1⟩]

/-- The recordings of a number add up to it. -/
theorem spoken_sum (n : Nat) : ((spoken n).map VoiceResource.number).sum = n := by
  rw [spoken]
  split
  · rfl
  · simp only [List.map_cons, List.map_nil, List.sum_cons, List.sum_nil]
    omega

theorem ids_spoken : ∀ n < 100, ids (n : Nat) = (spoken n).map some := by
  decide +kernel

theorem spoken_files : ∀ n < 100, ∀ r ∈ spoken n, r ∈ resourceFiles := by
  decide +kernel

theorem ids_none {n : Int} (h : n < 0 ∨ 100 ≤ n) : ids n = [] := by
  rw [ids]
  split
  · rfl
  · rw [if_pos (by omega)]

theorem mapM_get (content : VoiceResource → Buffer) (rs : List VoiceResource) :
    (rs.map some).mapM (get content) = .ok (rs.map content) := by
  induction rs with
  | nil => rfl
  | cons r rs ih =>
    rw [List.map_cons, List.mapM_cons, ih]
    rfl

/-- A recording is a mono file of 16 kHz, as `Concat` asserts. -/
structure Recorded (content : VoiceResource → Buffer) (files : VoiceResource → WavFile)
    (r : VoiceResource) : Prop where
  bytes : (content r).bytes = (files r).encode
  mono : (files r).channels = 1
  rate : (files r).sampleRate = 16000

theorem load_mono {fuel fuel' : Nat} {b : Buffer} {r : WavReader}
    {x : Except WavReader.Fault (Int × WavReader)} (h : WavReader.load fuel b r = some x)
    (hle : fuel ≤ fuel') : WavReader.load fuel' b r = some x := by
  rw [WavReader.load] at h ⊢
  cases hhead : WavReader.loadHead b with
  | error f =>
    rw [hhead] at h
    exact h
  | ok head =>
    rw [hhead] at h
    cases head with
    | code c => exact h
    | fmt channels sampleRate off size => exact Loop.run_mono h hle

section

variable {content : VoiceResource → Buffer} {files : VoiceResource → WavFile}

/-- With enough passes every recording is taken, behind those before it. -/
theorem concat_recorded (rs : List VoiceResource) (h : ∀ r ∈ rs, Recorded content files r) :
    ∃ fuel, ∀ fuel', fuel ≤ fuel' → ∀ buf, concat fuel' (rs.map content) buf =
      some (.ok (buf ++ rs.flatMap fun r => (files r).samples)) := by
  induction rs with
  | nil =>
    use 0
    intro fuel' _ buf
    rw [List.map_nil, concat, List.flatMap_nil, List.append_nil]
  | cons r rs ih =>
    obtain ⟨passes, hrest⟩ := ih fun q hq => h q (List.mem_cons_of_mem r hq)
    have hr := h r List.mem_cons_self
    obtain ⟨fuel, hload⟩ := (files r).loads hr.bytes (r := ⟨0, 0, []⟩) rfl
    have hgood : True ∧ (files r).reader.channels = 1 ∧ (files r).reader.sampleRate = 16000 := by
      rw [WavFile.reader, hr.mono, hr.rate]
      exact ⟨trivial, rfl, rfl⟩
    use max fuel passes
    intro fuel' hle buf
    rw [List.map_cons, concat, load_mono hload (le_trans (le_max_left fuel passes) hle)]
    simp only
    rw [if_pos hgood, hrest fuel' (le_trans (le_max_right fuel passes) hle)]
    rw [List.flatMap_cons, ← List.append_assoc]
    rfl

theorem read_spoken (h : ∀ r ∈ resourceFiles, Recorded content files r) {n : Nat} (hn : n < 100) :
    ∃ fuel, ∀ fuel', fuel ≤ fuel' →
      read content fuel' n = some (.ok ((spoken n).flatMap fun r => (files r).samples)) := by
  obtain ⟨fuel, hconcat⟩ := concat_recorded (spoken n) fun r hr => h r (spoken_files n hn r hr)
  refine ⟨fuel, fun fuel' hle => ?_⟩
  rw [read, ids_spoken n hn, mapM_get]
  exact hconcat fuel' hle []

/-- With enough passes `Read` ends: a number below one hundred is spoken by
recordings that add up to it, and no other number by any. -/
theorem read_speaks (h : ∀ r ∈ resourceFiles, Recorded content files r) (n : Int) :
    ∃ fuel rs, (∀ fuel', fuel ≤ fuel' →
        read content fuel' n = some (.ok (rs.flatMap fun r => (files r).samples))) ∧
      (∀ r ∈ rs, r ∈ resourceFiles) ∧
      if 0 ≤ n ∧ n < 100 then
        rs = spoken n.toNat ∧ (rs.map VoiceResource.number).sum = n.toNat
      else rs = [] := by
  by_cases hn : 0 ≤ n ∧ n < 100
  · obtain ⟨n, rfl⟩ := Int.eq_ofNat_of_zero_le hn.1
    have hlt : n < 100 := Int.ofNat_lt.mp hn.2
    obtain ⟨fuel, hread⟩ := read_spoken h hlt
    refine ⟨fuel, spoken n, hread, spoken_files n hlt, ?_⟩
    rw [if_pos hn]
    exact ⟨rfl, spoken_sum n⟩
  · refine ⟨0, [], ?_, ?_, ?_⟩
    · intro fuel' _
      rw [read, ids_none (by omega)]
      rfl
    · simp
    · rw [if_neg hn]

end

theorem noChunks_even : ∀ c ∈ ([] : List WavReader.RiffChunk), c.payload.length % 2 = 0 :=
  fun _ hc => absurd hc List.not_mem_nil

/-- Each recording is one sample, its number. -/
def shortFile (r : VoiceResource) : WavFile :=
  { WavReader.stereoFile with
    riffSize := 38
    channels := 1
    sampleRate := 16000
    byteRate := 32000
    blockAlign := 2
    chunks := []
    samples := [Int16.ofNat r.number]
    trailing := []
    monoOrStereo := .inl rfl
    rateBounded := by decide
    chunksEven := noChunks_even
    samplesBounded := (by decide : 2 < 2147483640) }

theorem shortFile_fits (r : VoiceResource) : (shortFile r).encode.length < 2 ^ 63 :=
  (by decide : 46 < 2 ^ 63)

theorem read_speaks_short : ∃ fuel rs, (∀ fuel', fuel ≤ fuel' →
    read (fun r => ⟨(shortFile r).encode, shortFile_fits r⟩) fuel' 31 =
      some (.ok (rs.flatMap fun r => (shortFile r).samples))) ∧
    (∀ r ∈ rs, r ∈ resourceFiles) ∧
    if 0 ≤ (31 : Int) ∧ (31 : Int) < 100 then
      rs = spoken (31 : Int).toNat ∧ (rs.map VoiceResource.number).sum = (31 : Int).toNat
    else rs = [] :=
  read_speaks (fun _ _ => ⟨rfl, rfl, rfl⟩) 31

end VoiceNumberReader
