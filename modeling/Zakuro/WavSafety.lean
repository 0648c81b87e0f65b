import Zakuro.WavReader

/-!
# On which buffers `Load` is safe

The header of a chunk is read only where eight bytes are left, so what can go
wrong is decided by a few fields: the size of the buffer when the `fmt ` chunk
is read, and the 32-bit sizes of the chunks that follow it. A size of -8 makes
the cursor stand still, and a data chunk with a size from -8 to -1 asks
`reserve` for a negative number of samples.
-/

namespace WavReader

open CData

/-! ## Reads inside the buffer -/

def byte (b : Buffer) (off : Nat) : UInt8 := b.bytes.getD off 0

/-- The size field of the chunk at an offset, as the `int` that `ReadChunk` holds. -/
def csize (b : Buffer) (off : Nat) : Int :=
  (le32 (byte b (off + 4)) (byte b (off + 5)) (byte b (off + 6)) (byte b (off + 7))).toInt32.toInt

def name (b : Buffer) (off : Nat) : List UInt8 :=
  [byte b off, byte b (off + 1), byte b (off + 2), byte b (off + 3)]

def uint16At (b : Buffer) (off : Nat) : Int := (le16 (byte b off) (byte b (off + 1))).toNat

def int32At (b : Buffer) (off : Nat) : Int :=
  (le32 (byte b off) (byte b (off + 1)) (byte b (off + 2)) (byte b (off + 3))).toInt32.toInt

theorem read_ok {b : Buffer} {off : Nat} (h : off < b.bytes.length) :
    read b off = .ok (byte b off) := by
  simp [read, byte, h]

theorem read_error {b : Buffer} {off : Nat} (h : b.bytes.length ≤ off) :
    read b off = .error .outOfBounds := by
  simp [read, h]

theorem readName_ok {b : Buffer} {off : Nat} (h : off + 4 ≤ b.bytes.length) :
    readName b off = .ok (name b off) := by
  simp (disch := omega) only [readName, read_ok]
  rfl

theorem readInt32_ok {b : Buffer} {off : Nat} (h : off + 4 ≤ b.bytes.length) :
    readInt32 b off = .ok (int32At b off) := by
  simp (disch := omega) only [readInt32, read_ok]
  rfl

theorem readCsize_ok {b : Buffer} {off : Nat} (h : off + 8 ≤ b.bytes.length) :
    readInt32 b (off + 4) = .ok (csize b off) :=
  readInt32_ok (by omega)

theorem readUInt16_ok (b : Buffer) (off : Nat) (h : off + 2 ≤ b.bytes.length) :
    readUInt16 b off = .ok (uint16At b off) := by
  simp (disch := omega) only [readUInt16, read_ok]
  rfl

theorem readUInt16_error {b : Buffer} {off : Nat} (h : b.bytes.length < off + 2) :
    readUInt16 b off = .error .outOfBounds := by
  by_cases ho : off < b.bytes.length
  · simp (disch := omega) only [readUInt16, read_ok ho, read_error]
    rfl
  · simp (disch := omega) only [readUInt16, read_error]
    rfl

/-- A read gives a byte or is out of bounds. -/
theorem read_cases (b : Buffer) (off : Nat) :
    (∃ x, read b off = .ok x) ∨ read b off = .error .outOfBounds := by
  by_cases ho : off < b.bytes.length
  · exact .inl ⟨_, read_ok ho⟩
  · exact .inr (read_error (by omega))

theorem readUInt16_cases (b : Buffer) (off : Nat) :
    (∃ x, readUInt16 b off = .ok x) ∨ readUInt16 b off = .error .outOfBounds := by
  by_cases ho : off + 2 ≤ b.bytes.length
  · exact .inl ⟨_, readUInt16_ok b off ho⟩
  · exact .inr (readUInt16_error (by omega))

theorem readInt32_cases (b : Buffer) (off : Nat) :
    (∃ x, readInt32 b off = .ok x) ∨ readInt32 b off = .error .outOfBounds := by
  unfold readInt32
  obtain ⟨x0, h0⟩ | h0 := read_cases b off
  · obtain ⟨x1, h1⟩ | h1 := read_cases b (off + 1)
    · obtain ⟨x2, h2⟩ | h2 := read_cases b (off + 2)
      · obtain ⟨x3, h3⟩ | h3 := read_cases b (off + 3)
        · rw [h0, h1, h2, h3]; exact .inl ⟨_, rfl⟩
        · rw [h0, h1, h2, h3]; exact .inr rfl
      · rw [h0, h1, h2]; exact .inr rfl
    · rw [h0, h1]; exact .inr rfl
  · rw [h0]; exact .inr rfl

theorem readSamples_ok (b : Buffer) (off n : Nat) (h : off + 2 * n ≤ b.bytes.length) :
    ∃ samples, readSamples b off n = .ok samples := by
  induction n generalizing off with
  | zero => exact ⟨[], rfl⟩
  | succ n ih =>
    obtain ⟨rest, hrest⟩ := ih (off + 2) (by omega)
    refine ⟨(le16 (byte b off) (byte b (off + 1))).toInt16 :: rest, ?_⟩
    simp (disch := omega) only [readSamples, read_ok, hrest]
    rfl

/-! ## One chunk -/

theorem csize_bounds (b : Buffer) (off : Nat) : -2 ^ 31 ≤ csize b off ∧ csize b off < 2 ^ 31 :=
  ⟨Int32.le_toInt _, Int32.toInt_lt _⟩

/-- `ReadChunk` accepts the chunk at an offset. A size from -8 on passes, since
`csize + 8` is then not negative. -/
def ChunkFits (b : Buffer) (off : Nat) : Prop :=
  off + 8 ≤ b.bytes.length ∧ -8 ≤ csize b off ∧ csize b off < 2 ^ 31 - 8 ∧
    off + 8 + csize b off ≤ b.bytes.length

instance (b : Buffer) (off : Nat) : Decidable (ChunkFits b off) :=
  inferInstanceAs (Decidable (_ ∧ _))

/-- Where the chunk behind the one at an offset begins. -/
def nextOff (b : Buffer) (off : Nat) : Nat := (off + 8 + csize b off).toNat

theorem readChunk_eq (b : Buffer) {off : Nat} (ho : off ≤ b.bytes.length) :
    readChunk b off (b.bytes.length - off) =
      .ok (if ChunkFits b off then some ⟨name b off, toSize (csize b off), off + 8⟩ else none) := by
  unfold readChunk
  by_cases h8 : b.bytes.length - off < 8
  · have hno : ¬ ChunkFits b off := fun hf => by have := hf.1; omega
    rw [if_pos h8, if_neg hno]
    rfl
  · have hlen : off + 8 ≤ b.bytes.length := by omega
    have hb := csize_bounds b off
    have hfits := b.fits
    have hcond : b.bytes.length - off < toSize (toInt (csize b off + 8)) ↔ ¬ ChunkFits b off := by
      simp only [ChunkFits, toSize, toInt, Int.bmod]
      omega
    rw [if_neg h8, readName_ok (by omega), readCsize_ok hlen]
    simp only [bind, Except.bind, hcond]
    by_cases hf : ChunkFits b off
    · rw [if_neg (by simpa using hf), if_pos hf]
      rfl
    · rw [if_pos hf, if_neg hf]
      rfl

theorem skipOff_eq {b : Buffer} {off : Nat} (h : ChunkFits b off) :
    skipOff off (toSize (csize b off)) = nextOff b off := by
  obtain ⟨_, _, _, _⟩ := h
  have := b.fits
  simp only [skipOff, toSize, nextOff]
  omega

theorem skipSize_eq {b : Buffer} {off : Nat} (h : ChunkFits b off) :
    skipSize (b.bytes.length - off) (toSize (csize b off)) = b.bytes.length - nextOff b off := by
  obtain ⟨_, _, _, _⟩ := h
  have := b.fits
  simp only [skipSize, toSize, nextOff]
  omega

theorem nextOff_le {b : Buffer} {off : Nat} (h : ChunkFits b off) :
    off ≤ nextOff b off ∧ nextOff b off ≤ b.bytes.length := by
  obtain ⟨_, _, _, _⟩ := h
  simp only [nextOff]
  omega

/-- A data chunk with a size that is not negative is read to its end. -/
theorem loadData_ok {b : Buffer} {off : Nat} (h : ChunkFits b off) (h0 : 0 ≤ csize b off)
    (r : WavReader) : ∃ c r', loadData b ⟨name b off, toSize (csize b off), off + 8⟩ r = .ok (c, r') := by
  obtain ⟨hlen, _, hlt, hle⟩ := h
  have hn : toInt (toSize (csize b off) / 2 : Nat) = csize b off / 2 := by
    simp only [toInt, toSize, Int.bmod]
    omega
  obtain ⟨samples, hsamples⟩ := readSamples_ok b (off + 8) (csize b off / 2).toNat (by omega)
  refine ⟨0, { r with data := r.data ++ samples }, ?_⟩
  simp only [loadData, hn, if_neg (show ¬ csize b off / 2 < 0 by omega), hsamples]
  rfl

/-- One with a negative size asks for a negative number of samples. -/
theorem loadData_error {b : Buffer} {off : Nat} (h : ChunkFits b off) (h0 : csize b off < 0)
    (r : WavReader) :
    loadData b ⟨name b off, toSize (csize b off), off + 8⟩ r = .error .lengthError := by
  obtain ⟨_, _, _, _⟩ := h
  have hn : toInt (toSize (csize b off) / 2 : Nat) < 0 := by
    simp only [toInt, toSize, Int.bmod]
    omega
  simp only [loadData, if_pos hn]

/-! ## The walk over the chunks -/

/-- The positions at which the loop looks for a chunk: the one behind the
`fmt ` chunk, and behind each chunk that is not the data chunk. -/
inductive Visits (b : Buffer) : Nat → Prop where
  | first : Visits b (nextOff b 12)
  | next {off : Nat} :
    Visits b off → ChunkFits b off → name b off ≠ asciiBytes "data" → Visits b (nextOff b off)

/-- A data chunk has no negative size, and no other chunk has the size -8. -/
def ChunkSafe (b : Buffer) (off : Nat) : Prop :=
  ChunkFits b off →
    if name b off = asciiBytes "data" then 0 ≤ csize b off else csize b off ≠ -8

def WalkSafe (b : Buffer) : Prop := ∀ off, Visits b off → ChunkSafe b off

theorem chunkPass_eq (b : Buffer) (r : WavReader) {off : Nat} (ho : off ≤ b.bytes.length) :
    chunkPass b r (off, b.bytes.length - off) =
      if ChunkFits b off then
        if name b off = asciiBytes "data" then
          .inr (loadData b ⟨name b off, toSize (csize b off), off + 8⟩ r)
        else .inl (nextOff b off, b.bytes.length - nextOff b off)
      else .inr (.ok (-10, r)) := by
  rw [chunkPass, readChunk_eq b ho]
  by_cases hf : ChunkFits b off
  · simp only [if_pos hf, skipOff_eq hf, skipSize_eq hf]
  · simp only [if_neg hf]

theorem visits_le {b : Buffer} (h12 : ChunkFits b 12) {off : Nat} (h : Visits b off) :
    off ≤ b.bytes.length := by
  cases h with
  | first => exact (nextOff_le h12).2
  | next _ hf _ => exact (nextOff_le hf).2

theorem visits_reach {b : Buffer} (h12 : ChunkFits b 12) (r : WavReader) {off : Nat}
    (h : Visits b off) :
    Loop.Reach (chunkPass b r) (nextOff b 12, b.bytes.length - nextOff b 12)
      (off, b.bytes.length - off) := by
  induction h with
  | first => exact .refl _
  | next hv hf hn ih =>
    exact ih.tail (by rw [chunkPass_eq b r (visits_le h12 hv), if_pos hf, if_neg hn])

/-- The loop leaves with a code. -/
def LoopSafe (b : Buffer) (r : WavReader) (cur : Nat × Nat) : Prop :=
  ∃ c r', Loop.Ends (chunkPass b r) cur (.ok (c, r'))

/-- At a chunk that is not safe the loop throws or stands still. -/
theorem not_loopSafe_of_chunk {b : Buffer} {r : WavReader} {off : Nat}
    (ho : off ≤ b.bytes.length) (h : ¬ ChunkSafe b off) :
    ¬ LoopSafe b r (off, b.bytes.length - off) := by
  rintro ⟨c, r', hend⟩
  simp only [ChunkSafe, Classical.not_imp] at h
  obtain ⟨hf, h⟩ := h
  have hpass := chunkPass_eq b r ho
  rw [if_pos hf] at hpass
  by_cases hn : name b off = asciiBytes "data"
  · rw [if_pos hn] at hpass h
    rw [loadData_error hf (by omega) r] at hpass
    have := (Loop.ends_inr hpass).mp hend
    simp at this
  · rw [if_neg hn] at hpass h
    have hstay : nextOff b off = off := by simp only [nextOff]; omega
    rw [hstay] at hpass
    exact Loop.not_ends_of_stuck hpass _ hend

/-- On a safe walk every pass that goes on comes nearer to the end. -/
theorem loopSafe_of_walk {b : Buffer} (h12 : ChunkFits b 12) (hw : WalkSafe b) (r : WavReader) :
    LoopSafe b r (nextOff b 12, b.bytes.length - nextOff b 12) := by
  let I : Nat × Nat → Prop := fun cur => ∃ off, Visits b off ∧ cur = (off, b.bytes.length - off)
  have hgo : ∀ cur cur', I cur → chunkPass b r cur = .inl cur' → I cur' ∧ cur'.2 < cur.2 := by
    rintro _ cur' ⟨off, hv, rfl⟩ hpass
    rw [chunkPass_eq b r (visits_le h12 hv)] at hpass
    split at hpass
    next hf =>
      split at hpass
      next => simp at hpass
      next hn =>
        obtain rfl := Sum.inl.inj hpass
        have hsafe := hw off hv hf
        rw [if_neg hn] at hsafe
        refine ⟨⟨_, hv.next hf hn, rfl⟩, ?_⟩
        obtain ⟨hlen, hlow, _, _⟩ := hf
        simp only [nextOff]
        omega
    next => simp at hpass
  have hleave : ∀ cur q, I cur → chunkPass b r cur = .inr q → ∃ c r', q = .ok (c, r') := by
    rintro _ q ⟨off, hv, rfl⟩ hpass
    rw [chunkPass_eq b r (visits_le h12 hv)] at hpass
    split at hpass
    next hf =>
      split at hpass
      next hn =>
        have hsafe := hw off hv hf
        rw [if_pos hn] at hsafe
        obtain ⟨c, r', hdata⟩ := loadData_ok hf hsafe r
        exact ⟨c, r', by rw [← Sum.inr.inj hpass, hdata]⟩
      next => simp at hpass
    next => exact ⟨-10, r, (Sum.inr.inj hpass).symm⟩
  obtain ⟨q, hq, c, r', rfl⟩ :=
    Loop.ends_of_measure I Prod.snd (fun q => ∃ c r', q = .ok (c, r')) hgo hleave
      ⟨_, .first, rfl⟩
  exact ⟨c, r', hq⟩

theorem loopSafe_iff {b : Buffer} (h12 : ChunkFits b 12) (r : WavReader) :
    LoopSafe b r (nextOff b 12, b.bytes.length - nextOff b 12) ↔ WalkSafe b := by
  constructor
  · rintro ⟨c, r', hend⟩ off hv
    by_contra hbad
    refine not_loopSafe_of_chunk (r := r) (visits_le h12 hv) hbad ⟨c, r', ?_⟩
    exact (Loop.ends_reach (visits_reach h12 r hv)).mp hend
  · exact fun hw => loopSafe_of_walk h12 hw r

/-! ## The whole of `Load` -/

/-- The buffer gets as far as its `fmt ` chunk. -/
def IsWave (b : Buffer) : Prop :=
  20 ≤ b.bytes.length ∧ name b 0 = asciiBytes "RIFF" ∧ name b 8 = asciiBytes "WAVE" ∧
    ChunkFits b 12 ∧ name b 12 = asciiBytes "fmt "

instance (b : Buffer) : Decidable (IsWave b) := inferInstanceAs (Decidable (_ ∧ _))

/-- PCM with one or two channels of 16 bits. -/
def FmtAccepted (b : Buffer) : Prop :=
  uint16At b 20 = 1 ∧ (uint16At b 22 = 1 ∨ uint16At b 22 = 2) ∧ uint16At b 34 = 16

instance (b : Buffer) : Decidable (FmtAccepted b) := inferInstanceAs (Decidable (_ ∧ _))

theorem loadHead_wave {b : Buffer} (h : IsWave b) :
    loadHead b = loadFmt b ⟨name b 12, toSize (csize b 12), 20⟩ (nextOff b 12)
      (b.bytes.length - nextOff b 12) := by
  obtain ⟨hlen, hriff, hwave, hf, hfmt⟩ := h
  unfold loadHead
  rw [if_neg (show ¬ b.bytes.length < 20 by omega), readName_ok (by omega), readName_ok (by omega),
    readChunk_eq b (by omega), if_pos hf]
  simp only [bind, Except.bind, hriff, hwave, hfmt, ne_eq, not_true_eq_false, if_false]
  rw [skipOff_eq hf, skipSize_eq hf]

theorem loadHead_code {b : Buffer} (h : ¬ IsWave b) : ∃ c, c ≠ 0 ∧ loadHead b = .ok (.code c) := by
  unfold loadHead
  by_cases hlen : b.bytes.length < 20
  · exact ⟨-1, by decide, if_pos hlen⟩
  rw [if_neg hlen, readName_ok (by omega), readName_ok (by omega), readChunk_eq b (by omega)]
  simp only [bind, Except.bind]
  by_cases hriff : name b 0 = asciiBytes "RIFF"
  · by_cases hwave : name b 8 = asciiBytes "WAVE"
    · by_cases hf : ChunkFits b 12
      · by_cases hfmt : name b 12 = asciiBytes "fmt "
        · exact absurd ⟨by omega, hriff, hwave, hf, hfmt⟩ h
        · exact ⟨-8, by decide, by simp [hriff, hwave, hf, hfmt]; rfl⟩
      · exact ⟨-7, by decide, by simp [hriff, hwave, hf]; rfl⟩
    · exact ⟨-6, by decide, by simp [hriff, hwave]; rfl⟩
  · exact ⟨-5, by decide, by simp [hriff]; rfl⟩

/-- The last member read lies 16 bytes behind the header of the chunk, whatever
the size of the chunk says. -/
theorem loadFmt_short {b : Buffer} (h : b.bytes.length < 36) (name : List UInt8)
    (size off rest : Nat) : loadFmt b ⟨name, size, 20⟩ off rest = .error .outOfBounds := by
  have hbits : readUInt16 b (20 + 14) = .error .outOfBounds := readUInt16_error (by omega)
  unfold loadFmt
  obtain ⟨x, hx⟩ | hx := readUInt16_cases b 20
  · obtain ⟨y, hy⟩ | hy := readUInt16_cases b (20 + 2)
    · obtain ⟨z, hz⟩ | hz := readInt32_cases b (20 + 4)
      · rw [hx, hy, hz, hbits]; rfl
      · rw [hx, hy, hz]; rfl
    · rw [hx, hy]; rfl
  · rw [hx]; rfl

theorem loadFmt_long {b : Buffer} (h : 36 ≤ b.bytes.length) (name : List UInt8)
    (size off rest : Nat) :
    (FmtAccepted b →
      loadFmt b ⟨name, size, 20⟩ off rest = .ok (.fmt (uint16At b 22) (int32At b 24) off rest)) ∧
    (¬ FmtAccepted b → ∃ c, c ≠ 0 ∧ loadFmt b ⟨name, size, 20⟩ off rest = .ok (.code c)) := by
  unfold loadFmt
  rw [readUInt16_ok b 20 (by omega), readUInt16_ok b (20 + 2) (by omega),
    readInt32_ok (show 20 + 4 + 4 ≤ b.bytes.length by omega),
    readUInt16_ok b (20 + 14) (by omega)]
  simp only [bind, Except.bind, FmtAccepted]
  constructor
  · rintro ⟨hcode, hchannels, hbits⟩
    rw [if_neg (by simpa using hcode), if_neg (by tauto), if_neg (by simpa using hbits)]
    rfl
  · intro hno
    by_cases hcode : uint16At b 20 = 1
    · by_cases hchannels : uint16At b 22 = 1 ∨ uint16At b 22 = 2
      · have hbits : uint16At b 34 ≠ 16 := fun hb => hno ⟨hcode, hchannels, hb⟩
        refine ⟨-4, by decide, ?_⟩
        rw [if_neg (by simpa using hcode), if_neg (by tauto), if_pos hbits]
        rfl
      · refine ⟨1, by decide, ?_⟩
        rw [if_neg (by simpa using hcode), if_pos (by tauto)]
        rfl
    · refine ⟨-9, by decide, ?_⟩
      rw [if_pos hcode]
      rfl

/-- The reader with the format of the buffer. -/
def withFormat (b : Buffer) (r : WavReader) : WavReader :=
  { r with channels := uint16At b 22, sampleRate := int32At b 24 }

/-- Where the format is accepted, `Load` is its loop. -/
theorem load_accepted {b : Buffer} (hwave : IsWave b) (hlen : 36 ≤ b.bytes.length)
    (hfmt : FmtAccepted b) (r : WavReader) (fuel : Nat) :
    load fuel b r = Loop.run (chunkPass b (withFormat b r)) fuel
      (nextOff b 12, b.bytes.length - nextOff b 12) := by
  have hhead := (loadFmt_long hlen (name b 12) (toSize (csize b 12)) (nextOff b 12)
    (b.bytes.length - nextOff b 12)).1 hfmt
  simp only [load, loadHead_wave hwave, hhead]
  rfl

/-- `Load` returns a code, for some number of passes of its loop. -/
def Safe (b : Buffer) (r : WavReader) : Prop := ∃ fuel c r', load fuel b r = some (.ok (c, r'))

/-- The condition on the buffer: one that gets as far as its `fmt ` chunk has
36 bytes, and if that chunk is accepted the walk behind it is safe. -/
def LoadSafe (b : Buffer) : Prop :=
  IsWave b → 36 ≤ b.bytes.length ∧ (FmtAccepted b → WalkSafe b)

/-- A reader gets a code for exactly the buffers that meet the condition. -/
theorem load_safe_iff (b : Buffer) (r : WavReader) : Safe b r ↔ LoadSafe b := by
  unfold Safe LoadSafe
  by_cases hwave : IsWave b
  · have hf := hwave.2.2.2.1
    by_cases hlen : 36 ≤ b.bytes.length
    · obtain ⟨-, hrefused⟩ := loadFmt_long hlen (name b 12) (toSize (csize b 12))
        (nextOff b 12) (b.bytes.length - nextOff b 12)
      by_cases hfmt : FmtAccepted b
      · have hload := load_accepted hwave hlen hfmt r
        have hloop := loopSafe_iff hf (withFormat b r)
        simp only [hload, hwave, hlen, hfmt, forall_const, true_and, ← hloop]
        constructor
        · rintro ⟨fuel, c, r', hr⟩
          exact ⟨c, r', fuel, hr⟩
        · rintro ⟨c, r', fuel, hr⟩
          exact ⟨fuel, c, r', hr⟩
      · obtain ⟨c, -, hhead⟩ := hrefused hfmt
        have hload : load 0 b r = some (.ok (c, r)) := by
          simp only [load, loadHead_wave hwave, hhead]
        exact ⟨fun _ _ => ⟨hlen, fun h => absurd h hfmt⟩, fun _ => ⟨0, c, r, hload⟩⟩
    · have hload : ∀ fuel, load fuel b r = some (.error .outOfBounds) := by
        intro fuel
        simp only [load, loadHead_wave hwave, loadFmt_short (show b.bytes.length < 36 by omega)]
      simp [hload, hwave, hlen]
  · obtain ⟨c, -, hhead⟩ := loadHead_code hwave
    have hload : load 0 b r = some (.ok (c, r)) := by simp only [load, hhead]
    exact ⟨fun _ h => absurd h hwave, fun _ => ⟨0, c, r, hload⟩⟩

/-- A buffer of 20 bytes that ends with the header of its `fmt ` chunk. -/
def fmtHeaderOnly : Buffer where
  bytes := asciiBytes "RIFF" ++ [12, 0, 0, 0] ++ asciiBytes "WAVE" ++ asciiBytes "fmt " ++
    [0, 0, 0, 0]
  fits := by decide

/-- A mono `fmt ` chunk and behind it the header of one more chunk. -/
def fmtThen (id : String) (size : List UInt8) : List UInt8 :=
  asciiBytes "RIFF" ++ [36, 0, 0, 0] ++ asciiBytes "WAVE" ++ asciiBytes "fmt " ++ [16, 0, 0, 0] ++
    [1, 0, 1, 0, 0x80, 0x3e, 0, 0, 0, 0x7d, 0, 0, 2, 0, 16, 0] ++ asciiBytes id ++ size

def standsStill : Buffer where
  bytes := fmtThen "LIST" [0xf8, 0xff, 0xff, 0xff]
  fits := by decide

def negativeData : Buffer where
  bytes := fmtThen "data" [0xff, 0xff, 0xff, 0xff]
  fits := by decide

/-- The three ways in which `Load` fails to return a code: it reads behind the
buffer, it walks in place for ever, and it throws. -/
theorem load_unsafe :
    (¬ ∀ (b : Buffer) (r : WavReader), Safe b r) ∧
    (∀ fuel r, load fuel fmtHeaderOnly r = some (.error .outOfBounds)) ∧
    (∀ fuel r, load fuel standsStill r = none) ∧
    (∀ fuel r, load (fuel + 1) negativeData r = some (.error .lengthError)) := by
  have hshort : ∀ fuel r, load fuel fmtHeaderOnly r = some (.error .outOfBounds) := by
    intro fuel r
    have hhead : loadHead fmtHeaderOnly = .error .outOfBounds := by decide
    simp only [load, hhead]
  refine ⟨?_, hshort, ?_, ?_⟩
  · intro h
    obtain ⟨fuel, c, r', hr⟩ := h fmtHeaderOnly ⟨0, 0, []⟩
    simp [hshort] at hr
  · intro fuel r
    have hhead : loadHead standsStill = .ok (.fmt 1 16000 36 8) := by decide
    have hchunk : readChunk standsStill 36 8 =
        .ok (some ⟨asciiBytes "LIST", 2 ^ 64 - 8, 44⟩) := by decide
    have hpass : ∀ r, chunkPass standsStill r (36, 8) = .inl (36, 8) := by
      intro r
      simp only [chunkPass, hchunk]
      rfl
    simp only [load, hhead]
    cases hrun : Loop.run (chunkPass standsStill { r with channels := 1, sampleRate := 16000 })
        fuel (36, 8) with
    | none => rfl
    | some q => exact absurd ⟨fuel, hrun⟩ (Loop.not_ends_of_stuck (hpass _) q)
  · intro fuel r
    have hhead : loadHead negativeData = .ok (.fmt 1 16000 36 8) := by decide
    have hchunk : readChunk negativeData 36 8 =
        .ok (some ⟨asciiBytes "data", 2 ^ 64 - 1, 44⟩) := by decide
    simp only [load, hhead, Loop.run, chunkPass, hchunk]
    rfl

end WavReader
