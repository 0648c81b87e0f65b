import Zakuro.WavSafety

/-!
# What `Load` makes of the rest of a buffer

Behind the `fmt ` chunk `Load` only looks at what is still to read, so two
buffers that go on with the same bytes are read alike from there on.
-/

namespace WavReader

open CData

/-! ## What is still to read -/

/-- Two buffers go on with the same bytes at their offsets. -/
structure SameTail (b b' : Buffer) (off off' : Nat) : Prop where
  le : off ≤ b.bytes.length
  le' : off' ≤ b'.bytes.length
  drop : b.bytes.drop off = b'.bytes.drop off'

namespace SameTail

variable {b b' : Buffer} {off off' : Nat} (h : SameTail b b' off off')
include h

theorem length : b.bytes.length - off = b'.bytes.length - off' := by
  simpa using congrArg List.length h.drop

theorem byte (i : Nat) : byte b (off + i) = byte b' (off' + i) := by
  have hi := congrArg (fun bytes => bytes.getD i 0) h.drop
  simpa only [WavReader.byte, List.getD_eq_getElem?_getD, List.getElem?_drop] using hi

theorem read (i : Nat) : read b (off + i) = read b' (off' + i) := by
  have hi := congrArg (fun bytes => bytes[i]?) h.drop
  simp only [List.getElem?_drop] at hi
  simp only [WavReader.read, hi]

theorem name : name b off = name b' off' := by
  have hzero := h.byte 0
  simp only [Nat.add_zero] at hzero
  simp only [WavReader.name, hzero, h.byte]

theorem csize : csize b off = csize b' off' := by
  simp only [WavReader.csize, h.byte]

theorem chunkFits : ChunkFits b off ↔ ChunkFits b' off' := by
  have hlength := h.length
  have hle := h.le
  have hle' := h.le'
  simp only [ChunkFits, h.csize]
  omega

theorem skip {k : Nat} (hk : off + k ≤ b.bytes.length) : SameTail b b' (off + k) (off' + k) := by
  have hlength := h.length
  have hle' := h.le'
  refine ⟨hk, by omega, ?_⟩
  rw [← List.drop_drop, ← List.drop_drop, h.drop]

theorem nextOff (hf : ChunkFits b off) : SameTail b b' (nextOff b off) (nextOff b' off') := by
  obtain ⟨_, hlow, _, hle⟩ := hf
  have hnext : WavReader.nextOff b off = off + (8 + WavReader.csize b off).toNat := by
    simp only [WavReader.nextOff]
    omega
  have hnext' : WavReader.nextOff b' off' = off' + (8 + WavReader.csize b off).toNat := by
    simp only [WavReader.nextOff, ← h.csize]
    omega
  rw [hnext, hnext']
  exact h.skip (by omega)

theorem readSamples (n k : Nat) : readSamples b (off + k) n = readSamples b' (off' + k) n := by
  induction n generalizing k with
  | zero => rfl
  | succ n ih =>
    have hrest := ih (k + 2)
    simp only [WavReader.readSamples, Nat.add_assoc] at hrest ⊢
    rw [h.read, h.read, hrest]

theorem loadData (chunkName : List UInt8) (size : Nat) (r : WavReader) :
    loadData b ⟨chunkName, size, off + 8⟩ r = loadData b' ⟨chunkName, size, off' + 8⟩ r := by
  simp only [WavReader.loadData, h.readSamples]

end SameTail

/-- The loop, started at an offset, ends with the result. -/
def Reads (b : Buffer) (r : WavReader) (off : Nat) (q : Except Fault (Int × WavReader)) : Prop :=
  Loop.Ends (chunkPass b r) (off, b.bytes.length - off) q

section Reads

variable {b : Buffer} {off : Nat} (ho : off ≤ b.bytes.length) (r : WavReader)
  (q : Except Fault (Int × WavReader))
include ho

theorem reads_skip (hf : ChunkFits b off) (hn : name b off ≠ asciiBytes "data") :
    Reads b r off q ↔ Reads b r (nextOff b off) q := by
  apply Loop.ends_inl
  rw [chunkPass_eq b r ho, if_pos hf, if_neg hn]

theorem reads_data (hf : ChunkFits b off) (hn : name b off = asciiBytes "data") :
    Reads b r off q ↔ q = loadData b ⟨name b off, toSize (csize b off), off + 8⟩ r := by
  apply Loop.ends_inr
  rw [chunkPass_eq b r ho, if_pos hf, if_pos hn]

theorem reads_misfit (hf : ¬ ChunkFits b off) : Reads b r off q ↔ q = .ok (-10, r) := by
  apply Loop.ends_inr
  rw [chunkPass_eq b r ho, if_neg hf]

end Reads

theorem SameTail.reads {b b' : Buffer} {off off' : Nat} (h : SameTail b b' off off') (r : WavReader)
    (q : Except Fault (Int × WavReader)) : Reads b r off q ↔ Reads b' r off' q := by
  refine Loop.ends_congr (fun cur cur' => ∃ off off', SameTail b b' off off' ∧
    cur = (off, b.bytes.length - off) ∧ cur' = (off', b'.bytes.length - off')) ?_ ⟨off, off', h, rfl, rfl⟩ q
  rintro _ _ ⟨off, off', h, rfl, rfl⟩
  rw [chunkPass_eq b r h.le, chunkPass_eq b' r h.le', ← h.name, ← h.csize, h.loadData]
  by_cases hf : ChunkFits b off
  · rw [if_pos hf, if_pos (h.chunkFits.mp hf)]
    by_cases hn : WavReader.name b off = asciiBytes "data"
    · rw [if_pos hn, if_pos hn]
      exact .inr ⟨_, rfl, rfl⟩
    · rw [if_neg hn, if_neg hn]
      exact .inl ⟨_, _, rfl, rfl, _, _, h.nextOff hf, rfl, rfl⟩
  · rw [if_neg hf, if_neg (mt h.chunkFits.mpr hf)]
    exact .inr ⟨_, rfl, rfl⟩

/-! ## What `Load` accepts -/

/-- `Load` returns 0 and leaves the second reader. -/
def Loads (b : Buffer) (r r' : WavReader) : Prop := ∃ fuel, load fuel b r = some (.ok (0, r'))

/-- The buffer has a header and a `fmt ` chunk that are accepted. -/
structure Headed (b : Buffer) : Prop where
  wave : IsWave b
  long : 36 ≤ b.bytes.length
  fmt : FmtAccepted b

theorem loads_of_headed {b : Buffer} (h : Headed b) (r r' : WavReader) :
    Loads b r r' ↔ Reads b (withFormat b r) (nextOff b 12) (.ok (0, r')) := by
  simp only [Loads, load_accepted h.wave h.long h.fmt]
  rfl

theorem headed_of_loads {b : Buffer} {r r' : WavReader} (h : Loads b r r') : Headed b := by
  obtain ⟨fuel, hload⟩ := h
  by_cases hwave : IsWave b
  · by_cases hlen : 36 ≤ b.bytes.length
    · by_cases hfmt : FmtAccepted b
      · exact ⟨hwave, hlen, hfmt⟩
      · obtain ⟨c, hc, hhead⟩ := (loadFmt_long hlen (name b 12) (toSize (csize b 12)) (nextOff b 12)
          (b.bytes.length - nextOff b 12)).2 hfmt
        simp only [load, loadHead_wave hwave, hhead, Option.some.injEq, Except.ok.injEq,
          Prod.mk.injEq] at hload
        exact absurd hload.1 hc
    · have hshort : b.bytes.length < 36 := by omega
      simp [load, loadHead_wave hwave, loadFmt_short hshort] at hload
  · obtain ⟨c, hc, hhead⟩ := loadHead_code hwave
    simp only [load, hhead, Option.some.injEq, Except.ok.injEq, Prod.mk.injEq] at hload
    exact absurd hload.1 hc

end WavReader
