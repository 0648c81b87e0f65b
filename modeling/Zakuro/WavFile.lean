import Zakuro.WavWalk

/-!
# Files that `Load` reads

The RIFF/WAVE encoding of some samples: a header, a `fmt ` chunk, any number of
chunks that are skipped, and the data chunk. Every field is read where the bytes
before it end, so the proofs cut the buffer there.
-/

namespace WavReader

open CData

/-! ## Numbers, the lowest byte first -/

def bytes16 (x : UInt16) : List UInt8 := [x.toUInt8, (x >>> 8).toUInt8]

def bytes32 (x : UInt32) : List UInt8 :=
  [x.toUInt8, (x >>> 8).toUInt8, (x >>> 16).toUInt8, (x >>> 24).toUInt8]

/-- A byte put above the bytes that are there already. -/
theorem or_shiftLeft {low : Nat} (b : UInt8) {k : Nat} (h : low < 2 ^ k) :
    low ||| b.toNat <<< k = low + 2 ^ k * b.toNat := by
  rw [Nat.or_comm, ← Nat.shiftLeft_add_eq_or_of_lt h, Nat.shiftLeft_eq, Nat.mul_comm, Nat.add_comm]

theorem shiftLeft_mod (b : UInt8) {k w : Nat} (h : k + 8 ≤ w) :
    b.toNat <<< k % 2 ^ w = b.toNat <<< k := by
  apply Nat.mod_eq_of_lt
  have hb : b.toNat < 2 ^ 8 := b.toNat_lt
  calc b.toNat <<< k = b.toNat * 2 ^ k := Nat.shiftLeft_eq _ _
    _ < 2 ^ 8 * 2 ^ k := Nat.mul_lt_mul_of_pos_right hb (Nat.two_pow_pos k)
    _ = 2 ^ (8 + k) := (Nat.pow_add 2 8 k).symm
    _ ≤ 2 ^ w := Nat.pow_le_pow_right Nat.zero_lt_two (by omega)

theorem le16_toNat (b0 b1 : UInt8) : (le16 b0 b1).toNat = b0.toNat + 2 ^ 8 * b1.toNat := by
  simp only [le16, UInt16.toNat_or, UInt16.toNat_shiftLeft, UInt8.toNat_toUInt16, UInt16.reduceToNat,
    Nat.reduceMod]
  rw [shiftLeft_mod b1 (by decide), or_shiftLeft b1 b0.toNat_lt]

theorem le32_toNat (b0 b1 b2 b3 : UInt8) : (le32 b0 b1 b2 b3).toNat =
    b0.toNat + 2 ^ 8 * b1.toNat + 2 ^ 16 * b2.toNat + 2 ^ 24 * b3.toNat := by
  have h0 : b0.toNat < 2 ^ 8 := b0.toNat_lt
  have h1 : b1.toNat < 2 ^ 8 := b1.toNat_lt
  have h2 : b2.toNat < 2 ^ 8 := b2.toNat_lt
  simp only [le32, UInt32.toNat_or, UInt32.toNat_shiftLeft, UInt8.toNat_toUInt32, UInt32.reduceToNat,
    Nat.reduceMod]
  rw [shiftLeft_mod b1 (by decide), shiftLeft_mod b2 (by decide), shiftLeft_mod b3 (by decide),
    or_shiftLeft b1 h0, or_shiftLeft b2 (by omega), or_shiftLeft b3 (by omega)]

theorem le16_bytes16 (x : UInt16) : le16 x.toUInt8 (x >>> 8).toUInt8 = x := by
  have hx : x.toNat < 2 ^ 16 := x.toNat_lt
  apply UInt16.toNat_inj.mp
  rw [le16_toNat]
  simp only [UInt16.toNat_toUInt8, UInt16.toNat_shiftRight, UInt16.reduceToNat, Nat.reduceMod,
    Nat.shiftRight_eq_div_pow]
  omega

theorem le32_bytes32 (x : UInt32) :
    le32 x.toUInt8 (x >>> 8).toUInt8 (x >>> 16).toUInt8 (x >>> 24).toUInt8 = x := by
  have hx : x.toNat < 2 ^ 32 := x.toNat_lt
  apply UInt32.toNat_inj.mp
  rw [le32_toNat]
  simp only [UInt32.toNat_toUInt8, UInt32.toNat_shiftRight, UInt32.reduceToNat, Nat.reduceMod,
    Nat.shiftRight_eq_div_pow]
  omega

/-! ## Fields behind a beginning of the buffer -/

section Fields

variable {b : Buffer} {p : List UInt8}

theorem length_behind {t : List UInt8} (h : b.bytes = p ++ t) : b.bytes.length = p.length + t.length := by
  rw [h, List.length_append]

theorem byte_behind {t : List UInt8} (h : b.bytes = p ++ t) (i : Nat) :
    byte b (p.length + i) = t.getD i 0 := by
  simp only [byte, h, List.getD_eq_getElem?_getD, List.getElem?_append_right (Nat.le_add_right _ _),
    Nat.add_sub_cancel_left]

theorem name_behind {id t : List UInt8} (hid : id.length = 4) (h : b.bytes = p ++ (id ++ t)) :
    name b p.length = id := by
  obtain ⟨a0, a1, a2, a3, rfl⟩ := List.length_eq_four.mp hid
  have hzero := byte_behind h 0
  simp only [Nat.add_zero] at hzero
  simp only [name, hzero, byte_behind h]
  rfl

theorem uint16At_behind {x : UInt16} {t : List UInt8} (h : b.bytes = p ++ (bytes16 x ++ t)) {k : Nat}
    (hk : p.length = k) : uint16At b k = x.toNat := by
  subst hk
  have hzero := byte_behind h 0
  simp only [Nat.add_zero] at hzero
  simp only [uint16At, hzero, byte_behind h]
  exact congrArg (fun y : UInt16 => (y.toNat : Int)) (le16_bytes16 x)

theorem int32At_behind {x : UInt32} {t : List UInt8} (h : b.bytes = p ++ (bytes32 x ++ t)) {k : Nat}
    (hk : p.length = k) : int32At b k = x.toInt32.toInt := by
  subst hk
  have hzero := byte_behind h 0
  simp only [Nat.add_zero] at hzero
  simp only [int32At, hzero, byte_behind h]
  exact congrArg (fun y : UInt32 => y.toInt32.toInt) (le32_bytes32 x)

theorem append_behind {x t : List UInt8} (h : b.bytes = p ++ (x ++ t)) : b.bytes = (p ++ x) ++ t := by
  rw [h, List.append_assoc]

theorem csize_behind {id : List UInt8} (hid : id.length = 4) {x : UInt32} {t : List UInt8}
    (h : b.bytes = p ++ (id ++ (bytes32 x ++ t))) :
    csize b p.length = x.toInt32.toInt :=
  int32At_behind (append_behind h) (by rw [List.length_append, hid])

end Fields

/-! ## Chunks that are skipped -/

/-- A chunk that is not the data chunk. -/
structure RiffChunk where
  id : List UInt8
  payload : List UInt8
  id_length : id.length = 4
  not_data : id ≠ asciiBytes "data"
  bounded : payload.length < 2 ^ 31 - 8

/-- The header of a chunk and what it holds, without a pad byte. -/
def chunkBytes (id payload : List UInt8) : List UInt8 :=
  id ++ (bytes32 (UInt32.ofNat payload.length) ++ payload)

def RiffChunk.bytes (c : RiffChunk) : List UInt8 := chunkBytes c.id c.payload

theorem toInt_ofNat {n : Nat} (h : n < 2 ^ 31) : (UInt32.ofNat n).toInt32.toInt = n := by
  have hmod : n % 2 ^ 32 = n := Nat.mod_eq_of_lt (by omega)
  have hint : (UInt32.ofNat n).toInt32.toInt = ((UInt32.ofNat n).toNat : Int).bmod (2 ^ 32) :=
    BitVec.toInt_eq_toNat_bmod _
  rw [hint, UInt32.toNat_ofNat', hmod]
  simp only [Int.bmod]
  omega

theorem chunkBytes_length {id : List UInt8} (hid : id.length = 4) (payload : List UInt8) :
    (chunkBytes id payload).length = 8 + payload.length := by
  simp only [chunkBytes, bytes32, List.length_append, hid, List.length_cons, List.length_nil]
  omega

section Chunk

variable {b : Buffer} {p id payload t : List UInt8} (hid : id.length = 4)
  (h : b.bytes = p ++ (chunkBytes id payload ++ t))
include hid h

theorem chunk_length : p.length + (8 + payload.length) ≤ b.bytes.length := by
  rw [h, List.length_append, List.length_append, chunkBytes_length hid]
  omega

theorem chunk_name : name b p.length = id := by
  refine name_behind hid (t := bytes32 (UInt32.ofNat payload.length) ++ (payload ++ t)) ?_
  rw [h, chunkBytes]
  simp only [List.append_assoc]

variable (hbounded : payload.length < 2 ^ 31 - 8)
include hbounded

theorem chunk_csize : csize b p.length = payload.length := by
  have hfields : b.bytes =
      p ++ (id ++ (bytes32 (UInt32.ofNat payload.length) ++ (payload ++ t))) := by
    rw [h, chunkBytes]
    simp only [List.append_assoc]
  rw [csize_behind hid hfields, toInt_ofNat (by omega)]

theorem chunk_fits : ChunkFits b p.length := by
  have hlength := chunk_length hid h
  simp only [ChunkFits, chunk_csize hid h hbounded]
  omega

theorem chunk_nextOff : nextOff b p.length = (p ++ chunkBytes id payload).length := by
  rw [List.length_append, chunkBytes_length hid]
  simp only [nextOff, chunk_csize hid h hbounded]
  omega

end Chunk

/-- The loop passes over a chunk. -/
theorem reads_chunk {b : Buffer} {p t : List UInt8} (c : RiffChunk)
    (h : b.bytes = p ++ (c.bytes ++ t)) (r : WavReader) (q : Except Fault (Int × WavReader)) :
    Reads b r p.length q ↔ Reads b r (p ++ c.bytes).length q := by
  have hlength := chunk_length c.id_length h
  have hname := chunk_name c.id_length h
  rw [reads_skip (by omega) r q (chunk_fits c.id_length h c.bounded) (hname ▸ c.not_data),
    chunk_nextOff c.id_length h c.bounded]
  rfl

/-- The loop passes over any number of chunks. -/
theorem reads_chunks {b : Buffer} {p t : List UInt8} (cs : List RiffChunk)
    (h : b.bytes = p ++ (cs.flatMap RiffChunk.bytes ++ t)) (r : WavReader)
    (q : Except Fault (Int × WavReader)) :
    Reads b r p.length q ↔ Reads b r (p ++ cs.flatMap RiffChunk.bytes).length q := by
  induction cs generalizing p with
  | nil => simp
  | cons c cs ih =>
    rw [List.flatMap_cons, List.append_assoc] at h
    have hrest : b.bytes = (p ++ c.bytes) ++ (cs.flatMap RiffChunk.bytes ++ t) := by
      rw [h, List.append_assoc]
    rw [reads_chunk c h r q, ih hrest, List.flatMap_cons, List.append_assoc]

/-! ## The samples -/

def sampleBytes (samples : List Int16) : List UInt8 := samples.flatMap fun x => bytes16 x.toUInt16

theorem sampleBytes_length (samples : List Int16) : (sampleBytes samples).length = 2 * samples.length := by
  induction samples with
  | nil => rfl
  | cons x samples ih =>
    rw [sampleBytes, List.flatMap_cons, List.length_append, ← sampleBytes, ih]
    simp only [bytes16, List.length_cons, List.length_nil]
    omega

theorem readSamples_behind {b : Buffer} {p t : List UInt8} (samples : List Int16)
    (h : b.bytes = p ++ (sampleBytes samples ++ t)) :
    readSamples b p.length samples.length = .ok samples := by
  induction samples generalizing p with
  | nil => rfl
  | cons x samples ih =>
    rw [sampleBytes, List.flatMap_cons, ← sampleBytes, List.append_assoc] at h
    have hrest : b.bytes = (p ++ bytes16 x.toUInt16) ++ (sampleBytes samples ++ t) := by
      rw [h, List.append_assoc]
    have hlength : p.length + 2 ≤ b.bytes.length := by
      rw [h, bytes16]
      simp only [List.length_append, List.length_cons]
      omega
    have hx : le16 (byte b p.length) (byte b (p.length + 1)) = x.toUInt16 := by
      have hzero := byte_behind h 0
      rw [Nat.add_zero] at hzero
      rw [hzero, byte_behind h]
      exact le16_bytes16 x.toUInt16
    have hsamples := ih hrest
    rw [List.length_append] at hsamples
    rw [List.length_cons, readSamples, read_ok (by omega), read_ok (by omega)]
    simp only [bind, Except.bind, hx]
    rw [show p.length + 2 = p.length + (bytes16 x.toUInt16).length from rfl, hsamples]
    rfl

theorem reads_samples {b : Buffer} {p t : List UInt8} {samples : List Int16}
    (hbounded : 2 * samples.length < 2 ^ 31 - 8)
    (h : b.bytes = p ++ (chunkBytes (asciiBytes "data") (sampleBytes samples) ++ t))
    (r : WavReader) :
    Reads b r p.length (.ok (0, { r with data := r.data ++ samples })) := by
  have hid : (asciiBytes "data").length = 4 := rfl
  have hlength := sampleBytes_length samples
  have hle := chunk_length hid h
  have hcsize := chunk_csize hid h (by omega)
  have hn : toInt ((toSize (csize b p.length) / 2 : Nat) : Int) = samples.length := by
    rw [hcsize, hlength]
    simp only [toInt, toSize, Int.bmod]
    omega
  have hsamples : readSamples b (p.length + 8) samples.length = .ok samples := by
    have hbehind := readSamples_behind (b := b) (t := t) samples
      (p := p ++ (asciiBytes "data" ++ bytes32 (UInt32.ofNat (sampleBytes samples).length)))
      (by simp only [h, chunkBytes, List.append_assoc])
    rwa [List.length_append] at hbehind
  rw [reads_data (by omega) r _ (chunk_fits hid h (by omega)) (chunk_name hid h)]
  simp only [loadData, hn, if_neg (Int.not_lt.mpr (Int.natCast_nonneg samples.length)),
    Int.toNat_natCast, hsamples]
  rfl

/-! ## The whole file -/

/-- The parts of a file: PCM in one or two channels, the chunks between the `fmt ` chunk
and the data chunk, and what follows that. -/
structure WavFile where
  riffSize : UInt32
  channels : UInt16
  sampleRate : UInt32
  byteRate : UInt32
  blockAlign : UInt16
  /-- The bytes of the `fmt ` chunk behind its first 16. -/
  extra : List UInt8
  chunks : List RiffChunk
  samples : List Int16
  trailing : List UInt8
  monoOrStereo : channels = 1 ∨ channels = 2
  rateBounded : sampleRate.toNat < 2 ^ 31
  extraEven : extra.length % 2 = 0
  extraBounded : 16 + extra.length < 2 ^ 31 - 8
  chunksEven : ∀ c ∈ chunks, c.payload.length % 2 = 0
  samplesBounded : 2 * samples.length < 2 ^ 31 - 8

namespace WavFile

variable (f : WavFile)

def fmtPayload : List UInt8 :=
  bytes16 1 ++ (bytes16 f.channels ++ (bytes32 f.sampleRate ++ (bytes32 f.byteRate ++
    (bytes16 f.blockAlign ++ (bytes16 16 ++ f.extra)))))

/-- The chunks behind the `fmt ` chunk. -/
def body : List UInt8 :=
  f.chunks.flatMap RiffChunk.bytes ++
    (chunkBytes (asciiBytes "data") (sampleBytes f.samples) ++ f.trailing)

def head : List UInt8 := asciiBytes "RIFF" ++ (bytes32 f.riffSize ++ asciiBytes "WAVE")

/-- The RIFF/WAVE encoding. -/
def encode : List UInt8 := f.head ++ (chunkBytes (asciiBytes "fmt ") f.fmtPayload ++ f.body)

theorem fmtPayload_length : f.fmtPayload.length = 16 + f.extra.length := by
  simp only [fmtPayload, bytes16, bytes32, List.length_append, List.length_cons, List.length_nil]
  omega

theorem fmtPayload_bounded : f.fmtPayload.length < 2 ^ 31 - 8 :=
  f.fmtPayload_length ▸ f.extraBounded

section Buffer

variable {f : WavFile} {b : Buffer} (hb : b.bytes = f.encode)
include hb

theorem long : 36 ≤ b.bytes.length := by
  have hlength : f.head.length + _ ≤ _ := chunk_length rfl hb
  have hpayload := f.fmtPayload_length
  have hhead : f.head.length = 12 := rfl
  omega

theorem isWave : IsWave b := by
  have hlong := long hb
  have hriff : b.bytes = [] ++ (asciiBytes "RIFF" ++ (bytes32 f.riffSize ++ (asciiBytes "WAVE" ++
      (chunkBytes (asciiBytes "fmt ") f.fmtPayload ++ f.body)))) := by
    rw [hb, encode, head]
    simp only [List.append_assoc, List.nil_append]
  have hwave : b.bytes = (asciiBytes "RIFF" ++ bytes32 f.riffSize) ++ (asciiBytes "WAVE" ++
      (chunkBytes (asciiBytes "fmt ") f.fmtPayload ++ f.body)) := by
    rw [hb, encode, head]
    simp only [List.append_assoc]
  exact ⟨by omega, name_behind rfl hriff, name_behind rfl hwave,
    chunk_fits (p := f.head) rfl hb f.fmtPayload_bounded, chunk_name (p := f.head) rfl hb⟩

/-- The members of the `fmt ` chunk stand where `Load` looks for them. -/
theorem format : uint16At b 20 = 1 ∧ uint16At b 22 = f.channels.toNat ∧
    int32At b 24 = f.sampleRate.toNat ∧ uint16At b 34 = 16 := by
  let p := f.head ++ (asciiBytes "fmt " ++ bytes32 (UInt32.ofNat f.fmtPayload.length))
  have hcode : b.bytes = p ++ (bytes16 1 ++ (bytes16 f.channels ++ (bytes32 f.sampleRate ++
      (bytes32 f.byteRate ++ (bytes16 f.blockAlign ++ (bytes16 16 ++ (f.extra ++ f.body))))))) := by
    rw [hb, encode, chunkBytes]
    simp only [p, List.append_assoc, fmtPayload]
  have hchannels := append_behind hcode
  have hrate := append_behind hchannels
  have hbits := append_behind (append_behind (append_behind hrate))
  refine ⟨uint16At_behind hcode rfl, uint16At_behind hchannels rfl, ?_, uint16At_behind hbits rfl⟩
  have hofNat := toInt_ofNat f.rateBounded
  rw [UInt32.ofNat_toNat] at hofNat
  exact (int32At_behind hrate rfl).trans hofNat

theorem headed : Headed b := by
  obtain ⟨hcode, hchannels, -, hbits⟩ := format hb
  refine ⟨isWave hb, long hb, hcode, ?_, hbits⟩
  rw [hchannels]
  rcases f.monoOrStereo with h | h
  all_goals
    rw [h]
    decide

/-- The reader that holds what the file says. -/
def reader (f : WavFile) : WavReader := ⟨f.channels.toNat, f.sampleRate.toNat, f.samples⟩

/-- A reader without samples gets exactly those of the file. -/
theorem loads {r : WavReader} (hr : r.data = []) : Loads b r f.reader := by
  obtain ⟨-, hchannels, hrate, -⟩ := format hb
  have hreader : ({ withFormat b r with data := (withFormat b r).data ++ f.samples } : WavReader) =
      f.reader := by
    simp only [withFormat, reader, hchannels, hrate, hr, List.nil_append]
  have hnext := chunk_nextOff (p := f.head) rfl hb f.fmtPayload_bounded
  have hbody : b.bytes = (f.head ++ chunkBytes (asciiBytes "fmt ") f.fmtPayload) ++
      (f.chunks.flatMap RiffChunk.bytes ++
        (chunkBytes (asciiBytes "data") (sampleBytes f.samples) ++ f.trailing)) := append_behind hb
  have hread := reads_samples f.samplesBounded (append_behind hbody) (withFormat b r)
  rw [hreader, ← reads_chunks f.chunks hbody, ← hnext] at hread
  exact (loads_of_headed (headed hb) r f.reader).mpr hread

end Buffer

end WavFile

/-- `Load` undoes the encoding of a file, for a reader without samples. -/
theorem load_encode (f : WavFile) {b : Buffer} (hb : b.bytes = f.encode) {r : WavReader}
    (hr : r.data = []) : ∃ fuel, load fuel b r = some (.ok (0, f.reader)) :=
  f.loads hb hr

/-- Two stereo frames behind a chunk of two bytes. -/
def stereoFile : WavFile where
  riffSize := 54
  channels := 2
  sampleRate := 48000
  byteRate := 192000
  blockAlign := 4
  extra := []
  chunks := [⟨asciiBytes "LIST", [1, 2], rfl, by decide, by decide⟩]
  samples := [1, -1, 256, -32768]
  trailing := [9]
  monoOrStereo := .inr rfl
  rateBounded := by decide
  extraEven := rfl
  extraBounded := by decide
  chunksEven := by decide
  samplesBounded := by decide

theorem load_encode_stereo : ∃ fuel, load fuel ⟨stereoFile.encode, by decide⟩ ⟨0, 0, []⟩ =
    some (.ok (0, ⟨2, 48000, [1, -1, 256, -32768]⟩)) :=
  load_encode stereoFile rfl rfl

end WavReader
