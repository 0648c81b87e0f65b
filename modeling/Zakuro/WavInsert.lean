import Zakuro.WavFile

/-!
# A chunk put behind the `fmt ` chunk

RIFF chunks begin at even offsets, and a byte of padding stands behind a payload
of odd length. `Load` steps from chunk to chunk by the stored sizes alone, so it
finds what comes behind the padding one byte too early.
-/

namespace WavReader

open CData

/-- The chunk as a file holds it, with its padding. -/
def RiffChunk.padded (c : RiffChunk) : List UInt8 :=
  c.bytes ++ if c.payload.length % 2 = 0 then [] else [0]

/-- The buffer up to and with its `fmt ` chunk, under another RIFF size. -/
def headUnder (b : Buffer) (riffSize : UInt32) : List UInt8 :=
  b.bytes.take 4 ++ (bytes32 riffSize ++ (b.bytes.take (nextOff b 12)).drop 8)

/-- The buffer with a chunk put directly behind its `fmt ` chunk. -/
def insert (b : Buffer) (riffSize : UInt32) (c : RiffChunk) : List UInt8 :=
  headUnder b riffSize ++ (c.padded ++ b.bytes.drop (nextOff b 12))

section Head

variable {b b' : Buffer} {riffSize : UInt32} {t : List UInt8} (h36 : 36 ≤ nextOff b 12)
  (hle : nextOff b 12 ≤ b.bytes.length)
include h36 hle

theorem headUnder_length (riffSize : UInt32) : (headUnder b riffSize).length = nextOff b 12 := by
  simp only [headUnder, bytes32, List.length_append, List.length_take, List.length_drop,
    List.length_cons, List.length_nil]
  omega

variable (h : b'.bytes = headUnder b riffSize ++ t)
include h

/-- Apart from the RIFF size nothing changes up to the end of the `fmt ` chunk. -/
theorem headUnder_byte {i : Nat} (hi : i < nextOff b 12) (hsize : i < 4 ∨ 8 ≤ i) :
    byte b' i = byte b i := by
  have hlength := headUnder_length h36 hle riffSize
  have hfour : (b.bytes.take 4).length = 4 := by
    rw [List.length_take]
    omega
  simp only [byte, List.getD_eq_getElem?_getD, h]
  rw [List.getElem?_append_left (by omega), headUnder]
  rcases hsize with hlow | hhigh
  · rw [List.getElem?_append_left (by omega), List.getElem?_take_of_lt hlow]
  · have hsum : 8 + (i - 4 - 4) = i := by omega
    rw [List.getElem?_append_right (by omega), hfour,
      List.getElem?_append_right (show (bytes32 riffSize).length ≤ i - 4 from (show 4 ≤ i - 4 by omega)),
      show (bytes32 riffSize).length = 4 from rfl, List.getElem?_drop, hsum,
      List.getElem?_take_of_lt hi]

theorem headUnder_name {i : Nat} (hi : i + 4 ≤ nextOff b 12) (hsize : i = 0 ∨ 8 ≤ i) :
    name b' i = name b i := by
  have hbyte (j : Nat) (hj : j < 4) : byte b' (i + j) = byte b (i + j) :=
    headUnder_byte h36 hle h (by omega) (by omega)
  simp only [name, hbyte 1 (by decide), hbyte 2 (by decide), hbyte 3 (by decide),
    show byte b' i = byte b i from hbyte 0 (by decide)]

theorem headUnder_uint16At {i : Nat} (hi : i + 2 ≤ nextOff b 12) (hsize : 8 ≤ i) :
    uint16At b' i = uint16At b i := by
  have hbyte (j : Nat) (hj : j < 2) : byte b' (i + j) = byte b (i + j) :=
    headUnder_byte h36 hle h (by omega) (by omega)
  simp only [uint16At, hbyte 1 (by decide), show byte b' i = byte b i from hbyte 0 (by decide)]

theorem headUnder_int32At {i : Nat} (hi : i + 4 ≤ nextOff b 12) (hsize : 8 ≤ i) :
    int32At b' i = int32At b i := by
  have hbyte (j : Nat) (hj : j < 4) : byte b' (i + j) = byte b (i + j) :=
    headUnder_byte h36 hle h (by omega) (by omega)
  simp only [int32At, hbyte 1 (by decide), hbyte 2 (by decide), hbyte 3 (by decide),
    show byte b' i = byte b i from hbyte 0 (by decide)]

theorem headUnder_csize : csize b' 12 = csize b 12 :=
  headUnder_int32At h36 hle h (i := 16) (by omega) (by omega)

theorem headUnder_nextOff : nextOff b' 12 = nextOff b 12 := by
  simp only [nextOff, headUnder_csize h36 hle h]

theorem headUnder_headed (hb : Headed b) : Headed b' := by
  have hlength := headUnder_length h36 hle riffSize
  have hle' : nextOff b 12 ≤ b'.bytes.length := by
    rw [h, List.length_append, hlength]
    omega
  obtain ⟨⟨-, hriff, hwave, hfits, hname⟩, -, hcode, hchannels, hbits⟩ := hb
  have hfits' : ChunkFits b' 12 := by
    obtain ⟨-, hlow, hhigh, -⟩ := hfits
    simp only [ChunkFits, headUnder_csize h36 hle h]
    simp only [nextOff] at hle' h36
    omega
  refine ⟨⟨by omega, ?_, ?_, hfits', ?_⟩, by omega, ?_, ?_, ?_⟩
  · rw [headUnder_name h36 hle h (by omega) (.inl rfl), hriff]
  · rw [headUnder_name h36 hle h (by omega) (.inr (by omega)), hwave]
  · rw [headUnder_name h36 hle h (by omega) (.inr (by omega)), hname]
  · rw [headUnder_uint16At h36 hle h (by omega) (by omega), hcode]
  · rwa [headUnder_uint16At h36 hle h (by omega) (by omega)]
  · rw [headUnder_uint16At h36 hle h (by omega) (by omega), hbits]

theorem headUnder_withFormat (r : WavReader) : withFormat b' r = withFormat b r := by
  simp only [withFormat, headUnder_uint16At h36 hle h (i := 22) (by omega) (by omega),
    headUnder_int32At h36 hle h (i := 24) (by omega) (by omega)]

end Head

/-- With a chunk inserted, `Load` goes on behind the payload of the chunk. -/
theorem loads_insert {b b' : Buffer} {riffSize : UInt32} {c : RiffChunk} (hb : Headed b)
    (h16 : 16 ≤ csize b 12) (h : b'.bytes = insert b riffSize c) (r r' : WavReader) :
    Loads b' r r' ↔
      Reads b' (withFormat b r) (headUnder b riffSize ++ c.bytes).length (.ok (0, r')) := by
  have h36 : 36 ≤ nextOff b 12 := by
    simp only [nextOff]
    omega
  have hle := (nextOff_le hb.wave.2.2.2.1).2
  rw [loads_of_headed (headUnder_headed h36 hle h hb), headUnder_withFormat h36 hle h,
    headUnder_nextOff h36 hle h, ← headUnder_length h36 hle riffSize]
  refine reads_chunk c (t := (if c.payload.length % 2 = 0 then [] else [0]) ++
    b.bytes.drop (nextOff b 12)) ?_ _ _
  rw [h, insert, RiffChunk.padded, List.append_assoc]

/-- The chunk can be inserted into any file that `Load` accepts, and `Load` reads the
same from it. -/
def Insertable (c : RiffChunk) : Prop :=
  ∀ (b b' : Buffer) (riffSize : UInt32) (r r' : WavReader), r.data = [] → Loads b r r' →
    16 ≤ csize b 12 → csize b 12 % 2 = 0 → b'.bytes = insert b riffSize c → Loads b' r r'

theorem insertable_of_even {c : RiffChunk} (heven : c.payload.length % 2 = 0) : Insertable c := by
  rintro b b' riffSize r r' - hloads h16 - h
  have hb := headed_of_loads hloads
  have hle := (nextOff_le hb.wave.2.2.2.1).2
  rw [loads_insert hb h16 h]
  rw [loads_of_headed hb] at hloads
  have htail : b'.bytes = (headUnder b riffSize ++ c.bytes) ++ b.bytes.drop (nextOff b 12) := by
    rw [h, insert, RiffChunk.padded, if_pos heven, List.append_nil, List.append_assoc]
  have hsame : SameTail b b' (nextOff b 12) (headUnder b riffSize ++ c.bytes).length := by
    have hlength := length_behind htail
    exact ⟨hle, by omega, by rw [htail, List.drop_left]⟩
  exact (hsame.reads _ _).mp hloads

/-- A mono file with an empty data chunk. -/
def silentFile : Buffer where
  bytes := fmtThen "data" [0, 0, 0, 0]
  fits := by decide

theorem silentFile_loads (r : WavReader) : Loads silentFile r ⟨1, 16000, r.data⟩ := by
  have hhead : loadHead silentFile = .ok (.fmt 1 16000 36 8) := by decide
  have hchunk : readChunk silentFile 36 8 = .ok (some ⟨asciiBytes "data", 0, 44⟩) := by decide
  refine ⟨1, ?_⟩
  simp only [load, hhead, Loop.run, chunkPass, hchunk]
  simp [loadData, toInt, readSamples]
  rfl

/-- Behind an odd payload the padding is taken for the first byte of a name. -/
theorem insert_silentFile {c : RiffChunk} (hodd : c.payload.length % 2 ≠ 0) :
    insert silentFile 36 c = (headUnder silentFile 36 ++ c.bytes) ++
      ([0, 100, 97, 116] ++ (bytes32 97 ++ [0])) := by
  have hdrop : [0] ++ silentFile.bytes.drop (nextOff silentFile 12) =
      [0, 100, 97, 116] ++ (bytes32 97 ++ [0]) := by decide
  rw [insert, RiffChunk.padded, if_neg hodd, List.append_assoc, hdrop, List.append_assoc]

theorem not_insertable_of_odd {c : RiffChunk} (hodd : c.payload.length % 2 ≠ 0) : ¬ Insertable c := by
  intro hinsert
  have hb := headed_of_loads (silentFile_loads ⟨0, 0, []⟩)
  have hshort : (insert silentFile 36 c).length < 2 ^ 63 := by
    have hbounded := c.bounded
    have hhead : (headUnder silentFile 36).length = 36 := rfl
    have hchunk := chunkBytes_length c.id_length c.payload
    have htail : ([0, 100, 97, 116] ++ (bytes32 97 ++ [0])).length = 9 := rfl
    rw [insert_silentFile hodd, List.length_append, List.length_append, RiffChunk.bytes, htail, hhead, hchunk]
    omega
  let b' : Buffer := ⟨insert silentFile 36 c, hshort⟩
  have hloads : Loads b' ⟨0, 0, []⟩ ⟨1, 16000, []⟩ :=
    hinsert silentFile b' 36 _ _ rfl (silentFile_loads _) (by decide) (by decide) rfl
  rw [loads_insert hb (by decide) rfl] at hloads
  have htail : b'.bytes = _ := insert_silentFile hodd
  have hlength := length_behind htail
  have hcsize : csize b' (headUnder silentFile 36 ++ c.bytes).length = 97 := csize_behind rfl htail
  have hmisfit : ¬ ChunkFits b' (headUnder silentFile 36 ++ c.bytes).length := by
    intro hfits
    have hroom := hfits.2.2.2
    rw [hcsize, hlength] at hroom
    have hnine : ([0, 100, 97, 116] ++ (bytes32 97 ++ [0])).length = 9 := rfl
    omega
  have hleft := (reads_misfit (by omega) _ _ hmisfit).mp hloads
  simp at hleft

/-- Exactly a chunk whose payload has an even length can be inserted. -/
theorem insertable_iff (c : RiffChunk) : Insertable c ↔ c.payload.length % 2 = 0 :=
  ⟨fun h => by_contra fun hodd => not_insertable_of_odd hodd h, insertable_of_even⟩

theorem list_length : (asciiBytes "LIST").length = 4 := rfl

theorem list_ne_data : asciiBytes "LIST" ≠ asciiBytes "data" := by decide

/-- A chunk with one byte, which its padding follows. -/
def oddChunk : RiffChunk := ⟨asciiBytes "LIST", [1], list_length, list_ne_data, by decide⟩

/-- With it the file is refused, since no data chunk is found. -/
theorem oddChunk_refused : (¬ ∀ c, Insertable c) ∧
    load 2 ⟨insert silentFile 36 oddChunk, by decide⟩ ⟨0, 0, []⟩ = some (.ok (-10, ⟨1, 16000, []⟩)) :=
  ⟨fun h => not_insertable_of_odd (c := oddChunk) (by decide) (h oddChunk), by decide⟩

end WavReader
