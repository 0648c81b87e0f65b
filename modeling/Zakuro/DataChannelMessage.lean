import Zakuro.ScenarioPlayer

/-!
# DataChannel messages

The layout of the messages of `OP_SEND_DATA_CHANNEL_MESSAGE`: 48 bytes with the
time, the counter and the connection id, and a slice of the binary pool behind
them. A reader gets back what was written.
-/

open CData

/-! ## Big-endian numbers -/

/-- The number that bytes make, the highest first. -/
def ofBigEndian (bytes : List UInt8) : Nat := bytes.foldl (fun n b => 256 * n + b.toNat) 0

theorem bigEndian_length (x : UInt64) : (bigEndian x).length = 8 := by
  rw [bigEndian, List.length_map, List.length_range]

/-- The byte at one place of a number. -/
theorem byte_toNat (x : UInt64) {k : Nat} (hk : k < 64) :
    ((x >>> UInt64.ofNat k) &&& 0xff).toUInt8.toNat = x.toNat / 2 ^ k % 2 ^ 8 := by
  have hmask : (0xff : UInt64).toNat = 2 ^ 8 - 1 := rfl
  have hshift : (UInt64.ofNat k).toNat % 64 = k := by
    rw [UInt64.toNat_ofNat']
    omega
  rw [UInt64.toNat_toUInt8, UInt64.toNat_and, hmask, Nat.and_two_pow_sub_one_eq_mod,
    UInt64.toNat_shiftRight, hshift, Nat.shiftRight_eq_div_pow, Nat.mod_mod]

/-- The highest bytes of a number make what is left of it without the others. -/
theorem foldl_byte {x : Nat} (hx : x < 2 ^ 64) {n : Nat} (hn : n ≤ 8) :
    (List.range n).foldl (fun m i => 256 * m + x / 2 ^ ((7 - i) * 8) % 2 ^ 8) 0 =
      x / 2 ^ ((8 - n) * 8) := by
  induction n with
  | zero => exact (Nat.div_eq_of_lt hx).symm
  | succ n ih =>
    have hplace : (8 - n) * 8 = (7 - n) * 8 + 8 := by omega
    have hnext : 8 - (n + 1) = 7 - n := by omega
    rw [List.range_succ, List.foldl_concat, ih (by omega), hplace, Nat.pow_add, hnext,
      ← Nat.div_div_eq_div_mul]
    exact Nat.div_add_mod _ _

theorem ofBigEndian_bigEndian (x : UInt64) : ofBigEndian (bigEndian x) = x.toNat := by
  have hbyte : ∀ i ∈ List.range 8, ((x >>> UInt64.ofNat ((7 - i) * 8)) &&& 0xff).toUInt8.toNat =
      x.toNat / 2 ^ ((7 - i) * 8) % 2 ^ 8 := fun i _ => byte_toNat x (by omega)
  have hfold : ofBigEndian (bigEndian x) =
      (List.range 8).foldl (fun n i => 256 * n + x.toNat / 2 ^ ((7 - i) * 8) % 2 ^ 8) 0 := by
    rw [ofBigEndian, bigEndian, List.foldl_map]
    exact List.foldl_ext _ _ _ fun n i hi => by rw [hbyte i hi]
  rw [hfold, foldl_byte x.toNat_lt (Nat.le_refl 8), Nat.sub_self, Nat.zero_mul, Nat.pow_zero,
    Nat.div_one]

/-! ## The buffer -/

theorem putBytes_append (pre old post bytes : List UInt8) (h : old.length = bytes.length) :
    putBytes (pre ++ (old ++ post)) pre.length bytes = pre ++ (bytes ++ post) := by
  induction bytes generalizing pre old with
  | nil => rw [List.length_eq_zero_iff.mp h, putBytes]
  | cons b bytes ih =>
    obtain ⟨c, old, rfl⟩ := List.exists_cons_of_length_eq_add_one h
    have hnext := ih (pre ++ [b]) old (by simpa using h)
    rw [List.length_append, List.length_singleton] at hnext
    rw [putBytes, List.cons_append, List.set_append_right _ _ (Nat.le_refl _), Nat.sub_self,
      List.set_cons_zero]
    simpa using hnext

/-- The buffer has the fields one behind the other, whatever the id is. -/
theorem messageBuffer_eq (time counter : UInt64) (connectionId : List UInt8) :
    messageBuffer time counter connectionId = asciiBytes "ZAKURO" ++ bigEndian time ++ bigEndian counter ++
      (connectionId.take 26 ++ List.replicate (26 - connectionId.length) 0) := by
  have hid : connectionId.take (min connectionId.length 26) = connectionId.take 26 := by
    rw [List.take_eq_take_iff]
    omega
  have hzeros : List.replicate 42 (0 : UInt8) = List.replicate 8 0 ++ (List.replicate 8 0 ++
      (List.replicate (connectionId.take 26).length 0 ++ List.replicate (26 - connectionId.length) 0)) := by
    rw [List.replicate_append_replicate, List.replicate_append_replicate, List.replicate_append_replicate,
      List.length_take]
    exact congrArg (List.replicate · 0) (by omega)
  have htime := putBytes_append (asciiBytes "ZAKURO") (List.replicate 8 0)
    (List.replicate 8 0 ++ (List.replicate (connectionId.take 26).length 0 ++
      List.replicate (26 - connectionId.length) 0)) (bigEndian time)
    (by rw [bigEndian_length, List.length_replicate])
  have hcounter := putBytes_append (asciiBytes "ZAKURO" ++ bigEndian time) (List.replicate 8 0)
    (List.replicate (connectionId.take 26).length 0 ++ List.replicate (26 - connectionId.length) 0)
    (bigEndian counter) (by rw [bigEndian_length, List.length_replicate])
  have hconnection := putBytes_append (asciiBytes "ZAKURO" ++ bigEndian time ++ bigEndian counter)
    (List.replicate (connectionId.take 26).length 0) (List.replicate (26 - connectionId.length) 0)
    (connectionId.take 26) (by rw [List.length_replicate])
  have hmagic : (asciiBytes "ZAKURO").length = 6 := by decide
  simp only [List.length_append, bigEndian_length, hmagic, Nat.reduceAdd, List.append_assoc]
    at htime hcounter hconnection
  rw [messageBuffer, hid, hzeros]
  simp only [htime, hcounter, hconnection]
  rw [List.append_assoc, List.append_assoc]

/-! ## The slice of the pool -/

namespace BinaryPool

variable (pool : BinaryPool)

theorem copy_length (pos size : Nat) : (pool.copy pos size).length = size := by
  fun_induction copy pool pos size with
  | case1 pos => rfl
  | case2 pos size hsize start n ih =>
    have hstart : start < pool.bytes.length := Nat.mod_lt pos pool.nonempty
    rw [List.length_append, ih, List.length_take, List.length_drop]
    omega

/-- The bytes of a slice, counted from its first around the pool. -/
theorem copy_getElem? (pos size : Nat) {k : Nat} (hk : k < size) :
    (pool.copy pos size)[k]? = pool.bytes[(pos + k) % pool.bytes.length]? := by
  induction pos, size using copy.induct pool generalizing k with
  | case1 pos => exact absurd hk (Nat.not_lt_zero k)
  | case2 pos size hsize start n =>
    rename_i ih
    have hcopy : pool.copy pos size =
        (pool.bytes.drop start).take n ++ pool.copy (pos + n) (size - n) := by
      rw [copy, if_neg hsize]
    have hstart : start < pool.bytes.length := Nat.mod_lt pos pool.nonempty
    have hlen : ((pool.bytes.drop start).take n).length = n := by
      rw [List.length_take, List.length_drop]
      omega
    rcases Nat.lt_or_ge k n with hkn | hkn
    · -- inside the piece up to the end of the pool
      have hpos : (pos + k) % pool.bytes.length = start + k := by
        rw [← Nat.mod_add_mod]
        exact Nat.mod_eq_of_lt (by omega)
      rw [hcopy, List.getElem?_append_left (by omega), List.getElem?_take_of_lt hkn, List.getElem?_drop, hpos]
    · have hsum : pos + n + (k - n) = pos + k := by omega
      rw [hcopy, List.getElem?_append_right (by omega), hlen, ih (by omega), hsum]

end BinaryPool

/-! ## The layout -/

/-- What a receiver finds in a message. -/
structure Layout (pool : BinaryPool) (time counter : UInt64) (connectionId : List UInt8)
    (minSize maxSize : Int) (message : List UInt8) : Prop where
  length : minSize ≤ message.length ∧ (message.length : Int) ≤ maxSize
  magic : message.take 6 = asciiBytes "ZAKURO"
  time_eq : ofBigEndian ((message.drop 6).take 8) = time.toNat
  counter_eq : ofBigEndian ((message.drop 14).take 8) = counter.toNat
  id_eq : (message.drop 22).take 26 =
    connectionId.take 26 ++ List.replicate (26 - connectionId.length) 0
  id_recovered : connectionId.length ≤ 26 → 0 ∉ connectionId →
    ((message.drop 22).take 26).takeWhile (· ≠ 0) = connectionId
  slice : ∃ pos < pool.bytes.length, ∀ k, 48 + k < message.length →
    message[48 + k]? = pool.bytes[(pos + k) % pool.bytes.length]?

/-- The part of a text between two others. -/
theorem drop_take_middle {pre mid post : List UInt8} {m n : Nat} (hm : pre.length = m)
    (hn : mid.length = n) : ((pre ++ (mid ++ post)).drop m).take n = mid := by
  rw [← hm, List.drop_left, ← hn, List.take_left]

theorem takeWhile_padded {text : List UInt8} (h : 0 ∉ text) (n : Nat) :
    (text ++ List.replicate n 0).takeWhile (· ≠ 0) = text := by
  rw [List.takeWhile_append_of_pos fun b hb => by
    simpa using ne_of_mem_of_not_mem hb h]
  simp

theorem messageBuffer_length (time counter : UInt64) (connectionId : List UInt8) :
    (messageBuffer time counter connectionId).length = 48 := by
  have hmagic : (asciiBytes "ZAKURO").length = 6 := by decide
  simp only [messageBuffer_eq, List.length_append, hmagic, bigEndian_length, List.length_take,
    List.length_replicate]
  omega

/-- The counter is where the layout says, however long the message is. -/
theorem messageBuffer_counter (time counter : UInt64) (connectionId slice : List UInt8) :
    ofBigEndian (((messageBuffer time counter connectionId ++ slice).drop 14).take 8) = counter.toNat := by
  have hlen : (asciiBytes "ZAKURO" ++ bigEndian time).length = 14 := by
    rw [List.length_append, bigEndian_length]
    decide
  rw [messageBuffer_eq, List.append_assoc, List.append_assoc (asciiBytes "ZAKURO" ++ bigEndian time),
    drop_take_middle hlen (bigEndian_length counter), ofBigEndian_bigEndian]

theorem messageBuffer_layout (pool : BinaryPool) (time counter : UInt64) (connectionId : List UInt8)
    {minSize maxSize : Int} {pos size : Nat} (hpos : pos < pool.bytes.length)
    (hmin : minSize ≤ 48 + size) (hmax : (48 + size : Int) ≤ maxSize) :
    Layout pool time counter connectionId minSize maxSize
      (messageBuffer time counter connectionId ++ pool.copy pos size) := by
  have hmagic : (asciiBytes "ZAKURO").length = 6 := by decide
  have htime := bigEndian_length time
  have hcounter := bigEndian_length counter
  have hheader := messageBuffer_length time counter connectionId
  have hcopy := pool.copy_length pos size
  have hid : (connectionId.take 26 ++ List.replicate (26 - connectionId.length) (0 : UInt8)).length = 26 := by
    rw [List.length_append, List.length_take, List.length_replicate]
    omega
  have hconnection : (((messageBuffer time counter connectionId ++ pool.copy pos size).drop 22).take 26) =
      connectionId.take 26 ++ List.replicate (26 - connectionId.length) 0 := by
    rw [messageBuffer_eq, List.append_assoc]
    exact drop_take_middle (by simp only [List.length_append, hmagic, htime, hcounter]) hid
  constructor
  · rw [List.length_append, hheader, hcopy]
    omega
  · rw [messageBuffer_eq, List.append_assoc, List.append_assoc, List.append_assoc]
    exact List.take_left' hmagic
  · rw [messageBuffer_eq, List.append_assoc, List.append_assoc, List.append_assoc,
      drop_take_middle hmagic htime, ofBigEndian_bigEndian]
  · exact messageBuffer_counter time counter connectionId _
  · exact hconnection
  · intro hlen hzero
    rw [hconnection, List.take_of_length_le hlen, takeWhile_padded hzero]
  · refine ⟨pos, hpos, fun k hk => ?_⟩
    rw [List.length_append, hheader, hcopy] at hk
    rw [List.getElem?_append_right (by omega), hheader, Nat.add_sub_cancel_left,
      pool.copy_getElem? pos size (by omega)]

namespace World

open ScenarioPlayer

variable {n : Nat}

/-- The message is given to the client, and the counter goes up by one. -/
theorem sendMessage_of_message {env : Env} {p : PlayerPath} {i : Fin n} {d : Draw} {label : String}
    {w : World n} {message : List UInt8} (h : w.message env p i d label = some message) :
    w.sendMessage env p i d label = (w.client env i (.sendMessage label message)).map
      (setCounter p label ((w.players p).dcCounter label + 1)) := by
  rw [sendMessage, h]

/-- Every message that is sent has the layout. -/
theorem sendMessage_layout (env : Env) (w : World n) (p : PlayerPath) (i : Fin n) (d : Draw)
    (label : String) {minSize maxSize : Int} (hmin : 48 ≤ minSize) (hle : minSize ≤ maxSize)
    (hint : maxSize < 2 ^ 31) (hfits : d.Fits env.pool (.sendDataChannelMessage label minSize maxSize)) :
    ∃ message,
      w.operate env p i d (.sendDataChannelMessage label minSize maxSize) =
        (w.client env i (.sendMessage label message)).map
          (setCounter p label ((w.players p).dcCounter label + 1)) ∧
      Layout env.pool d.time ((w.players p).dcCounter label)
        ((w.vcs i).getStats env.vcConfig d.sdk).connectionId minSize maxSize message := by
  obtain ⟨hsize, hpos⟩ := hfits
  rw [toInt_of_range (by omega) (by omega), toInt_of_range (by omega) (by omega)] at hsize
  obtain ⟨hlo, hhi⟩ := hsize (by omega)
  have hget : env.pool.get d.size d.pos = some (env.pool.copy d.pos d.size.toNat) := by
    rw [BinaryPool.get, if_neg (by omega)]
  have hmin : minSize ≤ 48 + (d.size.toNat : Int) := by omega
  have hmax : 48 + (d.size.toNat : Int) ≤ maxSize := by omega
  refine ⟨_, sendMessage_of_message ?_, messageBuffer_layout env.pool d.time _ _ hpos hmin hmax⟩
  rw [message, hget]
  rfl

/-- A pool of three bytes, and draws for five of them from the last on. -/
def smallEnv : Env where
  vcConfig := {}
  pool := ⟨[7, 8, 9], by decide⟩
  voice := fun _ => []

def smallDraw : Draw := ⟨0, 5, 2, 1, ⟨asciiBytes "ID", "", true, true⟩⟩

theorem sendMessage_layout_small : ∃ message,
    World.operate smallEnv [] 0 smallDraw ({} : World 1) (.sendDataChannelMessage "#a" 48 60) =
      (World.client smallEnv 0 (.sendMessage "#a" message) ({} : World 1)).map
        (setCounter [] "#a" ((({} : World 1).players []).dcCounter "#a" + 1)) ∧
    Layout smallEnv.pool smallDraw.time ((({} : World 1).players []).dcCounter "#a")
      ((({} : World 1).vcs 0).getStats smallEnv.vcConfig smallDraw.sdk).connectionId 48 60 message :=
  sendMessage_layout smallEnv {} [] 0 smallDraw "#a" (by decide) (by decide) (by decide) (by decide)

end World
