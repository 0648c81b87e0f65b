import Zakuro.ChannelScenarios

/-!
# Accepted data channels

What the rest of the program may rely on once `ParseDataChannels` returns true:
the channels are those of the list, in order, and each message size that the
pool is later asked for is in range for `uniform_int_distribution` and for the
`int` counters of `BinaryPool::Get`.
-/

namespace BinaryPool

/-- The loop of `Get` with its counters in `int`, without a result where `pos += n`
leaves the type. -/
def copyInt (pool : BinaryPool) (pos size : Nat) : Option (List UInt8) :=
  if size = 0 then some []
  else
    let start := pos % pool.bytes.length
    let n := min size (pool.bytes.length - start)
    if pos + n < 2 ^ 31 then
      (copyInt pool (pos + n) (size - n)).map ((pool.bytes.drop start).take n ++ ·)
    else none
termination_by size
decreasing_by
  have hstart := Nat.mod_lt pos pool.nonempty
  omega

/-- The counters stay in `int` where the first byte behind the slice does. -/
theorem copyInt_eq_copy (pool : BinaryPool) {pos size : Nat} (h : pos + size < 2 ^ 31) :
    pool.copyInt pos size = some (pool.copy pos size) := by
  induction pos, size using copyInt.induct pool with
  | case1 pos => rw [copyInt, copy, if_pos rfl, if_pos rfl]
  | case2 pos size hsize start n =>
    rename_i hfits ih
    have hsum : pos + n + (size - n) < 2 ^ 31 := by omega
    rw [copyInt, copy, if_neg hsize, if_neg hsize]
    dsimp only
    rw [if_pos hfits, ih hsum, Option.map_some]
  | case3 pos size hsize start n =>
    rename_i hfits
    exact absurd (show pos + n < 2 ^ 31 by omega) hfits

/-- `const int BINARY_POOL_SIZE` -/
def binaryPoolSize : Nat := 1 * 1024 * 1024

end BinaryPool

namespace DataChannels

open Attempt CData

theorem readChannels_announces {m m' : DataChannels} {js : List Json}
    (h : readChannels m js = .value m') :
    ∃ objs schs, js = objs.map Json.object ∧ m'.schannels = m.schannels ++ schs ∧
      List.Forall₂ Announces objs schs := by
  induction js generalizing m with
  | nil =>
    obtain rfl := value.inj h
    exact ⟨[], [], rfl, by simp, .nil⟩
  | cons j js ih =>
    cases j with
    | object obj =>
      obtain ⟨r, hr, hrest⟩ := bind_eq_value.mp h
      obtain ⟨objs, schs, rfl, hschs, hall⟩ := ih hrest
      refine ⟨obj :: objs, r.2 :: schs, rfl, ?_, .cons (readChannel_describes hr).2 hall⟩
      rw [hschs, add, List.append_assoc, List.singleton_append]
    | _ => cases h

/-- The bounds of a channel that is to send. -/
structure Bounded (ch : DataChannel) : Prop where
  interval : 1 ≤ ch.interval
  sizeMin : messageSizeMin ≤ ch.sizeMin
  ordered : ch.sizeMin ≤ ch.sizeMax
  sizeMax : ch.sizeMax ≤ messageSizeMax

theorem Describes.bounded {obj : Members} {ch : DataChannel} (h : Describes obj ch) : Bounded ch := by
  obtain ⟨x, -, hmax⟩ := h.sizeMax
  exact ⟨h.interval_pos, h.sizes.1, by omega, h.sizes.2⟩

/-- What is read agrees with the list that it is read from. -/
structure Agrees (value : Json) (m : DataChannels) : Prop where
  announced : ∃ objs, value = .array (objs.map Json.object) ∧ List.Forall₂ Announces objs m.schannels
  described : List.Forall₂ Describes (sendingObjects value) m.channels
  bounded : ∀ ch ∈ m.channels, Bounded ch

theorem parseDataChannels_agrees {value : Json} {m : DataChannels}
    (h : parseDataChannels value = .value m) : Agrees value m := by
  cases value with
  | array js =>
    obtain ⟨objs, schs, rfl, hschs, hall⟩ := readChannels_announces h
    have hdescribed : List.Forall₂ Describes (sendingObjects (.array (objs.map Json.object))) m.channels :=
      ofConfig_describes h
    rw [List.nil_append] at hschs
    refine ⟨⟨objs, rfl, hschs ▸ hall⟩, hdescribed, fun ch hch => ?_⟩
    obtain ⟨obj, -, hobj⟩ := World.exists_partner (R := flip Describes) hdescribed.flip hch
    exact hobj.bounded
  | _ => cases h

/-- The call of `Get` for a message of the channel is in range, whatever it draws. -/
structure Drawable (pool : BinaryPool) (ch : DataChannel) : Prop where
  nonneg : 0 ≤ toInt (ch.sizeMin - 48)
  ordered : toInt (ch.sizeMin - 48) ≤ toInt (ch.sizeMax - 48)
  counters : ∀ d : ScenarioPlayer.Draw,
    d.Fits pool (.sendDataChannelMessage ch.label ch.sizeMin ch.sizeMax) →
      0 ≤ d.size ∧ d.pos + d.size < 2 ^ 31 ∧
      pool.copyInt d.pos d.size.toNat = pool.get d.size d.pos

theorem Bounded.drawable {ch : DataChannel} (h : Bounded ch) {pool : BinaryPool}
    (hpool : pool.bytes.length = BinaryPool.binaryPoolSize) : Drawable pool ch := by
  obtain ⟨-, hmin, hordered, hmax⟩ := h
  simp only [messageSizeMin, messageSizeMax] at hmin hmax
  have hlo : toInt (ch.sizeMin - 48) = ch.sizeMin - 48 := toInt_of_range (by omega) (by omega)
  have hhi : toInt (ch.sizeMax - 48) = ch.sizeMax - 48 := toInt_of_range (by omega) (by omega)
  refine ⟨by omega, by omega, fun d hd => ?_⟩
  obtain ⟨hsize, hpos⟩ := hd
  obtain ⟨hsize, hsize'⟩ := hsize (by omega)
  rw [hpool, BinaryPool.binaryPoolSize] at hpos
  have hneg : ¬d.size < 0 := by omega
  refine ⟨by omega, by omega, ?_⟩
  rw [BinaryPool.copyInt_eq_copy pool (by omega), BinaryPool.get, if_neg hneg]

/-- Channels that are accepted agree with their list, and the pool has a message
for each of them. -/
theorem parseDataChannels_accepted {value : Json} {m : DataChannels}
    (h : parseDataChannels value = .value m) :
    Agrees value m ∧ ∀ ch ∈ m.channels, ∀ pool : BinaryPool,
      pool.bytes.length = BinaryPool.binaryPoolSize → Drawable pool ch := by
  have hagrees := parseDataChannels_agrees h
  exact ⟨hagrees, fun ch hch pool hpool => (hagrees.bounded ch hch).drawable hpool⟩

/-- The larger size is raised to the smaller one, and the second channel only receives. -/
theorem parseDataChannels_raised :
    let value : Json := .array
      [.object [("label", .string "#a"), ("direction", .string "sendonly"), ("size_min", .int64 100),
        ("size-max", .int64 60)],
      .object [("label", .string "#b"), ("direction", .string "recvonly")]]
    let m : DataChannels := ⟨[⟨"#a", 500, 100, 100⟩],
      [⟨"#a", "sendonly", none, none, none, none, none⟩, ⟨"#b", "recvonly", none, none, none, none, none⟩]⟩
    parseDataChannels value = .value m ∧ Agrees value m ∧ ∀ ch ∈ m.channels, ∀ pool : BinaryPool,
      pool.bytes.length = BinaryPool.binaryPoolSize → Drawable pool ch :=
  ⟨by decide, parseDataChannels_accepted (by decide)⟩

end DataChannels
