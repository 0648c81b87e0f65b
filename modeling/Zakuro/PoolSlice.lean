import Zakuro.Loop
import Zakuro.DataChannelMessage

/-!
# The slice of the binary pool

The copying loop of `BinaryPool::Get` with its local variables as they are: `int`
counters that may overflow, and a range of the pool that is checked before it is
copied. The slices that the rest of the development speaks of are its results.
-/

namespace BinaryPool

/-- The local variables of `Get` that the loop changes. -/
structure Locals where
  pos : Int
  size : Int
  r : List UInt8

/-- What may go wrong in a pass: `p + start` to `p + start + n` is not a range of
the pool, or `pos += n` is no `int`. -/
inductive GetFault where
  | outside
  | overflow
  deriving DecidableEq, Repr

variable (pool : BinaryPool)

/-- `const int start = pos % size_` -/
def Locals.start (l : Locals) : Int := l.pos.tmod pool.bytes.length

/-- `const int n = std::min(size, size_ - start)` -/
def Locals.n (l : Locals) : Int := min l.size (pool.bytes.length - l.start pool)

/-- The range that a pass copies lies inside the pool. -/
def Locals.Inside (l : Locals) : Prop :=
  0 ≤ l.start pool ∧ 0 ≤ l.n pool ∧ l.start pool + l.n pool ≤ pool.bytes.length

instance (l : Locals) : Decidable (l.Inside pool) := inferInstanceAs (Decidable (_ ∧ _ ∧ _))

/-- One pass of `while (size > 0)`. -/
def pass (l : Locals) : Locals ⊕ Except GetFault (List UInt8) :=
  if l.size > 0 then
    if l.Inside pool then
      if l.pos + l.n pool < 2 ^ 31 then
        .inl
          { pos := l.pos + l.n pool
            size := l.size - l.n pool
            r := l.r ++ (pool.bytes.drop (l.start pool).toNat).take (l.n pool).toNat }
      else .inr (.error .overflow)
    else .inr (.error .outside)
  else .inr (.ok l.r)

/-! ## One pass -/

/-- The loop is on its way to `slice`, which ends before the position `stop`. -/
structure Slicing (slice : List UInt8) (stop : Int) (l : Locals) : Prop where
  pos : 0 ≤ l.pos
  size : 0 ≤ l.size
  stop : l.pos + l.size = stop
  r : l.r ++ pool.copy l.pos.toNat l.size.toNat = slice

variable {pool}

theorem start_toNat {l : Locals} (hpos : 0 ≤ l.pos) :
    l.start pool = ((l.pos.toNat % pool.bytes.length : Nat) : Int) := by
  rw [Locals.start, Int.tmod_eq_emod_of_nonneg hpos, Int.natCast_emod, Int.toNat_of_nonneg hpos]

theorem Slicing.inside {slice : List UInt8} {stop : Int} {l : Locals} (h : Slicing pool slice stop l) :
    l.Inside pool := by
  have hlt := Nat.mod_lt l.pos.toNat pool.nonempty
  have hsize := h.size
  rw [Locals.Inside, Locals.n, start_toNat h.pos]
  omega

/-- The next piece of a slice, in the numbers of the loop. -/
theorem copy_pass {l : Locals} (hpos : 0 ≤ l.pos) (hsize : 0 < l.size) :
    pool.copy l.pos.toNat l.size.toNat =
      (pool.bytes.drop (l.start pool).toNat).take (l.n pool).toNat ++
        pool.copy (l.pos + l.n pool).toNat (l.size - l.n pool).toNat := by
  have hlt := Nat.mod_lt l.pos.toNat pool.nonempty
  have hstart : (l.start pool).toNat = l.pos.toNat % pool.bytes.length := by
    rw [start_toNat hpos, Int.toNat_natCast]
  have hn : (l.n pool).toNat = min l.size.toNat (pool.bytes.length - l.pos.toNat % pool.bytes.length) := by
    rw [Locals.n, start_toNat hpos]
    omega
  have hnext : (l.pos + l.n pool).toNat = l.pos.toNat + (l.n pool).toNat := by omega
  have hrest : (l.size - l.n pool).toNat = l.size.toNat - (l.n pool).toNat := by omega
  rw [copy, if_neg (by omega), hnext, hrest, hstart, hn]

/-- Every pass copies at least one byte. -/
theorem Slicing.n_pos {slice : List UInt8} {stop : Int} {l : Locals} (h : Slicing pool slice stop l)
    (hsize : 0 < l.size) : 0 < l.n pool ∧ l.n pool ≤ l.size := by
  have hlt := Nat.mod_lt l.pos.toNat pool.nonempty
  rw [Locals.n, start_toNat h.pos]
  omega

theorem Slicing.next {slice : List UInt8} {stop : Int} {l m : Locals} (h : Slicing pool slice stop l)
    (hm : pool.pass l = .inl m) : Slicing pool slice stop m ∧ m.size.toNat < l.size.toNat := by
  rw [pass] at hm
  split at hm
  next hsize =>
    obtain ⟨hn0, hn⟩ := h.n_pos hsize
    rw [if_pos h.inside] at hm
    split at hm
    next hint =>
      obtain rfl := Sum.inl.inj hm
      have hpos := h.pos
      have hstop := h.stop
      have hr := h.r
      rw [copy_pass hpos hsize, ← List.append_assoc] at hr
      exact ⟨⟨by dsimp only; omega, by dsimp only; omega, by dsimp only; omega, hr⟩, by dsimp only; omega⟩
    next => simp at hm
  next => simp at hm

/-- The loop is left with the whole slice, not by a fault. -/
theorem Slicing.leave {slice : List UInt8} {stop : Int} (hint : stop < 2 ^ 31) {l : Locals}
    (h : Slicing pool slice stop l) {x : Except GetFault (List UInt8)} (hx : pool.pass l = .inr x) :
    x = .ok slice := by
  rw [pass] at hx
  split at hx
  next hsize =>
    obtain ⟨hn0, hn⟩ := h.n_pos hsize
    have hstop := h.stop
    rw [if_pos h.inside, if_pos (by omega)] at hx
    simp at hx
  next hsize =>
    have hzero : l.size.toNat = 0 := by
      have := h.size
      omega
    have hr := h.r
    rw [hzero, copy, if_pos rfl, List.append_nil] at hr
    rw [← hr]
    exact (Sum.inr.inj hx).symm

/-! ## The loop -/

theorem slicing_init {pos size : Int} (hpos : 0 ≤ pos) (hsize : 0 ≤ size) :
    Slicing pool (pool.copy pos.toNat size.toNat) (pos + size) ⟨pos, size, []⟩ :=
  ⟨hpos, hsize, rfl, rfl⟩

/-- The loop of `Get` ends with the slice of the drawn position and size. -/
theorem pass_ends {pos size : Int} (hpos : 0 ≤ pos) (hsize : 0 ≤ size) (hint : pos + size < 2 ^ 31) :
    Loop.Ends pool.pass ⟨pos, size, []⟩ (.ok (pool.copy pos.toNat size.toNat)) := by
  have hends : ∃ x, Loop.Ends pool.pass ⟨pos, size, []⟩ x ∧ x = .ok (pool.copy pos.toNat size.toNat) :=
    Loop.ends_of_measure (Slicing pool (pool.copy pos.toNat size.toNat) (pos + size))
      (fun l => l.size.toNat) _ (fun l m hl hm => hl.next hm) (fun l x hl hx => hl.leave hint hx)
      (slicing_init hpos hsize)
  obtain ⟨x, hx, rfl⟩ := hends
  exact hx

/-- The slice goes around the pool from its first position on, byte for byte, and
each piece of it is copied from inside. -/
theorem get_cyclic (pool : BinaryPool) {pos size : Int} (hpos : 0 ≤ pos) (hsize : 0 ≤ size)
    (hint : pos + size < 2 ^ 31) :
    (∃ r, Loop.Ends pool.pass ⟨pos, size, []⟩ (.ok r) ∧ r.length = size.toNat ∧
      ∀ k (hk : k < r.length), pool.bytes[(pos.toNat + k) % pool.bytes.length]? = some r[k]) ∧
    ∀ l, Loop.Reach pool.pass ⟨pos, size, []⟩ l → l.Inside pool := by
  refine ⟨⟨_, pass_ends hpos hsize hint, pool.copy_length _ _, fun k hk => ?_⟩, fun l hl => ?_⟩
  · have hk' : k < size.toNat := by rwa [copy_length] at hk
    rw [← pool.copy_getElem? pos.toNat size.toNat hk']
    exact List.getElem?_eq_getElem hk
  · have hslicing := hl.invariant (fun s t hs ht => (hs.next ht).1) (slicing_init hpos hsize)
    exact hslicing.inside

/-- Seven bytes from the last but one of three: around the pool more than twice. -/
theorem get_cyclic_seven : ∃ r, Loop.Ends (BinaryPool.mk [10, 20, 30] (by decide)).pass ⟨1, 7, []⟩ (.ok r) ∧
    r.length = 7 ∧ ∀ k (hk : k < r.length), [10, 20, 30][(1 + k) % 3]? = some r[k] :=
  (get_cyclic ⟨[10, 20, 30], by decide⟩ (show (0 : Int) ≤ 1 by decide) (show (0 : Int) ≤ 7 by decide)
    (by decide)).1

end BinaryPool
