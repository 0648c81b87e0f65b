import Mathlib.Data.List.TakeWhile
import Mathlib.Tactic.Ring
import Zakuro.CData

/-!
# The texts of the fake video

The texts that are drawn into a picture of the fake video, in the order in which
they are drawn: the time since the capture has started, the number of the
picture, and what was asked for. The time can be read back from its text.
Positions, fonts and colours are left out.
-/

open CData

namespace FakeVideoTexts

/-! ## DrawTexts -/

/-- `(char)('0' + r)` -/
def digit (r : Int) : Char := Char.ofNat (48 + r).toNat

/-- The loop of `pad`, from `i` on. -/
def padLoop (c : Char) (d i : Nat) (v : Int) (s : List Char) : List Char :=
  if i < d ∨ v ≠ 0 then
    if i ≠ 0 ∧ v = 0 then padLoop c d (i + 1) v (c :: s)
    else padLoop c d (i + 1) (v.tdiv 10) (digit (v.tmod 10) :: s)
  else s
termination_by (d - i) + v.natAbs
decreasing_by
  · omega
  · have hdiv : (v.tdiv 10).natAbs = v.natAbs / 10 := Int.natAbs_tdiv v 10
    omega

def pad (c : Char) (d : Nat) (v : Int) : List Char := padLoop c d 0 v []

/-- The text of a time in milliseconds. The arguments of `pad` are `int`s. -/
def timeText (ms : Int) : List Char :=
  pad '0' 2 (toInt (ms.tdiv (60 * 60 * 1000))) ++
    ':' :: (pad '0' 2 (toInt ((ms.tdiv (60 * 1000)).tmod 60)) ++
      ':' :: (pad '0' 2 (toInt ((ms.tdiv 1000).tmod 60)) ++
        '.' :: pad '0' 3 (toInt (ms.tmod 1000))))

/-- The text of a number of pictures, which is a `uint32_t`. -/
def frameText (frame : BitVec 32) : List Char := pad '0' 6 (toInt frame.toNat)

/-- The text that comes and goes once in sixty pictures. -/
def bipBop (frame : BitVec 32) : List (List Char) :=
  let m := frame.toNat % 60
  if m < 15 then ["Bip".toList]
  else if 30 ≤ m ∧ m < 45 then ["Bop".toList]
  else []

/-- `DrawTexts` -/
def drawTexts (width height fps : Int) (ms : Int) (frame : BitVec 32) : List (List Char) :=
  [timeText ms, frameText frame, ("Requested frame rate: " ++ toString fps ++ " fps").toList,
    ("Size: " ++ toString width ++ " x " ++ toString height).toList] ++ bipBop frame

/-! ## Numbers -/

/-- The number that a text of digits stands for. -/
def number (text : List Char) : Nat := Nat.ofDigitChars 10 text 0

theorem number_cons (c : Char) (s : List Char) :
    number (c :: s) = 10 ^ s.length * (c.toNat - 48) + number s := by
  rw [number, Nat.ofDigitChars_cons, Nat.ofDigitChars_eq_ofDigitChars_zero]
  simp [number]

theorem digit_isDigit {r : Int} (h : 0 ≤ r) (h' : r < 10) :
    (digit r).isDigit = true ∧ (digit r).toNat - 48 = r.toNat := by
  obtain ⟨n, rfl⟩ := Int.eq_ofNat_of_zero_le h
  have hn : n < 10 := by omega
  have hdigits : ∀ n : Nat, n < 10 → (digit (n : Int)).isDigit = true ∧
      (digit (n : Int)).toNat - 48 = (n : Int).toNat := by decide
  exact hdigits n hn

/-- The loop puts the digits of `v` before what it has, and zeros before them. -/
theorem padLoop_reads (d i : Nat) (v : Int) (s : List Char) (hv : 0 ≤ v) (hs : ∀ c ∈ s, c.isDigit = true) :
    (∀ c ∈ padLoop '0' d i v s, c.isDigit = true) ∧
      number (padLoop '0' d i v s) = v.toNat * 10 ^ s.length + number s := by
  induction i, v, s using padLoop.induct (c := '0') (d := d) with
  | case1 i v s hloop hpad ih =>
    obtain ⟨hchars, hnumber⟩ := ih hv (List.forall_mem_cons.mpr ⟨rfl, hs⟩)
    rw [padLoop, if_pos hloop, if_pos hpad]
    refine ⟨hchars, ?_⟩
    rw [hnumber, number_cons, hpad.2]
    simp
  | case2 i v s hloop hpad ih =>
    have hdiv : v.tdiv 10 = v / 10 := Int.tdiv_eq_ediv_of_nonneg hv
    have hmod : v.tmod 10 = v % 10 := Int.tmod_eq_emod_of_nonneg hv
    obtain ⟨hdigit, hvalue⟩ := digit_isDigit (r := v.tmod 10) (by omega) (by omega)
    obtain ⟨hchars, hnumber⟩ := ih (by omega) (List.forall_mem_cons.mpr ⟨hdigit, hs⟩)
    rw [padLoop, if_pos hloop, if_neg hpad]
    refine ⟨hchars, ?_⟩
    have hsplit : v.toNat = (v.tdiv 10).toNat * 10 + (v.tmod 10).toNat := by omega
    rw [hnumber, number_cons, hvalue, hsplit, List.length_cons, Nat.pow_succ]
    ring
  | case3 i v s hloop =>
    rw [padLoop, if_neg hloop]
    refine ⟨hs, ?_⟩
    have hzero : v = 0 := by omega
    rw [hzero]
    simp

theorem pad_digits (d : Nat) {v : Int} (hv : 0 ≤ v) : ∀ c ∈ pad '0' d v, c.isDigit = true :=
  (padLoop_reads d 0 v [] hv (by simp)).1

theorem number_pad (d : Nat) {v : Int} (hv : 0 ≤ v) : number (pad '0' d v) = v.toNat := by
  have h := (padLoop_reads d 0 v [] hv (by simp)).2
  simpa [pad, number] using h

theorem number_frameText {frame : BitVec 32} (h : frame.toNat < 2 ^ 31) :
    number (frameText frame) = frame.toNat := by
  rw [frameText, toInt_of_range (by omega) (by omega), number_pad 6 (by omega), Int.toNat_natCast]

/-! ## Reading a time -/

/-- The number at the beginning of a text. -/
def field (text : List Char) : Nat := number (text.takeWhile Char.isDigit)

/-- What stands behind that number and the character that ends it. -/
def behind (text : List Char) : List Char := (text.dropWhile Char.isDigit).drop 1

/-- Hours, minutes, seconds and milliseconds. -/
def readTime (text : List Char) : Nat :=
  ((field text * 60 + field (behind text)) * 60 + field (behind (behind text))) * 1000 +
    field (behind (behind (behind text)))

theorem field_append {a : List Char} (ha : ∀ c ∈ a, c.isDigit = true) {c : Char} (hc : c.isDigit = false)
    (b : List Char) : field (a ++ c :: b) = number a := by
  rw [field, List.takeWhile_append_of_pos ha, List.takeWhile_cons_of_neg (by simp [hc]), List.append_nil]

theorem behind_append {a : List Char} (ha : ∀ c ∈ a, c.isDigit = true) {c : Char} (hc : c.isDigit = false)
    (b : List Char) : behind (a ++ c :: b) = b := by
  rw [behind, List.dropWhile_append_of_pos ha, List.dropWhile_cons_of_neg (by simp [hc])]
  rfl

theorem field_digits {a : List Char} (ha : ∀ c ∈ a, c.isDigit = true) : field a = number a := by
  rw [field, List.takeWhile_eq_self_iff.mpr ha]

/-- The parts of a time, while the hours fit an `int`. -/
theorem timeText_eq {ms : Nat} (h : ms < 2 ^ 31 * 3600000) :
    timeText ms = pad '0' 2 (ms / 3600000 : Nat) ++ ':' :: (pad '0' 2 (ms / 60000 % 60 : Nat) ++
      ':' :: (pad '0' 2 (ms / 1000 % 60 : Nat) ++ '.' :: pad '0' 3 (ms % 1000 : Nat))) := by
  have hhours : toInt ((ms : Int).tdiv (60 * 60 * 1000)) = (ms / 3600000 : Nat) := by
    rw [Int.tdiv_eq_ediv_of_nonneg (by omega), toInt_of_range (by omega) (by omega)]
    omega
  have hminutes : toInt (((ms : Int).tdiv (60 * 1000)).tmod 60) = (ms / 60000 % 60 : Nat) := by
    rw [Int.tdiv_eq_ediv_of_nonneg (by omega), Int.tmod_eq_emod_of_nonneg (by omega),
      toInt_of_range (by omega) (by omega)]
    omega
  have hseconds : toInt (((ms : Int).tdiv 1000).tmod 60) = (ms / 1000 % 60 : Nat) := by
    rw [Int.tdiv_eq_ediv_of_nonneg (by omega), Int.tmod_eq_emod_of_nonneg (by omega),
      toInt_of_range (by omega) (by omega)]
    omega
  have hmillis : toInt ((ms : Int).tmod 1000) = (ms % 1000 : Nat) := by
    rw [Int.tmod_eq_emod_of_nonneg (by omega), toInt_of_range (by omega) (by omega)]
    omega
  rw [timeText, hhours, hminutes, hseconds, hmillis]

/-- The text of a time stands for that time. -/
theorem readTime_timeText {ms : Nat} (h : ms < 2 ^ 31 * 3600000) : readTime (timeText ms) = ms := by
  have hdigits : ∀ d n : Nat, ∀ c ∈ pad '0' d (n : Int), c.isDigit = true := fun d n => pad_digits d (by omega)
  have hnumber : ∀ d n : Nat, number (pad '0' d (n : Int)) = n := by
    intro d n
    rw [number_pad d (by omega), Int.toNat_natCast]
  have hcolon : Char.isDigit ':' = false := rfl
  have hdot : Char.isDigit '.' = false := rfl
  rw [timeText_eq h, readTime, behind_append (hdigits _ _) hcolon, behind_append (hdigits _ _) hcolon,
    behind_append (hdigits _ _) hdot, field_append (hdigits _ _) hcolon, field_append (hdigits _ _) hcolon,
    field_append (hdigits _ _) hdot, field_digits (hdigits _ _), hnumber, hnumber, hnumber, hnumber]
  omega

end FakeVideoTexts
