import Mathlib.Computability.RegularExpressions
import Mathlib.Data.List.Basic
import Mathlib.Data.Nat.Digits.Defs
import Zakuro.Y4MReader

/-!
# The resolution

`--resolution` is checked in one file, by a regular expression that does not
bound the number of digits, and read in another, by `atoi`. The two agree on the
numbers that are `int` values, and on no others.
-/

open CData

/-! ## Classes of characters -/

namespace RegularExpression

variable {α : Type} [DecidableEq α]

/-- A bracket expression: one character of a list. -/
def anyOf (cs : List α) : RegularExpression α := cs.foldr (fun c P => char c + P) 0

theorem anyOf_rmatch_iff (cs x : List α) : (anyOf cs).rmatch x = true ↔ ∃ c ∈ cs, x = [c] := by
  induction cs with
  | nil => simp [anyOf]
  | cons c cs ih =>
    have hcons : anyOf (c :: cs) = char c + anyOf cs := rfl
    rw [hcons, add_rmatch_iff, char_rmatch_iff, ih]
    simp

theorem star_anyOf_rmatch_iff (cs x : List α) :
    (star (anyOf cs)).rmatch x = true ↔ ∀ c ∈ x, c ∈ cs := by
  rw [star_rmatch_iff]
  constructor
  · rintro ⟨S, rfl, hS⟩ c hc
    obtain ⟨t, ht, hct⟩ := List.mem_flatten.mp hc
    obtain ⟨d, hd, rfl⟩ := (anyOf_rmatch_iff cs t).mp (hS t ht).2
    rwa [List.mem_singleton.mp hct]
  · intro h
    refine ⟨x.map fun c => [c], ?_, ?_⟩
    · rw [← List.flatMap_def, List.flatMap_singleton']
    · intro t ht
      obtain ⟨c, hc, rfl⟩ := List.mem_map.mp ht
      exact ⟨List.cons_ne_nil c [], (anyOf_rmatch_iff cs [c]).mpr ⟨c, h c hc, rfl⟩⟩

end RegularExpression

namespace Resolution

open RegularExpression

/-! ## The validator -/

/-- `[1-9][0-9]*` -/
def numeralRe : RegularExpression UInt8 :=
  anyOf (asciiBytes "123456789") * star (anyOf (asciiBytes "0123456789"))

/-- `^[1-9][0-9]*x[1-9][0-9]*$`, for a match of the whole text. -/
def re : RegularExpression UInt8 := numeralRe * (char (asciiByte 'x') * numeralRe)

/-- `is_valid_resolution`: the text of the error, empty if there is none. -/
def isValidResolution (input : List UInt8) : String :=
  if input = asciiBytes "QVGA" ∨ input = asciiBytes "VGA" ∨ input = asciiBytes "HD" ∨
      input = asciiBytes "FHD" ∨ input = asciiBytes "4K" then ""
  else if re.rmatch input then ""
  else "Must be one of QVGA, VGA, HD, FHD, 4K, or [WIDTH]x[HEIGHT]."

/-! ## The parser -/

structure Size where
  width : Int
  height : Int
  deriving DecidableEq, Repr

/-- `ZakuroConfig::GetSize` -/
def getSize (resolution : List UInt8) : Size :=
  if resolution = asciiBytes "QVGA" then ⟨320, 240⟩
  else if resolution = asciiBytes "VGA" then ⟨640, 480⟩
  else if resolution = asciiBytes "HD" then ⟨1280, 720⟩
  else if resolution = asciiBytes "FHD" then ⟨1920, 1080⟩
  else if resolution = asciiBytes "4K" then ⟨3840, 2160⟩
  else
    match resolution.idxOf? (asciiByte 'x') with
    | none => ⟨16, 16⟩
    | some pos => ⟨max 16 (atoi (resolution.take pos)), max 16 (atoi (resolution.drop (pos + 1)))⟩

/-! ## Numerals -/

/-- The resolutions that have a name. -/
def names : List (List UInt8) := ["QVGA", "VGA", "HD", "FHD", "4K"].map asciiBytes

/-- A decimal number without a leading zero. -/
structure Numeral (w : List UInt8) : Prop where
  digits : ∀ c ∈ w, isDigit c = true
  leading : ∃ c, w.head? = some c ∧ c ≠ asciiByte '0'

/-- The number that is written, whatever its length. -/
def number (w : List UInt8) : Nat := Nat.ofDigits 10 (w.reverse.map fun c => c.toNat - 48)

theorem isDigit_iff {c : UInt8} : isDigit c = true ↔ 48 ≤ c.toNat ∧ c.toNat ≤ 57 := by
  simp [isDigit, UInt8.le_iff_toNat_le]

theorem mem_digits {c : UInt8} : c ∈ asciiBytes "0123456789" ↔ isDigit c = true := by
  have hbytes : asciiBytes "0123456789" = [48, 49, 50, 51, 52, 53, 54, 55, 56, 57] := by decide
  simp only [hbytes, isDigit_iff, List.mem_cons, List.not_mem_nil, ← UInt8.toNat_inj, UInt8.reduceToNat,
    or_false]
  omega

theorem mem_nonzero {c : UInt8} :
    c ∈ asciiBytes "123456789" ↔ isDigit c = true ∧ c ≠ asciiByte '0' := by
  have hbytes : asciiBytes "123456789" = [49, 50, 51, 52, 53, 54, 55, 56, 57] := by decide
  have hzero : asciiByte '0' = 48 := by decide
  simp only [hbytes, hzero, isDigit_iff, List.mem_cons, List.not_mem_nil, ne_eq, ← UInt8.toNat_inj,
    UInt8.reduceToNat, or_false]
  omega

theorem numeralRe_iff {w : List UInt8} : numeralRe.rmatch w = true ↔ Numeral w := by
  rw [numeralRe, mul_rmatch_iff]
  constructor
  · rintro ⟨t, u, rfl, ht, hu⟩
    obtain ⟨c, hc, rfl⟩ := (anyOf_rmatch_iff _ t).mp ht
    obtain ⟨hdigit, hzero⟩ := mem_nonzero.mp hc
    refine ⟨fun d hd => ?_, c, rfl, hzero⟩
    rcases List.mem_cons.mp hd with rfl | hd
    · exact hdigit
    · exact mem_digits.mp ((star_anyOf_rmatch_iff _ u).mp hu d hd)
  · rintro ⟨hdigits, c, hc, hzero⟩
    obtain ⟨u, rfl⟩ := List.head?_eq_some_iff.mp hc
    refine ⟨[c], u, rfl, (anyOf_rmatch_iff _ _).mpr ⟨c, ?_, rfl⟩, (star_anyOf_rmatch_iff _ u).mpr ?_⟩
    · exact mem_nonzero.mpr ⟨hdigits c List.mem_cons_self, hzero⟩
    · exact fun d hd => mem_digits.mpr (hdigits d (List.mem_cons_of_mem c hd))

/-- What the regular expression accepts: two numerals joined by an `x`. -/
theorem re_iff {s : List UInt8} : re.rmatch s = true ↔
    ∃ w h, Numeral w ∧ Numeral h ∧ s = w ++ asciiByte 'x' :: h := by
  rw [re, mul_rmatch_iff]
  constructor
  · rintro ⟨w, u, rfl, hw, hu⟩
    obtain ⟨x, h, rfl, hx, hh⟩ := (mul_rmatch_iff _ _ u).mp hu
    rw [(char_rmatch_iff _ x).mp hx]
    exact ⟨w, h, numeralRe_iff.mp hw, numeralRe_iff.mp hh, rfl⟩
  · rintro ⟨w, h, hw, hh, rfl⟩
    refine ⟨w, _, rfl, numeralRe_iff.mpr hw, (mul_rmatch_iff _ _ _).mpr ?_⟩
    exact ⟨[asciiByte 'x'], h, rfl, (char_rmatch_iff _ _).mpr rfl, numeralRe_iff.mpr hh⟩

theorem accepted_iff {s : List UInt8} : isValidResolution s = "" ↔
    s ∈ names ∨ ∃ w h, Numeral w ∧ Numeral h ∧ s = w ++ asciiByte 'x' :: h := by
  have hnames : s ∈ names ↔ s = asciiBytes "QVGA" ∨ s = asciiBytes "VGA" ∨ s = asciiBytes "HD" ∨
      s = asciiBytes "FHD" ∨ s = asciiBytes "4K" := by
    simp [names]
  rw [isValidResolution, ← re_iff, hnames]
  split
  next hname => exact iff_of_true rfl (.inl hname)
  next hname =>
    split
    next hre => exact iff_of_true rfl (.inr hre)
    next hre => exact iff_of_false (by decide) (not_or.mpr ⟨hname, hre⟩)

theorem Numeral.not_mem_x {w : List UInt8} (h : Numeral w) : asciiByte 'x' ∉ w := by
  intro hx
  exact absurd (h.digits _ hx) (by decide)

/-- The numerals of a text are determined by it. -/
theorem Numeral.eq_of_append {w v h k : List UInt8} (hw : Numeral w) (hh : Numeral h)
    (heq : w ++ asciiByte 'x' :: h = v ++ asciiByte 'x' :: k) : w = v ∧ h = k := by
  obtain ⟨hwv, -, hhk⟩ := (List.append_cons_inj_of_notMem hw.not_mem_x hh.not_mem_x).mp heq
  exact ⟨hwv, hhk⟩

theorem not_named {w h : List UInt8} : w ++ asciiByte 'x' :: h ∉ names := by
  intro hmem
  have hx : ∀ s ∈ names, asciiByte 'x' ∉ s := by decide
  exact hx _ hmem (List.mem_append_right w List.mem_cons_self)

/-! ## Reading a numeral -/

theorem digits_eq {w : List UInt8} (hw : ∀ c ∈ w, isDigit c = true) (n : Nat) :
    digits n w = 10 ^ w.length * n + number w := by
  induction w generalizing n with
  | nil => simp [digits, number]
  | cons c cs ih =>
    have hnumber : number (c :: cs) = number cs + 10 ^ cs.length * (c.toNat - 48) := by
      simp [number, Nat.ofDigits_append]
    rw [digits, if_pos (hw c List.mem_cons_self), ih fun d hd => hw d (List.mem_cons_of_mem c hd),
      hnumber, List.length_cons, pow_succ]
    ring

theorem strtol_numeral {w : List UInt8} (h : Numeral w) :
    strtol w = min (number w : Int) (2 ^ 63 - 1) := by
  obtain ⟨c, hc, -⟩ := h.leading
  obtain ⟨cs, rfl⟩ := List.head?_eq_some_iff.mp hc
  have hdigit := h.digits c List.mem_cons_self
  have hspace : isSpace c = false := by
    obtain ⟨hlo, -⟩ := isDigit_iff.mp hdigit
    simp only [isSpace, Bool.or_eq_false_iff, Bool.and_eq_false_iff, beq_eq_false_iff_ne, ne_eq,
      ← UInt8.toNat_inj, UInt8.reduceToNat, decide_eq_false_iff_not, UInt8.le_iff_toNat_le]
    omega
  have hminus : c ≠ asciiByte '-' := by
    rintro rfl
    exact absurd hdigit (by decide)
  have hplus : c ≠ asciiByte '+' := by
    rintro rfl
    exact absurd hdigit (by decide)
  rw [strtol, List.dropWhile_cons_of_neg (by simp [hspace])]
  dsimp only
  rw [if_neg hminus, if_neg hplus, digits_eq h.digits, Nat.mul_zero, Nat.zero_add]

/-- `atoi` reads a numeral as the number it writes exactly if that is an `int`. -/
theorem atoi_numeral {w : List UInt8} (h : Numeral w) :
    max 16 (atoi w) = max 16 (number w : Int) ↔ number w < 2 ^ 31 := by
  rw [atoi, strtol_numeral h]
  constructor
  · intro heq
    have hrange := (toInt_range (min (number w : Int) (2 ^ 63 - 1))).2
    omega
  · intro hlt
    rw [toInt_of_range (by omega) (by omega)]
    omega

/-! ## The agreement -/

theorem idxOf_separator {w : List UInt8} (hw : asciiByte 'x' ∉ w) (h : List UInt8) :
    (w ++ asciiByte 'x' :: h).idxOf? (asciiByte 'x') = some w.length := by
  induction w with
  | nil => rw [List.nil_append, List.idxOf?_cons, if_pos (beq_self_eq_true _), List.length_nil]
  | cons c w ih =>
    obtain ⟨hne, hw⟩ := not_or.mp (List.mem_cons.not.mp hw)
    rw [List.cons_append, List.idxOf?_cons, if_neg (by simpa using Ne.symm hne), ih hw]
    rfl

theorem getSize_pair {w h : List UInt8} (hw : Numeral w) :
    getSize (w ++ asciiByte 'x' :: h) = ⟨max 16 (atoi w), max 16 (atoi h)⟩ := by
  have hname : ∀ name ∈ names, w ++ asciiByte 'x' :: h ≠ name := by
    rintro name hmem rfl
    exact not_named hmem
  rw [getSize, if_neg (hname _ (by decide)), if_neg (hname _ (by decide)), if_neg (hname _ (by decide)),
    if_neg (hname _ (by decide)), if_neg (hname _ (by decide)), idxOf_separator hw.not_mem_x]
  simp

/-- The size is that of the numbers in the text, unless it is a name. -/
def Exact (s : List UInt8) : Prop :=
  s ∈ names ∨ ∃ w h, Numeral w ∧ Numeral h ∧ s = w ++ asciiByte 'x' :: h ∧
    getSize s = ⟨max 16 (number w : Int), max 16 (number h : Int)⟩

/-- The numbers in the text, if there are any, are `int` values. -/
def InInt (s : List UInt8) : Prop :=
  ∀ w h, s = w ++ asciiByte 'x' :: h → number w < 2 ^ 31 ∧ number h < 2 ^ 31

theorem exact_pair {w h : List UInt8} (hw : Numeral w) (hh : Numeral h) :
    Exact (w ++ asciiByte 'x' :: h) ↔ number w < 2 ^ 31 ∧ number h < 2 ^ 31 := by
  have hsize : getSize (w ++ asciiByte 'x' :: h) = ⟨max 16 (number w : Int), max 16 (number h : Int)⟩ ↔
      number w < 2 ^ 31 ∧ number h < 2 ^ 31 := by
    rw [getSize_pair hw, Size.mk.injEq, atoi_numeral hw, atoi_numeral hh]
  rw [← hsize]
  constructor
  · rintro (hname | ⟨v, k, -, -, heq, hread⟩)
    · exact absurd hname not_named
    · obtain ⟨rfl, rfl⟩ := hw.eq_of_append hh heq
      exact hread
  · exact fun hread => .inr ⟨w, h, hw, hh, rfl, hread⟩

/-- A resolution that the validator accepts is read as it is written exactly if
its numbers are `int` values. -/
theorem getSize_exact_iff {s : List UInt8} (hs : isValidResolution s = "") : Exact s ↔ InInt s := by
  rcases accepted_iff.mp hs with hname | ⟨w, h, hw, hh, rfl⟩
  · refine iff_of_true (.inl hname) ?_
    rintro w h rfl
    exact absurd hname not_named
  · rw [exact_pair hw hh]
    constructor
    · intro hint v k heq
      obtain ⟨rfl, rfl⟩ := hw.eq_of_append hh heq
      exact hint
    · exact fun hint => hint w h rfl

/-- The width 640 is small enough, and the height 8 is raised to 16. -/
theorem getSize_exact_small : isValidResolution (asciiBytes "640x8") = "" ∧
    (Exact (asciiBytes "640x8") ↔ InInt (asciiBytes "640x8")) ∧ getSize (asciiBytes "640x8") = ⟨640, 16⟩ :=
  ⟨by decide, getSize_exact_iff (by decide), by decide⟩

/-- `2 ^ 32` pixels are read as 0 and become 16. -/
theorem getSize_not_exact : ¬ ∀ s, isValidResolution s = "" → Exact s := by
  intro h
  have hwidth : Numeral (asciiBytes "4294967296") :=
    ⟨List.all_eq_true.mp (by decide), asciiByte '4', rfl, by decide⟩
  have hheight : Numeral (asciiBytes "16") :=
    ⟨List.all_eq_true.mp (by decide), asciiByte '1', rfl, by decide⟩
  have haccepted := accepted_iff.mpr (.inr ⟨_, _, hwidth, hheight, rfl⟩)
  have hint := (exact_pair hwidth hheight).mp (h _ haccepted)
  exact absurd hint.1 (by decide)

end Resolution
