import Mathlib.Algebra.Group.Int.Defs
import Mathlib.Algebra.Group.Nat.Defs
import Mathlib.Data.Int.Basic

/-!
# C integers and texts

The conversions between the integer types, on an LP64 target, and texts as
lists of bytes. A signed result that does not fit wraps around.
-/

/-- The byte of a character that is written in ASCII. -/
def asciiByte (c : Char) : UInt8 := c.toNat.toUInt8

/-- The bytes of a text that is written in ASCII. -/
def asciiBytes (text : String) : List UInt8 := text.toList.map asciiByte

namespace CData

/-- The conversion to `int`. -/
def toInt (x : Int) : Int := x.bmod (2 ^ 32)

/-- The conversion to `int64_t`. -/
def toInt64 (x : Int) : Int := x.bmod (2 ^ 64)

/-- The conversion to `size_t`. -/
def toSize (x : Int) : Nat := (x % 2 ^ 64).toNat

theorem toInt_of_range {x : Int} (h : -2 ^ 31 ≤ x) (h' : x < 2 ^ 31) : toInt x = x := by
  simp only [toInt, Int.bmod]
  omega

theorem toInt_range (x : Int) : -2 ^ 31 ≤ toInt x ∧ toInt x < 2 ^ 31 := by
  simp only [toInt, Int.bmod]
  omega

theorem toInt64_of_range {x : Int} (h : -2 ^ 63 ≤ x) (h' : x < 2 ^ 63) : toInt64 x = x := by
  simp only [toInt64, Int.bmod]
  omega

theorem toSize_of_range {x : Int} (h : 0 ≤ x) (h' : x < 2 ^ 64) : toSize x = x.toNat := by
  rw [toSize, Int.emod_eq_of_lt h h']

end CData
