import Mathlib

/-!
# The numbers of IEEE doubles

The rational number that a 64-bit pattern stands for, and the integer that is left of a rational
number without its fraction.
-/

namespace MetalOrm.ForStd.Binary64

/-- The lowest 52 bits. -/
def fraction (bits : UInt64) : Nat := bits.toNat % 2 ^ 52

/-- The 11 bits above the fraction. -/
def exponent (bits : UInt64) : Nat := bits.toNat / 2 ^ 52 % 2 ^ 11

/-- The highest bit. -/
def negative (bits : UInt64) : Bool := 2 ^ 63 ≤ bits.toNat

/-- The number without its sign. Patterns with exponent zero have no leading one. -/
def magnitude (bits : UInt64) : ℚ :=
  if exponent bits = 0 then fraction bits * 2 ^ (-1074 : ℤ)
  else (2 ^ 52 + fraction bits : Nat) * 2 ^ ((exponent bits : ℤ) - 1075)

/-- The number; an infinity or a NaN is none. -/
def number (bits : UInt64) : Option ℚ :=
  if exponent bits = 2047 then none
  else some (if negative bits then -magnitude bits else magnitude bits)

/-- A number without its fraction. -/
def truncate (q : ℚ) : ℤ := q.num.tdiv q.den

@[simp] theorem truncate_intCast (n : ℤ) : truncate n = n := by simp [truncate]

end MetalOrm.ForStd.Binary64
