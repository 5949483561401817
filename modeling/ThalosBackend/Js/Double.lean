import Mathlib.Algebra.Order.Field.Power
import Mathlib.Data.Rat.Floor
import Mathlib.Tactic.NormNum
import ThalosBackend.Js.Decimals

/-!
# Texts as doubles

Where only the size of an amount matters it keeps its exact value, but whether a text is a whole number
depends on what a double keeps of it. `stringToDouble` is `Number(text)` with that rounding: to the nearest multiple of the last
place, and to the even one of two that are equally near.
-/

set_option autoImplicit false

namespace ThalosBackend.Js

namespace Number

/-- The exponent of the last of the 53 binary places of a value; the smallest is `-1074`. -/
def lastPlace (q : ℚ) : ℤ :=
  let e : ℤ := (q.num.natAbs.log2 : ℤ) - q.den.log2
  max ((if |q| < 2 ^ e then e - 1 else e) - 52) (-1074)

/-- The nearest integer, the even one of two that are equally near. -/
def roundHalfEven (q : ℚ) : ℤ :=
  if Int.fract q < 1 / 2 then ⌊q⌋
  else if 1 / 2 < Int.fract q then ⌊q⌋ + 1
  else if ⌊q⌋ % 2 = 0 then ⌊q⌋ else ⌊q⌋ + 1

/-- The double nearest to a value in the range of doubles. -/
def nearestDouble : Number → Number
  | .finite q => .finite (roundHalfEven (q / 2 ^ lastPlace q) * 2 ^ lastPlace q)
  | x => x

/-- `Number(text)`, rounded to a double. -/
def stringToDouble (s : String) : Number := nearestDouble (stringToNumber s)

theorem roundHalfEven_intCast (k : ℤ) : roundHalfEven k = k := by
  have hfract : Int.fract (k : ℚ) = 0 := Int.fract_intCast k
  rw [roundHalfEven, hfract, if_pos (by norm_num), Int.floor_intCast]

/-- The powers of two that are doubles lie below the overflow. -/
theorem two_pow_le_overflow {e : ℕ} (he : e ≤ 1023) : (2 ^ e : ℚ) ≤ 2 ^ 1024 - 2 ^ 970 := by
  have hpow : (2 : ℚ) ^ e ≤ 2 ^ 1023 := pow_le_pow_right₀ (by norm_num) he
  have h970 : (2 : ℚ) ^ 970 ≤ 2 ^ 1023 := pow_le_pow_right₀ (by norm_num) (by norm_num)
  have h1024 : (2 : ℚ) ^ 1024 = 2 ^ 1023 * 2 := pow_succ 2 1023
  rw [h1024, mul_two, add_sub_assoc]
  exact hpow.trans (le_add_of_nonneg_right (sub_nonneg.mpr h970))

end Number

end ThalosBackend.Js
