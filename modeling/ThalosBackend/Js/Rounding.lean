import Mathlib.Tactic.FieldSimp
import Mathlib.Tactic.Ring
import ThalosBackend.Js.Double

/-!
# What a double keeps

`toDouble` rounds the exact result of an operation: to the nearest double, and to an infinity beyond the
largest. The error is at most half a unit in the last place (`abs_nearest_sub_le`), and rounding never
crosses a whole number up to `2 ^ 53` (`natCast_le_nearest`), which is a double itself.
-/

set_option autoImplicit false

namespace ThalosBackend.Js

namespace Number

/-! ## The nearest integer -/

theorem floor_le_roundHalfEven (q : ℚ) : ⌊q⌋ ≤ roundHalfEven q := by
  unfold roundHalfEven
  split_ifs <;> omega

/-- Rounding does not cross an integer. -/
theorem le_roundHalfEven {j : ℤ} {q : ℚ} (h : (j : ℚ) ≤ q) : j ≤ roundHalfEven q :=
  (Int.le_floor.mpr h).trans (floor_le_roundHalfEven q)

theorem abs_roundHalfEven_sub_le (q : ℚ) : |(roundHalfEven q : ℚ) - q| ≤ 1 / 2 := by
  have hsplit : (⌊q⌋ : ℚ) + Int.fract q = q := Int.floor_add_fract q
  have hnonneg := Int.fract_nonneg q
  have hlt := Int.fract_lt_one q
  unfold roundHalfEven
  split_ifs <;> push_cast <;> rw [abs_le] <;> constructor <;> linarith

theorem roundHalfEven_eq_zero {q : ℚ} (h : |q| ≤ 1 / 2) : roundHalfEven q = 0 := by
  obtain ⟨hlow, hhigh⟩ := abs_le.mp h
  rcases lt_or_ge q 0 with hneg | hnonneg
  · have hfloor : ⌊q⌋ = -1 := Int.floor_eq_iff.mpr ⟨by push_cast; linarith, by push_cast; linarith⟩
    have hfract : Int.fract q = q + 1 := by rw [Int.fract, hfloor]; push_cast; ring
    -- half below zero is even at zero
    rw [roundHalfEven, hfract, hfloor, if_neg (by linarith),
      if_neg (show ¬ (-1 : ℤ) % 2 = 0 by decide), neg_add_cancel, ite_self]
  · have hfloor : ⌊q⌋ = 0 := Int.floor_eq_iff.mpr ⟨by push_cast; linarith, by push_cast; linarith⟩
    have hfract : Int.fract q = q := by rw [Int.fract, hfloor, Int.cast_zero, sub_zero]
    rw [roundHalfEven, hfract, hfloor, if_neg (not_lt.mpr hhigh),
      if_pos (show (0 : ℤ) % 2 = 0 by decide), ite_self]

/-! ## The last place -/

/-- The nearest multiple of the last place: the value of the nearest double. -/
def nearest (q : ℚ) : ℚ := roundHalfEven (q / 2 ^ lastPlace q) * 2 ^ lastPlace q

theorem nearestDouble_finite (q : ℚ) : nearestDouble (.finite q) = .finite (nearest q) := rfl

/-- The binary logarithms of a fraction give its magnitude within a factor of two. -/
theorem abs_between {q : ℚ} (hq : q ≠ 0) :
    (2 : ℚ) ^ ((q.num.natAbs.log2 : ℤ) - q.den.log2 - 1) < |q| ∧
      |q| < 2 ^ ((q.num.natAbs.log2 : ℤ) - q.den.log2 + 1) := by
  have hnum : q.num.natAbs ≠ 0 := Int.natAbs_ne_zero.mpr (Rat.num_ne_zero.mpr hq)
  have habs : |q| = (q.num.natAbs : ℚ) / q.den := by
    conv_lhs => rw [← Rat.num_div_den q, abs_div, Nat.abs_cast]
    rw [Nat.cast_natAbs, Int.cast_abs]
  have hden : (0 : ℚ) < q.den := by exact_mod_cast q.den_pos
  have hnumlow : (2 : ℚ) ^ q.num.natAbs.log2 ≤ q.num.natAbs := by
    exact_mod_cast Nat.log2_self_le hnum
  have hnumhigh : (q.num.natAbs : ℚ) < 2 ^ (q.num.natAbs.log2 + 1) := by
    exact_mod_cast Nat.lt_log2_self
  have hdenlow : (2 : ℚ) ^ q.den.log2 ≤ q.den := by
    exact_mod_cast Nat.log2_self_le q.den_ne_zero
  have hdenhigh : (q.den : ℚ) < 2 ^ (q.den.log2 + 1) := by
    exact_mod_cast Nat.lt_log2_self
  rw [habs]
  -- the quotient of two numbers between powers of two
  constructor
  · rw [lt_div_iff₀ hden]
    calc (2 : ℚ) ^ ((q.num.natAbs.log2 : ℤ) - q.den.log2 - 1) * q.den
        < 2 ^ ((q.num.natAbs.log2 : ℤ) - q.den.log2 - 1) * 2 ^ (q.den.log2 + 1) :=
          mul_lt_mul_of_pos_left hdenhigh (by positivity)
      _ = 2 ^ q.num.natAbs.log2 := by
          rw [← zpow_natCast, ← zpow_natCast, ← zpow_add₀ (by norm_num)]
          congr 1
          push_cast
          ring
      _ ≤ q.num.natAbs := hnumlow
  · rw [div_lt_iff₀ hden]
    calc (q.num.natAbs : ℚ) < 2 ^ (q.num.natAbs.log2 + 1) := hnumhigh
      _ = 2 ^ ((q.num.natAbs.log2 : ℤ) - q.den.log2 + 1) * 2 ^ q.den.log2 := by
          rw [← zpow_natCast, ← zpow_natCast, ← zpow_add₀ (by norm_num)]
          congr 1
          push_cast
          ring
      _ ≤ 2 ^ ((q.num.natAbs.log2 : ℤ) - q.den.log2 + 1) * q.den :=
          mul_le_mul_of_nonneg_left hdenlow (by positivity)

/-- A value has its first binary place 52 places before the last one, unless that is the smallest. -/
theorem lastPlace_cases {q : ℚ} (hq : q ≠ 0) :
    lastPlace q = -1074 ∨ (2 : ℚ) ^ (lastPlace q + 52) ≤ |q| := by
  obtain ⟨hlow, -⟩ := abs_between hq
  simp only [lastPlace]
  split
  · rename_i hless
    rcases le_total ((q.num.natAbs.log2 : ℤ) - q.den.log2 - 1 - 52) (-1074) with h | h
    · exact .inl (max_eq_right h)
    · right
      rw [max_eq_left h, sub_add_cancel]
      exact hlow.le
  · rename_i hmore
    rcases le_total ((q.num.natAbs.log2 : ℤ) - q.den.log2 - 52) (-1074) with h | h
    · exact .inl (max_eq_right h)
    · right
      rw [max_eq_left h, sub_add_cancel]
      exact not_lt.mp hmore

/-- A value is below `2 ^ 53` times its last place. -/
theorem abs_lt_lastPlace (q : ℚ) : |q| < 2 ^ (lastPlace q + 53) := by
  by_cases hq : q = 0
  · rw [hq, abs_zero]
    positivity
  · obtain ⟨-, hhigh⟩ := abs_between hq
    simp only [lastPlace]
    split
    · rename_i hless
      refine hless.trans_le (zpow_le_zpow_right₀ (by norm_num) ?_)
      omega
    · refine hhigh.trans_le (zpow_le_zpow_right₀ (by norm_num) ?_)
      omega

/-- The last place of a small value is small. -/
theorem lastPlace_le {q : ℚ} {e : ℤ} (hq : q ≠ 0) (he : -1021 ≤ e) (h : |q| < 2 ^ e) :
    lastPlace q ≤ e - 53 := by
  rcases lastPlace_cases hq with hsmallest | hfirst
  · omega
  · have hlt : lastPlace q + 52 < e := (zpow_lt_zpow_iff_right₀ (by norm_num)).mp (hfirst.trans_lt h)
    omega

/-! ## Rounding -/

theorem nearest_zero : nearest 0 = 0 := by
  have hzero : roundHalfEven 0 = 0 := by exact_mod_cast roundHalfEven_intCast 0
  rw [nearest, zero_div, hzero, Int.cast_zero, zero_mul]

theorem abs_nearest_sub (q : ℚ) : |nearest q - q| ≤ 2 ^ lastPlace q / 2 := by
  have hpos : (0 : ℚ) < 2 ^ lastPlace q := by positivity
  have hscaled : nearest q - q =
      (roundHalfEven (q / 2 ^ lastPlace q) - q / 2 ^ lastPlace q) * 2 ^ lastPlace q := by
    rw [nearest, sub_mul, div_mul_cancel₀ _ hpos.ne']
  calc |nearest q - q|
      = |roundHalfEven (q / 2 ^ lastPlace q) - q / 2 ^ lastPlace q| * 2 ^ lastPlace q := by
        rw [hscaled, abs_mul, abs_of_pos hpos]
    _ ≤ 1 / 2 * 2 ^ lastPlace q :=
        mul_le_mul_of_nonneg_right (abs_roundHalfEven_sub_le _) hpos.le
    _ = 2 ^ lastPlace q / 2 := by rw [one_div_mul_eq_div]

/-- **The error of rounding** is at most half a unit in the last place. -/
theorem abs_nearest_sub_le {q : ℚ} {e : ℤ} (he : -1021 ≤ e) (h : |q| < 2 ^ e) :
    |nearest q - q| ≤ 2 ^ (e - 54) := by
  by_cases hq : q = 0
  · rw [hq, nearest_zero, sub_zero, abs_zero]
    positivity
  · refine (abs_nearest_sub q).trans ?_
    have hhalf : (2 : ℚ) ^ (e - 54) = 2 ^ (e - 53) / 2 := by
      rw [show e - 54 = e - 53 - 1 by ring, zpow_sub_one₀ (by norm_num), div_eq_mul_inv]
    rw [hhalf]
    exact div_le_div_of_nonneg_right
      (zpow_le_zpow_right₀ (by norm_num) (lastPlace_le hq he h)) (by norm_num)

/-- The error, in proportion to the value. -/
theorem abs_nearest_sub_le_mul {q : ℚ} (h : (2 : ℚ) ^ (-1022 : ℤ) ≤ |q|) :
    |nearest q - q| ≤ |q| / 2 ^ 53 := by
  have hq : q ≠ 0 := by
    rintro rfl
    rw [abs_zero] at h
    exact absurd h (not_le.mpr (by positivity))
  have hfirst : (2 : ℚ) ^ (lastPlace q + 52) ≤ |q| := by
    rcases lastPlace_cases hq with hsmallest | hfirst
    · rw [hsmallest]
      exact h
    · exact hfirst
  have hlast : (2 : ℚ) ^ lastPlace q ≤ |q| / 2 ^ 52 := by
    rw [le_div_iff₀ (by positivity), ← zpow_natCast, ← zpow_add₀ (by norm_num)]
    exact hfirst
  calc |nearest q - q| ≤ 2 ^ lastPlace q / 2 := abs_nearest_sub q
    _ ≤ |q| / 2 ^ 52 / 2 := div_le_div_of_nonneg_right hlast (by norm_num)
    _ = |q| / 2 ^ 53 := by rw [div_div, ← pow_succ]

theorem nearest_nonneg {q : ℚ} (h : 0 ≤ q) : 0 ≤ nearest q := by
  have hpos : (0 : ℚ) < 2 ^ lastPlace q := by positivity
  have hscaled : ((0 : ℤ) : ℚ) ≤ q / 2 ^ lastPlace q := by
    rw [Int.cast_zero]
    exact div_nonneg h hpos.le
  refine mul_nonneg ?_ hpos.le
  exact_mod_cast le_roundHalfEven hscaled

/-- **Rounding does not cross a double** that has few binary places. -/
theorem div_two_pow_le_nearest {m j : ℕ} {q : ℚ} (hm : m ≤ 2 ^ 53) (hj : j ≤ 1074)
    (h : (m : ℚ) / 2 ^ j ≤ q) : (m : ℚ) / 2 ^ j ≤ nearest q := by
  rcases Nat.eq_zero_or_pos m with rfl | hm0
  · rw [Nat.cast_zero, zero_div] at h ⊢
    exact nearest_nonneg h
  have hdouble : (0 : ℚ) < m / 2 ^ j := by positivity
  have hpos : (0 : ℚ) < 2 ^ lastPlace q := by positivity
  rcases le_or_gt (lastPlace q) (-j) with hlast | hlast
  · -- the double is a multiple of the last place
    obtain ⟨n, hn⟩ : ∃ n : ℕ, lastPlace q = -j - n := ⟨(-j - lastPlace q).toNat, by omega⟩
    have hscale : (2 : ℚ) ^ n * 2 ^ lastPlace q = 1 / 2 ^ j := by
      rw [hn, ← zpow_natCast, ← zpow_add₀ (by norm_num), add_sub_cancel, zpow_neg, zpow_natCast,
        one_div]
    have hmultiple : (m : ℚ) / 2 ^ j = ((m * 2 ^ n : ℤ) : ℚ) * 2 ^ lastPlace q := by
      push_cast
      rw [mul_assoc, hscale, mul_one_div]
    have hscaled : ((m * 2 ^ n : ℤ) : ℚ) ≤ q / 2 ^ lastPlace q := by
      rw [le_div_iff₀ hpos, ← hmultiple]
      exact h
    have hround : ((m * 2 ^ n : ℤ) : ℚ) ≤ roundHalfEven (q / 2 ^ lastPlace q) := by
      exact_mod_cast le_roundHalfEven hscaled
    rw [hmultiple]
    exact mul_le_mul_of_nonneg_right hround hpos.le
  · -- all doubles of this size are larger
    have hfirst : (2 : ℚ) ^ (lastPlace q + 52) ≤ q := by
      rcases lastPlace_cases (hdouble.trans_le h).ne' with hsmallest | hfirst
      · omega
      · rwa [abs_of_pos (hdouble.trans_le h)] at hfirst
    have hscaled : ((2 ^ 52 : ℤ) : ℚ) ≤ q / 2 ^ lastPlace q := by
      rw [le_div_iff₀ hpos]
      refine le_trans (le_of_eq ?_) hfirst
      rw [zpow_add₀ (by norm_num), mul_comm]
      norm_num
    have hround : ((2 ^ 52 : ℤ) : ℚ) ≤ roundHalfEven (q / 2 ^ lastPlace q) := by
      exact_mod_cast le_roundHalfEven hscaled
    have hplace : (2 : ℚ) / 2 ^ j ≤ 2 ^ lastPlace q := by
      calc (2 : ℚ) / 2 ^ j = 2 ^ (1 - j : ℤ) := by
            rw [zpow_sub₀ (by norm_num), zpow_one, zpow_natCast]
        _ ≤ 2 ^ lastPlace q := zpow_le_zpow_right₀ (by norm_num) (by omega)
    calc (m : ℚ) / 2 ^ j ≤ 2 ^ 53 / 2 ^ j :=
          div_le_div_of_nonneg_right (by exact_mod_cast hm) (by positivity)
      _ = ((2 ^ 52 : ℤ) : ℚ) * (2 / 2 ^ j) := by
          push_cast
          ring
      _ ≤ roundHalfEven (q / 2 ^ lastPlace q) * 2 ^ lastPlace q :=
          mul_le_mul hround hplace (by positivity) ((by positivity : (0 : ℚ) ≤ _).trans hround)

/-- Rounding does not cross a whole number that is a double. -/
theorem natCast_le_nearest {m : ℕ} {q : ℚ} (hm : m ≤ 2 ^ 53) (h : (m : ℚ) ≤ q) :
    (m : ℚ) ≤ nearest q := by
  simpa using div_two_pow_le_nearest (j := 0) hm (by norm_num) (by simpa using h)

theorem nearest_nonpos {q : ℚ} (h : q ≤ 0) : nearest q ≤ 0 := by
  have hpos : (0 : ℚ) < 2 ^ lastPlace q := by positivity
  have hscaled : q / 2 ^ lastPlace q ≤ 0 := div_nonpos_of_nonpos_of_nonneg h hpos.le
  have hhalf := (abs_le.mp (abs_roundHalfEven_sub_le (q / 2 ^ lastPlace q))).2
  have hround : roundHalfEven (q / 2 ^ lastPlace q) < 1 := by
    have hlt : (roundHalfEven (q / 2 ^ lastPlace q) : ℚ) < 1 := by linarith
    exact_mod_cast hlt
  refine mul_nonpos_of_nonpos_of_nonneg ?_ hpos.le
  exact_mod_cast Int.lt_add_one_iff.mp hround

/-! ## Integers -/

/-- Doubles whose last place is in front of the point are integers. -/
theorem nearest_isInt {q : ℚ} (h : 0 ≤ lastPlace q) : ∃ j : ℤ, nearest q = j := by
  obtain ⟨n, hn⟩ := Int.eq_ofNat_of_zero_le h
  refine ⟨roundHalfEven (q / 2 ^ lastPlace q) * 2 ^ n, ?_⟩
  rw [nearest, hn]
  push_cast
  rw [zpow_natCast]

/-- From `2 ^ 52` on all doubles are integers. -/
theorem lastPlace_nonneg {q : ℚ} (h : 2 ^ 52 ≤ |q|) : 0 ≤ lastPlace q := by
  have hlt : (2 : ℚ) ^ (52 : ℤ) < 2 ^ (lastPlace q + 53) := by
    exact_mod_cast h.trans_lt (abs_lt_lastPlace q)
  have := (zpow_lt_zpow_iff_right₀ (by norm_num)).mp hlt
  omega

/-- An integer is a multiple of a last place that is not in front of the point. -/
theorem nearest_intCast_of_lastPlace {k : ℤ} (h : lastPlace (k : ℚ) ≤ 0) : nearest k = k := by
  obtain ⟨n, hn⟩ : ∃ n : ℕ, lastPlace (k : ℚ) = -n := ⟨(-lastPlace (k : ℚ)).toNat, by omega⟩
  have hscaled : (k : ℚ) / 2 ^ lastPlace (k : ℚ) = ((k * 2 ^ n : ℤ) : ℚ) := by
    rw [hn, zpow_neg, zpow_natCast, div_inv_eq_mul]
    push_cast
    rfl
  rw [nearest, hscaled, roundHalfEven_intCast, ← hscaled, div_mul_cancel₀ _ (by positivity)]

/-- Integers below `2 ^ 53` are doubles. -/
theorem nearest_intCast {k : ℤ} (h : |k| < 2 ^ 53) : nearest k = k := by
  by_cases hk : (k : ℚ) = 0
  · rw [hk, nearest_zero]
  · have hlast := lastPlace_le (e := 53) hk (by norm_num) (by exact_mod_cast h)
    exact nearest_intCast_of_lastPlace (hlast.trans (by norm_num))

theorem nearest_natCast {n : ℕ} (h : n < 2 ^ 53) : nearest n = n := by
  exact_mod_cast nearest_intCast (k := n) (by rw [Nat.abs_cast]; exact_mod_cast h)

/-- Rounding an integer leaves an integer. -/
theorem nearest_intCast_isInt (k : ℤ) : ∃ j : ℤ, nearest k = j := by
  rcases le_or_gt 0 (lastPlace (k : ℚ)) with hlast | hlast
  · exact nearest_isInt hlast
  · exact ⟨k, nearest_intCast_of_lastPlace hlast.le⟩

/-! ## The doubles -/

protected theorem add_comm (a b : Number) : a + b = b + a := by
  cases a <;> cases b
  case infinity.infinity s t => cases s <;> cases t <;> rfl
  case finite.finite p q => rw [add_finite, add_finite, add_comm]
  all_goals rfl

/-- What a double keeps of an exact result. -/
def toDouble : Number → Number
  | .finite q => nearestDouble (ofExact q)
  | x => x

/-- What rounds to zero as a text is nearest to zero. -/
theorem nearest_eq_zero {q : ℚ} (h : |q| * 2 ^ 1075 ≤ 1) : nearest q = 0 := by
  by_cases hq : q = 0
  · rw [hq, nearest_zero]
  · have hsmall : |q| ≤ 2 ^ (-1075 : ℤ) := by
      rw [zpow_neg, ← one_div, le_div_iff₀ (by positivity)]
      exact_mod_cast h
    have hlast : lastPlace q = -1074 := by
      rcases lastPlace_cases hq with hsmallest | hfirst
      · exact hsmallest
      · have hle := (zpow_le_zpow_iff_right₀ (by norm_num)).mp (hfirst.trans hsmall)
        have hmin : -1074 ≤ lastPlace q := le_max_right _ _
        omega
    have hpos : (0 : ℚ) < 2 ^ (-1074 : ℤ) := by positivity
    have hscaled : |q / 2 ^ (-1074 : ℤ)| ≤ 1 / 2 := by
      rw [abs_div, abs_of_pos hpos, div_le_iff₀ hpos]
      refine hsmall.trans (le_of_eq ?_)
      rw [show (-1075 : ℤ) = -1074 - 1 by norm_num, zpow_sub_one₀ (by norm_num), mul_comm,
        one_div]
    rw [nearest, hlast, roundHalfEven_eq_zero hscaled, Int.cast_zero, zero_mul]

/-- Below the overflow an exact result is rounded to its nearest double. -/
theorem toDouble_finite {q : ℚ} (h : |q| < 2 ^ 1024 - 2 ^ 970) :
    toDouble (.finite q) = .finite (nearest q) := by
  rw [toDouble, ofExact, if_neg (not_le.mpr h)]
  split
  · rename_i htiny
    rw [nearest_eq_zero htiny, Number.ofNat_eq, Nat.cast_zero, nearestDouble_finite, nearest_zero]
  · rfl

theorem toDouble_of_lt {q : ℚ} {e : ℕ} (he : e ≤ 1023) (h : |q| < 2 ^ e) :
    toDouble (.finite q) = .finite (nearest q) :=
  toDouble_finite (h.trans_le (two_pow_le_overflow he))

theorem toDouble_intCast {k : ℤ} (h : |k| < 2 ^ 53) : toDouble (.finite k) = .finite k := by
  rw [toDouble_of_lt (e := 53) (by norm_num) (by exact_mod_cast h), nearest_intCast h]

theorem toDouble_natCast {n : ℕ} (h : n < 2 ^ 53) : toDouble (.finite n) = .finite n := by
  exact_mod_cast toDouble_intCast (k := n) (by rw [Nat.abs_cast]; exact_mod_cast h)

/-- An exact result is rounded to its nearest double, or to an infinity of its sign. -/
theorem toDouble_cases (q : ℚ) :
    toDouble (.finite q) = .finite (nearest q) ∨ toDouble (.finite q) = .infinity (decide (q < 0)) := by
  by_cases h : |q| < 2 ^ 1024 - 2 ^ 970
  · exact .inl (toDouble_finite h)
  · right
    rw [toDouble, ofExact, if_pos (not_lt.mp h)]
    rfl

/-! ## Results that are not negative -/

/-- An exact result that is not negative is rounded to a number that is not, or overflows. -/
theorem toDouble_of_nonneg {q : ℚ} (h : 0 ≤ q) :
    toDouble (.finite q) = .finite (nearest q) ∨ toDouble (.finite q) = .infinity false := by
  rcases toDouble_cases q with hfinite | hover
  · exact .inl hfinite
  · right
    rw [hover, decide_eq_false (not_lt.mpr h)]

/-- Rounded products and sums of numbers that are not negative stay above a whole number. -/
theorem natCast_le_toDouble {m : ℕ} {q : ℚ} (hm : m ≤ 2 ^ 53) (h : (m : ℚ) ≤ q) :
    le (.finite m) (toDouble (.finite q)) = true := by
  rcases toDouble_of_nonneg ((Nat.cast_nonneg m).trans h) with hfinite | hover
  · rw [hfinite, le_finite, decide_eq_true_eq]
    exact natCast_le_nearest hm h
  · rw [hover]
    rfl

/-- A rounded sum does not fall below a whole number that one side has reached. -/
theorem le_toDouble_add {m : ℕ} {x y : Number} (hm : m ≤ 2 ^ 53)
    (hx : le (.finite m) x = true) (hy : le (.finite 0) y = true) :
    le (.finite m) (toDouble (x + y)) = true := by
  cases x with
  | nan => cases hx
  | infinity negative =>
      cases negative with
      | true => cases hx
      | false =>
          cases y with
          | nan => cases hy
          | infinity negative' =>
              cases negative' with
              | true => cases hy
              | false => rfl
          | finite r => rfl
  | finite q =>
      cases y with
      | nan => cases hy
      | infinity negative =>
          cases negative with
          | true => cases hy
          | false => rfl
      | finite r =>
          rw [le_finite, decide_eq_true_eq] at hx hy
          rw [add_finite]
          exact natCast_le_toDouble hm (hx.trans (le_add_of_nonneg_right hy))

/-! ## Whole numbers -/

/-- A number without a fraction, if it is finite. -/
def IsWhole (x : Number) : Prop := ∀ q, x = .finite q → ∃ k : ℤ, q = k

theorem isWhole_finite (k : ℤ) : IsWhole (.finite k) := by
  rintro q ⟨⟩
  exact ⟨k, rfl⟩

theorem isWhole_floor (x : Number) : IsWhole x.floor := by
  cases x with
  | finite q => exact isWhole_finite _
  | _ => exact fun q h => by cases h

theorem isWhole_round (x : Number) : IsWhole x.round := by
  cases x with
  | finite q => exact isWhole_finite _
  | _ => exact fun q h => by cases h

theorem IsWhole.add {x y : Number} (hx : IsWhole x) (hy : IsWhole y) : IsWhole (x + y) := by
  cases x with
  | finite p =>
      cases y with
      | finite q =>
          obtain ⟨j, rfl⟩ := hx p rfl
          obtain ⟨k, rfl⟩ := hy q rfl
          rw [add_finite, ← Int.cast_add]
          exact isWhole_finite _
      | nan => exact fun q h => by cases h
      | infinity t => exact fun q h => by cases h
  | nan => exact fun q h => by cases y <;> cases h
  | infinity s =>
      cases y with
      | infinity t => cases s <;> cases t <;> exact fun q h => by cases h
      | nan => exact fun q h => by cases h
      | finite q => exact fun q h => by cases h

theorem IsWhole.neg {x : Number} (hx : IsWhole x) : IsWhole (-x) := by
  cases x with
  | finite q =>
      obtain ⟨k, rfl⟩ := hx q rfl
      rw [neg_finite, ← Int.cast_neg]
      exact isWhole_finite _
  | nan => exact fun q h => by cases h
  | infinity s => exact fun q h => by cases h

/-- Rounding makes no fractions. -/
theorem IsWhole.toDouble {x : Number} (hx : IsWhole x) : IsWhole (toDouble x) := by
  cases x with
  | finite q =>
      obtain ⟨k, rfl⟩ := hx q rfl
      rcases toDouble_cases (k : ℚ) with hfinite | hover
      · rw [hfinite]
        obtain ⟨j, hj⟩ := nearest_intCast_isInt k
        rw [hj]
        exact isWhole_finite j
      · rw [hover]
        exact fun q h => by cases h
  | nan => exact fun q h => by cases h
  | infinity s => exact fun q h => by cases h

end Number

end ThalosBackend.Js
