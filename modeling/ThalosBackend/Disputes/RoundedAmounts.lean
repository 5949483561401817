import ThalosBackend.Disputes.DistributionConservation
import ThalosBackend.Js.Rounding

/-!
# Amounts in double precision

What a double keeps of an amount of whole stroops, and what `toStroops` and `fromStroops` make of it.
Doubles tell amounts a stroop apart below `2 ^ 29` units. Below `2 ^ 28` units `toStroops` finds the stroops
of an amount (`keepsStroops_of_lt`); from there on it can make one stroop more of it than it has.
-/

set_option autoImplicit false

namespace ThalosBackend.Disputes

open ThalosBackend.Js
open Number (IsWhole abs_nearest_sub_le div_two_pow_le_nearest lastPlace_nonneg natCast_le_nearest
  natCast_le_toDouble nearest nearest_isInt nearest_nonneg nearest_nonpos toDouble toDouble_cases
  toDouble_of_lt toDouble_of_nonneg)

/-- An amount to the stroop. -/
def inStroops (amount : Number) : ℤ := ⌊amount.toRat * 10 ^ 7 + 1 / 2⌋

/-- The stroops of `2 ^ 29` units. -/
def toldStroops : ℕ := 2 ^ 29 * 10 ^ 7

/-! ## What a double keeps of an amount -/

theorem cast_stroopsPerUnit : (stroopsPerUnit : ℚ) = 10 ^ 7 := by norm_num [stroopsPerUnit]

/-- The integer that is nearer than a half. -/
theorem floor_add_half_eq {x : ℚ} {k : ℤ} (h : |x - k| < 1 / 2) : ⌊x + 1 / 2⌋ = k := by
  obtain ⟨hlow, hhigh⟩ := abs_lt.mp h
  rw [Int.floor_eq_iff]
  constructor <;> linarith

/-- How far the nearest double is from an amount, in stroops. -/
theorem abs_nearest_mul_sub_le {n : ℕ} {e : ℤ} (he : -1021 ≤ e) (h : (n : ℚ) < 2 ^ e * 10 ^ 7) :
    |nearest (n / 10 ^ 7) * 10 ^ 7 - n| ≤ 2 ^ (e - 54) * 10 ^ 7 := by
  have hsmall : |(n : ℚ) / 10 ^ 7| < 2 ^ e := by
    rw [abs_of_nonneg (by positivity), div_lt_iff₀ (by positivity)]
    exact h
  have hscaled : nearest ((n : ℚ) / 10 ^ 7) * 10 ^ 7 - n =
      (nearest ((n : ℚ) / 10 ^ 7) - n / 10 ^ 7) * 10 ^ 7 := by
    rw [sub_mul, div_mul_cancel₀ _ (by norm_num)]
  rw [hscaled, abs_mul, abs_of_pos (by norm_num : (0 : ℚ) < 10 ^ 7)]
  exact mul_le_mul_of_nonneg_right (abs_nearest_sub_le he hsmall) (by norm_num)

theorem cast_lt_of_lt_toldStroops {n : ℕ} (h : n < toldStroops) : (n : ℚ) < 2 ^ (29 : ℤ) * 10 ^ 7 := by
  exact_mod_cast h

/-- Below `2 ^ 29` units the nearest double is off by less than a third of a stroop. -/
theorem abs_nearest_mul_sub_le_third {n : ℕ} (h : n < toldStroops) :
    |nearest (n / 10 ^ 7) * 10 ^ 7 - n| ≤ 3 / 10 :=
  (abs_nearest_mul_sub_le (by norm_num) (cast_lt_of_lt_toldStroops h)).trans (by norm_num)

/-- Doubles tell amounts a stroop apart below `2 ^ 29` units. -/
theorem floor_nearest {n : ℕ} (h : n < toldStroops) :
    ⌊nearest (n / 10 ^ 7) * 10 ^ 7 + 1 / 2⌋ = n :=
  floor_add_half_eq (by exact_mod_cast (abs_nearest_mul_sub_le_third h).trans_lt (by norm_num))

theorem inStroops_nearest {n : ℕ} (h : n < toldStroops) :
    inStroops (.finite (nearest (n / 10 ^ 7))) = n :=
  floor_nearest h

/-- The double of the stroops of a power of two is not below it. -/
theorem two_pow_le_nearest {m : ℤ} {e : ℕ} (he : e ≤ 53) (h : 2 ^ e * 10 ^ 7 ≤ m) :
    (2 ^ e : ℚ) ≤ nearest (m / 10 ^ 7) := by
  have hm : (2 ^ e * 10 ^ 7 : ℚ) ≤ m := by exact_mod_cast h
  have hunits : ((2 ^ e : ℕ) : ℚ) ≤ m / 10 ^ 7 := by
    rw [le_div_iff₀ (by positivity), Nat.cast_pow, Nat.cast_ofNat]
    exact hm
  exact_mod_cast natCast_le_nearest (pow_le_pow_right₀ (by norm_num) he) hunits

/-- A positive double below a power of two is that of less than its stroops. -/
theorem stroops_of_nearest {k : ℤ} {e : ℕ} (he : e ≤ 53) (hpos : 0 < nearest (k / 10 ^ 7))
    (hlt : nearest (k / 10 ^ 7) < 2 ^ e) : ∃ n : ℕ, k = n ∧ n < 2 ^ e * 10 ^ 7 := by
  have hk : 0 ≤ k := by
    by_contra hneg
    have hle : (k : ℚ) / 10 ^ 7 ≤ 0 :=
      div_nonpos_of_nonpos_of_nonneg (by exact_mod_cast (not_le.mp hneg).le) (by positivity)
    exact absurd (nearest_nonpos hle) (not_le.mpr hpos)
  obtain ⟨n, rfl⟩ := Int.eq_ofNat_of_zero_le hk
  refine ⟨n, rfl, ?_⟩
  by_contra hn
  exact absurd hlt (not_lt.mpr (two_pow_le_nearest he (by exact_mod_cast not_lt.mp hn)))

theorem inStroops_mono {p q : ℚ} (h : p ≤ q) : inStroops (.finite p) ≤ inStroops (.finite q) :=
  Int.floor_mono (add_le_add_left (mul_le_mul_of_nonneg_right h (by positivity)) _)

/-! ## What `toStroops` makes of an amount -/

/-- The product with the stroops of a unit, computed in doubles, is rounded to the stroops that an amount
has. -/
def KeepsStroops (amount : Number) : Prop :=
  (toDouble (amount * .finite stroopsPerUnit)).round = .finite (inStroops amount)

section Product

variable {n : ℕ} {p : ℚ}

theorem abs_lt_of_near (hn : n < toldStroops) (hp : |p - n| ≤ 3 / 10) : |p| < 2 ^ 53 := by
  have hlt : (n : ℚ) < 2 ^ 29 * 10 ^ 7 := by exact_mod_cast hn
  calc |p| = |(p - n) + n| := by rw [sub_add_cancel]
    _ ≤ |p - n| + n := (abs_add_le _ _).trans_eq (by rw [Nat.abs_cast])
    _ < 3 / 10 + 2 ^ 29 * 10 ^ 7 := add_lt_add_of_le_of_lt hp hlt
    _ < 2 ^ 53 := by norm_num

/-- From `2 ^ 52` stroops on the product is rounded to an integer. -/
theorem nearest_of_near (hn : n < toldStroops) (hp : |p - n| ≤ 3 / 10) (hlarge : 2 ^ 52 < n) :
    nearest p = n := by
  obtain ⟨hlow, hhigh⟩ := abs_le.mp hp
  have hn52 : (2 : ℚ) ^ 52 + 1 ≤ n := by exact_mod_cast hlarge
  have hp52 : 2 ^ 52 ≤ |p| := (by linarith : (2 : ℚ) ^ 52 ≤ p).trans (le_abs_self p)
  obtain ⟨j, hj⟩ := nearest_isInt (lastPlace_nonneg hp52)
  have herror := abs_nearest_sub_le (e := 53) (by norm_num) (by exact_mod_cast abs_lt_of_near hn hp)
  norm_num at herror
  rw [hj] at herror ⊢
  obtain ⟨hjlow, hjhigh⟩ := abs_le.mp herror
  have hj₁ : (j : ℚ) < (n + 1 : ℤ) := by push_cast; linarith
  have hj₂ : ((n - 1 : ℤ) : ℚ) < j := by push_cast; linarith
  have hjn : j = n := by
    have h₁ := Int.cast_lt.mp hj₁
    have h₂ := Int.cast_lt.mp hj₂
    omega
  rw [hjn, Int.cast_natCast]

/-- The product is rounded to the stroops of the amount, or to one more. -/
theorem floor_nearest_product (hn : n < toldStroops) (hp0 : 0 ≤ p) (hp : |p - n| ≤ 3 / 10) :
    ∃ t : ℕ, ⌊nearest p + 1 / 2⌋ = t ∧ n ≤ t ∧ t < toldStroops := by
  rcases lt_or_ge (2 ^ 52) n with hlarge | hsmall
  · refine ⟨n, ?_, le_rfl, hn⟩
    rw [nearest_of_near hn hp hlarge]
    exact floor_add_half_eq (by norm_num)
  · obtain ⟨hlow, hhigh⟩ := abs_le.mp hp
    have herror := abs_nearest_sub_le (e := 53) (by norm_num) (by exact_mod_cast abs_lt_of_near hn hp)
    norm_num at herror
    have hup := (abs_le.mp herror).2
    -- half a stroop below is a double, and is not crossed
    have hdown : (n : ℚ) - 1 / 2 ≤ nearest p := by
      rcases Nat.eq_zero_or_pos n with rfl | hpos
      · have := nearest_nonneg hp0
        push_cast
        linarith
      · have hhalf : ((2 * n - 1 : ℕ) : ℚ) / 2 ^ 1 = n - 1 / 2 := by
          rw [Nat.cast_sub (by omega)]
          push_cast
          ring
        rw [← hhalf]
        refine div_two_pow_le_nearest (by omega) (by norm_num) ?_
        rw [hhalf]
        linarith
    have hfloor : (n : ℤ) ≤ ⌊nearest p + 1 / 2⌋ := Int.le_floor.mpr (by push_cast; linarith)
    obtain ⟨t, ht⟩ := Int.eq_ofNat_of_zero_le ((Int.natCast_nonneg n).trans hfloor)
    refine ⟨t, ht, by omega, ?_⟩
    have hnext : ⌊nearest p + 1 / 2⌋ < n + 2 := Int.floor_lt.mpr (by push_cast; linarith)
    have hroom : 2 ^ 52 + 2 ≤ toldStroops := by norm_num [toldStroops]
    omega

/-- Below `2 ^ 28` units it is rounded to the stroops of the amount. -/
theorem floor_nearest_product_of_lt (hn : n < 2 ^ 28 * 10 ^ 7) (hp : |p - n| ≤ 3 / 20) :
    ⌊nearest p + 1 / 2⌋ = n := by
  have hlt : (n : ℚ) < 2 ^ 28 * 10 ^ 7 := by exact_mod_cast hn
  have hsmall : |p| < 2 ^ 52 := by
    calc |p| = |(p - n) + n| := by rw [sub_add_cancel]
      _ ≤ |p - n| + n := (abs_add_le _ _).trans_eq (by rw [Nat.abs_cast])
      _ < 3 / 20 + 2 ^ 28 * 10 ^ 7 := add_lt_add_of_le_of_lt hp hlt
      _ < 2 ^ 52 := by norm_num
  have herror := abs_nearest_sub_le (e := 52) (by norm_num) (by exact_mod_cast hsmall)
  refine floor_add_half_eq ?_
  calc |nearest p - (n : ℤ)| = |(nearest p - p) + (p - n)| := by push_cast; ring_nf
    _ ≤ |nearest p - p| + |p - n| := abs_add_le _ _
    _ ≤ 2 ^ (52 - 54 : ℤ) + 3 / 20 := add_le_add herror hp
    _ < 1 / 2 := by norm_num

end Product

section ToStroops

variable {n : ℕ} {field : String}

theorem toStroops_eq_round (q : ℚ) :
    toStroops (.finite q) field toDouble =
      .ok (toDouble (.finite q * .finite stroopsPerUnit)).round := by
  rw [toStroops, Number.isFinite_finite, if_pos rfl]

/-- It is so when `toStroops` finds these stroops. -/
theorem keepsStroops_iff (q : ℚ) (field : String) :
    KeepsStroops (.finite q) ↔
      toStroops (.finite q) field toDouble = .ok (.finite (inStroops (.finite q))) := by
  rw [KeepsStroops, toStroops_eq_round, Except.ok.injEq]

theorem toStroops_finite {q : ℚ} (h : |q * 10 ^ 7| < 2 ^ 53) :
    toStroops (.finite q) field toDouble = .ok (.finite ⌊nearest (q * 10 ^ 7) + 1 / 2⌋) := by
  rw [toStroops_eq_round, Number.mul_finite, cast_stroopsPerUnit, toDouble_of_lt (by norm_num) h,
    Number.round_finite]

/-- `toStroops` makes of an amount the stroops it has, or one more. -/
theorem toStroops_nearest (field : String) (h : n < toldStroops) :
    ∃ t : ℕ, toStroops (.finite (nearest (n / 10 ^ 7))) field toDouble = .ok (.finite t) ∧
      n ≤ t ∧ t < toldStroops := by
  have herror := abs_nearest_mul_sub_le_third h
  have hproduct : 0 ≤ nearest ((n : ℚ) / 10 ^ 7) * 10 ^ 7 :=
    mul_nonneg (nearest_nonneg (by positivity)) (by norm_num)
  obtain ⟨t, ht, hle, hlt⟩ := floor_nearest_product h hproduct herror
  refine ⟨t, ?_, hle, hlt⟩
  rw [toStroops_finite (abs_lt_of_near h herror), ht, Int.cast_natCast]

/-- **Below `2 ^ 28` units `toStroops` finds the stroops of an amount.** -/
theorem keepsStroops_of_lt (h : n < 2 ^ 28 * 10 ^ 7) :
    KeepsStroops (.finite (nearest (n / 10 ^ 7))) := by
  have htold : n < toldStroops := h.trans (by norm_num [toldStroops])
  have herror : |nearest (n / 10 ^ 7) * 10 ^ 7 - n| ≤ 3 / 20 :=
    (abs_nearest_mul_sub_le (e := 28) (by norm_num) (by exact_mod_cast h)).trans (by norm_num)
  rw [keepsStroops_iff _ "total",
    toStroops_finite (abs_lt_of_near htold (abs_nearest_mul_sub_le_third htold)),
    floor_nearest_product_of_lt h herror, inStroops_nearest htold]

/-- The stroops of an amount that is not negative. -/
theorem toStroops_nonneg {q : ℚ} {stroops : Number} (hq : 0 ≤ q)
    (h : toStroops (.finite q) field toDouble = .ok stroops) :
    Number.le (.finite 0) stroops = true := by
  rw [toStroops_eq_round, Except.ok.injEq, Number.mul_finite] at h
  subst h
  have hproduct : 0 ≤ q * stroopsPerUnit := mul_nonneg hq (Nat.cast_nonneg _)
  rcases toDouble_of_nonneg hproduct with hfinite | hover
  · rw [hfinite, Number.round_finite, Number.le_finite, decide_eq_true_eq]
    have := nearest_nonneg hproduct
    exact_mod_cast Int.floor_nonneg.mpr (by positivity)
  · rw [hover]
    rfl

/-- An amount from `2 ^ 29` units on has at least the stroops of these. -/
theorem toldStroops_le_toStroops {stroops : Number} (hn : toldStroops ≤ n)
    (h : toStroops (.finite (nearest (n / 10 ^ 7))) field toDouble = .ok stroops) :
    Number.le (.finite toldStroops) stroops = true := by
  rw [toStroops_eq_round, Except.ok.injEq, Number.mul_finite] at h
  subst h
  have hunits : (2 ^ 29 : ℚ) ≤ nearest (n / 10 ^ 7) :=
    two_pow_le_nearest (m := n) (by norm_num) (by exact_mod_cast hn)
  have hproduct : (toldStroops : ℚ) ≤ nearest (n / 10 ^ 7) * stroopsPerUnit := by
    rw [cast_stroopsPerUnit, toldStroops, Nat.cast_mul, Nat.cast_pow 10, Nat.cast_pow]
    exact mul_le_mul_of_nonneg_right hunits (by positivity)
  have hdouble := natCast_le_toDouble (by norm_num [toldStroops]) hproduct
  rcases toDouble_of_nonneg ((Nat.cast_nonneg _).trans hproduct) with hfinite | hover
  · rw [hfinite, Number.le_finite, decide_eq_true_eq] at hdouble
    rw [hfinite, Number.round_finite, Number.le_finite, decide_eq_true_eq]
    have hfloor : (toldStroops : ℤ) ≤ ⌊nearest (nearest (n / 10 ^ 7) * stroopsPerUnit) + 1 / 2⌋ :=
      Int.le_floor.mpr (by push_cast; linarith)
    exact_mod_cast hfloor
  · rw [hover]
    rfl

end ToStroops

/-! ## What `fromStroops` makes of stroops -/

/-- The double of an amount of whole stroops. -/
def IsAmount (x : Number) : Prop := ∃ n : ℕ, x = .finite (nearest (n / 10 ^ 7))

/-- What `fromStroops` makes of a positive number: the double of whole stroops, or an overflow. -/
theorem fromStroops_eq {q : ℚ} (hq : 0 < q)
    (hfinite : (fromStroops (.finite q) toDouble).isFinite = true) :
    fromStroops (.finite q) toDouble =
      .finite (nearest (⌊nearest (q / 10 ^ 7) * 10 ^ 7 + 1 / 2⌋ / 10 ^ 7)) := by
  simp only [fromStroops, Number.divNat_finite, cast_stroopsPerUnit] at hfinite ⊢
  rcases toDouble_of_nonneg (by positivity : 0 ≤ q / 10 ^ 7) with hunits | hover
  · rw [hunits, Number.toFixed_finite] at hfinite ⊢
    rcases toDouble_cases (⌊nearest (q / 10 ^ 7) * 10 ^ 7 + 1 / 2⌋ / 10 ^ 7) with hamount | hover
    · exact hamount
    · rw [hover] at hfinite
      cases hfinite
  · rw [hover] at hfinite
    cases hfinite

theorem fromStroops_isAmount {stroops : Number} (hpos : Number.lt 0 stroops = true)
    (hfinite : (fromStroops stroops toDouble).isFinite = true) :
    IsAmount (fromStroops stroops toDouble) := by
  cases stroops with
  | nan => cases hpos
  | infinity negative => cases negative <;> cases hfinite
  | finite q =>
      have hq : 0 < q := by simpa using hpos
      obtain ⟨n, hn⟩ : ∃ n : ℕ, ⌊nearest (q / 10 ^ 7) * 10 ^ 7 + 1 / 2⌋ = n := by
        refine Int.eq_ofNat_of_zero_le (Int.floor_nonneg.mpr ?_)
        have := nearest_nonneg (by positivity : 0 ≤ q / 10 ^ 7)
        positivity
      refine ⟨n, ?_⟩
      rw [fromStroops_eq hq hfinite, hn, Int.cast_natCast]

/-- Rounding leaves a stroop more than half of it. -/
theorem one_le_floor_nearest {q : ℚ} (h : 1 / 10 ^ 7 ≤ q) :
    1 ≤ ⌊nearest q * 10 ^ 7 + 1 / 2⌋ := by
  have hpos : 0 < q := lt_of_lt_of_le (by norm_num) h
  have hnormal : (2 : ℚ) ^ (-1022 : ℤ) ≤ |q| := by
    rw [abs_of_pos hpos]
    calc (2 : ℚ) ^ (-1022 : ℤ) ≤ 2 ^ (-24 : ℤ) := zpow_le_zpow_right₀ (by norm_num) (by norm_num)
      _ ≤ 1 / 10 ^ 7 := by norm_num
      _ ≤ q := h
  have herror := Number.abs_nearest_sub_le_mul hnormal
  rw [abs_of_pos hpos] at herror
  have hhalf : q / 2 ^ 53 ≤ q / 2 := div_le_div_of_nonneg_left hpos.le (by norm_num) (by norm_num)
  have hlow := (abs_le.mp (herror.trans hhalf)).1
  refine Int.le_floor.mpr ?_
  push_cast
  linarith

/-- A share that is paid out is worth a stroop. -/
theorem one_le_inStroops {share : Number} (hwhole : IsWhole share)
    (hpos : Number.lt 0 share = true)
    (hfinite : (fromStroops share toDouble).isFinite = true) :
    1 ≤ inStroops (fromStroops share toDouble) := by
  cases share with
  | nan => cases hpos
  | infinity negative => cases negative <;> cases hfinite
  | finite q =>
      obtain ⟨k, rfl⟩ := hwhole q rfl
      have hk : (0 : ℚ) < k := by simpa using hpos
      have hone : (1 : ℚ) ≤ k := by exact_mod_cast hk
      have hstroops : 1 ≤ ⌊nearest (k / 10 ^ 7) * 10 ^ 7 + 1 / 2⌋ :=
        one_le_floor_nearest (div_le_div_of_nonneg_right hone (by positivity))
      rw [fromStroops_eq hk hfinite, inStroops, Number.toRat_finite]
      refine one_le_floor_nearest (div_le_div_of_nonneg_right ?_ (by positivity))
      exact_mod_cast hstroops

/-- An amount from `2 ^ 29` units on has at least the stroops of these. -/
theorem toldStroops_le_floor_nearest {m : ℤ} (h : (toldStroops : ℤ) ≤ m) :
    (toldStroops : ℤ) ≤ ⌊nearest (m / 10 ^ 7) * 10 ^ 7 + 1 / 2⌋ := by
  have hunits := two_pow_le_nearest (e := 29) (by norm_num) h
  refine Int.le_floor.mpr ?_
  push_cast [toldStroops]
  linarith

/-- A share that is paid out is paid out to the stroop, below `2 ^ 29` units. -/
theorem min_le_inStroops {k : ℤ} (hk : 0 < k)
    (hfinite : (fromStroops (stroops k) toDouble).isFinite = true) :
    min k toldStroops ≤ inStroops (fromStroops (stroops k) toDouble) := by
  have hpos : (0 : ℚ) < k := by exact_mod_cast hk
  rw [stroops, fromStroops_eq hpos hfinite, inStroops, Number.toRat_finite]
  rcases lt_or_ge k toldStroops with htold | htold
  · obtain ⟨n, rfl⟩ := Int.eq_ofNat_of_zero_le hk.le
    have hn : n < toldStroops := by exact_mod_cast htold
    rw [Int.cast_natCast, floor_nearest hn, Int.cast_natCast, floor_nearest hn]
    exact min_le_left _ _
  · exact (min_le_right _ _).trans (toldStroops_le_floor_nearest (toldStroops_le_floor_nearest htold))

end ThalosBackend.Disputes
