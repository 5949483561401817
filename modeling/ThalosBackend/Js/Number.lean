import Mathlib.Data.Rat.Floor
import Mathlib.Tactic.Linarith
import Mathlib.Tactic.Positivity

/-!
# JavaScript numbers, read exactly

A `number` is `NaN`, one of the two infinities, or finite. Finite numbers are rationals and their
arithmetic is exact: the operations neither round to 53 bits nor overflow, and the two zeros are one value.
What the source branches on is modelled as it is: `NaN` compares false with everything,
`Infinity - Infinity` and `0 * Infinity` are `NaN`, and `2 ** e` leaves the finite range at `e = 1024`.

The conservation and the fairness of the dispute split, the sums of the validators, the announced amounts
and the waiting times of the retries are results of this arithmetic. Where the source reads a text as a
whole number, and where it pays out a balance, the doubles are those of `Js.Rounding`.

The `simp` lemmas push every operation on finite numbers down to `ℚ`.
-/

set_option autoImplicit false

namespace ThalosBackend.Js

/-- A JavaScript `number`. -/
inductive Number where
  | nan
  | infinity (negative : Bool)
  | finite (value : ℚ)
  deriving DecidableEq

namespace Number

instance : Inhabited Number := ⟨finite 0⟩

instance (n : ℕ) : OfNat Number n := ⟨finite n⟩

/-- `Number.isFinite`. -/
def isFinite : Number → Bool
  | .finite _ => true
  | _ => false

/-- The value of a finite number. -/
def toRat : Number → ℚ
  | .finite q => q
  | _ => 0

/-- Unary minus. -/
protected def neg : Number → Number
  | .nan => .nan
  | .infinity s => .infinity (!s)
  | .finite q => .finite (-q)

/-- Addition: infinities of opposite sign give `NaN`. -/
protected def add : Number → Number → Number
  | .finite a, .finite b => .finite (a + b)
  | .nan, _ => .nan
  | _, .nan => .nan
  | .infinity s, .infinity t => if s = t then .infinity s else .nan
  | .infinity s, .finite _ => .infinity s
  | .finite _, .infinity t => .infinity t

instance : Neg Number := ⟨Number.neg⟩
instance : Add Number := ⟨Number.add⟩
instance : Sub Number := ⟨fun a b => a + -b⟩

/-- The sign of the product of an infinity and a finite factor; `0 * Infinity` is `NaN`. -/
def scaleInfinity (negative : Bool) (q : ℚ) : Number :=
  if q = 0 then .nan else .infinity (negative ^^ decide (q < 0))

/-- Multiplication. -/
protected def mul : Number → Number → Number
  | .finite a, .finite b => .finite (a * b)
  | .nan, _ => .nan
  | _, .nan => .nan
  | .infinity s, .infinity t => .infinity (s ^^ t)
  | .infinity s, .finite q => scaleInfinity s q
  | .finite q, .infinity s => scaleInfinity s q

instance : Mul Number := ⟨Number.mul⟩

/-- Division by a positive constant, the only division the source does on numbers of this kind. -/
def divNat (a : Number) (d : ℕ) : Number :=
  match a with
  | .finite q => .finite (q / d)
  | .nan => .nan
  | .infinity s => .infinity s

/-- `a < b`; false when either side is `NaN`. -/
def lt : Number → Number → Bool
  | .nan, _ => false
  | _, .nan => false
  | .finite a, .finite b => decide (a < b)
  | .infinity s, .finite _ => s
  | .finite _, .infinity t => !t
  | .infinity s, .infinity t => s && !t

/-- `a <= b`; false when either side is `NaN`. -/
def le : Number → Number → Bool
  | .nan, _ => false
  | _, .nan => false
  | a, b => !lt b a

/-- `Math.abs`. -/
def abs : Number → Number
  | .finite q => .finite |q|
  | .infinity _ => .infinity false
  | .nan => .nan

/-- `Math.min` of two arguments: `NaN` when either is `NaN`. -/
def min (a b : Number) : Number :=
  match a, b with
  | .nan, _ => .nan
  | _, .nan => .nan
  | a, b => if lt b a then b else a

/-- `Math.max` of two arguments: `NaN` when either is `NaN`. -/
protected def max (a b : Number) : Number :=
  match a, b with
  | .nan, _ => .nan
  | _, .nan => .nan
  | a, b => if lt a b then b else a

/-- `Math.floor`. -/
def floor : Number → Number
  | .finite q => .finite ⌊q⌋
  | x => x

/-- `Math.round`: the nearest integer, halves upwards. -/
def round : Number → Number
  | .finite q => .finite ⌊q + 1 / 2⌋
  | x => x

/-- The value of `Number(x.toFixed(digits))` for a non-negative `x`: the nearest multiple of
`10 ^ -digits`, the larger one on a tie. -/
def toFixed (digits : ℕ) : Number → Number
  | .finite q => .finite (⌊q * 10 ^ digits + 1 / 2⌋ / 10 ^ digits)
  | x => x

/-- `2 ** exponent` for a non-negative integer exponent; doubles end below `2 ^ 1024`. -/
def twoPow (exponent : ℕ) : Number :=
  if exponent < 1024 then .finite (2 ^ exponent) else .infinity false

/-- `Number.isInteger`. -/
def isInteger : Number → Bool
  | .finite q => q.den = 1
  | _ => false

@[simp] theorem isFinite_finite (q : ℚ) : isFinite (.finite q) = true := rfl

@[simp] theorem ofNat_eq (n : ℕ) : (OfNat.ofNat n : Number) = .finite n := rfl

@[simp] theorem neg_finite (q : ℚ) : -(finite q) = finite (-q) := rfl

@[simp] theorem add_finite (a b : ℚ) : finite a + finite b = finite (a + b) := rfl

@[simp] theorem sub_finite (a b : ℚ) : finite a - finite b = finite (a - b) := by
  show finite (a + -b) = finite (a - b)
  rw [sub_eq_add_neg]

@[simp] theorem mul_finite (a b : ℚ) : finite a * finite b = finite (a * b) := rfl

@[simp] theorem divNat_finite (q : ℚ) (d : ℕ) : divNat (finite q) d = finite (q / d) := rfl

@[simp] theorem lt_finite (a b : ℚ) : lt (finite a) (finite b) = decide (a < b) := rfl

@[simp] theorem le_finite (a b : ℚ) : le (finite a) (finite b) = decide (a ≤ b) := by
  simp only [le, lt_finite, ← decide_not, not_lt]

@[simp] theorem abs_finite (q : ℚ) : abs (finite q) = finite |q| := rfl

@[simp] theorem min_finite (a b : ℚ) : min (finite a) (finite b) = finite (Min.min a b) := by
  simp only [min, lt_finite, decide_eq_true_eq]
  rcases lt_or_ge b a with h | h
  · rw [if_pos h, min_eq_right h.le]
  · rw [if_neg (not_lt.mpr h), min_eq_left h]

@[simp] theorem max_finite (a b : ℚ) : Number.max (finite a) (finite b) = finite (max a b) := by
  simp only [Number.max, lt_finite, decide_eq_true_eq]
  rcases lt_or_ge a b with h | h
  · rw [if_pos h, max_eq_right h.le]
  · rw [if_neg (not_lt.mpr h), max_eq_left h]

@[simp] theorem floor_finite (q : ℚ) : floor (finite q) = finite ⌊q⌋ := rfl

@[simp] theorem round_finite (q : ℚ) : round (finite q) = finite ⌊q + 1 / 2⌋ := rfl

@[simp] theorem toFixed_finite (digits : ℕ) (q : ℚ) :
    toFixed digits (finite q) = finite (⌊q * 10 ^ digits + 1 / 2⌋ / 10 ^ digits) := rfl

@[simp] theorem toRat_finite (q : ℚ) : toRat (finite q) = q := rfl

/-- A finite number between two others bounds them by transitivity. -/
theorem le_of_finite_le {x y : ℚ} {a : Number} (hx : le (.finite x) a = true)
    (hy : le a (.finite y) = true) : x ≤ y := by
  cases a with
  | nan => simp [le] at hx
  | infinity s => cases s <;> simp [le, lt] at hx hy
  | finite q =>
      simp only [le_finite, decide_eq_true_eq] at hx hy
      exact hx.trans hy

theorem finite_le_of_le {x y : ℚ} {a : Number} (hxy : x ≤ y) (hy : le (.finite y) a = true) :
    le (.finite x) a = true := by
  cases a with
  | nan => simp [le] at hy
  | infinity s => cases s <;> simp [le, lt] at hy ⊢
  | finite q =>
      simp only [le_finite, decide_eq_true_eq] at hy ⊢
      exact hxy.trans hy

/-- What a finite minimum says about its arguments: it bounds both, and is one of them. -/
theorem min_eq_finite {a b : Number} {x : ℚ} (h : min a b = .finite x) :
    le (.finite x) a = true ∧ le (.finite x) b = true ∧ (a = .finite x ∨ b = .finite x) := by
  cases a with
  | nan => simp [min] at h
  | infinity s =>
      cases b with
      | nan => simp [min] at h
      | infinity t => cases s <;> cases t <;> simp [min, lt] at h
      | finite q =>
          cases s <;> simp [min, lt] at h
          subst h
          simp [le, lt]
  | finite p =>
      cases b with
      | nan => simp [min] at h
      | infinity t =>
          cases t <;> simp [min, lt] at h
          subst h
          simp [le, lt]
      | finite q =>
          simp only [min_finite, finite.injEq] at h
          subst h
          simp only [le_finite, decide_eq_true_eq, finite.injEq]
          refine ⟨min_le_left _ _, min_le_right _ _, ?_⟩
          rcases le_total p q with hpq | hpq
          · exact .inl (min_eq_left hpq).symm
          · exact .inr (min_eq_right hpq).symm

/-- A non-negative number times a power of two grows with the power, unless one product is `NaN`. -/
theorem mul_twoPow_mono {a : Number} (ha : le 0 a = true) {e e' : ℕ} (h : e ≤ e')
    (hnan : a * twoPow e ≠ .nan) (hnan' : a * twoPow e' ≠ .nan) :
    le (a * twoPow e) (a * twoPow e') = true := by
  have hpos : ∀ n : ℕ, (0 : ℚ) < 2 ^ n := fun n => by positivity
  cases a with
  | nan => simp [le] at ha
  | infinity s =>
      cases s with
      | true => simp [le, lt] at ha
      | false =>
          have hinf : ∀ n, (Number.infinity false) * twoPow n = .infinity false := by
            intro n
            by_cases hn : n < 1024
            · show Number.mul _ _ = _
              simp [twoPow, hn, Number.mul, scaleInfinity, (hpos n).ne', (hpos n).not_gt]
            · show Number.mul _ _ = _
              simp [twoPow, hn, Number.mul]
          rw [hinf, hinf]
          rfl
  | finite q =>
      have hq : 0 ≤ q := by simpa using ha
      -- from 1024 on the power is infinite
      have hover : ∀ n, ¬ n < 1024 → finite q * twoPow n = scaleInfinity false q := fun n hn => by
        show Number.mul _ _ = _
        simp [twoPow, hn, Number.mul]
      by_cases he' : e' < 1024
      · have he : e < 1024 := lt_of_le_of_lt h he'
        simp only [twoPow, he, he', if_true, mul_finite, le_finite, decide_eq_true_eq]
        exact mul_le_mul_of_nonneg_left (pow_le_pow_right₀ one_le_two h) hq
      · rw [hover e' he'] at hnan' ⊢
        -- zero times infinity would not be a number
        have hq0 : q ≠ 0 := fun h0 => hnan' (by simp [scaleInfinity, h0])
        have hinf : scaleInfinity false q = .infinity false := by
          simp [scaleInfinity, hq0, hq]
        rw [hinf]
        by_cases he : e < 1024
        · simp [twoPow, he, le, lt]
        · rw [hover e he, hinf]
          rfl

/-- A finite number is the image of its value. -/
theorem eq_finite_of_isFinite {x : Number} (h : x.isFinite = true) : x = .finite x.toRat := by
  cases x with
  | finite q => rfl
  | nan => simp [isFinite] at h
  | infinity s => simp [isFinite] at h

/-- The sum of a list of finite numbers, folded from the left as `reduce` does. -/
theorem foldl_add_finite (qs : List ℚ) (start : ℚ) :
    (qs.map finite).foldl (· + ·) (finite start) = finite (start + qs.sum) := by
  induction qs generalizing start with
  | nil => simp
  | cons q qs ih =>
      simp only [List.map_cons, List.foldl_cons, add_finite, ih, List.sum_cons, add_assoc]

/-- Rounding leaves an integer as it is. -/
theorem floor_add_half_intCast (k : ℤ) : ⌊(k : ℚ) + 1 / 2⌋ = k := by
  rw [Int.floor_eq_iff]
  constructor <;> linarith

end Number

end ThalosBackend.Js
