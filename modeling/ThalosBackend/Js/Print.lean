import Mathlib.Data.Nat.Digits.Defs
import ThalosBackend.Js.Number

/-!
# Printing numbers

`Number.toText` is the text a template literal puts for a number: `Number::toString` of ECMAScript,
base ten. In the exact reading a finite number is a decimal fraction, so the shortest digits that
identify it are the digits of the fraction itself. `base36Text` is `toString(36).toUpperCase()` of
an integer.
-/

set_option autoImplicit false

namespace ThalosBackend.Js

namespace Number

/-- The least `k` with `10 ^ k * q` an integer, for a decimal fraction with denominator `den`. -/
def decimalPlaces (den : ℕ) : ℕ :=
  ((List.range (Nat.log2 den + 1)).find? fun k => 10 ^ k % den = 0).getD 0

/-- `count` zeros. -/
def zeros (count : ℕ) : List Char := List.replicate count '0'

/-- The exponent part of scientific notation. -/
def exponentText (e : ℤ) : List Char :=
  'e' :: (if e < 0 then '-' else '+') :: Nat.toDigits 10 e.natAbs

/-- `Number::toString` for the positive value `0.digits * 10 ^ point`, without trailing zeros in
`digits`: plain notation while the decimal point stays within 21 digits to the right and 6 zeros
to the left, scientific notation beyond. -/
def layout (digits : List Char) (point : ℤ) : List Char :=
  if digits.length ≤ point ∧ point ≤ 21 then digits ++ zeros (point.toNat - digits.length)
  else if 0 < point ∧ point ≤ 21 then
    digits.take point.toNat ++ '.' :: digits.drop point.toNat
  else if -6 < point ∧ point ≤ 0 then '0' :: '.' :: zeros point.natAbs ++ digits
  else match digits with
    | [] => []
    | [d] => d :: exponentText (point - 1)
    | d :: rest => d :: '.' :: rest ++ exponentText (point - 1)

/-- The characters of a positive decimal fraction. -/
def positiveChars (q : ℚ) : List Char :=
  let places := decimalPlaces q.den
  let digits := Nat.toDigits 10 (q.num.natAbs * 10 ^ places / q.den)
  layout (digits.reverse.dropWhile (· = '0')).reverse (digits.length - places)

/-- The text of a number in a template literal. -/
def toText : Number → String
  | .nan => "NaN"
  | .infinity true => "-Infinity"
  | .infinity false => "Infinity"
  | .finite q =>
      if q = 0 then "0"
      else if q < 0 then String.ofList ('-' :: positiveChars (-q))
      else String.ofList (positiveChars q)

end Number

/-! ## Base 36 -/

/-- The digits of base 36, in upper case. -/
def base36Alphabet : List Char := "0123456789ABCDEFGHIJKLMNOPQRSTUVWXYZ".toList

def base36Digit (d : ℕ) : Char := base36Alphabet.getD d '0'

/-- A natural number in base 36. -/
def base36Chars (n : ℕ) : List Char :=
  if n = 0 then ['0'] else (Nat.digits 36 n).reverse.map base36Digit

/-- `toString(36).toUpperCase()` of an integer. -/
def base36Text (t : ℤ) : String :=
  String.ofList ((if t < 0 then ['-'] else []) ++ base36Chars t.natAbs)

/-- The number that digits of base 36 denote. -/
def ofBase36 (cs : List Char) : ℕ := Nat.ofDigits 36 (cs.reverse.map base36Alphabet.idxOf)

theorem idxOf_base36Digit : ∀ d < 36, base36Alphabet.idxOf (base36Digit d) = d := by decide

theorem ofBase36_base36Chars (n : ℕ) : ofBase36 (base36Chars n) = n := by
  unfold base36Chars
  split
  · subst n
    rfl
  · rw [ofBase36, ← List.map_reverse, List.reverse_reverse, List.map_map]
    have hdigits : (Nat.digits 36 n).map (base36Alphabet.idxOf ∘ base36Digit) = Nat.digits 36 n := by
      refine (List.map_congr_left fun d hd => ?_).trans (List.map_id _)
      exact idxOf_base36Digit d (Nat.digits_lt_base (by norm_num) hd)
    rw [hdigits, Nat.ofDigits_digits]

theorem minus_not_mem_base36Chars (n : ℕ) : '-' ∉ base36Chars n := by
  have hdigit : ∀ d < 36, base36Digit d ≠ '-' := by decide
  unfold base36Chars
  split
  · decide
  · intro h
    obtain ⟨d, hd, hminus⟩ := List.mem_map.mp h
    exact hdigit d (Nat.digits_lt_base (by norm_num) (List.mem_reverse.mp hd)) hminus

/-- Different integers have different texts. -/
theorem base36Text_inj {s t : ℤ} (h : base36Text s = base36Text t) : s = t := by
  have hchars := String.ofList_injective h
  have habs : ∀ {m n : ℕ}, base36Chars m = base36Chars n → m = n := fun {m n} hmn => by
    rw [← ofBase36_base36Chars m, hmn, ofBase36_base36Chars]
  by_cases hs : s < 0 <;> by_cases ht : t < 0
  · have := habs (by simpa [hs, ht] using hchars)
    omega
  · rw [if_pos hs, if_neg ht] at hchars
    exact absurd (by rw [← List.nil_append (base36Chars _), ← hchars]; simp)
      (minus_not_mem_base36Chars t.natAbs)
  · rw [if_neg hs, if_pos ht] at hchars
    exact absurd (by rw [← List.nil_append (base36Chars _), hchars]; simp)
      (minus_not_mem_base36Chars s.natAbs)
  · have := habs (by simpa [hs, ht] using hchars)
    omega

end ThalosBackend.Js
