import Mathlib.Data.List.TakeWhile
import ThalosBackend.Js.Decimals
import ThalosBackend.Js.Rounding

/-!
# Canonical numerals

The decimal numeral of a whole number below `2 ^ 53` is read as that number: its digits are a literal with
this value, and the value is a double.
-/

set_option autoImplicit false

namespace ThalosBackend.Js

namespace Number

theorem isDigit_of_mem_numeral {n : ℕ} : ∀ c ∈ (toString n).toList, c.isDigit = true := by
  intro c hc
  rw [Nat.toString_eq_ofList_toDigits, String.toList_ofList] at hc
  exact Nat.isDigit_of_mem_toDigits (by norm_num) le_rfl hc

theorem numeral_ne_nil (n : ℕ) : (toString n).toList ≠ [] := by
  rw [Nat.toString_eq_ofList_toDigits, String.toList_ofList]
  exact Nat.toDigits_ne_nil

/-- The digits of a numeral have its value. -/
theorem ofDigits_numeral (n : ℕ) : ofDigits 10 ((toString n).toList.map decimalDigit) = n := by
  rw [Nat.toString_eq_ofList_toDigits, String.toList_ofList, ofDigits, List.foldl_map]
  have h := @Nat.ofDigitChars_ten_toDigits n
  rw [Nat.ofDigitChars_eq_foldl] at h
  calc (Nat.toDigits 10 n).foldl (fun k c => k * 10 + decimalDigit c) 0
      = (Nat.toDigits 10 n).foldl (fun k c => 10 * k + (c.toNat - '0'.toNat)) 0 := by
        simp only [Nat.mul_comm, decimalDigit]
    _ = n := h

theorem trim_numeral (n : ℕ) : trim (toString n) = toString n := by
  have hstart : ∀ cs : List Char, (∀ c ∈ cs, c.isDigit = true) → cs.dropWhile isWhiteSpace = cs := by
    intro cs hcs
    cases cs with
    | nil => rfl
    | cons c cs =>
        exact List.dropWhile_cons_of_neg (by simp [isWhiteSpace_of_isDigit (hcs c (by simp))])
  have hdigits := isDigit_of_mem_numeral (n := n)
  rw [trim, trimStartChars, hstart _ hdigits, trimEndChars,
    hstart _ fun c hc => hdigits c (List.mem_reverse.mp hc), List.reverse_reverse,
    String.ofList_toList]

/-- A text of digits is a decimal literal, whatever it starts with. -/
theorem numericLiteral_of_digits {cs : List Char} (hne : cs ≠ [])
    (h : ∀ c ∈ cs, c.isDigit = true) :
    numericLiteral cs = ofExact (ofDigits 10 (cs.map decimalDigit)) := by
  have hall : cs.takeWhile Char.isDigit = cs := List.takeWhile_eq_self_iff.mpr h
  have hnone : cs.dropWhile Char.isDigit = [] := List.dropWhile_eq_nil_iff.mpr h
  have hliteral : decimalLiteral cs = some (ofDigits 10 (cs.map decimalDigit) : ℚ) := by
    simp [decimalLiteral, spanDigits_ten, hall, hnone, decimalValue, exponentPart, hne]
  have hnot : ∀ c, c.isDigit = false → c ∉ cs := fun c hc hmem => by simp [h c hmem] at hc
  have hunsigned : unsignedLiteral false cs = ofExact (ofDigits 10 (cs.map decimalDigit)) := by
    have hword : cs ≠ "Infinity".toList := by
      rintro rfl
      exact hnot 'I' (by decide) (by decide)
    simp only [unsignedLiteral, if_neg hword, hliteral, Bool.false_eq_true, if_false]
  have hsigned : signedLiteral cs = ofExact (ofDigits 10 (cs.map decimalDigit)) := by
    unfold signedLiteral
    split
    · exact absurd List.mem_cons_self (hnot '-' (by decide))
    · exact absurd List.mem_cons_self (hnot '+' (by decide))
    · exact hunsigned
  unfold numericLiteral
  split
  · rename_i p digits
    -- a digit announces no base
    have hdigit : p.isDigit = true := h p (by simp)
    have hbase : prefixBase p = none := by
      unfold prefixBase
      split <;> first | rfl | simp at hdigit
    rw [hbase]
    exact hsigned
  · exact hsigned

/-- Whole numbers below `2 ^ 53` lie in the range of doubles. -/
theorem ofExact_natCast {n : ℕ} (h : n < 2 ^ 53) : ofExact (n : ℚ) = .finite n := by
  have hsmall : (n : ℚ) < 2 ^ 53 := by exact_mod_cast h
  rw [ofExact, abs_of_nonneg (Nat.cast_nonneg n),
    if_neg (not_le.mpr (hsmall.trans_le (two_pow_le_overflow (by norm_num))))]
  split
  · rename_i htiny
    rcases Nat.eq_zero_or_pos n with rfl | hpos
    · simp
    · have hone : (1 : ℚ) ≤ n := by exact_mod_cast hpos
      have hlarge : (1 : ℚ) < 2 ^ 1075 := one_lt_pow₀ (by norm_num) (by norm_num)
      have hscaled := mul_le_mul_of_nonneg_right hone (zero_le_one.trans hlarge.le)
      rw [one_mul] at hscaled
      exact absurd (hlarge.trans_le (hscaled.trans htiny)) (lt_irrefl _)
  · rfl

/-- **Canonical numerals are read as their values.** -/
theorem stringToDouble_numeral {n : ℕ} (h : n < 2 ^ 53) :
    stringToDouble (toString n) = .finite n := by
  have hread : stringToNumber (toString n) = .finite n := by
    have hlist := numericLiteral_of_digits (numeral_ne_nil n) (isDigit_of_mem_numeral (n := n))
    rw [ofDigits_numeral, ofExact_natCast h] at hlist
    rw [stringToNumber, trim_numeral]
    split
    · rename_i hnil
      exact absurd hnil (numeral_ne_nil n)
    · exact hlist
  rw [stringToDouble, hread, nearestDouble_finite, nearest_natCast h]

end Number

end ThalosBackend.Js
