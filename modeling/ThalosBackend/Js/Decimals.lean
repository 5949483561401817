import Mathlib.Tactic.IntervalCases
import ThalosBackend.Js.StringToNumber

/-!
# Decimal texts

The digits of base ten are the characters `\d` matches, so a scan for digits stops where the class
stops.
-/

set_option autoImplicit false

namespace ThalosBackend.Js

namespace Number

theorem isWhiteSpace_of_isDigit {c : Char} (h : c.isDigit = true) : isWhiteSpace c = false := by
  simp only [Char.isDigit, Bool.and_eq_true, decide_eq_true_eq] at h
  have hlow : 48 ≤ c.toNat := h.1
  have hhigh : c.toNat ≤ 57 := h.2
  rw [← Char.ofNat_toNat c]
  interval_cases c.toNat <;> decide

/-- The value of a character of the class `\d`. -/
def decimalDigit (c : Char) : ℕ := c.toNat - '0'.toNat

theorem digitValue_of_isDigit {c : Char} (h : c.isDigit = true) :
    digitValue c = some (decimalDigit c) := by
  simp only [Char.isDigit, Bool.and_eq_true, decide_eq_true_eq] at h
  exact if_pos h

/-- Every other character has no value below ten. -/
theorem ten_le_of_digitValue {c : Char} (h : c.isDigit = false) {d : ℕ}
    (hd : digitValue c = some d) : 10 ≤ d := by
  have hno : ¬('0' ≤ c ∧ c ≤ '9') := by
    simp only [Char.isDigit, Bool.and_eq_false_iff, decide_eq_false_iff_not] at h
    rintro ⟨hlow, hhigh⟩
    exact h.elim (· hlow) (· hhigh)
  unfold digitValue at hd
  rw [if_neg hno] at hd
  split at hd
  · cases hd
    omega
  · split at hd
    · cases hd
      omega
    · cases hd

/-- A scan for decimal digits reads the characters `\d` matches. -/
theorem spanDigits_ten (cs : List Char) :
    spanDigits 10 cs =
      ((cs.takeWhile Char.isDigit).map decimalDigit, cs.dropWhile Char.isDigit) := by
  induction cs with
  | nil => rfl
  | cons c cs ih =>
      cases hc : c.isDigit with
      | true =>
          have hlt : decimalDigit c < 10 := by
            simp only [Char.isDigit, Bool.and_eq_true, decide_eq_true_eq] at hc
            have hhigh : c.toNat ≤ 57 := hc.2
            have hzero : '0'.toNat = 48 := rfl
            rw [decimalDigit, hzero]
            omega
          simp [spanDigits, digitValue_of_isDigit hc, hlt, ih, hc]
      | false =>
          cases hd : digitValue c with
          | none => simp [spanDigits, hd, hc]
          | some d =>
              have hge := ten_le_of_digitValue hc hd
              simp [spanDigits, hd, hc, not_lt.mpr hge]

end Number

end ThalosBackend.Js
