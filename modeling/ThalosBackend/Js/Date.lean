import ThalosBackend.Js.Number

/-!
# JavaScript dates

An instant is an integer number of milliseconds. `timeClip` is what `new Date(x)` makes of a
number: a fraction is cut off, and a number that is not finite, or more than `8.64e15`
milliseconds away from the epoch, gives an invalid date, for which `toISOString` throws.
-/

set_option autoImplicit false

namespace ThalosBackend.Js

/-- Milliseconds since the epoch. -/
abbrev Timestamp := ℤ

/-- The largest distance from the epoch a date can have. -/
def maxTime : ℚ := 8640000000000000

/-- The instant of `new Date(x)`; `none` is an invalid date. -/
def timeClip : Number → Option Timestamp
  | .finite q => if |q| ≤ maxTime then some (if q < 0 then ⌈q⌉ else ⌊q⌋) else none
  | _ => none

/-- An instant as a number, the value of `Date.now()`. -/
def ofTimestamp (t : Timestamp) : Number := .finite t

/-- An instant that is a date is the instant of that date. -/
theorem timeClip_ofTimestamp {t t' : Timestamp} (h : timeClip (ofTimestamp t) = some t') :
    t' = t := by
  simp only [timeClip, ofTimestamp, Int.ceil_intCast, Int.floor_intCast, ite_self] at h
  split at h
  · exact (Option.some.inj h).symm
  · cases h

/-- An instant in the range of dates is a date. -/
theorem timeClip_ofTimestamp_eq {t : Timestamp} (h : |t| ≤ 8640000000000000) :
    timeClip (ofTimestamp t) = some t := by
  have hrange : |(t : ℚ)| ≤ maxTime := by
    rw [← Int.cast_abs, maxTime]
    exact_mod_cast h
  simp only [timeClip, ofTimestamp, if_pos hrange, Int.ceil_intCast, Int.floor_intCast, ite_self]

/-- Only finite numbers are dates. -/
theorem eq_finite_of_timeClip {x : Number} {t : Timestamp} (h : timeClip x = some t) :
    ∃ q, x = .finite q := by
  cases x with
  | finite q => exact ⟨q, rfl⟩
  | nan => simp [timeClip] at h
  | infinity s => simp [timeClip] at h

end ThalosBackend.Js
