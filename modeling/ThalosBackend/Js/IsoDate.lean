import ThalosBackend.Js.Date
import ThalosBackend.Js.Decimals

/-!
# Dates as text

`isoText` is `toISOString` of a valid date: the Gregorian date of the day, the time of day in UTC
with milliseconds. Years outside 0 to 9999 have a sign and six digits. The date is computed on
years that begin in March, so that the leap day is the last of its year.
-/

set_option autoImplicit false

namespace ThalosBackend.Js

/-- A day of the Gregorian calendar. -/
structure CivilDate where
  year : ℤ
  month : ℕ
  day : ℕ
  deriving DecidableEq

/-- The date of a day, counted from 1970-01-01. -/
def civilDate (days : ℤ) : CivilDate :=
  let z := days + 719468
  let era := z / 146097
  let dayOfEra := (z % 146097).toNat
  let yearOfEra := (dayOfEra - dayOfEra / 1460 + dayOfEra / 36524 - dayOfEra / 146096) / 365
  let dayOfYear := dayOfEra - (365 * yearOfEra + yearOfEra / 4 - yearOfEra / 100)
  -- months counted from March
  let monthIndex := (5 * dayOfYear + 2) / 153
  let month := if monthIndex < 10 then monthIndex + 3 else monthIndex - 9
  { year := yearOfEra + era * 400 + (if month ≤ 2 then 1 else 0)
    month
    day := dayOfYear - (153 * monthIndex + 2) / 5 + 1 }

/-- A number with leading zeros, at least this wide. -/
def padded (width n : ℕ) : String :=
  let digits := Nat.toDigits 10 n
  String.ofList (List.replicate (width - digits.length) '0' ++ digits)

def yearText (year : ℤ) : String :=
  if 0 ≤ year ∧ year ≤ 9999 then padded 4 year.toNat
  else (if year < 0 then "-" else "+") ++ padded 6 year.natAbs

/-- `toISOString`. -/
def isoText (t : Timestamp) : String :=
  let date := civilDate (t / 86400000)
  let ms := (t % 86400000).toNat
  yearText date.year ++ "-" ++ padded 2 date.month ++ "-" ++ padded 2 date.day ++ "T" ++
    padded 2 (ms / 3600000) ++ ":" ++ padded 2 (ms / 60000 % 60) ++ ":" ++
    padded 2 (ms / 1000 % 60) ++ "." ++ padded 3 (ms % 1000) ++ "Z"

example : isoText 951782400000 = "2000-02-29T00:00:00.000Z" := by decide +kernel

/-! ## What the text is made of -/

theorem padded_plain (width n : ℕ) : ∀ c ∈ (padded width n).toList, isWhiteSpace c = false := by
  intro c hc
  simp only [padded, String.toList_ofList, List.mem_append, List.mem_replicate] at hc
  rcases hc with ⟨-, rfl⟩ | hc
  · decide
  · exact Number.isWhiteSpace_of_isDigit (Nat.isDigit_of_mem_toDigits (by omega) le_rfl hc)

theorem yearText_plain (year : ℤ) : ∀ c ∈ (yearText year).toList, isWhiteSpace c = false := by
  intro c hc
  unfold yearText at hc
  split at hc
  · exact padded_plain _ _ c hc
  · rw [String.toList_append, List.mem_append] at hc
    rcases hc with hc | hc
    · split at hc
      · obtain rfl : c = '-' := by simpa using hc
        decide
      · obtain rfl : c = '+' := by simpa using hc
        decide
    · exact padded_plain _ _ c hc

/-- A date has no white space in its text. -/
theorem isoText_plain (t : Timestamp) : ∀ c ∈ (isoText t).toList, isWhiteSpace c = false := by
  intro c hc
  simp only [isoText, String.toList_append, List.mem_append] at hc
  have hmark : ∀ mark : String, (mark.toList.all fun d => !isWhiteSpace d) = true →
      c ∈ mark.toList → isWhiteSpace c = false := by
    intro mark hall hmem
    simpa using List.all_eq_true.mp hall c hmem
  rcases hc with (((((((((((((hc | hc) | hc) | hc) | hc) | hc) | hc) | hc) | hc) | hc) | hc) | hc) |
    hc) | hc)
  · exact yearText_plain _ c hc
  · exact hmark "-" (by decide) hc
  · exact padded_plain _ _ c hc
  · exact hmark "-" (by decide) hc
  · exact padded_plain _ _ c hc
  · exact hmark "T" (by decide) hc
  · exact padded_plain _ _ c hc
  · exact hmark ":" (by decide) hc
  · exact padded_plain _ _ c hc
  · exact hmark ":" (by decide) hc
  · exact padded_plain _ _ c hc
  · exact hmark "." (by decide) hc
  · exact padded_plain _ _ c hc
  · exact hmark "Z" (by decide) hc

/-- A date ends in the letter of its time zone. -/
theorem isoText_ends (t : Timestamp) : ∃ init, (isoText t).toList = init ++ ['Z'] := by
  exact ⟨_, by rw [isoText, String.toList_append]; rfl⟩

end ThalosBackend.Js
