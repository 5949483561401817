import Mathlib.Algebra.Order.BigOperators.Group.List
import Mathlib.Algebra.Order.Floor.Ring
import Mathlib.Algebra.Order.Field.Basic
import Mathlib.Tactic.Linarith
import Mathlib.Tactic.Ring

/-!
# Apportionment by floors, with the remainder on one part

A whole amount `total` is divided by fractions: every part gets the floor of its exact share, and
what the floors miss or exceed is added to one part. `apportion` is that division, for fractions
in any ordered field with a floor.

The parts always add up to the total (`sum_apportion`). The question is whether the part that
absorbs the remainder stays non-negative when the fractions add up to slightly more than one, so
that the floors can exceed the total. It does as soon as the excess is at most one over the
number of parts, and it is then even positive (`absorbing_part_pos`).

`scanLargest` is the left-to-right scan for the first largest entry.
-/

set_option autoImplicit false

namespace Apportionment

universe u

/-! ## The scan for the largest entry -/

section Scan

/-- Scan the indices `1, 2, …, n - 1`, starting from the candidate `0`, and replace the candidate by
every index that beats it. -/
def scanLargest (beats : ℕ → ℕ → Bool) (n : ℕ) : ℕ :=
  (List.range' 1 (n - 1)).foldl (fun largest i => if beats i largest then i else largest) 0

variable {α : Type u} [LinearOrder α] {beats : ℕ → ℕ → Bool} {key : ℕ → α}

@[simp] theorem scanLargest_one : scanLargest beats 1 = 0 := rfl

/-- The scan one index further. -/
theorem scanLargest_succ_succ (n : ℕ) :
    scanLargest beats (n + 2) =
      if beats (n + 1) (scanLargest beats (n + 1)) then n + 1 else scanLargest beats (n + 1) := by
  have h : List.range' 1 (n + 1) = List.range' 1 n ++ [n + 1] := by
    rw [List.range'_concat, Nat.one_mul, Nat.add_comm 1 n]
  simp only [scanLargest, Nat.add_sub_cancel, show n + 2 - 1 = n + 1 from rfl, h, List.foldl_append,
    List.foldl_cons, List.foldl_nil]

/-- The scan ends inside a non-empty range. -/
theorem scanLargest_lt {n : ℕ} (hn : 0 < n) : scanLargest beats n < n := by
  obtain ⟨m, rfl⟩ : ∃ m, n = m + 1 := ⟨n - 1, by omega⟩
  induction m with
  | zero => simp
  | succ m ih =>
      have := ih (Nat.succ_pos m)
      rw [scanLargest_succ_succ]
      split <;> omega

/-- No scanned index has a larger key than the scan's result. -/
theorem le_key_scanLargest (hbeats : ∀ i j, beats i j = true ↔ key j < key i) {n i : ℕ}
    (hi : i < n) : key i ≤ key (scanLargest beats n) := by
  obtain ⟨m, rfl⟩ : ∃ m, n = m + 1 := ⟨n - 1, by omega⟩
  induction m generalizing i with
  | zero =>
      have : i = 0 := by omega
      subst this
      exact le_rfl
  | succ m ih =>
      rw [scanLargest_succ_succ]
      -- the new index is compared with the best of the earlier ones
      rcases Nat.lt_succ_iff_lt_or_eq.mp hi with h | rfl
      · have hle := ih h
        split
        · rename_i hb
          exact hle.trans ((hbeats _ _).mp hb).le
        · exact hle
      · split
        · exact le_rfl
        · rename_i hb
          exact not_lt.mp fun hlt => hb ((hbeats _ _).mpr hlt)

/-- The scan's result is the first largest: every earlier index has a smaller key. -/
theorem key_lt_key_scanLargest (hbeats : ∀ i j, beats i j = true ↔ key j < key i) {n i : ℕ}
    (hi : i < scanLargest beats n) : key i < key (scanLargest beats n) := by
  induction n with
  | zero => exact absurd hi (Nat.not_lt_zero i)
  | succ m ih =>
      cases m with
      | zero => exact absurd hi (Nat.not_lt_zero i)
      | succ m =>
          rw [scanLargest_succ_succ] at hi ⊢
          split at hi
          · rename_i hb
            rw [if_pos hb]
            -- the new index beats the best of the earlier ones
            exact (le_key_scanLargest hbeats hi).trans_lt ((hbeats _ _).mp hb)
          · rename_i hb
            rw [if_neg hb]
            exact ih hi

end Scan

/-! ## Floors and the part that absorbs the remainder -/

section Floors

variable {K : Type u} [Field K] [LinearOrder K] [FloorRing K]

/-- The floor of every exact share of `total`. -/
def floors (total : ℤ) (fractions : List K) : List ℤ :=
  fractions.map fun p => ⌊(total : K) * p⌋

/-- Add `extra` to the entry at `index`. -/
def addAt (parts : List ℤ) (index : ℕ) (extra : ℤ) : List ℤ := parts.modify index (· + extra)

/-- What the floors leave over; negative when they exceed the total. -/
def remainder (total : ℤ) (fractions : List K) : ℤ := total - (floors total fractions).sum

/-- Floors, with the remainder added to the entry at `index`. -/
def apportion (total : ℤ) (fractions : List K) (index : ℕ) : List ℤ :=
  addAt (floors total fractions) index (remainder total fractions)

@[simp] theorem length_floors (total : ℤ) (fractions : List K) :
    (floors total fractions).length = fractions.length := List.length_map _

@[simp] theorem length_addAt (parts : List ℤ) (index : ℕ) (extra : ℤ) :
    (addAt parts index extra).length = parts.length := List.length_modify ..

theorem addAt_zero (parts : List ℤ) (index : ℕ) : addAt parts index 0 = parts := by
  simp only [addAt, add_zero]
  exact List.modify_id index parts

/-- Adding to one entry of the list adds to its sum. -/
theorem sum_addAt : ∀ (parts : List ℤ) (index : ℕ) (extra : ℤ), index < parts.length →
    (addAt parts index extra).sum = parts.sum + extra
  | [], _, _, h => absurd h (Nat.not_lt_zero _)
  | x :: xs, 0, extra, _ => by
      simp only [addAt, List.modify_zero_cons, List.sum_cons]
      ring
  | x :: xs, i + 1, extra, h => by
      have ih := sum_addAt xs i extra (Nat.lt_of_succ_lt_succ h)
      simp only [addAt, List.modify_succ_cons, List.sum_cons] at ih ⊢
      rw [ih]
      ring

/-- The parts add up to the total, whatever the fractions. -/
theorem sum_apportion {total : ℤ} {fractions : List K} {index : ℕ}
    (h : index < fractions.length) : (apportion total fractions index).sum = total := by
  rw [apportion, sum_addAt _ _ _ (by simpa using h), remainder]
  ring

/-- The entry at an index, with the remainder if the index absorbs it. -/
theorem getElem_apportion {total : ℤ} {fractions : List K} {index i : ℕ}
    (hi : i < fractions.length) (hi' : i < (apportion total fractions index).length) :
    (apportion total fractions index)[i] =
      ⌊(total : K) * fractions[i]⌋ + if index = i then remainder total fractions else 0 := by
  simp only [apportion, addAt, floors, List.getElem_modify, List.getElem_map]
  split
  · rfl
  · rw [add_zero]

variable [IsStrictOrderedRing K]

/-- The floors together stay below the exact share of the sum of the fractions. -/
theorem sum_floors_le (total : ℤ) (fractions : List K) :
    ((floors total fractions).sum : K) ≤ total * fractions.sum := by
  induction fractions with
  | nil => simp [floors]
  | cons p ps ih =>
      have hp : (⌊(total : K) * p⌋ : K) ≤ total * p := Int.floor_le _
      simp only [floors, List.map_cons, List.sum_cons, Int.cast_add, mul_add] at ih ⊢
      linarith

theorem floors_nonneg {total : ℤ} {fractions : List K} (htotal : 0 ≤ total)
    (hpos : ∀ p ∈ fractions, 0 ≤ p) : ∀ x ∈ floors total fractions, 0 ≤ x := by
  intro x hx
  obtain ⟨p, hp, rfl⟩ := List.mem_map.mp hx
  exact Int.floor_nonneg.mpr (mul_nonneg (Int.cast_nonneg htotal) (hpos p hp))

/-- **The absorbing part stays positive.** Let `largest` be a bound of all the floors that is itself
non-negative. If the fractions exceed one by at most `excess` and `excess` is at most one over the
number of parts, `largest` absorbs the remainder and something is left. -/
theorem absorbing_part_pos {total largest : ℤ} {fractions : List K} {excess : K}
    (htotal : 0 < total) (hlargest : 0 ≤ largest)
    (hbound : ∀ x ∈ floors total fractions, x ≤ largest)
    (hsum : fractions.sum ≤ 1 + excess) (hexcess : fractions.length * excess ≤ 1) :
    0 < largest + remainder total fractions := by
  set S := (floors total fractions).sum with hS
  have hSle : S ≤ fractions.length * largest := by
    have h := List.sum_le_card_nsmul (floors total fractions) largest hbound
    simpa using h
  rcases lt_trichotomy S total with hlt | heq | hgt
  · -- the floors fall short: a positive remainder on top of a non-negative part
    rw [remainder]
    omega
  · -- the floors are exact: the largest of them is positive because their sum is
    have hpos : 0 < (fractions.length : ℤ) * largest := by omega
    have : 0 < largest := pos_of_mul_pos_right hpos (Int.natCast_nonneg _)
    rw [remainder]
    omega
  · -- the floors exceed the total by at most `total * excess`, which is at most one part's share
    have htotalK : (0 : K) < total := Int.cast_pos.mpr htotal
    have hover : ((S : ℤ) : K) - total ≤ total * excess := by
      have h := sum_floors_le total fractions
      have h' : (total : K) * fractions.sum ≤ total * (1 + excess) :=
        mul_le_mul_of_nonneg_left hsum htotalK.le
      rw [← hS] at h
      linarith
    have hn : (0 : K) ≤ (fractions.length : K) := Nat.cast_nonneg _
    have hscaled : (fractions.length : K) * ((S : K) - total) ≤ total := by
      calc (fractions.length : K) * ((S : K) - total)
          ≤ fractions.length * (total * excess) := mul_le_mul_of_nonneg_left hover hn
        _ = total * (fractions.length * excess) := by ring
        _ ≤ total * 1 := mul_le_mul_of_nonneg_left hexcess htotalK.le
        _ = total := mul_one _
    have hscaledInt : (fractions.length : ℤ) * (S - total) ≤ total := by
      have : (((fractions.length : ℤ) * (S - total) : ℤ) : K) ≤ (total : K) := by
        push_cast
        exact hscaled
      exact_mod_cast this
    have hlt : (fractions.length : ℤ) * (S - total) < fractions.length * largest := by omega
    have := lt_of_mul_lt_mul_left hlt (Int.natCast_nonneg _)
    rw [remainder]
    omega

/-! ### Fractions that add up to one

What the floors leave over is then at most one unit less than there are parts. -/

/-- What the floors leave over is the sum of the fractional parts. -/
theorem remainder_eq_sum_fract {total : ℤ} {fractions : List K} (hsum : fractions.sum = 1) :
    ((remainder total fractions : ℤ) : K) =
      (fractions.map fun p => Int.fract ((total : K) * p)).sum := by
  have hsplit : ∀ ps : List K, (((floors total ps).sum : ℤ) : K) +
      (ps.map fun p => Int.fract ((total : K) * p)).sum = total * ps.sum := by
    intro ps
    induction ps with
    | nil => simp [floors]
    | cons p ps ih =>
        simp only [floors, List.map_cons, List.sum_cons, Int.cast_add, mul_add] at ih ⊢
        have hp := Int.floor_add_fract ((total : K) * p)
        linarith
  have h := hsplit fractions
  rw [hsum, mul_one] at h
  rw [remainder, Int.cast_sub]
  linarith

theorem remainder_nonneg (total : ℤ) {fractions : List K} (hsum : fractions.sum = 1) :
    0 ≤ remainder total fractions := by
  have hnonneg : (0 : K) ≤ (remainder total fractions : ℤ) := by
    rw [remainder_eq_sum_fract hsum]
    refine List.sum_nonneg fun x hx => ?_
    obtain ⟨p, -, rfl⟩ := List.mem_map.mp hx
    exact Int.fract_nonneg _
  exact_mod_cast hnonneg

theorem remainder_lt_length (total : ℤ) {fractions : List K} (hsum : fractions.sum = 1) :
    remainder total fractions < fractions.length := by
  have hne : fractions ≠ [] := by
    rintro rfl
    simp at hsum
  have hlt : (fractions.map fun p => Int.fract ((total : K) * p)).sum <
      (fractions.map fun _ => (1 : K)).sum :=
    List.sum_lt_sum_of_ne_nil hne _ _ fun p _ => Int.fract_lt_one _
  rw [← remainder_eq_sum_fract hsum, List.map_const', List.sum_replicate, nsmul_one] at hlt
  exact_mod_cast hlt

/-- Nothing is left over exactly when every exact share is whole. -/
theorem remainder_eq_zero_iff {total : ℤ} {fractions : List K} (hsum : fractions.sum = 1) :
    remainder total fractions = 0 ↔ ∀ p ∈ fractions, Int.fract ((total : K) * p) = 0 := by
  have hcast : remainder total fractions = 0 ↔
      (fractions.map fun p => Int.fract ((total : K) * p)).sum = 0 := by
    rw [← remainder_eq_sum_fract hsum, Int.cast_eq_zero]
  have hnonneg : ∀ x ∈ fractions.map fun p => Int.fract ((total : K) * p), 0 ≤ x := by
    intro x hx
    obtain ⟨p, -, rfl⟩ := List.mem_map.mp hx
    exact Int.fract_nonneg _
  rw [hcast]
  constructor
  · intro hzero p hp
    exact List.all_zero_of_le_zero_le_of_sum_eq_zero hnonneg hzero (List.mem_map_of_mem hp)
  · intro hwhole
    refine List.sum_eq_zero fun x hx => ?_
    obtain ⟨p, hp, rfl⟩ := List.mem_map.mp hx
    exact hwhole p hp

/-- A part misses its exact share by less than one unit, and exceeds it by at most one unit less than
there are parts. -/
theorem apportion_close {total : ℤ} {fractions : List K} {index i : ℕ} (hsum : fractions.sum = 1)
    (hi : i < fractions.length) (hi' : i < (apportion total fractions index).length) :
    -1 < ((apportion total fractions index)[i] : K) - total * fractions[i] ∧
      ((apportion total fractions index)[i] : K) - total * fractions[i] ≤ fractions.length - 1 := by
  have hfloor := Int.floor_le ((total : K) * fractions[i])
  have hceil := Int.lt_floor_add_one ((total : K) * fractions[i])
  have hnonneg : (0 : K) ≤ (remainder total fractions : ℤ) :=
    Int.cast_nonneg (remainder_nonneg total hsum)
  have hlength : ((remainder total fractions : ℤ) : K) ≤ fractions.length - 1 := by
    have hlt := remainder_lt_length total hsum
    have hle : remainder total fractions ≤ (fractions.length : ℤ) - 1 := by omega
    exact_mod_cast hle
  rw [getElem_apportion hi hi', Int.cast_add]
  split
  · constructor <;> linarith
  · rw [Int.cast_zero]
    constructor <;> linarith

/-- **Order of the parts.** Parts of a non-negative total are ordered as their fractions exactly when
nothing is left over or it goes to a part of the largest fraction. -/
theorem apportion_ordered_iff {total : ℤ} {fractions : List K} {index : ℕ} (htotal : 0 ≤ total)
    (hsum : fractions.sum = 1) (hindex : index < fractions.length)
    (hmax : ∀ x ∈ floors total fractions, x ≤ ⌊(total : K) * fractions[index]⌋) :
    (∀ i j (hi : i < fractions.length) (hj : j < fractions.length),
        fractions[i] < fractions[j] → ∀ (hi' : i < (apportion total fractions index).length)
          (hj' : j < (apportion total fractions index).length),
          (apportion total fractions index)[i] ≤ (apportion total fractions index)[j]) ↔
      remainder total fractions = 0 ∨ ∀ p ∈ fractions, p ≤ fractions[index] := by
  have hlength : (apportion total fractions index).length = fractions.length := by simp [apportion]
  have hnonneg := remainder_nonneg total hsum
  constructor
  · intro hordered
    by_contra hnot
    simp only [not_or, not_forall, not_le] at hnot
    obtain ⟨hleft, p, hp, hlt⟩ := hnot
    obtain ⟨j, hj, rfl⟩ := List.getElem_of_mem hp
    have hle := hordered index j hindex hj hlt (hlength.symm ▸ hindex) (hlength.symm ▸ hj)
    have hne : index ≠ j := by
      rintro rfl
      exact lt_irrefl _ hlt
    have hfloor := hmax _ (List.mem_map_of_mem hp)
    rw [getElem_apportion hindex, getElem_apportion hj, if_pos rfl, if_neg hne] at hle
    omega
  · intro hcondition i j hi hj hlt hi' hj'
    have hmono : ⌊(total : K) * fractions[i]⌋ ≤ ⌊(total : K) * fractions[j]⌋ :=
      Int.floor_le_floor (mul_le_mul_of_nonneg_left hlt.le (Int.cast_nonneg htotal))
    rw [getElem_apportion hi, getElem_apportion hj]
    rcases hcondition with hzero | hlargest
    · rw [hzero]
      split <;> split <;> omega
    · -- the part that absorbs the remainder is not the one of the smaller fraction
      have hne : index ≠ i := by
        rintro rfl
        exact absurd (hlargest _ (List.getElem_mem hj)) (not_le.mpr hlt)
      rw [if_neg hne]
      split <;> omega

end Floors

end Apportionment
