import Mathlib.Algebra.BigOperators.Ring.Finset
import ThalosBackend.Disputes.RoundedAmounts

/-!
# Shares in double precision

The percentages of an accepted list add up to little more than 100, whatever the doubles lose of them.
So the floored shares stay below `2 ^ 53` stroops in all, where sums of integers are exact, and with the
remainder the shares are whole stroops that add up to the total (`splitStroops_rounded`).
-/

set_option autoImplicit false

namespace ThalosBackend.Disputes

open ThalosBackend.Js
open Apportionment (addAt)
open Number (IsWhole abs_nearest_sub_le isWhole_finite isWhole_floor le_toDouble_add natCast_le_nearest
  nearest nearest_nonneg toDouble toDouble_intCast toDouble_natCast toDouble_of_lt toDouble_of_nonneg)

/-! ## The percentages -/

section Percentages

variable {allocations : List PercentageAllocation}

/-- A percentage between 0 and 100. -/
def InRange (a : PercentageAllocation) : Prop :=
  a.percentage = .finite a.percentage.toRat ∧ 0 ≤ a.percentage.toRat ∧ a.percentage.toRat ≤ 100

theorem inRange_of_ok {a : PercentageAllocation} (h : assertAllocation a = .ok ()) : InRange a := by
  unfold assertAllocation at h
  split at h
  · cases h
  · split at h
    · cases h
    · rename_i hfinite
      have hvalue := Number.eq_finite_of_isFinite (by simpa using hfinite)
      split at h
      · cases h
      · rename_i hrange
        rw [hvalue] at hrange
        simp only [Number.ofNat_eq, Number.lt_finite, Bool.or_eq_true, decide_eq_true_eq, not_or,
          not_lt] at hrange
        exact ⟨hvalue, by simpa using hrange.1, by simpa using hrange.2⟩

/-- A rounded sum of percentages does not fall below a whole number that it has reached. -/
theorem le_foldl_percentages {m : ℕ} {start : Number} (hm : m ≤ 2 ^ 53)
    (hall : ∀ a ∈ allocations, InRange a) (hstart : Number.le (.finite m) start = true) :
    Number.le (.finite m) (allocations.foldl (fun sum a => toDouble (sum + a.percentage)) start) =
      true := by
  induction allocations generalizing start with
  | nil => exact hstart
  | cons a rest ih =>
      obtain ⟨⟨hvalue, hnonneg, -⟩, hrest⟩ := List.forall_mem_cons.mp hall
      refine ih hrest (le_toDouble_add hm hstart ?_)
      rw [hvalue, Number.le_finite, decide_eq_true_eq]
      exact hnonneg

/-- Below 128 a rounded sum of percentages is off by little for each of them. -/
theorem sum_percentages_le_foldl {start total : ℚ} (hall : ∀ a ∈ allocations, InRange a)
    (hstart : 0 ≤ start) (hlt : total < 128)
    (h : allocations.foldl (fun sum a => toDouble (sum + a.percentage)) (.finite start) =
      .finite total) :
    start + (allocations.map (·.percentage.toRat)).sum ≤ total + allocations.length / 2 ^ 46 := by
  induction allocations generalizing start with
  | nil =>
      cases h
      simp
  | cons a rest ih =>
      -- a sum that has reached 128 does not fall below it, so no addition so far has passed 256
      have hbelow : start < 128 := by
        by_contra hover
        have hreached : Number.le (.finite ((128 : ℕ) : ℚ)) (.finite start) = true := by
          simpa using not_lt.mp hover
        have hle := le_foldl_percentages (by norm_num) hall hreached
        rw [h] at hle
        exact absurd hlt (by simpa using hle)
      obtain ⟨⟨hvalue, hnonneg, hmax⟩, hrest⟩ := List.forall_mem_cons.mp hall
      set q := start + a.percentage.toRat with hq
      have hq0 : 0 ≤ q := add_nonneg hstart hnonneg
      have hq256 : |q| < 2 ^ 8 := by
        rw [abs_of_nonneg hq0]
        norm_num
        linarith
      have herror := abs_nearest_sub_le (e := 8) (by norm_num) (by exact_mod_cast hq256)
      rw [List.foldl_cons, hvalue, Number.add_finite, ← hq, toDouble_of_lt (by norm_num) hq256] at h
      have hrec := ih hrest (nearest_nonneg hq0) h
      have hclose := (abs_le.mp herror).1
      norm_num at hclose
      rw [List.map_cons, List.sum_cons, List.length_cons]
      push_cast
      rw [add_div]
      have hexp : (1 : ℚ) / 2 ^ 46 = 1 / 70368744177664 := by norm_num
      linarith

theorem toDouble_percentageTolerance :
    toDouble (.finite percentageTolerance) = .finite (nearest percentageTolerance) :=
  toDouble_of_lt (e := 0) (by norm_num) (by norm_num [percentageTolerance])

/-- A rounded sum of percentages that is within the tolerance is below 101. -/
theorem percentageTotal_lt {total : ℚ}
    (h : Number.lt (toDouble (.finite percentageTolerance)) (toDouble (.finite total - 100)).abs =
      false) : total < 101 := by
  have hsmall : nearest percentageTolerance < 1 := by
    have herror := abs_nearest_sub_le (q := percentageTolerance) (e := 0) (by norm_num)
      (by norm_num [percentageTolerance])
    have := (abs_le.mp herror).2
    norm_num [percentageTolerance] at this ⊢
    linarith
  -- a difference of one or more stays so when it is rounded, and is beyond the tolerance
  by_contra hover
  rw [toDouble_percentageTolerance, Number.ofNat_eq, Number.sub_finite] at h
  have hone : ((1 : ℕ) : ℚ) ≤ total - (100 : ℕ) := by
    push_cast
    linarith
  rcases toDouble_of_nonneg ((Nat.cast_nonneg 1).trans hone) with hfinite | hinfinite
  · rw [hfinite, Number.abs_finite, Number.lt_finite, decide_eq_false_iff_not, not_lt] at h
    have hle := natCast_le_nearest (by norm_num) hone
    have habs := le_abs_self (nearest (total - (100 : ℕ)))
    push_cast at hle habs h
    linarith
  · rw [hinfinite] at h
    cases h

/-- **The percentages of an accepted list** add up to 100, or to little more. -/
theorem sum_percentages_le (h : assertAllocations allocations toDouble = .ok ())
    (hshort : allocations.length < 2 ^ 32) :
    (∀ a ∈ allocations, InRange a) ∧ allocations ≠ [] ∧
      (allocations.map (·.percentage.toRat)).sum ≤ 102 := by
  obtain ⟨hlength, heach, -, htotal⟩ := assertAllocations_ok h
  have hall := fun a ha => inRange_of_ok (assertEachAllocation_ok heach a ha)
  refine ⟨hall, fun hnil => hlength (by rw [hnil]; rfl), ?_⟩
  have hnonneg : Number.le (.finite 0) (percentageTotal allocations toDouble) = true := by
    have hzero : Number.le (.finite ((0 : ℕ) : ℚ)) 0 = true := by simp
    exact_mod_cast le_foldl_percentages (Nat.zero_le _) hall hzero
  cases hsum : percentageTotal allocations toDouble with
  | nan =>
      rw [hsum] at hnonneg
      cases hnonneg
  | infinity negative =>
      rw [hsum] at hnonneg htotal
      cases negative with
      | true => cases hnonneg
      -- no tolerance admits an infinite sum
      | false =>
          rw [toDouble_percentageTolerance] at htotal
          cases htotal
  | finite total =>
      rw [hsum] at htotal
      have hlt := percentageTotal_lt htotal
      have hle := sum_percentages_le_foldl hall le_rfl (by linarith : total < 128) hsum
      have hlen : (allocations.length : ℚ) / 2 ^ 46 ≤ 1 := by
        rw [div_le_one (by positivity)]
        have : (allocations.length : ℚ) < 2 ^ 32 := by exact_mod_cast hshort
        linarith
      linarith

end Percentages

/-! ## The shares -/

section Shares

variable {allocations : List PercentageAllocation} {T : ℕ}

/-- A floored share is a whole number of stroops, and little more than the exact one. -/
theorem floor_share {p : ℚ} (hT : T < toldStroops) (hp0 : 0 ≤ p) (hp : p ≤ 100) :
    ∃ n : ℕ, (toDouble ((toDouble (stroops T * .finite p)).divNat 100)).floor = stroops n ∧
      (n : ℚ) ≤ T * p / 100 + 2 := by
  have hT' : (T : ℚ) < 2 ^ 29 * 10 ^ 7 := by exact_mod_cast hT
  have hproduct : |(T : ℚ) * p| < 2 ^ 60 := by
    rw [abs_of_nonneg (by positivity)]
    calc (T : ℚ) * p ≤ T * 100 := mul_le_mul_of_nonneg_left hp (Nat.cast_nonneg _)
      _ < 2 ^ 60 := by linarith
  have herror := (abs_le.mp (abs_nearest_sub_le (e := 60) (by norm_num) (by exact_mod_cast hproduct))).2
  set q : ℚ := nearest (T * p) / 100 with hq
  have hq0 : 0 ≤ q := div_nonneg (nearest_nonneg (by positivity)) (by norm_num)
  norm_num at herror
  have hqle : q ≤ T * p / 100 + 64 / 100 := by
    rw [hq]
    linarith
  have hquotient : |q| < 2 ^ 54 := by
    rw [abs_of_nonneg hq0]
    have : (T : ℚ) * p ≤ T * 100 := mul_le_mul_of_nonneg_left hp (Nat.cast_nonneg _)
    linarith
  have herror' := (abs_le.mp (abs_nearest_sub_le (e := 54) (by norm_num)
    (by exact_mod_cast hquotient))).2
  norm_num at herror'
  obtain ⟨n, hn⟩ := Int.eq_ofNat_of_zero_le (Int.floor_nonneg.mpr (nearest_nonneg hq0))
  refine ⟨n, ?_, ?_⟩
  · rw [stroops, Int.cast_natCast, Number.mul_finite, toDouble_of_lt (by norm_num) hproduct,
      Number.divNat_finite, Nat.cast_ofNat, ← hq, toDouble_of_lt (by norm_num) hquotient,
      Number.floor_finite, hn]
    rfl
  · have hfloor := Int.floor_le (nearest q)
    rw [hn, Int.cast_natCast] at hfloor
    linarith

/-- The floored shares are whole, and add up to little more than the total. -/
theorem flooredShares_rounded (hT : T < toldStroops) (hall : ∀ a ∈ allocations, InRange a) :
    ∃ ns : List ℕ, flooredShares (stroops T) allocations toDouble =
        ns.map (fun n : ℕ => stroops n) ∧
      (ns.sum : ℚ) ≤ T * (allocations.map (·.percentage.toRat)).sum / 100 + 2 * allocations.length := by
  induction allocations with
  | nil => exact ⟨[], rfl, by simp⟩
  | cons a rest ih =>
      obtain ⟨⟨hvalue, hnonneg, hmax⟩, hrest⟩ := List.forall_mem_cons.mp hall
      obtain ⟨n, hn, hle⟩ := floor_share hT hnonneg hmax
      obtain ⟨ns, hns, hsum⟩ := ih hrest
      refine ⟨n :: ns, ?_, ?_⟩
      · rw [flooredShares] at hns ⊢
        rw [List.map_cons, hns, List.map_cons, hvalue, hn]
      · rw [List.sum_cons, List.map_cons, List.sum_cons, List.length_cons, Nat.cast_add,
          Nat.cast_succ, mul_add, mul_add, add_div]
        linarith

/-- The floored shares of an accepted list stay below `2 ^ 53` together. -/
theorem flooredShares_lt (hT : T < toldStroops) (hshort : allocations.length < 2 ^ 32)
    (h : assertAllocations allocations toDouble = .ok ()) :
    ∃ ns : List ℕ, flooredShares (stroops T) allocations toDouble =
        ns.map (fun n : ℕ => stroops n) ∧ ns.length = allocations.length ∧ ns.sum < 2 ^ 53 := by
  obtain ⟨hall, -, hpercent⟩ := sum_percentages_le h hshort
  obtain ⟨ns, hfloors, hsum⟩ := flooredShares_rounded hT hall
  refine ⟨ns, hfloors, ?_, ?_⟩
  · have hlength := congrArg List.length hfloors
    rwa [flooredShares, List.length_map, List.length_map, eq_comm] at hlength
  · -- at most 102 hundredths of the total, and two stroops for each recipient
    have hT' : (T : ℚ) < 2 ^ 29 * 10 ^ 7 := by exact_mod_cast hT
    have hcount : (allocations.length : ℚ) < 2 ^ 32 := by exact_mod_cast hshort
    have hweighted : (T : ℚ) * (allocations.map (·.percentage.toRat)).sum ≤ T * 102 :=
      mul_le_mul_of_nonneg_left hpercent (Nat.cast_nonneg _)
    have hlt : (ns.sum : ℚ) < 2 ^ 53 := by linarith
    exact_mod_cast hlt

/-- Sums of whole stroops below `2 ^ 53` are exact. -/
theorem foldl_toDouble {ns : List ℕ} {start : ℕ} (h : start + ns.sum < 2 ^ 53) :
    (ns.map (fun n : ℕ => stroops n)).foldl (fun sum share => toDouble (sum + share)) (stroops start) =
      stroops (start + ns.sum : ℕ) := by
  induction ns generalizing start with
  | nil => rfl
  | cons n ns ih =>
      rw [List.sum_cons] at h
      have hstep : toDouble (stroops start + stroops n) = stroops (start + n : ℕ) := by
        rw [stroops_add, ← Nat.cast_add, stroops, Int.cast_natCast, toDouble_natCast (by omega)]
      rw [List.map_cons, List.foldl_cons, hstep, ih (by omega), List.sum_cons, add_assoc]

/-- **The shares are whole stroops and add up to the total.** -/
theorem splitStroops_rounded (hT : T < toldStroops) (hshort : allocations.length < 2 ^ 32)
    (h : assertAllocations allocations toDouble = .ok ()) :
    ∃ ks : List ℤ, splitStroops (stroops T) allocations toDouble = ks.map stroops ∧ ks.sum = T ∧
      ks.length = allocations.length := by
  obtain ⟨-, hne, -⟩ := sum_percentages_le h hshort
  obtain ⟨ns, hfloors, hlength, hsum53⟩ := flooredShares_lt hT hshort h
  have hT53 : T < 2 ^ 53 := hT.trans (by norm_num [toldStroops])
  have hfold : (ns.map (fun n : ℕ => stroops n)).foldl (fun sum share => toDouble (sum + share)) 0 =
      stroops ns.sum := by
    have hzero : 0 + ns.sum < 2 ^ 53 := by omega
    simpa using foldl_toDouble hzero
  have hremainder : toDouble (stroops T - stroops ns.sum) = stroops (T - ns.sum) := by
    rw [stroops_sub, stroops, toDouble_intCast (abs_lt.mpr (by constructor <;> omega))]
  set ks : List ℤ := ns.map Int.ofNat with hks
  have hmap : ns.map (fun n : ℕ => stroops n) = ks.map stroops := by
    rw [hks, List.map_map]
    rfl
  have hkssum : ks.sum = ns.sum := by
    rw [hks]
    exact (Nat.cast_list_sum (R := ℤ) ns).symm
  have hkslength : ks.length = allocations.length := by rw [hks, List.length_map, hlength]
  unfold splitStroops
  dsimp only
  rw [hfloors, hfold, hremainder, hmap]
  split
  · rename_i hzero
    rw [← stroops_zero, stroops_inj] at hzero
    exact ⟨ks, rfl, by omega, hkslength⟩
  · -- the remainder goes to one share, which stays small
    have hlargest : largestShare (ks.map stroops) < ks.length := by
      have hpos : 0 < (ks.map stroops).length := by
        rw [List.length_map, hkslength]
        exact List.length_pos_iff.mpr hne
      simpa [largestShare] using Apportionment.scanLargest_lt hpos
    have hsmall : ∀ k ∈ ks, toDouble (stroops (k + (T - ns.sum))) = stroops (k + (T - ns.sum)) := by
      intro k hk
      obtain ⟨n, hn, rfl⟩ := List.mem_map.mp hk
      have hle : n ≤ ns.sum := List.single_le_sum (fun _ _ => Nat.zero_le _) n hn
      refine toDouble_intCast (abs_lt.mpr ?_)
      rw [Int.ofNat_eq_natCast]
      omega
    refine ⟨addAt ks (largestShare (ks.map stroops)) (T - ns.sum), modify_stroops hsmall _, ?_,
      by simpa using hkslength⟩
    rw [Apportionment.sum_addAt _ _ _ hlargest, hkssum]
    omega

end Shares

/-! ## Shares of any total -/

theorem isWhole_foldl {shares : List Number} {start : Number} (hstart : IsWhole start)
    (hshares : ∀ share ∈ shares, IsWhole share) :
    IsWhole (shares.foldl (fun sum share => toDouble (sum + share)) start) := by
  induction shares generalizing start with
  | nil => exact hstart
  | cons share shares ih =>
      obtain ⟨hshare, hrest⟩ := List.forall_mem_cons.mp hshares
      exact ih (hstart.add hshare).toDouble hrest

/-- The shares of whole stroops are whole stroops. -/
theorem isWhole_splitStroops {T : Number} {allocations : List PercentageAllocation}
    (hT : IsWhole T) : ∀ share ∈ splitStroops T allocations toDouble, IsWhole share := by
  have hfloors : ∀ share ∈ flooredShares T allocations toDouble, IsWhole share := by
    intro share hshare
    obtain ⟨a, -, rfl⟩ := List.mem_map.mp hshare
    exact isWhole_floor _
  have hzero : IsWhole 0 := by
    rw [Number.ofNat_eq, ← Int.cast_natCast]
    exact isWhole_finite _
  unfold splitStroops
  dsimp only
  split
  · exact hfloors
  · intro share hshare
    obtain ⟨i, hi, rfl⟩ := List.getElem_of_mem hshare
    rw [List.getElem_modify]
    split
    · have hremainder := (hT.add (isWhole_foldl hzero hfloors).neg).toDouble
      exact ((hfloors _ (List.getElem_mem _)).add hremainder).toDouble
    · exact hfloors _ (List.getElem_mem _)

end ThalosBackend.Disputes
