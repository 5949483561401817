import Mathlib.Algebra.BigOperators.Ring.List
import Mathlib.Data.List.GetD
import Mathlib.Tactic.NormNum
import Mathlib.Tactic.FieldSimp
import ThalosBackend.Disputes.DisputeDistributions

/-!
# Conservation of the dispute split

`buildDistributions` pays out exactly the stroops of its total. The percentages are only required to
sum to 100 within `1e-9`, so the floored shares can exceed the total and the remainder handed to
the largest share can be negative. The shares are `Apportionment.apportion` of the total by the
fractions `percentage / 100` (`splitStroops_eq_apportion`), and the fractions exceed one by at most
`1e-11`; with fewer than `2 ^ 32` allocations `Apportionment.absorbing_part_pos` applies, so every
share is non-negative and dropping the zeros loses nothing.
-/

set_option autoImplicit false

namespace ThalosBackend.Disputes

open ThalosBackend.Js
open Apportionment (floors addAt remainder apportion scanLargest)

/-! ## What the checks on the allocations leave -/

/-- The fraction of the total that an allocation takes. -/
def fraction (a : PercentageAllocation) : ℚ := a.percentage.toRat / 100

/-- What `assertAllocations` guarantees, in exact arithmetic. -/
structure Admissible (allocations : List PercentageAllocation) : Prop where
  nonempty : 0 < allocations.length
  finite : ∀ a ∈ allocations, a.percentage = .finite (100 * fraction a)
  nonneg : ∀ a ∈ allocations, 0 ≤ fraction a
  distinct : (trimmedAddresses allocations).Nodup
  total : |(allocations.map fraction).sum - 1| ≤ 1 / 10 ^ 11

theorem assertAllocation_ok {a : PercentageAllocation} (h : assertAllocation a = .ok ()) :
    a.percentage = .finite (100 * fraction a) ∧ 0 ≤ fraction a := by
  unfold assertAllocation at h
  split at h
  · cases h
  · split at h
    · cases h
    · rename_i hfin
      have hp := Number.eq_finite_of_isFinite (by simpa using hfin)
      split at h
      · cases h
      · rename_i hrange
        rw [hp] at hrange
        simp only [Number.ofNat_eq, Number.lt_finite, Bool.or_eq_true, decide_eq_true_eq,
          not_or, not_lt] at hrange
        constructor
        · rw [fraction, mul_div_cancel₀ _ (by norm_num)]
          exact hp
        · exact div_nonneg (by simpa using hrange.1) (by norm_num)

theorem assertEachAllocation_ok : ∀ {allocations : List PercentageAllocation},
    assertEachAllocation allocations = .ok () → ∀ a ∈ allocations, assertAllocation a = .ok ()
  | [], _, a, ha => absurd ha List.not_mem_nil
  | b :: rest, h, a, ha => by
      unfold assertEachAllocation at h
      split at h
      · cases h
      · rename_i hb
        rcases List.mem_cons.mp ha with rfl | hrest
        · exact hb
        · exact assertEachAllocation_ok h a hrest

/-- The sum of the percentages of finite allocations, as a sum of fractions. -/
theorem percentageTotal_eq {allocations : List PercentageAllocation}
    (h : ∀ a ∈ allocations, a.percentage = .finite (100 * fraction a)) :
    percentageTotal allocations = .finite (100 * (allocations.map fraction).sum) := by
  have hmap : allocations.map (·.percentage) =
      (allocations.map fun a => 100 * fraction a).map Number.finite := by
    rw [List.map_map]
    exact List.map_congr_left h
  have hfold : percentageTotal allocations =
      (allocations.map (·.percentage)).foldl (· + ·) (Number.finite 0) := by
    rw [List.foldl_map]
    rfl
  rw [hfold, hmap, Number.foldl_add_finite, zero_add, List.sum_map_mul_left]

/-- What an accepted list has passed. -/
theorem assertAllocations_ok {allocations : List PercentageAllocation} {rounded : Number → Number}
    (h : assertAllocations allocations rounded = .ok ()) :
    allocations.length ≠ 0 ∧ assertEachAllocation allocations = .ok () ∧
      (trimmedAddresses allocations).dedup.length = (trimmedAddresses allocations).length ∧
      Number.lt (rounded (.finite percentageTolerance))
        (rounded (percentageTotal allocations rounded - 100)).abs = false := by
  unfold assertAllocations at h
  split at h
  · cases h
  · rename_i hlength
    split at h
    · cases h
    · rename_i heach
      split at h
      · cases h
      · rename_i hdedup
        split at h
        · cases h
        · rename_i htotal
          exact ⟨hlength, heach, not_not.mp hdedup, by simpa using htotal⟩

/-- The lists that `assertAllocations` accepts are admissible. -/
theorem admissible_of_ok {allocations : List PercentageAllocation}
    (h : assertAllocations allocations = .ok ()) : Admissible allocations := by
  obtain ⟨hlength, heach, hdedup, htotal⟩ := assertAllocations_ok h
  have hall := fun a ha => assertAllocation_ok (assertEachAllocation_ok heach a ha)
  refine ⟨by omega, fun a ha => (hall a ha).1, fun a ha => (hall a ha).2, ?_, ?_⟩
  · rw [← List.dedup_eq_self]
    exact (List.dedup_sublist _).eq_of_length hdedup
  · rw [percentageTotal_eq fun a ha => (hall a ha).1] at htotal
    simp only [Number.ofNat_eq, Number.sub_finite, Number.abs_finite, Number.lt_finite,
      decide_eq_false_iff_not, not_lt, percentageTolerance, Nat.cast_ofNat] at htotal
    rw [abs_le] at htotal ⊢
    norm_num at htotal ⊢
    constructor <;> linarith [htotal.1, htotal.2]

/-! ## The shares -/

/-- Whole stroops as a number. -/
def stroops (k : ℤ) : Number := .finite k

@[simp] theorem stroops_inj {j k : ℤ} : stroops j = stroops k ↔ j = k := by simp [stroops]

@[simp] theorem stroops_zero : stroops 0 = 0 := by simp [stroops]

@[simp] theorem stroops_add (j k : ℤ) : stroops j + stroops k = stroops (j + k) := by
  simp [stroops]

@[simp] theorem stroops_sub (j k : ℤ) : stroops j - stroops k = stroops (j - k) := by
  simp [stroops]

@[simp] theorem lt_stroops (j k : ℤ) : Number.lt (stroops j) (stroops k) = decide (j < k) := by
  simp [stroops]

theorem flooredShares_eq {allocations : List PercentageAllocation} (h : Admissible allocations)
    (T : ℤ) :
    flooredShares (stroops T) allocations = (floors T (allocations.map fraction)).map stroops := by
  rw [flooredShares, floors, List.map_map, List.map_map]
  refine List.map_congr_left fun a ha => ?_
  rw [h.finite a ha]
  simp only [stroops, Number.mul_finite, Number.divNat_finite, Number.floor_finite,
    Function.comp_apply, Nat.cast_ofNat]
  congr 3
  ring

theorem foldl_stroops (ks : List ℤ) (start : ℤ) :
    (ks.map stroops).foldl (· + ·) (stroops start) = stroops (start + ks.sum) := by
  induction ks generalizing start with
  | nil => simp
  | cons k ks ih =>
      simp only [List.map_cons, List.foldl_cons, stroops_add, ih, List.sum_cons, add_assoc]

/-- The scan compares whole stroops as integers. -/
theorem beats_stroops_iff (ks : List ℤ) (i j : ℕ) :
    Number.lt ((ks.map stroops).getD j 0) ((ks.map stroops).getD i 0) = true ↔
      ks.getD j 0 < ks.getD i 0 := by
  rw [← stroops_zero, List.getD_map, List.getD_map, lt_stroops, decide_eq_true_iff]

/-- The leftover stroops reach one share, when the rounding leaves that share as it is. -/
theorem modify_stroops {rounded : Number → Number} {ks : List ℤ} {extra : ℤ}
    (h : ∀ k ∈ ks, rounded (stroops (k + extra)) = stroops (k + extra)) (index : ℕ) :
    (ks.map stroops).modify index (fun share => rounded (share + stroops extra)) =
      (addAt ks index extra).map stroops := by
  apply List.ext_getElem
  · simp [addAt]
  · intro i h₁ h₂
    simp only [addAt, List.getElem_modify, List.getElem_map]
    split
    · rw [stroops_add, h _ (List.getElem_mem _)]
    · rfl

/-- **The shares are an apportionment** of the total, with the remainder on the first entry that no
floor exceeds. -/
theorem splitStroops_eq_apportion {allocations : List PercentageAllocation}
    (h : Admissible allocations) (T : ℤ) :
    ∃ index, ∃ hi : index < (floors T (allocations.map fraction)).length,
      (∀ x ∈ floors T (allocations.map fraction),
        x ≤ (floors T (allocations.map fraction))[index]) ∧
      (∀ j (hj : j < index), (floors T (allocations.map fraction))[j] <
        (floors T (allocations.map fraction))[index]) ∧
      splitStroops (stroops T) allocations =
        (apportion T (allocations.map fraction) index).map stroops := by
  set ks := floors T (allocations.map fraction) with hks
  have hlen : 0 < ks.length := by simpa [hks] using h.nonempty
  have hlt : Apportionment.scanLargest (fun i largest =>
      Number.lt ((ks.map stroops).getD largest 0) ((ks.map stroops).getD i 0)) ks.length <
        ks.length := Apportionment.scanLargest_lt hlen
  refine ⟨largestShare (ks.map stroops), ?_, ?_, ?_, ?_⟩
  · rw [largestShare, List.length_map]
    exact hlt
  · intro x hx
    obtain ⟨i, hi, rfl⟩ := List.getElem_of_mem hx
    have hle := Apportionment.le_key_scanLargest (beats_stroops_iff ks) hi
    rw [List.getD_eq_getElem _ _ hi, List.getD_eq_getElem _ _ hlt] at hle
    simpa [largestShare] using hle
  · intro j hj
    have hj' : j < Apportionment.scanLargest (fun i largest =>
        Number.lt ((ks.map stroops).getD largest 0) ((ks.map stroops).getD i 0)) ks.length := by
      simpa [largestShare] using hj
    have hless := Apportionment.key_lt_key_scanLargest (beats_stroops_iff ks) hj'
    rw [List.getD_eq_getElem _ _ (hj'.trans hlt), List.getD_eq_getElem _ _ hlt] at hless
    simpa [largestShare] using hless
  · -- the sum of whole stroops is exact
    have hrem : stroops T - (ks.map stroops).foldl (· + ·) 0 =
        stroops (remainder T (allocations.map fraction)) := by
      rw [← stroops_zero, foldl_stroops, zero_add, stroops_sub, remainder]
    rw [splitStroops, flooredShares_eq h, hrem, apportion]
    split
    · rename_i hzero
      have : remainder T (allocations.map fraction) = 0 := by
        rw [← stroops_zero] at hzero
        exact stroops_inj.mp hzero
      rw [this, Apportionment.addAt_zero]
    · exact @modify_stroops (fun x => x) _ _ (fun _ _ => rfl) _

/-- No share is negative: the largest one absorbs a negative remainder. -/
theorem apportion_nonneg {allocations : List PercentageAllocation} (h : Admissible allocations)
    (hshort : allocations.length < 2 ^ 32) {T : ℤ} (hT : 0 < T) {index : ℕ}
    (hi : index < (floors T (allocations.map fraction)).length)
    (hmax : ∀ x ∈ floors T (allocations.map fraction),
      x ≤ (floors T (allocations.map fraction))[index]) :
    ∀ x ∈ apportion T (allocations.map fraction) index, 0 ≤ x := by
  have hfloors : ∀ x ∈ floors T (allocations.map fraction), 0 ≤ x :=
    Apportionment.floors_nonneg hT.le fun p hp => by
      obtain ⟨a, ha, rfl⟩ := List.mem_map.mp hp
      exact h.nonneg a ha
  have hsum : (allocations.map fraction).sum ≤ 1 + 1 / 10 ^ 11 := by
    have := (abs_le.mp h.total).2
    linarith
  have hexcess : ((allocations.map fraction).length : ℚ) * (1 / 10 ^ 11) ≤ 1 := by
    have hcast : (allocations.length : ℚ) < 2 ^ 32 := by exact_mod_cast hshort
    rw [List.length_map, mul_one_div, div_le_one (by norm_num)]
    exact hcast.le.trans (by norm_num)
  have hpos := Apportionment.absorbing_part_pos hT (hfloors _ (List.getElem_mem hi)) hmax hsum
    hexcess
  intro x hx
  obtain ⟨i, hi', rfl⟩ := List.getElem_of_mem hx
  simp only [apportion, addAt, List.getElem_modify]
  split
  · rename_i heq
    subst heq
    exact hpos.le
  · exact hfloors _ (List.getElem_mem _)

/-! ## The distributions -/

@[simp] theorem fromStroops_stroops (k : ℤ) :
    fromStroops (stroops k) = .finite (k / 10 ^ 7) := by
  have h : (k : ℚ) / (stroopsPerUnit : ℕ) * 10 ^ 7 + 1 / 2 = (k : ℚ) + 1 / 2 := by
    norm_num [stroopsPerUnit]
  simp only [fromStroops, stroops, Number.divNat_finite, Number.toFixed_finite, h,
    Number.floor_add_half_intCast]

theorem toStroops_fromStroops (k : ℤ) (field : String) :
    toStroops (fromStroops (stroops k)) field = .ok (stroops k) := by
  have h : (k : ℚ) / 10 ^ 7 * (stroopsPerUnit : ℕ) = k := by
    norm_num [stroopsPerUnit]
  rw [fromStroops_stroops, toStroops, Number.isFinite_finite, if_pos rfl, Number.mul_finite, h,
    Number.round_finite, Number.floor_add_half_intCast, stroops]

/-- Back in stroops, the distributions add up to the positive shares. -/
theorem sumStroops_map (entries : List (String × ℤ)) (start : ℤ) :
    sumStroops (entries.map fun e => ⟨e.1, fromStroops (stroops e.2)⟩) (stroops start) =
      .ok (stroops (start + (entries.map Prod.snd).sum)) := by
  induction entries generalizing start with
  | nil => simp [sumStroops]
  | cons e rest ih =>
      simp only [List.map_cons, sumStroops, toStroops_fromStroops, stroops_add, ih,
        List.sum_cons, add_assoc]

/-- The entries of the positive shares, as integers. -/
def positiveEntries (allocations : List PercentageAllocation) (shares : List ℤ) :
    List (String × ℤ) :=
  (List.zip (trimmedAddresses allocations) shares).filter fun e => 0 < e.2

theorem positiveDistributions_eq (allocations : List PercentageAllocation) (shares : List ℤ) :
    positiveDistributions allocations (shares.map stroops) =
      (positiveEntries allocations shares).map fun e => ⟨e.1, fromStroops (stroops e.2)⟩ := by
  have hzip : List.zipWith (fun a s => (trim a.address, s)) allocations (shares.map stroops) =
      (List.zip (trimmedAddresses allocations) shares).map fun e => (e.1, stroops e.2) := by
    rw [trimmedAddresses, List.zip_map_left, List.map_map, List.zipWith_map_right, List.zip,
      List.map_zipWith]
    rfl
  simp only [positiveDistributions, positiveEntries, hzip, List.filter_map, List.map_map]
  congr 1
  refine List.filter_congr fun e _ => ?_
  simp [stroops]

/-- Dropping the zeros of a list without negative entries keeps its sum. -/
theorem sum_positiveEntries {allocations : List PercentageAllocation} {shares : List ℤ}
    (hlen : shares.length = allocations.length) (hnonneg : ∀ x ∈ shares, 0 ≤ x) :
    ((positiveEntries allocations shares).map Prod.snd).sum = shares.sum := by
  have hsnd : (List.zip (trimmedAddresses allocations) shares).map Prod.snd = shares :=
    List.map_snd_zip (by simp [trimmedAddresses, hlen])
  have hkeep : ∀ entries : List (String × ℤ), (∀ e ∈ entries, 0 ≤ e.2) →
      ((entries.filter fun e => 0 < e.2).map Prod.snd).sum = (entries.map Prod.snd).sum := by
    intro entries
    induction entries with
    | nil => simp
    | cons e rest ih =>
        intro hpos
        have hrest := ih fun e' he' => hpos e' (List.mem_cons_of_mem _ he')
        have he := hpos e List.mem_cons_self
        by_cases h : 0 < e.2
        · simp [h, hrest]
        · have : e.2 = 0 := by omega
          simp [this, hrest]
  rw [positiveEntries, hkeep, hsnd]
  intro e he
  exact hnonneg e.2 (by rw [← hsnd]; exact List.mem_map_of_mem he)

theorem addresses_sublist (allocations : List PercentageAllocation) (shares : List ℤ) :
    ((positiveEntries allocations shares).map Prod.fst).Sublist (trimmedAddresses allocations) := by
  have hfst : ∀ (xs : List String) (ys : List ℤ), ((List.zip xs ys).map Prod.fst).Sublist xs := by
    intro xs
    induction xs with
    | nil => intro ys; simp
    | cons x xs ih =>
        intro ys
        cases ys with
        | nil => simp
        | cons y ys => simpa using ih ys
  exact ((List.filter_sublist).map Prod.fst).trans (hfst _ _)

/-! ## The result -/

/-- **Conservation of the dispute split.** On allocations that pass `assertAllocations` and a total
of a positive number of stroops, `buildDistributions` returns distributions with positive amounts
to distinct addresses, in the order of the request, whose stroops add up to those of the total. -/
theorem buildDistributions_conserves (escrowType : EscrowKind) (total : Number)
    (allocations : List PercentageAllocation) {totalStroops : Number}
    (hshort : allocations.length < 2 ^ 32) (haccepted : assertAllocations allocations = .ok ())
    (htotal : toStroops total "total" = .ok totalStroops)
    (hpositive : Number.lt 0 totalStroops = true) :
    ∃ distributions, buildDistributions ⟨escrowType, total, allocations⟩ = .ok distributions ∧
      (∀ d ∈ distributions, Number.lt 0 d.amount = true) ∧
      (distributions.map Distribution.address).Nodup ∧
      (distributions.map Distribution.address).Sublist (trimmedAddresses allocations) ∧
      sumStroops distributions 0 = .ok totalStroops := by
  have hadm := admissible_of_ok haccepted
  -- the total is a positive whole number of stroops
  obtain ⟨T, rfl⟩ : ∃ T : ℤ, totalStroops = stroops T := by
    unfold toStroops at htotal
    split at htotal
    · rename_i hfin
      rw [Number.eq_finite_of_isFinite hfin] at htotal
      exact ⟨_, (Except.ok.inj htotal).symm⟩
    · cases htotal
  have hT : 0 < T := by
    rw [← stroops_zero, lt_stroops] at hpositive
    exact of_decide_eq_true hpositive
  obtain ⟨index, hi, hmax, -, hsplit⟩ := splitStroops_eq_apportion hadm T
  set shares := apportion T (allocations.map fraction) index with hshares
  have hnonneg : ∀ x ∈ shares, 0 ≤ x := apportion_nonneg hadm hshort hT hi hmax
  have hsharesSum : shares.sum = T := Apportionment.sum_apportion (by simpa using hi)
  have hlen : shares.length = allocations.length := by simp [hshares, apportion]
  set entries := positiveEntries allocations shares with hentries
  have hdist : positiveDistributions allocations (splitStroops (stroops T) allocations) =
      entries.map fun e => ⟨e.1, fromStroops (stroops e.2)⟩ := by
    rw [hsplit, positiveDistributions_eq]
  have hsum : sumStroops (entries.map fun e => ⟨e.1, fromStroops (stroops e.2)⟩) 0 =
      .ok (stroops T) := by
    have h := sumStroops_map entries 0
    rwa [sum_positiveEntries hlen hnonneg, hsharesSum, zero_add, stroops_zero] at h
  have hne : entries.length ≠ 0 := by
    intro h0
    have hnil := List.length_eq_zero_iff.mp h0
    have h := sum_positiveEntries hlen hnonneg
    rw [← hentries, hnil, hsharesSum] at h
    simp at h
    omega
  refine ⟨entries.map fun e => ⟨e.1, fromStroops (stroops e.2)⟩, ?_, ?_, ?_, ?_, hsum⟩
  · have hle : Number.le (stroops T) 0 = false := by simp [stroops, hT]
    have hcontract : assertWithinContract escrowType
        (entries.map fun e => ⟨e.1, fromStroops (stroops e.2)⟩) (stroops T) = .ok () := by
      rw [assertWithinContract, hsum]
      simp
    simp only [buildDistributions, haccepted, htotal, hle, hdist, List.length_map, hne, hcontract,
      Bool.false_eq_true, if_false]
  · intro d hd
    obtain ⟨e, he, rfl⟩ := List.mem_map.mp hd
    have hpos : 0 < e.2 := by simpa using (List.mem_filter.mp he).2
    simp [hpos]
  · rw [List.map_map]
    exact ((addresses_sublist allocations shares).nodup hadm.distinct)
  · rw [List.map_map]
    exact addresses_sublist allocations shares

/-- Two halves that exceed 100 by `9e-10` percent: on a million units the floors exceed the total by
90 stroops, which the larger half gives back. -/
theorem buildDistributions_conserves_over_tolerance :
    ∃ distributions, buildDistributions ⟨.singleRelease, 1000000,
        [⟨"GAPPROVER", .finite (50 + 5 / 10 ^ 10)⟩, ⟨" GPROVIDER", .finite (50 + 4 / 10 ^ 10)⟩]⟩ =
          .ok distributions ∧
      (∀ d ∈ distributions, Number.lt 0 d.amount = true) ∧
      (distributions.map Distribution.address).Nodup ∧
      (distributions.map Distribution.address).Sublist (trimmedAddresses
        [⟨"GAPPROVER", .finite (50 + 5 / 10 ^ 10)⟩, ⟨" GPROVIDER", .finite (50 + 4 / 10 ^ 10)⟩]) ∧
      sumStroops distributions 0 = .ok (stroops 10000000000000) :=
  buildDistributions_conserves .singleRelease 1000000
    [⟨"GAPPROVER", .finite (50 + 5 / 10 ^ 10)⟩, ⟨" GPROVIDER", .finite (50 + 4 / 10 ^ 10)⟩]
    (by decide) (by decide +kernel) (by decide +kernel) (by decide +kernel)

end ThalosBackend.Disputes
