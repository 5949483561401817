import ThalosBackend.Disputes.RoundedShares

/-!
# The split in double precision

The source computes the split with doubles, and a share can then differ from the exact one. What is
paid out of less than `2 ^ 29` units is still the number of stroops that `toStroops` makes of the total
(`paidStroops_eq`): it is not less, because the shares add up to that number and none that is positive
is dropped, and it is not more, because the check at the end would have refused it.
-/

set_option autoImplicit false

namespace ThalosBackend.Disputes

open ThalosBackend.Js
open Number (IsWhole isWhole_round le_toDouble_add natCast_le_toDouble nearest nearest_nonneg toDouble
  toDouble_natCast)

/-- What the distributions pay out, to the stroop. -/
def paidStroops (distributions : List Distribution) : ℤ :=
  (distributions.map fun d => inStroops d.amount).sum

/-! ## The distributions -/

/-- The amounts of a split come out of `fromStroops`. -/
theorem mem_positiveDistributions {allocations : List PercentageAllocation} {shares : List Number}
    {rounded : Number → Number} {d : Distribution}
    (h : d ∈ positiveDistributions allocations shares rounded) :
    ∃ share ∈ shares, Number.lt 0 share = true ∧ d.amount = fromStroops share rounded := by
  obtain ⟨entry, hentry, rfl⟩ := List.mem_map.mp h
  obtain ⟨hzip, hpos⟩ := List.mem_filter.mp hentry
  obtain ⟨i, hi, rfl⟩ := List.getElem_of_mem hzip
  rw [List.getElem_zipWith] at hpos ⊢
  exact ⟨_, List.getElem_mem _, hpos, rfl⟩

/-- A share is dropped, or becomes a distribution. -/
theorem positiveDistributions_cons {allocations : List PercentageAllocation}
    (a : PercentageAllocation) (share : Number) (shares : List Number)
    (rounded : Number → Number) :
    positiveDistributions (a :: allocations) (share :: shares) rounded =
      if Number.lt 0 share then ⟨trim a.address, fromStroops share rounded⟩ ::
        positiveDistributions allocations shares rounded
      else positiveDistributions allocations shares rounded := by
  simp only [positiveDistributions, List.zipWith_cons_cons, List.filter_cons]
  split <;> rfl

/-- What is paid out of whole shares is not less than their sum, below `2 ^ 29` units. -/
theorem min_le_paidStroops {allocations : List PercentageAllocation} {ks : List ℤ}
    (hlength : ks.length = allocations.length)
    (hfinite : ∀ d ∈ positiveDistributions allocations (ks.map stroops) toDouble,
      d.amount.isFinite = true) :
    0 ≤ paidStroops (positiveDistributions allocations (ks.map stroops) toDouble) ∧
      min ks.sum toldStroops ≤
        paidStroops (positiveDistributions allocations (ks.map stroops) toDouble) := by
  induction allocations generalizing ks with
  | nil =>
      obtain rfl := List.length_eq_zero_iff.mp hlength
      exact ⟨le_rfl, min_le_left _ _⟩
  | cons a rest ih =>
      cases ks with
      | nil => cases hlength
      | cons k ks =>
          have hrest := Nat.succ.inj hlength
          rw [List.map_cons, positiveDistributions_cons] at hfinite ⊢
          have hlt : Number.lt 0 (stroops k) = decide (0 < k) := by
            rw [← stroops_zero, lt_stroops]
          rw [hlt] at hfinite ⊢
          rw [List.sum_cons]
          by_cases hk : 0 < k
          · rw [decide_eq_true hk, if_pos rfl] at hfinite ⊢
            obtain ⟨hhead, htail⟩ := List.forall_mem_cons.mp hfinite
            obtain ⟨hnonneg, hle⟩ := ih hrest htail
            have hshare := min_le_inStroops hk hhead
            rw [paidStroops] at hnonneg hle ⊢
            rw [List.map_cons, List.sum_cons]
            dsimp only
            omega
          · rw [decide_eq_false hk, if_neg Bool.false_ne_true] at hfinite ⊢
            obtain ⟨hnonneg, hle⟩ := ih hrest hfinite
            exact ⟨hnonneg, by omega⟩

/-! ## What the check adds up -/

section Sums

variable {distributions : List Distribution}

/-- What the check at the end adds up are finite amounts. -/
theorem isFinite_of_sumStroops {rounded : Number → Number} {start sum : Number}
    (h : sumStroops distributions start rounded = .ok sum) :
    ∀ d ∈ distributions, d.amount.isFinite = true := by
  induction distributions generalizing start with
  | nil => exact fun d hd => absurd hd List.not_mem_nil
  | cons d rest ih =>
      unfold sumStroops at h
      split at h
      · cases h
      · rename_i stroops hstroops
        refine List.forall_mem_cons.mpr ⟨?_, ih h⟩
        unfold toStroops at hstroops
        split at hstroops
        · assumption
        · cases hstroops

/-- The sum of the check does not fall either. -/
theorem le_sumStroops {m : ℕ} {start sum : Number} (hm : m ≤ 2 ^ 53)
    (hds : ∀ d ∈ distributions, IsAmount d.amount) (hstart : Number.le (.finite m) start = true)
    (h : sumStroops distributions start toDouble = .ok sum) :
    Number.le (.finite m) sum = true := by
  induction distributions generalizing start with
  | nil =>
      cases h
      exact hstart
  | cons d rest ih =>
      obtain ⟨hd, hrest⟩ := List.forall_mem_cons.mp hds
      obtain ⟨n, hn⟩ := hd
      unfold sumStroops at h
      split at h
      · cases h
      · rename_i stroops hstroops
        rw [hn] at hstroops
        have hnonneg := toStroops_nonneg (nearest_nonneg (by positivity)) hstroops
        exact ih hrest (le_toDouble_add hm hstart hnonneg) h

/-- **The check does not add up to less than is paid out**, when it adds up to less than `2 ^ 29`
units. -/
theorem paidStroops_le_sum {start total : ℕ} {sum : Number} (htotal : total < toldStroops)
    (hds : ∀ d ∈ distributions, IsAmount d.amount)
    (h : sumStroops distributions (.finite start) toDouble = .ok sum)
    (hsum : sum.le (.finite total) = true) : start + paidStroops distributions ≤ total := by
  have hlimit : total + 1 ≤ 2 ^ 53 :=
    (Nat.succ_le_of_lt htotal).trans (by norm_num [toldStroops])
  -- a sum that has passed the total stays there
  have hpassed : ¬ Number.le (.finite ((total + 1 : ℕ) : ℚ)) sum = true := fun hover => by
    have hle : ((total + 1 : ℕ) : ℚ) ≤ total := Number.le_of_finite_le hover hsum
    exact absurd (Nat.cast_le.mp hle) (by omega)
  induction distributions generalizing start with
  | nil =>
      cases h
      rw [Number.le_finite, decide_eq_true_eq] at hsum
      simpa [paidStroops] using hsum
  | cons d rest ih =>
      obtain ⟨⟨n, hn⟩, hrest⟩ := List.forall_mem_cons.mp hds
      unfold sumStroops at h
      split at h
      · cases h
      · rename_i stroops hstroops
        rw [hn] at hstroops
        by_cases htold : n < toldStroops
        · -- its stroops, or one more, are added without rounding as long as the total is not passed
          obtain ⟨t, ht, hnt, -⟩ := toStroops_nearest "amount" htold
          rw [ht] at hstroops
          cases hstroops
          rw [Number.add_finite, ← Nat.cast_add] at h
          by_cases hnext : start + t ≤ total
          · rw [toDouble_natCast (by omega)] at h
            have hle := ih hrest h
            rw [paidStroops, List.map_cons, List.sum_cons, hn, inStroops_nearest htold]
            rw [paidStroops, Nat.cast_add] at hle
            omega
          · have hle : ((total + 1 : ℕ) : ℚ) ≤ (start + t : ℕ) := by exact_mod_cast (by omega)
            exact absurd (le_sumStroops hlimit hrest (natCast_le_toDouble hlimit hle) h) hpassed
        · -- an amount from `2 ^ 29` units on passes the total at once
          have hlarge := toldStroops_le_toStroops (not_lt.mp htold) hstroops
          have hle : ((total + 1 : ℕ) : ℚ) ≤ toldStroops := by exact_mod_cast htotal
          have hstart : Number.le (.finite 0) (.finite (start : ℚ)) = true := by simp
          have hnext := le_toDouble_add hlimit (Number.finite_le_of_le hle hlarge) hstart
          rw [Number.add_comm] at hnext
          exact absurd (le_sumStroops hlimit hrest hnext h) hpassed

end Sums

/-! ## The result -/

section Build

variable {input : BuildDistributionsInput} {rounded : Number → Number}
  {distributions : List Distribution}

/-- What a split that is not refused has passed. -/
theorem buildDistributions_inv (h : buildDistributions input rounded = .ok distributions) :
    ∃ T, assertAllocations input.allocations rounded = .ok () ∧
      toStroops input.total "total" rounded = .ok T ∧
      distributions = positiveDistributions input.allocations
        (splitStroops T input.allocations rounded) rounded ∧
      distributions ≠ [] ∧
      assertWithinContract input.escrowType distributions T rounded = .ok () := by
  unfold buildDistributions at h
  split at h
  · cases h
  · rename_i haccepted
    split at h
    · cases h
    · rename_i T hT
      split at h
      · cases h
      · dsimp only at h
        split at h
        · cases h
        · rename_i hsome
          split at h
          · cases h
          · rename_i hcheck
            cases h
            exact ⟨T, haccepted, hT, rfl, fun hnil => hsome (by rw [hnil]; rfl), hcheck⟩

/-- The sum that the check at the end has compared. -/
theorem assertWithinContract_ok {escrowType : EscrowKind} {T : Number}
    (h : assertWithinContract escrowType distributions T rounded = .ok ()) :
    ∃ sum, sumStroops distributions 0 rounded = .ok sum ∧
      (escrowType = .singleRelease → sum = T) ∧
      (escrowType = .multiRelease → Number.lt T sum = false) := by
  unfold assertWithinContract at h
  split at h
  · cases h
  · rename_i sum hsum
    split at h
    · cases h
    · rename_i hsingle
      split at h
      · cases h
      · rename_i hmulti
        refine ⟨sum, hsum, fun hkind => ?_, fun hkind => ?_⟩
        · by_contra hne
          exact hsingle ⟨hkind, hne⟩
        · by_contra hlt
          exact hmulti ⟨hkind, by simpa using hlt⟩

variable {escrowType : EscrowKind} {allocations : List PercentageAllocation}

/-- The amounts of a split that has been checked are doubles of whole stroops. -/
theorem isAmount_of_build (h : buildDistributions input toDouble = .ok distributions) :
    ∀ d ∈ distributions, IsAmount d.amount := by
  obtain ⟨T, -, -, rfl, -, hcheck⟩ := buildDistributions_inv h
  obtain ⟨sum, hsum, -⟩ := assertWithinContract_ok hcheck
  intro d hd
  have hfinite := isFinite_of_sumStroops hsum d hd
  obtain ⟨share, -, hpos, hamount⟩ := mem_positiveDistributions hd
  rw [hamount] at hfinite ⊢
  exact fromStroops_isAmount hpos hfinite

/-- **What is paid out** of less than `2 ^ 29` units is what `toStroops` makes of the total: its
stroops, or one more. -/
theorem paidStroops_eq {k : ℕ} (hk : k < toldStroops) (hshort : allocations.length < 2 ^ 32)
    (h : buildDistributions ⟨escrowType, .finite (nearest (k / 10 ^ 7)), allocations⟩ toDouble =
      .ok distributions) :
    ∃ T : ℕ, toStroops (.finite (nearest (k / 10 ^ 7))) "total" toDouble = .ok (.finite T) ∧
      k ≤ T ∧ paidStroops distributions = T := by
  have hamounts := isAmount_of_build h
  obtain ⟨T', haccepted, hT', hsplit, -, hcheck⟩ := buildDistributions_inv h
  obtain ⟨T, hT, hkT, htold⟩ := toStroops_nearest "total" hk
  rw [hT, Except.ok.injEq] at hT'
  subst hT'
  refine ⟨T, hT, hkT, le_antisymm ?_ ?_⟩
  · -- the check at the end has compared a sum that is not less than what is paid out
    obtain ⟨sum, hsum, hsingle, hmulti⟩ := assertWithinContract_ok hcheck
    have hstart : sumStroops distributions (.finite (0 : ℕ)) toDouble = .ok sum := hsum
    have hle : sum.le (.finite T) = true := by
      cases escrowType with
      | singleRelease => rw [hsingle rfl, Number.le_finite]; exact decide_eq_true le_rfl
      | multiRelease =>
          have hzero := le_sumStroops (m := 0) (Nat.zero_le _) hamounts (by simp) hstart
          have hlt := hmulti rfl
          cases sum with
          | nan => cases hzero
          | infinity negative => cases negative with
            | true => cases hzero
            | false => cases hlt
          | finite q => simpa using hlt
    simpa using paidStroops_le_sum htold hamounts hstart hle
  · -- the shares add up to the total, and none that is positive is dropped
    obtain ⟨ks, hks, hsum, hlength⟩ := splitStroops_rounded htold hshort haccepted
    have hstroops : Number.finite (T : ℚ) = stroops T := by rw [stroops, Int.cast_natCast]
    rw [hstroops, hks] at hsplit
    have hfinite : ∀ d ∈ positiveDistributions allocations (ks.map stroops) toDouble,
        d.amount.isFinite = true := by
      rw [← hsplit]
      intro d hd
      obtain ⟨n, hn⟩ := hamounts d hd
      rw [hn, Number.isFinite_finite]
    have hpaid := (min_le_paidStroops hlength hfinite).2
    rw [← hsplit, hsum] at hpaid
    omega

/-- Something is paid out, whatever the total. -/
theorem paidStroops_pos (h : buildDistributions input toDouble = .ok distributions) :
    0 < paidStroops distributions := by
  obtain ⟨T, -, hT, rfl, hne, hcheck⟩ := buildDistributions_inv h
  obtain ⟨sum, hsum, -⟩ := assertWithinContract_ok hcheck
  have hwhole : IsWhole T := by
    unfold toStroops at hT
    split at hT
    · cases hT
      exact isWhole_round _
    · cases hT
  refine List.sum_pos _ ?_ (by simpa using hne)
  intro paid hpaid
  obtain ⟨d, hd, rfl⟩ := List.mem_map.mp hpaid
  have hfinite := isFinite_of_sumStroops hsum d hd
  obtain ⟨share, hshare, hpos, hamount⟩ := mem_positiveDistributions hd
  rw [hamount] at hfinite ⊢
  exact one_le_inStroops (isWhole_splitStroops hwhole share hshare) hpos hfinite

end Build

end ThalosBackend.Disputes
