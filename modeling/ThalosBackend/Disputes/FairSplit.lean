import Mathlib.Tactic.NormNum
import Mathlib.Tactic.IntervalCases
import ThalosBackend.Disputes.DistributionConservation

/-!
# Fairness of the dispute split

What the floors leave over goes to the first recipient whose floored share no other exceeds. The
choice compares the floored shares and not the percentages, so a very small total can hand its
stroops to a recipient with a smaller percentage, or with none at all. `fair_split_iff` says when
the split is fair: nothing is left over, or the recipient that absorbs it has the largest
percentage.
-/

set_option autoImplicit false

namespace ThalosBackend.Disputes

open ThalosBackend.Js
open Apportionment (floors addAt remainder apportion scanLargest)

/-! ## Fairness -/

/-- The share of an allocation in stroops, before any rounding. -/
def exactShare (input : BuildDistributionsInput) (a : PercentageAllocation) : ℚ :=
  input.total.toRat * stroopsPerUnit * a.percentage.toRat / 100

/-- The stroops that the distributions pay to an address. -/
def stroopsTo (distributions : List Distribution) (address : String) : ℚ :=
  ((distributions.filter fun d => d.address = address).map fun d =>
    d.amount.toRat * (stroopsPerUnit : ℚ)).sum

/-- The distributions treat the recipients as their percentages say. -/
structure FairSplit (input : BuildDistributionsInput) (distributions : List Distribution) :
    Prop where
  nothing : ∀ a ∈ input.allocations, a.percentage = 0 →
    ∀ d ∈ distributions, d.address ≠ trim a.address
  close : ∀ a ∈ input.allocations,
    |stroopsTo distributions (trim a.address) - exactShare input a| < input.allocations.length
  ordered : ∀ a ∈ input.allocations, ∀ b ∈ input.allocations,
    Number.lt a.percentage b.percentage = true →
      stroopsTo distributions (trim a.address) ≤ stroopsTo distributions (trim b.address)

/-- The total in whole stroops, rounded half up. -/
def wholeStroops (total : Number) : ℤ := ⌊total.toRat * stroopsPerUnit + 1 / 2⌋

/-- The share of an allocation in stroops, rounded down. -/
def roundedDown (input : BuildDistributionsInput) (a : PercentageAllocation) : ℤ :=
  ⌊(wholeStroops input.total : ℚ) * fraction a⌋

/-- Every share is a whole number of stroops, or the first allocation whose share rounded down is
largest also has the largest percentage. -/
def LeftoverToLargest (input : BuildDistributionsInput) : Prop :=
  (∀ a ∈ input.allocations, Int.fract ((wholeStroops input.total : ℚ) * fraction a) = 0) ∨
    ∀ before a after, input.allocations = before ++ a :: after →
      (∀ b ∈ before, roundedDown input b < roundedDown input a) →
      (∀ b ∈ after, roundedDown input b ≤ roundedDown input a) →
      ∀ b ∈ input.allocations, fraction b ≤ fraction a

/-! ## What the distributions pay to one address -/

/-- Among entries of distinct addresses, an address picks out its own entry. -/
theorem filter_fst_eq {entries : List (String × ℤ)} (hnodup : (entries.map Prod.fst).Nodup)
    {e : String × ℤ} (he : e ∈ entries) : (entries.filter fun x => x.1 = e.1) = [e] := by
  induction entries with
  | nil => exact absurd he List.not_mem_nil
  | cons x rest ih =>
      obtain ⟨hfresh, hrest⟩ := List.nodup_cons.mp hnodup
      rcases List.mem_cons.mp he with rfl | hmem
      · have hnone : (rest.filter fun y => y.1 = e.1) = [] := by
          refine List.filter_eq_nil_iff.mpr fun y hy => ?_
          simp only [decide_eq_true_eq]
          exact fun heq => hfresh (List.mem_map.mpr ⟨y, hy, heq⟩)
        simp [hnone]
      · have hne : x.1 ≠ e.1 := fun heq => hfresh (List.mem_map.mpr ⟨e, hmem, heq.symm⟩)
        rw [List.filter_cons_of_neg (by simpa using hne)]
        exact ih hrest hmem

/-- An address is paid its share if that is positive, and nothing otherwise. -/
theorem stroopsTo_entries {entries : List (String × ℤ)} (hnodup : (entries.map Prod.fst).Nodup)
    {e : String × ℤ} (he : e ∈ entries) (hnonneg : 0 ≤ e.2) :
    stroopsTo ((entries.filter fun x => 0 < x.2).map fun x => ⟨x.1, fromStroops (stroops x.2)⟩)
      e.1 = e.2 := by
  have hpaid : ((entries.filter fun x => 0 < x.2).filter fun x => x.1 = e.1) =
      [e].filter fun x => 0 < x.2 := by
    rw [List.filter_filter, ← filter_fst_eq hnodup he, List.filter_filter]
    simp only [Bool.and_comm]
  rw [stroopsTo, List.filter_map, List.map_map]
  simp only [Function.comp_def, fromStroops_stroops, Number.toRat_finite]
  rw [hpaid]
  by_cases hpos : 0 < e.2
  · rw [List.filter_cons_of_pos (by simpa using hpos)]
    simp only [List.filter_nil, List.map_cons, List.map_nil, List.sum_cons, List.sum_nil, add_zero,
      stroopsPerUnit]
    norm_num
  · have hzero : e.2 = 0 := by omega
    simp [hzero]

/-! ## What an accepted input leaves -/

/-- What `buildDistributions` returns when the percentages add up to exactly one hundred: the positive
ones of the shares of an apportionment whose remainder went to the first largest floor. -/
structure SplitAt (input : BuildDistributionsInput) (distributions : List Distribution)
    (index : ℕ) : Prop where
  admissible : Admissible input.allocations
  fractions : (input.allocations.map fraction).sum = 1
  positive : 0 < wholeStroops input.total
  inside : index < (input.allocations.map fraction).length
  largest : ∀ x ∈ floors (wholeStroops input.total) (input.allocations.map fraction),
    x ≤ ⌊(wholeStroops input.total : ℚ) * (input.allocations.map fraction)[index]⌋
  first : ∀ j (hj : j < index),
    ⌊(wholeStroops input.total : ℚ) * (input.allocations.map fraction)[j]⌋ <
      ⌊(wholeStroops input.total : ℚ) * (input.allocations.map fraction)[index]⌋
  entries : distributions = (positiveEntries input.allocations
      (apportion (wholeStroops input.total) (input.allocations.map fraction) index)).map
    fun e => ⟨e.1, fromStroops (stroops e.2)⟩

theorem buildDistributions_splitAt {input : BuildDistributionsInput}
    {distributions : List Distribution} (h : buildDistributions input = .ok distributions)
    (hexact : percentageTotal input.allocations = 100) :
    ∃ index, SplitAt input distributions index := by
  unfold buildDistributions at h
  split at h
  · cases h
  · rename_i haccepted
    have hadm := admissible_of_ok haccepted
    split at h
    · cases h
    · rename_i totalStroops htotal
      unfold toStroops at htotal
      split at htotal
      · rename_i hfin
        have hwhole : totalStroops = stroops (wholeStroops input.total) := by
          rw [Number.eq_finite_of_isFinite hfin] at htotal
          exact (Except.ok.inj htotal).symm
        subst hwhole
        split at h
        · cases h
        · rename_i hpos
          -- the index is the first one of the largest floored share
          obtain ⟨index, hi, hmax, hfirst, hsplit⟩ := splitStroops_eq_apportion hadm
            (wholeStroops input.total)
          simp only [hsplit, positiveDistributions_eq] at h
          split at h
          · cases h
          · split at h
            · cases h
            · cases h
              have hi' : index < (input.allocations.map fraction).length := by simpa using hi
              refine ⟨index, hadm, ?_, ?_, hi', ?_, ?_, rfl⟩
              · rw [percentageTotal_eq hadm.finite, Number.ofNat_eq] at hexact
                have := Number.finite.inj hexact
                push_cast at this
                linarith
              · rw [← stroops_zero] at hpos
                simpa [Number.le, stroops] using hpos
              · intro x hx
                simpa [floors] using hmax x hx
              · intro j hj
                simpa [floors] using hfirst j hj
      · cases htotal

namespace SplitAt

variable {input : BuildDistributionsInput} {distributions : List Distribution} {index : ℕ}

theorem length_shares (_h : SplitAt input distributions index) :
    (apportion (wholeStroops input.total) (input.allocations.map fraction) index).length =
      input.allocations.length := by
  simp [apportion]

theorem shares_nonneg (h : SplitAt input distributions index) {i : ℕ}
    (hi : i < (apportion (wholeStroops input.total) (input.allocations.map fraction)
      index).length) :
    0 ≤ (apportion (wholeStroops input.total) (input.allocations.map fraction) index)[i] := by
  have hlen := h.length_shares
  have hi' : i < (input.allocations.map fraction).length := by
    rw [List.length_map]
    omega
  have hremainder := Apportionment.remainder_nonneg (wholeStroops input.total) h.fractions
  have hfraction : 0 ≤ (input.allocations.map fraction)[i] := by
    rw [List.getElem_map]
    exact h.admissible.nonneg _ (List.getElem_mem _)
  have hfloor : 0 ≤ ⌊(wholeStroops input.total : ℚ) * (input.allocations.map fraction)[i]⌋ :=
    Int.floor_nonneg.mpr (mul_nonneg (Int.cast_nonneg h.positive.le) hfraction)
  rw [Apportionment.getElem_apportion hi']
  split <;> omega

theorem nodup_entries (h : SplitAt input distributions index) :
    ((List.zip (trimmedAddresses input.allocations) (apportion (wholeStroops input.total)
      (input.allocations.map fraction) index)).map Prod.fst).Nodup := by
  rw [List.map_fst_zip (by simp [trimmedAddresses, apportion])]
  exact h.admissible.distinct

theorem entry_mem (_h : SplitAt input distributions index) {i : ℕ}
    (hi : i < input.allocations.length)
    (hi' : i < (apportion (wholeStroops input.total) (input.allocations.map fraction)
      index).length) :
    (trim input.allocations[i].address,
        (apportion (wholeStroops input.total) (input.allocations.map fraction) index)[i]) ∈
      List.zip (trimmedAddresses input.allocations) (apportion (wholeStroops input.total)
        (input.allocations.map fraction) index) := by
  refine List.mem_iff_getElem.mpr ⟨i, ?_, ?_⟩
  · rw [List.length_zip, trimmedAddresses, List.length_map]
    omega
  · simp [trimmedAddresses]

/-- Each recipient is paid its share. -/
theorem stroopsTo_eq (h : SplitAt input distributions index) {i : ℕ}
    (hi : i < input.allocations.length)
    (hi' : i < (apportion (wholeStroops input.total) (input.allocations.map fraction)
      index).length) :
    stroopsTo distributions (trim input.allocations[i].address) =
      (apportion (wholeStroops input.total) (input.allocations.map fraction) index)[i] := by
  have hpaid := stroopsTo_entries h.nodup_entries (h.entry_mem hi hi') (h.shares_nonneg hi')
  rw [h.entries, positiveEntries]
  exact hpaid

/-- Every recipient is paid within its exact share. -/
theorem close (h : SplitAt input distributions index) :
    ∀ a ∈ input.allocations,
      |stroopsTo distributions (trim a.address) - exactShare input a| <
        input.allocations.length := by
  intro a ha
  obtain ⟨i, hi, rfl⟩ := List.getElem_of_mem ha
  have hi' : i < (input.allocations.map fraction).length := by simpa using hi
  have hshare : i < (apportion (wholeStroops input.total) (input.allocations.map fraction)
      index).length := by
    rw [h.length_shares]
    exact hi
  rw [h.stroopsTo_eq hi hshare]
  obtain ⟨hbelow, habove⟩ := Apportionment.apportion_close h.fractions hi' hshare
  set share := (apportion (wholeStroops input.total) (input.allocations.map fraction) index)[i]
  simp only [List.getElem_map, List.length_map] at hbelow habove
  set p := fraction input.allocations[i] with hp
  set x := input.total.toRat * stroopsPerUnit with hx
  have hexact : exactShare input input.allocations[i] = x * p := by
    rw [exactShare, hp, fraction, ← hx]
    ring
  have hmem : p ∈ input.allocations.map fraction := List.mem_map_of_mem (List.getElem_mem hi)
  have hp0 : 0 ≤ p := h.admissible.nonneg _ (List.getElem_mem hi)
  have hp1 : p ≤ 1 := by
    rw [← h.fractions]
    refine List.single_le_sum (fun y hy => ?_) _ hmem
    obtain ⟨b, hb, rfl⟩ := List.mem_map.mp hy
    exact h.admissible.nonneg b hb
  -- rounding the total moves a share by half a stroop at most
  have hround : |(wholeStroops input.total : ℚ) - x| ≤ 1 / 2 := by
    have hle := Int.floor_le (x + 1 / 2)
    have hlt := Int.lt_floor_add_one (x + 1 / 2)
    rw [wholeStroops, ← hx, abs_le]
    constructor <;> linarith
  have hmoved : |(wholeStroops input.total : ℚ) * p - x * p| ≤ 1 / 2 := by
    rw [← sub_mul, abs_mul, abs_of_nonneg hp0]
    exact (mul_le_of_le_one_right (abs_nonneg _) hp1).trans hround
  obtain ⟨hlow, hhigh⟩ := abs_le.mp hmoved
  rw [hexact, abs_lt]
  rcases Nat.lt_or_ge 1 input.allocations.length with hmany | hone
  · have hmany' : (2 : ℚ) ≤ input.allocations.length := by exact_mod_cast hmany
    constructor <;> linarith
  · -- the only recipient is paid the rounded total
    have hlength : input.allocations.length = 1 := by omega
    obtain ⟨b, hb⟩ := List.length_eq_one_iff.mp hlength
    have hwhole : p = 1 := by
      have hsum := h.fractions
      rw [hb, List.map_singleton, List.mem_singleton] at hmem
      rw [hb, List.map_singleton, List.sum_singleton] at hsum
      rw [hmem, hsum]
    rw [hlength, Nat.cast_one] at habove ⊢
    rw [hwhole, mul_one] at hbelow habove hlow hhigh ⊢
    have heq : share = wholeStroops input.total := by
      have h1 : (-1 : ℚ) < ((share - wholeStroops input.total : ℤ) : ℚ) := by
        rw [Int.cast_sub]
        exact hbelow
      have h2 : ((share - wholeStroops input.total : ℤ) : ℚ) ≤ 0 := by
        rw [Int.cast_sub]
        linarith
      have h1' : (-1 : ℤ) < share - wholeStroops input.total := by exact_mod_cast h1
      have h2' : share - wholeStroops input.total ≤ 0 := by exact_mod_cast h2
      omega
    rw [heq]
    constructor <;> linarith

theorem lt_percentage_iff (h : SplitAt input distributions index) {a b : PercentageAllocation}
    (ha : a ∈ input.allocations) (hb : b ∈ input.allocations) :
    Number.lt a.percentage b.percentage = true ↔ fraction a < fraction b := by
  rw [h.admissible.finite a ha, h.admissible.finite b hb, Number.lt_finite, decide_eq_true_iff]
  exact mul_lt_mul_iff_right₀ (by norm_num)

/-- Larger percentages are paid no less exactly when nothing is left over or the absorbing recipient
has the largest percentage. -/
theorem ordered_iff (h : SplitAt input distributions index)
    (hi : index < (input.allocations.map fraction).length) :
    (∀ a ∈ input.allocations, ∀ b ∈ input.allocations,
        Number.lt a.percentage b.percentage = true →
          stroopsTo distributions (trim a.address) ≤ stroopsTo distributions (trim b.address)) ↔
      remainder (wholeStroops input.total) (input.allocations.map fraction) = 0 ∨
        ∀ p ∈ input.allocations.map fraction, p ≤ (input.allocations.map fraction)[index] := by
  have hlength := h.length_shares
  rw [← Apportionment.apportion_ordered_iff h.positive.le h.fractions h.inside h.largest]
  constructor
  · intro hordered i j hi hj hlt hi' hj'
    have hi₀ : i < input.allocations.length := by simpa using hi
    have hj₀ : j < input.allocations.length := by simpa using hj
    rw [List.getElem_map, List.getElem_map,
      ← h.lt_percentage_iff (List.getElem_mem hi₀) (List.getElem_mem hj₀)] at hlt
    have hle := hordered _ (List.getElem_mem hi₀) _ (List.getElem_mem hj₀) hlt
    rw [h.stroopsTo_eq hi₀ hi', h.stroopsTo_eq hj₀ hj'] at hle
    exact_mod_cast hle
  · intro hordered a ha b hb hlt
    rw [h.lt_percentage_iff ha hb] at hlt
    obtain ⟨i, hi, rfl⟩ := List.getElem_of_mem ha
    obtain ⟨j, hj, rfl⟩ := List.getElem_of_mem hb
    rw [h.stroopsTo_eq hi (hlength.symm ▸ hi), h.stroopsTo_eq hj (hlength.symm ▸ hj)]
    have hle := hordered i j (by simpa using hi) (by simpa using hj) (by simpa using hlt)
      (hlength.symm ▸ hi) (hlength.symm ▸ hj)
    exact_mod_cast hle

/-- The absorbing recipient, read off the input. -/
theorem leftoverToLargest_iff (h : SplitAt input distributions index)
    (hi : index < (input.allocations.map fraction).length) :
    LeftoverToLargest input ↔
      remainder (wholeStroops input.total) (input.allocations.map fraction) = 0 ∨
        ∀ p ∈ input.allocations.map fraction, p ≤ (input.allocations.map fraction)[index] := by
  have hin : index < input.allocations.length := by simpa using hi
  have hfirst : ∀ j (hj : j < input.allocations.length), j < index →
      roundedDown input input.allocations[j] < roundedDown input input.allocations[index] := by
    intro j _ hj
    simpa [roundedDown] using h.first j hj
  have hlargest : ∀ b ∈ input.allocations,
      roundedDown input b ≤ roundedDown input input.allocations[index] := by
    intro b hb
    simpa [roundedDown] using h.largest _ (List.mem_map_of_mem (List.mem_map_of_mem hb))
  rw [LeftoverToLargest, Apportionment.remainder_eq_zero_iff h.fractions, List.forall_mem_map,
    List.forall_mem_map, List.getElem_map]
  refine or_congr Iff.rfl ⟨?_, ?_⟩
  · intro hsplits
    refine hsplits (input.allocations.take index) input.allocations[index]
      (input.allocations.drop (index + 1)) ?_ ?_ ?_
    · rw [List.getElem_cons_drop, List.take_append_drop]
    · intro b hb
      obtain ⟨j, hj, rfl⟩ := List.mem_take_iff_getElem.mp hb
      exact hfirst j (by omega) (by omega)
    · intro b hb
      exact hlargest b (List.mem_of_mem_drop hb)
  · intro hmost before a after hsplit hbefore hafter
    have hget : (before ++ a :: after)[index]? = some input.allocations[index] := by
      rw [← hsplit]
      exact List.getElem?_eq_getElem hin
    -- no other split has its floors in this order
    have hindex : before.length = index := by
      rcases lt_trichotomy before.length index with hlt | heq | hgt
      · have hlater : input.allocations[index] ∈ after := by
          rw [List.getElem?_append_right hlt.le, List.getElem?_cons, if_neg (by omega)] at hget
          exact List.mem_of_getElem? hget
        have hless := hfirst before.length (hlt.trans hin) hlt
        have hle := hafter _ hlater
        simp only [hsplit, List.getElem_append_right le_rfl, Nat.sub_self,
          List.getElem_cons_zero] at hless hle
        omega
      · exact heq
      · have hearlier : input.allocations[index] ∈ before := by
          rw [List.getElem?_append_left hgt] at hget
          exact List.mem_of_getElem? hget
        have hless := hbefore _ hearlier
        have hle := hlargest a (by simp [hsplit])
        omega
    have ha : input.allocations[index] = a := by
      subst hindex
      simp [hsplit]
    rwa [ha] at hmost

/-- A recipient with 0% is paid nothing unless it absorbs the remainder. -/
theorem nothing (h : SplitAt input distributions index)
    (hi : index < (input.allocations.map fraction).length)
    (hmost : remainder (wholeStroops input.total) (input.allocations.map fraction) = 0 ∨
      ∀ p ∈ input.allocations.map fraction, p ≤ (input.allocations.map fraction)[index]) :
    ∀ a ∈ input.allocations, a.percentage = 0 →
      ∀ d ∈ distributions, d.address ≠ trim a.address := by
  intro a ha hzero d hd haddress
  obtain ⟨i, hi₀, rfl⟩ := List.getElem_of_mem ha
  have hi₁ : i < (input.allocations.map fraction).length := by simpa using hi₀
  have hshare : i < (apportion (wholeStroops input.total) (input.allocations.map fraction)
      index).length := by
    rw [h.length_shares]
    exact hi₀
  have hfraction : (input.allocations.map fraction)[i] = 0 := by
    rw [List.getElem_map, fraction, hzero, Number.ofNat_eq]
    simp
  -- its floored share is zero
  have hnone : (apportion (wholeStroops input.total) (input.allocations.map fraction) index)[i] =
      0 := by
    rw [Apportionment.getElem_apportion hi₁, hfraction, mul_zero, Int.floor_zero, zero_add]
    rcases hmost with hleft | hmost
    · rw [hleft, ite_self]
    · refine if_neg ?_
      rintro rfl
      have hsum := h.fractions
      have hall : ∀ p ∈ input.allocations.map fraction, p ≤ 0 := by
        rwa [hfraction] at hmost
      have hsmall := List.sum_le_card_nsmul _ 0 hall
      rw [hsum, nsmul_eq_mul, mul_zero] at hsmall
      exact absurd hsmall (by norm_num)
  -- and the address has no other entry
  rw [h.entries, List.mem_map] at hd
  obtain ⟨e, he, rfl⟩ := hd
  obtain ⟨hzip, hpos⟩ := List.mem_filter.mp he
  have hown : e ∈ [(trim input.allocations[i].address, (apportion (wholeStroops input.total)
      (input.allocations.map fraction) index)[i])] := by
    rw [← filter_fst_eq h.nodup_entries (h.entry_mem hi₀ hshare)]
    exact List.mem_filter.mpr ⟨hzip, by simpa using haddress⟩
  rw [List.mem_singleton.mp hown, hnone] at hpos
  simp at hpos

end SplitAt

/-- **Fairness of the dispute split.** Where the percentages add up to exactly one hundred, the split
is fair exactly when what the floors leave over goes to a recipient with the largest percentage. -/
theorem fair_split_iff {input : BuildDistributionsInput} {distributions : List Distribution}
    (h : buildDistributions input = .ok distributions)
    (hexact : percentageTotal input.allocations = 100) :
    FairSplit input distributions ↔ LeftoverToLargest input := by
  obtain ⟨index, hsplit⟩ := buildDistributions_splitAt h hexact
  have hi := hsplit.inside
  rw [hsplit.leftoverToLargest_iff hi]
  constructor
  · intro hfair
    exact (hsplit.ordered_iff hi).mp hfair.ordered
  · intro hmost
    exact ⟨hsplit.nothing hi hmost, hsplit.close, (hsplit.ordered_iff hi).mpr hmost⟩

/-- One hundred units in shares of 60% and 40%. -/
def sixtyForty : BuildDistributionsInput :=
  ⟨.singleRelease, .finite 100, [⟨"approver", .finite 60⟩, ⟨"provider", .finite 40⟩]⟩

theorem fair_split_sixtyForty :
    buildDistributions sixtyForty =
        .ok [⟨"approver", .finite 60⟩, ⟨"provider", .finite 40⟩] ∧
      FairSplit sixtyForty [⟨"approver", .finite 60⟩, ⟨"provider", .finite 40⟩] := by
  have hbuilt : buildDistributions sixtyForty =
      .ok [⟨"approver", .finite 60⟩, ⟨"provider", .finite 40⟩] := by decide +kernel
  refine ⟨hbuilt, (fair_split_iff hbuilt (by decide +kernel)).mpr (Or.inl ?_)⟩
  decide +kernel

/-- A single stroop between nothing and two halves. -/
def oneStroop : BuildDistributionsInput :=
  ⟨.singleRelease, .finite (1 / 10 ^ 7),
    [⟨"outsider", .finite 0⟩, ⟨"approver", .finite 50⟩, ⟨"provider", .finite 50⟩]⟩

/-- The recipient with 0% is paid the stroop. -/
theorem oneStroop_to_outsider :
    buildDistributions oneStroop = .ok [⟨"outsider", .finite (1 / 10 ^ 7)⟩] ∧
      percentageTotal oneStroop.allocations = 100 ∧
      ¬FairSplit oneStroop [⟨"outsider", .finite (1 / 10 ^ 7)⟩] := by
  refine ⟨by decide +kernel, by decide +kernel, fun hfair => ?_⟩
  exact hfair.nothing ⟨"outsider", .finite 0⟩ (by decide) (by decide) _ List.mem_cons_self
    (by decide +kernel)

end ThalosBackend.Disputes
