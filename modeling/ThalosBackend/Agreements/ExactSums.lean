import Mathlib.Data.List.TakeWhile
import ThalosBackend.Agreements.AnsweringDb
import ThalosBackend.Agreements.StoredConsistency
import ThalosBackend.Js.Decimals

/-!
# Exact sums of milestones

Both validators round every amount to cents before they compare, while `AMOUNT_REGEX` admits any
number of decimals. What rounding adds to the total and what it adds to the milestones need not be
the same; the difference is the `imbalance` of the amounts. `exact_sums_iff` says for which amounts
the comparison decides whether the milestones add up: those where the imbalance is zero, and
those that miss the total by something else than nothing or the imbalance.
-/

set_option autoImplicit false

namespace ThalosBackend.Agreements

open Js (FloatArithmetic Number Value)

/-! ## Exact amounts -/

/-- The value of a decimal text, however many digits it has. -/
def decimalOf (s : String) : ℚ := (Number.decimalLiteral s.toList).getD 0

/-- A decimal text as a number, with no limit on its digits or its size. -/
def readDecimal (s : String) : Number :=
  match Number.decimalLiteral s.toList with
  | some q => .finite q
  | none => .nan

/-- Arithmetic that reads every decimal text exactly. -/
def decimalArithmetic : FloatArithmetic :=
  { exactArithmetic with number := readDecimal, parseFloat := readDecimal }

theorem readDecimal_of_matches {s : String} (h : matchesAmountRegex s = true) :
    readDecimal s = .finite (decimalOf s) := by
  have hsome : ∃ q, Number.decimalLiteral s.toList = some q := by
    simp only [matchesAmountRegex, Bool.and_eq_true, Bool.not_eq_true',
      List.isEmpty_eq_false_iff] at h
    obtain ⟨hwhole, hrest⟩ := h
    unfold Number.decimalLiteral
    rw [Number.spanDigits_ten]
    cases hdrop : s.toList.dropWhile Char.isDigit with
    | nil => simp [Number.decimalValue, Number.exponentPart, hwhole]
    | cons c rest =>
        rw [hdrop] at hrest
        split at hrest
        · rename_i heq
          cases heq
        · rename_i fraction heq
          cases heq
          obtain ⟨-, hdigits⟩ := Bool.and_eq_true_iff.mp hrest
          have hall : ∀ x ∈ rest, x.isDigit = true := List.all_eq_true.mp hdigits
          have hnone : rest.dropWhile Char.isDigit = [] := List.dropWhile_eq_nil_iff.mpr hall
          simp [Number.spanDigits_ten, hnone, Number.decimalValue, Number.exponentPart, hwhole]
        · cases hrest
  obtain ⟨q, hq⟩ := hsome
  simp [readDecimal, decimalOf, hq]

/-- A positive amount that `AMOUNT_REGEX` matches. -/
def isPositiveDecimal (s : String) : Bool := matchesAmountRegex s && decide (0 < decimalOf s)

theorem isValidPositiveNumeric_eq (s : String) :
    isValidPositiveNumeric decimalArithmetic s = isPositiveDecimal s := by
  unfold isValidPositiveNumeric isPositiveDecimal
  cases hmatch : matchesAmountRegex s with
  | false => rfl
  | true =>
      have hread : decimalArithmetic.number s = .finite (decimalOf s) :=
        readDecimal_of_matches hmatch
      rw [hread, Number.ofNat_eq, Number.lt_finite]
      simp

/-! ## What rounding to cents adds -/

/-- The nearest whole number of cents. -/
def roundedCents (s : String) : ℤ := ⌊decimalOf s * 100 + 1 / 2⌋

/-- What rounding to cents adds to an amount, in cents. -/
def roundingGain (s : String) : ℚ := roundedCents s - decimalOf s * 100

/-- What rounding adds to the total beyond what it adds to the milestones. -/
def imbalance (total : String) (amounts : List String) : ℚ :=
  roundingGain total - (amounts.map roundingGain).sum

/-- How far the milestones exceed the total, in cents. -/
def gap (total : String) (amounts : List String) : ℚ :=
  ((amounts.map decimalOf).sum - decimalOf total) * 100

theorem toCents_eq {s : String} (h : matchesAmountRegex s = true) :
    toCents decimalArithmetic s = .finite (roundedCents s) := by
  have hread : decimalArithmetic.parseFloat s = .finite (decimalOf s) := readDecimal_of_matches h
  rw [toCents, hread]
  rfl

theorem milestoneSumCents_eq {amounts : List String}
    (h : ∀ a ∈ amounts, matchesAmountRegex a = true) :
    milestoneSumCents decimalArithmetic amounts =
      .finite ((amounts.map fun a => (roundedCents a : ℚ)).sum) := by
  have hcents : amounts.map (toCents decimalArithmetic) =
      (amounts.map fun a => (roundedCents a : ℚ)).map Number.finite := by
    rw [List.map_map]
    exact List.map_congr_left fun a ha => toCents_eq (h a ha)
  have hfold : milestoneSumCents decimalArithmetic amounts =
      (amounts.map (toCents decimalArithmetic)).foldl (· + ·) (Number.finite 0) := by
    rw [List.foldl_map]
    rfl
  rw [hfold, hcents, Number.foldl_add_finite, zero_add]

theorem sum_roundedCents (amounts : List String) :
    (amounts.map fun a => (roundedCents a : ℚ)).sum =
      (amounts.map decimalOf).sum * 100 + (amounts.map roundingGain).sum := by
  induction amounts with
  | nil => simp
  | cons a rest ih =>
      simp only [List.map_cons, List.sum_cons, ih, roundingGain]
      ring

/-- The cents agree when the milestones miss the total by exactly the imbalance. -/
theorem sumMatches_iff {total : String} {amounts : List String}
    (htotal : matchesAmountRegex total = true) (hall : ∀ a ∈ amounts, matchesAmountRegex a = true) :
    sumMatches decimalArithmetic total amounts = true ↔
      gap total amounts = imbalance total amounts := by
  have hcents : (roundedCents total : ℚ) = decimalOf total * 100 + roundingGain total := by
    rw [roundingGain]
    ring
  rw [sumMatches, toCents_eq htotal, milestoneSumCents_eq hall, sum_roundedCents, hcents]
  simp only [Number.strictEq, Number.finite.injEq, ne_eq, reduceCtorEq, not_false_eq_true, and_true,
    decide_eq_true_eq, gap, imbalance]
  constructor
  · intro heq
    linarith
  · intro heq
    linarith

theorem gap_eq_zero_iff (total : String) (amounts : List String) :
    gap total amounts = 0 ↔ (amounts.map decimalOf).sum = decimalOf total := by
  rw [gap, mul_eq_zero, sub_eq_zero, or_iff_left (by norm_num)]

/-! ## What the validators report -/

/-- Among the errors is the one of milestones that do not add up. -/
def reportsMismatch : ValidationResult → Bool
  | .ok () => false
  | .error e => e.details.any fun d => d.code = "MILESTONE_SUM_MISMATCH"

/-- Nothing is wrong with an agreement but perhaps the sum of its milestones. -/
structure OtherwiseValid (input : AgreementInput) : Prop where
  fields : fieldErrors decimalArithmetic input = []
  kind : agreementTypeErrors (input.milestones.getD []).length input.agreementType = []
  participants : participantErrors input.participants = []

/-- The amounts of the milestones of an agreement to be created. -/
def AgreementInput.milestoneAmounts (input : AgreementInput) : List String :=
  (input.milestones.getD []).filterMap MilestoneInput.amount

theorem reportsMismatch_sumErrors (total : String) (amounts : List String) :
    reportsMismatch (errResult (sumErrors decimalArithmetic total amounts)) = false ↔
      sumMatches decimalArithmetic total amounts = true := by
  unfold sumErrors
  cases sumMatches decimalArithmetic total amounts with
  | true => simp [errResult, reportsMismatch]
  | false => simp [errResult, reportsMismatch]

theorem OtherwiseValid.validateAgreement_eq {input : AgreementInput} (h : OtherwiseValid input)
    (hne : input.milestoneAmounts ≠ []) :
    validateAgreement decimalArithmetic input =
      errResult (sumErrors decimalArithmetic input.amount input.milestoneAmounts) := by
  have hsome : (input.milestones.getD []).isEmpty = false := by
    rw [List.isEmpty_eq_false_iff]
    intro hnone
    exact hne (by rw [AgreementInput.milestoneAmounts, hnone]; rfl)
  simp [validateAgreement, milestonesErrors, h.fields, h.kind, h.participants, hsome,
    AgreementInput.milestoneAmounts]

theorem validateAgreementConsistency_eq {total : String} {milestones : List Milestone}
    (htotal : isPositiveDecimal total = true)
    (hkept : ∀ m ∈ milestones, keptMilestone decimalArithmetic m = true) (hne : milestones ≠ []) :
    validateAgreementConsistency decimalArithmetic total milestones =
      .ok (errResult (sumErrors decimalArithmetic total (milestoneAmounts milestones))) := by
  obtain ⟨errors, hmap, hflat⟩ := storedMilestones_eq.mpr hkept
  have hvalid : isValidPositiveNumeric decimalArithmetic total = true := by
    rw [isValidPositiveNumeric_eq]
    exact htotal
  simp only [validateAgreementConsistency, hmap, hvalid, if_true]
  simp [bind, Except.bind, pure, Except.pure, hflat, hne, milestoneAmounts]

/-- Of any otherwise valid agreement over these amounts, to be created or stored, the validators report
a mismatch unless the milestones add up to the total exactly. -/
structure ExactSums (total : String) (amounts : List String) : Prop where
  created : ∀ input : AgreementInput, input.amount = total → input.milestoneAmounts = amounts →
    OtherwiseValid input →
      (reportsMismatch (validateAgreement decimalArithmetic input) = false ↔
        (amounts.map decimalOf).sum = decimalOf total)
  stored : ∀ milestones : List Milestone, milestoneAmounts milestones = amounts →
    (∀ m ∈ milestones, keptDescription m.description = true) →
      ∃ result, validateAgreementConsistency decimalArithmetic total milestones = .ok result ∧
        (reportsMismatch result = false ↔ (amounts.map decimalOf).sum = decimalOf total)

/-- What rounding adds cancels, or the milestones miss the total by something else than nothing or the
imbalance. -/
def RoundingHarmless (total : String) (amounts : List String) : Prop :=
  imbalance total amounts = 0 ∨ gap total amounts ≠ 0 ∧ gap total amounts ≠ imbalance total amounts

/-- An amount with at most two decimals gains nothing. -/
theorem roundingGain_eq_zero {s : String} {cents : ℤ} (h : decimalOf s = cents / 100) :
    roundingGain s = 0 := by
  have hcents : decimalOf s * 100 = cents := by
    rw [h]
    ring
  rw [roundingGain, roundedCents, hcents, Number.floor_add_half_intCast, sub_self]

/-- Amounts of whole cents are compared exactly. -/
theorem roundingHarmless_of_wholeCents {total : String} {amounts : List String}
    (h : ∀ s ∈ total :: amounts, ∃ cents : ℤ, decimalOf s = cents / 100) :
    RoundingHarmless total amounts := by
  have hnone : ∀ s ∈ total :: amounts, roundingGain s = 0 := fun s hs =>
    let ⟨_, hcents⟩ := h s hs
    roundingGain_eq_zero hcents
  have hsum : (amounts.map roundingGain).sum = 0 := by
    refine List.sum_eq_zero fun x hx => ?_
    obtain ⟨a, ha, rfl⟩ := List.mem_map.mp hx
    exact hnone a (List.mem_cons_of_mem _ ha)
  exact Or.inl (by rw [imbalance, hnone total List.mem_cons_self, hsum, sub_zero])

/-- Stored milestones over these amounts. -/
def workOver (amounts : List String) : List Milestone :=
  amounts.map fun a => { description := .string "Work", amount := a, status := .pending }

theorem milestoneAmounts_workOver (amounts : List String) :
    milestoneAmounts (workOver amounts) = amounts := by
  simp [milestoneAmounts, workOver, Function.comp_def]

/-- **Exact sums of milestones.** Both validators decide whether positive decimal amounts add up
exactly, exactly when the rounding to cents is harmless. -/
theorem exact_sums_iff {total : String} {amounts : List String}
    (htotal : isPositiveDecimal total = true)
    (hamounts : ∀ a ∈ amounts, isPositiveDecimal a = true) (hne : amounts ≠ []) :
    ExactSums total amounts ↔ RoundingHarmless total amounts := by
  have hmatches : sumMatches decimalArithmetic total amounts = true ↔
      gap total amounts = imbalance total amounts :=
    sumMatches_iff (Bool.and_eq_true_iff.mp htotal).1 fun a ha =>
      (Bool.and_eq_true_iff.mp (hamounts a ha)).1
  have hdecides : RoundingHarmless total amounts ↔
      (sumMatches decimalArithmetic total amounts = true ↔
        (amounts.map decimalOf).sum = decimalOf total) := by
    rw [hmatches, ← gap_eq_zero_iff, RoundingHarmless]
    constructor
    · rintro (hzero | ⟨hgap, hother⟩)
      · rw [hzero]
      · exact iff_of_false hother hgap
    · intro hiff
      by_cases hgap : gap total amounts = 0
      · exact Or.inl ((hiff.mpr hgap).symm.trans hgap)
      · exact Or.inr ⟨hgap, fun heq => hgap (hiff.mp heq)⟩
  have hkept : ∀ milestones : List Milestone, milestoneAmounts milestones = amounts →
      (∀ m ∈ milestones, keptDescription m.description = true) →
        ∀ m ∈ milestones, keptMilestone decimalArithmetic m = true := by
    rintro milestones rfl hdescriptions m hm
    rw [keptMilestone, hdescriptions m hm, Bool.true_and, isValidPositiveNumeric_eq]
    exact hamounts _ (List.mem_map_of_mem hm)
  rw [hdecides]
  constructor
  · intro hexact
    -- some stored agreement has these amounts
    have hwork := milestoneAmounts_workOver amounts
    have hdescriptions : ∀ m ∈ workOver amounts, keptDescription m.description = true := by
      intro m hm
      obtain ⟨a, -, rfl⟩ := List.mem_map.mp hm
      rfl
    have hsome : workOver amounts ≠ [] := by simpa [workOver] using hne
    obtain ⟨result, hresult, hiff⟩ := hexact.stored _ hwork hdescriptions
    rw [validateAgreementConsistency_eq htotal (hkept _ hwork hdescriptions) hsome,
      Except.ok.injEq] at hresult
    rwa [← hresult, hwork, reportsMismatch_sumErrors] at hiff
  · intro hiff
    constructor
    · rintro input rfl rfl hvalid
      rw [hvalid.validateAgreement_eq hne, reportsMismatch_sumErrors]
      exact hiff
    · intro milestones hsame hdescriptions
      have hsome : milestones ≠ [] := by
        rintro rfl
        exact hne hsame.symm
      refine ⟨_, validateAgreementConsistency_eq htotal (hkept _ hsame hdescriptions) hsome, ?_⟩
      rw [hsame, reportsMismatch_sumErrors]
      exact hiff

theorem exact_sums_hundred : ExactSums "100.00" ["70.00", "30"] := by
  refine (exact_sums_iff (by decide +kernel) (by decide +kernel) (by decide)).mpr ?_
  refine roundingHarmless_of_wholeCents fun s hs => ?_
  simp only [List.mem_cons, List.not_mem_nil, or_false] at hs
  obtain rfl | rfl | rfl := hs
  · exact ⟨10000, by decide +kernel⟩
  · exact ⟨7000, by decide +kernel⟩
  · exact ⟨3000, by decide +kernel⟩

/-- An agreement over one cent whose two milestones are half a cent each. -/
def halfCents : AgreementInput where
  title := "Site"
  description := none
  amount := "0.01"
  asset := none
  agreementType := some "multi"
  milestones := some [⟨"Draft", some "0.005"⟩, ⟨"Launch", some "0.005"⟩]
  participants := [⟨"P", "payer"⟩]

/-- The milestones add up, and the validator says that their sum is two cents. -/
theorem halfCents_mismatch :
    OtherwiseValid halfCents ∧
      (halfCents.milestoneAmounts.map decimalOf).sum = decimalOf halfCents.amount ∧
      validateAgreement decimalArithmetic halfCents = .error ⟨"VALIDATION_ERROR",
        [⟨"milestones", "MILESTONE_SUM_MISMATCH",
          "Sum of milestone amounts (0.02) does not equal total amount (0.01)"⟩]⟩ ∧
      ¬ExactSums halfCents.amount halfCents.milestoneAmounts := by
  have hvalid : OtherwiseValid halfCents :=
    ⟨by decide +kernel, by decide +kernel, by decide +kernel⟩
  have hsum : (halfCents.milestoneAmounts.map decimalOf).sum = decimalOf halfCents.amount := by
    decide +kernel
  have hreported : reportsMismatch (validateAgreement decimalArithmetic halfCents) = true := by
    decide +kernel
  refine ⟨hvalid, hsum, by decide +kernel, fun hexact => ?_⟩
  have hnot := (hexact.created halfCents rfl rfl hvalid).mpr hsum
  rw [hreported] at hnot
  cases hnot

end ThalosBackend.Agreements
