import ThalosBackend.Agreements.ExactSums
import ThalosBackend.Disputes.DisputeQueries
import ThalosBackend.Js.FixedPoint

/-!
# Amounts of a resolved dispute

`handleDisputeResolved` of `notifications/notifications.service.ts` tells the participants what goes
back to the payer and what is released to the payee. Each share is the amount times a percentage,
and each is rounded to cents for itself, while `resolveDispute` makes sure that the percentages sum
to 100. The shares add up to an amount of whole cents exactly when they do not end in half a cent
both; a negative percentage would save the sum, because its share is rounded the other way.
-/

set_option autoImplicit false

namespace ThalosBackend.Notifications

open Js (FloatArithmetic Number nonEmpty)
open Agreements (Agreement AgreementCall AgreementDb decimalArithmetic decimalOf matchesAmountRegex)

/-! ## The notification -/

/-- What the handler reads of `DisputeResolvedEventPayload`. -/
structure DisputeResolvedEventPayload where
  agreementId : String
  resolvedByWallet : String
  payerPercentage : Number
  payeePercentage : Number
  resolutionNotes : String
  deriving DecidableEq

/-- `DisputeResolvedData`. -/
structure DisputeResolvedData where
  agreementId : String
  agreementTitle : String
  resolution : String
  resolvedByWallet : String
  refundAmount : String
  releaseAmount : String
  asset : Option String
  deriving DecidableEq

/-- `((totalAmount * percentage) / 100).toFixed(2)`. -/
def shareText (F : FloatArithmetic) (totalAmount percentage : Number) : String :=
  F.toFixed (F.div (F.mul totalAmount percentage) 100) 2

/-- `handleDisputeResolved(payload)`: the data of the notification; nobody is notified about an
agreement that is not found. -/
def handleDisputeResolved (F : FloatArithmetic) (db : AgreementDb)
    (payload : DisputeResolvedEventPayload) : Option DisputeResolvedData :=
  (db.agreementAt payload.agreementId).map fun ag =>
    let totalAmount := F.parseFloat ag.amount
    { agreementId := payload.agreementId
      agreementTitle := ag.title
      resolution := (nonEmpty payload.resolutionNotes).getD "Dispute has been resolved"
      resolvedByWallet := payload.resolvedByWallet
      refundAmount := shareText F totalAmount payload.payerPercentage
      releaseAmount := shareText F totalAmount payload.payeePercentage
      asset := ag.asset }

/-- Exact arithmetic, with texts of a fixed number of places. -/
def fixedArithmetic : FloatArithmetic := { decimalArithmetic with toFixed := Number.fixedText }

/-! ## What `resolveDispute` announces -/

/-- The check of `resolveDispute` on the percentages. -/
def acceptsPercentages (F : FloatArithmetic) (payer payee : Number) : Bool :=
  (F.add payer payee).strictEq 100

/-- A call that announces no resolution whose percentages are not accepted. -/
def announcesAccepted (F : FloatArithmetic) : AgreementCall → Prop
  | .emit (.disputeResolved _ _ _ payer payee _) => acceptsPercentages F payer payee = true
  | _ => True

section Announced

variable {F : FloatArithmetic} {now : Js.Timestamp} {α : Type}

theorem silent_announcesAccepted {p : Agreements.AgreementProgram α} (h : Agreements.Silent p) :
    Calls.Only (announcesAccepted F) p := by
  refine Calls.Only.mono h fun c hc => ?_
  cases c with
  | emit event => cases hc
  | _ => trivial

theorem applyStatusChange_announcesAccepted {agreementId wallet : String}
    {target : Agreements.AgreementStatus} {enforce : Bool} {details : List (String × Js.Value)} :
    Calls.Only (announcesAccepted F)
      (Agreements.applyStatusChange now agreementId wallet target enforce details) := by
  refine Calls.only_ask trivial fun found => ?_
  cases found with
  | error e => exact Calls.only_done _
  | ok current =>
      refine (Calls.only_ofExcept _).bind fun refused => ?_
      cases refused with
      | some reason => exact Calls.only_done _
      | none =>
          refine Calls.only_ask trivial fun updated => ?_
          cases updated with
          | error e => exact Calls.only_done _
          | ok _ =>
              refine (silent_announcesAccepted (Agreements.logActivity_silent _)).bind fun _ => ?_
              refine Calls.Only.bind ?_ fun _ => Calls.only_done _
              -- the event of a status is none about disputes
              unfold Agreements.emitStatus Agreements.statusEvent
              dsimp only
              split
              · rename_i event hevent
                split at hevent
                · cases hevent
                  exact Calls.only_ask trivial fun _ => Calls.only_done _
                · split at hevent
                  · cases hevent
                    exact Calls.only_ask trivial fun _ => Calls.only_done _
                  · cases hevent
              · exact Calls.only_done _

/-- **The percentages that are announced are accepted ones.** -/
theorem resolveDispute_announcesAccepted {userId disputeId : String}
    {dto : Disputes.ResolveDisputeDto} :
    Calls.Only (announcesAccepted F) (Disputes.resolveDispute F now userId disputeId dto) := by
  refine (silent_announcesAccepted (Disputes.assertActorWallet_silent _ _)).bind fun _ => ?_
  split
  · exact Calls.only_fail _
  · rename_i hsum
    have haccepted : acceptsPercentages F dto.payerPercentage dto.payeePercentage = true := by
      simpa [acceptsPercentages] using hsum
    refine Calls.only_ask trivial fun found => ?_
    split
    · exact Calls.only_fail _
    · split
      · exact Calls.only_fail _
      · split
        · exact Calls.only_fail _
        · refine Calls.only_ask trivial fun inserted => ?_
          split
          · exact Calls.only_done _
          · refine Calls.only_ask trivial fun _ => ?_
            refine applyStatusChange_announcesAccepted.bind fun result => ?_
            split
            · exact Calls.only_done _
            · refine (silent_announcesAccepted (Agreements.logActivity_silent _)).bind fun _ => ?_
              exact Calls.only_ask haccepted fun _ => Calls.only_done _

end Announced

/-! ## Shares that add up -/

/-- Both shares of the amount end in half a cent, and neither percentage is negative. -/
def SplitsHalfCent (amount : String) (payer payee : ℚ) : Prop :=
  Int.fract (decimalOf amount * payer) = 1 / 2 ∧ 0 ≤ payer ∧ 0 ≤ payee

/-- Accepted percentages are finite, and sum to 100. -/
theorem acceptsPercentages_eq {payer payee : Number}
    (h : acceptsPercentages fixedArithmetic payer payee = true) :
    payer = .finite payer.toRat ∧ payee = .finite payee.toRat ∧
      payer.toRat + payee.toRat = 100 := by
  have hsum : payer + payee = 100 := by
    simp only [acceptsPercentages, Number.strictEq, Bool.decide_and, Bool.and_eq_true,
      decide_eq_true_eq] at h
    exact h.1
  cases payer with
  | nan => cases payee <;> cases hsum
  | infinity s =>
      cases payee with
      | nan => cases hsum
      | infinity t => cases s <;> cases t <;> cases hsum
      | finite q => cases hsum
  | finite p =>
      cases payee with
      | nan => cases hsum
      | infinity t => cases hsum
      | finite q =>
          rw [Number.add_finite, Number.ofNat_eq, Number.finite.injEq] at hsum
          exact ⟨rfl, rfl, by simpa using hsum⟩

/-- A share, in cents, is the nearest integer. -/
theorem shareText_value {amount : String} (hamount : matchesAmountRegex amount = true) (p : ℚ) :
    Number.signedValue (shareText fixedArithmetic (fixedArithmetic.parseFloat amount) (.finite p)) =
      Number.halfAway (decimalOf amount * p) / 100 := by
  have hread : fixedArithmetic.parseFloat amount = .finite (decimalOf amount) :=
    Agreements.readDecimal_of_matches hamount
  have hshare : shareText fixedArithmetic (.finite (decimalOf amount)) (.finite p) =
      Number.fixedText (.finite (decimalOf amount * p / 100)) 2 := rfl
  rw [hread, hshare, Number.fixedText_value]
  norm_num

/-- **Notified amounts.** Of an agreement over whole cents and accepted percentages, the amounts that
are notified add up to the amount of the agreement unless the shares split a cent in halves. -/
theorem notified_amounts_iff {db : AgreementDb} {a : Agreement}
    {payload : DisputeResolvedEventPayload} (hfound : db.agreementAt payload.agreementId = some a)
    (hamount : matchesAmountRegex a.amount = true) {cents : ℕ}
    (hcents : decimalOf a.amount = cents / 100)
    (haccepted : acceptsPercentages fixedArithmetic payload.payerPercentage
      payload.payeePercentage = true) :
    ∃ data, handleDisputeResolved fixedArithmetic db payload = some data ∧
      (Number.signedValue data.refundAmount + Number.signedValue data.releaseAmount =
          decimalOf a.amount ↔
        ¬ SplitsHalfCent a.amount payload.payerPercentage.toRat payload.payeePercentage.toRat) := by
  obtain ⟨hpayer, hpayee, hhundred⟩ := acceptsPercentages_eq haccepted
  set p := payload.payerPercentage.toRat with hp
  set q := payload.payeePercentage.toRat with hq
  refine ⟨_, by rw [handleDisputeResolved, hfound]; rfl, ?_⟩
  dsimp only
  rw [hpayer, hpayee, shareText_value hamount, shareText_value hamount]
  have hsum : decimalOf a.amount * p + decimalOf a.amount * q = cents := by
    rw [← mul_add, hhundred, hcents]
    ring
  have hcast : ((Number.halfAway (decimalOf a.amount * p) : ℚ) / 100 +
      Number.halfAway (decimalOf a.amount * q) / 100 = decimalOf a.amount) ↔
        Number.halfAway (decimalOf a.amount * p) + Number.halfAway (decimalOf a.amount * q) =
          cents := by
    rw [hcents, ← add_div, div_left_inj' (by norm_num)]
    exact_mod_cast Iff.rfl
  rw [hcast, Number.halfAway_add_eq_iff hsum, SplitsHalfCent]
  have hnonneg : 0 ≤ decimalOf a.amount := by
    rw [hcents]
    positivity
  constructor
  · rintro (hfract | hneg | hneg) ⟨htie, hp0, hq0⟩
    · exact hfract htie
    · exact absurd (mul_nonneg hnonneg hp0) (not_le.mpr hneg)
    · exact absurd (mul_nonneg hnonneg hq0) (not_le.mpr hneg)
  · intro hno
    by_contra hall
    obtain ⟨htie, hp0, hq0⟩ : Int.fract (decimalOf a.amount * p) = 1 / 2 ∧
        0 ≤ decimalOf a.amount * p ∧ 0 ≤ decimalOf a.amount * q := by
      push Not at hall
      exact hall
    -- a tie is not zero, so the amount is not
    have hpos : 0 < decimalOf a.amount := by
      refine lt_of_le_of_ne hnonneg fun hzero => ?_
      rw [← hzero, zero_mul, Int.fract_zero] at htie
      norm_num at htie
    exact hno ⟨htie, nonneg_of_mul_nonneg_right hp0 hpos, nonneg_of_mul_nonneg_right hq0 hpos⟩

/-- An agreement over the amount. -/
def agreementOver (amount : String) : Agreement :=
  { id := "i", contractId := none, title := "Site", description := none, amount, asset := none,
    status := some "resolved", agreementType := none, milestones := [], metadata := .null,
    createdBy := "P", fundedAt := none, completedAt := none, createdAt := 0, updatedAt := 0 }

/-- A store that holds it. -/
def storeOver (amount : String) : AgreementDb :=
  Agreements.storeWith (fun _ => none) [agreementOver amount] []

/-- A resolution with these percentages. -/
def resolvedWith (payer payee : Number) : DisputeResolvedEventPayload :=
  ⟨"i", "R", payer, payee, ""⟩

/-- The theorem for a third of a hundred, in whole percent. -/
theorem notified_amounts_third :
    ∃ data, handleDisputeResolved fixedArithmetic (storeOver "100.00") (resolvedWith 33 67) =
        some data ∧
      Number.signedValue data.refundAmount + Number.signedValue data.releaseAmount =
        decimalOf "100.00" := by
  have hfound : (storeOver "100.00").agreementAt (resolvedWith 33 67).agreementId =
      some (agreementOver "100.00") := rfl
  have hcents : decimalOf (agreementOver "100.00").amount = (10000 : ℕ) / 100 := by decide +kernel
  obtain ⟨data, hdata, hiff⟩ := notified_amounts_iff hfound (by decide +kernel) hcents
    (by decide +kernel)
  refine ⟨data, hdata, hiff.mpr ?_⟩
  rintro ⟨htie, -⟩
  exact absurd htie (by decide +kernel)

/-- Half a cent for each is notified as one cent for each. -/
theorem notified_half_cent :
    matchesAmountRegex "0.01" = true ∧ decimalOf "0.01" = 1 / 100 ∧
      acceptsPercentages fixedArithmetic 50 50 = true ∧
      ∃ data, handleDisputeResolved fixedArithmetic (storeOver "0.01") (resolvedWith 50 50) =
          some data ∧ data.refundAmount = "0.01" ∧ data.releaseAmount = "0.01" ∧
        Number.signedValue data.refundAmount + Number.signedValue data.releaseAmount ≠
          decimalOf "0.01" := by
  refine ⟨by decide +kernel, by decide +kernel, by decide +kernel, ?_⟩
  have hdata : (handleDisputeResolved fixedArithmetic (storeOver "0.01") (resolvedWith 50 50)).map
      (fun data => (data.refundAmount, data.releaseAmount)) = some ("0.01", "0.01") := by
    decide +kernel
  obtain ⟨data, hsome, hamounts⟩ := Option.map_eq_some_iff.mp hdata
  obtain ⟨hrefund, hrelease⟩ := Prod.mk.inj hamounts
  refine ⟨data, hsome, hrefund, hrelease, ?_⟩
  rw [hrefund, hrelease]
  decide +kernel

end ThalosBackend.Notifications
