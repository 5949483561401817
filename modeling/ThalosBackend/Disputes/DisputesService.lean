import ThalosBackend.Agreements.AgreementsService

/-!
# The disputes service

`disputes/disputes.service.ts`: the operations that write. The service knows one wallet of a user,
the one in `auth_users.wallet_public_key`, and has its own access checks. Each operation writes its
own tables first and then asks the agreements service for the change of status; no transaction holds
the two together. The ids of disputes and agreements are `uuid` values, as in the agreement tables.
-/

set_option autoImplicit false

namespace ThalosBackend.Disputes

open Js (FloatArithmetic Number Timestamp Value nonEmpty)
open Calls (ask)
open Wallets (AuthUser Reply WalletCall)
open Agreements

/-! ## Requests and results -/

structure OpenDisputeDto where
  agreementId : String
  openedBy : String
  reason : String
  evidenceUrls : Option (List String)
  deriving DecidableEq

structure AssignResolverDto where
  resolverWallet : String
  deriving DecidableEq

structure ResolveDisputeDto where
  resolvedBy : String
  payerPercentage : Number
  payeePercentage : Number
  resolutionNotes : Option String
  deriving DecidableEq

structure CancelDisputeDto where
  cancelledBy : String
  deriving DecidableEq

/-- `{ dispute, error }`. -/
structure OpenDisputeResult where
  dispute : Option Dispute
  error : Option String
  deriving DecidableEq

/-- `{ resolution, error }`. -/
structure ResolveDisputeResult where
  resolution : Option DisputeResolution
  error : Option String
  deriving DecidableEq

/-! ## Access -/

/-- `walletForUserId(userId)`. -/
def walletForUserId (userId : String) : AgreementProgram (Option String) := do
  let reply ← ask (AgreementCall.wallet (.readAuthUser userId))
  return nonEmpty ((Reply.data reply).bind AuthUser.walletPublicKey)

/-- `assertActorWallet(userId, actorWallet)`. -/
def assertActorWallet (userId actorWallet : String) : AgreementProgram Unit := do
  let wallet ← walletForUserId userId
  if wallet ≠ some actorWallet then
    .fail (.forbidden "Wallet does not match authenticated user")
  else return ()

/-- `assertCanAccessAgreement(userId, agreementId)`. -/
def assertCanAccessAgreement (userId agreementId : String) : AgreementProgram Unit := do
  match ← walletForUserId userId with
  | none => .fail (.forbidden "No wallet on profile")
  | some wallet =>
    match Reply.data (← ask (AgreementCall.findAgreement agreementId)) with
    | none => .fail (.notFound "Agreement not found")
    | some agreement =>
      if agreement.createdBy = wallet ∨ agreement.createdBy = userId then return ()
      else
        let parts ← ask (AgreementCall.findParticipant agreementId [wallet])
        if (Reply.data parts).isSome then return ()
        else .fail (.forbidden "Not a participant of this agreement")

/-! ## Operations -/

/-- The body of the answer when the agreement refuses the transition. -/
def invalidTransitionBody (message : String) : Value :=
  failureBody (.record [("code", .string "VALIDATION_ERROR"), ("details", .array
    [.record [("field", .string "status"), ("code", .string "INVALID_TRANSITION"),
      ("message", .string message)]])])

/-- `openDispute(userId, dto)`. -/
def openDispute (now : Timestamp) (userId : String) (dto : OpenDisputeDto) :
    AgreementProgram OpenDisputeResult := do
  assertCanAccessAgreement userId dto.agreementId
  assertActorWallet userId dto.openedBy
  let existing ← ask (AgreementCall.findLiveDispute dto.agreementId)
  if (Reply.data existing).isSome then
    return ⟨none, some "There is already an open dispute for this agreement"⟩
  else
    match ← ask (AgreementCall.insertDispute
        ⟨dto.agreementId, dto.openedBy, dto.reason, dto.evidenceUrls.getD []⟩) with
    | .error e => return ⟨none, some e.message⟩
    | .ok dispute =>
      let result ← applyStatusChange now dto.agreementId dto.openedBy .disputed true
        [("dispute_id", .string dispute.id), ("reason", .string dto.reason),
          ("source", .string "dispute")]
      if !result.success then
        .fail (.badRequestBody (invalidTransitionBody
          ((nonEmpty result.error).getD "Invalid status transition")))
      else
        logActivity
          { agreementId := dto.agreementId
            actorWallet := dto.openedBy
            action := "dispute_opened"
            details := .record [("dispute_id", .string dispute.id), ("reason", .string dto.reason)]
            previousState := result.fromStatus
            newState := some "disputed" }
        emit (.disputeOpened dispute.id dto.agreementId dto.openedBy dto.reason)
        return ⟨some dispute, none⟩

/-- `assignResolver(userId, disputeId, dto)`. -/
def assignResolver (now : Timestamp) (userId disputeId : String) (dto : AssignResolverDto) :
    AgreementProgram SuccessResult := do
  match Reply.data (← ask (AgreementCall.findDispute disputeId)) with
  | none => .fail (.notFound "Dispute not found")
  | some dispute =>
    assertCanAccessAgreement userId dispute.agreementId
    if dispute.status ≠ .opened then
      .fail (.badRequest "Can only assign resolver to open disputes")
    else
      match ← ask (AgreementCall.updateDispute disputeId
          { status := .underReview, resolverWallet := some dto.resolverWallet, updatedAt := now }) with
      | .error e => return ⟨false, some e.message⟩
      | .ok () =>
        logActivity
          { agreementId := dispute.agreementId
            actorWallet := dto.resolverWallet
            action := "dispute_resolver_assigned"
            details := .record [("dispute_id", .string disputeId),
              ("resolver_wallet", .string dto.resolverWallet)] }
        return ⟨true, none⟩

/-- `resolveDispute(userId, disputeId, dto)`. -/
def resolveDispute (F : FloatArithmetic) (now : Timestamp) (userId disputeId : String)
    (dto : ResolveDisputeDto) : AgreementProgram ResolveDisputeResult := do
  assertActorWallet userId dto.resolvedBy
  if !(F.add dto.payerPercentage dto.payeePercentage).strictEq 100 then
    .fail (.badRequest "Percentages must sum to 100%")
  else
    match Reply.data (← ask (AgreementCall.findDispute disputeId)) with
    | none => .fail (.notFound "Dispute not found")
    | some dispute =>
      if dispute.status = .resolved then .fail (.badRequest "Dispute is already resolved")
      else if nonEmpty dispute.resolverWallet ≠ some dto.resolvedBy then
        .fail (.forbidden "Only the assigned resolver can resolve this dispute")
      else
        match ← ask (AgreementCall.insertResolution ⟨disputeId, dto.resolvedBy,
            dto.payerPercentage, dto.payeePercentage, dto.resolutionNotes.getD ""⟩) with
        | .error e => return ⟨none, some e.message⟩
        | .ok resolution =>
          -- nobody looks at the result of this update
          let _ ← ask (AgreementCall.updateDispute disputeId
            { status := .resolved, resolvedAt := some now, updatedAt := now })
          let result ← applyStatusChange now dispute.agreementId dto.resolvedBy .resolved true
            [("dispute_id", .string disputeId), ("payer_percentage", .number dto.payerPercentage),
              ("payee_percentage", .number dto.payeePercentage), ("source", .string "dispute")]
          if !result.success then
            return ⟨none, some ((nonEmpty result.error).getD "Failed to mark agreement resolved")⟩
          else
            logActivity
              { agreementId := dispute.agreementId
                actorWallet := dto.resolvedBy
                action := "dispute_resolved"
                details := .record [("dispute_id", .string disputeId),
                  ("payer_percentage", .number dto.payerPercentage),
                  ("payee_percentage", .number dto.payeePercentage),
                  ("resolution_notes", optionalText dto.resolutionNotes)]
                previousState := some (result.fromStatus.getD "disputed")
                newState := some "resolved" }
            emit (.disputeResolved disputeId dispute.agreementId dto.resolvedBy dto.payerPercentage
              dto.payeePercentage (dto.resolutionNotes.getD ""))
            return ⟨some resolution, none⟩

/-- The second half of `cancelDispute`: the agreement goes back to work. -/
def reactivate (now : Timestamp) (disputeId agreementId : String) (dto : CancelDisputeDto) :
    AgreementProgram SuccessResult := do
  let agreement ← ask (AgreementCall.getAgreement agreementId)
  let source := match agreement with
    | .ok a => statusText a.status
    | .error _ => "undefined"
  match validateTransition source "active" with
  | .error e => .fail (.badRequestBody (failureBody e.value))
  | .ok () =>
    let result ← applyStatusChange now agreementId dto.cancelledBy .active false
      [("dispute_id", .string disputeId), ("source", .string "dispute_cancel")]
    if !result.success then
      return ⟨false, some ((nonEmpty result.error).getD "Failed to restore agreement status")⟩
    else
      logActivity
        { agreementId
          actorWallet := dto.cancelledBy
          action := "dispute_cancelled"
          details := .record [("dispute_id", .string disputeId)]
          previousState := some (result.fromStatus.getD "disputed")
          newState := some "active" }
      return ⟨true, none⟩

/-- `cancelDispute(userId, disputeId, dto)`. -/
def cancelDispute (now : Timestamp) (userId disputeId : String) (dto : CancelDisputeDto) :
    AgreementProgram SuccessResult := do
  assertActorWallet userId dto.cancelledBy
  match Reply.data (← ask (AgreementCall.findDispute disputeId)) with
  | none => .fail (.notFound "Dispute not found")
  | some dispute =>
    if dispute.openedBy ≠ dto.cancelledBy then
      .fail (.forbidden "Only the dispute opener can cancel it")
    else if dispute.status = .resolved then
      .fail (.badRequest "Cannot cancel a resolved dispute")
    else
      match ← ask (AgreementCall.updateDispute disputeId
          { status := .cancelled, updatedAt := now }) with
      | .error e => return ⟨false, some e.message⟩
      | .ok () => reactivate now disputeId dispute.agreementId dto

/-! ## What is quiet in them -/

theorem walletForUserId_silent (userId : String) : Silent (walletForUserId userId) :=
  Calls.only_ask rfl fun _ => Calls.only_done _

theorem assertActorWallet_silent (userId actorWallet : String) :
    Silent (assertActorWallet userId actorWallet) := by
  refine (walletForUserId_silent userId).bind fun wallet => ?_
  split
  · exact Calls.only_fail _
  · exact Calls.only_done _

theorem assertCanAccessAgreement_silent (userId agreementId : String) :
    Silent (assertCanAccessAgreement userId agreementId) := by
  refine (walletForUserId_silent userId).bind fun wallet => ?_
  split
  · exact Calls.only_fail _
  · refine Calls.only_ask rfl fun reply => ?_
    split
    · exact Calls.only_fail _
    · split
      · exact Calls.only_done _
      · refine Calls.only_ask rfl fun parts => ?_
        split
        · exact Calls.only_done _
        · exact Calls.only_fail _

theorem assertActorWallet_quiet (userId actorWallet : String) :
    Quiet (assertActorWallet userId actorWallet) :=
  (assertActorWallet_silent userId actorWallet).quiet

theorem assertCanAccessAgreement_quiet (userId agreementId : String) :
    Quiet (assertCanAccessAgreement userId agreementId) :=
  (assertCanAccessAgreement_silent userId agreementId).quiet

end ThalosBackend.Disputes
