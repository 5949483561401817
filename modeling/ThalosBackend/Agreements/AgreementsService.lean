import ThalosBackend.Agreements.AgreementSyncService

/-!
# The agreements service

`agreements/agreements.service.ts`: the operations that write an agreement. `applyStatusChange` is
what the disputes service calls; it checks the transition only when it is told to.

The clock is read once per operation. What Trustless Work answers to `linkContract` is given with it.
-/

set_option autoImplicit false

namespace ThalosBackend.Agreements

open Js (FloatArithmetic Timestamp Value nonEmpty)
open Calls (ask)

/-! ## Requests -/

/-- `MilestoneDto`. -/
structure MilestoneDto where
  description : String
  amount : String
  status : MilestoneStatus
  deriving DecidableEq

def MilestoneDto.milestone (dto : MilestoneDto) : Milestone where
  description := .string dto.description
  amount := dto.amount
  status := dto.status

/-- `CreateAgreementDto`. -/
structure CreateAgreementDto where
  contractId : Option String
  title : String
  description : Option String
  amount : String
  asset : Option String
  agreementType : Option String
  milestones : Option (List MilestoneDto)
  metadata : Option Value
  createdBy : String
  participants : List ParticipantInput
  deriving DecidableEq

/-- What the validator looks at. -/
def CreateAgreementDto.input (dto : CreateAgreementDto) : AgreementInput where
  title := dto.title
  description := dto.description
  amount := dto.amount
  asset := dto.asset
  agreementType := dto.agreementType
  milestones := dto.milestones.map fun ms => ms.map fun m => ⟨m.description, some m.amount⟩
  participants := dto.participants

/-- `agreementRow`. -/
def CreateAgreementDto.row (dto : CreateAgreementDto) : NewAgreement where
  contractId := dto.contractId
  title := dto.title
  description := dto.description
  amount := dto.amount
  asset := dto.asset.getD "USDC"
  status := "pending"
  agreementType := dto.agreementType.getD "single"
  milestones := (dto.milestones.getD []).map MilestoneDto.milestone
  metadata := dto.metadata.getD (.object [])
  createdBy := dto.createdBy

structure LinkContractDto where
  contractId : String
  actorWallet : String
  deriving DecidableEq

structure UpdateAgreementStatusDto where
  status : AgreementStatus
  actorWallet : String
  deriving DecidableEq

/-- `UpdateMilestoneDto`; a field that is not there is `none`, and `null` is `some none`. -/
structure UpdateMilestoneDto where
  milestoneIndex : ℕ
  status : MilestoneStatus
  actorWallet : String
  evidenceDescription : Option (Option String)
  evidenceUrls : Option (Option (List String))
  deriving DecidableEq

/-- `emitsEvidence`. -/
def UpdateMilestoneDto.emitsEvidence (dto : UpdateMilestoneDto) : Bool :=
  dto.evidenceDescription.isSome || dto.evidenceUrls.isSome

/-- `{ agreement, error }`; the error is a text or the body of a validation error. -/
structure CreateResult where
  agreement : Option Agreement
  error : Option Value
  deriving DecidableEq

/-- `{ success, error }`. -/
structure SuccessResult where
  success : Bool
  error : Option String
  deriving DecidableEq

/-! ## Create and link -/

/-- The activity entries of the milestones of a new agreement. -/
def logMilestonesCreated (agreementId createdBy : String) :
    List (Milestone × ℕ) → AgreementProgram Unit
  | [] => return ()
  | (milestone, index) :: rest => do
    logActivity
      { agreementId
        actorWallet := createdBy
        action := "milestone_created"
        details := .record [("milestone_index", .number (.finite index)),
          ("milestone_description", milestone.description)]
        newState := some milestone.status.text }
    logMilestonesCreated agreementId createdBy rest

/-- What `create` does after the insert of the participants. -/
def afterCreate (dto : CreateAgreementDto) (agreement : Agreement) :
    AgreementProgram CreateResult := do
  logActivity
    { agreementId := agreement.id
      actorWallet := dto.createdBy
      action := "created"
      details := .record [("title", .string dto.title), ("amount", .string dto.amount)] }
  logMilestonesCreated agreement.id dto.createdBy agreement.milestones.zipIdx
  emit (.created agreement.id dto.title dto.description dto.amount (dto.asset.getD "USDC")
    dto.createdBy (dto.participants.map ParticipantInput.walletAddress))
  if (nonEmpty agreement.contractId).isSome then
    inBackground (.syncAgreement agreement.id)
    return ⟨some agreement, none⟩
  else return ⟨some agreement, none⟩

/-- `create(userId, dto)`. -/
def create (F : FloatArithmetic) (userId : String) (dto : CreateAgreementDto) :
    AgreementProgram CreateResult := do
  match validateAgreement F dto.input with
  | .error e => return ⟨none, some e.value⟩
  | .ok () =>
    assertActorWallet userId dto.createdBy
    match ← ask (AgreementCall.insertAgreement dto.row) with
    | .error e => return ⟨none, some (.string e.message)⟩
    | .ok agreement =>
      match ← ask (AgreementCall.insertParticipants
          (dto.participants.map fun p => ⟨agreement.id, p.walletAddress, p.role⟩)) with
      | .error e =>
        let _ ← ask (AgreementCall.deleteAgreement agreement.id)
        .fail (.badRequest ("Failed to create agreement participants: " ++ e.message))
      | .ok () => afterCreate dto agreement

/-- `linkContract(userId, agreementId, dto)`. -/
def linkContract (now : Timestamp) (userId agreementId : String) (dto : LinkContractDto)
    (fetch : Fetch) : AgreementProgram SuccessResult := do
  assertCanAccessAgreement userId agreementId
  assertActorWallet userId dto.actorWallet
  let validation := validateContractOnTrustless dto.contractId fetch
  if !validation.valid then
    return ⟨false, some (validation.error.getD "Contract not found on Trustless Work")⟩
  else
    match ← ask (AgreementCall.updateAgreement agreementId
        { contractId := some dto.contractId, updatedAt := now }) with
    | .error e => return ⟨false, some e.message⟩
    | .ok () =>
      logActivity
        { agreementId
          actorWallet := dto.actorWallet
          action := "contract_linked"
          details := .record [("contract_id", .string dto.contractId)] }
      inBackground (.syncAgreement agreementId)
      return ⟨true, none⟩

/-! ## Status -/

/-- The update that stores a status, with the time of the statuses that have one. -/
def statusUpdates (now : Timestamp) (toStatus : String) : AgreementUpdates where
  status := some (some toStatus)
  fundedAt := if toStatus = "funded" then some now else none
  completedAt := if toStatus = "completed" ∨ toStatus = "resolved" then some now else none
  updatedAt := now

/-- `milestonesSatisfyCompletion(milestones)`. -/
def milestonesSatisfyCompletion (milestones : List Milestone) : Bool :=
  milestones.all fun m => m.status = .approved ∨ m.status = .released

/-- The body of the answer when milestones are open. -/
def openMilestonesBody : Value :=
  failureBody (.record [("code", .string "VALIDATION_ERROR"), ("details", .array
    [.record [("field", .string "status"), ("code", .string "INVALID_TRANSITION"), ("message",
      .string
        "All milestones must be approved or released before the agreement can be completed")]])])

/-- The entry about a change of status. -/
def statusActivity (agreementId wallet : String) (source : Option String) (target : String)
    (details : List (String × Value)) : Activity where
  agreementId
  actorWallet := wallet
  action := "status_changed_to_" ++ target
  details := .record ([("status", .string target), ("from", nullableText source),
    ("to", .string target)] ++ details)
  previousState := source
  newState := some target

/-- `updateStatus(userId, agreementId, dto)`. -/
def updateStatus (now : Timestamp) (userId agreementId : String) (dto : UpdateAgreementStatusDto) :
    AgreementProgram SuccessResult := do
  let target := dto.status.text
  assertCanAccessAgreement userId agreementId
  assertActorWallet userId dto.actorWallet
  match ← ask (AgreementCall.getAgreement agreementId) with
  | .error e => return ⟨false, some e.message⟩
  | .ok current =>
    let source := statusText current.status
    match ← Calls.ofExcept (AgreementValidationService.validateTransition source target) with
    | some reason => .fail (.badRequestBody (failureBody (.string reason)))
    | none =>
      if dto.status = .completed ∧ !milestonesSatisfyCompletion current.milestones then
        .fail (.badRequestBody openMilestonesBody)
      else
        match ← ask (AgreementCall.updateAgreement agreementId (statusUpdates now target)) with
        | .error e => return ⟨false, some e.message⟩
        | .ok () =>
          logActivity (statusActivity agreementId dto.actorWallet current.status target [])
          inBackground (.syncStatusTransition agreementId source target)
          emitStatus now current agreementId dto.actorWallet target
          return ⟨true, none⟩

/-- `{ success, error, fromStatus }`. -/
structure StatusChangeResult where
  success : Bool
  error : Option String
  fromStatus : Option String := none
  deriving DecidableEq

/-- The check of `applyStatusChange`, made when it enforces the transition: the reason of a
refusal. -/
def enforced (enforceTransition : Bool) (source target : String) :
    Except HttpException (Option String) :=
  if enforceTransition then AgreementValidationService.validateTransition source target
  else .ok none

/-- `applyStatusChange(agreementId, actorWallet, toStatus, options)`. No caller names a status to
come from. -/
def applyStatusChange (now : Timestamp) (agreementId actorWallet : String)
    (toStatus : AgreementStatus) (enforceTransition : Bool) (details : List (String × Value)) :
    AgreementProgram StatusChangeResult := do
  let target := toStatus.text
  match ← ask (AgreementCall.getAgreement agreementId) with
  | .error e => return { success := false, error := some e.message }
  | .ok current =>
    let source := statusText current.status
    match ← Calls.ofExcept (enforced enforceTransition source target) with
    | some reason => return { success := false, error := some reason }
    | none =>
      match ← ask (AgreementCall.updateAgreement agreementId (statusUpdates now target)) with
      | .error e => return { success := false, error := some e.message }
      | .ok () =>
        logActivity (statusActivity agreementId actorWallet current.status target details)
        emitStatus now current agreementId actorWallet target
        return { success := true, error := none, fromStatus := current.status }

/-! ## Milestones -/

/-- The entry of the column after `updateMilestone`. -/
def Milestone.update (now : Timestamp) (dto : UpdateMilestoneDto) (m : Milestone) : Milestone :=
  { m with
    status := dto.status
    evidenceDescription := dto.evidenceDescription.getD m.evidenceDescription
    evidenceUrls := dto.evidenceUrls.getD m.evidenceUrls
    evidenceSubmittedAt := if dto.emitsEvidence then some now else m.evidenceSubmittedAt }

/-- The events of `updateMilestone`, in order. -/
def milestoneEvents (agreement : Agreement) (agreementId : String) (dto : UpdateMilestoneDto)
    (previous : MilestoneStatus) (m : Milestone) : List AgreementEvent :=
  let asset := agreement.asset.getD "USDC"
  (if dto.emitsEvidence then
    [.evidenceSubmitted agreement.id agreement.title dto.milestoneIndex m.description m.amount asset
      dto.actorWallet dto.evidenceDescription.join dto.evidenceUrls.join] else []) ++
  (if previous ≠ .approved ∧ dto.status = .approved then
    [.milestoneApproved agreement.id agreement.title dto.milestoneIndex m.description m.amount asset
      dto.actorWallet agreement.contractId agreement.agreementType] else []) ++
  if dto.status = .released then
    [.milestoneReleased agreementId agreement.title dto.milestoneIndex m.description m.amount asset
      agreement.contractId agreement.agreementType dto.actorWallet dto.evidenceDescription.join]
  else []

def emitAll : List AgreementEvent → AgreementProgram Unit
  | [] => return ()
  | event :: rest => do
    emit event
    emitAll rest

/-- `updateMilestone(userId, agreementId, dto)`. -/
def updateMilestone (F : FloatArithmetic) (now : Timestamp) (userId agreementId : String)
    (dto : UpdateMilestoneDto) : AgreementProgram SuccessResult := do
  assertCanAccessAgreement userId agreementId
  assertActorWallet userId dto.actorWallet
  match ← ask (AgreementCall.getAgreement agreementId) with
  | .error e => return ⟨false, some e.message⟩
  | .ok agreement =>
    match agreement.milestones[dto.milestoneIndex]? with
    | none => return ⟨false, some "Invalid milestone index"⟩
    | some milestone =>
      let updated := milestone.update now dto
      let milestones := agreement.milestones.set dto.milestoneIndex updated
      match ← Calls.ofExcept (validateAgreementConsistency F agreement.amount milestones) with
      | .error e => .fail (.badRequestBody (failureBody e.value))
      | .ok () =>
        match ← ask (AgreementCall.updateAgreement agreementId
            { milestones := some milestones, updatedAt := now }) with
        | .error e => return ⟨false, some e.message⟩
        | .ok () =>
          logActivity
            { agreementId
              actorWallet := dto.actorWallet
              action := "milestone_" ++ dto.status.text
              details := .record [("milestone_index", .number (.finite dto.milestoneIndex)),
                ("milestone_description", updated.description),
                ("from", milestone.status.value), ("to", dto.status.value),
                ("milestone_amount", .string updated.amount),
                ("asset", .string (agreement.asset.getD "USDC")),
                ("evidence_description", dto.evidenceDescription.elim .undefined nullableText),
                ("evidence_urls", dto.evidenceUrls.elim .undefined fun urls =>
                  urls.elim .null fun texts => .array (texts.map .string))]
              previousState := some milestone.status.text
              newState := some dto.status.text }
          emitAll (milestoneEvents agreement agreementId dto milestone.status updated)
          inBackground (.syncAgreement agreementId)
          return ⟨true, none⟩

/-! ## What is quiet in them -/

theorem logMilestonesCreated_silent (agreementId createdBy : String)
    (entries : List (Milestone × ℕ)) :
    Silent (logMilestonesCreated agreementId createdBy entries) := by
  induction entries with
  | nil => exact Calls.only_done _
  | cons entry rest ih => exact (logActivity_silent _).bind fun _ => ih

theorem logMilestonesCreated_quiet (agreementId createdBy : String)
    (entries : List (Milestone × ℕ)) :
    Quiet (logMilestonesCreated agreementId createdBy entries) :=
  (logMilestonesCreated_silent agreementId createdBy entries).quiet

theorem emitAll_quiet (events : List AgreementEvent) : Quiet (emitAll events) := by
  induction events with
  | nil => exact quiet_done _
  | cons event rest ih => exact (emit_quiet event).bind fun _ => ih

theorem emitStatus_quiet (now : Timestamp) (agreement : Agreement)
    (agreementId wallet toStatus : String) :
    Quiet (emitStatus now agreement agreementId wallet toStatus) := by
  unfold emitStatus
  split
  · exact emit_quiet _
  · exact quiet_done _

theorem logSyncActivity_silent (now : Timestamp) (agreementId action : String)
    (details : List (String × Value)) : Silent (logSyncActivity now agreementId action details) :=
  logActivity_silent _

theorem logSyncActivity_quiet (now : Timestamp) (agreementId action : String)
    (details : List (String × Value)) : Quiet (logSyncActivity now agreementId action details) :=
  logActivity_quiet _

theorem ofExcept_quiet {α : Type} (x : Except HttpException α) :
    Quiet (Calls.ofExcept x : AgreementProgram α) :=
  Calls.only_ofExcept x

theorem syncParticipants_silent (agreementId : String) (escrow : Value) :
    Silent (syncParticipants agreementId escrow) := by
  refine Calls.only_ask rfl fun reply => ?_
  refine (Calls.only_ofExcept _).bind fun sender => ?_
  refine (Calls.only_ofExcept _).bind fun receiver => ?_
  refine (Calls.only_ofExcept _).bind fun approver => ?_
  dsimp only
  split
  · exact Calls.only_done _
  · exact Calls.only_ask rfl fun _ => Calls.only_done _

theorem syncParticipants_quiet (agreementId : String) (escrow : Value) :
    Quiet (syncParticipants agreementId escrow) :=
  (syncParticipants_silent agreementId escrow).quiet

theorem logReconciled_quiet (now : Timestamp) (agreementId : String) (agreement : Agreement)
    (escrow : Value) : Quiet (logReconciled now agreementId agreement escrow) :=
  logSyncActivity_quiet _ _ _ _

theorem afterCreate_quiet (dto : CreateAgreementDto) (agreement : Agreement) :
    Quiet (afterCreate dto agreement) := by
  refine (logActivity_quiet _).bind fun _ => ?_
  refine (logMilestonesCreated_quiet _ _ _).bind fun _ => ?_
  refine (emit_quiet _).bind fun _ => ?_
  split
  · exact (inBackground_quiet _).bind fun _ => quiet_done _
  · exact quiet_done _

theorem syncStatusTransition_quiet (now : Timestamp) (agreementId fromStatus toStatus : String) :
    Quiet (syncStatusTransition now agreementId fromStatus toStatus) := by
  refine (ofExcept_quiet _).bind fun refused => ?_
  split
  · exact (logSyncActivity_quiet _ _ _ _).bind fun _ => quiet_done _
  · refine quiet_ask rfl fun reply => ?_
    split
    · exact quiet_done _
    · refine (emitStatus_quiet _ _ _ _ _).bind fun _ => ?_
      exact (logSyncActivity_quiet _ _ _ _).bind fun _ => quiet_done _

end ThalosBackend.Agreements
