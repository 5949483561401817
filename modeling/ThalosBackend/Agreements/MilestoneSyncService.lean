import ThalosBackend.Agreements.MoneyIdentity
import ThalosBackend.InternalTrustless.EscrowWrite

/-!
# Milestone helpers of the synchronisation

`agreements/milestone-sync/milestone-sync.service.ts`. What is pushed to Trustless Work is a request
for it to build a transaction; what comes from there is classified, and somebody else writes it.

The payload of a push is not validated, so its status need not be one that the write endpoint admits.
-/

set_option autoImplicit false

namespace ThalosBackend.Agreements

open InternalTrustless (ApproveMilestoneDto ChangeMilestoneStatusDto Relayed RelayRequest ServiceType
  assertEscrowFunded buildApproveMilestoneRequest buildChangeMilestoneStatusRequest)

/-! ## What is pushed -/

inductive MilestoneSyncAction where
  | approve
  | changeStatus
  deriving DecidableEq

structure MilestoneSyncPayload where
  contractId : String
  agreementType : String
  milestoneIndex : String
  action : MilestoneSyncAction
  approver : Option String
  serviceProvider : Option String
  newEvidence : Option String
  newStatus : Option String
  deriving DecidableEq

/-- `toTWServiceType(agreementType)`. -/
def toTWServiceType (agreementType : String) : ServiceType :=
  if agreementType = "multi" then .multiRelease else .singleRelease

/-- `buildChangeMilestoneStatusRequest` of fields nobody has validated. -/
def changeStatusRequest (type : ServiceType)
    (contractId milestoneIndex newEvidence newStatus serviceProvider : String) : RelayRequest where
  path := "escrow/" ++ type.text ++ "/change-milestone-status"
  body := .record [("contractId", .string contractId), ("milestoneIndex", .string milestoneIndex),
    ("newEvidence", .string newEvidence), ("newStatus", .string newStatus),
    ("serviceProvider", .string serviceProvider)]

/-- `pushMilestoneToTW(payload)`, up to the relay: the request that is relayed. `funding` is the answer
that `assertEscrowFunded` gets, if it is asked. -/
def pushMilestoneToTW (funding : Relayed) (payload : MilestoneSyncPayload) :
    Except HttpException RelayRequest :=
  let type := toTWServiceType payload.agreementType
  match payload.action with
  | .approve => .ok (buildApproveMilestoneRequest
      { contractId := payload.contractId
        milestoneIndex := payload.milestoneIndex
        approver := payload.approver.getD ""
        type })
  | .changeStatus => do
    assertEscrowFunded payload.contractId funding
    return changeStatusRequest type payload.contractId payload.milestoneIndex
      (payload.newEvidence.getD "") (payload.newStatus.getD "") (payload.serviceProvider.getD "")

/-! ## What comes from Trustless Work -/

/-- The `terminal` set of `detectConflict`. -/
def settledStatuses : List String := ["approved", "released", "rejected", "cancelled"]

/-- `detectConflict(localStatus, twStatus)`. -/
def detectConflict (localStatus twStatus : String) : Bool :=
  if localStatus ∉ settledStatuses then false
  else if localStatus = twStatus then false
  else if localStatus = "approved" ∧ twStatus = "released" then false
  else twStatus ∈ settledStatuses

/-- What `applyTWMilestoneUpdate` decides. -/
inductive TWUpdate where
  | applied
  | skipped
  | conflict
  deriving DecidableEq

/-- `applyTWMilestoneUpdate({ currentLocalStatus, twStatus })`. -/
def applyTWMilestoneUpdate (currentLocalStatus twStatus : String) : TWUpdate :=
  match normalizeMilestoneStatus (.string twStatus) with
  | none => .conflict
  | some status =>
    if currentLocalStatus = status.text then .skipped
    else if detectConflict currentLocalStatus status.text then .conflict
    else .applied

/-- Of two canonical statuses, the same one is skipped, and no other. -/
theorem applyTWMilestoneUpdate_skipped {current upstream : MilestoneStatus} :
    applyTWMilestoneUpdate current.text upstream.text = .skipped ↔ current = upstream := by
  cases current <;> cases upstream <;> decide

end ThalosBackend.Agreements
