import ThalosBackend.InternalTrustless.EscrowWrite
import ThalosBackend.RetryQueue.RetryQueueService

/-!
# The write endpoints

`internal-trustless/escrows.controller.ts`: each write endpoint computes the idempotency key and the
request of one `BackstoppedWrite`, and `writeWithBackstop` relays it and enqueues it when the relay
fails in a way that a retry can mend. `resolveDispute` reads the escrow first, and everything that
can refuse the resolution runs before the write exists.
-/

set_option autoImplicit false

namespace ThalosBackend.InternalTrustless

open Js (Number Value Timestamp)
open Disputes (Distribution DistributionError)
open RetryQueue (RetryJobType EnqueueRequest)

/-- The arguments of `writeWithBackstop`. -/
structure BackstoppedWrite where
  jobType : RetryJobType
  idempotencyKey : String
  request : RelayRequest
  deriving DecidableEq

/-! ## The endpoints -/

def createEscrow (env : EscrowEnv) (now : Timestamp) (dto : CreateEscrowDto) : BackstoppedWrite where
  jobType := .agreementCreation
  idempotencyKey := "agreement_creation:" ++ generateEngagementId dto.serviceType now
  request := buildCreateEscrowRequest env now dto

def fundEscrow (dto : FundEscrowDto) : BackstoppedWrite where
  jobType := .paymentExecution
  idempotencyKey := "payment_execution:fund:" ++ dto.contractId ++ ":" ++ dto.signer ++ ":" ++
    (Number.finite dto.amount).toText
  request := buildFundEscrowRequest dto

def approveMilestone (dto : ApproveMilestoneDto) : BackstoppedWrite where
  jobType := .milestoneUpdate
  idempotencyKey := "milestone_update:approve:" ++ dto.contractId ++ ":" ++ dto.milestoneIndex
  request := buildApproveMilestoneRequest dto

/-- The write of `changeMilestoneStatus`, once `assertEscrowFunded` has let the request through. -/
def changeMilestoneStatus (dto : ChangeMilestoneStatusDto) : BackstoppedWrite where
  jobType := .milestoneUpdate
  idempotencyKey := "milestone_update:status:" ++ dto.contractId ++ ":" ++ dto.milestoneIndex ++
    ":" ++ dto.newStatus
  request := buildChangeMilestoneStatusRequest dto

def releaseFunds (dto : ReleaseFundsDto) : BackstoppedWrite where
  jobType := .paymentExecution
  idempotencyKey := "payment_execution:release:" ++ dto.contractId ++ ":" ++ dto.releaseSigner ++
    ":" ++ dto.milestoneIndex.orElse "all"
  request := buildReleaseFundsRequest dto

/-- The body of the 400 answer to a resolution that cannot be split. -/
def invalidDistribution (e : DistributionError) : HttpException :=
  .badRequestBody (.record [("message", .string e.message), ("code", .string "INVALID_DISTRIBUTION")])

/-- Percentages to amounts, against what this escrow type splits. -/
def splitByPercentage (dto : ResolveDisputeDto) (escrow : EscrowSnapshot)
    (rounded : Number → Number := fun x => x) : Except HttpException (List Distribution) := do
  let total ← resolutionTotal escrow dto.type dto.milestoneIndex.text?
  (Disputes.buildDistributions ⟨dto.type, total, dto.allocations⟩ rounded).mapError
    invalidDistribution

/-- `${milestoneIndex ?? 'all'}`, unless the conversion to text throws. -/
def milestoneText (milestoneIndex : Value) : Except HttpException String :=
  if milestoneIndex.isNullish then .ok "all"
  else match milestoneIndex.toText with
    | some text => .ok text
    | none => .error .internal

/-- The write of a resolution whose amounts are known. -/
def resolveWrite (dto : ResolveDisputeDto) (distributions : List Distribution) (index : String) :
    BackstoppedWrite where
  jobType := .paymentExecution
  idempotencyKey := "payment_execution:resolve:" ++ dto.contractId ++ ":" ++ dto.disputeResolver ++
    ":" ++ index
  request := buildResolveDisputeRequest dto distributions

/-- `resolveDispute`, up to the call of `writeWithBackstop`. -/
def resolveDispute (toUpperCase : String → String)
    (assertRecipientsCanReceive : List String → Option EscrowAsset → Except HttpException Unit)
    (relayed : Relayed) (dto : ResolveDisputeDto) (rounded : Number → Number := fun x => x) :
    Except HttpException BackstoppedWrite := do
  let escrow ← readEscrow dto.contractId relayed
  assertResolvable toUpperCase escrow dto.type dto.disputeResolver dto.milestoneIndex.text?
  let distributions ← splitByPercentage dto escrow rounded
  assertRecipientsCanReceive (distributions.map Distribution.address) escrow.trustline
  let index ← milestoneText dto.milestoneIndex
  return resolveWrite dto distributions index

/-! ## The backstop -/

/-- How `relayWrite` ends: with the answer's body, with a `TrustlessRelayError` for an answer of
status 400 or more, or with another error (of the network, or of the configuration). -/
inductive RelayOutcome where
  | answered (data : Value)
  | relayError (upstreamStatus : ℕ) (data : Value)
  | failed (error : HttpException)

/-- `relayWrite(path, body)`, from what the relay does. -/
def relayWrite (relayed : Relayed) : RelayOutcome :=
  match relayed with
  | .error e => .failed e
  | .ok result =>
    if 400 ≤ result.status then .relayError result.status result.data
    else .answered result.data

/-- What the payload column of a job holds: a request of this controller, or an event the webhook
receiver has enqueued. -/
inductive JobPayload where
  | relay (request : RelayRequest)
  | webhook (event : Value)
  deriving DecidableEq

/-- The enqueue call of the backstop. -/
def BackstoppedWrite.job (write : BackstoppedWrite) : EnqueueRequest JobPayload where
  jobType := write.jobType
  payload := .relay write.request
  idempotencyKey := write.idempotencyKey
  maxAttempts := none

/-- What `writeWithBackstop` enqueues after the relay: nothing when there was an answer or an error
of the request's own, the request itself when a retry may help. -/
def writeWithBackstop (write : BackstoppedWrite) (relayed : Relayed) :
    Option (EnqueueRequest JobPayload) :=
  match relayWrite relayed with
  | .answered _ => none
  | .relayError status _ => if status < 500 then none else some write.job
  | .failed _ => some write.job

end ThalosBackend.InternalTrustless
