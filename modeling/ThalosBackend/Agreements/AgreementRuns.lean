import ThalosBackend.Disputes.DisputesService
import ThalosBackend.Library.StepSystem
import ThalosBackend.Webhooks.WebhooksService

/-!
# Runs over the agreements

Every request, webhook and job that touches an agreement, with all its arguments and, for those that
ask Trustless Work, with what it answers. `agreementSystem` runs them one after the other, from a
store without agreements; each query of an operation is answered or fails. The wallet tables are
whatever they are and stay so.
-/

set_option autoImplicit false

namespace ThalosBackend.Agreements

open Js (FloatArithmetic Timestamp Value)
open Disputes (AssignResolverDto CancelDisputeDto OpenDisputeDto OpenDisputeResult ResolveDisputeDto
  ResolveDisputeResult)

/-- What is asked of the services. -/
inductive AgreementRequest where
  | create (userId : String) (dto : CreateAgreementDto)
  | linkContract (userId agreementId : String) (dto : LinkContractDto) (fetch : Fetch)
  | updateStatus (userId agreementId : String) (dto : UpdateAgreementStatusDto)
  | updateMilestone (userId agreementId : String) (dto : UpdateMilestoneDto)
  | openDispute (userId : String) (dto : OpenDisputeDto)
  | assignResolver (userId disputeId : String) (dto : AssignResolverDto)
  | resolveDispute (userId disputeId : String) (dto : ResolveDisputeDto)
  | cancelDispute (userId disputeId : String) (dto : CancelDisputeDto)
  | webhook (payload : Value)
  | sync (agreementId : String) (fetch : Fetch)
  | reconcile (agreementId : String) (first second : Fetch)
  | syncStatusTransition (agreementId fromStatus toStatus : String)

/-- A request to the disputes service. -/
def AgreementRequest.isDispute : AgreementRequest → Bool
  | .openDispute _ _ | .assignResolver _ _ _ | .resolveDispute _ _ _ | .cancelDispute _ _ _ => true
  | _ => false

/-- A request and the time it is served at. -/
structure Operation where
  now : Timestamp
  request : AgreementRequest

/-- What an operation is answered with. -/
inductive AgreementAnswer where
  | created (result : CreateResult)
  | done (result : SuccessResult)
  | opened (result : OpenDisputeResult)
  | resolved (result : ResolveDisputeResult)
  | processed
  | synced (result : SyncResult)
  | reconciled (result : ReconcileResult)

/-- The operation behind a request. -/
def Operation.program (F : FloatArithmetic) (o : Operation) : AgreementProgram AgreementAnswer :=
  match o.request with
  | .create userId dto => do return .created (← create F userId dto)
  | .linkContract userId agreementId dto fetch => do
    return .done (← linkContract o.now userId agreementId dto fetch)
  | .updateStatus userId agreementId dto => do
    return .done (← updateStatus o.now userId agreementId dto)
  | .updateMilestone userId agreementId dto => do
    return .done (← updateMilestone F o.now userId agreementId dto)
  | .openDispute userId dto => do return .opened (← Disputes.openDispute o.now userId dto)
  | .assignResolver userId disputeId dto => do
    return .done (← Disputes.assignResolver o.now userId disputeId dto)
  | .resolveDispute userId disputeId dto => do
    return .resolved (← Disputes.resolveDispute F o.now userId disputeId dto)
  | .cancelDispute userId disputeId dto => do
    return .done (← Disputes.cancelDispute o.now userId disputeId dto)
  | .webhook payload => do
    Webhooks.handleEvent o.now payload
    return .processed
  | .sync agreementId fetch => do return .synced (← doSync o.now agreementId fetch)
  | .reconcile agreementId first second => do
    return .reconciled (← doReconcile o.now agreementId first second)
  | .syncStatusTransition agreementId fromStatus toStatus => do
    return .synced (← syncStatusTransition o.now agreementId fromStatus toStatus)

/-- No agreement and no dispute has been stored yet. -/
def AgreementDb.isNew (db : AgreementDb) : Prop :=
  db.agreements = [] ∧ db.disputes = [] ∧ db.resolutions = []

/-- The operations, one after the other. -/
def agreementSystem (F : FloatArithmetic) : StepSystem AgreementDb Operation where
  init := AgreementDb.isNew
  step db o db' := ∃ out, Calls.Runs Executes (o.program F) db out db'

end ThalosBackend.Agreements
