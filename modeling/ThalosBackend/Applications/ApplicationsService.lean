import ThalosBackend.Opportunities.OpportunitiesService

/-!
# The applications service

`applications/applications.service.ts`. Builders apply to open opportunities, and the owning Project
accepts or rejects them. The helpers that find the user's profile and the opportunity are those of the
opportunities service, word for word.

To accept is three writes: of the application, of its opportunity, and of the other applications. Nobody
looks at the result of the third.
-/

set_option autoImplicit false

namespace ThalosBackend.Applications

open Calls (ask)
open Opportunities
open Wallets (Reply)

/-! ## Requests -/

/-- `CreateApplicationDto`. -/
structure CreateApplicationDto where
  opportunityId : String
  message : Option String
  deriving DecidableEq

/-- `'accepted' | 'rejected'`. -/
inductive Decision where
  | accepted
  | rejected
  deriving DecidableEq

def Decision.status : Decision → ApplicationStatus
  | .accepted => .accepted
  | .rejected => .rejected

/-- `UpdateApplicationStatusDto`. -/
structure UpdateApplicationStatusDto where
  status : Decision
  deriving DecidableEq

/-- `{ application, error }`. -/
structure ApplicationResult where
  application : Application
  error : Option String
  deriving DecidableEq

/-- `{ applications, error }`. -/
structure ApplicationList where
  applications : List Application
  error : Option String
  deriving DecidableEq

/-! ## Operations -/

/-- The insert of `apply`. -/
def insertApplication (userId : String) (dto : CreateApplicationDto) :
    ConnectProgram ApplicationResult := do
  match ← ask (ConnectCall.insertApplication ⟨dto.opportunityId, userId, dto.message.getD ""⟩) with
  | .error e =>
    if e.code = "23505" then .fail (.conflict "You have already applied to this opportunity")
    else .fail (.badRequest e.message)
  | .ok data => return ⟨data, none⟩

/-- `apply(userId, dto)`. -/
def apply (userId : String) (dto : CreateApplicationDto) : ConnectProgram ApplicationResult := do
  let profileId ← requireCallerProfileId userId
  let opportunity ← load dto.opportunityId
  if opportunity.projectId = profileId then
    .fail (.forbidden "Projects cannot apply to their own opportunities")
  else if opportunity.status ≠ .opened then
    .fail (.conflict "This opportunity is no longer open")
  else insertApplication userId dto

/-- The answer to a query for a list. -/
def listOf (reply : Reply (List Application)) : ConnectProgram ApplicationList :=
  match reply with
  | .error e => .fail (.badRequest e.message)
  | .ok data => return ⟨data, none⟩

/-- `requireProjectProfileId(userId)`, whose error is caught. -/
def projectProfileId (userId : String) : ConnectProgram String := do
  let wallet ← walletForUserId userId
  match wallet with
  | none => return ""
  | some wallet =>
    match Reply.data (← ask (ConnectCall.profile (.findByWallet wallet))) with
    | none => return ""
    | some data => if data.accountType ≠ some .enterprise then return "" else return data.id

/-- `listApplicants(userId, query)`, for the opportunity the query names. -/
def listApplicants (userId opportunityId : String) : ConnectProgram ApplicationList := do
  let opportunity ← load opportunityId
  let profileId ← projectProfileId userId
  if opportunity.projectId = profileId then
    listOf (← ask (ConnectCall.listApplications opportunityId))
  else
    match ← ask (ConnectCall.findOwnApplication opportunityId userId) with
    | .error e => .fail (.badRequest e.message)
    | .ok data => return ⟨data.toList, none⟩

/-- The last write of an acceptance. -/
def rejectOthers (opportunityId applicationId : String) (data : Application) :
    ConnectProgram ApplicationResult := do
  -- the error of this query is not read
  let _ ← ask (ConnectCall.rejectOthers opportunityId applicationId)
  return ⟨data, none⟩

/-- The writes of an acceptance after the first. -/
def fillOpportunity (opportunityId applicationId : String) (data : Application) :
    ConnectProgram ApplicationResult := do
  match ← ask (ConnectCall.fillOpportunity opportunityId) with
  | .error e => .fail (.badRequest
      ("Application accepted but failed to mark opportunity as filled: " ++ e.message))
  | .ok () => rejectOthers opportunityId applicationId data

/-- The writes of `updateStatus`. -/
def decideApplication (opportunityId applicationId : String) (decision : Decision) :
    ConnectProgram ApplicationResult := do
  -- the row is found by its id alone: it need not be pending any more
  match ← ask (ConnectCall.setApplicationStatus applicationId decision.status) with
  | .error e => .fail (.badRequest e.message)
  | .ok data =>
    match decision with
    | .accepted => fillOpportunity opportunityId applicationId data
    | .rejected => return ⟨data, none⟩

/-- `assertOpportunityOwner(userId, opportunityId)`. -/
def assertOpportunityOwner (userId opportunityId : String) : ConnectProgram Opportunity :=
  assertOwner userId opportunityId "Only the owning Project can perform this action"

/-- `updateStatus(userId, applicationId, dto)`. -/
def updateStatus (userId applicationId : String) (dto : UpdateApplicationStatusDto) :
    ConnectProgram ApplicationResult := do
  match Reply.data (← ask (ConnectCall.findApplication applicationId)) with
  | none => .fail (.notFound ("Application " ++ applicationId ++ " not found"))
  | some existing =>
    let _ ← assertOpportunityOwner userId existing.opportunityId
    if existing.status ≠ .pending then
      .fail (.conflict ("Application is already " ++ existing.status.text ++
        " and cannot be changed"))
    else decideApplication existing.opportunityId applicationId dto.status

/-! ## What only reads -/

theorem listApplicants_reads (userId opportunityId : String) :
    ReadsOnly (listApplicants userId opportunityId) := by
  have hproject : ReadsOnly (projectProfileId userId) := by
    refine ⟨rfl, fun user _ => ?_⟩
    change ReadsOnly ((Calls.done _ : ConnectProgram (Option String)) >>= _)
    rw [Calls.done_bind]
    split
    · exact Calls.only_done _
    · refine Calls.only_ask rfl fun found => ?_
      split
      · exact Calls.only_done _
      · split
        · exact Calls.only_done _
        · exact Calls.only_done _
  apply (load_reads opportunityId).bind
  intro opportunity
  apply hproject.bind
  intro profileId
  split
  · refine Calls.only_ask rfl fun rows => ?_
    cases rows with
    | error e => exact Calls.only_fail _
    | ok data => exact Calls.only_done _
  · refine Calls.only_ask rfl fun found => ?_
    cases found with
    | error e => exact Calls.only_fail _
    | ok data => exact Calls.only_done _

end ThalosBackend.Applications
