import ThalosBackend.Kyb.KybDb
import ThalosBackend.Library.Calls

/-!
# The KYB service

`kyb/kyb.service.ts`. A user opens a session for an organization and reads its status, and an admin
reviews it. The name of the provider is the one the service was built with; `now` is the clock of a
request.
-/

set_option autoImplicit false

namespace ThalosBackend.Kyb

open Js (Timestamp nonEmpty)
open Calls (ask)
open Profiles (ProfileRow)
open Wallets (AuthUser Reply)

/-- A program of the service. -/
abbrev KybProgram := Calls HttpException KybCall KybCall.reply

/-! ## Requests -/

/-- `CreateKybSessionDto`. -/
structure CreateKybSessionDto where
  organizationId : String
  businessName : String
  registrationNumber : String
  country : String
  entityType : KybEntityType
  deriving DecidableEq

/-- The statuses a review may give. -/
inductive ReviewStatus where
  | inReview
  | verified
  | rejected
  deriving DecidableEq

def ReviewStatus.status : ReviewStatus → KybStatus
  | .inReview => .inReview
  | .verified => .verified
  | .rejected => .rejected

/-- `ReviewKybSessionDto`. -/
structure ReviewKybSessionDto where
  status : ReviewStatus
  rejectionReason : Option String := none
  deriving DecidableEq

/-- `{ verification }`. -/
structure KybResult where
  verification : KybVerification
  deriving DecidableEq

/-! ## Reading -/

/-- `isAdmin(userId)`. -/
def isAdmin (userId : String) : KybProgram Bool := do
  let authUser ← ask (KybCall.profile (.wallet (.readAuthUser userId)))
  match nonEmpty ((Reply.data authUser).bind AuthUser.walletPublicKey) with
  | none => return false
  | some wallet =>
    let profile ← ask (KybCall.profile (.findByWallet wallet))
    return (Reply.data profile).map ProfileRow.role = some .admin

/-- `findByOrganizationId(organizationId)`. -/
def findByOrganizationId (organizationId : String) : KybProgram (Option KybVerification) := do
  match ← ask (KybCall.findByOrganization organizationId) with
  | .error e => .fail (.badRequest e.message)
  | .ok data => return data

/-- `getStatus(userId, organizationId)`. -/
def getStatus (userId organizationId : String) : KybProgram KybResult := do
  match ← findByOrganizationId organizationId with
  | none => .fail (.notFound "No KYB verification found for this organization")
  | some verification =>
    if verification.requestedBy = userId then return ⟨verification⟩
    else if ← isAdmin userId then return ⟨verification⟩
    else .fail (.forbidden "Not authorized to view this KYB verification")

/-! ## Sessions -/

/-- What the provider is asked. -/
def CreateKybSessionDto.input (dto : CreateKybSessionDto) : CreateVerificationSessionInput where
  organizationId := dto.organizationId
  businessName := dto.businessName
  registrationNumber := dto.registrationNumber
  country := dto.country
  entityType := dto.entityType

/-- `verified_at` of a session. -/
def VerificationSessionResult.verifiedAt (session : VerificationSessionResult) (now : Timestamp) :
    Option Timestamp :=
  if session.initialStatus = .verified then some now else none

/-- What `createSession` sets on a rejected row. -/
def CreateKybSessionDto.updates (provider : String) (now : Timestamp) (dto : CreateKybSessionDto)
    (session : VerificationSessionResult) : VerificationUpdates where
  entityType := some dto.entityType
  businessName := some dto.businessName
  registrationNumber := some dto.registrationNumber
  country := some dto.country
  status := session.initialStatus
  provider := some provider
  providerSessionId := some session.providerSessionId
  rejectionReason := some none
  verifiedAt := session.verifiedAt now
  updatedAt := now

/-- The row that `createSession` inserts. -/
def CreateKybSessionDto.row (provider : String) (now : Timestamp) (userId : String)
    (dto : CreateKybSessionDto) (session : VerificationSessionResult) : NewVerification where
  organizationId := dto.organizationId
  requestedBy := userId
  entityType := dto.entityType
  businessName := dto.businessName
  registrationNumber := dto.registrationNumber
  country := dto.country
  status := session.initialStatus
  provider
  providerSessionId := session.providerSessionId
  verifiedAt := session.verifiedAt now

/-- `this.provider.createVerificationSession(…)`. -/
def createVerificationSession (dto : CreateKybSessionDto) : KybProgram VerificationSessionResult := do
  match ← ask (KybCall.createVerificationSession dto.input) with
  | .error e => .fail e
  | .ok session => return session

/-- The update that begins a rejected verification again. -/
def updateSession (organizationId : String) (updates : VerificationUpdates) :
    KybProgram KybResult := do
  match ← ask (KybCall.updateVerification organizationId updates) with
  | .error e => .fail (.badRequest e.message)
  | .ok data => return ⟨data⟩

/-- What follows an insertion that another request came before. -/
def readRaced (organizationId message : String) : KybProgram KybResult := do
  match ← findByOrganizationId organizationId with
  -- who requested that row is not looked at here
  | some raced => return ⟨raced⟩
  | none => .fail (.badRequest message)

/-- The insertion of a new verification. -/
def insertSession (new : NewVerification) : KybProgram KybResult := do
  match ← ask (KybCall.insertVerification new) with
  | .error e =>
    -- `unique_violation`: another request has inserted the organization first
    if e.code = "23505" then readRaced new.organizationId e.message
    else .fail (.badRequest e.message)
  | .ok data => return ⟨data⟩

/-- What `createSession` does after its first query. -/
def openSession (provider : String) (now : Timestamp) (userId : String) (dto : CreateKybSessionDto) :
    Option KybVerification → KybProgram KybResult
  | some existing =>
    if existing.requestedBy ≠ userId then
      .fail (.forbidden "Not the requester for this organization")
    else if existing.status = .pending ∨ existing.status = .inReview then return ⟨existing⟩
    else if existing.status = .verified then return ⟨existing⟩
    -- rejected: a fresh attempt
    else do
      let session ← createVerificationSession dto
      updateSession dto.organizationId (dto.updates provider now session)
  | none => do
    let session ← createVerificationSession dto
    insertSession (dto.row provider now userId session)

/-- `createSession(userId, dto)`. -/
def createSession (provider : String) (now : Timestamp) (userId : String) (dto : CreateKybSessionDto) :
    KybProgram KybResult := do
  let existing ← findByOrganizationId dto.organizationId
  openSession provider now userId dto existing

/-! ## Reviews -/

/-- What `review` sets. -/
def ReviewKybSessionDto.updates (now : Timestamp) (dto : ReviewKybSessionDto) :
    VerificationUpdates where
  status := dto.status.status
  rejectionReason := if dto.status = .rejected then dto.rejectionReason.map some else some none
  verifiedAt := if dto.status = .verified then some now else none
  updatedAt := now

/-- The event of a review, and its answer. -/
def announce (verification : KybVerification) : KybProgram KybResult :=
  match verification.event with
  | some event => do
    let _ ← ask (KybCall.emit event)
    return ⟨verification⟩
  | none => return ⟨verification⟩

/-- The update of a review. -/
def decideReview (now : Timestamp) (organizationId : String) (dto : ReviewKybSessionDto) :
    KybProgram KybResult := do
  -- the row is found by its organization alone, whatever its status is by now
  match ← ask (KybCall.updateVerification organizationId (dto.updates now)) with
  | .error e => .fail (.badRequest e.message)
  | .ok verification => announce verification

/-- What `review` does for an admin. -/
def reviewAsAdmin (now : Timestamp) (organizationId : String) (dto : ReviewKybSessionDto) :
    KybProgram KybResult := do
  match ← findByOrganizationId organizationId with
  | none => .fail (.notFound "No KYB verification found for this organization")
  | some existing =>
    if existing.status ∈ finalizedStatuses then
      .fail (.badRequest ("Cannot review a verification already finalized as \"" ++
        existing.status.text ++ "\""))
    else decideReview now organizationId dto

/-- `review(userId, organizationId, dto)`. -/
def review (now : Timestamp) (userId organizationId : String) (dto : ReviewKybSessionDto) :
    KybProgram KybResult := do
  if ← isAdmin userId then reviewAsAdmin now organizationId dto
  else .fail (.forbidden "Only admins can review KYB verifications")

end ThalosBackend.Kyb
