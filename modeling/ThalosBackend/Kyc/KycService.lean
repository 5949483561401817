import ThalosBackend.Js.Coercion
import ThalosBackend.Kyc.KycDb
import ThalosBackend.Library.Calls

/-!
# The KYC service

`kyc/kyc.service.ts`. A user opens a session with the identity provider, and the provider tells of its
outcome by webhooks. `provider` is the name of the provider the service was built with, and `now` the
clock of a request.
-/

set_option autoImplicit false

namespace ThalosBackend.Kyc

open Js (Timestamp Value)
open Calls (Only ask)
open Verification (VerificationRecord VerificationStatus)
open Wallets (Reply)

/-- A program of the service. -/
abbrev KycProgram := Calls HttpException KycCall KycCall.reply

/-- `mapProviderStatus(status)`; `none` is a value outside the enumeration. -/
def mapProviderStatus : Option KycStatus → VerificationStatus
  | some .pending => .pending
  -- the column has no such status
  | some .inReview => .pending
  | some .verified => .verified
  | some .rejected => .rejected
  | some .expired => .expired
  | none => .pending

theorem mapProviderStatus_verified {status : Option KycStatus} :
    mapProviderStatus status = .verified ↔ status = some .verified := by
  rcases status with _ | (_ | _ | _ | _ | _) <;> simp [mapProviderStatus]

/-! ## Sessions -/

/-- `(session.metadata?.status as KycStatus) ?? KycStatus.PENDING`. -/
def SessionResult.providerStatus (session : SessionResult) : Option KycStatus :=
  if (session.metadata.field "status").isNullish then some .pending
  else KycStatus.ofValue (session.metadata.field "status")

/-- `{ ...session.metadata, sessionUrl: session.sessionUrl ?? sessionUrl }`. -/
def SessionResult.mergedMetadata (session : SessionResult) (sessionUrl : String) : Value :=
  .record (spread session.metadata.fields
    [("sessionUrl", .string (session.sessionUrl.getD sessionUrl))])

/-- What a new session sets on a row that is there. -/
def SessionResult.updates (now : Timestamp) (sessionUrl : String) (session : SessionResult) :
    SessionUpdates where
  providerReference := session.providerVerificationId
  status := mapProviderStatus session.providerStatus
  level := .none
  verifiedAt := none
  expiresAt := none
  metadata := session.mergedMetadata sessionUrl
  updatedAt := now

/-- The row of a first session. -/
def SessionResult.row (provider : String) (now : Timestamp) (userId sessionUrl : String)
    (session : SessionResult) : NewVerification where
  subjectId := userId
  provider
  providerReference := session.providerVerificationId
  status := mapProviderStatus session.providerStatus
  level := .none
  verifiedAt := if session.providerStatus = some .verified then some now else none
  metadata := session.mergedMetadata sessionUrl

/-- `findByUserId(userId)`. -/
def findByUserId (provider userId : String) : KycProgram (Option VerificationRecord) := do
  match ← ask (KycCall.findByUser userId provider) with
  | .error e => .fail (.badRequest e.message)
  | .ok data => return data

/-- The update of the row with the id. -/
def updateSession (id : String) (updates : SessionUpdates) : KycProgram VerificationRecord := do
  match ← ask (KycCall.updateVerification id updates) with
  | .error e => .fail (.badRequest e.message)
  | .ok data => return data

/-- The insertion of a first row. -/
def insertSession (new : NewVerification) : KycProgram VerificationRecord := do
  match ← ask (KycCall.insertVerification new) with
  | .error e =>
    -- `unique_violation`: another request has inserted the row first
    if e.code = "23505" then
      match ← findByUserId new.provider new.subjectId with
      | some raced => return raced
      | none => .fail (.badRequest e.message)
    else .fail (.badRequest e.message)
  | .ok data => return data

/-- `upsertVerification(userId, existingId, metadata, sessionUrl)`. -/
def upsertVerification (provider : String) (now : Timestamp) (userId : String)
    (existingId : Option String) (metadata : Value) (sessionUrl : String) :
    KycProgram VerificationRecord := do
  match ← ask (KycCall.createSession provider ⟨userId, metadata⟩) with
  | .error e => .fail e
  | .ok session =>
    match existingId with
    | some id => updateSession id (session.updates now sessionUrl)
    | none => insertSession (session.row provider now userId sessionUrl)

/-- `dto.metadata ?? {}`. -/
def dtoMetadata (metadata : Value) : Value := if metadata.isNullish then .object [] else metadata

/-- What `createSession` does after its first query. -/
def openSession (provider : String) (now : Timestamp) (userId : String) (metadata : Value) :
    Option VerificationRecord → KycProgram VerificationRecord
  | some existing =>
    match existing.status with
    -- a live session: `in_review` is no status of a row
    | .pending => return existing
    | .verified => return existing
    -- `RETRYABLE_STATUSES`
    | .rejected | .expired | .unverified =>
      upsertVerification provider now userId (some existing.id) (dtoMetadata metadata) ""
  | none => upsertVerification provider now userId none (dtoMetadata metadata) ""

/-- `createSession(userId, dto)`. -/
def createSession (provider : String) (now : Timestamp) (userId : String) (metadata : Value) :
    KycProgram VerificationRecord := do
  let existing ← findByUserId provider userId
  openSession provider now userId metadata existing

/-! ## Webhooks -/

/-- What a webhook sets. -/
def WebhookResult.updates (now : Timestamp) (payload : WebhookResult) : WebhookUpdates where
  status := mapProviderStatus (some payload.result.status)
  verifiedAt := if payload.result.status = .verified then some (payload.result.verifiedAt.getD now)
    else none
  updatedAt := now

/-- `handleWebhookProcessed(payload)`. Its outcome is only logged. -/
def handleWebhookProcessed (now : Timestamp) (payload : WebhookResult) : KycProgram Unit := do
  let _ ← ask (KycCall.updateByReference payload.providerVerificationId (payload.updates now))
  return

/-! ## What the service writes -/

/-- What is written of a row goes together: a first session and a webhook set the time of the
verification exactly with the status, a new session for a row clears it. No session gives a level. -/
def KycCall.Writes : KycCall → Prop
  | .insertVerification new => new.level = .none ∧
      (new.status = .verified ↔ new.verifiedAt.isSome = true)
  | .updateVerification _ updates => updates.level = .none ∧ updates.verifiedAt = none ∧
      updates.expiresAt = none
  | .updateByReference _ updates => updates.status = .verified ↔ updates.verifiedAt.isSome = true
  | _ => True

section Writes

variable {provider userId : String} {now : Timestamp} {metadata : Value}

theorem SessionResult.row_writes (session : SessionResult) (sessionUrl : String) :
    (KycCall.insertVerification (session.row provider now userId sessionUrl)).Writes := by
  refine ⟨rfl, mapProviderStatus_verified.trans ?_⟩
  by_cases h : session.providerStatus = some .verified <;> simp [SessionResult.row, h]

theorem WebhookResult.updates_writes (payload : WebhookResult) (providerReference : String) :
    (KycCall.updateByReference providerReference (payload.updates now)).Writes := by
  refine mapProviderStatus_verified.trans ?_
  by_cases h : payload.result.status = .verified <;> simp [WebhookResult.updates, h]

theorem findByUserId_only : Only KycCall.Writes (findByUserId provider userId) := by
  refine Calls.only_ask trivial fun x => ?_
  cases x with
  | error e => trivial
  | ok data => trivial

theorem insertSession_only {new : NewVerification}
    (h : (KycCall.insertVerification new).Writes) : Only KycCall.Writes (insertSession new) := by
  refine Calls.only_ask h fun x => ?_
  cases x with
  | error e =>
      dsimp only
      split
      · refine findByUserId_only.bind fun raced => ?_
        cases raced with
        | none => trivial
        | some raced => trivial
      · trivial
  | ok data => trivial

theorem upsertVerification_only (existingId : Option String) (sessionUrl : String) :
    Only KycCall.Writes
      (upsertVerification provider now userId existingId metadata sessionUrl) := by
  refine Calls.only_ask trivial fun x => ?_
  cases x with
  | error e => trivial
  | ok session =>
      cases existingId with
      | none => exact insertSession_only (session.row_writes sessionUrl)
      | some id =>
          refine Calls.only_ask ⟨rfl, rfl, rfl⟩ fun x => ?_
          cases x with
          | error e => trivial
          | ok data => trivial

theorem createSession_only : Only KycCall.Writes (createSession provider now userId metadata) := by
  refine findByUserId_only.bind fun existing => ?_
  cases existing with
  | none => exact upsertVerification_only none ""
  | some v =>
      rw [openSession]
      cases v.status with
      | pending => trivial
      | verified => trivial
      | _ => exact upsertVerification_only (some v.id) ""

theorem handleWebhookProcessed_only (payload : WebhookResult) :
    Only KycCall.Writes (handleWebhookProcessed now payload) :=
  Calls.only_ask (payload.updates_writes _) fun _ => trivial

end Writes

end ThalosBackend.Kyc
