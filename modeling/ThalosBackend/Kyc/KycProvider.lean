import ThalosBackend.Common.HttpException
import ThalosBackend.Js.Date

/-!
# KYC providers

`identity-providers/interfaces/kyc-provider.interface.ts` and two of the providers behind it, Sumsub and
Veriff. A provider makes sessions through the client of its vendor, and reads the vendor's webhooks.

The vendors are outside: what a client answers is a parameter.
-/

set_option autoImplicit false

namespace ThalosBackend.Kyc

open Js (Timestamp Value)

inductive KycStatus where
  | pending
  | inReview
  | verified
  | rejected
  | expired
  deriving DecidableEq

/-- The status of a text; every other value is no member of the enumeration. -/
def KycStatus.ofValue : Value → Option KycStatus
  | .string "pending" => some .pending
  | .string "in_review" => some .inReview
  | .string "verified" => some .verified
  | .string "rejected" => some .rejected
  | .string "expired" => some .expired
  | _ => none

/-- `CreateSessionInput`. -/
structure CreateSessionInput where
  userId : String
  metadata : Value
  deriving DecidableEq

/-- `SessionResult`. Metadata that is missing is `undefined`. -/
structure SessionResult where
  providerVerificationId : String
  sessionUrl : Option String
  metadata : Value
  deriving DecidableEq

/-- `VerificationResult`. -/
structure VerificationResult where
  status : KycStatus
  verifiedAt : Option Timestamp
  metadata : Value
  deriving DecidableEq

/-- What `processWebhook` returns. -/
structure WebhookResult where
  providerVerificationId : String
  result : VerificationResult
  deriving DecidableEq

/-- `{ ...base, ...fields }`: a field of both keeps its place and takes the later value. -/
def spread (base fields : List (String × Value)) : List (String × Value) :=
  base.map (fun f => if fields.any (·.1 = f.1) then (f.1, Value.lookup fields f.1) else f) ++
    fields.filter fun f => !base.any (·.1 = f.1)

/-! ## Sumsub -/

/-- What `createApplicant` is answered with: Sumsub's own id, and the id it was given. -/
structure SumsubApplicant where
  id : String
  externalUserId : String
  deriving DecidableEq

/-- The two requests of a session. -/
structure SumsubClient where
  createApplicant : (body : Value) → Except HttpException SumsubApplicant
  generateAccessToken : (applicantId : String) → Except HttpException String

/-- A webhook of Sumsub. -/
structure SumsubEvent where
  applicantId : String
  reviewStatus : String
  reviewAnswer : Option String
  deriving DecidableEq

namespace Sumsub

/-- The body of `createApplicant(userId, metadata)`. -/
def applicantBody (input : CreateSessionInput) : Value :=
  .record (spread [("externalUserId", .string input.userId)] input.metadata.fields)

/-- The session of an applicant. -/
def session (applicant : SumsubApplicant) (token : String) : SessionResult where
  providerVerificationId := applicant.externalUserId
  sessionUrl := some ("https://frontend.sumsub.com/websdk/sdk?accessToken=" ++ token)
  metadata := .object [("applicantId", .string applicant.externalUserId)]

/-- `createSession(input)`. -/
def createSession (client : SumsubClient) (input : CreateSessionInput) :
    Except HttpException SessionResult := do
  let applicant ← client.createApplicant (applicantBody input)
  let token ← client.generateAccessToken applicant.externalUserId
  return session applicant token

/-- The status of a review. -/
def reviewStatus (reviewAnswer : Option String) : KycStatus :=
  if reviewAnswer = some "GREEN" then .verified
  else if reviewAnswer = some "RED" then .rejected
  else .inReview

/-- `processWebhook(payload)`. -/
def processWebhook (event : SumsubEvent) : WebhookResult where
  providerVerificationId := event.applicantId
  result :=
    { status := reviewStatus event.reviewAnswer
      verifiedAt := none
      metadata := .object [("reviewStatus", .string event.reviewStatus)] }

/-- A session carries the id that the vendor has for the account, not its own. -/
theorem createSession_ok {client : SumsubClient} {input : CreateSessionInput}
    {session : SessionResult} (h : createSession client input = .ok session) :
    ∃ applicant, client.createApplicant (applicantBody input) = .ok applicant ∧
      session.providerVerificationId = applicant.externalUserId := by
  obtain ⟨applicant, happlicant, h⟩ := bind_eq_ok.mp h
  obtain ⟨token, -, h⟩ := bind_eq_ok.mp h
  cases h
  exact ⟨applicant, happlicant, rfl⟩

end Sumsub

/-! ## Veriff -/

/-- A webhook of Veriff. -/
structure VeriffEvent where
  sessionId : String
  status : String
  decision : Option String
  deriving DecidableEq

namespace Veriff

/-- The status of an event. -/
def eventStatus : String → KycStatus
  | "pending" => .pending
  | "in_progress" => .inReview
  | "completed" => .verified
  | "failed" => .rejected
  | "expired" => .expired
  | _ => .inReview

/-- `processWebhook(payload)`. -/
def processWebhook (event : VeriffEvent) : WebhookResult where
  providerVerificationId := event.sessionId
  result :=
    { status := eventStatus event.status
      verifiedAt := none
      metadata := .record [("status", .string event.status),
        ("decision", event.decision.elim .undefined .string)] }

end Veriff

end ThalosBackend.Kyc
