import ThalosBackend.Kyc.KycService

/-!
# The identity providers

`src/identity-providers`: the six providers behind `IKycProvider`, the guard of the webhook route,
and the requests that reach the KYC module. A provider asks its vendor for a session, keeps the id
that the vendor gives it, and reads the vendor's webhooks. The body of a webhook is whatever JSON
value was sent.

What the client of a vendor answers is a parameter.
-/

set_option autoImplicit false

namespace ThalosBackend.Kyc

open Js (Timestamp Value)
open Calls (ask)
open Verification (VerificationRecord)

/-- `ProviderName`. -/
inductive ProviderName where
  | sumsub
  | persona
  | veriff
  | synaps
  | stripe
  | alloy
  deriving DecidableEq

/-- `name` of the provider. -/
def ProviderName.text : ProviderName → String
  | .sumsub => "sumsub"
  | .persona => "persona"
  | .veriff => "veriff"
  | .synaps => "synaps"
  | .stripe => "stripe"
  | .alloy => "alloy"

/-! ## Sessions -/

/-- What a vendor answers to the request for a session: its id, and its page where there is one. -/
structure VendorSession where
  id : String
  url : Option String
  deriving DecidableEq

/-- The request for a session, through the client of a vendor. -/
abbrev VendorClient := (body : Value) → Except HttpException VendorSession

/-- A session under the vendor's id, which is repeated in the metadata. -/
def VendorSession.result (session : VendorSession) (idName : String) : SessionResult where
  providerVerificationId := session.id
  sessionUrl := session.url
  metadata := .object [(idName, .string session.id)]

/-! ## Webhooks -/

/-- The words a vendor has for the statuses. -/
structure StatusWords where
  pending : String
  inReview : String
  verified : String
  rejected : String
  expired : String

/-- `switch (status)` over the words; what is no word is in review. -/
def StatusWords.status (words : StatusWords) (status : Value) : KycStatus :=
  if status = .string words.pending then .pending
  else if status = .string words.inReview then .inReview
  else if status = .string words.verified then .verified
  else if status = .string words.rejected then .rejected
  else if status = .string words.expired then .expired
  else .inReview

/-- What `processWebhook` returns: the reference may be any value. -/
structure WebhookReading where
  providerVerificationId : Value
  result : VerificationResult
  deriving DecidableEq

/-- An event with its reference and its status in two fields; reading a field of `null` throws. -/
def readEvent (words : StatusWords) (idName : String) (event : Value) : Option WebhookReading :=
  if event.isNullish then none
  else some
    { providerVerificationId := event.field idName
      result :=
        { status := words.status (event.field "status")
          verifiedAt := none
          metadata := .record [("status", event.field "status")] } }

/-! ## The providers -/

namespace Persona

/-- The body of `createInquiry`. -/
def inquiryBody (input : CreateSessionInput) : Value :=
  .record [("type", .string "individual"),
    ("attributes", .record [("first_name", input.metadata.field "firstName"),
      ("last_name", input.metadata.field "lastName"), ("email", input.metadata.field "email"),
      ("dob", input.metadata.field "dob"), ("address", input.metadata.field "address"),
      ("phone", input.metadata.field "phone")]),
    ("external_user_id", .string input.userId)]

/-- `createSession(input)`. -/
def createSession (client : VendorClient) (input : CreateSessionInput) :
    Except HttpException SessionResult := do
  let inquiry ← client (inquiryBody input)
  return inquiry.result "inquiryId"

def words : StatusWords := ⟨"pending", "in_review", "approved", "rejected", "expired"⟩

/-- `processWebhook(payload)`. -/
def readWebhook (payload : Value) : Option WebhookReading := readEvent words "inquiryId" payload

end Persona

namespace Synaps

/-- The body of `createSession`. -/
def sessionBody (input : CreateSessionInput) : Value :=
  .record [("externalUserId", .string input.userId), ("type", .string "individual"),
    ("metadata", .record [("firstName", input.metadata.field "firstName"),
      ("lastName", input.metadata.field "lastName"), ("dob", input.metadata.field "dob"),
      ("email", input.metadata.field "email"), ("phone", input.metadata.field "phone"),
      ("address", input.metadata.field "address")])]

/-- `createSession(input)`. -/
def createSession (client : VendorClient) (input : CreateSessionInput) :
    Except HttpException SessionResult := do
  let session ← client (sessionBody input)
  return session.result "sessionId"

def words : StatusWords := ⟨"pending", "in_review", "approved", "rejected", "expired"⟩

/-- `processWebhook(payload)`. -/
def readWebhook (payload : Value) : Option WebhookReading := readEvent words "sessionId" payload

end Synaps

namespace Veriff

/-- The body of `createSession`. -/
def sessionBody (input : CreateSessionInput) : Value :=
  .record [("verification", .record [("person", .record [
      ("firstName", input.metadata.field "firstName"),
      ("lastName", input.metadata.field "lastName"),
      ("dateOfBirth", input.metadata.field "dob"), ("email", input.metadata.field "email"),
      ("address", input.metadata.field "address"),
      ("phoneNumber", input.metadata.field "phone")])]),
    ("externalUserId", .string input.userId)]

/-- `createSession(input)`. -/
def createSession (client : VendorClient) (input : CreateSessionInput) :
    Except HttpException SessionResult := do
  let session ← client (sessionBody input)
  return session.result "sessionId"

def words : StatusWords := ⟨"pending", "in_progress", "completed", "failed", "expired"⟩

/-- `processWebhook(payload)`: the decision is kept as well. -/
def readWebhook (payload : Value) : Option WebhookReading :=
  (readEvent words "sessionId" payload).map fun reading =>
    { reading with
      result :=
        { reading.result with
          metadata := .record [("status", payload.field "status"),
            ("decision", (payload.field "decision").field "status")] } }

end Veriff

namespace Alloy

/-- The body of `createEvaluation`. -/
def evaluationBody (input : CreateSessionInput) : Value :=
  .record [("name", .string "kyc-verification"),
    ("tags", .array [.string ("user-" ++ input.userId)]),
    ("entity", .record [("type", .string "individual"),
      ("first_name", input.metadata.field "firstName"),
      ("last_name", input.metadata.field "lastName"), ("dob", input.metadata.field "dob"),
      ("email", input.metadata.field "email"), ("phone", input.metadata.field "phone"),
      ("address", input.metadata.field "address")])]

/-- `createSession(input)`: there is no page to go to. -/
def createSession (client : VendorClient) (input : CreateSessionInput) :
    Except HttpException SessionResult := do
  let evaluation ← client (evaluationBody input)
  return { evaluation.result "evaluationId" with sessionUrl := none }

def words : StatusWords := ⟨"pending", "running", "complete", "error", "expired"⟩

/-- `processWebhook(payload)`. -/
def readWebhook (payload : Value) : Option WebhookReading := readEvent words "evaluation_id" payload

end Alloy

namespace Stripe

/-- The body that `createVerificationSession` sends: the metadata stands beside the user, and over
it. -/
def sessionBody (input : CreateSessionInput) : Value :=
  .record (spread [("type", .string "individual")]
    (spread [("userId", .string input.userId)] input.metadata.fields))

/-- `createSession(input)`. -/
def createSession (client : VendorClient) (input : CreateSessionInput) :
    Except HttpException SessionResult := do
  let session ← client (sessionBody input)
  return session.result "sessionId"

def words : StatusWords := ⟨"requires_input", "processing", "verified", "unverified", "expired"⟩

/-- `processWebhook(payload)`: the session is in `data.object`. -/
def readWebhook (payload : Value) : Option WebhookReading :=
  if payload.isNullish ∨ (payload.field "data").isNullish then none
  else readEvent words "id" ((payload.field "data").field "object")

end Stripe

namespace Sumsub

/-- `processWebhook(payload)`. -/
def readWebhook (payload : Value) : Option WebhookReading :=
  if payload.isNullish then none
  else some
    { providerVerificationId := payload.field "applicantId"
      result :=
        { status := reviewStatus ((payload.field "reviewResult").field "reviewAnswer").text?
          verifiedAt := none
          metadata := .record [("reviewStatus", payload.field "reviewStatus")] } }

end Sumsub

/-- `processWebhook(payload)` of a provider; `none` when reading the payload throws. -/
def ProviderName.readWebhook : ProviderName → Value → Option WebhookReading
  | .sumsub => Sumsub.readWebhook
  | .persona => Persona.readWebhook
  | .veriff => Veriff.readWebhook
  | .synaps => Synaps.readWebhook
  | .stripe => Stripe.readWebhook
  | .alloy => Alloy.readWebhook

/-! ## The guard of the webhooks -/

/-- A header of a request. -/
inductive Header where
  | absent
  | one (value : String)
  | many (values : List String)
  deriving DecidableEq

/-- `Array.isArray(header) ? header[0] : header`. -/
def Header.value : Header → Option String
  | .absent => none
  | .one value => some value
  | .many values => values.head?

/-- `WebhookSecretGuard.canActivate(context)`, where the environment has this secret. -/
def WebhookSecretGuard.canActivate (secret : Option String) (header : Header) :
    Except HttpException Unit :=
  match Js.nonEmpty secret with
  | none => .error (.unauthorized "KYC_WEBHOOK_SECRET not configured")
  | some expected =>
    if header.value ≠ some expected then .error (.unauthorized "Invalid webhook secret")
    else .ok ()

theorem WebhookSecretGuard.canActivate_eq_ok {secret : Option String} {header : Header} :
    canActivate secret header = .ok () ↔ ∃ s, s ≠ "" ∧ secret = some s ∧ header.value = some s := by
  rw [canActivate]
  split
  · rename_i hnone
    constructor
    · intro h
      cases h
    · rintro ⟨s, hne, rfl, -⟩
      rw [Js.nonEmpty_eq_some.mpr ⟨rfl, hne⟩] at hnone
      cases hnone
  · rename_i s hsome
    obtain ⟨rfl, hne⟩ := Js.nonEmpty_eq_some.mp hsome
    split
    · rename_i hother
      constructor
      · intro h
        cases h
      · rintro ⟨s', -, heq, hvalue⟩
        cases heq
        exact absurd hvalue hother
    · rename_i hsame
      exact iff_of_true rfl ⟨s, hne, rfl, not_not.mp hsame⟩

/-! ## Requests -/

/-- The configuration of the module. -/
structure IdentityEnv where
  provider : ProviderName
  /-- `KYC_WEBHOOK_SECRET`. -/
  webhookSecret : Option String

/-- The requests that reach the module: a user opens a session, somebody logged in asks the vendor for
one in whatever name, and anybody sends a webhook. -/
inductive IdentityRequest where
  | session (now : Timestamp) (userId : String) (metadata : Value)
  | vendorSession (userId : String) (metadata : Value)
  | webhook (now : Timestamp) (header : Header) (payload : Value)

/-- What a request is answered with. -/
inductive IdentityAnswer where
  | verification (v : VerificationRecord)
  | session (session : SessionResult)
  | processed (reading : WebhookReading)

/-- `this.eventEmitter.emit('kyc.webhook.processed', result)`, and what the listener does. A reference
that is no text makes the listener throw, which stays without a consequence. -/
def emitProcessed (now : Timestamp) (reading : WebhookReading) : KycProgram Unit :=
  match reading.providerVerificationId.toText with
  | none => return ()
  | some reference => handleWebhookProcessed now ⟨reference, reading.result⟩

/-- The operation behind a request. -/
def IdentityRequest.program (env : IdentityEnv) : IdentityRequest → KycProgram IdentityAnswer
  | .session now userId metadata => do
      return .verification (← createSession env.provider.text now userId metadata)
  | .vendorSession userId metadata => do
      match ← ask (KycCall.createSession env.provider.text ⟨userId, metadata⟩) with
      | .error e => .fail e
      | .ok opened => return .session opened
  | .webhook now header payload => do
      Calls.ofExcept (WebhookSecretGuard.canActivate env.webhookSecret header)
      match env.provider.readWebhook payload with
      | none => .fail .internal
      | some reading =>
        emitProcessed now reading
        return .processed reading

end ThalosBackend.Kyc
