import ThalosBackend.Kyc.KycRuns
import ThalosBackend.Kyc.LateMessages

/-!
# What Sumsub calls an applicant

Sumsub gives every applicant an id of its own, and keeps the id it was created with beside it. Its
webhooks carry the first. The session of `SumsubKycProvider` carries the second, also under the name
`applicantId`, and that is what is stored. A webhook is looked up by the stored reference, so no decision
of Sumsub reaches the record it is about.
-/

set_option autoImplicit false

namespace ThalosBackend.Kyc

open Js (Timestamp Value)
open Calls (Ensures Runs)
open Verification (VerificationRecord)
open Wallets (maybeSingle)

/-! ## What a session stores -/

/-- No session of the user is live, and he is not verified. -/
def MayBegin (db : KycDb) (provider userId : String) : Prop :=
  ∀ v ∈ db.ofUser userId provider, v.status ≠ .pending ∧ v.status ≠ .verified

/-- The record is stored, under the reference of a session that the provider has made for the user. -/
def Stored (sessions : Sessions) (provider userId : String) (metadata : Value) (v : VerificationRecord)
    (db : KycDb) : Prop :=
  v ∈ db.verifications ∧ ∃ session, sessions provider ⟨userId, metadata⟩ (.ok session) ∧
    v.providerReference = some session.providerVerificationId

section Stores

variable {sessions : Sessions} {db : KycDb} {provider userId : String} {now : Timestamp}
  {metadata : Value}

theorem insertSession_stores {session : SessionResult} {sessionUrl : String}
    (hfree : db.ofUser userId provider = [])
    (hsession : sessions provider ⟨userId, metadata⟩ (.ok session)) :
    Ensures (Answers sessions) (insertSession (session.row provider now userId sessionUrl)) db
      fun out db' => ∀ v, out = .ok v → Stored sessions provider userId metadata v db' := by
  refine Calls.ensures_ask fun x db' hexec => ?_
  have hfree : db.ofUser (session.row provider now userId sessionUrl).subjectId
      (session.row provider now userId sessionUrl).provider = [] := hfree
  simp only [Answers, if_pos hfree] at hexec
  obtain ⟨id, created, -, rfl, rfl⟩ := hexec
  intro v hv
  cases hv
  exact ⟨List.mem_append_right _ (List.mem_singleton_self _), session, hsession, rfl⟩

theorem updateSession_stores {session : SessionResult} {sessionUrl id : String}
    (hsession : sessions provider ⟨userId, metadata⟩ (.ok session)) :
    Ensures (Answers sessions) (updateSession id (session.updates now sessionUrl)) db
      fun out db' => ∀ v, out = .ok v → Stored sessions provider userId metadata v db' := by
  refine Calls.ensures_ask fun x db' hexec => ?_
  rcases updateVerification_cases sessions hexec with ⟨v, hrow, rfl, rfl⟩ | ⟨rfl, rfl⟩
  · intro w hw
    cases hw
    obtain ⟨hmem, hid⟩ := List.mem_filter.mp (hrow ▸ List.mem_singleton_self v : v ∈ db.ofId id)
    exact ⟨Table.mem_updateWhere.mpr ⟨v, hmem, by rw [if_pos hid]⟩, session, hsession, rfl⟩
  · intro w hw
    cases hw

theorem upsertVerification_stores {existingId : Option String} {sessionUrl : String}
    (hfree : existingId = none → db.ofUser userId provider = []) :
    Ensures (Answers sessions)
      (upsertVerification provider now userId existingId metadata sessionUrl) db
      fun out db' => ∀ v, out = .ok v → Stored sessions provider userId metadata v db' := by
  refine Calls.ensures_ask fun x db' hexec => ?_
  obtain ⟨hsession, rfl⟩ := hexec
  cases x with
  | error e =>
      intro v hv
      cases hv
  | ok session =>
      cases existingId with
      | none => exact insertSession_stores (hfree rfl) hsession
      | some id => exact updateSession_stores hsession

/-- A session that may begin stores what the provider says. -/
theorem createSession_stores (hbegin : MayBegin db provider userId) :
    Ensures (Answers sessions) (createSession provider now userId metadata) db
      fun out db' => ∀ v, out = .ok v →
        Stored sessions provider userId (dtoMetadata metadata) v db' := by
  refine Calls.ensures_ask fun x db' hexec => ?_
  obtain ⟨rfl, rfl⟩ := hexec
  rcases hrows : db'.ofUser userId provider with _ | ⟨v, _ | ⟨w, rest⟩⟩
  · change Ensures _ (openSession provider now userId metadata none) db' _
    rw [openSession]
    exact upsertVerification_stores fun _ => hrows
  · obtain ⟨hpending, hverified⟩ := hbegin v (hrows ▸ List.mem_singleton_self v)
    change Ensures _ (openSession provider now userId metadata (some v)) db' _
    rw [openSession]
    cases hstatus : v.status with
    | pending => exact absurd hstatus hpending
    | verified => exact absurd hstatus hverified
    | _ => exact upsertVerification_stores fun h => absurd h (Option.some_ne_none v.id)
  · intro v hv
    cases hv

end Stores

/-! ## Sumsub -/

/-- The provider reads from the webhook what is stored of the record, and the service updates this record
and no other. -/
structure Correlated (db : KycDb) (v : VerificationRecord) (event : SumsubEvent) : Prop where
  reference : v.providerReference = some (Sumsub.processWebhook event).providerVerificationId
  updated : ∀ now, ((Sumsub.processWebhook event).updates now).apply v ∈
    (deliver Sumsub.processWebhook db (now, event)).verifications
  alone : ∀ now, ∀ w ∈ db.verifications, w.id ≠ v.id →
    w ∈ (deliver Sumsub.processWebhook db (now, event)).verifications

section Sumsub

variable {client : SumsubClient} {db db' : KycDb} {userId : String} {now : Timestamp}
  {metadata : Value} {v : VerificationRecord} {applicant : SumsubApplicant} {event : SumsubEvent}

/-- A webhook with another reference leaves the record as it is. -/
theorem mem_deliver (hv : v ∈ db.verifications)
    (hreference : v.providerReference ≠ some (Sumsub.processWebhook event).providerVerificationId)
    (received : Timestamp) :
    v ∈ (deliver Sumsub.processWebhook db (received, event)).verifications := by
  rw [deliver_eq]
  refine Table.mem_updateWhere.mpr ⟨v, hv, ?_⟩
  rw [if_neg]
  simpa using hreference

/-- **Webhooks of Sumsub are lost.** Whatever user begins a session, with whatever applicant that has an
id of its own: what is read from a webhook about the applicant is not what was stored, and whenever it
comes, the webhook leaves the record as it is. -/
theorem webhooks_lost (hbegin : MayBegin db "sumsub" userId)
    (hrun : Runs (Answers (exactly fun _ => Sumsub.createSession client))
      (createSession "sumsub" now userId metadata) db (.ok v) db')
    (happlicant : client.createApplicant (Sumsub.applicantBody ⟨userId, dtoMetadata metadata⟩) =
      .ok applicant) (hown : applicant.id ≠ applicant.externalUserId)
    (habout : event.applicantId = applicant.id) :
    v ∈ db'.verifications ∧ ∀ later : KycDb, ¬ Correlated later v event ∧
      (v ∈ later.verifications → ∀ received,
        v ∈ (deliver Sumsub.processWebhook later (received, event)).verifications) := by
  obtain ⟨hmem, session, hsession, hstored⟩ :=
    Calls.ensures_iff.mp (createSession_stores hbegin) _ _ hrun v rfl
  obtain ⟨created, hcreated, hreference⟩ := Sumsub.createSession_ok hsession.symm
  obtain rfl : applicant = created := Except.ok.inj (happlicant.symm.trans hcreated)
  have hdiffer : v.providerReference ≠ some (Sumsub.processWebhook event).providerVerificationId := by
    rw [hstored, hreference, Sumsub.processWebhook, habout]
    simpa using hown.symm
  exact ⟨hmem, fun later => ⟨fun h => hdiffer h.reference, fun hv => mem_deliver hv hdiffer⟩⟩

end Sumsub

/-! ## An applicant -/

/-- Sumsub, with the id `5b594` for every applicant. -/
def exampleClient : SumsubClient where
  createApplicant body := .ok ⟨"5b594", ((body.field "externalUserId").text?).getD ""⟩
  generateAccessToken _ := .ok "token"

/-- Sumsub approves the applicant. -/
def greenReview : SumsubEvent := ⟨"5b594", "completed", some "GREEN"⟩

/-- The user `u` begins a session. -/
theorem runs_exampleSession : ∃ v db',
    Runs (Answers (exactly fun _ => Sumsub.createSession exampleClient))
      (createSession "sumsub" 0 "u" .undefined) emptyTable (.ok v) db' := by
  have hruns := Calls.runs_run
    (@KycDb.answers_answer (exactly fun _ => Sumsub.createSession exampleClient) _ fun _ _ => rfl) (createSession "sumsub" 0 "u" .undefined) emptyTable
  have hok : (Calls.run (KycDb.answer fun _ => Sumsub.createSession exampleClient)
      (createSession "sumsub" 0 "u" .undefined) emptyTable).1.isOk = true := by decide +kernel
  revert hruns hok
  generalize Calls.run (KycDb.answer fun _ => Sumsub.createSession exampleClient)
    (createSession "sumsub" 0 "u" .undefined) emptyTable = out
  intro hruns hok
  obtain ⟨e | v, db'⟩ := out
  · cases hok
  · exact ⟨v, db', hruns⟩

/-- The approval of the user `u` is lost. -/
theorem webhooks_lost_green : ∃ v db',
    Runs (Answers (exactly fun _ => Sumsub.createSession exampleClient))
      (createSession "sumsub" 0 "u" .undefined) emptyTable (.ok v) db' ∧
    v ∈ db'.verifications ∧ ∀ later : KycDb, ¬ Correlated later v greenReview ∧
      (v ∈ later.verifications → ∀ received,
        v ∈ (deliver Sumsub.processWebhook later (received, greenReview)).verifications) := by
  obtain ⟨v, db', hrun⟩ := runs_exampleSession
  have hbegin : MayBegin emptyTable "sumsub" "u" := by
    intro v hv
    cases hv
  exact ⟨v, db', hrun, webhooks_lost hbegin hrun rfl (by decide +kernel) rfl⟩

/-- Sumsub approves the user `u`, and the record does not become verified. -/
theorem green_not_correlated :
    ¬ ∀ (client : SumsubClient) (db db' : KycDb) (userId : String) (now : Timestamp)
      (metadata : Value) (v : VerificationRecord) (applicant : SumsubApplicant) (event : SumsubEvent),
        MayBegin db "sumsub" userId →
        Runs (Answers (exactly fun _ => Sumsub.createSession client))
          (createSession "sumsub" now userId metadata) db (.ok v) db' →
        client.createApplicant (Sumsub.applicantBody ⟨userId, dtoMetadata metadata⟩) =
          .ok applicant → applicant.id ≠ applicant.externalUserId →
        event.applicantId = applicant.id → Correlated db' v event := by
  intro hall
  obtain ⟨v, db', hrun⟩ := runs_exampleSession
  have hbegin : MayBegin emptyTable "sumsub" "u" := by
    intro v hv
    cases hv
  have hcorrelated := hall exampleClient emptyTable db' "u" 0 .undefined v ⟨"5b594", "u"⟩ greenReview
    hbegin hrun (by decide +kernel) (by decide) rfl
  obtain ⟨-, session, hsession, hstored⟩ :=
    Calls.ensures_iff.mp (createSession_stores hbegin) _ _ hrun v rfl
  obtain ⟨created, hcreated, hreference⟩ := Sumsub.createSession_ok hsession.symm
  cases hcreated
  have hreviewed := hcorrelated.reference
  rw [hstored, hreference] at hreviewed
  exact absurd hreviewed (by decide +kernel)

end ThalosBackend.Kyc
