import ThalosBackend.Agreements.RowSteps
import ThalosBackend.Kyc.IdentityProviders
import ThalosBackend.Kyc.KycRuns
import ThalosBackend.Library.Conduct

/-!
# The vendor's word

Whatever users, callers and the senders of webhooks do at the same time: a record is verified only after
a webhook with the secret, which the provider reads as the approval of the session that the record is
about; and this session was made when the user of the record asked for one, for the account that his
request named (`verified_on_the_vendors_word`).

The account is his own where the metadata of the request leave it alone. At Sumsub and at Stripe the
metadata can name another (`named_body`).
-/

set_option autoImplicit false

namespace ThalosBackend.Kyc

open Js (Timestamp Value)
open Calls (Answered Conducts Recalling Ruled Serving Task conducts_ask conducts_done conducts_fail
  historyOf)
open Threads (Config Label)
open Verification (VerificationRecord)

/-! ## Accounts -/

/-- The body of the request for a session. -/
def ProviderName.body : ProviderName → CreateSessionInput → Value
  | .sumsub => Sumsub.applicantBody
  | .persona => Persona.inquiryBody
  | .veriff => Veriff.sessionBody
  | .synaps => Synaps.sessionBody
  | .stripe => Stripe.sessionBody
  | .alloy => Alloy.evaluationBody

/-- The field of the body that names the account. -/
def ProviderName.accountField : ProviderName → String
  | .sumsub | .veriff | .synaps => "externalUserId"
  | .persona => "external_user_id"
  | .stripe => "userId"
  | .alloy => "tags"

/-- The account that a request for a session is about. -/
def ProviderName.named (provider : ProviderName) (input : CreateSessionInput) : Value :=
  (provider.body input).field provider.accountField

/-- The account of a user. -/
def ProviderName.accountOf : ProviderName → String → Value
  | .alloy, userId => .array [.string ("user-" ++ userId)]
  | _, userId => .string userId

/-- The metadata stand over the account. -/
def ProviderName.overrides : ProviderName → Value → Bool
  | .sumsub, metadata => metadata.fields.any (·.1 = "externalUserId")
  | .stripe, metadata => metadata.fields.any (·.1 = "userId")
  | _, _ => false

/-- A session that is asked for in this way belongs to the account that the request is about. -/
def Offers (account : String → Value) (provider : ProviderName) (input : CreateSessionInput)
    (x : Except HttpException SessionResult) : Prop :=
  let honest (client : VendorClient) : Prop := ∀ body session, client body = .ok session →
    account session.id = body.field provider.accountField
  match provider with
  | .sumsub => ∃ client : SumsubClient, x = Sumsub.createSession client input ∧
      -- the id that is kept is the one that the vendor has for the account
      ∀ body applicant, client.createApplicant body = .ok applicant →
        account applicant.externalUserId = body.field provider.accountField
  | .persona => ∃ client, honest client ∧ x = Persona.createSession client input
  | .veriff => ∃ client, honest client ∧ x = Veriff.createSession client input
  | .synaps => ∃ client, honest client ∧ x = Synaps.createSession client input
  | .stripe => ∃ client, honest client ∧ x = Stripe.createSession client input
  | .alloy => ∃ client, honest client ∧ x = Alloy.createSession client input

section Accounts

variable {account : String → Value} {provider : ProviderName} {input : CreateSessionInput}
  {session : SessionResult}

/-- The first field of a record is found, if no other has its name. -/
theorem field_record_cons {name : String} {v : Value} {fs : List (String × Value)}
    (hfresh : ∀ f ∈ fs, f.1 ≠ name) : (Value.record ((name, v) :: fs)).field name = v := by
  have hnone : ∀ gs : List (String × Value), (∀ f ∈ gs, f.1 ≠ name) →
      Value.lookup gs name = .undefined := by
    intro gs hgs
    rw [Value.lookup, List.find?_eq_none.mpr]
    · rfl
    · intro f hf
      simpa using hgs f hf
  change Value.lookup (((name, v) :: fs).filter fun f => !f.2.isUndefined) name = v
  cases hv : v.isUndefined with
  | false => simp [hv, Value.lookup]
  | true =>
      rw [List.filter_cons_of_neg (by simp [hv]), Value.isUndefined_eq_true.mp hv]
      exact hnone _ fun f hf => hfresh f (List.mem_of_mem_filter hf)

/-- A field of another name is passed over. -/
theorem field_record_skip {name other : String} {v : Value} {fs : List (String × Value)}
    (hne : other ≠ name) :
    (Value.record ((other, v) :: fs)).field name = (Value.record fs).field name := by
  change Value.lookup (((other, v) :: fs).filter fun f => !f.2.isUndefined) name =
    Value.lookup (fs.filter fun f => !f.2.isUndefined) name
  cases hv : v.isUndefined with
  | true => rw [List.filter_cons_of_neg (by simp [hv])]
  | false =>
      rw [List.filter_cons_of_pos (by simp [hv]), Value.lookup, List.find?_cons_of_neg (by simpa)]
      rfl

/-- A field that stands alone before others are spread over it. -/
theorem spread_singleton (name : String) (v : Value) (fs : List (String × Value)) :
    spread [(name, v)] fs = (name, if fs.any (·.1 = name) then Value.lookup fs name else v) ::
      fs.filter (fun f => f.1 ≠ name) := by
  have hrest : ∀ f : String × Value, (!decide (name = f.1)) = decide (f.1 ≠ name) := by
    intro f
    by_cases h : f.1 = name
    · simp [h]
    · simp [h, Ne.symm h]
  rw [spread]
  simp only [List.map_cons, List.map_nil, List.any_cons, List.any_nil, Bool.or_false,
    List.singleton_append, hrest]
  split <;> rfl

/-- **What a request is about.** The account of the user, unless the metadata name one. -/
theorem named_body (provider : ProviderName) (input : CreateSessionInput) :
    provider.named input = if provider.overrides input.metadata then
      input.metadata.field provider.accountField else provider.accountOf input.userId := by
  cases provider with
  | sumsub =>
      change (Value.record (spread _ _)).field "externalUserId" = _
      rw [spread_singleton, field_record_cons (by simp)]
      rfl
  | stripe =>
      change (Value.record (spread _ (spread _ _))).field "userId" = _
      rw [spread_singleton, spread_singleton, field_record_skip (by decide),
        List.filter_cons_of_pos (by simp), field_record_cons (by simp)]
      rfl
  | persona => rfl
  | veriff => rfl
  | synaps => rfl
  | alloy => rfl

/-- The provider asks its vendor for a session with the body, and keeps the id that it is given. -/
theorem Offers.asked (h : Offers account provider input (.ok session)) :
    account session.providerVerificationId = provider.named input ∧
      ∃ idName, idName ≠ "status" ∧
        session.metadata = .object [(idName, .string session.providerVerificationId)] := by
  cases provider with
  | sumsub =>
      obtain ⟨client, hcreated, hhonest⟩ := h
      -- two requests go to Sumsub, and only the first of them makes the applicant
      obtain ⟨applicant, happlicant, hsession⟩ := bind_eq_ok.mp hcreated.symm
      obtain ⟨token, -, hsession⟩ := bind_eq_ok.mp hsession
      cases hsession
      exact ⟨hhonest _ _ happlicant, "applicantId", by decide, rfl⟩
  | persona =>
      obtain ⟨client, hhonest, hcreated⟩ := h
      obtain ⟨inquiry, hinquiry, hsession⟩ := bind_eq_ok.mp hcreated.symm
      cases hsession
      exact ⟨hhonest _ _ hinquiry, "inquiryId", by decide, rfl⟩
  | veriff =>
      obtain ⟨client, hhonest, hcreated⟩ := h
      obtain ⟨made, hmade, hsession⟩ := bind_eq_ok.mp hcreated.symm
      cases hsession
      exact ⟨hhonest _ _ hmade, "sessionId", by decide, rfl⟩
  | synaps =>
      obtain ⟨client, hhonest, hcreated⟩ := h
      obtain ⟨made, hmade, hsession⟩ := bind_eq_ok.mp hcreated.symm
      cases hsession
      exact ⟨hhonest _ _ hmade, "sessionId", by decide, rfl⟩
  | stripe =>
      obtain ⟨client, hhonest, hcreated⟩ := h
      obtain ⟨made, hmade, hsession⟩ := bind_eq_ok.mp hcreated.symm
      cases hsession
      exact ⟨hhonest _ _ hmade, "sessionId", by decide, rfl⟩
  | alloy =>
      obtain ⟨client, hhonest, hcreated⟩ := h
      obtain ⟨evaluation, hevaluation, hsession⟩ := bind_eq_ok.mp hcreated.symm
      cases hsession
      exact ⟨hhonest _ _ hevaluation, "evaluationId", by decide, rfl⟩

/-- No session begins with an outcome. -/
theorem Offers.pending (h : Offers account provider input (.ok session)) :
    session.providerStatus = some .pending := by
  obtain ⟨-, idName, hne, hmetadata⟩ := h.asked
  have hstatus : session.metadata.field "status" = .undefined := by
    rw [hmetadata, Value.field, Value.fields_object, Value.lookup,
      List.find?_cons_of_neg (by simpa using hne)]
    rfl
  rw [SessionResult.providerStatus, hstatus]
  rfl

end Accounts

/-! ## Readings -/

/-- No webhook tells when the verification was. -/
theorem readEvent_verifiedAt {words : StatusWords} {idName : String} {event : Value}
    {reading : WebhookReading} (h : readEvent words idName event = some reading) :
    reading.result.verifiedAt = none := by
  rw [readEvent] at h
  split at h
  · cases h
  · cases h
    rfl

theorem readWebhook_verifiedAt {provider : ProviderName} {payload : Value} {reading : WebhookReading}
    (h : provider.readWebhook payload = some reading) : reading.result.verifiedAt = none := by
  cases provider with
  | sumsub =>
      rw [ProviderName.readWebhook, Sumsub.readWebhook] at h
      split at h
      · cases h
      · cases h
        rfl
  | veriff =>
      obtain ⟨event, hevent, rfl⟩ := Option.map_eq_some_iff.mp h
      have hnone : event.result.verifiedAt = none := readEvent_verifiedAt hevent
      exact hnone
  | stripe =>
      rw [ProviderName.readWebhook, Stripe.readWebhook] at h
      split at h
      · cases h
      · exact readEvent_verifiedAt h
  | persona => exact readEvent_verifiedAt h
  | synaps => exact readEvent_verifiedAt h
  | alloy => exact readEvent_verifiedAt h

/-! ## Runs -/

/-- The calls of a request and what came back, the latest first. -/
abbrev KycHistory := Answered KycCall KycCall.reply

/-- The requests over the table, with vendors that make sessions for the account they are told. The table
is empty at the beginning. -/
def identityServing (env : IdentityEnv) (account : String → Value) :
    Serving IdentityRequest (HttpException × KycHistory) (KycCall × KycHistory) (fun c => c.1.reply)
      (IdentityAnswer × KycHistory) KycDb CallAct Empty where
  init db := db.verifications = []
  program req := Calls.traced (req.program env) []
  exec act _ c db x db' := act.exec (fun _ => Offers account env.provider) c.1 db x db'
  env b _ _ := b.elim

abbrev IdentityTask := Task IdentityRequest (HttpException × KycHistory) (KycCall × KycHistory)
  (fun c => c.1.reply) (IdentityAnswer × KycHistory)

abbrev IdentityConfig := Config KycDb ℕ IdentityTask

/-- The step system of the requests. -/
def identitySystem (env : IdentityEnv) (account : String → Value) :
    StepSystem IdentityConfig (Label ℕ IdentityTask CallAct Empty) :=
  (identityServing env account).threads.system ℕ

/-! ## The rules of a request -/

/-- A session that the user of the request was offered. -/
def Offered (env : IdentityEnv) (req : IdentityRequest) (history : KycHistory) (now : Timestamp)
    (userId : String) (session : SessionResult) : Prop :=
  ∃ metadata, req = .session now userId metadata ∧
    ⟨.createSession env.provider.text ⟨userId, dtoMetadata metadata⟩, .ok session⟩ ∈ history

/-- A webhook that the guard has let pass, as the provider reads it. -/
structure Authentic (env : IdentityEnv) (req : IdentityRequest) (now : Timestamp)
    (reading : WebhookReading) : Prop where
  received : ∃ secret header payload, env.webhookSecret = some secret ∧ secret ≠ "" ∧
    header.value = some secret ∧ req = .webhook now header payload ∧
    env.provider.readWebhook payload = some reading

/-- What a request may call next. A row is written with the session that its user was offered; and rows
are settled as the provider reads from an authentic webhook. -/
def Entitled (env : IdentityEnv) (req : IdentityRequest) : KycCall → KycHistory → Prop
  | .insertVerification new, history => ∃ now userId session, Offered env req history now userId session ∧
      new = session.row env.provider.text now userId ""
  | .updateVerification id updates, history => ∃ now userId session v,
      Offered env req history now userId session ∧
      ⟨.findByUser userId env.provider.text, .ok (some v)⟩ ∈ history ∧ id = v.id ∧
      updates = session.updates now ""
  | .updateByReference reference updates, _ => ∃ now reading, Authentic env req now reading ∧
      reading.providerVerificationId.toText = some reference ∧
      updates = WebhookResult.updates now ⟨reference, reading.result⟩
  | _, _ => True

/-- A request that keeps to the rules, however it ends. -/
abbrev Keeps {α : Type} (env : IdentityEnv) (req : IdentityRequest) (p : KycProgram α)
    (history : KycHistory) : Prop :=
  Conducts (Entitled env req) (fun _ _ => True) p history

section Keeps

variable {env : IdentityEnv} {req : IdentityRequest} {history : KycHistory} {now : Timestamp}
  {userId : String} {metadata : Value}

theorem findByUserId_keeps {α : Type} {provider : String}
    {f : Option VerificationRecord → KycProgram α}
    (hf : ∀ existing, Keeps env req (f existing)
      (⟨.findByUser userId provider, .ok existing⟩ :: history)) :
    Keeps env req (findByUserId provider userId >>= f) history := by
  rw [findByUserId, Calls.bind_assoc]
  refine conducts_ask (c := KycCall.findByUser userId provider) trivial fun x => ?_
  cases x with
  | error e => exact conducts_fail.mpr trivial
  | ok existing => exact hf existing

theorem insertSession_keeps {new : NewVerification}
    (h : Entitled env req (.insertVerification new) history) :
    Keeps env req (insertSession new) history := by
  refine conducts_ask (c := KycCall.insertVerification new) h fun x => ?_
  cases x with
  | ok data => exact conducts_done.mpr trivial
  | error e =>
      dsimp only
      split
      · apply findByUserId_keeps
        intro raced
        cases raced with
        | none => exact conducts_fail.mpr trivial
        | some v => exact conducts_done.mpr trivial
      · exact conducts_fail.mpr trivial

theorem updateSession_keeps {id : String} {updates : SessionUpdates}
    (h : Entitled env req (.updateVerification id updates) history) :
    Keeps env req (updateSession id updates) history := by
  refine conducts_ask (c := KycCall.updateVerification id updates) h fun x => ?_
  cases x with
  | ok data => exact conducts_done.mpr trivial
  | error e => exact conducts_fail.mpr trivial

/-- What was found decides which row the session is written to. -/
theorem upsertVerification_keeps (hreq : req = .session now userId metadata)
    {existing : Option VerificationRecord}
    (hfound : ∀ v, existing = some v →
      ⟨.findByUser userId env.provider.text, .ok (some v)⟩ ∈ history) :
    Keeps env req (upsertVerification env.provider.text now userId
      (existing.map VerificationRecord.id) (dtoMetadata metadata) "") history := by
  refine conducts_ask
    (c := KycCall.createSession env.provider.text ⟨userId, dtoMetadata metadata⟩) trivial fun x => ?_
  cases x with
  | error e => exact conducts_fail.mpr trivial
  | ok session =>
      have hoffered : Offered env req
          (⟨.createSession env.provider.text ⟨userId, dtoMetadata metadata⟩, .ok session⟩ :: history)
          now userId session :=
        ⟨metadata, hreq, List.mem_cons_self⟩
      cases existing with
      | none => exact insertSession_keeps ⟨now, userId, session, hoffered, rfl⟩
      | some v =>
          apply updateSession_keeps
          exact ⟨now, userId, session, v, hoffered, List.mem_cons_of_mem _ (hfound v rfl), rfl, rfl⟩

theorem createSession_keeps (hreq : req = .session now userId metadata) :
    Keeps env req (createSession env.provider.text now userId metadata) history := by
  apply findByUserId_keeps
  intro existing
  cases existing with
  | none =>
      have hnone : ∀ v, (none : Option VerificationRecord) = some v →
          ⟨.findByUser userId env.provider.text, .ok (some v)⟩ ∈
            (⟨.findByUser userId env.provider.text, .ok none⟩ :: history : KycHistory) := by simp
      exact upsertVerification_keeps hreq hnone
  | some v =>
      have hfound : ∀ w, some v = some w →
          ⟨.findByUser userId env.provider.text, .ok (some w)⟩ ∈
            (⟨.findByUser userId env.provider.text, .ok (some v)⟩ :: history : KycHistory) := by
        intro w hw
        cases hw
        exact List.mem_cons_self
      rw [openSession]
      cases v.status with
      | pending => exact conducts_done.mpr trivial
      | verified => exact conducts_done.mpr trivial
      | _ => exact upsertVerification_keeps hreq hfound

/-- **Every request keeps to the rules.** -/
theorem program_keeps (env : IdentityEnv) (req : IdentityRequest) :
    Keeps env req (req.program env) [] := by
  cases req with
  | session now userId metadata =>
      apply (createSession_keeps rfl).bind
      · intro v history _
        exact conducts_done.mpr trivial
      · intro e history _
        trivial
  | vendorSession userId metadata =>
      refine conducts_ask (c := KycCall.createSession env.provider.text ⟨userId, metadata⟩) trivial
        fun x => ?_
      cases x with
      | error e => exact conducts_fail.mpr trivial
      | ok opened => exact conducts_done.mpr trivial
  | webhook now header payload =>
      apply Calls.conducts_ofExcept
      · intro _ hguard
        -- past the guard, the webhook carries the secret; only a reference with a text leads to a
        -- query
        obtain ⟨secret, hne, hsecret, hheader⟩ :=
          WebhookSecretGuard.canActivate_eq_ok.mp hguard
        cases hread : env.provider.readWebhook payload with
        | none => exact conducts_fail.mpr trivial
        | some reading =>
            dsimp only
            rw [emitProcessed]
            cases htext : reading.providerVerificationId.toText with
            | none => exact conducts_done.mpr trivial
            | some reference =>
                have hauthentic : Authentic env (.webhook now header payload) now reading :=
                  ⟨secret, header, payload, hsecret, hne, hheader, rfl, hread⟩
                refine conducts_ask
                  (c := KycCall.updateByReference reference _) ?_ fun x => conducts_done.mpr trivial
                exact ⟨now, reading, hauthentic, htext, rfl⟩
      · intro e _
        trivial

end Keeps

/-! ## What every run keeps -/

/-- The session of a record was made when its user asked for one, for the account that his request
named. -/
structure OwnSession (env : IdentityEnv) (account : String → Value) (c : IdentityConfig)
    (v : VerificationRecord) : Prop where
  asked : ∃ t k now metadata reference, c.threads t = some k ∧
    k.request = .session now v.subjectId metadata ∧ v.providerReference = some reference ∧
    account reference = env.provider.named ⟨v.subjectId, dtoMetadata metadata⟩

/-- The provider has read from an authentic webhook that the session of the record is approved. -/
structure Approved (env : IdentityEnv) (c : IdentityConfig) (v : VerificationRecord) : Prop where
  told : ∃ t k now reading, c.threads t = some k ∧ Authentic env k.request now reading ∧
    reading.result.status = .verified ∧
    reading.providerVerificationId.toText = v.providerReference ∧ v.verifiedAt = some now

/-- What a reply says of every table from then on. -/
def Tells (env : IdentityEnv) (account : String → Value) : (c : KycCall) → c.reply → KycDb → Prop
  | .findByUser userId _, .ok (some v), db =>
      ∃ w ∈ db.verifications, w.id = v.id ∧ w.subjectId = userId
  | .createSession _ input, .ok session, _ => Offers account env.provider input (.ok session)
  | _, _, _ => True

/-- What every run keeps. -/
structure WordInv (env : IdentityEnv) (account : String → Value) (c : IdentityConfig) : Prop where
  recalling : Recalling (fun _ => Tells env account) c
  ruled : Ruled (Entitled env) (fun _ _ _ => True) c
  keyed : Table.Unique VerificationRecord.id c.shared.verifications
  own : ∀ v ∈ c.shared.verifications, OwnSession env account c v
  approved : ∀ v ∈ c.shared.verifications, v.status = .verified → Approved env c v

section Runs

variable {env : IdentityEnv} {account : String → Value} {c c' : IdentityConfig}
  {l : Label ℕ IdentityTask CallAct Empty} {v : VerificationRecord} {db db' : KycDb} {call : KycCall}
  {x : call.reply} {act : CallAct}

/-- Rows stay, and stay those of their users. -/
theorem RowsChange.subjects (h : RowsChange db call act db') :
    ∀ v ∈ db.verifications, ∃ w ∈ db'.verifications, w.id = v.id ∧ w.subjectId = v.subjectId := by
  intro v hv
  cases h with
  | same act => exact ⟨v, hv, rfl, rfl⟩
  | inserted new id created hcall hfree hfresh => exact ⟨v, List.mem_append_left _ hv, rfl, rfl⟩
  | restarted id updates w hcall hrow =>
      refine ⟨_, Table.mem_updateWhere.mpr ⟨v, hv, rfl⟩, ?_⟩
      split
      · exact ⟨rfl, rfl⟩
      · exact ⟨rfl, rfl⟩
  | settled reference updates hcall =>
      refine ⟨_, Table.mem_updateWhere.mpr ⟨v, hv, rfl⟩, ?_⟩
      split
      · exact ⟨rfl, rfl⟩
      · exact ⟨rfl, rfl⟩

theorem RowsChange.keyed (h : RowsChange db call act db')
    (hkeyed : Table.Unique VerificationRecord.id db.verifications) :
    Table.Unique VerificationRecord.id db'.verifications := by
  cases h with
  | same act => exact hkeyed
  | inserted new id created hcall hfree hfresh => exact hkeyed.concat hfresh
  | restarted id updates v hcall hrow => exact hkeyed.updateWhere fun _ _ => rfl
  | settled reference updates hcall => exact hkeyed.updateWhere fun _ _ => rfl

/-- What was said stays right. -/
theorem RowsChange.tells (h : RowsChange db call act db') {c : KycCall} {y : c.reply}
    (hy : Tells env account c y db) : Tells env account c y db' := by
  cases c with
  | findByUser userId provider =>
      rcases y with e | _ | v
      · trivial
      · trivial
      · obtain ⟨w, hw, hid, hsubject⟩ := hy
        obtain ⟨w', hw', hid', hsubject'⟩ := h.subjects w hw
        exact ⟨w', hw', hid'.trans hid, hsubject'.trans hsubject⟩
  | createSession provider input =>
      cases y with
      | error e => trivial
      | ok session => exact hy
  | _ => trivial

/-- A reply is right about the table it leaves. -/
theorem CallAct.exec.tells (h : act.exec (fun _ => Offers account env.provider) call db x db') :
    Tells env account call x db' := by
  cases call with
  | findByUser userId provider =>
      rcases x with e | _ | v
      · trivial
      · trivial
      · cases act with
        | fail =>
            obtain ⟨⟨e, he⟩, -⟩ := h
            cases he
        | answer =>
            obtain ⟨hfound, rfl⟩ := h
            have hrows : db'.ofUser userId provider = [v] :=
              Agreements.maybeSingle_eq_ok hfound.symm
            obtain ⟨hmem, hof⟩ := List.mem_filter.mp
              (hrows ▸ List.mem_singleton_self v : v ∈ db'.ofUser userId provider)
            obtain ⟨-, hsubject, -⟩ := of_decide_eq_true hof
            exact ⟨v, hmem, rfl, hsubject⟩
  | createSession provider input =>
      cases x with
      | error e => trivial
      | ok session =>
          cases act with
          | fail => exact h.elim
          | answer => exact h.1
  | _ => trivial

theorem OwnSession.grows {w : VerificationRecord} (h : OwnSession env account c v)
    (hthreads : ∀ t k, c.threads t = some k → ∃ k', c'.threads t = some k' ∧
      k'.request = k.request)
    (hsubject : w.subjectId = v.subjectId) (hreference : w.providerReference = v.providerReference) :
    OwnSession env account c' w := by
  obtain ⟨t, k, now, metadata, reference, hk, hrequest, hold, haccount⟩ := h.asked
  obtain ⟨k', hk', hsame⟩ := hthreads t k hk
  rw [← hsubject] at hrequest haccount
  exact ⟨t, k', now, metadata, reference, hk', hsame.trans hrequest, hreference.trans hold, haccount⟩

theorem Approved.grows (h : Approved env c v)
    (hthreads : ∀ t k, c.threads t = some k → ∃ k', c'.threads t = some k' ∧
      k'.request = k.request) : Approved env c' v := by
  obtain ⟨t, k, now, reading, hk, hauthentic, hword⟩ := h.told
  obtain ⟨k', hk', hsame⟩ := hthreads t k hk
  rw [← hsame] at hauthentic
  exact ⟨t, k', now, reading, hk', hauthentic, hword⟩

/-- **Step lemma.** A call that keeps to the rules keeps the records with their sessions and with the
words of the vendor. -/
theorem WordInv.rows {req : IdentityRequest} {history : KycHistory} (h : WordInv env account c)
    {t : ℕ} {k' : IdentityTask} (hk' : c'.threads t = some k') (hreq : k'.request = req)
    (hthreads : ∀ t k, c.threads t = some k → ∃ k', c'.threads t = some k' ∧
      k'.request = k.request)
    (hrule : Entitled env req call history)
    (hheld : Calls.Held (Tells env account) history c.shared)
    (hchange : RowsChange c.shared call act c'.shared) :
    ∀ v ∈ c'.shared.verifications, OwnSession env account c' v ∧
      (v.status = .verified → Approved env c' v) := by
  have hold : ∀ v ∈ c.shared.verifications, OwnSession env account c' v ∧
      (v.status = .verified → Approved env c' v) := by
    intro v hv
    exact ⟨(h.own v hv).grows hthreads rfl rfl, fun hverified =>
      (h.approved v hv hverified).grows hthreads⟩
  -- a session of the request, which begins with no outcome
  have hsession : ∀ now userId session v, Offered env req history now userId session →
      v.subjectId = userId → v.providerReference = some session.providerVerificationId →
      v.status = mapProviderStatus session.providerStatus →
      OwnSession env account c' v ∧ (v.status = .verified → Approved env c' v) := by
    rintro now userId session v ⟨metadata, hrequest, hmem⟩ rfl hreference hstatus
    have hoffers : Offers account env.provider ⟨v.subjectId, dtoMetadata metadata⟩ (.ok session) :=
      hheld _ hmem
    refine ⟨⟨t, k', now, metadata, _, hk', hreq.trans hrequest, hreference, hoffers.asked.1⟩, ?_⟩
    intro hverified
    rw [hstatus, hoffers.pending] at hverified
    cases hverified
  generalize hshared : c'.shared = db' at hchange
  cases hchange with
  | same act => exact hold
  | inserted new id created hcall hfree hfresh =>
      subst hcall
      obtain ⟨now, userId, session, hoffered, rfl⟩ := hrule
      refine List.forall_mem_append.mpr ⟨hold, List.forall_mem_singleton.mpr ?_⟩
      exact hsession now userId session _ hoffered rfl rfl rfl
  | restarted id updates row hcall hrow =>
      subst hcall
      obtain ⟨now, userId, session, found, hoffered, hfound, rfl, rfl⟩ := hrule
      refine Table.forall_mem_updateWhere (fun v hv _ => hold v hv) fun v hv hid => ?_
      -- the row that was found is still the user's, and no other has its id
      obtain ⟨w, hw, hwid, hsubject⟩ := hheld _ hfound
      obtain rfl : v = w := h.keyed.eq hv hw ((of_decide_eq_true hid).trans hwid.symm)
      exact hsession now userId session _ hoffered hsubject rfl rfl
  | settled reference updates hcall =>
      subst hcall
      obtain ⟨now, reading, hauthentic, htext, rfl⟩ := hrule
      refine Table.forall_mem_updateWhere (fun v hv _ => hold v hv) fun v hv hreference => ?_
      refine ⟨(hold v hv).1.grows (fun t k hk => ⟨k, hk, rfl⟩) rfl rfl, fun hverified => ?_⟩
      have hstatus : reading.result.status = .verified :=
        Option.some.inj (mapProviderStatus_verified.mp hverified)
      obtain ⟨secret, header, payload, hsecret, hne, hheader, hrequest, hread⟩ := hauthentic.received
      have hnow : (WebhookResult.updates now ⟨reference, reading.result⟩).verifiedAt = some now := by
        rw [WebhookResult.updates, if_pos hstatus, readWebhook_verifiedAt hread]
        rfl
      refine ⟨t, k', now, reading, hk', hreq ▸ hauthentic, hstatus, ?_, hnow⟩
      exact htext.trans (of_decide_eq_true hreference).symm

/-- **Step lemma.** -/
theorem WordInv.step (h : WordInv env account c)
    (hstep : (identitySystem env account).step c l c') : WordInv env account c' := by
  have hruled : Ruled (Entitled env) (fun _ _ _ => True) c' :=
    h.ruled.step (fun req => ⟨_, rfl, program_keeps env req⟩) hstep
  -- what was told stays true: a row that was found keeps its id and its user
  have hrecalling : Recalling (fun _ => Tells env account) c' := by
    refine h.recalling.step (S := identityServing env account) (fun req => ⟨_, rfl⟩) ?_ ?_ hstep
    · intro act req call x db hexec
      exact CallAct.exec.tells hexec
    · intro t k hk hheld e he
      cases Calls.step_cases hstep with
      | start t req hfree => exact hheld e he
      | act t act req call cont x db hk' hexec =>
          exact (CallAct.exec.rows hexec).tells (hheld e he)
      | env b db henv => exact b.elim
  -- a request that was there is there still, so what a row rests on is not lost
  have hthreads : ∀ t k, c.threads t = some k → ∃ k', c'.threads t = some k' ∧
      k'.request = k.request := by
    intro t k hk
    obtain ⟨k', hk', hsame, -⟩ := h.recalling.grows hstep hk
    exact ⟨k', hk', hsame⟩
  cases Calls.step_cases hstep with
  | start t req hfree =>
      refine ⟨hrecalling, hruled, h.keyed, fun v hv => ?_, fun v hv hverified => ?_⟩
      · exact (h.own v hv).grows hthreads rfl rfl
      · exact (h.approved v hv hverified).grows hthreads
  | act t act req call cont x db hk hexec =>
      have hchange := CallAct.exec.rows hexec
      -- the rules and what the request was told say what the row that is written rests on
      have hheld : Calls.Held (Tells env account) call.2 c.shared := h.recalling.held t _ hk
      have hrows := h.rows (Function.update_self t _ c.threads) rfl hthreads (h.ruled.next hk).1
        hheld hchange
      exact ⟨hrecalling, hruled, hchange.keyed h.keyed, fun v hv => (hrows v hv).1,
        fun v hv => (hrows v hv).2⟩
  | env b db henv => exact b.elim

/-- **Run lemma.** -/
theorem wordInv_of_reachable (h : (identitySystem env account).Reachable c) :
    WordInv env account c := by
  refine StepSystem.invariant_of_steps (M := identitySystem env account) (I := WordInv env account)
    ?_ ?_ h
  · rintro c ⟨hempty, hnone⟩
    have hempty : c.shared.verifications = [] := hempty
    refine ⟨Calls.recalling_of_none hnone, Calls.ruled_of_none hnone, ?_, ?_, ?_⟩
    · simp [hempty, Table.Unique]
    · simp [hempty]
    · simp [hempty]
  · intro c l c' _ hI hstep
    exact hI.step hstep

/-- **Nobody is verified but on the vendor's word.** Whatever the requests and their order, and whatever
fails: behind every verified record there is an authentic webhook that the provider reads as the approval
of its session, and this session was made for the account that a request of its user named; that is the
user's own account, unless the metadata of this request name another. -/
theorem verified_on_the_vendors_word (h : (identitySystem env account).Reachable c) :
    ∀ v ∈ c.shared.verifications, v.status = .verified → Approved env c v ∧
      ∃ t k now metadata reference, c.threads t = some k ∧
        k.request = .session now v.subjectId metadata ∧ v.providerReference = some reference ∧
        account reference = if env.provider.overrides (dtoMetadata metadata) then
          (dtoMetadata metadata).field env.provider.accountField
        else env.provider.accountOf v.subjectId := by
  have hinv := wordInv_of_reachable h
  intro v hv hverified
  obtain ⟨t, k, now, metadata, reference, hk, hrequest, hreference, haccount⟩ := (hinv.own v hv).asked
  rw [named_body] at haccount
  exact ⟨hinv.approved v hv hverified, t, k, now, metadata, reference, hk, hrequest, hreference,
    haccount⟩

end Runs

/-! ## A borrowed account -/

section Example

open Calls (Move)

/-- Sessions that have the name of the account as their id. -/
def namingVendor (body : Value) : Except HttpException VendorSession :=
  match body.field "userId" with
  | .string userId => .ok ⟨userId, none⟩
  | _ => .error .internal

theorem offers_namingVendor (input : CreateSessionInput) :
    Offers Value.string .stripe input (Stripe.createSession namingVendor input) := by
  refine ⟨namingVendor, fun body session h => ?_, rfl⟩
  change Value.string session.id = body.field "userId"
  rw [namingVendor] at h
  split at h
  · rename_i userId hname
    cases h
    exact hname.symm
  · cases h

/-- Stripe, with a secret. -/
def stripeEnv : IdentityEnv := ⟨.stripe, some "secret"⟩

/-- The user `u` asks for a session and names `v`, who is approved. -/
def borrowMoves : List (Move IdentityRequest) :=
  .start (.session 0 "u" (.object [("userId", .string "v")])) :: List.replicate 3 (.next 0) ++
    [.start (.webhook 1 (.one "secret") (.object [("data", .object [("object",
      .object [("id", .string "v"), ("status", .string "verified")])])])), .next 1]

theorem verified_on_the_vendors_word_borrowed : ∃ c : IdentityConfig,
    (identitySystem stripeEnv Value.string).Reachable c ∧
      c.shared.verifications.map (fun v => (v.subjectId, v.providerReference, v.status)) =
        [("u", some "v", .verified)] ∧
      ∀ v ∈ c.shared.verifications, v.status = .verified → Approved stripeEnv c v := by
  have hrun : ((identityServing stripeEnv Value.string).play
      (fun _ c db => db.answer (fun _ => Stripe.createSession namingVendor) c.1)
      (fun _ _ _ => true) borrowMoves (emptyTable, [])).map
        (fun state => state.1.verifications.map fun v =>
          (v.subjectId, v.providerReference, v.status)) =
      some [("u", some "v", .verified)] := by decide +kernel
  obtain ⟨state, hstate, hrows⟩ := Option.map_eq_some_iff.mp hrun
  have hreach : ((identitySystem stripeEnv Value.string).restrict fun _ _ => True).Reachable
      (Calls.begun state.1 state.2) := by
    refine Calls.reachable_play (a := .answer) (fun _ c db => ?_) (fun _ _ _ _ => trivial) (.init ?_)
      hstate
    · exact db.answers_answer (fun _ => offers_namingVendor) c.1
    · exact ⟨rfl, fun _ => rfl⟩
  refine ⟨_, hreach.of_restrict, hrows, fun v hv hverified => ?_⟩
  exact (verified_on_the_vendors_word hreach.of_restrict v hv hverified).1

end Example

end ThalosBackend.Kyc
