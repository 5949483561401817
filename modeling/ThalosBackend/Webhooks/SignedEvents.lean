import ThalosBackend.RetryQueue.Provenance
import ThalosBackend.Webhooks.EventDelivery
import ThalosBackend.Webhooks.WebhooksController

/-!
# Only signed events take effect

Anybody may send anything to the receiver, any number of times. What the receiver lets pass is stored
as a job, which other processes read, run, give up and run again, in any order with all other
operations. So the check is made long before the effect, by another process. Jobs of other types only
send requests to Trustless Work and are left out.

Still every job is that of a payload which was received under a valid signature, and the agreements are
as the signed events and the operations of users alone make them (`only_signed_events_take_effect`).
-/

set_option autoImplicit false

namespace ThalosBackend.Webhooks

open Js (FloatArithmetic Timestamp Value)
open Agreements
open RetryQueue (EnqueueRequest FromRequests QueueState QueueStep RetryJob RetryJobType
  RetryQueueConfig ThreadId ProcessId queueSystem)

/-! ## The receiver and the queue -/

/-- The queue, the agreements, and all that was sent to the receiver. -/
structure ReceiverState where
  queue : QueueState TWEvent
  db : AgreementDb
  received : List SignedRequest

/-- A request to the receiver, a step of the queue, or an operation that is no webhook. -/
inductive ReceiverLabel where
  | request (req : SignedRequest)
  | queue (l : QueueStep TWEvent)
  | operation (o : Operation)

section System

variable (env : ReceiverEnv) (F : FloatArithmetic) (digest : String → String) (cfg : RetryQueueConfig)

/-- One step. A request that the controller lets pass begins the `enqueue` of its event; every other one
ends without a trace. A handler processes the payload of its job, and any of its queries may fail. -/
inductive Receives : ReceiverState → ReceiverLabel → ReceiverState → Prop where
  | accepted {s : ReceiverState} {c : QueueState TWEvent} {req : SignedRequest} {e : TWEvent}
      {job : EnqueueRequest TWEvent} {t : ThreadId} {p : ProcessId} :
      handleTrustlessWork env req = .ok e.payload → deliveryJob digest e = some job →
      (queueSystem TWEvent cfg).step s.queue (.start t ⟨p, .enqueueFind job⟩) c →
      Receives s (.request req) { s with queue := c, received := req :: s.received }
  | refused {s : ReceiverState} {req : SignedRequest} :
      (∀ e : TWEvent, handleTrustlessWork env req = .ok e.payload → deliveryJob digest e = none) →
      Receives s (.request req) { s with received := req :: s.received }
  | handle {s : ReceiverState} {c : QueueState TWEvent} {t : ThreadId} {p : ProcessId}
      {job : RetryJob TWEvent} {attempt : ℕ} {rest : List (RetryJob TWEvent)} {now : Timestamp}
      {message : String} {out : Except HttpException Unit} {db' : AgreementDb} :
      s.queue.threads t = some ⟨p, .runHandler job attempt rest⟩ →
      Calls.Runs Executes (handleEvent now job.payload.payload) s.db out db' →
      (queueSystem TWEvent cfg).step s.queue (.act t (.call now)) c →
      c.threads t = some ⟨p, .settle job attempt (handlerOutcome message out) rest⟩ →
      Receives s (.queue (.act t (.call now))) { s with queue := c, db := db' }
  | queue {s : ReceiverState} {c : QueueState TWEvent} {l : QueueStep TWEvent} :
      isBetween s.queue l = true → (queueSystem TWEvent cfg).step s.queue l c →
      Receives s (.queue l) { s with queue := c }
  | operation {s : ReceiverState} {o : Operation} {db' : AgreementDb} :
      (∀ payload, o.request ≠ .webhook payload) → (agreementSystem F).step s.db o db' →
      Receives s (.operation o) { s with db := db' }

/-- The receiver together with everything else, from an empty queue and a new store. -/
def receiverSystem : StepSystem ReceiverState ReceiverLabel where
  init s := (queueSystem TWEvent cfg).init s.queue ∧ s.db.isNew ∧ s.received = []
  step := Receives env F digest cfg

end System

/-! ## What was signed -/

/-- The request carries the payload under a valid signature. -/
structure Signs (env : ReceiverEnv) (req : SignedRequest) (payload : Value) : Prop where
  valid : ∃ header, req.signatureHeader = some header ∧ verifySignature env req.body header = true
  read : env.parse req.body = some payload

/-- A payload that was received under a valid signature. -/
def Signed (env : ReceiverEnv) (received : List SignedRequest) (payload : Value) : Prop :=
  ∃ req ∈ received, Signs env req payload

/-- Of the webhooks only signed ones. -/
def SignedOnly (env : ReceiverEnv) (received : List SignedRequest) (_ : AgreementDb)
    (o : Operation) : Prop :=
  ∀ payload, o.request = .webhook payload → Signed env received payload

section Runs

variable {env : ReceiverEnv} {F : FloatArithmetic} {digest : String → String} {cfg : RetryQueueConfig}
  {s s' : ReceiverState} {l : ReceiverLabel} {req : SignedRequest} {received : List SignedRequest}
  {payload : Value}

theorem signs_of_handle (h : handleTrustlessWork env req = .ok payload) : Signs env req payload := by
  rw [handleTrustlessWork] at h
  split at h
  · cases h
  · rename_i header hheader
    split at h
    · cases h
    · rename_i hvalid
      split at h
      · cases h
      · rename_i read hread
        split at h
        · cases h
        · split at h
          · cases h
          · cases h
            have hvalid : verifySignature env req.body header = true := by simpa using hvalid
            exact ⟨⟨header, (Js.nonEmpty_eq_some.mp hheader).1, hvalid⟩, hread⟩

theorem Signed.cons (h : Signed env received payload) (req : SignedRequest) :
    Signed env (req :: received) payload := by
  obtain ⟨signing, hmem, hsigns⟩ := h
  exact ⟨signing, List.mem_cons_of_mem _ hmem, hsigns⟩

theorem SignedOnly.cons {db : AgreementDb} {o : Operation} (h : SignedOnly env received db o)
    (req : SignedRequest) : SignedOnly env (req :: received) db o :=
  fun payload hwebhook => (h payload hwebhook).cons req

/-- What every run keeps. -/
structure SignedInv (env : ReceiverEnv) (F : FloatArithmetic) (s : ReceiverState) : Prop where
  jobs : FromRequests (fun _ e => Signed env s.received e.payload) s.queue
  agreements : ((agreementSystem F).restrict (SignedOnly env s.received)).Reachable s.db

/-- **Step lemma.** -/
theorem SignedInv.step (h : SignedInv env F s) (hstep : Receives env F digest cfg s l s') :
    SignedInv env F s' := by
  cases hstep with
  | @accepted c req e job t p hhandle hjob hqueue =>
      have hkept := h.jobs.mono fun _ _ hsigned => Signed.cons hsigned req
      obtain rfl := payload_deliveryJob digest hjob
      refine ⟨hkept.step hqueue fun t' k req' hl hreq => ?_, ?_⟩
      · -- the job that begins is that of the request
        cases hl
        cases hreq
        exact ⟨req, List.mem_cons_self, signs_of_handle hhandle⟩
      · exact h.agreements.guard_mono fun _ _ honly => honly.cons req
  | @refused req hnone =>
      constructor
      · exact h.jobs.mono fun _ _ hsigned => Signed.cons hsigned req
      · exact h.agreements.guard_mono fun _ _ honly => honly.cons req
  | @handle c t p job attempt rest now message out db' hruns hrun hqueue hends =>
      -- the handler has the payload from its job, and so a signed one; its queries are those of the
      -- webhook
      have hsigned : Signed env s.received job.payload.payload := h.jobs.runHandler hruns
      refine ⟨h.jobs.step hqueue fun t' k req' hl => ?_, ?_⟩
      · cases hl
      · have hwebhooked : (agreementSystem F).step s.db ⟨now, .webhook job.payload.payload⟩ db' :=
          ⟨_, hrun.bind_done fun _ => AgreementAnswer.processed⟩
        refine h.agreements.guarded hwebhooked ?_
        intro payload hwebhook
        cases hwebhook
        exact hsigned
  | @queue c l hbetween hqueue =>
      -- a step between the handlers begins no `enqueue`
      refine ⟨h.jobs.step hqueue fun t k req' hl hreq => ?_, h.agreements⟩
      rw [hl] at hbetween
      simp [isBetween, hreq] at hbetween
  | @operation o db' hother hdb =>
      refine ⟨h.jobs, h.agreements.guarded hdb fun payload hwebhook => ?_⟩
      exact absurd hwebhook (hother payload)

/-- **Run lemma.** -/
theorem signedInv_of_reachable (h : (receiverSystem env F digest cfg).Reachable s) :
    SignedInv env F s := by
  refine StepSystem.invariant_of_steps (M := receiverSystem env F digest cfg)
    (I := SignedInv env F) ?_ ?_ h
  · rintro s ⟨hqueue, hnew, -⟩
    exact ⟨RetryQueue.fromRequests_init hqueue, .init hnew⟩
  · intro s l s' _ hI hstep
    exact hI.step hstep

/-- **Only signed events take effect.** Whatever is sent to the receiver, and whatever becomes of the
jobs: each of them holds a payload that was received under a valid signature, and the agreements are
where the operations of users and the events of such payloads have led to. -/
theorem only_signed_events_take_effect (h : (receiverSystem env F digest cfg).Reachable s) :
    (∀ row ∈ s.queue.shared.rows, Signed env s.received row.payload.payload) ∧
      ((agreementSystem F).restrict (SignedOnly env s.received)).Reachable s.db :=
  ⟨(signedInv_of_reachable h).jobs.rows, (signedInv_of_reachable h).agreements⟩

end Runs

/-! ### One request that takes effect -/

/-- A receiver to whom every body is the dispute, and whose HMAC is always zero. -/
def disputedEnv : ReceiverEnv where
  webhookSecret := "secret"
  hmac _ _ := List.replicate 32 0
  length_hmac _ _ := rfl
  parse _ := some (disputedEvent 0).payload

/-- The dispute, with that HMAC in its header. -/
def disputedRequest : SignedRequest where
  rawBody := some []
  signatureHeader :=
    some "sha256=0000000000000000000000000000000000000000000000000000000000000000"

theorem handle_disputedRequest :
    handleTrustlessWork disputedEnv disputedRequest = .ok (disputedEvent 0).payload := by
  decide +kernel

/-- The theorem for an agreement that the request has made disputed. -/
theorem only_signed_events_take_effect_disputed : ∃ s : ReceiverState,
    s.received = [disputedRequest] ∧ s.queue.shared.rows ≠ [] ∧
      s.db.agreements.map (·.status) = [some "disputed"] ∧
      (∀ row ∈ s.queue.shared.rows, Signed disputedEnv s.received row.payload.payload) ∧
      ((agreementSystem exactArithmetic).restrict
        (SignedOnly disputedEnv s.received)).Reachable s.db := by
  have hrun : Calls.Runs Executes (handleEvent 5 (disputedEvent 0).payload) activeStore _ _ :=
    Calls.runs_run (fun c db => .inl (db.answers_answer c)) _ _
  have hends : handlerOutcome "" (Calls.run (fun c db => db.answer c)
      (handleEvent 5 (disputedEvent 0).payload) activeStore).1 ≠ .noHandler := by
    decide +kernel
  have hstale : RetryQueue.staleBefore RetryQueue.retryQueueDefaults 5 = some (-59995) := by
    decide +kernel
  have h₀ : (receiverSystem disputedEnv exactArithmetic disputedDigest
      RetryQueue.retryQueueDefaults).Reachable ⟨RetryQueue.emptyQueue TWEvent, newStore, []⟩ :=
    .init ⟨RetryQueue.emptyQueue_init, isNew_newStore, rfl⟩
  -- the agreement is created and made active
  have h₁ := h₀.step (.operation (o := createOperation "10" (some "C") splitTen) nofun
    ⟨_, (createOperation "10" (some "C") splitTen).runs exactArithmetic newStore⟩)
  have h₂ : (receiverSystem disputedEnv exactArithmetic disputedDigest
      RetryQueue.retryQueueDefaults).Reachable ⟨RetryQueue.emptyQueue TWEvent, activeStore, []⟩ :=
    h₁.step (.operation (o := activate 1) nofun ⟨_, (activate 1).runs exactArithmetic _⟩)
  -- the request is let pass and its job stored
  have h₃ := h₂.step (.queue rfl (RetryQueue.queue_register 0 .webhookEventProcessing))
  have h₄ := h₃.step (.accepted handle_disputedRequest (deliveryJob_disputed 0)
    (RetryQueue.queue_start 0 0 (.enqueueFind (disputedJob 0)) rfl rfl))
  have h₅ := h₄.step (.queue rfl (RetryQueue.queue_call 0 2 rfl (.findMiss rfl)))
  have h₆ := h₅.step (.queue rfl (RetryQueue.queue_call 0 3 rfl (.insert "a" 3 rfl rfl)))
  -- a poll takes the job, and the handler processes it
  have h₇ := h₆.step (.queue rfl (RetryQueue.queue_start 1 0 .reclaimStaleProcessingJobs rfl rfl))
  have h₈ := h₇.step (.queue rfl (RetryQueue.queue_call 1 5 rfl (.selectStale hstale (.refl _))))
  have h₉ := h₈.step (.queue rfl (RetryQueue.queue_call 1 5 rfl
    (.selectDue ⟨_, .refl _, List.pairwise_singleton _ _, rfl⟩)))
  have h₁₀ := h₉.step (.queue rfl (RetryQueue.queue_call 1 5 rfl (.pick rfl)))
  have h₁₁ := h₁₀.step (.queue rfl (RetryQueue.queue_call 1 5 rfl (.invoke rfl)))
  have h₁₂ := h₁₁.step
    (.handle rfl hrun (RetryQueue.queue_call 1 5 rfl (.handlerEnds hends)) rfl)
  refine ⟨_, rfl, List.cons_ne_nil _ _, ?_, only_signed_events_take_effect h₁₂⟩
  change (Calls.run (fun c db => db.answer c) (handleEvent 5 (disputedEvent 0).payload)
    activeStore).2.agreements.map (·.status) = [some "disputed"]
  decide +kernel

end ThalosBackend.Webhooks
