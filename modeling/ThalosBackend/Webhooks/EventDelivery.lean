import ThalosBackend.Agreements.AnsweringDb
import ThalosBackend.Agreements.OperationRows
import ThalosBackend.Agreements.StatusHistory
import ThalosBackend.RetryQueue.Enqueue

/-!
# Delivery of events

`handleEvent` enqueues an event under a hash of its payload, and the retry queue runs `processEvent`
for the job, again after a crash. Trustless Work gives its events no id, so two events with one payload
have one key, and the table keeps a key for good: the second of them finds the job of the first.

The deliveries, every step of the queue and the other operations on agreements run here together. Which
of its events Trustless Work delivers is noted in the payload of the job, and what became of it beside
the store. Where no two events have one key, and no job is processed again while its transition is
open again, no event is lost and none takes effect twice.
-/

set_option autoImplicit false

namespace ThalosBackend.Webhooks

open Js (FloatArithmetic Timestamp Value)
open Calls (Ensures)
open Agreements
open RetryQueue (EnqueueRequest Outcome Pc QueueState QueueStep RetryJob RetryQueueConfig ThreadId
  ProcessId queueSystem)

/-! ## Events and their keys -/

/-- An event of Trustless Work: what is delivered of it, and which one it is. -/
structure TWEvent where
  occurrence : ℕ
  payload : Value
  deriving DecidableEq

section Keys

-- the first 16 hexadecimal digits of the SHA-256 hash of a text
variable (digest : String → String)

/-- `buildIdempotencyKey(payload)`. -/
def buildIdempotencyKey (payload : Value) (event contractId : String) : String :=
  "webhook:" ++ contractId ++ ":" ++ event ++ ":" ++ digest (payload.stringify.getD "undefined")

/-- The enqueue call of `handleEvent(payload)`; an event that is not in the table is not handled. -/
def deliveryJob (e : TWEvent) : Option (EnqueueRequest TWEvent) :=
  match (e.payload.field "event").toText, (e.payload.field "contractId").toText with
  | some event, some contractId => (twEventMap event).map fun _ =>
      { jobType := .webhookEventProcessing
        payload := e
        idempotencyKey := buildIdempotencyKey digest e.payload event contractId
        maxAttempts := none }
  | _, _ => none

theorem payload_deliveryJob {e : TWEvent} {req : EnqueueRequest TWEvent}
    (h : deliveryJob digest e = some req) : req.payload = e := by
  unfold deliveryJob at h
  split at h
  · obtain ⟨config, -, rfl⟩ := Option.map_eq_some_iff.mp h
    rfl
  · cases h

end Keys

/-! ## Status events -/

/-- The contract and the status a status event is about. -/
def statusTarget (payload : Value) : Option (String × AgreementStatus) :=
  match (payload.field "event").toText, (payload.field "contractId").toText with
  | some event, some contractId =>
    match twEventMap event with
    | some (.statusUpdate target) => some (contractId, target)
    | _ => none
  | _, _ => none

/-- The transition of the event is admissible: one agreement has the contract, and its status may
change to the one of the event. -/
def admits (db : AgreementDb) (payload : Value) : Bool :=
  match statusTarget payload with
  | none => false
  | some (contractId, target) =>
    match db.byContract contractId with
    | [a] => canTransition (statusText a.status) target.text
    | _ => false

/-- An agreement of the contract has got the status of the event. -/
def tookEffect (payload : Value) (db db' : AgreementDb) : Bool :=
  match statusTarget payload with
  | none => false
  | some (contractId, target) => (statusChanges db db').any fun a =>
      a.contractId = some contractId && a.status = some target.text

theorem statusTarget_eq_some {payload : Value} {contractId : String} {target : AgreementStatus} :
    statusTarget payload = some (contractId, target) ↔
      ∃ event, (payload.field "event").toText = some event ∧
        (payload.field "contractId").toText = some contractId ∧
        twEventMap event = some (.statusUpdate target) := by
  unfold statusTarget
  constructor
  · intro h
    split at h
    · rename_i event contract hevent hcontract
      split at h
      · rename_i config hconfig
        cases h
        exact ⟨event, hevent, hcontract, hconfig⟩
      · cases h
    · cases h
  · rintro ⟨event, hevent, hcontract, hconfig⟩
    simp only [hevent, hcontract, hconfig]

theorem admits_eq_true {db : AgreementDb} {payload : Value} :
    admits db payload = true ↔ ∃ contractId target a, statusTarget payload = some (contractId, target) ∧
      db.byContract contractId = [a] ∧ canTransition (statusText a.status) target.text = true := by
  unfold admits
  constructor
  · intro h
    split at h
    · cases h
    · rename_i contractId target htarget
      split at h
      · rename_i a hone
        exact ⟨contractId, target, a, htarget, hone, h⟩
      · cases h
  · rintro ⟨contractId, target, a, htarget, hone, htransition⟩
    simp only [htarget, hone, htransition]

section Handler

variable {now : Timestamp} {payload : Value} {db db' : AgreementDb} {out : Except HttpException Unit}

/-- The rows before and after the processing of an event. -/
theorem rows_handleEvent {a a' : Agreement}
    (hrun : Calls.Runs Answers (handleEvent now payload) db out db')
    (hzip : (a, a') ∈ db.agreements.zip db'.agreements) :
    RowStep ⟨now, .webhook payload⟩ a a' := by
  have hend : RowsEnd (RowsStep exactArithmetic ⟨now, .webhook payload⟩ db.agreements)
      (handleEvent now payload) db :=
    handleEvent_rowsEnd (o := ⟨now, .webhook payload⟩) rfl rfl
  have hrows := Calls.ensures_iff.mp (hend.ensures.of_exec Answers.executes) out db' hrun
  generalize db.agreements = rows, db'.agreements = rows' at hrows hzip
  cases hrows with
  | rows hsteps => exact (List.forall₂_iff_zip.mp hsteps).2 hzip
  | added _ _ _ _ ho => cases ho

theorem unchanged_handleEvent {contractId : String}
    (hcontract : (payload.field "contractId").toText = some contractId)
    (hshared : ∀ a, db.byContract contractId ≠ [a])
    (hrun : Calls.Runs Answers (handleEvent now payload) db out db') :
    db'.agreements = db.agreements :=
  Calls.ensures_iff.mp ((handleEvent_unchanged hcontract hshared).ensures.of_exec Answers.executes)
    out db' hrun

/-- An event takes effect only where its transition is admissible. -/
theorem admits_of_tookEffect (hrun : Calls.Runs Answers (handleEvent now payload) db out db')
    (h : tookEffect payload db db' = true) : admits db payload = true := by
  unfold tookEffect at h
  split at h
  · cases h
  · rename_i contractId target htarget
    obtain ⟨event, hevent, hcontract, hconfig⟩ := statusTarget_eq_some.mp htarget
    obtain ⟨changed, hchanged, -⟩ := List.any_eq_true.mp h
    obtain ⟨⟨a, a'⟩, hzip, hpair⟩ := List.mem_filterMap.mp hchanged
    have hne : a.status ≠ a'.status := by
      intro hsame
      simp [hsame] at hpair
    have hone : ∃ b, db.byContract contractId = [b] := by
      by_contra hshared
      have hsame := unchanged_handleEvent hcontract (fun b hb => hshared ⟨b, hb⟩) hrun
      rw [statusChanges_same hsame] at hchanged
      cases hchanged
    obtain ⟨b, hone⟩ := hone
    cases rows_handleEvent hrun hzip with
    | same => exact absurd rfl hne
    | webhookStatus _ event' contract' target' ho hevent' hcontract' hconfig' hrow htransition =>
        cases ho
        obtain rfl : event = event' := Option.some.inj (hevent.symm.trans hevent')
        obtain rfl : contractId = contract' := Option.some.inj (hcontract.symm.trans hcontract')
        obtain rfl : target = target' := by simpa [hconfig] using hconfig'
        -- the row that changed is the only one of the contract
        have hmem := mem_byContract.mpr ⟨(List.of_mem_zip hzip).1, hrow⟩
        rw [hone] at hmem
        obtain rfl := List.mem_singleton.mp hmem
        exact admits_eq_true.mpr ⟨contractId, target, a, htarget, hone, htransition⟩
    | webhookMilestones => exact absurd rfl hne
    | linked _ _ _ ho => cases ho
    | status _ _ ho => cases ho
    | disputed _ ho => cases ho
    | milestone _ _ _ ho => cases ho
    | pulled _ _ ho => cases ho
    | reconciled _ _ _ ho => cases ho

/-- A status that may change to another is there, and is another. -/
theorem exists_status_of_canTransition {a : Agreement} {target : AgreementStatus}
    (h : canTransition (statusText a.status) target.text = true) :
    ∃ s, a.status = some s ∧ s ≠ target.text := by
  cases hstatus : a.status with
  | none =>
      rw [hstatus] at h
      cases target <;> cases h
  | some s =>
      rw [hstatus] at h
      exact ⟨s, rfl, canTransition_ne h⟩

/-- The write of a status event, where one row of the contract has another status. -/
theorem writeStatus_takesEffect {contractId : String} {target : AgreementStatus} {a : Agreement}
    (hone : db.byContract contractId = [a])
    (htransition : canTransition (statusText a.status) target.text = true) :
    Ensures Answers (writeStatus now payload contractId target) db fun _ db' =>
      statusChanges db db' = [a.apply (webhookUpdates now target)] := by
  obtain ⟨source, hsource, hother⟩ := exists_status_of_canTransition htransition
  have hmatches : db.agreements.filter (matchesStatusUpdate contractId target.text) = [a] := by
    have hrow : matchesStatusUpdate contractId target.text a = true := by
      have hmem := mem_byContract.mp (hone ▸ List.mem_singleton_self a)
      exact decide_eq_true ⟨hmem.2, source, hsource, hother⟩
    have hboth : matchesStatusUpdate contractId target.text = fun b =>
        decide (b.contractId = some contractId) && decide (∃ s ∈ b.status, s ≠ target.text) :=
      funext fun b => Bool.decide_and _ _
    have hfilter : db.agreements.filter (matchesStatusUpdate contractId target.text) =
        (db.byContract contractId).filter fun b => decide (∃ s ∈ b.status, s ≠ target.text) := by
      rw [hboth, AgreementDb.byContract, List.filter_filter]
      simp only [Bool.and_comm]
    rw [hfilter, hone]
    exact List.filter_cons_of_pos (by simpa using ⟨source, hsource, hother⟩)
  refine Calls.ensures_ask fun x db₁ hx => ?_
  simp only [Answers, hmatches] at hx
  obtain ⟨rfl, rfl⟩ := hx
  -- what follows the update leaves the agreements alone
  have hquiet : Quiet (do
      logActivity
        { agreementId := (a.apply (webhookUpdates now target)).id
          actorWallet := "trustless-work-webhook"
          action := "webhook_status_changed_to_" ++ target.text
          details := .record [("event", payload.field "event"),
            ("contractId", payload.field "contractId")] }
      dispatchNotification now target (a.apply (webhookUpdates now target))) :=
    (logActivity_silent _).quiet.bind fun _ => dispatchNotification_quiet _ _ _
  refine hquiet.answered fun out db' hsame => ?_
  have hne : a.status ≠ (a.apply (webhookUpdates now target)).status := by
    rw [hsource]
    intro heq
    exact hother (Option.some.inj heq)
  rw [← statusChanges_of_one hmatches hne, statusChanges, statusChanges, hsame.agreements]

/-- An event whose transition is admissible takes effect. -/
theorem tookEffect_of_admits (hrun : Calls.Runs Answers (handleEvent now payload) db out db')
    (h : admits db payload = true) : tookEffect payload db db' = true := by
  obtain ⟨contractId, target, a, htarget, hone, htransition⟩ := admits_eq_true.mp h
  obtain ⟨event, hevent, hcontract, hconfig⟩ := statusTarget_eq_some.mp htarget
  have heffect : Ensures Answers (handleEvent now payload) db fun _ db' =>
      statusChanges db db' = [a.apply (webhookUpdates now target)] := by
    unfold handleEvent
    simp only [hevent, hcontract, hconfig]
    refine Calls.ensures_ask fun x db₁ hx => ?_
    simp only [Answers, hone] at hx
    obtain ⟨rfl, rfl⟩ := hx
    have hvalid := validateTransition_eq_ok.mpr htransition
    simp only [Wallets.maybeSingle, hvalid]
    exact writeStatus_takesEffect hone htransition
  have hchanges := Calls.ensures_iff.mp heffect out db' hrun
  have hrow := mem_byContract.mp (hone ▸ List.mem_singleton_self a)
  simp only [tookEffect, htarget, hchanges, List.any_cons, List.any_nil, Bool.or_false]
  simp [webhookUpdates, hrow.2]

end Handler

/-! ## Runs -/

/-- A processing of an event: whether its transition was admissible then, and whether it took
effect. -/
structure Processing where
  event : TWEvent
  admissible : Bool
  effective : Bool
  deriving DecidableEq

/-- The retry queue and the agreements, the events delivered so far and their processings. -/
structure DeliveryState where
  queue : QueueState TWEvent
  db : AgreementDb
  delivered : List TWEvent
  processed : List Processing

/-- A step of the queue, or an operation on agreements that is no webhook. -/
inductive DeliveryLabel where
  | queue (l : QueueStep TWEvent)
  | operation (o : Operation)

/-- How a handler ends. -/
def handlerOutcome (message : String) : Except HttpException Unit → Outcome
  | .ok _ => .resolved
  | .error _ => .threw (some message)

/-- A step of the queue by itself: no delivery begins, and no handler runs. -/
def isBetween (c : QueueState TWEvent) : QueueStep TWEvent → Bool
  | .start _ k => k.pc.request.isNone
  | .act t _ =>
    match c.threads t with
    | some ⟨_, .runHandler _ _ _⟩ => false
    | _ => true
  | .env _ => true

section System

variable (F : FloatArithmetic) (digest : String → String) (cfg : RetryQueueConfig)

/-- One step. A delivery begins with the `enqueue` of its job; a handler processes the event of its
job; crashes, polls, reclaims and retries are steps of the queue by itself. -/
inductive Delivers : DeliveryState → DeliveryLabel → DeliveryState → Prop where
  | deliver {s : DeliveryState} {c : QueueState TWEvent} {t : ThreadId} {p : ProcessId} {e : TWEvent}
      {req : EnqueueRequest TWEvent} : deliveryJob digest e = some req →
      (queueSystem TWEvent cfg).step s.queue (.start t ⟨p, .enqueueFind req⟩) c →
      Delivers s (.queue (.start t ⟨p, .enqueueFind req⟩))
        { s with queue := c, delivered := s.delivered ++ [e] }
  | handle {s : DeliveryState} {c : QueueState TWEvent} {t : ThreadId} {p : ProcessId}
      {job : RetryJob TWEvent} {attempt : ℕ} {rest : List (RetryJob TWEvent)} {now : Timestamp}
      {message : String} {out : Except HttpException Unit} {db' : AgreementDb} :
      s.queue.threads t = some ⟨p, .runHandler job attempt rest⟩ →
      Calls.Runs Answers (handleEvent now job.payload.payload) s.db out db' →
      (queueSystem TWEvent cfg).step s.queue (.act t (.call now)) c →
      c.threads t = some ⟨p, .settle job attempt (handlerOutcome message out) rest⟩ →
      Delivers s (.queue (.act t (.call now)))
        { s with
          queue := c
          db := db'
          processed := s.processed ++ [⟨job.payload, admits s.db job.payload.payload,
            tookEffect job.payload.payload s.db db'⟩] }
  | queue {s : DeliveryState} {c : QueueState TWEvent} {l : QueueStep TWEvent} :
      isBetween s.queue l = true → (queueSystem TWEvent cfg).step s.queue l c →
      Delivers s (.queue l) { s with queue := c }
  | operation {s : DeliveryState} {o : Operation} {db' : AgreementDb} :
      (∀ payload, o.request ≠ .webhook payload) → (agreementSystem F).step s.db o db' →
      Delivers s (.operation o) { s with db := db' }

/-- The deliveries together with everything else, from an empty queue and a new store. -/
def deliverySystem : StepSystem DeliveryState DeliveryLabel where
  init s := (queueSystem TWEvent cfg).init s.queue ∧ s.db.isNew ∧ s.delivered = [] ∧ s.processed = []
  step := Delivers F digest cfg

/-- The event has taken effect. -/
def DeliveryState.hasTakenEffect (s : DeliveryState) (e : TWEvent) : Bool :=
  s.processed.any fun processing => processing.event = e && processing.effective

/-- A delivery whose key no other event has had, and the processing of an event that has not taken
effect yet, or whose transition is not open again. -/
def keepsApart (s : DeliveryState) : DeliveryLabel → Bool
  | .queue (.start _ k) =>
    match k.pc.request with
    | none => true
    | some req => s.delivered.all fun e => e = req.payload ||
        (deliveryJob digest e).map EnqueueRequest.idempotencyKey ≠ some req.idempotencyKey
  | .queue (.act t _) =>
    match s.queue.threads t with
    | some ⟨_, .runHandler job _ _⟩ =>
      !(s.hasTakenEffect job.payload && admits s.db job.payload.payload)
    | _ => true
  | _ => true

/-- The system, as long as the keys keep the events apart and no event can take effect again. -/
abbrev apartSystem : StepSystem DeliveryState DeliveryLabel :=
  (deliverySystem F digest cfg).restrict fun s l => keepsApart digest s l = true

end System

/-- Nothing is lost: a delivery that is answered has a job of its own event, which counts as done only
after the event was processed, and an event whose transition is admissible when it is processed takes
effect. And none takes effect twice. -/
structure DeliveredOnce (s : DeliveryState) : Prop where
  own_job : ∀ req job, .returned req job ∈ s.queue.shared.log →
    ∃ row ∈ s.queue.shared.rows, row.id = job.id ∧ row.payload = req.payload
  done : ∀ row ∈ s.queue.shared.rows, row.status = .succeeded →
    ∃ processing ∈ s.processed, processing.event = row.payload
  takes_effect : ∀ processing ∈ s.processed, processing.admissible = true →
    processing.effective = true
  once : ∀ e, (s.processed.filter fun processing =>
    processing.event = e && processing.effective).length ≤ 1

/-! ## What the queue keeps -/

section Invariant

variable {digest : String → String} {cfg : RetryQueueConfig} {c c' : QueueState TWEvent}
  {l : QueueStep TWEvent} {delivered delivered' : List TWEvent} {processed processed' : List Processing}

/-- The request is that of an event which has been delivered. -/
def Known (digest : String → String) (delivered : List TWEvent) (req : EnqueueRequest TWEvent) : Prop :=
  req.payload ∈ delivered ∧ deliveryJob digest req.payload = some req

/-- A job that the call is to process, or is processing. -/
def HeldBy (k : RetryQueue.Task TWEvent) (job : RetryJob TWEvent) : Prop :=
  job ∈ k.pc.waiting ∨ ∃ attempt, k.pc.inFlight = some (job, attempt)

/-- The queue, beside what was delivered and processed. -/
structure QueueKept (digest : String → String) (cfg : RetryQueueConfig) (delivered : List TWEvent)
    (processed : List Processing) (c : QueueState TWEvent) : Prop where
  rows : RetryQueue.RowsInv cfg c.shared
  known : ∀ req job, .returned req job ∈ c.shared.log → Known digest delivered req
  asking : ∀ t k req, c.threads t = some k → k.pc.request = some req → Known digest delivered req
  held : ∀ t k job, c.threads t = some k → HeldBy k job →
    ∃ row ∈ c.shared.rows, row.origin = job.origin
  settling : ∀ t k job attempt rest, c.threads t = some k →
    k.pc = .settle job attempt .resolved rest → ∃ processing ∈ processed, processing.event = job.payload
  done : ∀ row ∈ c.shared.rows, row.status = .succeeded →
    ∃ processing ∈ processed, processing.event = row.payload

/-- A job that a call holds after its step was held before, or the step has read it. -/
theorem heldBy_next {a : RetryQueue.Action} {s s' : RetryQueue.Store TWEvent}
    {k k' : RetryQueue.Task TWEvent}
    {job : RetryJob TWEvent} (hact : RetryQueue.Act cfg a s k s' (some k')) (h : HeldBy k' job) :
    HeldBy k job ∨ job ∈ s.rows := by
  rcases h with hwaiting | ⟨attempt, hflight⟩
  · rcases hact.waiting rfl hwaiting with hold | ⟨hread, -⟩
    · exact .inl (.inl hold)
    · exact .inr hread
  · rcases hact.effect.inFlight_next rfl hflight with hold | ⟨now, rest, -, hpc, -⟩
    · exact .inl (.inr ⟨attempt, hold⟩)
    · -- the job was next in line
      refine .inl (.inl ?_)
      rw [hpc]
      exact List.mem_cons_self

theorem mem_rows_of_step (hstep : (queueSystem TWEvent cfg).step c l c') {row : RetryJob TWEvent}
    (hrow : row ∈ c.shared.rows) : ∃ row' ∈ c'.shared.rows, row'.origin = row.origin := by
  rcases RetryQueue.shared_of_step hstep with ⟨hsame, -⟩ | ⟨t, a, k, next, -, -, hact⟩
  · exact ⟨row, hsame ▸ hrow, rfl⟩
  · exact hact.mem_rows hrow

/-- **Step lemma.** A step of the queue keeps this, if the delivery it begins is known by then, and the
handler it ends has been noted. -/
theorem QueueKept.step (hkept : QueueKept digest cfg delivered processed c)
    (hstep : (queueSystem TWEvent cfg).step c l c')
    (hdelivered : ∀ e ∈ delivered, e ∈ delivered')
    (hprocessed : ∀ processing ∈ processed, processing ∈ processed')
    (hbegins : ∀ t k req, l = .start t k → k.pc.request = some req → Known digest delivered' req)
    (hends : ∀ t a k job attempt rest, l = .act t a → c.threads t = some k →
      k.pc = .runHandler job attempt rest →
      c'.threads t = some ⟨k.process, .settle job attempt .resolved rest⟩ →
      ∃ processing ∈ processed', processing.event = job.payload) :
    QueueKept digest cfg delivered' processed' c' := by
  have hknown : ∀ req, Known digest delivered req → Known digest delivered' req :=
    fun req h => ⟨hdelivered _ h.1, h.2⟩
  have hnoted : ∀ e, (∃ processing ∈ processed, processing.event = e) →
      ∃ processing ∈ processed', processing.event = e := by
    rintro e ⟨processing, hmem, he⟩
    exact ⟨processing, hprocessed _ hmem, he⟩
  constructor
  · -- rows: the queue keeps its own invariant
    rcases RetryQueue.shared_of_step hstep with ⟨hrows, hlog⟩ | ⟨t, a, k, next, -, -, hact⟩
    · exact hkept.rows.of_eq hrows hlog
    · exact hkept.rows.act hact
  · intro req job hret
    rcases RetryQueue.shared_of_step hstep with ⟨-, hlog⟩ | ⟨t, a, k, next, -, hk, hact⟩
    · -- the answer was there before
      exact hknown _ (hkept.known req job (hlog ▸ hret))
    · -- a request is answered by the call that asked for it
      rcases hact.returned hret with hold | ⟨hreq, -⟩
      · exact hknown _ (hkept.known req job hold)
      · exact hknown _ (hkept.asking t k req hk hreq)
  · intro t k' req hk' hreq
    rcases RetryQueue.threads_of_step hstep hk' with hk | ⟨hl, -⟩ | ⟨a, k, -, hk, hact⟩
    · exact hknown _ (hkept.asking t k' req hk hreq)
    · exact hbegins t k' req hl hreq
    · rcases hact.request_next rfl hreq with ⟨hpc, -⟩ | ⟨hpc, -⟩
      · exact hknown _ (hkept.asking t k req hk (by rw [hpc]; rfl))
      · exact hknown _ (hkept.asking t k req hk (by rw [hpc]; rfl))
  · intro t k' job hk' hheld
    have hrow : ∃ row ∈ c.shared.rows, row.origin = job.origin := by
      rcases RetryQueue.threads_of_step hstep hk' with hk | ⟨-, hentry⟩ | ⟨a, k, -, hk, hact⟩
      · exact hkept.held t k' job hk hheld
      · -- a call that begins holds no job
        obtain ⟨p, pc⟩ := k'
        cases pc <;> cases hentry <;> rcases hheld with hheld | ⟨attempt, hheld⟩ <;> cases hheld
      · rcases heldBy_next hact hheld with hold | hread
        · exact hkept.held t k job hk hold
        · exact ⟨job, hread, rfl⟩
    obtain ⟨row, hrow, horigin⟩ := hrow
    obtain ⟨row', hrow', horigin'⟩ := mem_rows_of_step hstep hrow
    exact ⟨row', hrow', horigin'.trans horigin⟩
  · intro t k' job attempt rest hk' hpc
    rcases RetryQueue.threads_of_step hstep hk' with hk | ⟨-, hentry⟩ | ⟨a, k, hl, hk, hact⟩
    · exact hnoted _ (hkept.settling t k' job attempt rest hk hpc)
    · rw [hpc] at hentry
      cases hentry
    · rcases hact.settle_next rfl hpc with hnone | hruns
      · cases hnone
      · refine hends t a k job attempt rest hl hk hruns ?_
        rw [hk', ← hpc, ← hact.process_eq rfl]
  · intro row hrow hstatus
    rcases RetryQueue.shared_of_step hstep with ⟨hsame, -⟩ | ⟨t, a, k, next, hl, hk, hact⟩
    · exact hnoted _ (hkept.done row (hsame ▸ hrow) hstatus)
    · rcases hact.effect.succeeded hrow hstatus with hold | ⟨old, job, attempt, rest, hold, hid,
        hpayload, hpc⟩
      · exact hnoted _ (hkept.done row hold hstatus)
      · -- the job that is settled and the row it is written to have one origin
        obtain ⟨row', hrow', horigin⟩ := hkept.held t k job hk (.inr ⟨attempt, by rw [hpc]; rfl⟩)
        rw [RetryJob.origin, RetryJob.origin, Prod.mk.injEq, Prod.mk.injEq, Prod.mk.injEq] at horigin
        obtain rfl := hkept.rows.ids.eq hold hrow' (hid.trans horigin.1.symm)
        rw [← hpayload, horigin.2.2.2]
        exact hnoted _ (hkept.settling t k job attempt rest hk hpc)

/-! ## What the deliveries keep -/

variable {F : FloatArithmetic} {s s' : DeliveryState} {label : DeliveryLabel}

/-- No two of the events delivered have one key. -/
def KeysApart (digest : String → String) (delivered : List TWEvent) : Prop :=
  ∀ e ∈ delivered, ∀ e' ∈ delivered, ∀ req req', deliveryJob digest e = some req →
    deliveryJob digest e' = some req' → req.idempotencyKey = req'.idempotencyKey → e = e'

/-- What holds all along. -/
structure Kept (digest : String → String) (cfg : RetryQueueConfig) (s : DeliveryState) : Prop where
  queue : QueueKept digest cfg s.delivered s.processed s.queue
  keys : KeysApart digest s.delivered
  takes_effect : ∀ processing ∈ s.processed, processing.admissible = true →
    processing.effective = true
  once : ∀ e, (s.processed.filter fun processing =>
    processing.event = e && processing.effective).length ≤ 1

theorem kept_init (h : (apartSystem F digest cfg).init s) : Kept digest cfg s := by
  obtain ⟨⟨⟨hrows, hlog, -⟩, hthreads⟩, -, hdelivered, hprocessed⟩ := h
  refine ⟨⟨RetryQueue.rowsInv_init hrows hlog, ?_, ?_, ?_, ?_, ?_⟩, ?_, ?_, ?_⟩
  · intro req job hret
    rw [hlog] at hret
    cases hret
  · intro t k req hk
    rw [hthreads] at hk
    cases hk
  · intro t k job hk
    rw [hthreads] at hk
    cases hk
  · intro t k job attempt rest hk
    rw [hthreads] at hk
    cases hk
  · intro row hrow
    rw [hrows] at hrow
    cases hrow
  · intro e he
    rw [hdelivered] at he
    cases he
  · intro processing hmem
    rw [hprocessed] at hmem
    cases hmem
  · intro e
    rw [hprocessed]
    exact Nat.zero_le 1

/-- The keys stay apart when an event comes whose key no other has had. -/
theorem KeysApart.deliver {e : TWEvent} {req : EnqueueRequest TWEvent}
    (h : KeysApart digest delivered) (hjob : deliveryJob digest e = some req)
    (hnew : ∀ e' ∈ delivered, e' = e ∨
      (deliveryJob digest e').map EnqueueRequest.idempotencyKey ≠ some req.idempotencyKey) :
    KeysApart digest (delivered ++ [e]) := by
  have hsame : ∀ e' ∈ delivered, ∀ req', deliveryJob digest e' = some req' →
      req'.idempotencyKey = req.idempotencyKey → e' = e := by
    intro e' he' req' hjob' hkey
    rcases hnew e' he' with heq | hother
    · exact heq
    · rw [hjob', Option.map_some, hkey] at hother
      exact absurd rfl hother
  intro e₁ h₁ e₂ h₂ req₁ req₂ hjob₁ hjob₂ hkey
  rcases List.mem_append.mp h₁ with hold₁ | hnew₁ <;> rcases List.mem_append.mp h₂ with hold₂ | hnew₂
  · exact h e₁ hold₁ e₂ hold₂ req₁ req₂ hjob₁ hjob₂ hkey
  · obtain rfl := List.mem_singleton.mp hnew₂
    obtain rfl : req₂ = req := by simpa [hjob] using hjob₂.symm
    exact hsame e₁ hold₁ req₁ hjob₁ hkey
  · obtain rfl := List.mem_singleton.mp hnew₁
    obtain rfl : req₁ = req := by simpa [hjob] using hjob₁.symm
    exact (hsame e₂ hold₂ req₂ hjob₂ hkey.symm).symm
  · rw [List.mem_singleton.mp hnew₁, List.mem_singleton.mp hnew₂]

/-- Another processing, of an event that has not taken effect yet if it takes effect now. -/
theorem once_append {processing : Processing}
    (h : ∀ e, (processed.filter fun p => p.event = e && p.effective).length ≤ 1)
    (hfirst : processing.effective = true →
      ∀ p ∈ processed, p.event = processing.event → p.effective = false) (e : TWEvent) :
    ((processed ++ [processing]).filter fun p => p.event = e && p.effective).length ≤ 1 := by
  rw [List.filter_append, List.length_append]
  cases heffective : (decide (processing.event = e) && processing.effective) with
  | false =>
      rw [List.filter_cons_of_neg (by simp [heffective])]
      exact h e
  | true =>
      obtain ⟨he, heffect⟩ := Bool.and_eq_true_iff.mp heffective
      obtain rfl := of_decide_eq_true he
      have hnone : (processed.filter fun p => p.event = processing.event && p.effective) = [] := by
        apply List.filter_eq_nil_iff.mpr
        intro p hp hboth
        obtain ⟨hevent, hearlier⟩ := Bool.and_eq_true_iff.mp hboth
        rw [hfirst heffect p hp (of_decide_eq_true hevent)] at hearlier
        cases hearlier
      rw [hnone, List.length_nil, Nat.zero_add]
      exact List.length_filter_le _ _

/-- **Step lemma.** Deliveries whose keys are new, and processings that cannot take effect again, keep
this. -/
theorem kept_step (hs : Kept digest cfg s) (hstep : (apartSystem F digest cfg).step s label s') :
    Kept digest cfg s' := by
  obtain ⟨hapart, hdelivers⟩ := hstep
  cases hdelivers with
  | @deliver c t p e req hjob hqueue =>
      obtain rfl := payload_deliveryJob digest hjob
      refine ⟨hs.queue.step hqueue ?_ (fun _ h => h) ?_ ?_, ?_, hs.takes_effect, hs.once⟩
      · intro e he
        exact List.mem_append_left _ he
      · intro t' k' req' hl hreq'
        cases hl
        cases hreq'
        exact ⟨List.mem_append_right _ (List.mem_singleton_self _), hjob⟩
      · intro t' a k job attempt rest hl
        cases hl
      · refine hs.keys.deliver hjob fun e' he' => ?_
        have hnew := List.all_eq_true.mp hapart e' he'
        simpa using hnew
  | @handle c t p job attempt rest now message out db' hruns hrun hqueue hends =>
      refine ⟨hs.queue.step hqueue (fun _ h => h) ?_ ?_ ?_, hs.keys, ?_, ?_⟩
      · intro processing hmem
        exact List.mem_append_left _ hmem
      · intro t' k' req' hl
        cases hl
      · intro t' a k job' attempt' rest' hl hk hpc _
        cases hl
        rw [hruns] at hk
        cases hk
        cases hpc
        exact ⟨_, List.mem_append_right _ (List.mem_singleton_self _), rfl⟩
      · intro processing hmem hadmissible
        rcases List.mem_append.mp hmem with hold | hnew
        · exact hs.takes_effect processing hold hadmissible
        · rw [List.mem_singleton.mp hnew] at hadmissible ⊢
          exact tookEffect_of_admits hrun hadmissible
      · refine once_append hs.once fun heffective earlier hearlier hevent => ?_
        -- what takes effect now was admissible, so it has not taken effect before
        have hadmits := admits_of_tookEffect hrun heffective
        have hopen : s.hasTakenEffect job.payload = false := by
          simpa [keepsApart, hruns, hadmits] using hapart
        have hnot := List.any_eq_false.mp hopen earlier hearlier
        simpa [hevent] using hnot
  | @queue c l hbetween hqueue =>
      refine ⟨hs.queue.step hqueue (fun _ h => h) (fun _ h => h) ?_ ?_, hs.keys, hs.takes_effect,
        hs.once⟩
      · intro t k req hl hreq
        rw [hl] at hbetween
        simp [isBetween, hreq] at hbetween
      · intro t a k job attempt rest hl hk hpc _
        obtain ⟨p, pc⟩ := k
        cases hpc
        rw [hl] at hbetween
        simp [isBetween, hk] at hbetween
  | @operation o db' _ hdb => exact ⟨hs.queue, hs.keys, hs.takes_effect, hs.once⟩

/-- **Events are neither lost nor re-applied.** Where no event is delivered under the key of another,
and none is processed again while its transition is admissible again, every answered delivery has its
own job, done only after it was processed; an event that is admissible when it is processed takes
effect; and none takes effect twice. -/
theorem delivered_once (h : (apartSystem F digest cfg).Reachable s) : DeliveredOnce s := by
  have hkept : Kept digest cfg s :=
    StepSystem.invariant_of_steps (fun _ hinit => kept_init hinit)
      (fun _ _ _ _ hs hstep => kept_step hs hstep) h
  refine ⟨?_, hkept.queue.done, hkept.takes_effect, hkept.once⟩
  intro req job hret
  obtain ⟨row, hrow, hid, hkey⟩ := hkept.queue.rows.returned req job hret
  refine ⟨row, hrow, hid, ?_⟩
  -- the row is that of the call which inserted it, and its key is the key of this call
  obtain ⟨first, created, -, hfirst, -, hfirstKey, -, hpayload⟩ := hkept.queue.rows.winner hrow
  obtain ⟨hmem, hjob⟩ := hkept.queue.known req job hret
  obtain ⟨hmem', hjob'⟩ := hkept.queue.known first created hfirst
  rw [hpayload]
  exact hkept.keys _ hmem' _ hmem first req hjob' hjob (hfirstKey.symm.trans hkey)

end Invariant

/-! ### One payload, twice -/

/-- An escrow is disputed, as often as Trustless Work says so. -/
def disputedEvent (occurrence : ℕ) : TWEvent where
  occurrence
  payload := .object [("event", .string "escrow.disputed"), ("contractId", .string "C")]

/-- The hash of that payload. -/
def disputedDigest (_ : String) : String := "62c111971cf1e3cb"

/-- The enqueue call for the event. -/
def disputedJob (occurrence : ℕ) : EnqueueRequest TWEvent where
  jobType := .webhookEventProcessing
  payload := disputedEvent occurrence
  idempotencyKey := "webhook:C:escrow.disputed:62c111971cf1e3cb"
  maxAttempts := none

theorem deliveryJob_disputed (occurrence : ℕ) :
    deliveryJob disputedDigest (disputedEvent occurrence) = some (disputedJob occurrence) := by
  rfl

/-- The payer makes the agreement active. -/
def activate (now : Timestamp) : Operation := ⟨now, .updateStatus "payer" "i" ⟨.active, "P"⟩⟩

/-- An agreement linked to `C`, and active. -/
def activeStore : AgreementDb :=
  runAll exactArithmetic [createOperation "10" (some "C") splitTen, activate 1] newStore

/-- The system of these examples. -/
abbrev sampleApart : StepSystem DeliveryState DeliveryLabel :=
  apartSystem exactArithmetic disputedDigest RetryQueue.retryQueueDefaults

/-- The event is delivered, a poll takes its job, and the handler processes it. -/
theorem reachable_processed {db db' : AgreementDb} {out : Except HttpException Unit}
    (h : sampleApart.Reachable ⟨RetryQueue.emptyQueue TWEvent, db, [], []⟩)
    (hadmits : admits db (disputedEvent 0).payload = true)
    (hrun : Calls.Runs Answers (handleEvent 5 (disputedEvent 0).payload) db out db')
    (hresolved : handlerOutcome "" out = .resolved) :
    ∃ s job, sampleApart.Reachable s ∧ s.db = db' ∧ s.queue.threads 2 = none ∧
      s.queue.shared.rows = [job] ∧ job.payload = disputedEvent 0 ∧
      job.idempotencyKey = (disputedJob 0).idempotencyKey ∧
      s.processed = [⟨disputedEvent 0, true, true⟩] := by
  have heffect := tookEffect_of_admits hrun hadmits
  have hstale : RetryQueue.staleBefore RetryQueue.retryQueueDefaults 5 = some (-59995) := by
    decide +kernel
  have h₁ := h.guarded (.queue rfl (RetryQueue.queue_register 0 .webhookEventProcessing)) rfl
  have h₂ := h₁.guarded (.deliver (deliveryJob_disputed 0)
    (RetryQueue.queue_start 0 0 (.enqueueFind (disputedJob 0)) rfl rfl)) rfl
  have h₃ := h₂.guarded (.queue rfl (RetryQueue.queue_call 0 2 rfl (.findMiss rfl))) rfl
  have h₄ := h₃.guarded (.queue rfl (RetryQueue.queue_call 0 3 rfl (.insert "a" 3 rfl rfl))) rfl
  have h₅ := h₄.guarded
    (.queue rfl (RetryQueue.queue_start 1 0 .reclaimStaleProcessingJobs rfl rfl)) rfl
  have h₆ := h₅.guarded
    (.queue rfl (RetryQueue.queue_call 1 5 rfl (.selectStale hstale (.refl _)))) rfl
  have h₇ := h₆.guarded (.queue rfl (RetryQueue.queue_call 1 5 rfl
    (.selectDue ⟨_, .refl _, List.pairwise_singleton _ _, rfl⟩))) rfl
  have h₈ := h₇.guarded (.queue rfl (RetryQueue.queue_call 1 5 rfl (.pick rfl))) rfl
  have h₉ := h₈.guarded (.queue rfl (RetryQueue.queue_call 1 5 rfl (.invoke rfl))) rfl
  have hends : handlerOutcome "" out ≠ .noHandler := by
    rw [hresolved]
    decide
  have h₁₀ := h₉.guarded
    (.handle rfl hrun (RetryQueue.queue_call 1 5 rfl (.handlerEnds hends)) rfl) rfl
  refine ⟨_, _, h₁₀, rfl, rfl, rfl, rfl, rfl, ?_⟩
  show [Processing.mk (disputedEvent 0) (admits db (disputedEvent 0).payload)
    (tookEffect (disputedEvent 0).payload db db')] = _
  rw [hadmits, heffect]

/-- The dispute of an active agreement. -/
theorem reachable_disputed : ∃ s job, sampleApart.Reachable s ∧ s.queue.threads 2 = none ∧
    s.queue.shared.rows = [job] ∧ job.payload = disputedEvent 0 ∧
    job.idempotencyKey = (disputedJob 0).idempotencyKey ∧
    s.processed = [⟨disputedEvent 0, true, true⟩] := by
  have h₀ : sampleApart.Reachable ⟨RetryQueue.emptyQueue TWEvent, newStore, [], []⟩ :=
    .init ⟨RetryQueue.emptyQueue_init, isNew_newStore, rfl, rfl⟩
  have h₁ := h₀.guarded (.operation (o := createOperation "10" (some "C") splitTen) nofun
    ⟨_, (createOperation "10" (some "C") splitTen).runs exactArithmetic newStore⟩) rfl
  have h₂ : sampleApart.Reachable ⟨RetryQueue.emptyQueue TWEvent, activeStore, [], []⟩ :=
    h₁.guarded (.operation (o := activate 1) nofun ⟨_, (activate 1).runs exactArithmetic _⟩) rfl
  obtain ⟨s, job, hreach, -, hrest⟩ := reachable_processed h₂ (by decide +kernel)
    (Calls.runs_run (fun c db => db.answers_answer c) _ _) (by decide +kernel)
  exact ⟨s, job, hreach, hrest⟩

/-- The theorem for one dispute, delivered and processed. -/
theorem delivered_once_disputed :
    ∃ s, s.processed = [⟨disputedEvent 0, true, true⟩] ∧ DeliveredOnce s := by
  obtain ⟨s, job, h, -, -, -, -, hprocessed⟩ := reachable_disputed
  exact ⟨s, hprocessed, delivered_once h⟩

/-- The dispute is over, the escrow is disputed again in the same words, and the delivery is answered
with the job of the first dispute. -/
theorem not_delivered_once : ¬ ∀ s,
    (deliverySystem exactArithmetic disputedDigest RetryQueue.retryQueueDefaults).Reachable s →
      DeliveredOnce s := by
  intro h
  obtain ⟨s, job, hreach, hfree, hrows, hpayload, hkey, -⟩ := reachable_disputed
  have h₁ := hreach.of_restrict.step
    (.operation (o := activate 7) nofun ⟨_, (activate 7).runs exactArithmetic s.db⟩)
  have h₂ := h₁.step (.deliver (deliveryJob_disputed 1)
    (RetryQueue.queue_start 2 0 (.enqueueFind (disputedJob 1)) hfree rfl))
  have hfound : s.queue.shared.findByIdempotencyKey (disputedJob 1).idempotencyKey = some job := by
    rw [RetryQueue.Store.findByIdempotencyKey, hrows]
    exact List.find?_cons_of_pos (decide_eq_true hkey)
  have hanswered : RetryQueue.Call RetryQueue.retryQueueDefaults 8 0 s.queue.shared
      (.enqueueFind (disputedJob 1)) (s.queue.shared.emit (.returned (disputedJob 1) job)) none :=
    .findHit hfound
  have h₃ := h₂.step (.queue rfl (RetryQueue.queue_call 2 8 rfl hanswered))
  obtain ⟨row, hrow, -, hown⟩ := (h _ h₃).own_job (disputedJob 1) job List.mem_cons_self
  have hmem : row ∈ s.queue.shared.rows := hrow
  rw [hrows] at hmem
  rw [List.mem_singleton.mp hmem, hpayload] at hown
  exact absurd hown (by decide)

end ThalosBackend.Webhooks
