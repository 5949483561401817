import ThalosBackend.RetryQueue.Enqueue

/-!
# Where jobs come from

Jobs are read, written back, retried and taken over by another process, but only `enqueue` makes them.
So what is asked of every call of `enqueue` that begins holds of every job there is: of the rows, and of
the jobs that a call of the queue holds in memory (`FromRequests.step`).
-/

set_option autoImplicit false

namespace ThalosBackend.RetryQueue

variable {Payload : Type} {cfg : RetryQueueConfig}

/-- All there is in the queue is as `P` says of a type and a payload. -/
structure FromRequests (P : RetryJobType → Payload → Prop) (c : QueueState Payload) : Prop where
  rows : ∀ row ∈ c.shared.rows, P row.jobType row.payload
  asking : ∀ t k req, c.threads t = some k → k.pc.request = some req → P req.jobType req.payload
  waiting : ∀ t k job, c.threads t = some k → job ∈ k.pc.waiting → P job.jobType job.payload
  inFlight : ∀ t k job attempt, c.threads t = some k → k.pc.inFlight = some (job, attempt) →
    P job.jobType job.payload

section Steps

variable {P : RetryJobType → Payload → Prop} {c c' : QueueState Payload} {l : QueueStep Payload}

theorem fromRequests_init (h : (queueSystem Payload cfg).init c) : FromRequests P c := by
  obtain ⟨⟨hrows, -, -⟩, hthreads⟩ := h
  constructor
  · intro row hrow
    rw [hrows] at hrow
    cases hrow
  · intro t k req hk
    rw [hthreads] at hk
    cases hk
  · intro t k job hk
    rw [hthreads] at hk
    cases hk
  · intro t k job attempt hk
    rw [hthreads] at hk
    cases hk

/-- A call that begins holds no job. -/
theorem Pc.holds_none {pc : Pc Payload} (h : pc.isEntry = true) :
    pc.waiting = [] ∧ pc.inFlight = none := by
  cases pc with
  | reclaimStaleProcessingJobs => exact ⟨rfl, rfl⟩
  | manualRetry id => exact ⟨rfl, rfl⟩
  | enqueueFind req => exact ⟨rfl, rfl⟩
  | _ => cases h

/-- A job in flight was next in line before. -/
theorem Pc.inFlight_processJob {pc : Pc Payload} {job : RetryJob Payload}
    {rest : List (RetryJob Payload)} (h : pc = .processJob job rest) : job ∈ pc.waiting := by
  rw [h]
  exact List.mem_cons_self

/-- Rows are written back with the type and the payload they were made with, and a new row has those of
its request. -/
theorem FromRequests.rows_act {a : Action} {t : ThreadId} {k : Task Payload} {s' : Store Payload}
    {next : Option (Task Payload)} (h : FromRequests P c) (hk : c.threads t = some k)
    (hact : Act cfg a c.shared k s' next) : ∀ row ∈ s'.rows, P row.jobType row.payload := by
  intro row hrow
  rcases hact.effect.origins with ⟨horigins, -⟩ | ⟨now, req, id, created, hpc, hrows, -⟩
  · have hmem : row.origin ∈ c.shared.rows.map RetryJob.origin :=
      horigins ▸ List.mem_map_of_mem hrow
    obtain ⟨old, hold, horigin⟩ := List.mem_map.mp hmem
    simp only [RetryJob.origin, Prod.mk.injEq] at horigin
    obtain ⟨-, -, htype, hpayload⟩ := horigin
    rw [← htype, ← hpayload]
    exact h.rows old hold
  · rw [hrows] at hrow
    rcases List.mem_append.mp hrow with hold | hnew
    · exact h.rows row hold
    · obtain rfl := List.mem_singleton.mp hnew
      apply h.asking t k req hk
      rw [hpc]
      rfl

/-- **Step lemma.** A step keeps what is asked of the calls that begin. -/
theorem FromRequests.step (h : FromRequests P c) (hstep : (queueSystem Payload cfg).step c l c')
    (hbegins : ∀ t k req, l = .start t k → k.pc.request = some req → P req.jobType req.payload) :
    FromRequests P c' := by
  constructor
  · -- rows: only an `enqueue` adds one
    rcases shared_of_step hstep with ⟨hrows, -⟩ | ⟨t, a, k, next, -, hk, hact⟩
    · rw [hrows]
      exact h.rows
    · exact h.rows_act hk hact
  · intro t k' req hk' hreq
    rcases threads_of_step hstep hk' with hk | ⟨hl, -⟩ | ⟨a, k, -, hk, hact⟩
    · exact h.asking t k' req hk hreq
    · exact hbegins t k' req hl hreq
    · -- the request a call is made for stays the same between its two queries
      rcases hact.request_next rfl hreq with ⟨hpc, -⟩ | ⟨hpc, -⟩
      · apply h.asking t k req hk
        rw [hpc]
        rfl
      · apply h.asking t k req hk
        rw [hpc]
        rfl
  · intro t k' job hk' hjob
    rcases threads_of_step hstep hk' with hk | ⟨-, hentry⟩ | ⟨a, k, -, hk, hact⟩
    · exact h.waiting t k' job hk hjob
    · rw [(Pc.holds_none hentry).1] at hjob
      cases hjob
    · -- the job was waiting before, or the step has read its row
      rcases hact.waiting rfl hjob with hold | ⟨hread, -⟩
      · exact h.waiting t k job hk hold
      · exact h.rows job hread
  · intro t k' job attempt hk' hjob
    rcases threads_of_step hstep hk' with hk | ⟨-, hentry⟩ | ⟨a, k, -, hk, hact⟩
    · exact h.inFlight t k' job attempt hk hjob
    · rw [(Pc.holds_none hentry).2] at hjob
      cases hjob
    · -- an attempt begins with a job that was waiting
      rcases hact.effect.inFlight_next rfl hjob with hold | ⟨now, rest, -, hpc, -⟩
      · exact h.inFlight t k job attempt hk hold
      · exact h.waiting t k job hk (Pc.inFlight_processJob hpc)

/-- A handler is run with a job that was asked for. -/
theorem FromRequests.runHandler (h : FromRequests P c) {t : ThreadId} {p : ProcessId}
    {job : RetryJob Payload} {attempt : ℕ} {rest : List (RetryJob Payload)}
    (hk : c.threads t = some ⟨p, .runHandler job attempt rest⟩) : P job.jobType job.payload :=
  h.inFlight t _ job attempt hk rfl

/-- What is asked of fewer payloads holds of more. -/
theorem FromRequests.mono {P' : RetryJobType → Payload → Prop} (h : FromRequests P c)
    (himp : ∀ jobType payload, P jobType payload → P' jobType payload) : FromRequests P' c where
  rows row hrow := himp _ _ (h.rows row hrow)
  asking t k req hk hreq := himp _ _ (h.asking t k req hk hreq)
  waiting t k job hk hjob := himp _ _ (h.waiting t k job hk hjob)
  inFlight t k job attempt hk hjob := himp _ _ (h.inFlight t k job attempt hk hjob)

end Steps

end ThalosBackend.RetryQueue
