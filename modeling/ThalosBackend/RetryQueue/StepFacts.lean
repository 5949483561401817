import ThalosBackend.RetryQueue.RetryQueueService

/-!
# What one step does to jobs

`Act.effect` sums up the steps of the queue by what they do to a job: put a stale one back, pick one,
start its handler, write the end of an attempt, lose an attempt, insert a row, or nothing. The
invariants of the queue are case analyses over these. `Act.waiting` says where the jobs come from
that a call has still to process.

`history` is the part of the log that is about one job.
-/

set_option autoImplicit false

namespace ThalosBackend.RetryQueue

open Js (Timestamp)

variable {Payload : Type} {cfg : RetryQueueConfig}

/-! ## The store's operations -/

section Store

variable {s : Store Payload} {id : JobId} {u : JobUpdate} {now : Timestamp} {row : RetryJob Payload}
  {e : Event Payload}

@[simp] theorem rows_updateJob :
    (s.updateJob id u now).rows = Table.updateWhere (·.id = id) (u.apply now) s.rows := rfl
@[simp] theorem log_updateJob : (s.updateJob id u now).log = s.log := rfl
@[simp] theorem rows_insert : (s.insert row).rows = s.rows ++ [row] := rfl
@[simp] theorem log_insert : (s.insert row).log = s.log := rfl
@[simp] theorem rows_emit : (s.emit e).rows = s.rows := rfl
@[simp] theorem log_emit : (s.emit e).log = e :: s.log := rfl

theorem getJob_eq_some (h : s.getJob id = some row) : row ∈ s.rows ∧ row.id = id :=
  ⟨List.mem_of_find?_eq_some h, by simpa using List.find?_some h⟩

theorem getJob_eq_none (h : s.getJob id = none) : ∀ row ∈ s.rows, row.id ≠ id := by
  simpa [Store.getJob] using h

theorem findByIdempotencyKey_eq_some {key : String} (h : s.findByIdempotencyKey key = some row) :
    row ∈ s.rows ∧ row.idempotencyKey = key :=
  ⟨List.mem_of_find?_eq_some h, by simpa using List.find?_some h⟩

theorem findByIdempotencyKey_eq_none {key : String} (h : s.findByIdempotencyKey key = none) :
    ∀ row ∈ s.rows, row.idempotencyKey ≠ key := by
  simpa [Store.findByIdempotencyKey] using h

end Store

/-! ## The log of one job -/

/-- The events of an attempt of the job. -/
def Event.about (id : JobId) : Event Payload → Bool
  | .picked found _ => found.id = id
  | .invoked id' _ => id' = id
  | .settled id' _ _ _ _ => id' = id
  | _ => false

/-- What happened to the job, newest first. -/
def history (id : JobId) (log : List (Event Payload)) : List (Event Payload) :=
  log.filter (Event.about id)

/-- The answers of `enqueue`. -/
def Event.isAnswer : Event Payload → Bool
  | .returned _ _ | .rejected _ => true
  | _ => false

theorem history_append_of_isAnswer {id : JobId} {es log : List (Event Payload)}
    (h : ∀ e ∈ es, e.isAnswer = true) : history id (es ++ log) = history id log := by
  have hnone : es.filter (Event.about id) = [] := by
    refine List.filter_eq_nil_iff.mpr fun e he => ?_
    have := h e he
    cases e <;> simp_all [Event.isAnswer, Event.about]
  rw [history, List.filter_append, hnone, List.nil_append, history]

theorem history_cons_self {id : JobId} {e : Event Payload} {log : List (Event Payload)}
    (h : e.about id = true) : history id (e :: log) = e :: history id log :=
  List.filter_cons_of_pos h

theorem history_cons_ne {id : JobId} {e : Event Payload} {log : List (Event Payload)}
    (h : e.about id = false) : history id (e :: log) = history id log :=
  List.filter_cons_of_neg (by simp [h])

/-! ## The effect of a step -/

@[simp] theorem inFlight_reclaimNext (jobs : List (RetryJob Payload)) :
    (reclaimNext jobs).inFlight = none := by
  cases jobs <;> rfl

@[simp] theorem waiting_reclaimNext (jobs : List (RetryJob Payload)) :
    (reclaimNext jobs).waiting = [] := by
  cases jobs <;> rfl

@[simp] theorem request_reclaimNext (jobs : List (RetryJob Payload)) :
    (reclaimNext jobs).request = none := by
  cases jobs <;> rfl

/-- After a job the next one of the poll is processed, or the call ends. -/
theorem mem_processNext {jobs : List (RetryJob Payload)} {pc : Pc Payload}
    (h : pc ∈ processNext jobs) : pc.inFlight = none ∧ pc.waiting = jobs ∧ pc.request = none := by
  cases jobs with
  | nil => simp [processNext] at h
  | cons job rest =>
      obtain rfl : Pc.processJob job rest = pc := by simpa [processNext] using h
      exact ⟨rfl, rfl, rfl⟩

/-- What a step does to jobs: the table and the log after it, and where the call goes on. -/
inductive Effect (cfg : RetryQueueConfig) (s : Store Payload) :
    Action → Pc Payload → List (RetryJob Payload) → List (Event Payload) → Option (Pc Payload) →
      Prop where
  /-- Nothing happens to a job, and an attempt in flight stays in flight. -/
  | quiet {a : Action} {pc : Pc Payload} {next : Option (Pc Payload)} {es : List (Event Payload)} :
      (∀ e ∈ es, e.isAnswer = true) → (∀ pc' ∈ next, pc'.inFlight = pc.inFlight) →
      (next = none → pc.inFlight = none) → Effect cfg s a pc s.rows (es ++ s.log) next
  | reclaim {now : Timestamp} {job row : RetryJob Payload} {rest : List (RetryJob Payload)} :
      row ∈ s.rows → row.id = job.id →
      Effect cfg s (.call now) (.reclaim job rest)
        (Table.updateWhere (·.id = job.id) (reclaimUpdate.apply now) s.rows) s.log
        (some (reclaimNext rest))
  | pick {now : Timestamp} {job row : RetryJob Payload} {rest : List (RetryJob Payload)} :
      row ∈ s.rows → row.id = job.id →
      Effect cfg s (.call now) (.processJob job rest)
        (Table.updateWhere (·.id = job.id) ((pickUpdate (job.attempts + 1)).apply now) s.rows)
        (.picked row now :: s.log) (some (.lookUpHandler job (job.attempts + 1) rest))
  | invoke {now : Timestamp} {job : RetryJob Payload} {attempt : ℕ}
      {rest : List (RetryJob Payload)} :
      Effect cfg s (.call now) (.lookUpHandler job attempt rest) s.rows
        (.invoked job.id attempt :: s.log) (some (.runHandler job attempt rest))
  | settle {now : Timestamp} {job row : RetryJob Payload} {attempt : ℕ} {outcome : Outcome}
      {rest : List (RetryJob Payload)} {u : JobUpdate} :
      settlement cfg job attempt now outcome = some u → row ∈ s.rows → row.id = job.id →
      Effect cfg s (.call now) (.settle job attempt outcome rest)
        (Table.updateWhere (·.id = job.id) (u.apply now) s.rows)
        (.settled job.id attempt outcome u.status (backoffDelay cfg job attempt outcome) :: s.log)
        (processNext rest)
  /-- The call ends without writing the end of its attempt. -/
  | lose {a : Action} {job : RetryJob Payload} {attempt : ℕ} {outcome : Outcome}
      {rest : List (RetryJob Payload)} :
      a = .dbError ∨ (∀ row ∈ s.rows, row.id ≠ job.id) ∨
        (∃ now, a = .call now ∧ ¬ Recordable cfg job attempt now outcome) →
      Effect cfg s a (.settle job attempt outcome rest) s.rows s.log none
  | insert {now : Timestamp} {req : EnqueueRequest Payload} {id : JobId} {created : Timestamp} :
      (∀ row ∈ s.rows, row.idempotencyKey ≠ req.idempotencyKey) → (∀ row ∈ s.rows, row.id ≠ id) →
      Effect cfg s (.call now) (.enqueueInsert req) (s.rows ++ [newJob cfg req now id created])
        (.returned req (newJob cfg req now id created) ::
          .inserted (newJob cfg req now id created) :: s.log) none

/-- A step between calls of the database that touches no job and adds nothing to the log. -/
theorem Effect.silent {s : Store Payload} {a : Action} {pc : Pc Payload}
    {next : Option (Pc Payload)} (h : ∀ pc' ∈ next, pc'.inFlight = pc.inFlight)
    (hended : next = none → pc.inFlight = none) : Effect cfg s a pc s.rows s.log next := by
  rw [← List.nil_append s.log]
  exact .quiet (by simp) h hended

/-- A step that only records the answer of `enqueue`. -/
theorem Effect.answer {s : Store Payload} {a : Action} {pc : Pc Payload} {e : Event Payload}
    (he : e.isAnswer = true) (h : pc.inFlight = none) :
    Effect cfg s a pc s.rows (e :: s.log) none := by
  rw [← List.singleton_append]
  exact .quiet (by simpa using he) (by simp) fun _ => h

theorem Call.effect {now : Timestamp} {p : ProcessId} {pc : Pc Payload} {s s' : Store Payload}
    {next : Option (Pc Payload)} (h : Call cfg now p s pc s' next) :
    Effect cfg s (.call now) pc s'.rows s'.log next := by
  cases h with
  | selectStale =>
      refine .silent (fun pc' hpc' => ?_) (by simp)
      cases hpc'
      exact inFlight_reclaimNext _
  | selectStaleInvalid => exact .silent (by simp) (by simp [Pc.inFlight])
  | reclaim hrow =>
      obtain ⟨hmem, hid⟩ := getJob_eq_some hrow
      exact .reclaim hmem hid
  | selectDue =>
      exact .silent (fun pc' hpc' => (mem_processNext hpc').1) fun _ => rfl
  | pick hrow =>
      obtain ⟨hmem, hid⟩ := getJob_eq_some hrow
      exact .pick hmem hid
  | handlerMissing => exact .silent (by simp [Pc.inFlight]) (by simp)
  | invoke => exact .invoke
  | handlerEnds => exact .silent (by simp [Pc.inFlight]) (by simp)
  | settle hu hrow =>
      obtain ⟨hmem, hid⟩ := getJob_eq_some hrow
      exact .settle hu hmem hid
  | settleInvalid hu =>
      exact .lose (.inr (.inr ⟨now, rfl, fun hends => settlement_ne_none_iff.mpr hends hu⟩))
  | rowMissing hpc hrow =>
      -- an update that finds no row loses the attempt only at its end
      cases pc with
      | settle job attempt outcome rest =>
          obtain rfl : job.id = _ := by simpa [Pc.updates] using hpc
          exact .lose (.inr (.inl (getJob_eq_none hrow)))
      | reclaim => exact .silent (by simp) fun _ => rfl
      | processJob => exact .silent (by simp) fun _ => rfl
      | _ => simp [Pc.updates] at hpc
  | manualRetry => exact .silent (by simp [Pc.inFlight]) (by simp)
  | manualRetryRejected => exact .silent (by simp) (by simp [Pc.inFlight])
  | findHit => exact .answer rfl rfl
  | findMiss => exact .silent (by simp [Pc.inFlight]) (by simp)
  | insert id created hkey hid =>
      exact .insert (findByIdempotencyKey_eq_none hkey) (getJob_eq_none hid)
  | insertConflict => exact .silent (by simp [Pc.inFlight]) (by simp)
  | refindHit => exact .answer rfl rfl
  | refindMiss => exact .answer rfl rfl

theorem onDbError_effect (cfg : RetryQueueConfig) {pc : Pc Payload} {s s' : Store Payload}
    {next : Option (Pc Payload)}
    (h : onDbError s pc = some (s', next)) : Effect cfg s .dbError pc s'.rows s'.log next := by
  cases pc with
  | settle => cases h; exact .lose (.inl rfl)
  | enqueueInsert => cases h; exact .answer rfl rfl
  | enqueueRefind => cases h; exact .answer rfl rfl
  | lookUpHandler => cases h
  | runHandler => cases h
  | _ => cases h; exact .silent (by simp [Pc.inFlight]) (by simp [Pc.inFlight])

/-- **What a step does to jobs.** -/
theorem Act.effect {a : Action} {s s' : Store Payload} {k : Task Payload}
    {next : Option (Task Payload)} (h : Act cfg a s k s' next) :
    Effect cfg s a k.pc s'.rows s'.log (next.map (·.pc)) := by
  cases h with
  | @call now p pc s s' next h =>
      have := h.effect
      simpa [Option.map_map, Function.comp_def] using this
  | @dbError p pc s s' next h =>
      have := onDbError_effect cfg h
      simpa [Option.map_map, Function.comp_def] using this

/-- What holds of the row under an identity still holds after a step, if updates that leave the
attempts alone keep it, and so does a pick of just this job. -/
theorem Effect.at {s : Store Payload} {a : Action} {pc : Pc Payload}
    {rows : List (RetryJob Payload)} {log : List (Event Payload)} {next : Option (Pc Payload)}
    {id : JobId} {P : RetryJob Payload → Prop} (h : Effect cfg s a pc rows log next)
    (hat : Table.At (·.id) id P s.rows)
    (hP : ∀ (u : JobUpdate) now row, P row →
      u.attempts = none ∨ (∃ job rest, a = .call now ∧ pc = .processJob job rest ∧ job.id = id) →
      P (u.apply now row)) : Table.At (·.id) id P rows := by
  cases h with
  | quiet => exact hat
  | reclaim =>
      exact hat.updateWhere (fun _ _ => rfl) (fun row _ _ hrow _ => hP _ _ row hrow (.inl rfl))
        fun _ _ _ hrow _ => hrow
  | @pick now job row rest =>
      refine hat.updateWhere (fun _ _ => rfl) (fun row _ hid hrow hp => ?_)
        fun _ _ _ hrow _ => hrow
      have hjob : row.id = job.id := by simpa using hp
      exact hP _ _ row hrow (.inr ⟨job, rest, rfl, rfl, hjob.symm.trans hid⟩)
  | invoke => exact hat
  | settle hu =>
      exact hat.updateWhere (fun _ _ => rfl)
        (fun row _ _ hrow _ => hP _ _ row hrow (.inl (settlement_attempts hu)))
        fun _ _ _ hrow _ => hrow
  | lose => exact hat
  | insert _ hid => exact hat.concat hid

/-- A call goes on in its own process. -/
theorem Act.process_eq {a : Action} {s s' : Store Payload} {k k' : Task Payload}
    {next : Option (Task Payload)} (h : Act cfg a s k s' next) (hk : k' ∈ next) :
    k'.process = k.process := by
  cases h with
  | call h => obtain ⟨pc, -, rfl⟩ := Option.map_eq_some_iff.mp hk; rfl
  | dbError h => obtain ⟨pc, -, rfl⟩ := Option.map_eq_some_iff.mp hk; rfl

theorem log_ne_cons {log : List (Event Payload)} {e : Event Payload} : log ≠ e :: log := fun h => by
  simpa using congrArg List.length h

/-- The event a step adds to the log, when it is not an answer of `enqueue`. -/
theorem Effect.logged {s : Store Payload} {a : Action} {pc : Pc Payload}
    {rows : List (RetryJob Payload)} {log : List (Event Payload)} {next : Option (Pc Payload)}
    (h : Effect cfg s a pc rows log next) {e : Event Payload} (hlog : log = e :: s.log)
    (he : e.isAnswer = false) :
    (∃ now job row rest, a = .call now ∧ pc = .processJob job rest ∧ row ∈ s.rows ∧
      row.id = job.id ∧ e = .picked row now) ∨
    (∃ job attempt rest, pc = .lookUpHandler job attempt rest ∧ e = .invoked job.id attempt) ∨
    (∃ job attempt outcome rest result delay, pc = .settle job attempt outcome rest ∧
      e = .settled job.id attempt outcome result delay) := by
  cases h with
  | @quiet _ _ _ es hes =>
      rw [← List.singleton_append] at hlog
      have := hes e (by rw [List.append_cancel_right hlog]; exact List.mem_singleton.mpr rfl)
      rw [he] at this
      cases this
  | reclaim => exact absurd hlog log_ne_cons
  | pick hrow hid =>
      obtain ⟨rfl, -⟩ := List.cons.inj hlog
      exact .inl ⟨_, _, _, _, rfl, rfl, hrow, hid, rfl⟩
  | invoke =>
      obtain ⟨rfl, -⟩ := List.cons.inj hlog
      exact .inr (.inl ⟨_, _, _, rfl, rfl⟩)
  | settle =>
      obtain ⟨rfl, -⟩ := List.cons.inj hlog
      exact .inr (.inr ⟨_, _, _, _, _, _, rfl, rfl⟩)
  | lose => exact absurd hlog log_ne_cons
  | insert => exact absurd (List.cons.inj hlog).2.symm log_ne_cons

/-- An attempt that a call is in the middle of after a step was in flight before, or the step picked the
job. -/
theorem Effect.inFlight_next {s : Store Payload} {a : Action} {pc pc' : Pc Payload}
    {rows : List (RetryJob Payload)} {log : List (Event Payload)} {next : Option (Pc Payload)}
    (h : Effect cfg s a pc rows log next) (hpc' : pc' ∈ next) {job : RetryJob Payload} {attempt : ℕ}
    (hj : pc'.inFlight = some (job, attempt)) :
    pc.inFlight = some (job, attempt) ∨
      ∃ now rest, a = .call now ∧ pc = .processJob job rest ∧ attempt = job.attempts + 1 ∧
        rows = Table.updateWhere (·.id = job.id) ((pickUpdate attempt).apply now) s.rows := by
  cases h with
  | quiet _ hsame => exact .inl ((hsame pc' hpc').symm.trans hj)
  | reclaim => cases hpc'; simp at hj
  | @pick now job row rest =>
      cases hpc'
      cases hj
      exact .inr ⟨now, rest, rfl, rfl, rfl, rfl⟩
  | invoke => cases hpc'; exact .inl hj
  | settle => rw [(mem_processNext hpc').1] at hj; cases hj
  | lose => cases hpc'
  | insert => cases hpc'

/-- No step leads to the beginning of a call. -/
theorem Act.isEntry_next {a : Action} {s s' : Store Payload} {k k' : Task Payload}
    {next : Option (Task Payload)} (h : Act cfg a s k s' next) (hk : k' ∈ next) :
    k'.pc.isEntry = false := by
  have hprocess : ∀ jobs pc, pc ∈ @processNext Payload jobs → pc.isEntry = false := by
    intro jobs pc hpc
    cases jobs <;> cases hpc
    rfl
  have hreclaim : ∀ jobs, (@reclaimNext Payload jobs).isEntry = false := by
    intro jobs
    cases jobs <;> rfl
  cases h with
  | call h =>
      obtain ⟨pc', hpc', rfl⟩ := Option.map_eq_some_iff.mp hk
      cases h with
      | selectStale => cases hpc'; exact hreclaim _
      | reclaim => cases hpc'; exact hreclaim _
      | selectDue => exact hprocess _ _ hpc'
      | settle => exact hprocess _ _ hpc'
      | _ => cases hpc' <;> rfl
  | @dbError p pc s s' next h =>
      obtain ⟨pc', hpc', rfl⟩ := Option.map_eq_some_iff.mp hk
      cases pc <;> cases h <;> cases hpc' <;> rfl

/-- A call looks up the handler right after it has picked the job. -/
theorem Act.lookUp_next {a : Action} {s s' : Store Payload} {k k' : Task Payload}
    {next : Option (Task Payload)} (h : Act cfg a s k s' next) (hk : k' ∈ next)
    {job : RetryJob Payload} {attempt : ℕ} {rest : List (RetryJob Payload)}
    (hpc : k'.pc = .lookUpHandler job attempt rest) :
    ∃ now row, a = .call now ∧ k.pc = .processJob job rest ∧ attempt = job.attempts + 1 ∧
      row ∈ s.rows ∧ row.id = job.id ∧ s'.log = .picked row now :: s.log := by
  have hprocess : ∀ jobs pc, pc ∈ @processNext Payload jobs →
      pc ≠ .lookUpHandler job attempt rest := by
    intro jobs pc hmem
    cases jobs <;> cases hmem
    simp
  have hreclaim : ∀ jobs, @reclaimNext Payload jobs ≠ .lookUpHandler job attempt rest := by
    intro jobs
    cases jobs <;> simp [reclaimNext]
  cases h with
  | @call now _ _ _ _ _ h =>
      obtain ⟨pc', hpc', rfl⟩ := Option.map_eq_some_iff.mp hk
      cases h with
      | pick hrow =>
          obtain ⟨hmem, hid⟩ := getJob_eq_some hrow
          cases hpc'
          cases hpc
          exact ⟨now, _, rfl, rfl, rfl, hmem, hid, rfl⟩
      | selectStale => cases hpc'; exact absurd hpc (hreclaim _)
      | reclaim => cases hpc'; exact absurd hpc (hreclaim _)
      | selectDue => exact absurd hpc (hprocess _ _ hpc')
      | settle => exact absurd hpc (hprocess _ _ hpc')
      | _ => cases hpc' <;> cases hpc
  | @dbError p pc s s' next h =>
      obtain ⟨pc', hpc', rfl⟩ := Option.map_eq_some_iff.mp hk
      cases pc <;> cases h <;> cases hpc' <;> cases hpc

/-- Where a job comes from that a call has still to process: it was waiting before, or the step read
it, due or accepted by `manualRetry`. -/
theorem Act.waiting {a : Action} {s s' : Store Payload} {k k' : Task Payload}
    {next : Option (Task Payload)} (h : Act cfg a s k s' next) (hk : k' ∈ next)
    {job : RetryJob Payload} (hjob : job ∈ k'.pc.waiting) :
    job ∈ k.pc.waiting ∨ job ∈ s.rows ∧
      ((∃ now, a = .call now ∧ isDue now job = true) ∨
        (∃ id, k.pc = .manualRetry id ∧ manuallyRetryable job.status = true)) := by
  cases h with
  | @call now p pc s s' next h =>
      obtain ⟨pc', hpc', rfl⟩ := Option.map_eq_some_iff.mp hk
      cases h with
      | selectDue hdue =>
          obtain ⟨sorted, hperm, -, rfl⟩ := hdue
          rw [(mem_processNext hpc').2.1] at hjob
          have hmem := List.mem_filter.mp (hperm.mem_iff.mp (List.mem_of_mem_take hjob))
          exact .inr ⟨hmem.1, .inl ⟨now, rfl, hmem.2⟩⟩
      | manualRetry hfound hretry =>
          cases hpc'
          obtain rfl : job = _ := by simpa [Pc.waiting] using hjob
          exact .inr ⟨(getJob_eq_some hfound).1, .inr ⟨_, rfl, hretry⟩⟩
      | settle =>
          rw [(mem_processNext hpc').2.1] at hjob
          exact .inl hjob
      | pick => cases hpc'; exact .inl (List.mem_cons_of_mem _ hjob)
      | handlerMissing => cases hpc'; exact .inl hjob
      | invoke => cases hpc'; exact .inl hjob
      | handlerEnds => cases hpc'; exact .inl hjob
      | selectStale => cases hpc'; simp at hjob
      | reclaim => cases hpc'; simp at hjob
      | findMiss => cases hpc'; simp [Pc.waiting] at hjob
      | insertConflict => cases hpc'; simp [Pc.waiting] at hjob
      | _ => cases hpc'
  | @dbError p pc s s' next h =>
      obtain ⟨pc', hpc', rfl⟩ := Option.map_eq_some_iff.mp hk
      have : pc'.waiting = [] := by
        cases pc <;> cases h <;> cases hpc' <;> rfl
      simp [this] at hjob

/-! ## Steps, spelled out -/

section Steps

variable {c : QueueState Payload} (t : ThreadId) (p : ProcessId) (pc : Pc Payload)

/-- The queue before anything has happened. -/
def emptyQueue (Payload : Type) : QueueState Payload :=
  ⟨⟨[], fun _ _ => false, 0, []⟩, fun _ => none⟩

theorem emptyQueue_init : (queueSystem Payload cfg).init (emptyQueue Payload) :=
  ⟨⟨rfl, rfl, rfl⟩, fun _ => rfl⟩

/-- A call begins. -/
theorem queue_start (hfree : c.threads t = none) (hentry : pc.isEntry = true) :
    (queueSystem Payload cfg).step c (.start t ⟨p, pc⟩)
      ⟨c.shared, Function.update c.threads t (some ⟨p, pc⟩)⟩ :=
  .start hfree hentry

/-- A call goes on. -/
theorem queue_call {p : ProcessId} {pc : Pc Payload} (now : Timestamp) {s : Store Payload}
    {next : Option (Pc Payload)}
    (hk : c.threads t = some ⟨p, pc⟩) (h : Call cfg now p c.shared pc s next) :
    (queueSystem Payload cfg).step c (.act t (.call now))
      ⟨{ s with clock := now }, Function.update c.threads t (next.map (⟨p, ·⟩))⟩ :=
  .act hk (.call h)

/-- A process registers a handler. -/
theorem queue_register (jobType : RetryJobType) :
    (queueSystem Payload cfg).step c (.env (.registerHandler p jobType))
      ⟨c.shared.registerHandler p jobType, fun t => (c.threads t).filter fun _ => true⟩ :=
  .env .registerHandler

/-- A process crashes. -/
theorem queue_crash :
    (queueSystem Payload cfg).step c (.env (.crash p))
      ⟨c.shared.forgetHandlers p, fun t => (c.threads t).filter fun k => decide (k.process ≠ p)⟩ :=
  .env .crash

end Steps

/-- The environment leaves the table and the log alone. -/
theorem Env.rows_log {b : EnvAction} {s s' : Store Payload} (h : Env b s s') :
    s'.rows = s.rows ∧ s'.log = s.log := by
  cases h <;> exact ⟨rfl, rfl⟩

section Cases

variable {c c' : QueueState Payload} {l : QueueStep Payload}

/-- Where a live call comes from: it was there, it begins, or it has made a step. -/
theorem threads_of_step (h : (queueSystem Payload cfg).step c l c') {t : ThreadId}
    {k' : Task Payload} (hk' : c'.threads t = some k') :
    c.threads t = some k' ∨ (l = .start t k' ∧ k'.pc.isEntry = true) ∨
      ∃ a k, l = .act t a ∧ c.threads t = some k ∧ Act cfg a c.shared k c'.shared (some k') := by
  cases h with
  | @start t₀ k hfree hentry =>
      rcases Threads.update_eq_some hk' with ⟨rfl, hk⟩ | ⟨-, hk⟩
      · cases hk
        exact .inr (.inl ⟨rfl, hentry⟩)
      · exact .inl hk
  | @act t₀ a k s next hk hact =>
      rcases Threads.update_eq_some hk' with ⟨rfl, rfl⟩ | ⟨-, hk⟩
      · exact .inr (.inr ⟨a, k, rfl, hk, hact⟩)
      · exact .inl hk
  | env henv => exact .inl (Option.filter_eq_some_iff.mp hk').1

/-- What happens to the table: nothing, or what the step of a call does. -/
theorem shared_of_step (h : (queueSystem Payload cfg).step c l c') :
    (c'.shared.rows = c.shared.rows ∧ c'.shared.log = c.shared.log) ∨
      ∃ t a k next, l = .act t a ∧ c.threads t = some k ∧ Act cfg a c.shared k c'.shared next := by
  cases h with
  | start => exact .inl ⟨rfl, rfl⟩
  | act hk hact => exact .inr ⟨_, _, _, _, rfl, hk, hact⟩
  | env henv => exact .inl henv.rows_log

/-- A row that a step leaves behind as succeeded was so, or a call has written the end of an attempt
whose handler returned. -/
theorem Effect.succeeded {s : Store Payload} {a : Action} {pc : Pc Payload}
    {rows : List (RetryJob Payload)} {log : List (Event Payload)} {next : Option (Pc Payload)}
    (h : Effect cfg s a pc rows log next) {row : RetryJob Payload} (hrow : row ∈ rows)
    (hstatus : row.status = .succeeded) :
    row ∈ s.rows ∨ ∃ old job attempt rest, old ∈ s.rows ∧ old.id = job.id ∧
      old.payload = row.payload ∧ pc = .settle job attempt .resolved rest := by
  cases h with
  | quiet => exact .inl hrow
  | invoke => exact .inl hrow
  | lose => exact .inl hrow
  | reclaim =>
      obtain ⟨old, hold, rfl⟩ := Table.mem_updateWhere.mp hrow
      split at hstatus
      · cases hstatus
      · rename_i hother
        exact .inl (by rwa [if_neg hother])
  | pick =>
      obtain ⟨old, hold, rfl⟩ := Table.mem_updateWhere.mp hrow
      split at hstatus
      · cases hstatus
      · rename_i hother
        exact .inl (by rwa [if_neg hother])
  | @settle now job row' attempt outcome rest u hu =>
      obtain ⟨old, hold, rfl⟩ := Table.mem_updateWhere.mp hrow
      split at hstatus
      · rename_i hid
        rw [apply_status, settlement_status hu] at hstatus
        refine .inr ⟨old, job, attempt, rest, hold, of_decide_eq_true hid, ?_, ?_⟩
        · rw [if_pos hid]
          rfl
        · -- only a handler that resolves makes a job succeed
          cases outcome with
          | resolved => rfl
          | noHandler => cases hstatus
          | threw message =>
              simp only [statusAfter] at hstatus
              split at hstatus <;> cases hstatus
      · rename_i hother
        exact .inl (by rwa [if_neg hother])
  | insert =>
      rcases List.mem_append.mp hrow with hold | hnew
      · exact .inl hold
      · rw [List.mem_singleton.mp hnew] at hstatus
        cases hstatus

/-- A call comes to write the end of an attempt from its handler, or finds that there is none. -/
theorem Act.settle_next {a : Action} {s s' : Store Payload} {k k' : Task Payload}
    {next : Option (Task Payload)} (h : Act cfg a s k s' next) (hk : k' ∈ next)
    {job : RetryJob Payload} {attempt : ℕ} {outcome : Outcome} {rest : List (RetryJob Payload)}
    (hpc : k'.pc = .settle job attempt outcome rest) :
    outcome = .noHandler ∨ k.pc = .runHandler job attempt rest := by
  have hprocess : ∀ jobs pc, pc ∈ @processNext Payload jobs →
      pc ≠ .settle job attempt outcome rest := by
    intro jobs pc hmem
    cases jobs <;> cases hmem
    simp
  have hreclaim : ∀ jobs, @reclaimNext Payload jobs ≠ .settle job attempt outcome rest := by
    intro jobs
    cases jobs <;> simp [reclaimNext]
  cases h with
  | call h =>
      obtain ⟨pc', hpc', rfl⟩ := Option.map_eq_some_iff.mp hk
      cases h with
      | handlerMissing =>
          cases hpc'
          cases hpc
          exact .inl rfl
      | handlerEnds =>
          cases hpc'
          cases hpc
          exact .inr rfl
      | selectStale => cases hpc'; exact absurd hpc (hreclaim _)
      | reclaim => cases hpc'; exact absurd hpc (hreclaim _)
      | selectDue => exact absurd hpc (hprocess _ _ hpc')
      | settle => exact absurd hpc (hprocess _ _ hpc')
      | _ => cases hpc' <;> cases hpc
  | @dbError p pc s s' next h =>
      obtain ⟨pc', hpc', rfl⟩ := Option.map_eq_some_iff.mp hk
      cases pc <;> cases h <;> cases hpc' <;> cases hpc

end Cases

/-! ## Who processes a job in `processing` -/

section Supported

variable {c c' : QueueState Payload} {l : QueueStep Payload} {spare : RetryJob Payload → Prop}

/-- A job in `processing` is in flight, or spared. -/
def Supported (spare : RetryJob Payload → Prop) (c : QueueState Payload) : Prop :=
  ∀ row ∈ c.shared.rows, row.status = .processing → spare row ∨ InFlight c row.id

theorem statusAfter_ne_processing (job : RetryJob Payload) (attempt : ℕ) (outcome : Outcome) :
    statusAfter job attempt outcome ≠ .processing := by
  cases outcome with
  | noHandler => simp [statusAfter]
  | resolved => simp [statusAfter]
  | threw message =>
      simp only [statusAfter]
      split <;> simp

/-- An attempt in flight stays so when another call steps. -/
theorem InFlight.update {s : Store Payload} {t : ThreadId} {k : Task Payload}
    {next : Option (Task Payload)} {id : JobId} (h : InFlight c id) (hk : c.threads t = some k) :
    InFlight ⟨s, Function.update c.threads t next⟩ id ∨
      ∃ job attempt, k.pc.inFlight = some (job, attempt) ∧ job.id = id := by
  obtain ⟨t', k', job, attempt, hk', hj, hid⟩ := h
  by_cases ht : t' = t
  · subst ht
    obtain rfl : k = k' := by simpa [hk] using hk'
    exact .inr ⟨job, attempt, hj, hid⟩
  · exact .inl ⟨t', k', job, attempt, by simpa [ht] using hk', hj, hid⟩

/-- A job stays supported when the attempt that may support it goes on. -/
theorem Supported.kept {s : Store Payload} {t : ThreadId} {k : Task Payload}
    {next : Option (Task Payload)} {row : RetryJob Payload} (hS : Supported spare c)
    (hk : c.threads t = some k) (hrow : row ∈ c.shared.rows) (hstatus : row.status = .processing)
    (hgoes : ∀ job attempt, k.pc.inFlight = some (job, attempt) → job.id = row.id →
      ∃ pc', next.map (·.pc) = some pc' ∧ pc'.inFlight = some (job, attempt)) :
    spare row ∨ InFlight ⟨s, Function.update c.threads t next⟩ row.id := by
  refine (hS row hrow hstatus).imp id fun hin => ?_
  rcases hin.update hk with h | ⟨job, attempt, hj, hid⟩
  · exact h
  · obtain ⟨pc', hpc', hj'⟩ := hgoes job attempt hj hid
    obtain ⟨k', rfl, rfl⟩ := Option.map_eq_some_iff.mp hpc'
    exact ⟨t, k', job, attempt, by simp, hj', hid⟩

/-- Jobs in `processing` stay supported when a call takes a step, if an attempt that is lost in it is of
a spared job. -/
theorem Supported.act {s : Store Payload} {t : ThreadId} {a : Action} {k : Task Payload}
    {next : Option (Task Payload)} (hS : Supported spare c) (hk : c.threads t = some k)
    (heff : Effect cfg c.shared a k.pc s.rows s.log (next.map (·.pc)))
    (hlose : ∀ job attempt outcome rest, k.pc = .settle job attempt outcome rest →
      (a = .dbError ∨ ∃ now, a = .call now ∧ ¬ Recordable cfg job attempt now outcome) →
      ∀ row ∈ c.shared.rows, row.id = job.id → spare row) :
    Supported spare ⟨s, Function.update c.threads t next⟩ := by
  intro row hrow hstatus
  have hkept : ∀ old ∈ c.shared.rows, old.status = .processing →
      (∀ job attempt, k.pc.inFlight = some (job, attempt) → job.id = old.id →
        ∃ pc', next.map (·.pc) = some pc' ∧ pc'.inFlight = some (job, attempt)) →
      spare old ∨ InFlight ⟨s, Function.update c.threads t next⟩ old.id :=
    fun old hold hprocessing => hS.kept hk hold hprocessing
  generalize hpc : k.pc = pc, hnext : next.map (·.pc) = pcs, hrows : s.rows = rows,
    s.log = log at heff hkept
  rw [show (Threads.Config.mk s (Function.update c.threads t next)).shared.rows = rows from hrows]
    at hrow
  cases heff with
  | quiet _ hsame hended =>
      refine hkept row hrow hstatus fun job attempt hj _ => ?_
      cases pcs with
      | none =>
          rw [hended rfl] at hj
          cases hj
      | some pc' => exact ⟨pc', rfl, (hsame pc' rfl).trans hj⟩
  | invoke =>
      refine hkept row hrow hstatus fun job attempt hj _ => ?_
      exact ⟨_, rfl, hj⟩
  | reclaim =>
      obtain ⟨old, hold, rfl⟩ := Table.mem_updateWhere.mp hrow
      split at hstatus
      · cases hstatus
      · rename_i hne
        rw [if_neg hne]
        exact hkept old hold hstatus fun job attempt hj _ => by cases hj
  | @pick now job _ rest =>
      obtain ⟨old, hold, rfl⟩ := Table.mem_updateWhere.mp hrow
      by_cases hid : old.id = job.id
      · -- the job that is picked is in flight from now on
        obtain ⟨k', rfl, hk'⟩ := Option.map_eq_some_iff.mp hnext
        refine .inr ⟨t, k', job, job.attempts + 1, by simp, ?_, by simp [hid]⟩
        rw [hk']
        rfl
      · simp only [hid, decide_false, Bool.false_eq_true, if_false] at hstatus ⊢
        exact hkept old hold hstatus fun job attempt hj _ => by cases hj
  | settle hu =>
      obtain ⟨old, hold, rfl⟩ := Table.mem_updateWhere.mp hrow
      split at hstatus
      · -- the job is settled, so it is not in `processing` any more
        rw [apply_status, settlement_status hu] at hstatus
        exact absurd hstatus (statusAfter_ne_processing _ _ _)
      · rename_i hne
        rw [if_neg hne]
        refine hkept old hold hstatus fun job attempt hj hid => ?_
        cases hj
        exact absurd hid.symm (by simpa using hne)
  | @lose _ job attempt outcome rest hreason =>
      by_cases hid : row.id = job.id
      · rcases hreason with ha | hmissing | hinvalid
        · -- the update has failed, or there is none to make: the row is a spared one
          exact .inl (hlose job attempt outcome rest hpc (.inl ha) row hrow hid)
        · exact absurd hid (hmissing row hrow)
        · exact .inl (hlose job attempt outcome rest hpc (.inr hinvalid) row hrow hid)
      · -- another row than the one of the lost attempt
        refine hkept row hrow hstatus fun job' attempt' hj hid' => ?_
        cases hj
        exact absurd hid'.symm hid
  | insert =>
      rcases List.mem_append.mp hrow with hrow | hrow
      · exact hkept row hrow hstatus fun job attempt hj _ => by cases hj
      · rw [List.mem_singleton.mp hrow] at hstatus
        cases hstatus

/-- Jobs in `processing` stay supported if the steps that lose an attempt, by an error or by a crash,
lose only spared ones. -/
theorem Supported.step (hS : Supported spare c) (hstep : (queueSystem Payload cfg).step c l c')
    (hlose : ∀ t a k job attempt outcome rest, l = .act t a → c.threads t = some k →
      k.pc = .settle job attempt outcome rest →
      (a = .dbError ∨ ∃ now, a = .call now ∧ ¬ Recordable cfg job attempt now outcome) →
      ∀ row ∈ c.shared.rows, row.id = job.id → spare row)
    (hcrash : ∀ p t k job attempt, l = .env (.crash p) → c.threads t = some k → k.process = p →
      k.pc.inFlight = some (job, attempt) → ∀ row ∈ c.shared.rows, row.id = job.id → spare row) :
    Supported spare c' := by
  cases hstep with
  | @start t k hfree hentry =>
      intro row hrow hstatus
      refine (hS row hrow hstatus).imp id ?_
      rintro ⟨t', k', job, attempt, hk', hj, hid⟩
      have ht : t' ≠ t := fun heq => by simp [heq, hfree] at hk'
      exact ⟨t', k', job, attempt, by simpa [ht] using hk', hj, hid⟩
  | @env b s henv =>
      intro row hrow hstatus
      rw [henv.rows_log.1] at hrow
      rcases hS row hrow hstatus with h | ⟨t, k, job, attempt, hk, hj, hid⟩
      · exact .inl h
      · cases b with
        | registerHandler p jobType =>
            exact .inr ⟨t, k, job, attempt, by simp [hk, queue], hj, hid⟩
        | crash p =>
            by_cases hp : k.process = p
            · exact .inl (hcrash p t k job attempt rfl hk hp hj row hrow hid.symm)
            · exact .inr ⟨t, k, job, attempt, by simp [hk, queue, hp], hj, hid⟩
  | @act t a k s next hk hact =>
      exact hS.act hk hact.effect fun job attempt outcome rest =>
        hlose t a k job attempt outcome rest rfl hk

end Supported

end ThalosBackend.RetryQueue
