import ThalosBackend.Library.Table
import ThalosBackend.Library.Threads
import ThalosBackend.RetryQueue.RetryJob

/-!
# The retry queue service

The persistent retry queue as a program of threads over the table `retry_jobs`. A thread is one call
of `processDueJobs`, `manualRetry` or `enqueue`; it stops at every `await`, and `Pc` says where. Every
database call is one atomic step, and so is the start of a handler and its end. `setInterval` starts
polls without waiting for earlier ones, several processes may run, and a process may crash at any
point: threads begin at any time and run in any order, and the environment registers handlers and
ends processes.

What a database may answer is not fixed further than its query: ties in the order of due jobs and
the order of stale ones are open. The log in the store is not part of the source: it records, newest
first, what happened to which job.
-/

set_option autoImplicit false

namespace ThalosBackend.RetryQueue

open Js (Number Timestamp)

abbrev ProcessId := ℕ

variable {Payload : Type}

/-- The arguments of `enqueue`. -/
structure EnqueueRequest (Payload : Type) where
  jobType : RetryJobType
  payload : Payload
  idempotencyKey : String
  maxAttempts : Option ℤ

/-- What the log records. -/
inductive Event (Payload : Type) where
  /-- `enqueue` created this row. -/
  | inserted (row : RetryJob Payload)
  /-- `enqueue` returned this job. -/
  | returned (req : EnqueueRequest Payload) (job : RetryJob Payload)
  /-- `enqueue` threw. -/
  | rejected (req : EnqueueRequest Payload)
  /-- An attempt began; the row is as it was found. -/
  | picked (found : RetryJob Payload) (now : Timestamp)
  /-- The handler of the job was called. -/
  | invoked (id : JobId) (attempt : ℕ)
  /-- The end of an attempt was written, and the delay before the next one when there is one. -/
  | settled (id : JobId) (attempt : ℕ) (outcome : Outcome) (result : RetryJobStatus)
      (delay : Option Number)

/-- The table, the handlers each process has registered, the time of the last step, and the log. -/
structure Store (Payload : Type) where
  rows : List (RetryJob Payload)
  handlers : ProcessId → RetryJobType → Bool
  clock : Timestamp
  log : List (Event Payload)

/-- Where a call waits. `rest` are the jobs its poll has still to process. -/
inductive Pc (Payload : Type) where
  /-- `reclaimStaleProcessingJobs`, before its select. -/
  | reclaimStaleProcessingJobs
  /-- `reclaimStaleProcessingJobs`, before the update of a stale job. -/
  | reclaim (job : RetryJob Payload) (rest : List (RetryJob Payload))
  /-- `processDueJobs`, before the select of due jobs. -/
  | selectDueJobs
  /-- `processJob`, before the update that picks the job. -/
  | processJob (job : RetryJob Payload) (rest : List (RetryJob Payload))
  /-- `processJob`, after that update. -/
  | lookUpHandler (job : RetryJob Payload) (attempt : ℕ) (rest : List (RetryJob Payload))
  /-- `processJob`, while the handler runs. -/
  | runHandler (job : RetryJob Payload) (attempt : ℕ) (rest : List (RetryJob Payload))
  /-- `processJob`, before the update that ends the attempt. -/
  | settle (job : RetryJob Payload) (attempt : ℕ) (outcome : Outcome)
      (rest : List (RetryJob Payload))
  /-- `manualRetry`, before its read. -/
  | manualRetry (id : JobId)
  /-- `enqueue`, before its first read, before its insert, and before the read after a conflict. -/
  | enqueueFind (req : EnqueueRequest Payload)
  | enqueueInsert (req : EnqueueRequest Payload)
  | enqueueRefind (req : EnqueueRequest Payload)

/-- A call in a process. -/
structure Task (Payload : Type) where
  process : ProcessId
  pc : Pc Payload

/-- How a step goes: on time `now`, or with an error from the database. -/
inductive Action where
  | call (now : Timestamp)
  | dbError
  deriving DecidableEq

/-- What happens around the calls. -/
inductive EnvAction where
  | registerHandler (p : ProcessId) (jobType : RetryJobType)
  | crash (p : ProcessId)

/-! ## The table -/

namespace Store

/-- `getJob`. -/
def getJob (s : Store Payload) (id : JobId) : Option (RetryJob Payload) :=
  s.rows.find? (·.id = id)

/-- `findByIdempotencyKey`. -/
def findByIdempotencyKey (s : Store Payload) (key : String) : Option (RetryJob Payload) :=
  s.rows.find? (·.idempotencyKey = key)

/-- `updateJob`: it also sets `updated_at`. -/
def updateJob (s : Store Payload) (id : JobId) (u : JobUpdate) (now : Timestamp) : Store Payload :=
  { s with rows := Table.updateWhere (·.id = id) (u.apply now) s.rows }

/-- The insert of a row. -/
def insert (s : Store Payload) (row : RetryJob Payload) : Store Payload :=
  { s with rows := s.rows ++ [row] }

/-- `registerHandler`. -/
def registerHandler (s : Store Payload) (p : ProcessId) (jobType : RetryJobType) :
    Store Payload :=
  { s with
    handlers := fun q type => s.handlers q type || (decide (q = p) && decide (type = jobType)) }

/-- The handlers of a process are gone with it. -/
def forgetHandlers (s : Store Payload) (p : ProcessId) : Store Payload :=
  { s with handlers := fun q type => s.handlers q type && decide (q ≠ p) }

/-- Record what happened. -/
def emit (s : Store Payload) (e : Event Payload) : Store Payload := { s with log := e :: s.log }

end Store

/-- The row `enqueue` inserts, under the identity and the creation time the database gives it. -/
def newJob (cfg : RetryQueueConfig) (req : EnqueueRequest Payload) (now : Timestamp) (id : JobId)
    (created : Timestamp) : RetryJob Payload where
  id := id
  jobType := req.jobType
  idempotencyKey := req.idempotencyKey
  payload := req.payload
  status := .pending
  attempts := 0
  maxAttempts := req.maxAttempts.getD cfg.maxAttempts
  nextAttemptAt := now
  lastError := none
  createdAt := created
  updatedAt := created
  completedAt := none

/-- The condition of the select of due jobs. -/
def isDue (now : Timestamp) (job : RetryJob Payload) : Bool :=
  job.status = .pending ∧ job.nextAttemptAt ≤ now

/-- The condition of the select of stale jobs. -/
def isStale (staleBefore : Timestamp) (job : RetryJob Payload) : Bool :=
  job.status = .processing ∧ job.updatedAt ≤ staleBefore

/-- An answer to the select of due jobs: the first `concurrency` of them by due date, in any order
where due dates agree. -/
def DueJobs (concurrency : ℕ) (now : Timestamp) (rows due : List (RetryJob Payload)) : Prop :=
  ∃ sorted : List (RetryJob Payload), sorted.Perm (rows.filter (isDue now)) ∧
    sorted.Pairwise (fun a b => a.nextAttemptAt ≤ b.nextAttemptAt) ∧ due = sorted.take concurrency

/-- The loop of `reclaimStaleProcessingJobs`, and the select after it. -/
def reclaimNext : List (RetryJob Payload) → Pc Payload
  | [] => .selectDueJobs
  | job :: rest => .reclaim job rest

/-- The loop of `processDueJobs`; `manualRetry` processes one job and ends. -/
def processNext : List (RetryJob Payload) → Option (Pc Payload)
  | [] => none
  | job :: rest => some (.processJob job rest)

/-- The row whose update a call waits for. -/
def Pc.updates : Pc Payload → Option JobId
  | .reclaim job _ | .processJob job _ | .settle job _ _ _ => some job.id
  | _ => none

/-! ## The steps of a call -/

/-- One step of a call in process `p` at time `now`. A call without a next position has ended. -/
inductive Call (cfg : RetryQueueConfig) (now : Timestamp) (p : ProcessId) :
    Store Payload → Pc Payload → Store Payload → Option (Pc Payload) → Prop where
  | selectStale {s : Store Payload} {before : Timestamp} {stale : List (RetryJob Payload)} :
      staleBefore cfg now = some before → stale.Perm (s.rows.filter (isStale before)) →
      Call cfg now p s .reclaimStaleProcessingJobs s (some (reclaimNext stale))
  | selectStaleInvalid {s : Store Payload} : staleBefore cfg now = none →
      Call cfg now p s .reclaimStaleProcessingJobs s none
  | reclaim {s : Store Payload} {job row : RetryJob Payload} {rest : List (RetryJob Payload)} :
      s.getJob job.id = some row →
      Call cfg now p s (.reclaim job rest) (s.updateJob job.id reclaimUpdate now)
        (some (reclaimNext rest))
  | selectDue {s : Store Payload} {due : List (RetryJob Payload)} :
      DueJobs cfg.concurrency now s.rows due →
      Call cfg now p s .selectDueJobs s (processNext due)
  | pick {s : Store Payload} {job row : RetryJob Payload} {rest : List (RetryJob Payload)} :
      s.getJob job.id = some row →
      Call cfg now p s (.processJob job rest)
        ((s.updateJob job.id (pickUpdate (job.attempts + 1)) now).emit (.picked row now))
        (some (.lookUpHandler job (job.attempts + 1) rest))
  | handlerMissing {s : Store Payload} {job : RetryJob Payload} {attempt : ℕ}
      {rest : List (RetryJob Payload)} : s.handlers p job.jobType = false →
      Call cfg now p s (.lookUpHandler job attempt rest) s
        (some (.settle job attempt .noHandler rest))
  | invoke {s : Store Payload} {job : RetryJob Payload} {attempt : ℕ}
      {rest : List (RetryJob Payload)} : s.handlers p job.jobType = true →
      Call cfg now p s (.lookUpHandler job attempt rest) (s.emit (.invoked job.id attempt))
        (some (.runHandler job attempt rest))
  | handlerEnds {s : Store Payload} {job : RetryJob Payload} {attempt : ℕ} {outcome : Outcome}
      {rest : List (RetryJob Payload)} : outcome ≠ .noHandler →
      Call cfg now p s (.runHandler job attempt rest) s (some (.settle job attempt outcome rest))
  | settle {s : Store Payload} {job row : RetryJob Payload} {attempt : ℕ} {outcome : Outcome}
      {rest : List (RetryJob Payload)} {u : JobUpdate} :
      settlement cfg job attempt now outcome = some u → s.getJob job.id = some row →
      Call cfg now p s (.settle job attempt outcome rest)
        ((s.updateJob job.id u now).emit
          (.settled job.id attempt outcome u.status (backoffDelay cfg job attempt outcome)))
        (processNext rest)
  | settleInvalid {s : Store Payload} {job : RetryJob Payload} {attempt : ℕ} {outcome : Outcome}
      {rest : List (RetryJob Payload)} : settlement cfg job attempt now outcome = none →
      Call cfg now p s (.settle job attempt outcome rest) s none
  | rowMissing {s : Store Payload} {pc : Pc Payload} {id : JobId} :
      pc.updates = some id → s.getJob id = none → Call cfg now p s pc s none
  | manualRetry {s : Store Payload} {id : JobId} {job : RetryJob Payload} :
      s.getJob id = some job → manuallyRetryable job.status = true →
      Call cfg now p s (.manualRetry id) s (some (.processJob job []))
  | manualRetryRejected {s : Store Payload} {id : JobId} :
      (∀ job, s.getJob id = some job → manuallyRetryable job.status = false) →
      Call cfg now p s (.manualRetry id) s none
  | findHit {s : Store Payload} {req : EnqueueRequest Payload} {job : RetryJob Payload} :
      s.findByIdempotencyKey req.idempotencyKey = some job →
      Call cfg now p s (.enqueueFind req) (s.emit (.returned req job)) none
  | findMiss {s : Store Payload} {req : EnqueueRequest Payload} :
      s.findByIdempotencyKey req.idempotencyKey = none →
      Call cfg now p s (.enqueueFind req) s (some (.enqueueInsert req))
  | insert {s : Store Payload} {req : EnqueueRequest Payload} (id : JobId) (created : Timestamp) :
      s.findByIdempotencyKey req.idempotencyKey = none → s.getJob id = none →
      Call cfg now p s (.enqueueInsert req)
        (((s.insert (newJob cfg req now id created)).emit
          (.inserted (newJob cfg req now id created))).emit
          (.returned req (newJob cfg req now id created))) none
  | insertConflict {s : Store Payload} {req : EnqueueRequest Payload} {job : RetryJob Payload} :
      s.findByIdempotencyKey req.idempotencyKey = some job →
      Call cfg now p s (.enqueueInsert req) s (some (.enqueueRefind req))
  | refindHit {s : Store Payload} {req : EnqueueRequest Payload} {job : RetryJob Payload} :
      s.findByIdempotencyKey req.idempotencyKey = some job →
      Call cfg now p s (.enqueueRefind req) (s.emit (.returned req job)) none
  | refindMiss {s : Store Payload} {req : EnqueueRequest Payload} :
      s.findByIdempotencyKey req.idempotencyKey = none →
      Call cfg now p s (.enqueueRefind req) (s.emit (.rejected req)) none

/-- What a call does when its database call answers with an error: the reads of `enqueue` and of the
stale jobs ignore it, everything else ends. A call that waits for no database call has no value. -/
def onDbError (s : Store Payload) : Pc Payload → Option (Store Payload × Option (Pc Payload))
  | .reclaimStaleProcessingJobs => some (s, some .selectDueJobs)
  | .reclaim _ _ => some (s, none)
  | .selectDueJobs => some (s, none)
  | .processJob _ _ => some (s, none)
  | .lookUpHandler _ _ _ => none
  | .runHandler _ _ _ => none
  | .settle _ _ _ _ => some (s, none)
  | .manualRetry _ => some (s, none)
  | .enqueueFind req => some (s, some (.enqueueInsert req))
  | .enqueueInsert req => some (s.emit (.rejected req), none)
  | .enqueueRefind req => some (s.emit (.rejected req), none)

/-- One step of a call: it also moves the clock. -/
inductive Act (cfg : RetryQueueConfig) :
    Action → Store Payload → Task Payload → Store Payload → Option (Task Payload) → Prop where
  | call {now : Timestamp} {p : ProcessId} {pc : Pc Payload} {s s' : Store Payload}
      {next : Option (Pc Payload)} : Call cfg now p s pc s' next →
      Act cfg (.call now) s ⟨p, pc⟩ { s' with clock := now } (next.map (⟨p, ·⟩))
  | dbError {p : ProcessId} {pc : Pc Payload} {s s' : Store Payload} {next : Option (Pc Payload)} :
      onDbError s pc = some (s', next) → Act cfg .dbError s ⟨p, pc⟩ s' (next.map (⟨p, ·⟩))

/-- What happens around the calls: a handler is registered, or a process loses all it had in
memory. -/
inductive Env : EnvAction → Store Payload → Store Payload → Prop where
  | registerHandler {p : ProcessId} {jobType : RetryJobType} {s : Store Payload} :
      Env (.registerHandler p jobType) s (s.registerHandler p jobType)
  | crash {p : ProcessId} {s : Store Payload} : Env (.crash p) s (s.forgetHandlers p)

/-- The positions a call begins at. -/
def Pc.isEntry : Pc Payload → Bool
  | .reclaimStaleProcessingJobs | .manualRetry _ | .enqueueFind _ => true
  | _ => false

/-- The retry queue, from an empty table. -/
def queue (Payload : Type) (cfg : RetryQueueConfig) :
    Threads.Program (Store Payload) (Task Payload) Action EnvAction where
  init s := s.rows = [] ∧ s.log = [] ∧ s.handlers = fun _ _ => false
  entry k := k.pc.isEntry
  act := Act cfg
  env := Env
  survives b k := match b with
    | .registerHandler _ _ => true
    | .crash p => k.process ≠ p

/-- Calls are named by numbers. -/
abbrev ThreadId := ℕ

abbrev QueueState (Payload : Type) := Threads.Config (Store Payload) ThreadId (Task Payload)

abbrev QueueStep (Payload : Type) := Threads.Label ThreadId (Task Payload) Action EnvAction

/-- The step system of the retry queue. -/
abbrev queueSystem (Payload : Type) (cfg : RetryQueueConfig) :
    StepSystem (QueueState Payload) (QueueStep Payload) :=
  (queue Payload cfg).system ThreadId

/-- The attempt a call is in the middle of: it has picked the job and not yet written the end. -/
def Pc.inFlight : Pc Payload → Option (RetryJob Payload × ℕ)
  | .lookUpHandler job attempt _ | .runHandler job attempt _ | .settle job attempt _ _ =>
      some (job, attempt)
  | _ => none

/-- The jobs a call has read and not yet picked. -/
def Pc.waiting : Pc Payload → List (RetryJob Payload)
  | .processJob job rest => job :: rest
  | .lookUpHandler _ _ rest | .runHandler _ _ rest | .settle _ _ _ rest => rest
  | _ => []

/-- The request of an `enqueue` call. -/
def Pc.request : Pc Payload → Option (EnqueueRequest Payload)
  | .enqueueFind req | .enqueueInsert req | .enqueueRefind req => some req
  | _ => none

/-- Some live call is in the middle of an attempt of the job. -/
def InFlight (c : QueueState Payload) (id : JobId) : Prop :=
  ∃ t k job attempt, c.threads t = some k ∧ k.pc.inFlight = some (job, attempt) ∧ job.id = id

end ThalosBackend.RetryQueue
