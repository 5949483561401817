import ThalosBackend.Js.Date
import ThalosBackend.Js.Print
import ThalosBackend.Library.StepSystem

/-!
# The retry queue in memory

`common/retry/retry-queue.service.ts`. Jobs are objects: the map, a batch and a running handler refer to
the same one. Between two `await`s the code runs on its own, so a step is one call from outside, one tick
of the timer, or what a cycle of `processDueJobs` does until it waits again. While a cycle waits, anything
else may happen.

How a handler ends is open. It leaves the object alone, and what it rejects with may be any value, also
one of which `String` throws; `processJob` then throws in turn, and the cycle ends. The limit of a job is
any number, as its type has it. The log is not part of the source: it records, newest first, what happened
to which job.
-/

set_option autoImplicit false

namespace ThalosBackend.Common.Retry

open Js (Number Timestamp base36Text ofTimestamp timeClip)

/-- A reference to a job object. -/
abbrev JobRef := ℕ

inductive JobStatus where
  | queued
  | processing
  | completed
  | failed
  deriving DecidableEq

variable {Payload : Type}

/-- `RetryJob`. A due date that is no date is `none`. -/
structure RetryJob (Payload : Type) where
  id : String
  type : String
  payload : Payload
  retryCount : ℕ
  maxRetries : Number
  lastError : Option String
  nextRetryAt : Option Timestamp
  createdAt : Timestamp
  status : JobStatus

/-- How a handler ends. -/
inductive HandlerOutcome where
  | success
  /-- `{ success: false, error }`. -/
  | failure (error : Option String)
  /-- The text of what it rejects with; `none` where `String` throws. -/
  | rejection (message : Option String)

/-- What the `catch` block is reached with, if it is reached: its text, if it has one. -/
def HandlerOutcome.error : HandlerOutcome → Option (Option String)
  | .success => none
  | .failure error => some (some (error.getD "Unknown handler error"))
  | .rejection message => some message

/-- What the log records. -/
inductive QueueEvent where
  /-- A handler was called with the job. -/
  | executed (job : JobRef) (time : Timestamp)
  /-- It failed. -/
  | failed (job : JobRef) (time : Timestamp)
  | completed (job : JobRef)
  /-- `retryJob` queued the job again. -/
  | retried (job : JobRef)
  deriving DecidableEq

/-- Where a call of `processDueJobs` waits; `rest` are the jobs of its batch still to process. -/
inductive Cycle where
  /-- Between two jobs. -/
  | next (rest : List JobRef)
  /-- In `processJob`, for the handler of a job. -/
  | handling (job : JobRef) (rest : List JobRef)

/-- The fields of the service and of its module, the objects, the cycles under way, and the clock. -/
structure QueueState (Payload : Type) where
  jobs : JobRef → Option (RetryJob Payload)
  queue : List (String × JobRef)
  handlers : List String
  destroyed : Bool
  processing : Bool
  jobCounter : ℕ
  cycles : List Cycle
  now : Timestamp
  log : List QueueEvent

/-! ## Constants -/

/-- `DEFAULT_MAX_RETRIES`. -/
def defaultMaxRetries : Number := 3

/-- `BACKOFF_BASE_MS * Math.pow(BACKOFF_MULTIPLIER, retryCount - 1)`. -/
def backoffMs (retryCount : ℕ) : ℤ := 2000 * 4 ^ (retryCount - 1)

/-! ## `generateId` -/

/-- `toString(36)` of an integer. -/
def base36Lower (n : ℤ) : String := String.ofList ((base36Text n).toList.map Char.toLower)

/-- The letters and digits of a type; every other code unit is replaced. -/
def safeType (type : String) : String :=
  String.ofList ((type.toList.flatMap fun c =>
    if c.isAlphanum then [c] else List.replicate (if c.val < 0x10000 then 1 else 2) '_').take 12)

/-- `generateId(type)`, with the counter after it was incremented. -/
def generateId (type : String) (now : Timestamp) (jobCounter : ℕ) : String :=
  safeType type ++ "_" ++ base36Lower now ++ "_" ++ base36Lower jobCounter

namespace QueueState

/-- The job object with its fields set. -/
def setJob (s : QueueState Payload) (ref : JobRef) (job : RetryJob Payload) : QueueState Payload :=
  { s with jobs := Function.update s.jobs ref (some job) }

/-- Record what happened. -/
def emit (s : QueueState Payload) (e : QueueEvent) : QueueState Payload :=
  { s with log := e :: s.log }

/-! ## The map -/

/-- `this.queue.get(id)`. -/
def get (s : QueueState Payload) (id : String) : Option JobRef :=
  (s.queue.find? fun entry => entry.1 = id).map Prod.snd

/-- `this.queue.set(id, job)`. A key that is there keeps its place. -/
def set (queue : List (String × JobRef)) (id : String) (ref : JobRef) : List (String × JobRef) :=
  if queue.any fun entry => entry.1 = id then
    queue.map fun entry => if entry.1 = id then (id, ref) else entry
  else queue ++ [(id, ref)]

/-! ## The calls -/

/-- `registerHandler(type, handler)`. -/
def registerHandler (s : QueueState Payload) (type : String) : QueueState Payload :=
  { s with handlers := type :: s.handlers }

/-- `enqueue(type, payload, options)`; the new object gets this reference. -/
def enqueue (s : QueueState Payload) (ref : JobRef) (type : String) (payload : Payload)
    (maxRetries : Option Number) : String × QueueState Payload :=
  let jobCounter := s.jobCounter + 1
  let id := generateId type s.now jobCounter
  let job : RetryJob Payload :=
    { id, type, payload
      retryCount := 0
      maxRetries := maxRetries.getD defaultMaxRetries
      lastError := none
      nextRetryAt := some s.now
      createdAt := s.now
      status := .queued }
  (id, { s.setJob ref job with jobCounter, queue := set s.queue id ref })

/-- `retryJob(id)`. -/
def retryJob (s : QueueState Payload) (id : String) : Bool × QueueState Payload :=
  match s.get id with
  | none => (false, s)
  | some ref =>
    match s.jobs ref with
    | none => (false, s)
    | some job =>
      if job.status ≠ .failed then (false, s)
      else
        (true, (s.setJob ref
          { job with
            retryCount := 0
            status := .queued
            lastError := none
            nextRetryAt := some s.now }).emit (.retried ref))

/-- The entry is deleted by `clearCompleted`. -/
def isCleared (s : QueueState Payload) (entry : String × JobRef) : Bool :=
  (s.jobs entry.2).any fun job => job.status = .completed || job.status = .failed

/-- `clearCompleted()`. -/
def clearCompleted (s : QueueState Payload) : ℕ × QueueState Payload :=
  ((s.queue.filter s.isCleared).length,
    { s with queue := s.queue.filter fun entry => !s.isCleared entry })

/-! ## Processing -/

/-- The job goes into the batch. -/
def isDue (s : QueueState Payload) (ref : JobRef) : Bool :=
  (s.jobs ref).any fun job => job.status = .queued && job.nextRetryAt.any (· ≤ s.now)

/-- `due`. -/
def due (s : QueueState Payload) : List JobRef := (s.queue.map Prod.snd).filter s.isDue

/-- The callback of the timer, and the beginning of `processDueJobs`. -/
def tick (s : QueueState Payload) : QueueState Payload :=
  if s.destroyed then s
  else if s.processing then s
  else { s with processing := true, cycles := s.cycles ++ [.next s.due] }

/-- `processJob(job)` up to the call of the handler, or without one. -/
def processJob (s : QueueState Payload) (ref : JobRef) (job : RetryJob Payload)
    (rest : List JobRef) : QueueState Payload × Cycle :=
  if job.type ∈ s.handlers then
    ((s.setJob ref { job with status := .processing }).emit (.executed ref s.now),
      .handling ref rest)
  else
    (s.setJob ref { job with nextRetryAt := timeClip (ofTimestamp (s.now + 60000)) }, .next rest)

/-- `processJob(job)` from the end of the handler on. Without a text the `catch` block throws after it has
counted the failure. -/
def settleJob (s : QueueState Payload) (ref : JobRef) (job : RetryJob Payload)
    (outcome : HandlerOutcome) : QueueState Payload :=
  match outcome.error with
  | none => (s.setJob ref { job with status := .completed }).emit (.completed ref)
  | some none =>
    (s.setJob ref { job with retryCount := job.retryCount + 1 }).emit (.failed ref s.now)
  | some (some message) =>
    let retryCount := job.retryCount + 1
    let failed : RetryJob Payload := { job with retryCount, lastError := some message }
    (s.setJob ref
      (if job.maxRetries.le (.finite retryCount) then { failed with status := .failed }
      else
        { failed with
          nextRetryAt := timeClip (ofTimestamp (s.now + backoffMs retryCount))
          status := .queued })).emit (.failed ref s.now)

end QueueState

/-- What can happen. -/
inductive QueueAction (Payload : Type) where
  | elapse (ms : ℕ)
  | registerHandler (type : String)
  | enqueue (ref : JobRef) (type : String) (payload : Payload) (maxRetries : Option Number)
  | retryJob (id : String)
  | clearCompleted
  | onModuleDestroy
  | tick
  /-- A cycle goes on to its next job, or ends. -/
  | proceed
  /-- The handler that a cycle waits for ends. -/
  | settle (outcome : HandlerOutcome)

/-- The steps. A new object gets a reference that is free. -/
inductive QueueStep : QueueState Payload → QueueAction Payload → QueueState Payload → Prop where
  | elapse {s : QueueState Payload} (ms : ℕ) : QueueStep s (.elapse ms) { s with now := s.now + ms }
  | registerHandler {s : QueueState Payload} (type : String) :
      QueueStep s (.registerHandler type) (s.registerHandler type)
  | enqueue {s : QueueState Payload} {ref : JobRef} (type : String) (payload : Payload)
      (maxRetries : Option Number) : s.jobs ref = none →
      QueueStep s (.enqueue ref type payload maxRetries) (s.enqueue ref type payload maxRetries).2
  | retryJob {s : QueueState Payload} (id : String) : QueueStep s (.retryJob id) (s.retryJob id).2
  | clearCompleted {s : QueueState Payload} : QueueStep s .clearCompleted s.clearCompleted.2
  | onModuleDestroy {s : QueueState Payload} :
      QueueStep s .onModuleDestroy { s with destroyed := true }
  | tick {s : QueueState Payload} : QueueStep s .tick s.tick
  | finish {s : QueueState Payload} {before after : List Cycle} :
      s.cycles = before ++ .next [] :: after →
      QueueStep s .proceed { s with processing := false, cycles := before ++ after }
  | processJob {s : QueueState Payload} {before after : List Cycle} {ref : JobRef}
      {rest : List JobRef} {job : RetryJob Payload} :
      s.cycles = before ++ .next (ref :: rest) :: after → s.jobs ref = some job →
      QueueStep s .proceed
        { (s.processJob ref job rest).1 with
          cycles := before ++ (s.processJob ref job rest).2 :: after }
  | settle {s : QueueState Payload} {before after : List Cycle} {ref : JobRef}
      {rest : List JobRef} {job : RetryJob Payload} (outcome : HandlerOutcome) :
      s.cycles = before ++ .handling ref rest :: after → s.jobs ref = some job →
      outcome.error ≠ some none →
      QueueStep s (.settle outcome)
        { s.settleJob ref job outcome with cycles := before ++ .next rest :: after }
  /-- `processJob` throws, and the `finally` of `processDueJobs` resets the flag. -/
  | reject {s : QueueState Payload} {before after : List Cycle} {ref : JobRef}
      {rest : List JobRef} {job : RetryJob Payload} (outcome : HandlerOutcome) :
      s.cycles = before ++ .handling ref rest :: after → s.jobs ref = some job →
      outcome.error = some none →
      QueueStep s (.settle outcome)
        { s.settleJob ref job outcome with processing := false, cycles := before ++ after }

/-- The service after its construction. The counter is one of the module, and may have been used. -/
def QueueState.initial (now : Timestamp) (jobCounter : ℕ) : QueueState Payload where
  jobs := fun _ => none
  queue := []
  handlers := []
  destroyed := false
  processing := false
  jobCounter
  cycles := []
  now
  log := []

/-- The runs of the service. -/
def memoryQueue (Payload : Type) : StepSystem (QueueState Payload) (QueueAction Payload) where
  init s := ∃ now jobCounter, s = .initial now jobCounter
  step := QueueStep

end ThalosBackend.Common.Retry
