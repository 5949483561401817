import ThalosBackend.Js.Date

/-!
# Retry jobs and what one attempt makes of them

The rows of `retry_jobs` and the parts of the retry queue that do no input or output: the back-off
delay, and the update that ends an attempt, as a function of the attempt's outcome. `settlement`
has no value where the source throws instead: the due date of the next attempt is computed with
`toISOString`, which rejects an invalid date, and the text of what a handler threw with `String`, which
rejects an object without a prototype (`Recordable`).
-/

set_option autoImplicit false

namespace ThalosBackend.RetryQueue

open Js (Number Timestamp)

/-- The identity of a row, a UUID. -/
abbrev JobId := String

inductive RetryJobType where
  | agreementCreation
  | milestoneUpdate
  | statusSync
  | contractRetrieval
  | paymentExecution
  | webhookEventProcessing
  deriving DecidableEq

/-- The value a job type has in the table. -/
def RetryJobType.text : RetryJobType → String
  | .agreementCreation => "agreement_creation"
  | .milestoneUpdate => "milestone_update"
  | .statusSync => "status_sync"
  | .contractRetrieval => "contract_retrieval"
  | .paymentExecution => "payment_execution"
  | .webhookEventProcessing => "webhook_event_processing"

inductive RetryJobStatus where
  | pending
  | processing
  | succeeded
  | failed
  deriving DecidableEq

/-- A row of `retry_jobs`. -/
structure RetryJob (Payload : Type) where
  id : JobId
  jobType : RetryJobType
  idempotencyKey : String
  payload : Payload
  status : RetryJobStatus
  attempts : ℕ
  maxAttempts : ℤ
  nextAttemptAt : Timestamp
  lastError : Option String
  createdAt : Timestamp
  updatedAt : Timestamp
  completedAt : Option Timestamp
  deriving DecidableEq

/-- The settings the service reads at construction. The poll interval is not among them: polls may
start at any time. -/
structure RetryQueueConfig where
  maxAttempts : ℤ
  baseDelayMs : Number
  maxDelayMs : Number
  concurrency : ℕ
  staleProcessingMs : Number

/-- `RETRY_QUEUE_DEFAULTS`. -/
def retryQueueDefaults : RetryQueueConfig where
  maxAttempts := 5
  baseDelayMs := 1000
  maxDelayMs := 60000
  concurrency := 3
  staleProcessingMs := 60000

/-- Exponential backoff: base * 2^(attempt - 1), capped at the maximum delay. -/
def computeBackoffMs (attempt : ℕ) (baseDelayMs maxDelayMs : Number) : Number :=
  let exponent := attempt - 1
  let delay := baseDelayMs * Number.twoPow exponent
  Number.min delay maxDelayMs

/-- How the handler of a job ended, or that there was none. What it throws may be any value; `message`
is its text, which is missing where `String` throws in turn. -/
inductive Outcome where
  | noHandler
  | resolved
  | threw (message : Option String)
  deriving DecidableEq

/-- The fields an update of a row sets. Every update of the service sets the status; `updated_at` is
set by `updateJob` itself. -/
structure JobUpdate where
  status : RetryJobStatus
  attempts : Option ℕ := none
  nextAttemptAt : Option Timestamp := none
  lastError : Option (Option String) := none
  completedAt : Option Timestamp := none
  deriving DecidableEq

variable {Payload : Type}

/-- Overwrite the fields an update sets, and the time of the update. -/
def JobUpdate.apply (u : JobUpdate) (now : Timestamp) (job : RetryJob Payload) :
    RetryJob Payload :=
  { job with
    status := u.status
    attempts := u.attempts.getD job.attempts
    nextAttemptAt := u.nextAttemptAt.getD job.nextAttemptAt
    lastError := u.lastError.getD job.lastError
    completedAt := u.completedAt.orElse fun _ => job.completedAt
    updatedAt := now }

/-- The update that puts a stale job back. -/
def reclaimUpdate : JobUpdate := { status := .pending }

/-- The update that picks a job for an attempt. -/
def pickUpdate (attempt : ℕ) : JobUpdate := { status := .processing, attempts := some attempt }

def noHandlerMessage (jobType : RetryJobType) : String :=
  "No handler registered for job type \"" ++ jobType.text ++ "\""

/-- The due date after a failed attempt; `none` when `toISOString` throws. -/
def dueAfter (cfg : RetryQueueConfig) (attempt : ℕ) (now : Timestamp) : Option Timestamp :=
  Js.timeClip (Js.ofTimestamp now + computeBackoffMs attempt cfg.baseDelayMs cfg.maxDelayMs)

/-- The update that ends an attempt; `none` when the source throws before it writes one. -/
def settlement (cfg : RetryQueueConfig) (job : RetryJob Payload) (attempt : ℕ) (now : Timestamp) :
    Outcome → Option JobUpdate
  | .noHandler => some
      { status := .failed
        lastError := some (some (noHandlerMessage job.jobType))
        completedAt := some now }
  | .resolved => some
      { status := .succeeded, lastError := some none, completedAt := some now }
  | .threw none => none
  | .threw (some message) =>
      if job.maxAttempts ≤ attempt then
        some { status := .failed, lastError := some (some message), completedAt := some now }
      else
        (dueAfter cfg attempt now).map fun due =>
          { status := .pending, lastError := some (some message), nextAttemptAt := some due }

/-- The time before which a job in processing counts as stale; `none` when `toISOString` throws. -/
def staleBefore (cfg : RetryQueueConfig) (now : Timestamp) : Option Timestamp :=
  Js.timeClip (Js.ofTimestamp now - cfg.staleProcessingMs)

/-- Whether `manualRetry` accepts a job in this status. -/
def manuallyRetryable : RetryJobStatus → Bool
  | .succeeded | .processing => false
  | .pending | .failed => true

/-- How many attempts a job has: at least one is always made. -/
def RetryJob.attemptLimit (job : RetryJob Payload) : ℕ := max 1 job.maxAttempts.toNat

/-! ## What an update does to a row -/

section Updates

variable (u : JobUpdate) (now : Timestamp) (job : RetryJob Payload)

@[simp] theorem apply_id : (u.apply now job).id = job.id := rfl
@[simp] theorem apply_jobType : (u.apply now job).jobType = job.jobType := rfl
@[simp] theorem apply_idempotencyKey : (u.apply now job).idempotencyKey = job.idempotencyKey := rfl
@[simp] theorem apply_payload : (u.apply now job).payload = job.payload := rfl
@[simp] theorem apply_status : (u.apply now job).status = u.status := rfl
@[simp] theorem apply_maxAttempts : (u.apply now job).maxAttempts = job.maxAttempts := rfl

@[simp] theorem apply_attempts : (u.apply now job).attempts = u.attempts.getD job.attempts := rfl

@[simp] theorem apply_attemptLimit : (u.apply now job).attemptLimit = job.attemptLimit := rfl

end Updates

theorem attemptLimit_pos (job : RetryJob Payload) : 0 < job.attemptLimit :=
  Nat.lt_of_lt_of_le Nat.one_pos (Nat.le_max_left _ _)

/-- For an attempt that was made, the source's test `attempt >= job.max_attempts` is the test against
the attempt limit. -/
theorem maxAttempts_le_iff {job : RetryJob Payload} {attempt : ℕ} (h : 0 < attempt) :
    job.maxAttempts ≤ attempt ↔ job.attemptLimit ≤ attempt := by
  unfold RetryJob.attemptLimit
  omega

/-- Ending an attempt never changes the attempt counter. -/
theorem settlement_attempts {cfg : RetryQueueConfig} {job : RetryJob Payload} {attempt : ℕ}
    {now : Timestamp} {outcome : Outcome} {u : JobUpdate}
    (h : settlement cfg job attempt now outcome = some u) : u.attempts = none := by
  cases outcome with
  | noHandler => cases h; rfl
  | resolved => cases h; rfl
  | threw message =>
      cases message with
      | none => cases h
      | some message =>
          simp only [settlement] at h
          split at h
          · cases h; rfl
          · obtain ⟨due, -, rfl⟩ := Option.map_eq_some_iff.mp h
            rfl

/-- The status an attempt ends in. -/
def statusAfter (job : RetryJob Payload) (attempt : ℕ) : Outcome → RetryJobStatus
  | .noHandler => .failed
  | .resolved => .succeeded
  | .threw _ => if job.maxAttempts ≤ attempt then .failed else .pending

theorem settlement_status {cfg : RetryQueueConfig} {job : RetryJob Payload} {attempt : ℕ}
    {now : Timestamp} {outcome : Outcome} {u : JobUpdate}
    (h : settlement cfg job attempt now outcome = some u) :
    u.status = statusAfter job attempt outcome := by
  cases outcome with
  | noHandler => cases h; rfl
  | resolved => cases h; rfl
  | threw message =>
      cases message with
      | none => cases h
      | some message =>
          simp only [settlement] at h
          simp only [statusAfter]
          split at h
          · rename_i hlast
            cases h
            rw [if_pos hlast]
          · rename_i hlast
            obtain ⟨due, -, rfl⟩ := Option.map_eq_some_iff.mp h
            rw [if_neg hlast]

/-- A job goes back to `pending` only below its attempt limit. -/
theorem lt_attemptLimit_of_statusAfter {job : RetryJob Payload} {attempt : ℕ} {outcome : Outcome}
    (hpos : 0 < attempt) (h : statusAfter job attempt outcome = .pending) :
    attempt < job.attemptLimit := by
  cases outcome with
  | noHandler => simp [statusAfter] at h
  | resolved => simp [statusAfter] at h
  | threw message =>
      simp only [statusAfter] at h
      split at h
      · cases h
      · rename_i hlast
        rw [maxAttempts_le_iff hpos] at hlast
        omega

/-- The delay before the next attempt, when there is one. -/
def backoffDelay (cfg : RetryQueueConfig) (job : RetryJob Payload) (attempt : ℕ) :
    Outcome → Option Number
  | .threw _ =>
      if job.maxAttempts ≤ attempt then none
      else some (computeBackoffMs attempt cfg.baseDelayMs cfg.maxDelayMs)
  | _ => none

theorem backoffDelay_eq_some {cfg : RetryQueueConfig} {job : RetryJob Payload} {attempt : ℕ}
    {outcome : Outcome} {d : Number} (h : backoffDelay cfg job attempt outcome = some d) :
    statusAfter job attempt outcome = .pending ∧
      d = computeBackoffMs attempt cfg.baseDelayMs cfg.maxDelayMs := by
  cases outcome with
  | noHandler => cases h
  | resolved => cases h
  | threw message =>
      simp only [backoffDelay] at h
      split at h
      · cases h
      · rename_i hlast
        cases h
        exact ⟨by rw [statusAfter, if_neg hlast], rfl⟩

/-- A due date comes from a finite delay. -/
theorem backoff_finite_of_dueAfter {cfg : RetryQueueConfig} {attempt : ℕ} {now due : Timestamp}
    (h : dueAfter cfg attempt now = some due) :
    ∃ x, computeBackoffMs attempt cfg.baseDelayMs cfg.maxDelayMs = .finite x := by
  obtain ⟨q, hq⟩ := Js.eq_finite_of_timeClip h
  cases hd : computeBackoffMs attempt cfg.baseDelayMs cfg.maxDelayMs with
  | finite x => exact ⟨x, rfl⟩
  | nan => rw [hd] at hq; cases hq
  | infinity s => rw [hd] at hq; cases hq

/-- A finite delay is at most the maximum. -/
theorem backoff_le_max {attempt : ℕ} {base maximum : Number} {x : ℚ}
    (h : computeBackoffMs attempt base maximum = .finite x) :
    Number.le (.finite x) maximum = true :=
  (Number.min_eq_finite h).2.1

/-- The delays grow with the attempts, for a base delay that is not negative. -/
theorem backoff_mono {base maximum : Number} (hbase : Number.le 0 base = true)
    {attempt attempt' : ℕ} (hle : attempt ≤ attempt') {x y : ℚ}
    (hx : computeBackoffMs attempt base maximum = .finite x)
    (hy : computeBackoffMs attempt' base maximum = .finite y) : x ≤ y := by
  obtain ⟨hxdelay, hxmax, -⟩ := Number.min_eq_finite hx
  obtain ⟨hydelay, -, hy | hy⟩ := Number.min_eq_finite hy
  · -- the later delay is not capped
    have hnan : base * Number.twoPow (attempt - 1) ≠ .nan := by
      intro h
      rw [h] at hxdelay
      simp [Number.le] at hxdelay
    have hnan' : base * Number.twoPow (attempt' - 1) ≠ .nan := by
      intro h
      rw [h] at hy
      cases hy
    have hgrow := Number.mul_twoPow_mono hbase (Nat.sub_le_sub_right hle 1) hnan hnan'
    rw [hy] at hgrow
    exact Number.le_of_finite_le hxdelay hgrow
  · rw [hy] at hxmax
    simpa using hxmax

/-- The end of an attempt can be written: what the handler threw has a text, and when there is to be
a next attempt, its due date is a date. -/
structure Recordable (cfg : RetryQueueConfig) (job : RetryJob Payload) (attempt : ℕ)
    (now : Timestamp) (outcome : Outcome) : Prop where
  texted : outcome ≠ .threw none
  dated : statusAfter job attempt outcome = .pending → dueAfter cfg attempt now ≠ none

/-- The source throws in two places only: when it asks for the text of what the handler threw, and when
it computes a due date. -/
theorem settlement_ne_none_iff {cfg : RetryQueueConfig} {job : RetryJob Payload} {attempt : ℕ}
    {now : Timestamp} {outcome : Outcome} :
    settlement cfg job attempt now outcome ≠ none ↔ Recordable cfg job attempt now outcome := by
  constructor
  · intro h
    refine ⟨?_, fun hpending hdue => h ?_⟩
    · rintro rfl
      exact h rfl
    · cases outcome with
      | noHandler => simp [statusAfter] at hpending
      | resolved => simp [statusAfter] at hpending
      | threw message =>
          cases message with
          | none => rfl
          | some message =>
              simp only [statusAfter] at hpending
              split at hpending
              · cases hpending
              · rename_i hlast
                rw [settlement, if_neg hlast, hdue, Option.map_none]
  · rintro ⟨htext, hdated⟩
    cases outcome with
    | noHandler => simp [settlement]
    | resolved => simp [settlement]
    | threw message =>
        cases message with
        | none => exact absurd rfl htext
        | some message =>
            simp only [settlement, statusAfter] at hdated ⊢
            split
            · simp
            · rename_i hlast
              simpa using hdated (if_neg hlast)

end ThalosBackend.RetryQueue
