import ThalosBackend.RetryQueue.StepFacts

/-!
# The life of one job

What the queue is for, seen from one job: a pending job that is due is picked, its handler is looked
up and called, the attempt ends, and the job is pending again, or has succeeded, or has failed.
`JobHistory` generates exactly the histories of this life, newest event first, from the number of
attempts allowed and the delays configured. Nothing else happens to the job: no crash, no reclaim,
no manual retry.

The guarantees of the retry state machine are facts about such histories, proved here by induction
on them. That a clean run of the queue gives every job such a history is another module's result.
-/

set_option autoImplicit false

namespace ThalosBackend.RetryQueue

open Js (Number Timestamp)

variable {Payload : Type} {cfg : RetryQueueConfig}

/-! ## Reading a history -/

def Event.isPicked : Event Payload → Bool
  | .picked _ _ => true
  | _ => false

/-- How often the job was processed. -/
def timesProcessed (h : List (Event Payload)) : ℕ := h.countP Event.isPicked

/-- The status the history leaves the job in. -/
def statusOf : List (Event Payload) → RetryJobStatus
  | [] => .pending
  | .settled _ _ _ result _ :: _ => result
  | _ => .processing

/-- How the last processing that ended, ended. -/
def lastOutcome : List (Event Payload) → Option Outcome
  | [] => none
  | .settled _ _ outcome _ _ :: _ => some outcome
  | _ :: older => lastOutcome older

/-- The back-off delays, latest first. -/
def delays (h : List (Event Payload)) : List Number :=
  h.filterMap fun e => match e with
    | .settled _ _ _ _ delay => delay
    | _ => none

/-! ## The histories -/

/-- The histories of a job with this identity and this `max_attempts`. -/
inductive JobHistory (cfg : RetryQueueConfig) (id : JobId) (maxAttempts : ℤ) :
    List (Event Payload) → Prop where
  | nil : JobHistory cfg id maxAttempts []
  /-- A due job that is pending is picked, for its next attempt. -/
  | picked {h : List (Event Payload)} {found : RetryJob Payload} {now : Timestamp} :
      JobHistory cfg id maxAttempts h → statusOf h = .pending → found.attempts = timesProcessed h →
      found.nextAttemptAt ≤ now → JobHistory cfg id maxAttempts (.picked found now :: h)
  /-- Its handler is called. -/
  | invoked {h : List (Event Payload)} {found : RetryJob Payload} {now : Timestamp} :
      JobHistory cfg id maxAttempts (.picked found now :: h) →
      JobHistory cfg id maxAttempts (.invoked id (timesProcessed h + 1) :: .picked found now :: h)
  /-- It has no handler. -/
  | noHandler {h : List (Event Payload)} {found : RetryJob Payload} {now : Timestamp} :
      JobHistory cfg id maxAttempts (.picked found now :: h) →
      JobHistory cfg id maxAttempts
        (.settled id (timesProcessed h + 1) .noHandler .failed none :: .picked found now :: h)
  /-- Its handler ends, and a delay before the next attempt is finite. -/
  | ended {h : List (Event Payload)} {attempt : ℕ} {outcome : Outcome} {job : RetryJob Payload} :
      JobHistory cfg id maxAttempts (.invoked id attempt :: h) → outcome ≠ .noHandler →
      job.maxAttempts = maxAttempts →
      (∀ d, backoffDelay cfg job attempt outcome = some d → ∃ x, d = .finite x) →
      JobHistory cfg id maxAttempts
        (.settled id attempt outcome (statusAfter job attempt outcome)
          (backoffDelay cfg job attempt outcome) :: .invoked id attempt :: h)

/-- How many attempts `max_attempts` allows. -/
def attemptLimitOf (maxAttempts : ℤ) : ℕ := max 1 maxAttempts.toNat

theorem attemptLimit_eq_of (job : RetryJob Payload) :
    job.attemptLimit = attemptLimitOf job.maxAttempts := rfl

section Guarantees

variable {id : JobId} {maxAttempts : ℤ} {h : List (Event Payload)}

/-- The handler is called for the attempt that was counted when the job was picked. -/
theorem JobHistory.attempt_eq {attempt : ℕ}
    (hh : JobHistory cfg id maxAttempts (.invoked id attempt :: h)) :
    attempt = timesProcessed h := by
  cases hh with
  | @invoked h' found now _ => simp [timesProcessed, Event.isPicked, List.countP_cons]

@[simp] theorem timesProcessed_picked (found : RetryJob Payload) (now : Timestamp) :
    timesProcessed (.picked found now :: h) = timesProcessed h + 1 := by
  simp [timesProcessed, Event.isPicked, List.countP_cons]

@[simp] theorem timesProcessed_invoked (attempt : ℕ) :
    timesProcessed (.invoked id attempt :: h) = timesProcessed h := by
  simp [timesProcessed, Event.isPicked]

@[simp] theorem timesProcessed_settled (attempt : ℕ) (outcome : Outcome) (result : RetryJobStatus)
    (delay : Option Number) :
    timesProcessed (.settled id attempt outcome result delay :: h) = timesProcessed h := by
  simp [timesProcessed, Event.isPicked]

@[simp] theorem delays_picked (found : RetryJob Payload) (now : Timestamp) :
    delays (.picked found now :: h) = delays h := rfl

@[simp] theorem delays_invoked (attempt : ℕ) : delays (.invoked id attempt :: h) = delays h := rfl

theorem delays_settled (attempt : ℕ) (outcome : Outcome) (result : RetryJobStatus)
    (delay : Option Number) :
    delays (.settled id attempt outcome result delay :: h) = delay.toList ++ delays h := by
  cases delay <;> rfl

/-- A job is processed at most as often as it has attempts, and less often while it is pending. -/
theorem JobHistory.bound (hh : JobHistory cfg id maxAttempts h) :
    timesProcessed h ≤ attemptLimitOf maxAttempts ∧
      (statusOf h = .pending → timesProcessed h < attemptLimitOf maxAttempts) := by
  induction hh with
  | nil =>
      have : 0 < attemptLimitOf maxAttempts := Nat.lt_of_lt_of_le Nat.one_pos (Nat.le_max_left _ _)
      exact ⟨Nat.zero_le _, fun _ => this⟩
  | picked _ hpending _ _ ih =>
      rw [timesProcessed_picked]
      exact ⟨ih.2 hpending, fun h => by cases h⟩
  | invoked _ ih =>
      rw [timesProcessed_invoked]
      exact ⟨ih.1, fun h => by cases h⟩
  | noHandler _ ih =>
      rw [timesProcessed_settled]
      exact ⟨ih.1, fun h => by cases h⟩
  | @ended h attempt outcome job hh _ hmax _ ih =>
      have hattempt := hh.attempt_eq
      rw [timesProcessed_settled, timesProcessed_invoked]
      rw [timesProcessed_invoked] at ih
      refine ⟨ih.1, fun hstatus => ?_⟩
      have hpos : 0 < attempt := by
        cases hh with
        | invoked => exact Nat.succ_pos _
      rw [← hattempt, ← hmax]
      exact lt_attemptLimit_of_statusAfter hpos hstatus

/-- While the job is not processing, its status follows from how its last processing ended: it has
succeeded if the handler did, and failed if there was no handler, or if the handler threw in the last
attempt. -/
theorem JobHistory.status_iff (hh : JobHistory cfg id maxAttempts h)
    (hidle : statusOf h ≠ .processing) :
    (statusOf h = .succeeded ↔ lastOutcome h = some .resolved) ∧
      (statusOf h = .failed ↔ lastOutcome h = some .noHandler ∨
        (∃ message, lastOutcome h = some (.threw message)) ∧
          timesProcessed h = attemptLimitOf maxAttempts) := by
  cases hh with
  | nil => simp [statusOf, lastOutcome]
  | picked => exact absurd rfl hidle
  | invoked => exact absurd rfl hidle
  | noHandler => simp [statusOf, lastOutcome]
  | @ended h attempt outcome job hh hne hmax _ =>
      have hattempt := hh.attempt_eq
      have hbound := hh.bound.1
      have hpos : 0 < attempt := by
        cases hh with
        | invoked => exact Nat.succ_pos _
      rw [timesProcessed_invoked, ← hattempt] at hbound
      rw [timesProcessed_settled, timesProcessed_invoked, ← hattempt]
      simp only [statusOf, lastOutcome, Option.some.injEq]
      cases outcome with
      | noHandler => exact absurd rfl hne
      | resolved => simp [statusAfter]
      | threw message =>
          have hlast : job.maxAttempts ≤ attempt ↔ attempt = attemptLimitOf maxAttempts := by
            rw [maxAttempts_le_iff hpos, attemptLimit_eq_of, hmax]
            omega
          by_cases hle : job.maxAttempts ≤ attempt
          · simp only [statusAfter, if_pos hle]
            simp [hlast.mp hle]
          · simp only [statusAfter, if_neg hle]
            simp [mt hlast.mpr hle]

/-- An attempt that ended before a job was picked again left it pending. -/
theorem JobHistory.pending_before_pick (hh : JobHistory cfg id maxAttempts h) :
    ∀ newer found now older, h = newer ++ .picked found now :: older →
      ∀ id' attempt outcome result delay, .settled id' attempt outcome result delay ∈ older →
        result = .pending := by
  -- along the history: every end of an attempt but the latest event left the job pending
  have htail : ∀ {h : List (Event Payload)}, JobHistory cfg id maxAttempts h →
      (∀ id' attempt outcome result delay, .settled id' attempt outcome result delay ∈ h.tail →
        result = .pending) := by
    intro h hh
    induction hh with
    | nil => simp
    | @picked h found now hh hpending _ _ ih =>
        intro id' attempt outcome result delay hmem
        cases h with
        | nil => cases hmem
        | cons e older =>
            rcases List.mem_cons.mp hmem with rfl | hmem
            · exact hpending
            · exact ih _ _ _ _ _ hmem
    | invoked _ ih =>
        intro id' attempt outcome result delay hmem
        rcases List.mem_cons.mp hmem with heq | hmem
        · cases heq
        · exact ih _ _ _ _ _ hmem
    | noHandler _ ih =>
        intro id' attempt outcome result delay hmem
        rcases List.mem_cons.mp hmem with heq | hmem
        · cases heq
        · exact ih _ _ _ _ _ hmem
    | ended _ _ _ _ ih =>
        intro id' attempt outcome result delay hmem
        rcases List.mem_cons.mp hmem with heq | hmem
        · cases heq
        · exact ih _ _ _ _ _ hmem
  intro newer found now older heq id' attempt outcome result delay hmem
  cases newer with
  | nil =>
      refine htail hh id' attempt outcome result delay ?_
      rw [heq]
      exact hmem
  | cons e newer =>
      refine htail hh id' attempt outcome result delay ?_
      rw [heq]
      exact List.mem_append_right _ (List.mem_cons_of_mem _ hmem)

/-- A job is picked when it is due. -/
theorem JobHistory.due (hh : JobHistory cfg id maxAttempts h) :
    ∀ found now, .picked found now ∈ h → found.nextAttemptAt ≤ now := by
  induction hh with
  | nil => simp
  | picked _ _ _ hdue ih =>
      intro found now hmem
      rcases List.mem_cons.mp hmem with heq | hmem
      · cases heq; exact hdue
      · exact ih found now hmem
  | invoked _ ih => exact fun found now hmem => ih found now (by simpa using hmem)
  | noHandler _ ih => exact fun found now hmem => ih found now (by simpa using hmem)
  | ended _ _ _ _ ih => exact fun found now hmem => ih found now (by simpa using hmem)

/-- Every delay was computed for an attempt that was made, and is finite. -/
theorem JobHistory.mem_delays (hh : JobHistory cfg id maxAttempts h) :
    ∀ d ∈ delays h, ∃ attempt x, attempt ≤ timesProcessed h ∧ d = .finite x ∧
      computeBackoffMs attempt cfg.baseDelayMs cfg.maxDelayMs = .finite x := by
  induction hh with
  | nil => simp [delays]
  | picked _ _ _ _ ih =>
      intro d hd
      obtain ⟨attempt, x, hle, hrest⟩ := ih d hd
      exact ⟨attempt, x, by rw [timesProcessed_picked]; omega, hrest⟩
  | invoked _ ih =>
      intro d hd
      rw [timesProcessed_invoked]
      exact ih d hd
  | noHandler _ ih =>
      intro d hd
      rw [timesProcessed_settled]
      exact ih d hd
  | @ended h attempt outcome job hh _ _ hfinite ih =>
      intro d hd
      rw [timesProcessed_settled]
      rw [delays_settled] at hd
      rcases List.mem_append.mp hd with hnew | hold
      · have hb := Option.mem_toList.mp hnew
        obtain ⟨x, rfl⟩ := hfinite _ hb
        refine ⟨attempt, x, ?_, rfl, (backoffDelay_eq_some hb).2.symm⟩
        rw [timesProcessed_invoked, hh.attempt_eq]
      · exact ih d hold

/-- The delays never shrink, for a base delay that is not negative, -/
theorem JobHistory.delays_mono (hbase : Number.le 0 cfg.baseDelayMs = true)
    (hh : JobHistory cfg id maxAttempts h) :
    (delays h).Pairwise fun later earlier => Number.le earlier later = true := by
  induction hh with
  | nil => simp [delays]
  | picked _ _ _ _ ih => exact ih
  | invoked _ ih => exact ih
  | noHandler _ ih => exact ih
  | @ended h attempt outcome job hh _ _ hfinite ih =>
      rw [delays_settled]
      cases hb : backoffDelay cfg job attempt outcome with
      | none => exact ih
      | some d =>
          obtain ⟨y, rfl⟩ := hfinite _ hb
          have hy := (backoffDelay_eq_some hb).2.symm
          refine List.pairwise_cons.mpr ⟨fun d hd => ?_, ih⟩
          obtain ⟨attempt', x, hle, rfl, hx⟩ := hh.mem_delays d hd
          rw [timesProcessed_invoked, ← hh.attempt_eq] at hle
          simpa using backoff_mono hbase hle hx hy

/-- and never exceed the maximum. -/
theorem JobHistory.delays_capped (hh : JobHistory cfg id maxAttempts h) :
    ∀ d ∈ delays h, Number.le d cfg.maxDelayMs = true := by
  intro d hd
  obtain ⟨attempt, x, -, rfl, hx⟩ := hh.mem_delays d hd
  exact backoff_le_max hx

end Guarantees

end ThalosBackend.RetryQueue
