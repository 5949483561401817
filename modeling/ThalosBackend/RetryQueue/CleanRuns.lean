import ThalosBackend.RetryQueue.AttemptBound
import ThalosBackend.RetryQueue.Enqueue
import ThalosBackend.RetryQueue.JobHistory

/-!
# Clean runs

A clean run has one poller that never overlaps itself, no crash, no database error and no manual
retry; jobs may be enqueued at any time. On such a run every row of the table is the state of the
job's life that `JobHistory` describes, read off the log, as long as the end of every attempt can be
written (`clean_of_recordable`). The guarantees about attempts, status, due times and delays follow from
the histories.

The due date can fail to be one: a large enough maximum delay lets the delay grow past the range of
dates, and `toISOString` throws inside the handler of the failure. The attempt is never ended, and
the job stays in `processing` between polls (`clean_fails_on_far_due_date`). So does a job whose handler
throws a value without a text.
-/

set_option autoImplicit false

namespace ThalosBackend.RetryQueue

open Js (Number Timestamp)

variable {Payload : Type} {cfg : RetryQueueConfig}

/-! ## The property -/

/-- What is claimed of the history of a job, at any time. -/
structure HistoryCorrect (cfg : RetryQueueConfig) (h : List (Event Payload)) : Prop where
  /-- A job whose attempt ended in `succeeded` or `failed` is not picked again. -/
  terminal : ∀ newer found now older, h = newer ++ .picked found now :: older →
    ∀ id attempt outcome result delay, .settled id attempt outcome result delay ∈ older →
      result = .pending
  /-- A job is picked when it is due. -/
  due : ∀ found now, .picked found now ∈ h → found.nextAttemptAt ≤ now
  /-- Successive delays do not shrink, -/
  mono : (delays h).Pairwise fun later earlier => Number.le earlier later = true
  /-- and do not exceed the maximum. -/
  capped : ∀ d ∈ delays h, Number.le d cfg.maxDelayMs = true

/-- What is claimed of a row and its history between poll cycles. -/
structure RowCorrect (row : RetryJob Payload) (h : List (Event Payload)) : Prop where
  attempts : row.attempts = timesProcessed h
  bound : row.attempts ≤ row.attemptLimit
  succeeded : row.status = .succeeded ↔ lastOutcome h = some .resolved
  failed : row.status = .failed ↔ lastOutcome h = some .noHandler ∨
    (∃ message, lastOutcome h = some (.threw message)) ∧ row.attempts = row.attemptLimit
  idle : row.status ≠ .processing

/-- No poll is going on. -/
def BetweenPolls (c : QueueState Payload) : Prop :=
  ∀ t k, c.threads t = some k → k.pc.request ≠ none

/-- **Correctness of the retry state machine** of a queue. -/
def CleanCorrect (cfg : RetryQueueConfig)
    (M : StepSystem (QueueState Payload) (QueueStep Payload)) : Prop :=
  ∀ c, M.Reachable c → ∀ row ∈ c.shared.rows,
    HistoryCorrect cfg (history row.id c.shared.log) ∧
      (BetweenPolls c → RowCorrect row (history row.id c.shared.log))

/-! ## Clean runs, and the condition -/

/-- One poller, which starts only when no poll is going on, on a clock that does not go back; no
manual retry, no database error, no crash. -/
def CleanStep (c : QueueState Payload) : QueueStep Payload → Prop
  | .start _ k => (∀ id, k.pc ≠ .manualRetry id) ∧ (k.pc.request = none → BetweenPolls c)
  | .act _ (.call now) => c.shared.clock ≤ now
  | .act _ .dbError => False
  | .env (.registerHandler _ _) => True
  | .env (.crash _) => False

/-- What a handler throws has a text, and when an attempt fails that is not the last, the due date of
the next one is a date. -/
def EndsRecordable (cfg : RetryQueueConfig) (c : QueueState Payload) : QueueStep Payload → Prop
  | .act t (.call now) => ∀ k job attempt outcome rest, c.threads t = some k →
      k.pc = .settle job attempt outcome rest → Recordable cfg job attempt now outcome
  | _ => True

/-! ## The invariant -/

/-- A row is the state its job's history leads to. -/
structure Tracked (cfg : RetryQueueConfig) (log : List (Event Payload)) (row : RetryJob Payload) :
    Prop where
  life : JobHistory cfg row.id row.maxAttempts (history row.id log)
  attempts : row.attempts = timesProcessed (history row.id log)
  status : row.status = statusOf (history row.id log)

/-- The table and the log. -/
structure CleanInv (cfg : RetryQueueConfig) (rows : List (RetryJob Payload))
    (log : List (Event Payload)) : Prop where
  ids : Table.Unique (·.id) rows
  known : ∀ id, (∀ row ∈ rows, row.id ≠ id) → history id log = []
  tracked : ∀ row ∈ rows, Tracked cfg log row

/-- The attempt a call is in the middle of, and whether the handler was called for it. -/
def Pc.stage : Pc Payload → Option (RetryJob Payload × ℕ × Bool)
  | .lookUpHandler job attempt _ => some (job, attempt, false)
  | .runHandler job attempt _ => some (job, attempt, true)
  | .settle job attempt outcome _ => some (job, attempt, outcome ≠ .noHandler)
  | _ => none

/-- The identities of the jobs a call holds. -/
def Pc.held (pc : Pc Payload) : List JobId :=
  (pc.stage.map (·.1.id)).toList ++ pc.waiting.map (·.id)

/-- The latest event of a job in the middle of an attempt. -/
def AtStage (log : List (Event Payload)) (id : JobId) (attempt : ℕ) : Bool → Prop
  | true => ∃ h, history id log = .invoked id attempt :: h
  | false => ∃ found now h, history id log = .picked found now :: h ∧ attempt = timesProcessed h + 1

/-- What the poller knows about its jobs: those waiting are in the table as they were read, and the
one in flight is where the log says. -/
structure PollClaims (s : Store Payload) (k : Task Payload) : Prop where
  notManual : ∀ id, k.pc ≠ .manualRetry id
  notReclaim : ∀ job rest, k.pc ≠ .reclaim job rest
  waiting : ∀ job ∈ k.pc.waiting, job ∈ s.rows ∧ job.status = .pending ∧
    job.nextAttemptAt ≤ s.clock
  distinct : k.pc.held.Nodup
  inFlight : ∀ job attempt called, k.pc.stage = some (job, attempt, called) →
    Table.At (·.id) job.id (·.maxAttempts = job.maxAttempts) s.rows ∧
      AtStage s.log job.id attempt called

/-- Two calls are not both polls. -/
def OnePoll (k k' : Task Payload) : Prop := k.pc.request = none → k'.pc.request ≠ none

/-! ## One step -/

theorem stage_of_inFlight {pc : Pc Payload} {job : RetryJob Payload} {attempt : ℕ}
    (h : pc.inFlight = some (job, attempt)) : ∃ called, pc.stage = some (job, attempt, called) := by
  cases pc with
  | lookUpHandler => cases h; exact ⟨_, rfl⟩
  | runHandler => cases h; exact ⟨_, rfl⟩
  | settle => cases h; exact ⟨_, rfl⟩
  | _ => cases h

/-- An event is about one job. -/
theorem about_unique {e : Event Payload} {id id' : JobId} (h : e.about id = true)
    (h' : e.about id' = true) : id = id' := by
  cases e with
  | picked => simp only [Event.about, decide_eq_true_eq] at h h'; exact h.symm.trans h'
  | invoked => simp only [Event.about, decide_eq_true_eq] at h h'; exact h.symm.trans h'
  | settled => simp only [Event.about, decide_eq_true_eq] at h h'; exact h.symm.trans h'
  | _ => cases h

/-- The rows of other jobs stay tracked. -/
theorem Tracked.cons_ne {log : List (Event Payload)} {row : RetryJob Payload} {e : Event Payload}
    {id : JobId} (h : Tracked cfg log row) (he : e.about id = true) (hne : row.id ≠ id) :
    Tracked cfg (e :: log) row := by
  have habout : e.about row.id = false := by
    cases hb : e.about row.id with
    | false => rfl
    | true => exact absurd (about_unique hb he) hne
  obtain ⟨hlife, hattempts, hstatus⟩ := h
  constructor <;> rwa [history_cons_ne habout]

/-- What a step needs of its circumstances on a clean run. -/
structure CleanReady (cfg : RetryQueueConfig) (s : Store Payload) (a : Action) (pc : Pc Payload) :
    Prop where
  noError : a ≠ .dbError
  clock : ∀ now, a = .call now → s.clock ≤ now
  recordable : ∀ now job attempt outcome rest, a = .call now →
    pc = .settle job attempt outcome rest → Recordable cfg job attempt now outcome

section Step

variable {s : Store Payload} {a : Action} {k : Task Payload} {rows : List (RetryJob Payload)}
  {log : List (Event Payload)} {next : Option (Pc Payload)}

/-- Picking a job tracks it. -/
theorem Tracked.pick {job : RetryJob Payload} {now : Timestamp} (h : Tracked cfg s.log job)
    (hstatus : job.status = .pending) (hdue : job.nextAttemptAt ≤ now) :
    Tracked cfg (.picked job now :: s.log) ((pickUpdate (job.attempts + 1)).apply now job) := by
  have hcons : history job.id (.picked job now :: s.log) = .picked job now :: history job.id s.log :=
    history_cons_self (by simp [Event.about])
  refine ⟨?_, ?_, ?_⟩
  · rw [apply_id, apply_maxAttempts, hcons]
    exact .picked h.life (h.status ▸ hstatus) h.attempts hdue
  · rw [apply_id, hcons, timesProcessed_picked, ← h.attempts]
    rfl
  · rw [apply_id, hcons]
    rfl

/-- Calling the handler keeps a picked job tracked. -/
theorem Tracked.invoke {row : RetryJob Payload} {attempt : ℕ} (h : Tracked cfg s.log row)
    (hstage : AtStage s.log row.id attempt false) :
    Tracked cfg (.invoked row.id attempt :: s.log) row := by
  have hcons : history row.id (.invoked row.id attempt :: s.log) =
      .invoked row.id attempt :: history row.id s.log :=
    history_cons_self (by simp [Event.about])
  obtain ⟨found, now, older, heq, rfl⟩ := hstage
  obtain ⟨hlife, hattempts, hstatus⟩ := h
  rw [heq] at hlife hattempts hstatus hcons
  refine ⟨?_, ?_, ?_⟩
  · rw [hcons]
    exact .invoked hlife
  · rw [hcons, timesProcessed_invoked]
    exact hattempts
  · rw [hcons, hstatus]
    rfl

/-- Ending the attempt keeps the job tracked. -/
theorem Tracked.settle {row job : RetryJob Payload} {attempt : ℕ} {outcome : Outcome}
    {now : Timestamp} {u : JobUpdate} (h : Tracked cfg s.log row) (hid : row.id = job.id)
    (hmax : row.maxAttempts = job.maxAttempts)
    (hstage : AtStage s.log job.id attempt (outcome ≠ .noHandler))
    (hu : settlement cfg job attempt now outcome = some u) :
    Tracked cfg (.settled job.id attempt outcome u.status (backoffDelay cfg job attempt outcome) ::
      s.log) (u.apply now row) := by
  have hcons : history row.id (.settled job.id attempt outcome u.status
      (backoffDelay cfg job attempt outcome) :: s.log) = .settled job.id attempt outcome u.status
      (backoffDelay cfg job attempt outcome) :: history row.id s.log :=
    history_cons_self (by simp [Event.about, hid])
  obtain ⟨hlife, hattempts, hstatus⟩ := h
  refine ⟨?_, ?_, ?_⟩
  · rw [apply_id, apply_maxAttempts, hcons, settlement_status hu]
    rw [← hid] at hstage ⊢
    by_cases hout : outcome = .noHandler
    · subst hout
      obtain ⟨found, now', older, heq, rfl⟩ := hstage
      rw [heq] at hlife ⊢
      exact .noHandler hlife
    · simp only [hout, ne_eq, not_false_eq_true, decide_true] at hstage
      obtain ⟨older, heq⟩ := hstage
      rw [heq] at hlife ⊢
      refine .ended hlife hout hmax.symm fun d hd => ?_
      obtain ⟨hpending, rfl⟩ := backoffDelay_eq_some hd
      have hends : Recordable cfg job attempt now outcome :=
        settlement_ne_none_iff.mp (by rw [hu]; exact Option.some_ne_none u)
      obtain ⟨due, hdue⟩ := Option.ne_none_iff_exists'.mp (hends.dated hpending)
      exact backoff_finite_of_dueAfter hdue
  · rw [apply_id, hcons, apply_attempts, settlement_attempts hu, Option.getD_none, hattempts,
      timesProcessed_settled]
  · rw [apply_id, hcons]
    rfl

/-- A step keeps the invariant. -/
theorem CleanInv.effect (hI : CleanInv cfg s.rows s.log) (hA : PollClaims s k)
    (hR : CleanReady cfg s a k.pc) (h : Effect cfg s a k.pc rows log next) :
    CleanInv cfg rows log := by
  have hexists : ∀ job attempt, k.pc.inFlight = some (job, attempt) →
      ∃ row ∈ s.rows, row.id = job.id := by
    intro job attempt hj
    obtain ⟨called, hstage⟩ := stage_of_inFlight hj
    exact (hA.inFlight job attempt called hstage).1.exists_row
  refine ⟨h.ids hI.ids, h.known hI.known hexists, ?_⟩
  generalize hpc : k.pc = pc at h
  cases h with
  | quiet hes =>
      intro row hrow
      obtain ⟨hlife, hattempts, hstatus⟩ := hI.tracked row hrow
      constructor <;> rwa [history_append_of_isAnswer hes]
  | reclaim => exact absurd hpc (hA.notReclaim _ _)
  | @pick now job found rest hfound hid =>
      -- the copy the poller holds is the row itself
      obtain ⟨hmem, hpending, hdue⟩ := hA.waiting job (by simp [hpc, Pc.waiting])
      obtain rfl : found = job := hI.ids.eq hfound hmem hid
      refine Table.forall_mem_updateWhere (fun row hrow hne => ?_) fun row hrow heq => ?_
      · rw [decide_eq_false_iff_not] at hne
        exact (hI.tracked row hrow).cons_ne (decide_eq_true rfl) hne
      · obtain rfl : row = found := hI.ids.eq hrow hmem (by simpa using heq)
        exact (hI.tracked row hrow).pick hpending (hdue.trans (hR.clock now rfl))
  | @invoke now job attempt rest =>
      obtain ⟨-, hstage⟩ := hA.inFlight job attempt false (by rw [hpc]; rfl)
      intro row hrow
      by_cases hid : row.id = job.id
      · rw [← hid] at hstage ⊢
        exact (hI.tracked row hrow).invoke hstage
      · exact (hI.tracked row hrow).cons_ne (by simp [Event.about]) hid
  | @settle now job found attempt outcome rest u hu hfound hid =>
      obtain ⟨hat, hstage⟩ := hA.inFlight job attempt _ (by rw [hpc]; rfl)
      refine Table.forall_mem_updateWhere (fun row hrow hne => ?_) fun row hrow heq => ?_
      · rw [decide_eq_false_iff_not] at hne
        exact (hI.tracked row hrow).cons_ne (decide_eq_true rfl) hne
      · rw [decide_eq_true_eq] at heq
        exact (hI.tracked row hrow).settle heq (hat.all row hrow heq) hstage hu
  | lose => exact hI.tracked
  | @insert now req id created hkey hid =>
      intro row hrow
      rcases List.mem_append.mp hrow with hrow | hrow
      · obtain ⟨hlife, hattempts, hstatus⟩ := hI.tracked row hrow
        constructor <;> rwa [history_cons_ne rfl, history_cons_ne rfl]
      · -- a new id has no history
        obtain rfl := List.mem_singleton.mp hrow
        have hempty : history id (.returned req (newJob cfg req now id created) ::
            .inserted (newJob cfg req now id created) :: s.log) = [] := by
          rw [history_cons_ne rfl, history_cons_ne rfl, hI.known id hid]
        constructor
        · exact hempty ▸ .nil
        · exact hempty ▸ rfl
        · exact hempty ▸ rfl

/-! ## What the poller knows -/

/-- An `enqueue` call holds no job. -/
theorem pollClaims_of_request {req : EnqueueRequest Payload} (h : k.pc.request = some req) :
    PollClaims s k := by
  obtain ⟨p, pc⟩ := k
  cases pc <;> cases h <;> constructor <;> simp [Pc.waiting, Pc.held, Pc.stage]

/-- A waiting job stays as it is when another one is updated. -/
theorem mem_updateWhere_of_ne {job : RetryJob Payload} {id : JobId} {u : JobUpdate}
    {now : Timestamp} (h : job ∈ s.rows) (hne : job.id ≠ id) :
    job ∈ Table.updateWhere (·.id = id) (u.apply now) s.rows :=
  Table.mem_updateWhere.mpr ⟨job, h, by simp [hne]⟩

/-- The due jobs of a select stand in the table, are due, and are distinct. -/
theorem DueJobs.spec {concurrency : ℕ} {now : Timestamp} {due : List (RetryJob Payload)}
    (h : DueJobs concurrency now s.rows due) (hids : Table.Unique (·.id) s.rows) :
    (∀ job ∈ due, job ∈ s.rows ∧ job.status = .pending ∧ job.nextAttemptAt ≤ now) ∧
      (due.map (·.id)).Nodup := by
  obtain ⟨sorted, hperm, -, rfl⟩ := h
  refine ⟨fun job hjob => ?_, ?_⟩
  · have hmem := List.mem_filter.mp (hperm.mem_iff.mp (List.mem_of_mem_take hjob))
    refine ⟨hmem.1, ?_⟩
    simpa only [isDue, Bool.decide_and, Bool.and_eq_true, decide_eq_true_eq] using hmem.2
  · have hfilter : ((s.rows.filter (isDue now)).map (·.id)).Nodup :=
      hids.sublist (List.filter_sublist.map _)
    have hsorted : (sorted.map (·.id)).Nodup := (hperm.map _).nodup_iff.mpr hfilter
    exact hsorted.sublist ((List.take_sublist _ _).map _)

/-- The loop goes on with jobs that stand in the table, are due, and are distinct. -/
theorem pollClaims_processNext {p : ProcessId} {pc : Pc Payload} {jobs : List (RetryJob Payload)}
    (hpc : pc ∈ processNext jobs)
    (hjobs : ∀ job ∈ jobs, job ∈ s.rows ∧ job.status = .pending ∧ job.nextAttemptAt ≤ s.clock)
    (hdistinct : (jobs.map (·.id)).Nodup) : PollClaims s ⟨p, pc⟩ := by
  cases jobs with
  | nil => cases hpc
  | cons job rest =>
      cases hpc
      constructor
      · simp
      · simp
      · exact hjobs
      · exact hdistinct
      · intro job' attempt called hstage
        cases hstage

/-- A call in the middle of an attempt knows about the job of the attempt and about those behind it. -/
theorem pollClaims_of_stage {p : ProcessId} {pc : Pc Payload} {job : RetryJob Payload} {attempt : ℕ}
    {called : Bool} (hstage : pc.stage = some (job, attempt, called))
    (hwaiting : ∀ job ∈ pc.waiting, job ∈ s.rows ∧ job.status = .pending ∧
      job.nextAttemptAt ≤ s.clock)
    (hdistinct : (job.id :: pc.waiting.map (·.id)).Nodup)
    (hat : Table.At (·.id) job.id (·.maxAttempts = job.maxAttempts) s.rows)
    (hlog : AtStage s.log job.id attempt called) : PollClaims s ⟨p, pc⟩ where
  notManual := by
    rintro id rfl
    cases hstage
  notReclaim := by
    rintro job rest rfl
    cases hstage
  waiting := hwaiting
  distinct := by
    rw [Pc.held, hstage]
    exact hdistinct
  inFlight := by
    intro job' attempt' called' hstage'
    cases hstage.symm.trans hstage'
    exact ⟨hat, hlog⟩

/-- A step of the poller hands on what it knows, if no job is in `processing` unless the poller has it
in flight. -/
theorem PollClaims.own {s' : Store Payload} {nextTask : Option (Task Payload)} {k' : Task Payload}
    (hI : CleanInv cfg s.rows s.log) (hA : PollClaims s k) (hR : CleanReady cfg s a k.pc)
    (hidle : k.pc.inFlight = none → k.pc.request = none → ∀ row ∈ s.rows, row.status ≠ .processing)
    (h : Act cfg a s k s' nextTask) (hk' : k' ∈ nextTask) : PollClaims s' k' := by
  cases h with
  | dbError => exact absurd rfl hR.noError
  | @call now p pc s s' next h =>
      obtain ⟨pc', hpc', rfl⟩ := Option.map_eq_some_iff.mp hk'
      have hclock := hR.clock now rfl
      have hwaiting : ∀ job ∈ pc.waiting, job ∈ s.rows ∧ job.status = .pending ∧
          job.nextAttemptAt ≤ now := fun job hjob =>
        ⟨(hA.waiting job hjob).1, (hA.waiting job hjob).2.1, (hA.waiting job hjob).2.2.trans hclock⟩
      have hdistinct := hA.distinct
      cases h with
      | @selectStale before stale _ hperm =>
          -- nothing is in processing, so nothing is stale
          have hnone : s.rows.filter (isStale before) = [] := by
            refine List.filter_eq_nil_iff.mpr fun row hrow => ?_
            simp [isStale, hidle rfl rfl row hrow]
          rw [hnone] at hperm
          obtain rfl := hperm.eq_nil
          cases hpc'
          constructor <;> simp [reclaimNext, Pc.waiting, Pc.held, Pc.stage]
      | selectDue hdue =>
          obtain ⟨hjobs, hnodup⟩ := hdue.spec hI.ids
          exact pollClaims_processNext hpc' hjobs hnodup
      | @pick job found rest hfound =>
          cases hpc'
          obtain ⟨hmem, -, -⟩ := hwaiting job (by simp [Pc.waiting])
          obtain ⟨hne, -⟩ := List.nodup_cons.mp hdistinct
          obtain ⟨-, hfoundid⟩ := getJob_eq_some hfound
          have hat : Table.At (·.id) job.id (·.maxAttempts = job.maxAttempts) s.rows :=
            .of_unique hI.ids hmem rfl
          refine pollClaims_of_stage rfl (fun job' hjob' => ?_) hdistinct ?_
            ⟨found, now, history job.id s.log, ?_, ?_⟩
          · obtain ⟨hmem', hrest⟩ := hwaiting job' (List.mem_cons_of_mem _ hjob')
            refine ⟨mem_updateWhere_of_ne hmem' fun hid => hne ?_, hrest⟩
            exact List.mem_map.mpr ⟨job', hjob', hid⟩
          · exact hat.updateWhere (fun _ _ => rfl) (fun _ _ _ hmax _ => hmax)
              fun _ _ _ hmax _ => hmax
          · exact history_cons_self (by simp [Event.about, hfoundid])
          · rw [(hI.tracked job hmem).attempts]
      | @handlerMissing job attempt rest =>
          cases hpc'
          obtain ⟨hat, hlog⟩ := hA.inFlight job attempt false rfl
          exact pollClaims_of_stage rfl hwaiting hdistinct hat hlog
      | @invoke job attempt rest =>
          cases hpc'
          obtain ⟨hat, -⟩ := hA.inFlight job attempt false rfl
          refine pollClaims_of_stage rfl hwaiting hdistinct hat ⟨history job.id s.log, ?_⟩
          exact history_cons_self (by simp [Event.about])
      | @handlerEnds job attempt outcome rest hne =>
          cases hpc'
          obtain ⟨hat, hlog⟩ := hA.inFlight job attempt true rfl
          refine pollClaims_of_stage rfl hwaiting hdistinct hat ?_
          simpa [hne] using hlog
      | @settle job found attempt outcome rest u =>
          obtain ⟨hne, hrest⟩ := List.nodup_cons.mp hdistinct
          refine pollClaims_processNext hpc' (fun job' hjob' => ?_) hrest
          obtain ⟨hmem', hduejob⟩ := hwaiting job' hjob'
          refine ⟨mem_updateWhere_of_ne hmem' fun hid => hne ?_, hduejob⟩
          exact List.mem_map.mpr ⟨job', hjob', hid⟩
      | reclaim => exact absurd rfl (hA.notReclaim _ _)
      | manualRetry => exact absurd rfl (hA.notManual _)
      | findMiss => cases hpc'; exact pollClaims_of_request rfl
      | insertConflict => cases hpc'; exact pollClaims_of_request rfl
      | _ => cases hpc'

/-- What a step of `enqueue` does to the jobs that are there: nothing. -/
theorem Effect.enqueue {pc : Pc Payload} {req : EnqueueRequest Payload}
    (h : Effect cfg s a pc rows log next) (hreq : pc.request = some req) :
    (rows = s.rows ∨ ∃ row, rows = s.rows ++ [row] ∧ ∀ old ∈ s.rows, old.id ≠ row.id) ∧
      ∀ id, history id log = history id s.log := by
  cases h with
  | quiet hes => exact ⟨.inl rfl, fun id => history_append_of_isAnswer hes⟩
  | insert _ hid =>
      refine ⟨.inr ⟨_, rfl, hid⟩, fun id => ?_⟩
      rw [history_cons_ne rfl, history_cons_ne rfl]
  | _ => cases hreq

/-- A step of `enqueue` leaves alone what the poller knows. -/
theorem PollClaims.other {s' : Store Payload} {nextTask : Option (Task Payload)} {k' : Task Payload}
    {req : EnqueueRequest Payload} (hA' : PollClaims s k') (hreq : k.pc.request = some req)
    (hclock : s.clock ≤ s'.clock) (h : Act cfg a s k s' nextTask) : PollClaims s' k' := by
  obtain ⟨hrows, hhistory⟩ := h.effect.enqueue hreq
  have hsub : s.rows ⊆ s'.rows := by
    rcases hrows with hrows | ⟨row, hrows, -⟩
    · rw [hrows]
      exact List.Subset.refl _
    · rw [hrows]
      exact List.subset_append_left _ _
  refine ⟨hA'.notManual, hA'.notReclaim, fun job hjob => ?_, hA'.distinct, ?_⟩
  · obtain ⟨hmem, hpending, hdue⟩ := hA'.waiting job hjob
    exact ⟨hsub hmem, hpending, hdue.trans hclock⟩
  · intro job attempt called hstage
    obtain ⟨hat, hlog⟩ := hA'.inFlight job attempt called hstage
    refine ⟨?_, ?_⟩
    · rcases hrows with hrows | ⟨row, hrows, hid⟩
      · rw [hrows]
        exact hat
      · rw [hrows]
        exact hat.concat hid
    · cases called <;> simpa only [AtStage, hhistory] using hlog

end Step

/-! ## The result -/

/-- A clean run on which the end of every attempt can be written. -/
abbrev cleanGuard (cfg : RetryQueueConfig) (c : QueueState Payload) (l : QueueStep Payload) : Prop :=
  CleanStep c l ∧ EndsRecordable cfg c l

theorem cleanReady_of_guard {c : QueueState Payload} {t : ThreadId} {a : Action} {k : Task Payload}
    (hguard : cleanGuard cfg c (.act t a)) (hk : c.threads t = some k) :
    CleanReady cfg c.shared a k.pc where
  noError := by
    rintro rfl
    exact hguard.1
  clock := by
    rintro now rfl
    exact hguard.1
  recordable := by
    rintro now job attempt outcome rest rfl hpc
    exact hguard.2 k job attempt outcome rest hk hpc

/-- The clock does not go back. -/
theorem clock_le_of_act {s s' : Store Payload} {a : Action} {k : Task Payload}
    {next : Option (Task Payload)} (hR : CleanReady cfg s a k.pc) (h : Act cfg a s k s' next) :
    s.clock ≤ s'.clock := by
  cases h with
  | call => exact hR.clock _ rfl
  | dbError => exact absurd rfl hR.noError

/-- The thread-modular proof. -/
theorem clean_outline (cfg : RetryQueueConfig) :
    Threads.Outline (τ := ThreadId) (queue Payload cfg)
      (fun c l => cleanGuard cfg c l ∧ Supported (fun _ => False) c)
      (fun s => CleanInv cfg s.rows s.log) PollClaims OnePoll where
  symm := fun _ _ h hk' hk => h hk hk'
  init := by
    rintro s ⟨hrows, hlog, -⟩
    constructor <;> simp [hrows, hlog, Table.Unique, history]
  start := by
    rintro c t ⟨p, pc⟩ ⟨⟨⟨hmanual, hpoll⟩, -⟩, -⟩ hentry -
    refine ⟨?_, fun t' k' hk' hreq => hpoll hreq t' k' hk'⟩
    cases pc with
    | reclaimStaleProcessingJobs => constructor <;> simp [Pc.waiting, Pc.held, Pc.stage]
    | manualRetry id => exact absurd rfl (hmanual id)
    | enqueueFind => exact pollClaims_of_request rfl
    | _ => cases hentry
  own := by
    rintro c t a k s next ⟨hguard, hS⟩ hk hI hA hQ hact
    have hR := cleanReady_of_guard hguard hk
    refine ⟨hI.effect hA hR hact.effect, fun k' hk' => hA.own hI hR ?_ hact hk'⟩
    -- a job in processing is in flight in some poll, and there is no other
    intro hflight hreq row hrow hstatus
    obtain ⟨t', k', job, attempt, hk', hj, -⟩ := (hS row hrow hstatus).resolve_left id
    by_cases ht : t' = t
    · subst ht
      obtain rfl : k = k' := by simpa [hk] using hk'
      simp [hflight] at hj
    · refine hQ t' k' ht hk' hreq ?_
      cases hpc : k'.pc <;> simp_all [Pc.inFlight, Pc.request]
  other := by
    rintro c t a k s next t' k' ⟨hguard, -⟩ hk hne hk' - hA hA' hQ hact
    have hR := cleanReady_of_guard hguard hk
    cases hreq : k.pc.request with
    | some req =>
        refine ⟨hA'.other hreq (clock_le_of_act hR hact) hact, fun k'' hk'' hnone => ?_⟩
        obtain rfl : next = some k'' := hk''
        rw [(hact.enqueue_continues hreq).1] at hnone
        cases hnone
    | none =>
        obtain ⟨req, hreq'⟩ := Option.ne_none_iff_exists'.mp (hQ hreq)
        exact ⟨pollClaims_of_request hreq', fun k'' _ _ => by simp [hreq']⟩
  env := by
    rintro c b s ⟨⟨hclean, -⟩, -⟩ henv hI
    cases henv with
    | registerHandler =>
        exact ⟨hI, fun k _ hA => ⟨hA.notManual, hA.notReclaim, hA.waiting, hA.distinct, hA.inFlight⟩⟩
    | crash => exact hclean.elim

/-- On a clean run a job in `processing` is in flight: no attempt is lost. -/
theorem clean_supported {c c' : QueueState Payload} {l : QueueStep Payload}
    (hS : Supported (fun _ => False) c) (hguard : cleanGuard cfg c l)
    (hstep : (queueSystem Payload cfg).step c l c') : Supported (fun _ => False) c' := by
  refine hS.step hstep ?_ ?_
  · rintro t a k job attempt outcome rest rfl hk hpc (rfl | ⟨now, rfl, hlost⟩) _ _ _
    · exact hguard.1
    · exact hlost (hguard.2 k job attempt outcome rest hk hpc)
  · rintro p t k job attempt rfl
    exact hguard.1.elim

/-- A history of a job's life is correct. -/
theorem JobHistory.correct (hbase : Number.le 0 cfg.baseDelayMs = true) {id : JobId}
    {maxAttempts : ℤ} {h : List (Event Payload)} (hh : JobHistory cfg id maxAttempts h) :
    HistoryCorrect cfg h where
  terminal := hh.pending_before_pick
  due := hh.due
  mono := hh.delays_mono hbase
  capped := hh.delays_capped

/-- A tracked row that is not in processing is correct. -/
theorem Tracked.correct {log : List (Event Payload)} {row : RetryJob Payload}
    (h : Tracked cfg log row) (hidle : row.status ≠ .processing) :
    RowCorrect row (history row.id log) := by
  have hstatus := h.life.status_iff (h.status ▸ hidle)
  rw [← h.status, ← h.attempts, ← attemptLimit_eq_of] at hstatus
  have hbound := h.life.bound.1
  rw [← h.attempts, ← attemptLimit_eq_of] at hbound
  exact ⟨h.attempts, hbound, hstatus.1, hstatus.2, hidle⟩

/-- **Clean runs are correct, when the end of every attempt can be written.** For any jobs with any
`max_attempts`, any maximum delay and any base delay that is not negative. -/
theorem clean_of_recordable (Payload : Type) (cfg : RetryQueueConfig)
    (hbase : Number.le 0 cfg.baseDelayMs = true) :
    CleanCorrect cfg ((queueSystem Payload cfg).restrict (cleanGuard cfg)) := by
  intro c hc row hrow
  obtain ⟨hH, hS⟩ := (clean_outline cfg).holds_and
    (fun c hinit row hrow => by simp [hinit.1.1] at hrow)
    (fun c l c' _ _ hS hguard hstep => clean_supported hS hguard hstep) hc
  have htracked := hH.inv.tracked row hrow
  refine ⟨htracked.life.correct hbase, fun hbetween => htracked.correct fun hstatus => ?_⟩
  obtain ⟨t, k, job, attempt, hk, hj, -⟩ := (hS row hrow hstatus).resolve_left id
  refine hbetween t k hk ?_
  cases hpc : k.pc <;> simp_all [Pc.inFlight, Pc.request]

/-- The default settings meet the condition on the base delay. -/
theorem clean_of_recordable_defaults :
    CleanCorrect retryQueueDefaults
      ((queueSystem Unit retryQueueDefaults).restrict (cleanGuard retryQueueDefaults)) :=
  clean_of_recordable Unit retryQueueDefaults (by decide +kernel)

/-! ## The due date that is none -/

/-- Settings with delays beyond the range of dates. -/
def farDelays : RetryQueueConfig :=
  { retryQueueDefaults with baseDelayMs := 100000000000000000, maxDelayMs := 100000000000000000 }

/-- The first attempt throws, and the due date of the second is no date: the poll ends with the job in
`processing`. -/
theorem clean_fails_on_far_due_date :
    ¬ ∀ cfg : RetryQueueConfig, Number.le 0 cfg.baseDelayMs = true →
      CleanCorrect cfg ((queueSystem Unit cfg).restrict CleanStep) := by
  intro hall
  have hstale : staleBefore farDelays 10 = some (-59990) := by decide +kernel
  have hdue : dueAfter farDelays 1 10 = none := by decide +kernel
  have h₀ : ((queueSystem Unit farDelays).restrict CleanStep).Reachable (emptyQueue Unit) :=
    .init emptyQueue_init
  have h₁ := h₀.guarded (queue_register 0 .paymentExecution) trivial
  have h₂ := h₁.guarded (queue_start 0 0 (.enqueueFind ⟨.paymentExecution, (), "k", none⟩) rfl rfl)
    ⟨by simp, fun h => by cases h⟩
  have h₃ := h₂.guarded (queue_call 0 0 rfl (.findMiss rfl)) (le_refl (0 : ℤ))
  have h₄ := h₃.guarded (queue_call 0 0 rfl (.insert "a" 0 rfl rfl)) (le_refl (0 : ℤ))
  have h₅ := h₄.guarded (queue_start 1 0 .reclaimStaleProcessingJobs rfl rfl)
    ⟨by simp, fun _ t k hk => by by_cases ht : t = 0 <;> simp [ht, emptyQueue] at hk⟩
  have h₆ := h₅.guarded (queue_call 1 10 rfl (.selectStale hstale (.refl _)))
    (show (0 : ℤ) ≤ 10 by decide)
  have h₇ := h₆.guarded (queue_call 1 10 rfl
    (.selectDue ⟨_, .refl _, List.pairwise_singleton _ _, rfl⟩)) (le_refl (10 : ℤ))
  have h₈ := h₇.guarded (queue_call 1 10 rfl (.pick rfl)) (le_refl (10 : ℤ))
  have h₉ := h₈.guarded (queue_call 1 10 rfl (.invoke rfl)) (le_refl (10 : ℤ))
  -- the handler throws, and so does what follows
  have h₁₀ := h₉.guarded
    (queue_call 1 10 rfl (.handlerEnds (show Outcome.threw (some "502") ≠ .noHandler by decide)))
    (le_refl (10 : ℤ))
  have h₁₁ := h₁₀.guarded
    (queue_call 1 10 rfl (.settleInvalid (congrArg (Option.map _) hdue)))
    (le_refl (10 : ℤ))
  have := (hall farDelays (by decide +kernel) _ h₁₁ _ (List.mem_singleton.mpr rfl)).2
    fun t k hk => by
      by_cases ht : t = 1
      · simp [ht] at hk
      · by_cases ht' : t = 0 <;> simp [ht, ht', emptyQueue] at hk
  exact this.idle rfl

end ThalosBackend.RetryQueue
