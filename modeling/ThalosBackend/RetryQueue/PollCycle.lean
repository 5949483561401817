import ThalosBackend.Library.Aborting
import ThalosBackend.RetryQueue.RetryQueueService

/-!
# One poll cycle, and what it throws

`RetryQueueService` follows the calls over the table; here one call of `processDueJobs` is followed on
its own, with what it throws. Everything it meets is its input: the answers to the two selects, and
for each job how its updates are answered and how its handler ends.

An error of a select is ignored or logged, and an error of a handler ends an attempt. An error of an
update is thrown by `updateJob`, and nothing catches it: not the loop over the stale jobs, not the loop
over the due ones, and not the `try` around the handler, which returns the promise of the update
without awaiting it. A date that is none, and a thrown value without a text, are thrown in the same way.
So a cycle is undisturbed by the failure of a job exactly when all its updates succeed and the end of
every attempt can be written (`contained_iff`).

`callTrace_cycle` connects the two models: a call that polls does what some cycle does.
-/

set_option autoImplicit false

namespace ThalosBackend.RetryQueue

open Js (Timestamp)

variable {Payload : Type}

/-! ## What a cycle meets -/

/-- How an update is answered: with the message of an error, or not. -/
abbrev UpdateReply := Except String Unit

/-- A job the select of stale jobs has found. -/
structure StaleJob (Payload : Type) where
  job : RetryJob Payload
  reclaimed : UpdateReply

/-- A job the select of due jobs has found: how the update that picks it is answered, how its handler
ends and when, and how the update that ends the attempt is answered. -/
structure DueJob (Payload : Type) where
  job : RetryJob Payload
  picked : UpdateReply
  outcome : Outcome
  endsAt : Timestamp
  ended : UpdateReply

/-- What one call of `processDueJobs` meets. -/
structure PollInput (Payload : Type) where
  startsAt : Timestamp
  stale : Except String (List (StaleJob Payload))
  due : Except String (List (DueJob Payload))

/-- What a cycle does to jobs. -/
inductive CycleEvent where
  | updated (id : JobId) (u : JobUpdate)
  | invoked (id : JobId) (attempt : ℕ)
  deriving DecidableEq

/-- A part of a cycle. -/
abbrev CyclePart := Aborting String CycleEvent

/-! ## The cycle -/

/-- `updateJob(id, updates)`. -/
def updateJob (id : JobId) (u : JobUpdate) : UpdateReply → CyclePart
  | .ok _ => .did (.updated id u)
  | .error message => .throw ("Failed to update retry job " ++ id ++ ": " ++ message)

/-- What `toISOString` throws. -/
def invalidDate : CyclePart := .throw "Invalid time value"

/-- `reclaimStaleProcessingJobs()`. -/
def reclaimStaleProcessingJobs (cfg : RetryQueueConfig) (now : Timestamp)
    (stale : Except String (List (StaleJob Payload))) : CyclePart :=
  match staleBefore cfg now with
  | none => invalidDate
  | some _ =>
    match stale with
    | .error _ => .skip
    | .ok stale => .each (fun s => updateJob s.job.id reclaimUpdate s.reclaimed) stale

/-- The call of the handler, when there is one. -/
def runHandler (d : DueJob Payload) (attempt : ℕ) : CyclePart :=
  if d.outcome = .noHandler then .skip else .did (.invoked d.job.id attempt)

/-- What `String` throws of an object without a prototype. -/
def noText : CyclePart := .throw "Cannot convert object to primitive value"

/-- The end of an attempt. -/
def endAttempt (cfg : RetryQueueConfig) (d : DueJob Payload) (attempt : ℕ) : CyclePart :=
  match settlement cfg d.job attempt d.endsAt d.outcome with
  | none => if d.outcome = .threw none then noText else invalidDate
  | some u => updateJob d.job.id u d.ended

/-- `processJob(job)`. -/
def processJob (cfg : RetryQueueConfig) (d : DueJob Payload) : CyclePart :=
  let attempt := d.job.attempts + 1
  (updateJob d.job.id (pickUpdate attempt) d.picked).andThen
    ((runHandler d attempt).andThen (endAttempt cfg d attempt))

/-- What `processDueJobs` does with the due jobs. An error of the select is logged. -/
def processSelected (cfg : RetryQueueConfig) : Except String (List (DueJob Payload)) → CyclePart
  | .error _ => .skip
  | .ok due => .each (processJob cfg) due

/-- `processDueJobs()`. -/
def processDueJobs (cfg : RetryQueueConfig) (input : PollInput Payload) : CyclePart :=
  (reclaimStaleProcessingJobs cfg input.startsAt input.stale).andThen
    (processSelected cfg input.due)

/-! ## What is thrown -/

section Thrown

variable {cfg : RetryQueueConfig} {d : DueJob Payload}

theorem thrown_updateJob {id : JobId} {u : JobUpdate} {reply : UpdateReply} :
    (updateJob id u reply).thrown = none ↔ reply = .ok () := by
  cases reply with
  | error message => simp [updateJob, Aborting.throw]
  | ok _ => simp [updateJob, Aborting.did]

theorem thrown_runHandler (attempt : ℕ) : (runHandler d attempt).thrown = none := by
  unfold runHandler
  split <;> rfl

theorem thrown_endAttempt {attempt : ℕ} : (endAttempt cfg d attempt).thrown = none ↔
    Recordable cfg d.job attempt d.endsAt d.outcome ∧ d.ended = .ok () := by
  rw [← settlement_ne_none_iff]
  unfold endAttempt
  split
  · rename_i hnone
    split <;> simp [noText, invalidDate, Aborting.throw, hnone]
  · rename_i u hu
    simp [thrown_updateJob, hu]

/-- The updates of the job succeed, what its handler threw has a text, and the due date of its next
attempt is a date. -/
structure DueJob.Undisturbed (cfg : RetryQueueConfig) (d : DueJob Payload) : Prop where
  picked : d.picked = .ok ()
  recordable : Recordable cfg d.job (d.job.attempts + 1) d.endsAt d.outcome
  ended : d.ended = .ok ()

theorem thrown_processJob : (processJob cfg d).thrown = none ↔ d.Undisturbed cfg := by
  rw [processJob, Aborting.thrown_andThen, Aborting.thrown_andThen, thrown_updateJob,
    thrown_endAttempt]
  constructor
  · rintro ⟨hpicked, -, hends, hended⟩
    exact ⟨hpicked, hends, hended⟩
  · intro h
    exact ⟨h.picked, thrown_runHandler _, h.recordable, h.ended⟩

/-- Every update the cycle makes succeeds, every date it computes is one, and whatever its handlers
throw has a text. -/
structure Undisturbed (cfg : RetryQueueConfig) (input : PollInput Payload) : Prop where
  dated : staleBefore cfg input.startsAt ≠ none
  reclaimed : ∀ stale, input.stale = .ok stale → ∀ s ∈ stale, s.reclaimed = .ok ()
  processed : ∀ due, input.due = .ok due → ∀ d ∈ due, d.Undisturbed cfg

theorem thrown_reclaim {now : Timestamp} {stale : Except String (List (StaleJob Payload))} :
    (reclaimStaleProcessingJobs cfg now stale).thrown = none ↔ staleBefore cfg now ≠ none ∧
      ∀ jobs, stale = .ok jobs → ∀ s ∈ jobs, s.reclaimed = .ok () := by
  unfold reclaimStaleProcessingJobs
  cases staleBefore cfg now with
  | none => simp [invalidDate, Aborting.throw]
  | some before =>
      cases stale with
      | error message => simp [Aborting.skip]
      | ok jobs => simp [Aborting.thrown_each, thrown_updateJob]

theorem thrown_processSelected {due : Except String (List (DueJob Payload))} :
    (processSelected cfg due).thrown = none ↔
      ∀ jobs, due = .ok jobs → ∀ d ∈ jobs, d.Undisturbed cfg := by
  cases due with
  | error message => simp [processSelected, Aborting.skip]
  | ok jobs => simp [processSelected, Aborting.thrown_each, thrown_processJob]

/-- **When a cycle does not reject.** -/
theorem thrown_processDueJobs {input : PollInput Payload} :
    (processDueJobs cfg input).thrown = none ↔ Undisturbed cfg input := by
  rw [processDueJobs, Aborting.thrown_andThen, thrown_reclaim, thrown_processSelected]
  constructor
  · rintro ⟨⟨hdated, hreclaimed⟩, hprocessed⟩
    exact ⟨hdated, hreclaimed, hprocessed⟩
  · intro h
    exact ⟨⟨h.dated, h.reclaimed⟩, h.processed⟩

end Thrown

/-! ## What is executed -/

/-- The job is executed: its handler is called, or it is marked failed for want of one. -/
def Executed (cfg : RetryQueueConfig) (events : List CycleEvent) (d : DueJob Payload) : Prop :=
  if d.outcome = .noHandler then
    ∃ u, settlement cfg d.job (d.job.attempts + 1) d.endsAt .noHandler = some u ∧
      .updated d.job.id u ∈ events
  else .invoked d.job.id (d.job.attempts + 1) ∈ events

/-- One job's failure does not stop the others: the cycle does not reject, and every job of the batch
whose own updates succeed is executed. -/
structure Contained (cfg : RetryQueueConfig) (input : PollInput Payload) : Prop where
  returns : (processDueJobs cfg input).thrown = none
  executes : ∀ due, input.due = .ok due → ∀ d ∈ due, d.picked = .ok () → d.ended = .ok () →
    Executed cfg (processDueJobs cfg input).done d

section Executed

variable {cfg : RetryQueueConfig} {d : DueJob Payload}

/-- A job whose updates succeed is executed when it is its turn. -/
theorem executed_processJob (hpicked : d.picked = .ok ()) (hended : d.ended = .ok ()) :
    Executed cfg (processJob cfg d).done d := by
  have hpick : updateJob d.job.id (pickUpdate (d.job.attempts + 1)) d.picked =
      .did (.updated d.job.id (pickUpdate (d.job.attempts + 1))) := by rw [hpicked]; rfl
  unfold Executed
  rw [processJob, hpick, Aborting.done_did_andThen]
  split
  · rename_i hnone
    have hrun : runHandler d (d.job.attempts + 1) = .skip := if_pos hnone
    refine ⟨_, rfl, List.mem_cons_of_mem _ ?_⟩
    rw [hrun, Aborting.skip_andThen, endAttempt, hnone, settlement, hended]
    exact List.mem_singleton_self _
  · rename_i hsome
    have hrun : runHandler d (d.job.attempts + 1) =
        .did (.invoked d.job.id (d.job.attempts + 1)) := if_neg hsome
    rw [hrun, Aborting.done_did_andThen]
    exact List.mem_cons_of_mem _ List.mem_cons_self

theorem Executed.mono {events events' : List CycleEvent} (h : Executed cfg events d)
    (hsub : events ⊆ events') : Executed cfg events' d := by
  unfold Executed at h ⊢
  split
  · rename_i hnone
    rw [if_pos hnone] at h
    obtain ⟨u, hu, hmem⟩ := h
    exact ⟨u, hu, hsub hmem⟩
  · rename_i hsome
    rw [if_neg hsome] at h
    exact hsub h

/-- A cycle that returns has executed its jobs. -/
theorem executed_processDueJobs {input : PollInput Payload}
    (hreturns : (processDueJobs cfg input).thrown = none) {due : List (DueJob Payload)}
    (hdue : input.due = .ok due) (hd : d ∈ due) :
    Executed cfg (processDueJobs cfg input).done d := by
  have hundisturbed := thrown_processDueJobs.mp hreturns
  have hjobs := hundisturbed.processed due hdue
  refine (executed_processJob (hjobs d hd).picked (hjobs d hd).ended).mono fun o ho => ?_
  obtain ⟨hreclaim, -⟩ := Aborting.thrown_andThen.mp hreturns
  rw [processDueJobs, Aborting.andThen_of_returns hreclaim, hdue]
  refine List.mem_append_right _ ?_
  exact (Aborting.mem_done_each fun d hd => thrown_processJob.mpr (hjobs d hd)).mpr ⟨d, hd, ho⟩

end Executed

/-- **One job's failure does not stop the others** exactly when every update of the cycle is made and
succeeds: handlers may fail as they like, as long as what they throw has a text. -/
theorem contained_iff (cfg : RetryQueueConfig) (input : PollInput Payload) :
    Contained cfg input ↔ Undisturbed cfg input := by
  rw [← thrown_processDueJobs]
  constructor
  · exact Contained.returns
  · intro hreturns
    exact ⟨hreturns, fun due hdue d hd _ _ => executed_processDueJobs hreturns hdue hd⟩

/-- After the first job that is disturbed, no job is executed. -/
theorem processSelected_stops {cfg : RetryQueueConfig} {before after : List (DueJob Payload)}
    {d : DueJob Payload} (hbefore : ∀ b ∈ before, b.Undisturbed cfg) (hd : ¬ d.Undisturbed cfg) :
    processSelected cfg (.ok (before ++ d :: after)) =
      (Aborting.each (processJob cfg) before).andThen (processJob cfg d) := by
  obtain ⟨e, he⟩ := Option.ne_none_iff_exists'.mp fun h => hd (thrown_processJob.mp h)
  exact Aborting.each_append_cons_of_throws (fun b hb => thrown_processJob.mpr (hbefore b hb)) he
    after

/-! ## Two due jobs -/

/-- A due job whose handler returns. -/
def dueJob (id : JobId) (picked : UpdateReply) : DueJob Unit where
  job := newJob retryQueueDefaults ⟨.paymentExecution, (), id, none⟩ 0 id 0
  picked
  outcome := .resolved
  endsAt := 0
  ended := .ok ()

/-- The update that picks the first of two due jobs is answered with an error. -/
def interruptedPoll : PollInput Unit where
  startsAt := 100000
  stale := .ok []
  due := .ok [dueJob "a" (.error "timeout"), dueJob "b" (.ok ())]

/-- The poll rejects, and the second job is not executed. -/
theorem not_contained : ¬ ∀ (cfg : RetryQueueConfig) (input : PollInput Unit),
    Contained cfg input := by
  intro h
  have hreturns := (h retryQueueDefaults interruptedPoll).returns
  have hpicked := ((thrown_processDueJobs.mp hreturns).processed _ rfl _ List.mem_cons_self).picked
  cases hpicked

/-! ## The calls over the table -/

/-- What a step of a call does to jobs. -/
def eventsOf (cfg : RetryQueueConfig) (s : Store Payload) (k : Task Payload) :
    Action → List CycleEvent
  | .dbError => []
  | .call now =>
    match k.pc with
    | .reclaim job _ =>
      if (s.getJob job.id).isSome then [.updated job.id reclaimUpdate] else []
    | .processJob job _ =>
      if (s.getJob job.id).isSome then [.updated job.id (pickUpdate (job.attempts + 1))] else []
    | .lookUpHandler job attempt _ =>
      if s.handlers k.process job.jobType then [.invoked job.id attempt] else []
    | .settle job attempt outcome _ =>
      match settlement cfg job attempt now outcome with
      | some u => if (s.getJob job.id).isSome then [.updated job.id u] else []
      | none => []
    | _ => []

/-- What a call does from a position to its end, whatever happens to the table between its steps. -/
inductive CallTrace (cfg : RetryQueueConfig) (p : ProcessId) :
    Pc Payload → List CycleEvent → Prop where
  | ends {a : Action} {s s' : Store Payload} {pc : Pc Payload} :
      Act cfg a s ⟨p, pc⟩ s' none → CallTrace cfg p pc (eventsOf cfg s ⟨p, pc⟩ a)
  | goesOn {a : Action} {s s' : Store Payload} {pc pc' : Pc Payload} {es : List CycleEvent} :
      Act cfg a s ⟨p, pc⟩ s' (some ⟨p, pc'⟩) → CallTrace cfg p pc' es →
      CallTrace cfg p pc (eventsOf cfg s ⟨p, pc⟩ a ++ es)

/-- The loop over the jobs that are left does this. -/
def Processes (cfg : RetryQueueConfig) (jobs : List (RetryJob Payload)) (es : List CycleEvent) :
    Prop :=
  ∃ due : List (DueJob Payload), due.map DueJob.job = jobs ∧
    (Aborting.each (processJob cfg) due).done = es

/-- The end of an attempt with this outcome, and the jobs after it, do this. -/
def Ends (cfg : RetryQueueConfig) (job : RetryJob Payload) (attempt : ℕ) (outcome : Outcome)
    (rest : List (RetryJob Payload)) (es : List CycleEvent) : Prop :=
  ∃ (d : DueJob Payload) (due : List (DueJob Payload)), d.job = job ∧ d.outcome = outcome ∧
    due.map DueJob.job = rest ∧
    ((endAttempt cfg d attempt).andThen (.each (processJob cfg) due)).done = es

/-- What a cycle does from the position of a call, on some input. -/
def Resumes (cfg : RetryQueueConfig) : Pc Payload → List CycleEvent → Prop
  | .reclaimStaleProcessingJobs, es =>
      ∃ input : PollInput Payload, (processDueJobs cfg input).done = es
  | .reclaim job rest, es => ∃ (stale : List (StaleJob Payload))
      (due : Except String (List (DueJob Payload))), stale.map StaleJob.job = job :: rest ∧
        ((Aborting.each (fun s => updateJob s.job.id reclaimUpdate s.reclaimed) stale).andThen
          (processSelected cfg due)).done = es
  | .selectDueJobs, es => ∃ due : Except String (List (DueJob Payload)),
      (processSelected cfg due).done = es
  | .processJob job rest, es => Processes cfg (job :: rest) es
  | .lookUpHandler job attempt rest, es => attempt = job.attempts + 1 →
      Ends cfg job attempt .noHandler rest es ∨
        ∃ outcome es', outcome ≠ .noHandler ∧ es = .invoked job.id attempt :: es' ∧
          Ends cfg job attempt outcome rest es'
  | .runHandler job attempt rest, es => ∃ outcome, outcome ≠ .noHandler ∧
      Ends cfg job attempt outcome rest es
  | .settle job attempt outcome rest, es => Ends cfg job attempt outcome rest es
  | _, _ => True

/-- What is done after a step: nothing when the call has ended. -/
def ResumesAfter (cfg : RetryQueueConfig) (next : Option (Pc Payload)) (es : List CycleEvent) :
    Prop :=
  (next = none → es = []) ∧ ∀ pc ∈ next, Resumes cfg pc es

section Resumes

variable {cfg : RetryQueueConfig} {job : RetryJob Payload} {rest : List (RetryJob Payload)}
  {es : List CycleEvent}

/-- Inputs for jobs whose turn never comes. -/
def unattended (jobs : List (RetryJob Payload)) : List (DueJob Payload) :=
  jobs.map fun job => ⟨job, .ok (), .resolved, 0, .ok ()⟩

theorem map_job_unattended (jobs : List (RetryJob Payload)) :
    (unattended jobs).map DueJob.job = jobs := by
  simp [unattended, Function.comp_def]

theorem processes_of_after (h : ResumesAfter cfg (processNext rest) es) :
    Processes cfg rest es := by
  cases rest with
  | nil =>
      obtain rfl := h.1 rfl
      exact ⟨[], rfl, rfl⟩
  | cons job rest => exact h.2 _ rfl

theorem reclaims_of_resumes (h : Resumes cfg (reclaimNext rest) es) :
    ∃ (stale : List (StaleJob Payload)) (due : Except String (List (DueJob Payload))),
      stale.map StaleJob.job = rest ∧
        ((Aborting.each (fun s => updateJob s.job.id reclaimUpdate s.reclaimed) stale).andThen
          (processSelected cfg due)).done = es := by
  cases rest with
  | nil =>
      obtain ⟨due, hdue⟩ := h
      exact ⟨[], due, rfl, hdue⟩
  | cons job rest => exact h

/-- An attempt whose end is not written ends the cycle. -/
theorem ends_lost (attempt : ℕ) (outcome : Outcome) : Ends cfg job attempt outcome rest [] := by
  refine ⟨⟨job, .ok (), outcome, 0, .error ""⟩, unattended rest, rfl, rfl,
    map_job_unattended rest, ?_⟩
  unfold endAttempt
  split
  · split <;> rfl
  · rfl

/-- A call whose update fails has done nothing since. -/
theorem resumes_lost {pc : Pc Payload} (h : pc.updates ≠ none) : Resumes cfg pc [] := by
  cases pc with
  | reclaim job rest =>
      exact ⟨⟨job, .error ""⟩ :: rest.map (⟨·, .ok ()⟩), .ok [], by simp [Function.comp_def], rfl⟩
  | processJob job rest =>
      exact ⟨⟨job, .error "", .resolved, 0, .ok ()⟩ :: unattended rest,
        congrArg (job :: ·) (map_job_unattended rest), rfl⟩
  | settle job attempt outcome rest => exact ends_lost attempt outcome
  | _ => exact absurd rfl h

/-- The job is picked, and its attempt goes on. -/
theorem Ends.picked {outcome : Outcome}
    (h : Ends cfg job (job.attempts + 1) outcome rest es) :
    Processes cfg (job :: rest) (.updated job.id (pickUpdate (job.attempts + 1)) ::
      if outcome = .noHandler then es else .invoked job.id (job.attempts + 1) :: es) := by
  obtain ⟨d, due, rfl, rfl, hdue, hdone⟩ := h
  refine ⟨{ d with picked := .ok () } :: due, congrArg (d.job :: ·) hdue, ?_⟩
  have hend : endAttempt cfg { d with picked := .ok () } (d.job.attempts + 1) =
      endAttempt cfg d (d.job.attempts + 1) := rfl
  rw [Aborting.each_cons, processJob, updateJob, Aborting.andThen_assoc, Aborting.done_did_andThen,
    Aborting.andThen_assoc, hend, runHandler]
  split
  · rw [Aborting.skip_andThen, hdone]
  · rw [Aborting.done_did_andThen, hdone]

/-- An update of a row that is gone does nothing. -/
theorem eventsOf_rowMissing {now : Timestamp} {p : ProcessId} {pc : Pc Payload} {s : Store Payload}
    {id : JobId} (hpc : pc.updates = some id) (hrow : s.getJob id = none) :
    eventsOf cfg s ⟨p, pc⟩ (.call now) = [] := by
  cases pc with
  | reclaim job rest =>
      obtain rfl : job.id = id := Option.some.inj hpc
      simp [eventsOf, hrow]
  | processJob job rest =>
      obtain rfl : job.id = id := Option.some.inj hpc
      simp [eventsOf, hrow]
  | settle job attempt outcome rest =>
      obtain rfl : job.id = id := Option.some.inj hpc
      cases hu : settlement cfg job attempt now outcome with
      | none => simp [eventsOf, hu]
      | some u => simp [eventsOf, hu, hrow]
  | _ => cases hpc

/-- A step of a call is one of the cycle. -/
theorem Call.resumes {now : Timestamp} {p : ProcessId} {pc : Pc Payload} {s s' : Store Payload}
    {next : Option (Pc Payload)} (hstep : Call cfg now p s pc s' next)
    (h : ResumesAfter cfg next es) :
    Resumes cfg pc (eventsOf cfg s ⟨p, pc⟩ (.call now) ++ es) := by
  cases hstep with
  | selectStale hbefore _ =>
      obtain ⟨stale, due, -, hdone⟩ := reclaims_of_resumes (h.2 _ rfl)
      refine ⟨⟨now, .ok stale, due⟩, ?_⟩
      rw [processDueJobs, reclaimStaleProcessingJobs, hbefore]
      exact hdone
  | selectStaleInvalid hbefore =>
      obtain rfl := h.1 rfl
      refine ⟨⟨now, .ok [], .ok []⟩, ?_⟩
      rw [processDueJobs, reclaimStaleProcessingJobs, hbefore]
      rfl
  | @reclaim job row rest hrow =>
      obtain ⟨stale, due, hstale, hdone⟩ := reclaims_of_resumes (h.2 _ rfl)
      refine ⟨⟨job, .ok ()⟩ :: stale, due, congrArg (job :: ·) hstale, ?_⟩
      rw [Aborting.each_cons, updateJob, Aborting.andThen_assoc, Aborting.done_did_andThen, hdone]
      simp [eventsOf, hrow]
  | selectDue _ =>
      obtain ⟨due, -, hdone⟩ := processes_of_after h
      exact ⟨.ok due, hdone⟩
  | @pick job row rest hrow =>
      have hevents : eventsOf cfg s ⟨p, .processJob job rest⟩ (.call now) =
          [.updated job.id (pickUpdate (job.attempts + 1))] := by
        simp [eventsOf, hrow]
      rw [hevents, List.singleton_append]
      -- the attempt ends with a handler or for want of one, and its end picks the outcome of the input
      rcases h.2 _ rfl rfl with hmissing | ⟨outcome, es', hsome, rfl, hends⟩
      · have hdone := hmissing.picked
        rw [if_pos rfl] at hdone
        exact hdone
      · have hdone := hends.picked
        rw [if_neg hsome] at hdone
        exact hdone
  | @handlerMissing job attempt rest hhandler =>
      intro hattempt
      have hnothing : eventsOf cfg s ⟨p, .lookUpHandler job attempt rest⟩ (.call now) = [] := by
        simp [eventsOf, hhandler]
      rw [hnothing]
      exact .inl (h.2 _ rfl)
  | @invoke job attempt rest hhandler =>
      intro hattempt
      obtain ⟨outcome, hsome, hends⟩ := h.2 _ rfl
      exact .inr ⟨outcome, es, hsome, by simp [eventsOf, hhandler], hends⟩
  | @handlerEnds job attempt outcome rest hsome => exact ⟨outcome, hsome, h.2 _ rfl⟩
  | @settle job row attempt outcome rest u hu hrow =>
      -- the clock of the step is the one the input reads at the end of the attempt
      obtain ⟨due, hdue, hdone⟩ := processes_of_after h
      refine ⟨⟨job, .ok (), outcome, now, .ok ()⟩, due, rfl, rfl, hdue, ?_⟩
      have hend : endAttempt cfg ⟨job, .ok (), outcome, now, .ok ()⟩ attempt =
          .did (.updated job.id u) := by
        rw [endAttempt, hu]
        rfl
      rw [hend, Aborting.done_did_andThen, hdone]
      simp [eventsOf, hu, hrow]
  | @settleInvalid job attempt outcome rest hu =>
      obtain rfl := h.1 rfl
      have hnothing : eventsOf cfg s ⟨p, .settle job attempt outcome rest⟩ (.call now) = [] := by
        simp [eventsOf, hu]
      rw [hnothing]
      exact ends_lost attempt outcome
  | @rowMissing pc id hpc hrow =>
      obtain rfl := h.1 rfl
      rw [eventsOf_rowMissing hpc hrow]
      exact resumes_lost (by rw [hpc]; exact Option.some_ne_none id)
  | _ => trivial

/-- An error of the database is an answer of an input. -/
theorem resumes_of_dbError (hcfg : ∃ now, staleBefore cfg now ≠ none) {s s' : Store Payload}
    {pc : Pc Payload} {next : Option (Pc Payload)} (hstep : onDbError s pc = some (s', next))
    (h : ResumesAfter cfg next es) : Resumes cfg pc es := by
  cases pc with
  | reclaimStaleProcessingJobs =>
      cases hstep
      obtain ⟨now, hnow⟩ := hcfg
      obtain ⟨before, hbefore⟩ := Option.ne_none_iff_exists'.mp hnow
      obtain ⟨due, hdue⟩ := h.2 _ rfl
      refine ⟨⟨now, .error "", due⟩, ?_⟩
      rw [processDueJobs, reclaimStaleProcessingJobs, hbefore]
      exact hdue
  | selectDueJobs =>
      cases hstep
      obtain rfl := h.1 rfl
      exact ⟨.error "", rfl⟩
  | reclaim job rest =>
      cases hstep
      obtain rfl := h.1 rfl
      exact resumes_lost (Option.some_ne_none _)
  | processJob job rest =>
      cases hstep
      obtain rfl := h.1 rfl
      exact resumes_lost (Option.some_ne_none _)
  | settle job attempt outcome rest =>
      cases hstep
      obtain rfl := h.1 rfl
      exact ends_lost attempt outcome
  | lookUpHandler job attempt rest => cases hstep
  | runHandler job attempt rest => cases hstep
  | _ => trivial

theorem Act.resumes (hcfg : ∃ now, staleBefore cfg now ≠ none) {a : Action} {p : ProcessId}
    {pc : Pc Payload} {s s' : Store Payload} {next : Option (Task Payload)}
    (hstep : Act cfg a s ⟨p, pc⟩ s' next) (hended : next = none → es = [])
    (hgoesOn : ∀ k ∈ next, Resumes cfg k.pc es) :
    Resumes cfg pc (eventsOf cfg s ⟨p, pc⟩ a ++ es) := by
  cases hstep with
  | call hcall =>
      refine hcall.resumes ⟨fun hnone => hended (by rw [hnone]; rfl), fun pc' hpc' => ?_⟩
      exact hgoesOn ⟨p, pc'⟩ (by rw [hpc']; rfl)
  | dbError hcall =>
      refine resumes_of_dbError hcfg hcall
        ⟨fun hnone => hended (by rw [hnone]; rfl), fun pc' hpc' => ?_⟩
      exact hgoesOn ⟨p, pc'⟩ (by rw [hpc']; rfl)

end Resumes

/-- **A call that polls does what a cycle does**, on some input. -/
theorem callTrace_cycle {cfg : RetryQueueConfig} (hcfg : ∃ now, staleBefore cfg now ≠ none)
    {p : ProcessId} {es : List CycleEvent}
    (h : CallTrace cfg p (Pc.reclaimStaleProcessingJobs : Pc Payload) es) :
    ∃ input : PollInput Payload, (processDueJobs cfg input).done = es := by
  have hresumes : ∀ {pc : Pc Payload} {es : List CycleEvent}, CallTrace cfg p pc es →
      Resumes cfg pc es := by
    intro pc es h
    induction h with
    | ends hstep =>
        -- the last step is one with nothing after it
        have hend : Resumes cfg _ (_ ++ []) := Act.resumes hcfg hstep (fun _ => rfl) (by simp)
        rwa [List.append_nil] at hend
    | goesOn hstep _ ih =>
        refine Act.resumes hcfg hstep nofun fun k hk => ?_
        cases hk
        exact ih
  exact hresumes h

end ThalosBackend.RetryQueue
