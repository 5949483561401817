import ThalosBackend.Common.Retry.QueueInvariant

/-!
# The guarantees of the queue in memory

The six guarantees of a state of the queue: one handler at a time, the limit on executions, what a failed
job is, that completed jobs are done, what may be removed, and the backoff. Except for the removal they
are read off the log and the job objects.

They hold of every reachable state as long as limits are whole numbers and what handlers reject with has a
text (`memoryQueue_guarantees`). A rejection without one makes the `catch` block throw after it has counted
the failure: the job stays in `processing`, with its retries used up (`not_memoryQueue_guarantees`).
-/

set_option autoImplicit false

namespace ThalosBackend.Common.Retry

open Js (Number Timestamp)

variable {Payload : Type}

/-- The job whose handler a cycle waits for. -/
def Cycle.handled : Cycle → Option JobRef
  | .next _ => none
  | .handling job _ => some job

/-- The jobs whose handlers run. -/
def QueueState.running (s : QueueState Payload) : List JobRef := s.cycles.filterMap Cycle.handled

/-- The log is newest first: in `newer ++ older`, what is in `newer` came later. -/
structure Guarantees (s : QueueState Payload) : Prop where
  oneHandler : s.running.length ≤ 1
  /-- In a stretch without a retry by hand a job is executed within its limit. -/
  executions : ∀ ref job newer segment older, s.jobs ref = some job →
    s.log = newer ++ segment ++ older → .retried ref ∉ segment →
      Number.le (.finite (segment.countP (isExecution ref))) (Number.max 1 job.maxRetries) = true
  failed : ∀ ref job, s.jobs ref = some job →
    (job.status = .failed ↔ (Number.max 1 job.maxRetries).le (.finite job.retryCount) = true)
  completed : ∀ ref newer older, s.log = newer ++ .completed ref :: older →
    ∀ time, .executed ref time ∉ newer
  /-- Whatever happens next, only completed and failed jobs leave the map. -/
  removed : ∀ a s', QueueStep s a s' → ∀ entry ∈ s.queue, entry ∉ s'.queue →
    ∃ job, s.jobs entry.2 = some job ∧ (job.status = .completed ∨ job.status = .failed)
  /-- After the `k`-th failure since it was new or retried by hand, a job is not executed before
  `2000 * 4 ^ (k - 1)` milliseconds have passed, unless it is retried by hand. -/
  backoff : ∀ ref time failedAt newer between older,
    s.log = newer ++ .executed ref time :: (between ++ .failed ref failedAt :: older) →
      .retried ref ∉ between →
        failedAt + 2000 * 4 ^ (failures ref (.failed ref failedAt :: older) - 1) ≤ time

variable {s s' : QueueState Payload} {a : QueueAction Payload}

/-- What a job leaves the map with. -/
theorem QueueInv.removed (h : QueueInv s) (hstep : QueueStep s a s') {entry : String × JobRef}
    (hentry : entry ∈ s.queue) (hgone : entry ∉ s'.queue) :
    ∃ job, s.jobs entry.2 = some job ∧ (job.status = .completed ∨ job.status = .failed) := by
  -- only `clearCompleted` takes entries out, and of those that have ended
  cases hstep with
  | clearCompleted =>
      obtain ⟨job, hjob, -⟩ := h.entries entry hentry
      refine ⟨job, hjob, ?_⟩
      by_contra hstatus
      refine hgone (List.mem_filter.mpr ⟨hentry, ?_⟩)
      simpa [QueueState.isCleared, hjob] using hstatus
  | enqueue type payload maxRetries hfree =>
      rw [h.queue_enqueue] at hgone
      exact absurd (List.mem_append_left _ hentry) hgone
  | retryJob id =>
      refine absurd ?_ hgone
      unfold QueueState.retryJob
      split
      · exact hentry
      split
      · exact hentry
      split_ifs <;> exact hentry
  | tick =>
      refine absurd ?_ hgone
      unfold QueueState.tick
      split_ifs <;> exact hentry
  | processJob hcycles hjob =>
      refine absurd ?_ hgone
      unfold QueueState.processJob
      split_ifs <;> exact hentry
  | settle outcome =>
      refine absurd ?_ hgone
      unfold QueueState.settleJob
      split <;> exact hentry
  | reject outcome =>
      refine absurd ?_ hgone
      unfold QueueState.settleJob
      split <;> exact hentry
  | _ => exact absurd hentry hgone

theorem QueueInv.running_length (h : QueueInv s) : s.running.length ≤ 1 := by
  have hcycles := h.cycles
  unfold QueueState.running
  cases hprocessing : s.processing with
  | false =>
      rw [hprocessing] at hcycles
      rw [show s.cycles = [] from hcycles]
      exact Nat.zero_le 1
  | true =>
      rw [hprocessing] at hcycles
      obtain ⟨c, hc, -⟩ := hcycles
      rw [hc]
      exact List.length_filterMap_le _ _

/-- **The queue in memory.** In every run with whole limits and with rejections that have a text, the six
guarantees hold of every state. -/
theorem memoryQueue_guarantees (h : (countableQueue Payload).Reachable s) : Guarantees s := by
  have hI := queueInv_of_reachable h
  have hlimit : ∀ ref job, s.jobs ref = some job →
      s.limit ref = some (Number.max 1 job.maxRetries) := by
    intro ref job hjob
    rw [QueueState.limit, hjob]
    rfl
  refine
    { oneHandler := hI.running_length
      executions := fun ref job newer segment older hjob hlog hsegment => ?_
      failed := fun ref job hjob => (hI.job ref job hjob).failed
      completed := fun ref newer older hlog time hmem => ?_
      removed := fun a s' hstep entry hentry hgone => hI.removed hstep hentry hgone
      backoff := fun ref time failedAt newer between older hlog hbetween => ?_ }
  · have hlawful := hI.lawful
    rw [hlog] at hlawful
    exact hlawful.countP_le (hlimit ref job hjob)
      (RetryJob.zero_le_limit (hI.job ref job hjob).whole) hsegment
  · obtain ⟨later, earlier, rfl⟩ := List.append_of_mem hmem
    have hlawful := hI.lawful
    rw [hlog, List.append_assoc] at hlawful
    exact hlawful.executed.2 (by simp)
  · have hlawful := hI.lawful
    rw [hlog] at hlawful
    exact hlawful.executed.1 between failedAt older rfl hbetween

/-- A run in which a handler is called and fails. -/
theorem memoryQueue_guarantees_failure :
    ∃ s : QueueState String, (countableQueue String).Reachable s ∧
      s.log = [.failed 0 1767225600250, .executed 0 1767225600000] ∧ Guarantees s := by
  have hinit : (countableQueue String).Reachable (.initial 1767225600000 0) := .init ⟨_, _, rfl⟩
  have hregistered := hinit.guarded (.registerHandler "milestone_sync") trivial
  have hqueued := hregistered.guarded (.enqueue "milestone_sync" "agreement-1" (some 2)
    (show QueueState.jobs _ 0 = none from rfl)) (by rintro _ ⟨⟩; exact .inr rfl)
  have hticked := hqueued.guarded .tick trivial
  have hexecuted := hticked.guarded
    (.processJob (show _ = [] ++ Cycle.next [0] :: [] from rfl) rfl) trivial
  have hlater := hexecuted.guarded (.elapse 250) trivial
  have htext : (HandlerOutcome.rejection (some "timeout")).error ≠ some none := nofun
  have hfailed := hlater.guarded (.settle (.rejection (some "timeout"))
    (show _ = [] ++ Cycle.handling 0 [] :: [] from rfl) rfl htext) htext
  exact ⟨_, hfailed, rfl, memoryQueue_guarantees hfailed⟩

/-- A job with one retry whose handler rejects with a value without a text stays in `processing`: its
retries are used up, and it is not failed. -/
theorem not_memoryQueue_guarantees :
    ¬ ∀ s : QueueState String, (memoryQueue String).Reachable s → Guarantees s := by
  intro hall
  have hinit : (memoryQueue String).Reachable (.initial 1767225600000 0) := .init ⟨_, _, rfl⟩
  have hregistered := hinit.step (.registerHandler "milestone_sync")
  have hqueued := hregistered.step (.enqueue "milestone_sync" "agreement-1" (some 1)
    (show QueueState.jobs _ 0 = none from rfl))
  have hticked := hqueued.step .tick
  have hexecuted := hticked.step
    (.processJob (show _ = [] ++ Cycle.next [0] :: [] from rfl) rfl)
  have hstuck := hexecuted.step (.reject (.rejection none)
    (show _ = [] ++ Cycle.handling 0 [] :: [] from rfl) rfl rfl)
  have hfailed := (hall _ hstuck).failed 0 _ rfl
  revert hfailed
  decide +kernel

end ThalosBackend.Common.Retry
