import ThalosBackend.RetryQueue.StepFacts

/-!
# When a job was completed

A job that has succeeded or failed should tell when, and no other job should. Every write that ends a
job sets the time with the status. The writes that set another status (an update that picks a job, the
stale reclaim, the end of an attempt that failed and is tried again) leave the time alone, and none of
them looks at the row again: not the manual retry of a failed job, and not a poll that has read the job
before another call has finished it.

So the times agree with the statuses in every run in which such a write never meets a finished job, and
one that does breaks the agreement (`completion_times`).
-/

set_option autoImplicit false

namespace ThalosBackend.RetryQueue

open Js (Timestamp)

variable {Payload : Type} {cfg : RetryQueueConfig}

/-! ## The property -/

/-- The job has come to its end. -/
def RetryJobStatus.isFinished : RetryJobStatus → Bool
  | .succeeded | .failed => true
  | .pending | .processing => false

/-- The job tells when it was completed exactly if it is finished. -/
def CompletedIffFinished (row : RetryJob Payload) : Prop :=
  row.completedAt ≠ none ↔ row.status.isFinished = true

/-- All jobs do. -/
def TimesAgree (c : QueueState Payload) : Prop :=
  ∀ row ∈ c.shared.rows, CompletedIffFinished row

/-! ## The condition -/

/-- The update a call writes next, and to which row. -/
def Pc.write (cfg : RetryQueueConfig) (now : Timestamp) : Pc Payload → Option (JobId × JobUpdate)
  | .reclaim job _ => some (job.id, reclaimUpdate)
  | .processJob job _ => some (job.id, pickUpdate (job.attempts + 1))
  | .settle job attempt outcome _ => (settlement cfg job attempt now outcome).map (job.id, ·)
  | _ => none

/-- The step puts no finished job back to `pending` or `processing`. -/
def ReopensNothing (cfg : RetryQueueConfig) (c : QueueState Payload) : QueueStep Payload → Prop
  | .act t (.call now) => ∀ k id u, c.threads t = some k → k.pc.write cfg now = some (id, u) →
      u.status.isFinished = false →
      ∀ row ∈ c.shared.rows, row.id = id → row.status.isFinished = false
  | _ => True

/-- Where no job is finished, none is put back. -/
theorem reopensNothing_of_unfinished {c : QueueState Payload}
    (h : (c.shared.rows.all fun row => !row.status.isFinished) = true) (l : QueueStep Payload) :
    ReopensNothing cfg c l := by
  cases l with
  | act t a =>
      cases a with
      | call now =>
          intro k id u _ _ _ row hrow _
          simpa using List.all_eq_true.mp h row hrow
      | dbError => trivial
  | _ => trivial

/-! ## What the writes do to the time -/

/-- An update sets the time exactly if it finishes the job. -/
def SetsTime (u : JobUpdate) : Prop := u.completedAt ≠ none ↔ u.status.isFinished = true

theorem setsTime_settlement {job : RetryJob Payload} {attempt : ℕ} {now : Timestamp}
    {outcome : Outcome} {u : JobUpdate} (h : settlement cfg job attempt now outcome = some u) :
    SetsTime u := by
  cases outcome with
  | noHandler =>
      cases h
      simp [SetsTime, RetryJobStatus.isFinished]
  | resolved =>
      cases h
      simp [SetsTime, RetryJobStatus.isFinished]
  | threw message =>
      cases message with
      | none => cases h
      | some message =>
          simp only [settlement] at h
          split at h
          · cases h
            simp [SetsTime, RetryJobStatus.isFinished]
          · obtain ⟨due, -, rfl⟩ := Option.map_eq_some_iff.mp h
            simp [SetsTime, RetryJobStatus.isFinished]

theorem setsTime_write {now : Timestamp} {pc : Pc Payload} {id : JobId} {u : JobUpdate}
    (h : pc.write cfg now = some (id, u)) : SetsTime u := by
  cases pc with
  | reclaim job rest =>
      cases h
      simp [SetsTime, reclaimUpdate, RetryJobStatus.isFinished]
  | processJob job rest =>
      cases h
      simp [SetsTime, pickUpdate, RetryJobStatus.isFinished]
  | settle job attempt outcome rest =>
      obtain ⟨u', hu, heq⟩ := Option.map_eq_some_iff.mp h
      cases heq
      exact setsTime_settlement hu
  | _ => cases h

/-- A row that agrees still does after the update, unless the update reopens it. -/
theorem completed_apply {u : JobUpdate} {now : Timestamp} {row : RetryJob Payload} (hu : SetsTime u)
    (hrow : CompletedIffFinished row) :
    CompletedIffFinished (u.apply now row) ↔
      (u.status.isFinished = false → row.status.isFinished = false) := by
  unfold CompletedIffFinished at hrow ⊢
  unfold SetsTime at hu
  cases hset : u.completedAt with
  | some t =>
      have hfinished := hu.mp (by simp [hset])
      simp [JobUpdate.apply, hset, hfinished]
  | none =>
      have hopen : u.status.isFinished = false := by simpa [hset] using hu
      have hsame : (u.apply now row).completedAt = row.completedAt := by
        rw [JobUpdate.apply, hset]
        rfl
      rw [hsame, hrow, apply_status]
      simp [hopen]

/-! ## What a step does to the table -/

/-- The rows stay, or a new job comes behind them, or the update of the call is written. -/
theorem Effect.rows {s : Store Payload} {a : Action} {pc : Pc Payload}
    {rows : List (RetryJob Payload)} {log : List (Event Payload)} {next : Option (Pc Payload)}
    (h : Effect cfg s a pc rows log next) :
    rows = s.rows ∨ (∃ req now id created, rows = s.rows ++ [newJob cfg req now id created]) ∨
      ∃ now id u, a = .call now ∧ pc.write cfg now = some (id, u) ∧
        rows = Table.updateWhere (·.id = id) (u.apply now) s.rows := by
  cases h with
  | quiet => exact .inl rfl
  | invoke => exact .inl rfl
  | lose => exact .inl rfl
  | insert => exact .inr (.inl ⟨_, _, _, _, rfl⟩)
  | reclaim => exact .inr (.inr ⟨_, _, _, rfl, rfl, rfl⟩)
  | pick => exact .inr (.inr ⟨_, _, _, rfl, rfl, rfl⟩)
  | settle hu => exact .inr (.inr ⟨_, _, _, rfl, by rw [Pc.write, hu]; rfl, rfl⟩)

/-- The update of a call is written when its row is there. -/
theorem Call.writes {now : Timestamp} {p : ProcessId} {pc : Pc Payload} {s s' : Store Payload}
    {next : Option (Pc Payload)} {id : JobId} {u : JobUpdate} (h : Call cfg now p s pc s' next)
    (hwrite : pc.write cfg now = some (id, u)) (hthere : ∃ row ∈ s.rows, row.id = id) :
    s'.rows = Table.updateWhere (·.id = id) (u.apply now) s.rows := by
  obtain ⟨row, hrow, hid⟩ := hthere
  cases h with
  | reclaim => cases hwrite; rfl
  | pick => cases hwrite; rfl
  | settle hu =>
      rw [Pc.write, hu] at hwrite
      cases hwrite
      rfl
  | settleInvalid hu =>
      rw [Pc.write, hu] at hwrite
      cases hwrite
  | @rowMissing pc id' hpc hmissing =>
      have hsame : id' = id := by
        cases pc with
        | reclaim job rest => cases hpc; cases hwrite; rfl
        | processJob job rest => cases hpc; cases hwrite; rfl
        | settle job attempt outcome rest =>
            obtain ⟨u', -, heq⟩ := Option.map_eq_some_iff.mp hwrite
            cases hpc
            cases heq
            rfl
        | _ => cases hpc
      exact absurd hid (getJob_eq_none (hsame ▸ hmissing) row hrow)
  | _ => cases hwrite

/-! ## Runs -/

section Runs

variable {c c' : QueueState Payload} {l : QueueStep Payload}

/-- A step that reopens nothing keeps the times. -/
theorem TimesAgree.step (h : TimesAgree c) (hguard : ReopensNothing cfg c l)
    (hstep : (queueSystem Payload cfg).step c l c') : TimesAgree c' := by
  rcases shared_of_step hstep with ⟨hrows, -⟩ | ⟨t, a, k, next, rfl, hk, hact⟩
  · intro row hrow
    exact h row (hrows ▸ hrow)
  · unfold TimesAgree
    -- the three things a call can do to the table
    rcases hact.effect.rows with hrows | ⟨req, now, id, created, hrows⟩ |
      ⟨now, id, u, rfl, hwrite, hrows⟩
    · rw [hrows]
      exact h
    · rw [hrows]
      refine List.forall_mem_append.mpr ⟨h, ?_⟩
      simp [CompletedIffFinished, newJob, RetryJobStatus.isFinished]
    · rw [hrows]
      refine Table.forall_mem_updateWhere (fun row hrow _ => h row hrow) fun row hrow hid => ?_
      refine (completed_apply (setsTime_write hwrite) (h row hrow)).mpr fun hopen => ?_
      exact hguard k id u hk hwrite hopen row hrow (of_decide_eq_true hid)

/-- A step that reopens a finished job leaves it with its time. -/
theorem TimesAgree.broken (h : TimesAgree c) (hguard : ¬ ReopensNothing cfg c l)
    (hstep : (queueSystem Payload cfg).step c l c') : ¬ TimesAgree c' := by
  intro hagree
  refine hguard ?_
  cases l with
  | start t k => trivial
  | env b => trivial
  | act t a =>
      cases a with
      | dbError => trivial
      | call now =>
          intro k id u hk hwrite hopen row hrow hid
          -- the row is there, so the update that reopens it is written
          cases hstep with
          | @act _ _ k' s next hk' hact =>
              obtain rfl : k' = k := Option.some.inj (hk'.symm.trans hk)
              cases hact with
              | call hcall =>
                  have hrows := hcall.writes hwrite ⟨row, hrow, hid⟩
                  have hmem : u.apply now row ∈ Table.updateWhere (·.id = id) (u.apply now)
                      c.shared.rows :=
                    Table.mem_updateWhere.mpr ⟨row, hrow, by rw [decide_eq_true hid, if_pos rfl]⟩
                  have hafter : CompletedIffFinished (u.apply now row) :=
                    hagree _ (by rw [← hrows] at hmem; exact hmem)
                  exact (completed_apply (setsTime_write hwrite) (h row hrow)).mp hafter hopen

/-- **`completed_at` tells whether a job is finished** in every run of enqueues, polls, crashes, stale
reclaims and manual retries in which no update puts a finished job back; and an update that does ends
the agreement. -/
theorem completion_times (Payload : Type) (cfg : RetryQueueConfig) :
    (∀ c, ((queueSystem Payload cfg).restrict (ReopensNothing cfg)).Reachable c → TimesAgree c) ∧
    ∀ c l c', TimesAgree c → (queueSystem Payload cfg).step c l c' →
      ¬ ReopensNothing cfg c l → ¬ TimesAgree c' := by
  refine ⟨fun c hc => ?_, fun c l c' h hstep hguard => h.broken hguard hstep⟩
  refine StepSystem.invariant_of_steps (I := TimesAgree) ?_ ?_ hc
  · rintro c ⟨⟨hrows, -, -⟩, -⟩ row hrow
    rw [hrows] at hrow
    cases hrow
  · rintro c l c' - h ⟨hguard, hstep⟩
    exact h.step hguard hstep

end Runs

/-! ## A job without a handler -/

/-- A payment is enqueued. -/
def handlerless : EnqueueRequest Unit := ⟨.paymentExecution, (), "k", none⟩

/-- The steps up to the end of its first attempt, for which no handler is registered. -/
theorem reachable_failed : ∃ c : QueueState Unit,
    ((queueSystem Unit retryQueueDefaults).restrict (ReopensNothing retryQueueDefaults)).Reachable c ∧
      (∃ row, c.shared.rows = [row] ∧ row.status = .failed ∧ row.completedAt = some 10) ∧
        c.threads 2 = none := by
  have hstale : staleBefore retryQueueDefaults 10 = some (-59990) := by decide +kernel
  have h₀ : ((queueSystem Unit retryQueueDefaults).restrict
      (ReopensNothing retryQueueDefaults)).Reachable (emptyQueue Unit) := .init emptyQueue_init
  -- the first thread enqueues the job, the second polls
  have h₁ := h₀.guarded (queue_start 0 0 (.enqueueFind handlerless) rfl rfl) trivial
  have h₂ := h₁.guarded (queue_call 0 0 rfl (.findMiss rfl)) (reopensNothing_of_unfinished rfl _)
  have h₃ := h₂.guarded (queue_call 0 0 rfl (.insert "a" 0 rfl rfl))
    (reopensNothing_of_unfinished rfl _)
  have h₄ := h₃.guarded (queue_start 1 0 .reclaimStaleProcessingJobs rfl rfl) trivial
  have h₅ := h₄.guarded (queue_call 1 10 rfl (.selectStale hstale (.refl _)))
    (reopensNothing_of_unfinished rfl _)
  have h₆ := h₅.guarded (queue_call 1 10 rfl
    (.selectDue ⟨_, .refl _, List.pairwise_singleton _ _, rfl⟩))
    (reopensNothing_of_unfinished rfl _)
  have h₇ := h₆.guarded (queue_call 1 10 rfl (.pick rfl)) (reopensNothing_of_unfinished rfl _)
  have h₈ := h₇.guarded (queue_call 1 10 rfl (.handlerMissing rfl))
    (reopensNothing_of_unfinished rfl _)
  have h₉ := h₈.guarded (queue_call 1 10 rfl (.settle rfl rfl)) (reopensNothing_of_unfinished rfl _)
  exact ⟨_, h₉, ⟨_, rfl, rfl, rfl⟩, rfl⟩

/-- The job has failed, and tells when. -/
theorem completion_times_failed : ∃ c : QueueState Unit,
    ((queueSystem Unit retryQueueDefaults).restrict (ReopensNothing retryQueueDefaults)).Reachable c ∧
      (∃ row ∈ c.shared.rows, row.status = .failed) ∧ TimesAgree c := by
  obtain ⟨c, hreach, ⟨row, hrows, hfailed, -⟩, -⟩ := reachable_failed
  exact ⟨c, hreach, ⟨row, hrows ▸ List.mem_singleton_self row, hfailed⟩,
    (completion_times Unit retryQueueDefaults).1 c hreach⟩

/-- The failed job is retried by hand: it is in `processing`, and still tells when it was completed. -/
theorem not_completion_times : ¬ ∀ c : QueueState Unit,
    (queueSystem Unit retryQueueDefaults).Reachable c → TimesAgree c := by
  intro hall
  obtain ⟨c, hreach, ⟨row, hrows, hfailed, hcompleted⟩, hfree⟩ := reachable_failed
  have hget : c.shared.getJob row.id = some row := by simp [Store.getJob, hrows]
  -- a third thread retries the job: it starts, finds the row, and picks it
  have h₁ := hreach.of_restrict.step (queue_start 2 0 (.manualRetry row.id) hfree rfl)
  have hcall : ∀ (threads : ThreadId → Option (Task Unit)) (k : Task Unit),
      Function.update threads 2 (some k) 2 = some k := fun _ _ => Function.update_self ..
  have h₂ := h₁.step (queue_call 2 20 (hcall c.threads ⟨0, .manualRetry row.id⟩)
    (.manualRetry hget (by rw [hfailed]; rfl)))
  have h₃ := h₂.step (queue_call 2 20
    (hcall (Function.update c.threads 2 (some ⟨0, .manualRetry row.id⟩)) ⟨0, .processJob row []⟩)
    (.pick hget))
  have hmem : (pickUpdate (row.attempts + 1)).apply 20 row ∈
      Table.updateWhere (·.id = row.id) ((pickUpdate (row.attempts + 1)).apply 20)
        c.shared.rows := by
    rw [hrows]
    simp [Table.updateWhere]
  have hprocessing := (hall _ h₃ _ hmem).mp (by
    rw [JobUpdate.apply, hcompleted]
    exact Option.some_ne_none 10)
  cases hprocessing

end ThalosBackend.RetryQueue
