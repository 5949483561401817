import ThalosBackend.Common.Retry.RetryQueueService

/-!
# The log of the queue in memory

What a job has been through since it was queued by hand the last time: the log up to then, and how often
it was executed and failed in it. `Lawful` says of every execution in the log that it was allowed when it
was recorded; what the whole log then says follows by going through it.
-/

set_option autoImplicit false

namespace ThalosBackend.Common.Retry

open Js (Number Timestamp)

/-- The job of an event. -/
def QueueEvent.job : QueueEvent → JobRef
  | .executed job _ => job
  | .failed job _ => job
  | .completed job => job
  | .retried job => job

def isExecution (ref : JobRef) : QueueEvent → Bool
  | .executed job _ => job = ref
  | _ => false

def isFailure (ref : JobRef) : QueueEvent → Bool
  | .failed job _ => job = ref
  | _ => false

/-- The log since the job was retried by hand, or was new. -/
def current (ref : JobRef) (log : List QueueEvent) : List QueueEvent :=
  log.takeWhile fun e => e ≠ .retried ref

/-- How often the job was executed in that time. -/
def executions (ref : JobRef) (log : List QueueEvent) : ℕ :=
  (current ref log).countP (isExecution ref)

/-- How often it failed. -/
def failures (ref : JobRef) (log : List QueueEvent) : ℕ := (current ref log).countP (isFailure ref)

/-- At the time, every failure of the job since then is as long ago as its number asks for. -/
def Rested (ref : JobRef) (log : List QueueEvent) (time : Timestamp) : Prop :=
  ∀ newer failedAt older, log = newer ++ .failed ref failedAt :: older → .retried ref ∉ newer →
    failedAt + backoffMs (failures ref (.failed ref failedAt :: older)) ≤ time

variable {ref : JobRef} {log newer older : List QueueEvent} {e : QueueEvent} {time : Timestamp}

/-! ## One more event -/

theorem current_cons : current ref (e :: log) = if e = .retried ref then [] else e :: current ref log := by
  rw [current, List.takeWhile_cons]
  by_cases h : e = .retried ref <;> simp [h, current]

/-- A stretch without a retry by hand belongs to what came before it. -/
theorem current_append (h : .retried ref ∉ newer) :
    current ref (newer ++ older) = newer ++ current ref older := by
  refine List.takeWhile_append_of_pos fun e he => ?_
  simp only [decide_eq_true_eq, ne_eq]
  rintro rfl
  exact h he

theorem executions_cons (h : e ≠ .retried ref) :
    executions ref (e :: log) = executions ref log + if isExecution ref e then 1 else 0 := by
  rw [executions, current_cons, if_neg h, List.countP_cons, executions]

theorem failures_cons (h : e ≠ .retried ref) :
    failures ref (e :: log) = failures ref log + if isFailure ref e then 1 else 0 := by
  rw [failures, current_cons, if_neg h, List.countP_cons, failures]

@[simp] theorem executions_retried : executions ref (.retried ref :: log) = 0 := by
  simp [executions, current_cons]

@[simp] theorem failures_retried : failures ref (.retried ref :: log) = 0 := by
  simp [failures, current_cons]

/-- The events of another job do not count. -/
theorem executions_other (h : e.job ≠ ref) : executions ref (e :: log) = executions ref log := by
  have hretried : e ≠ .retried ref := by
    rintro rfl
    exact h rfl
  have hexecution : isExecution ref e = false := by
    cases e <;> simp_all [isExecution, QueueEvent.job]
  simp [executions_cons hretried, hexecution]

theorem failures_other (h : e.job ≠ ref) : failures ref (e :: log) = failures ref log := by
  have hretried : e ≠ .retried ref := by
    rintro rfl
    exact h rfl
  have hfailure : isFailure ref e = false := by
    cases e <;> simp_all [isFailure, QueueEvent.job]
  simp [failures_cons hretried, hfailure]

/-! ## Rest -/

theorem Rested.mono {time' : Timestamp} (h : Rested ref log time) (hle : time ≤ time') :
    Rested ref log time' := by
  intro newer failedAt older hlog hretried
  exact (h newer failedAt older hlog hretried).trans hle

/-- A job that nothing has happened to. -/
theorem rested_of_forall (h : ∀ e ∈ log, e.job ≠ ref) : Rested ref log time := by
  rintro newer failedAt older rfl -
  exact absurd rfl (h (.failed ref failedAt) (by simp))

/-- A retry by hand asks for no rest. -/
theorem rested_retried : Rested ref (.retried ref :: log) time := by
  intro newer failedAt older hlog hretried
  cases newer with
  | nil => cases (List.cons.inj hlog).1
  | cons e newer =>
      obtain ⟨rfl, -⟩ := List.cons.inj hlog
      exact absurd List.mem_cons_self hretried

/-- What is no failure of the job asks for no more rest. -/
theorem Rested.cons (h : Rested ref log time) (he : ∀ failedAt, e ≠ .failed ref failedAt) :
    Rested ref (e :: log) time := by
  intro newer failedAt older hlog hretried
  cases newer with
  | nil => exact absurd (List.cons.inj hlog).1 (he failedAt)
  | cons e' newer =>
      obtain ⟨-, hlog⟩ := List.cons.inj hlog
      exact h newer failedAt older hlog fun hmem => hretried (List.mem_cons_of_mem _ hmem)

theorem backoffMs_nonneg (k : ℕ) : 0 ≤ backoffMs k := by
  unfold backoffMs
  positivity

/-- After a failure the job rests for the delay of this failure. -/
theorem Rested.failed {failedAt : Timestamp} (h : Rested ref log failedAt)
    (hdelay : failedAt + backoffMs (failures ref (.failed ref failedAt :: log)) ≤ time) :
    Rested ref (.failed ref failedAt :: log) time := by
  intro newer failedAt' older hlog hretried
  cases newer with
  | nil =>
      obtain ⟨he, rfl⟩ := List.cons.inj hlog
      cases he
      exact hdelay
  | cons e newer =>
      obtain ⟨-, hlog⟩ := List.cons.inj hlog
      have hrested := h newer failedAt' older hlog fun hmem => hretried (List.mem_cons_of_mem _ hmem)
      have hlater : failedAt ≤ failedAt + backoffMs (failures ref (.failed ref failedAt :: log)) :=
        le_add_of_nonneg_right (backoffMs_nonneg _)
      exact hrested.trans (hlater.trans hdelay)

/-! ## Lawful logs -/

/-- What an event needs when it is recorded: the job has a limit, and an execution keeps within it, comes
after the rest, and is not one of a completed job. -/
def Allowed (limit : JobRef → Option Number) (log : List QueueEvent) (e : QueueEvent) : Prop :=
  ∃ n, limit e.job = some n ∧ ∀ time, e = .executed e.job time →
    Number.le (.finite (executions e.job log + 1)) n = true ∧ Rested e.job log time ∧
      .completed e.job ∉ log

/-- Every event was allowed. -/
def Lawful (limit : JobRef → Option Number) : List QueueEvent → Prop
  | [] => True
  | e :: log => Allowed limit log e ∧ Lawful limit log

variable {limit limit' : JobRef → Option Number}

/-- More jobs may have a limit. -/
theorem Lawful.mono (h : Lawful limit log)
    (hlimit : ∀ ref n, limit ref = some n → limit' ref = some n) : Lawful limit' log := by
  induction log with
  | nil => trivial
  | cons e log ih =>
      obtain ⟨⟨n, hn, hallowed⟩, hlog⟩ := h
      exact ⟨⟨n, hlimit _ n hn, hallowed⟩, ih hlog⟩

theorem Lawful.of_append (h : Lawful limit (newer ++ older)) : Lawful limit older := by
  induction newer with
  | nil => exact h
  | cons e newer ih => exact ih h.2

/-- A job without a limit is in no event. -/
theorem Lawful.job_ne (h : Lawful limit log) (hnone : limit ref = none) : ∀ e ∈ log, e.job ≠ ref := by
  induction log with
  | nil => nofun
  | cons e log ih =>
      intro e' he'
      rcases List.mem_cons.mp he' with rfl | he'
      · rintro rfl
        obtain ⟨⟨n, hn, -⟩, -⟩ := h
        rw [hnone] at hn
        cases hn
      · exact ih h.2 e' he'

/-- The limit is kept. -/
theorem Lawful.executions_le {n : Number} (h : Lawful limit log) (hn : limit ref = some n)
    (hpos : Number.le 0 n = true) : Number.le (.finite (executions ref log)) n = true := by
  induction log with
  | nil => exact hpos
  | cons e log ih =>
      have hle := ih h.2
      by_cases hretried : e = .retried ref
      · rw [hretried, executions_retried, Nat.cast_zero]
        exact hpos
      · rw [executions_cons hretried]
        split_ifs with hexecution
        · cases e with
          | executed job time =>
              obtain rfl : job = ref := by simpa [isExecution] using hexecution
              obtain ⟨⟨n', hn', hallowed⟩, -⟩ := h
              obtain rfl : n = n' := Option.some.inj (hn.symm.trans hn')
              rw [Nat.cast_add, Nat.cast_one]
              exact (hallowed time rfl).1
          | failed job time => cases hexecution
          | completed job => cases hexecution
          | retried job => cases hexecution
        · simpa using hle

/-- It is kept in every stretch without a retry by hand. -/
theorem Lawful.countP_le {segment : List QueueEvent} {n : Number}
    (h : Lawful limit (newer ++ segment ++ older)) (hn : limit ref = some n)
    (hpos : Number.le 0 n = true) (hsegment : .retried ref ∉ segment) :
    Number.le (.finite (segment.countP (isExecution ref))) n = true := by
  rw [List.append_assoc] at h
  have hle := h.of_append.executions_le hn hpos
  rw [executions, current_append hsegment, List.countP_append] at hle
  refine Number.finite_le_of_le ?_ hle
  push_cast
  exact le_add_of_nonneg_right (by positivity)

/-- Every execution came after the rest, and the job was not completed. -/
theorem Lawful.executed (h : Lawful limit (newer ++ .executed ref time :: older)) :
    Rested ref older time ∧ .completed ref ∉ older := by
  obtain ⟨⟨n, -, hallowed⟩, -⟩ := h.of_append
  exact (hallowed time rfl).2

end ThalosBackend.Common.Retry
