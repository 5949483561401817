import ThalosBackend.RetryQueue.StepFacts

/-!
# Exclusive execution

A poll selects due jobs and updates each of them later, without looking at the row again; the stale
reclaim does the same. So two polls can pick one job, and a reclaim can put a job back whose handler
is only slow: `exclusive_fails_on_overlap` runs a handler twice at the same time.

What goes wrong is always an update that no longer finds what its select has read. `FreshClaims` is
the condition that this does not happen: the update that picks a job finds the status the select
read, and the update that reclaims one finds it orphaned. On runs whose steps all meet it execution
is exclusive (`exclusive_of_freshClaims`), with any number of overlapping polls, processes, manual
retries and crashes.
-/

set_option autoImplicit false

namespace ThalosBackend.RetryQueue

open Js (Timestamp)

variable {Payload : Type} {cfg : RetryQueueConfig}

/-! ## The property -/

/-- The job whose handler a call is running. -/
def Pc.running : Pc Payload → Option JobId
  | .runHandler job _ _ => some job.id
  | _ => none

/-- No handler runs twice for a job at the same time. -/
def RunsExclusively (c : QueueState Payload) : Prop :=
  ∀ t t' k k' id, c.threads t = some k → c.threads t' = some k' → k.pc.running = some id →
    k'.pc.running = some id → t = t'

/-- A step invokes no handler for a job that has succeeded, and overwrites no `succeeded`. -/
structure RespectsSucceeded (c c' : QueueState Payload) : Prop where
  invokes : ∀ id attempt, c'.shared.log = .invoked id attempt :: c.shared.log →
    ∀ row ∈ c.shared.rows, row.id = id → row.status ≠ .succeeded
  keeps : ∀ row ∈ c.shared.rows, row.status = .succeeded →
    ∃ row' ∈ c'.shared.rows, row'.id = row.id ∧ row'.status = .succeeded

/-! ## The condition -/

/-- The update a call waits for still finds what the read before it returned. -/
def FreshUpdate (c : QueueState Payload) : Pc Payload → Prop
  | .processJob job _ => ∀ row ∈ c.shared.rows, row.id = job.id → row.status = job.status
  | .reclaim job _ => (∀ row ∈ c.shared.rows, row.id = job.id → row.status = .processing) ∧
      ¬ InFlight c job.id
  | _ => True

/-- Every update that picks or reclaims a job is fresh. -/
def FreshClaims (c : QueueState Payload) : QueueStep Payload → Prop
  | .act t (.call _) => ∀ k, c.threads t = some k → FreshUpdate c k.pc
  | _ => True

/-! ## The invariant -/

/-- The row of a job that a call has in flight is there and in `processing`. -/
abbrev Claimed (rows : List (RetryJob Payload)) (id : JobId) : Prop :=
  Table.At (·.id) id (·.status = .processing) rows

/-- A call with an attempt in flight has claimed its job; the jobs it has still to process were read
in a status that may be picked. -/
structure Claims (s : Store Payload) (k : Task Payload) : Prop where
  inFlight : ∀ job attempt, k.pc.inFlight = some (job, attempt) → Claimed s.rows job.id
  waiting : ∀ job ∈ k.pc.waiting, manuallyRetryable job.status = true

/-- Two calls do not have attempts of one job in flight. -/
def Apart (k k' : Task Payload) : Prop :=
  ∀ job attempt job' attempt', k.pc.inFlight = some (job, attempt) →
    k'.pc.inFlight = some (job', attempt') → job.id ≠ job'.id

theorem manuallyRetryable_of_isDue {now : Timestamp} {job : RetryJob Payload}
    (h : isDue now job = true) : manuallyRetryable job.status = true := by
  have : job.status = .pending := by
    simp only [isDue, Bool.decide_and, Bool.and_eq_true, decide_eq_true_eq] at h
    exact h.1
  rw [this]
  rfl

theorem inFlight_of_isEntry {pc : Pc Payload} (h : pc.isEntry = true) :
    pc.inFlight = none ∧ pc.waiting = [] := by
  cases pc with
  | reclaimStaleProcessingJobs => exact ⟨rfl, rfl⟩
  | manualRetry => exact ⟨rfl, rfl⟩
  | enqueueFind => exact ⟨rfl, rfl⟩
  | _ => cases h

section Claimed

variable {rows : List (RetryJob Payload)} {id id' : JobId} {u : JobUpdate} {now : Timestamp}

/-- An update of another job leaves a claim alone. -/
theorem Claimed.updateWhere_ne (h : Claimed rows id) (hne : id ≠ id') :
    Claimed (Table.updateWhere (·.id = id') (u.apply now) rows) id := by
  refine Table.At.updateWhere_ne h (fun _ _ => rfl) fun row hid' hid => ?_
  exact hne (hid.symm.trans (by simpa using hid'))

/-- Picking a job claims it. -/
theorem claimed_pick {attempt : ℕ} (h : ∃ row ∈ rows, row.id = id) :
    Claimed (Table.updateWhere (·.id = id) ((pickUpdate attempt).apply now) rows) id := by
  have hat : Table.At (·.id) id (fun _ => True) rows := ⟨h, fun _ _ _ => trivial⟩
  refine hat.updateWhere (fun _ _ => rfl) (fun _ _ _ _ _ => rfl) fun row _ hid _ hne => ?_
  simp [hid] at hne

end Claimed

/-- A fresh pick finds a row that is neither in processing nor succeeded. -/
theorem retryable_of_fresh {c : QueueState Payload} {k : Task Payload} {job : RetryJob Payload}
    {rest : List (RetryJob Payload)} (hA : Claims c.shared k) (hpc : k.pc = .processJob job rest)
    (hfresh : FreshUpdate c k.pc) :
    ∀ row ∈ c.shared.rows, row.id = job.id → manuallyRetryable row.status = true := by
  intro row hrow hid
  rw [hpc] at hfresh
  rw [hfresh row hrow hid]
  exact hA.waiting job (by simp [hpc, Pc.waiting])

/-- What a fresh step does to a claim: the claim of the stepping call goes on with it, and the claim of
another call is left alone and not claimed again. -/
theorem Effect.claims {c : QueueState Payload} {a : Action} {k : Task Payload}
    {rows : List (RetryJob Payload)} {log : List (Event Payload)} {next : Option (Pc Payload)}
    (h : Effect cfg c.shared a k.pc rows log next) (hA : Claims c.shared k)
    (hfresh : ∀ now, a = .call now → FreshUpdate c k.pc) :
    (∀ pc' ∈ next, ∀ job attempt, pc'.inFlight = some (job, attempt) → Claimed rows job.id) ∧
    ∀ id, Claimed c.shared.rows id → InFlight c id →
      (∀ job attempt, k.pc.inFlight = some (job, attempt) → job.id ≠ id) →
      Claimed rows id ∧
        ∀ pc' ∈ next, ∀ job attempt, pc'.inFlight = some (job, attempt) → job.id ≠ id := by
  generalize hpc : k.pc = pc at h
  cases h with
  | quiet _ hnext _ =>
      refine ⟨fun pc' hpc' job attempt hin => ?_, fun id hid _ hne => ⟨hid, ?_⟩⟩
      · rw [hnext pc' hpc', ← hpc] at hin
        exact hA.inFlight job attempt hin
      · intro pc' hpc' job attempt hin
        rw [hnext pc' hpc'] at hin
        exact hne job attempt hin
  | reclaim =>
      have hf := hfresh _ rfl
      rw [hpc] at hf
      refine ⟨by simp, fun id hid hfl _ => ⟨hid.updateWhere_ne ?_, by simp⟩⟩
      -- a job that is in flight is not stale, by the condition
      rintro rfl
      exact hf.2 hfl
  | pick hrow hid =>
      have hf := retryable_of_fresh hA hpc (hfresh _ rfl)
      refine ⟨fun pc' hpc' job attempt hin => ?_, fun id' hclaim _ _ => ?_⟩
      · cases hpc'
        cases hin
        exact claimed_pick ⟨_, hrow, hid⟩
      · -- the row that is picked can be retried, a claimed one cannot
        have hne : id' ≠ _ := fun heq => by
          have hr := hf _ hrow hid
          rw [hclaim.all _ hrow (hid.trans heq.symm)] at hr
          cases hr
        refine ⟨hclaim.updateWhere_ne hne, fun pc' hpc' job attempt hin => ?_⟩
        cases hpc'
        cases hin
        exact hne.symm
  | invoke =>
      refine ⟨fun pc' hpc' job attempt hin => ?_, fun id hid _ hne => ⟨hid, ?_⟩⟩
      · cases hpc'
        refine hA.inFlight job attempt ?_
        rw [hpc]
        exact hin
      · intro pc' hpc' job attempt hin
        cases hpc'
        exact hne job attempt hin
  | settle hu hrow hid =>
      refine ⟨fun pc' hpc' job attempt hin => ?_, fun id' hclaim _ hne => ⟨?_, ?_⟩⟩
      · -- the call goes on with a job it has not picked yet
        rw [(mem_processNext hpc').1] at hin
        cases hin
      · exact hclaim.updateWhere_ne (hne _ _ rfl).symm
      · intro pc' hpc' job attempt hin
        rw [(mem_processNext hpc').1] at hin
        cases hin
  | lose => exact ⟨by simp, fun id hid _ _ => ⟨hid, by simp⟩⟩
  | insert _ hid => exact ⟨by simp, fun id' hclaim _ _ => ⟨Table.At.concat hclaim hid, by simp⟩⟩

/-- The thread-modular proof. -/
theorem exclusive_outline (cfg : RetryQueueConfig) :
    Threads.Outline (τ := ThreadId) (queue Payload cfg) FreshClaims (fun _ => True) Claims Apart where
  symm := fun _ _ h job attempt job' attempt' hj hj' => (h job' attempt' job attempt hj' hj).symm
  init := fun _ _ => trivial
  start := by
    intro c t k _ hentry _
    obtain ⟨hflight, hwaiting⟩ := inFlight_of_isEntry hentry
    refine ⟨⟨fun job attempt hj => ?_, by simp [hwaiting]⟩, fun t' k' _ job attempt _ _ hj => ?_⟩
    · simp [hflight] at hj
    · simp [hflight] at hj
  own := by
    intro c t a k s next hguard hk _ hA _ hact
    have hfresh : ∀ now, a = .call now → FreshUpdate c k.pc := by
      rintro now rfl
      exact hguard k hk
    refine ⟨trivial, fun k' hk' => ⟨fun job attempt hj => ?_, fun job hjob => ?_⟩⟩
    · exact (hact.effect.claims hA hfresh).1 k'.pc (Option.mem_map_of_mem _ hk') job attempt hj
    · rcases hact.waiting hk' hjob with hold | ⟨-, ⟨now, -, hdue⟩ | ⟨id, -, hretry⟩⟩
      · exact hA.waiting job hold
      · exact manuallyRetryable_of_isDue hdue
      · exact hretry
  other := by
    intro c t a k s next t' k' hguard hk hne hk' _ hA hA' hQ hact
    have hfresh : ∀ now, a = .call now → FreshUpdate c k.pc := by
      rintro now rfl
      exact hguard k hk
    have hclaims := (hact.effect.claims hA hfresh).2
    refine ⟨⟨fun job attempt hj => ?_, hA'.waiting⟩, fun k'' hk'' job attempt job' attempt' hj hj' => ?_⟩
    · exact (hclaims job.id (hA'.inFlight job attempt hj) ⟨t', k', job, attempt, hk', hj, rfl⟩
        fun job' attempt' hj' => hQ _ _ _ _ hj' hj).1
    · exact (hclaims job'.id (hA'.inFlight job' attempt' hj')
        ⟨t', k', job', attempt', hk', hj', rfl⟩ fun job'' attempt'' hj'' => hQ _ _ _ _ hj'' hj').2
        k''.pc (Option.mem_map_of_mem _ hk'') job attempt hj
  env := by
    intro c b s _ henv _
    refine ⟨trivial, fun k _ hA => ⟨fun job attempt hj => ?_, hA.waiting⟩⟩
    rw [henv.rows_log.1]
    exact hA.inFlight job attempt hj

/-! ## The result -/

/-- **Exclusive execution** of a queue: in every reachable state no handler runs twice at once for
one job, and no step from there invokes a handler for, or overwrites, a job that has succeeded. -/
def ExecutesExclusively (M : StepSystem (QueueState Payload) (QueueStep Payload)) : Prop :=
  ∀ c, M.Reachable c → RunsExclusively c ∧ ∀ l c', M.step c l c' → RespectsSucceeded c c'

theorem inFlight_of_running {pc : Pc Payload} {id : JobId} (h : pc.running = some id) :
    ∃ job attempt, pc.inFlight = some (job, attempt) ∧ job.id = id := by
  cases pc with
  | runHandler job attempt rest => exact ⟨job, attempt, rfl, by simpa [Pc.running] using h⟩
  | _ => cases h

/-- An update that finds no succeeded row leaves the succeeded ones as they are. -/
theorem succeeded_mem_updateWhere {rows : List (RetryJob Payload)} {id : JobId} {u : JobUpdate}
    {now : Timestamp} (h : ∀ row ∈ rows, row.id = id → row.status ≠ .succeeded)
    {row : RetryJob Payload} (hrow : row ∈ rows) (hstatus : row.status = .succeeded) :
    row ∈ Table.updateWhere (·.id = id) (u.apply now) rows := by
  have hne : row.id ≠ id := fun hid => h row hrow hid hstatus
  exact Table.mem_updateWhere.mpr ⟨row, hrow, by simp [hne]⟩

/-- A fresh step invokes no handler for a job that has succeeded, -/
theorem Effect.invokes {c : QueueState Payload} {a : Action} {k : Task Payload}
    {rows : List (RetryJob Payload)} {log : List (Event Payload)} {next : Option (Pc Payload)}
    (h : Effect cfg c.shared a k.pc rows log next) (hA : Claims c.shared k) {id : JobId}
    {attempt : ℕ} (hlog : log = .invoked id attempt :: c.shared.log) :
    ∀ row ∈ c.shared.rows, row.id = id → row.status ≠ .succeeded := by
  intro row hrow hid
  rcases h.logged hlog rfl with ⟨_, _, _, _, -, -, -, -, heq⟩ | ⟨job, _, _, hpc, heq⟩ |
    ⟨_, _, _, _, _, _, -, heq⟩
  · cases heq
  · cases heq
    rw [(hA.inFlight job attempt (by rw [hpc]; rfl)).all row hrow hid]
    decide
  · cases heq

/-- and overwrites none. -/
theorem Effect.keeps {c : QueueState Payload} {a : Action} {k : Task Payload}
    {rows : List (RetryJob Payload)} {log : List (Event Payload)} {next : Option (Pc Payload)}
    (h : Effect cfg c.shared a k.pc rows log next) (hA : Claims c.shared k)
    (hfresh : ∀ now, a = .call now → FreshUpdate c k.pc) :
    ∀ row ∈ c.shared.rows, row.status = .succeeded → row ∈ rows := by
  generalize hpc : k.pc = pc at h
  cases h with
  | quiet => exact fun row hrow _ => hrow
  | reclaim =>
      have hf := hfresh _ rfl
      rw [hpc] at hf
      exact fun row => succeeded_mem_updateWhere fun row hrow hid => by simp [hf.1 row hrow hid]
  | pick =>
      have hf := retryable_of_fresh hA hpc (hfresh _ rfl)
      refine fun row => succeeded_mem_updateWhere fun row hrow hid hstatus => ?_
      have := hf row hrow hid
      rw [hstatus] at this
      cases this
  | invoke => exact fun row hrow _ => hrow
  | settle =>
      refine fun row => succeeded_mem_updateWhere fun row hrow hid => ?_
      rw [(hA.inFlight _ _ (by rw [hpc]; rfl)).all row hrow hid]
      decide
  | lose => exact fun row hrow _ => hrow
  | insert => exact fun row hrow _ => List.mem_append_left _ hrow

/-- **Exclusive execution, when claims are fresh.** Polls may overlap in one process or several,
handlers may be slow, jobs may be retried by hand and processes may crash: while every update that
picks or reclaims a job finds what its read returned, execution is exclusive. -/
theorem exclusive_of_freshClaims (Payload : Type) (cfg : RetryQueueConfig) :
    ExecutesExclusively ((queueSystem Payload cfg).restrict FreshClaims) := by
  intro c hc
  have hinv := (exclusive_outline cfg).holds hc
  refine ⟨fun t t' k k' id hk hk' hrun hrun' => ?_, fun l c' hstep => ?_⟩
  · by_contra hne
    obtain ⟨job, attempt, hj, hid⟩ := inFlight_of_running hrun
    obtain ⟨job', attempt', hj', hid'⟩ := inFlight_of_running hrun'
    exact hinv.compatible t t' k k' hne hk hk' _ _ _ _ hj hj' (hid.trans hid'.symm)
  · obtain ⟨hguard, hstep⟩ := hstep
    cases hstep with
    | start =>
        exact ⟨fun _ _ hlog => absurd hlog log_ne_cons, fun row hrow hs => ⟨row, hrow, rfl, hs⟩⟩
    | env henv =>
        obtain ⟨hrows, hlog⟩ := henv.rows_log
        refine ⟨fun _ _ heq => ?_, fun row hrow hs => ⟨row, hrows ▸ hrow, rfl, hs⟩⟩
        exact absurd (hlog.symm.trans heq) log_ne_cons
    | @act t a k s next hk hact =>
        have hfresh : ∀ now, a = .call now → FreshUpdate c k.pc := by
          rintro now rfl
          exact hguard k hk
        have hA := hinv.assertion t k hk
        exact ⟨fun id attempt hlog => hact.effect.invokes hA hlog,
          fun row hrow hs => ⟨row, hact.effect.keeps hA hfresh row hrow hs, rfl, hs⟩⟩

/-! ## The overlap -/

/-- A request without a payload. -/
def plainRequest : EnqueueRequest Unit := ⟨.paymentExecution, (), "k", none⟩

/-- Two polls of one process overlap: both select the job before either picks it, and both run its
handler. -/
theorem exclusive_fails_on_overlap :
    ¬ ExecutesExclusively (queueSystem Unit retryQueueDefaults) := by
  intro hall
  have hstale : staleBefore retryQueueDefaults 10 = some (-59990) := by decide +kernel
  have h₀ : (queueSystem Unit retryQueueDefaults).Reachable (emptyQueue Unit) :=
    .init emptyQueue_init
  have h₁ := h₀.step (queue_register 0 .paymentExecution)
  -- one job is enqueued
  have h₂ := h₁.step (queue_start 0 0 (.enqueueFind plainRequest) rfl rfl)
  have h₃ := h₂.step (queue_call 0 0 rfl (.findMiss rfl))
  have h₄ := h₃.step (queue_call 0 0 rfl
    (.insert "a" 0 rfl rfl))
  -- two polls find no stale job and select the same due one
  have h₅ := h₄.step (queue_start 1 0 .reclaimStaleProcessingJobs rfl rfl)
  have h₆ := h₅.step (queue_start 2 0 .reclaimStaleProcessingJobs rfl rfl)
  have h₇ := h₆.step (queue_call 1 10 rfl (.selectStale hstale (.refl _)))
  have h₈ := h₇.step (queue_call 2 10 rfl (.selectStale hstale (.refl _)))
  have h₉ := h₈.step (queue_call 1 10 rfl
    (.selectDue ⟨_, .refl _, List.pairwise_singleton _ _, rfl⟩))
  have h₁₀ := h₉.step (queue_call 2 10 rfl
    (.selectDue ⟨_, .refl _, List.pairwise_singleton _ _, rfl⟩))
  -- both pick it and call its handler
  have h₁₁ := h₁₀.step (queue_call 1 10 rfl (.pick rfl))
  have h₁₂ := h₁₁.step (queue_call 2 10 rfl (.pick rfl))
  have h₁₃ := h₁₂.step (queue_call 1 10 rfl (.invoke rfl))
  have h₁₄ := h₁₃.step (queue_call 2 10 rfl (.invoke rfl))
  have := (hall _ h₁₄).1 1 2 _ _ "a" rfl rfl rfl rfl
  simp at this

end ThalosBackend.RetryQueue
