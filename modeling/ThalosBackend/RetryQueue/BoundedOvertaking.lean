import ThalosBackend.RetryQueue.CleanRuns

/-!
# No job starves

On a clean run a job that is overdue waits only for the pending jobs that were due no later when it
became overdue: whatever is picked comes back with a later due date, and whatever is enqueued is due
later, too. Each poll takes the `concurrency` jobs that are due first, so that a job with `n` others
ahead is attempted by the poll number `n / concurrency + 1` at the latest.

`PollRun` counts the polls of a run. The jobs they take are kept in a list without repetitions
(`Passed`), all of them from ahead of the job, and their number is the number of polls times
`concurrency`.
-/

set_option autoImplicit false

namespace ThalosBackend.RetryQueue

open Js (Number Timestamp)

variable {Payload : Type} {cfg : RetryQueueConfig}

/-! ## Jobs that are ahead -/

/-- The other pending jobs that are due no later than the job. -/
def ahead (job : RetryJob Payload) (rows : List (RetryJob Payload)) : List (RetryJob Payload) :=
  rows.filter fun r => r.status = .pending ∧ r.nextAttemptAt ≤ job.nextAttemptAt ∧ r.id ≠ job.id

theorem mem_ahead {job r : RetryJob Payload} {rows : List (RetryJob Payload)} :
    r ∈ ahead job rows ↔ r ∈ rows ∧ r.status = .pending ∧ r.nextAttemptAt ≤ job.nextAttemptAt ∧
      r.id ≠ job.id := by
  rw [ahead, List.mem_filter, decide_eq_true_eq]

/-- A batch that leaves out a due job is full, and everything in it is due no later. -/
theorem DueJobs.full {concurrency : ℕ} {now : Timestamp} {rows due : List (RetryJob Payload)}
    {job : RetryJob Payload} (h : DueJobs concurrency now rows due) (hjob : job ∈ rows)
    (hdue : isDue now job = true) (hleft : job ∉ due) :
    due.length = concurrency ∧ ∀ r ∈ due, r.nextAttemptAt ≤ job.nextAttemptAt := by
  obtain ⟨sorted, hperm, hsorted, rfl⟩ := h
  have hmem : job ∈ sorted := hperm.mem_iff.mpr (List.mem_filter.mpr ⟨hjob, hdue⟩)
  rw [← List.take_append_drop concurrency sorted] at hmem hsorted
  have hdrop : job ∈ sorted.drop concurrency := (List.mem_append.mp hmem).resolve_left hleft
  constructor
  · have hlt : 0 < (sorted.drop concurrency).length := List.length_pos_of_mem hdrop
    rw [List.length_drop] at hlt
    rw [List.length_take]
    omega
  · intro r hr
    exact (List.pairwise_append.mp hsorted).2.2 r hr job hdrop

/-! ## Delays do not go back -/

/-- A product with a power of two that is finite has finite factors. -/
theorem finite_of_mul_twoPow {a : Number} {e : ℕ} {x : ℚ} (h : a * Number.twoPow e = .finite x) :
    ∃ q, a = .finite q ∧ x = q * 2 ^ e := by
  have hpos : (0 : ℚ) < 2 ^ e := by positivity
  by_cases he : e < 1024
  · rw [Number.twoPow, if_pos he] at h
    cases a with
    | finite q => exact ⟨q, rfl, (Number.finite.inj h).symm⟩
    | nan => cases h
    | infinity s =>
        have h : Number.scaleInfinity s (2 ^ e) = .finite x := h
        simp [Number.scaleInfinity, hpos.ne', hpos.not_gt] at h
  · rw [Number.twoPow, if_neg he] at h
    cases a with
    | nan => cases h
    | infinity s => cases h
    | finite q =>
        have h : Number.scaleInfinity false q = .finite x := h
        rw [Number.scaleInfinity] at h
        split at h <;> cases h

/-- Delays are not negative. -/
theorem backoff_nonneg {attempt : ℕ} {base maximum : Number} {x : ℚ}
    (hbase : Number.le 0 base = true) (hmax : Number.le 0 maximum = true)
    (h : computeBackoffMs attempt base maximum = .finite x) : 0 ≤ x := by
  obtain ⟨-, -, hx | hx⟩ := Number.min_eq_finite h
  · obtain ⟨q, rfl, rfl⟩ := finite_of_mul_twoPow hx
    have hq : 0 ≤ q := by simpa using hbase
    positivity
  · rw [hx] at hmax
    simpa using hmax

/-- The next attempt is due no earlier than now. -/
theorem le_dueAfter (hbase : Number.le 0 cfg.baseDelayMs = true)
    (hmax : Number.le 0 cfg.maxDelayMs = true) {attempt : ℕ} {now due : Timestamp}
    (h : dueAfter cfg attempt now = some due) : now ≤ due := by
  obtain ⟨x, hx⟩ := backoff_finite_of_dueAfter h
  have hnonneg := backoff_nonneg hbase hmax hx
  rw [dueAfter, hx, Js.ofTimestamp, Number.add_finite, Js.timeClip] at h
  split at h
  · have hle : (now : ℚ) ≤ now + x := by linarith
    obtain rfl := Option.some.inj h
    split
    · exact_mod_cast hle.trans (Int.le_ceil _)
    · exact Int.le_floor.mpr hle
  · cases h

/-! ## Runs of polls -/

/-- The step is the select of due jobs of a poll. -/
def IsSelect (c : QueueState Payload) : QueueStep Payload → Prop
  | .act t (.call _) => ∃ p, c.threads t = some ⟨p, .selectDueJobs⟩
  | _ => False

/-- A clean run from the first state to the second, with so many polls that select. -/
inductive PollRun (cfg : RetryQueueConfig) (c : QueueState Payload) :
    ℕ → QueueState Payload → Prop where
  | start : PollRun cfg c 0 c
  | poll {n : ℕ} {c₁ c₂ : QueueState Payload} {l : QueueStep Payload} : PollRun cfg c n c₁ →
      ((queueSystem Payload cfg).restrict (cleanGuard cfg)).step c₁ l c₂ → IsSelect c₁ l →
      PollRun cfg c (n + 1) c₂
  | other {n : ℕ} {c₁ c₂ : QueueState Payload} {l : QueueStep Payload} : PollRun cfg c n c₁ →
      ((queueSystem Payload cfg).restrict (cleanGuard cfg)).step c₁ l c₂ → ¬ IsSelect c₁ l →
      PollRun cfg c n c₂

theorem PollRun.reachable {c c' : QueueState Payload} {n : ℕ} (h : PollRun cfg c n c')
    (hc : ((queueSystem Payload cfg).restrict (cleanGuard cfg)).Reachable c) :
    ((queueSystem Payload cfg).restrict (cleanGuard cfg)).Reachable c' := by
  induction h with
  | start => exact hc
  | poll _ hstep _ ih => exact ih.step hstep
  | other _ hstep _ ih => exact ih.step hstep

/-- What holds of every configuration of a clean run. -/
theorem clean_holds {c : QueueState Payload}
    (hc : ((queueSystem Payload cfg).restrict (cleanGuard cfg)).Reachable c) :
    Threads.Holds (fun s => CleanInv cfg s.rows s.log) PollClaims OnePoll c := by
  refine ((clean_outline cfg).holds_and ?_ ?_ hc).1
  · intro c hinit row hrow
    simp [hinit.1.1] at hrow
  · intro c l c' _ _ hS hguard hstep
    exact clean_supported hS hguard hstep

/-! ## What one step does to the order -/

/-- The row of the job has been through another attempt. -/
def Attempted (job : RetryJob Payload) (rows : List (RetryJob Payload)) : Prop :=
  Table.At (·.id) job.id (fun row => job.attempts < row.attempts) rows

/-- What every other step of a call leaves as it is: the job stands or is picked, nobody comes ahead
of it, and the call keeps the pending jobs it holds and takes no others. -/
structure KeepsOrder (job : RetryJob Payload) (rows rows' : List (RetryJob Payload))
    (pc : Pc Payload) (next : Option (Pc Payload)) : Prop where
  stands : job ∈ rows → job ∈ rows' ∨ Attempted job rows'
  ahead : ∀ r ∈ ahead job rows', r ∈ ahead job rows
  kept : ∀ r ∈ rows', r.status = .pending → r ∈ pc.waiting → ∃ pc' ∈ next, r ∈ pc'.waiting
  taken : ∀ pc' ∈ next, ∀ r ∈ pc'.waiting, r ∈ pc.waiting

section Step

variable {job : RetryJob Payload} {now : Timestamp} {p : ProcessId} {pc : Pc Payload}
  {s s' : Store Payload} {next : Option (Pc Payload)}

/-- The table stays, and the call holds what it held. -/
theorem KeepsOrder.of_same (hwaiting : ∀ r ∈ pc.waiting, ∃ pc' ∈ next, r ∈ pc'.waiting)
    (htaken : ∀ pc' ∈ next, ∀ r ∈ pc'.waiting, r ∈ pc.waiting) :
    KeepsOrder job s.rows s.rows pc next :=
  ⟨.inl, fun _ hr => hr, fun r _ _ hr => hwaiting r hr, htaken⟩

/-- A call that holds no job does not take one. -/
theorem KeepsOrder.of_none (hpc : pc.waiting = []) (hnext : ∀ pc' ∈ next, pc'.waiting = []) :
    KeepsOrder job s.rows s.rows pc next := by
  apply KeepsOrder.of_same
  · intro r hr
    rw [hpc] at hr
    cases hr
  · intro pc' hpc' r hr
    rw [hnext pc' hpc'] at hr
    cases hr

/-- The update of another row lets nobody ahead, if that row is not pending or due later. -/
theorem mem_ahead_of_updateWhere {id : JobId} {u : JobUpdate} {r : RetryJob Payload}
    (hlater : ∀ row ∈ s.rows, row.id = id → u.status = .pending →
      job.nextAttemptAt < (u.apply now row).nextAttemptAt)
    (hr : r ∈ ahead job (Table.updateWhere (·.id = id) (u.apply now) s.rows)) :
    r ∈ ahead job s.rows ∧ r.id ≠ id := by
  obtain ⟨hmem, hpending, hdue, hid⟩ := mem_ahead.mp hr
  obtain ⟨row, hrow, heq⟩ := Table.mem_updateWhere.mp hmem
  by_cases hne : row.id = id
  · rw [if_pos (decide_eq_true hne)] at heq
    subst heq
    exact absurd hdue (not_le.mpr (hlater row hrow hne hpending))
  · rw [if_neg (by simpa using hne)] at heq
    subst heq
    exact ⟨mem_ahead.mpr ⟨hrow, hpending, hdue, hid⟩, hne⟩

/-- Picking a job that the poll holds. -/
theorem keepsOrder_pick {picked : RetryJob Payload} {rest : List (RetryJob Payload)}
    (hI : CleanInv cfg s.rows s.log) (hpicked : picked ∈ s.rows) :
    KeepsOrder job s.rows
      (Table.updateWhere (·.id = picked.id) ((pickUpdate (picked.attempts + 1)).apply now) s.rows)
      (.processJob picked rest) (some (.lookUpHandler picked (picked.attempts + 1) rest)) := by
  -- the picked row is in processing, so it is ahead of nothing
  have hprocessing : ∀ row ∈ s.rows, row.id = picked.id →
      (pickUpdate (picked.attempts + 1)).status = .pending → job.nextAttemptAt <
        ((pickUpdate (picked.attempts + 1)).apply now row).nextAttemptAt := by
    rintro row - - ⟨⟩
  constructor
  · intro hjob
    by_cases hid : job.id = picked.id
    · -- the job itself is picked: it has one attempt more
      obtain rfl := hI.ids.eq hjob hpicked hid
      refine .inr ((Table.At.of_unique hI.ids hjob rfl).updateWhere (fun _ _ => rfl) ?_ ?_)
      · rintro row - - (rfl : job = row) -
        exact Nat.lt_succ_self _
      · intro row _ hrow _ hne
        exact absurd hrow (by simpa using hne)
    · exact .inl (mem_updateWhere_of_ne hjob hid)
  · intro r hr
    exact (mem_ahead_of_updateWhere hprocessing hr).1
  · intro r hr hpending hwaiting
    refine ⟨_, rfl, ?_⟩
    rcases List.mem_cons.mp hwaiting with rfl | hrest
    · -- the picked row is pending no more
      obtain ⟨row, hrow, heq⟩ := Table.mem_updateWhere.mp hr
      by_cases hne : row.id = r.id
      · rw [if_pos (decide_eq_true hne)] at heq
        rw [heq] at hpending
        cases hpending
      · rw [if_neg (by simpa using hne)] at heq
        rw [heq] at hne
        exact absurd rfl hne
    · exact hrest
  · rintro pc' ⟨⟩ r hr
    exact List.mem_cons_of_mem _ hr

/-- A finished attempt comes back after a job that was overdue before it, if at all. -/
theorem keepsOrder_settle {settled : RetryJob Payload} {attempt : ℕ} {outcome : Outcome}
    {rest : List (RetryJob Payload)} {u : JobUpdate}
    (hbase : Number.le 0 cfg.baseDelayMs = true) (hmax : Number.le 0 cfg.maxDelayMs = true)
    (hoverdue : job.nextAttemptAt < now) (hother : job ∈ s.rows → job.id ≠ settled.id)
    (hu : settlement cfg settled attempt now outcome = some u) :
    KeepsOrder job s.rows (Table.updateWhere (·.id = settled.id) (u.apply now) s.rows)
      (.settle settled attempt outcome rest) (processNext rest) := by
  have hlater : ∀ row ∈ s.rows, row.id = settled.id → u.status = .pending →
      job.nextAttemptAt < (u.apply now row).nextAttemptAt := by
    intro row _ _ hpending
    cases outcome with
    | noHandler =>
        cases hu
        cases hpending
    | resolved =>
        cases hu
        cases hpending
    | threw message =>
        cases message with
        | none => cases hu
        | some message =>
            rw [settlement] at hu
            split at hu
            · cases hu
              cases hpending
            · obtain ⟨due, hdue, rfl⟩ := Option.map_eq_some_iff.mp hu
              -- a retry is due no earlier than now, and the job was due before
              exact hoverdue.trans_le (le_dueAfter hbase hmax hdue)
  constructor
  · intro hjob
    exact .inl (mem_updateWhere_of_ne hjob (hother hjob))
  · intro r hr
    exact (mem_ahead_of_updateWhere hlater hr).1
  · intro r _ _ hrest
    cases rest with
    | nil => cases hrest
    | cons job' rest => exact ⟨_, rfl, hrest⟩
  · intro pc' hpc' r hr
    rw [(mem_processNext hpc').2.1] at hr
    exact hr

/-- A new job is due now. -/
theorem keepsOrder_insert {req : EnqueueRequest Payload} (id : JobId) (created : Timestamp)
    (hoverdue : job.nextAttemptAt < now) :
    KeepsOrder job s.rows (s.rows ++ [newJob cfg req now id created]) (.enqueueInsert req)
      none := by
  constructor
  · intro hjob
    exact .inl (List.mem_append_left _ hjob)
  · intro r hr
    obtain ⟨hmem, hpending, hdue, hid⟩ := mem_ahead.mp hr
    rcases List.mem_append.mp hmem with hold | hnew
    · exact mem_ahead.mpr ⟨hold, hpending, hdue, hid⟩
    · obtain rfl := List.mem_singleton.mp hnew
      exact absurd hdue (not_le.mpr hoverdue)
  · rintro r - - ⟨⟩
  · rintro pc' ⟨⟩

/-- **Step lemma.** Every step of a clean run but a select keeps the order. -/
theorem Call.keepsOrder (hbase : Number.le 0 cfg.baseDelayMs = true)
    (hmax : Number.le 0 cfg.maxDelayMs = true) (hI : CleanInv cfg s.rows s.log)
    (hA : PollClaims s ⟨p, pc⟩) (hR : CleanReady cfg s (.call now) pc)
    (hpending : job.status = .pending) (hoverdue : job.nextAttemptAt < now)
    (h : Call cfg now p s pc s' next) (hselect : pc ≠ .selectDueJobs) :
    KeepsOrder job s.rows s'.rows pc next := by
  cases h with
  | @selectStale before stale =>
      apply KeepsOrder.of_none rfl
      rintro pc' ⟨⟩
      cases stale <;> rfl
  | selectStaleInvalid =>
      apply KeepsOrder.of_none rfl
      rintro pc' ⟨⟩
  | reclaim => exact absurd rfl (hA.notReclaim _ _)
  | selectDue => exact absurd rfl hselect
  | @pick picked row rest => exact keepsOrder_pick hI (hA.waiting picked List.mem_cons_self).1
  | @handlerMissing job' attempt rest =>
      apply KeepsOrder.of_same
      · intro r hr
        exact ⟨_, rfl, hr⟩
      · rintro pc' ⟨⟩ r hr
        exact hr
  | @invoke job' attempt rest =>
      apply KeepsOrder.of_same
      · intro r hr
        exact ⟨_, rfl, hr⟩
      · rintro pc' ⟨⟩ r hr
        exact hr
  | @handlerEnds job' attempt outcome rest =>
      apply KeepsOrder.of_same
      · intro r hr
        exact ⟨_, rfl, hr⟩
      · rintro pc' ⟨⟩ r hr
        exact hr
  | @settle settled row attempt outcome rest u hu =>
      apply keepsOrder_settle hbase hmax hoverdue _ hu
      -- the log says that the settled job is in processing
      intro hjob hid
      obtain ⟨-, hstage⟩ := hA.inFlight settled attempt _ rfl
      have hstatus := (hI.tracked job hjob).status
      rw [hpending, hid] at hstatus
      cases hcalled : decide (outcome ≠ .noHandler) with
      | false =>
          rw [hcalled] at hstage
          obtain ⟨found, now', older, heq, -⟩ := hstage
          rw [heq] at hstatus
          cases hstatus
      | true =>
          rw [hcalled] at hstage
          obtain ⟨older, heq⟩ := hstage
          rw [heq] at hstatus
          cases hstatus
  | @settleInvalid job' attempt outcome rest hinvalid =>
      have hends := hR.recordable now job' attempt outcome rest rfl rfl
      exact absurd hinvalid (settlement_ne_none_iff.mpr hends)
  | @rowMissing _ id hupdates hnone =>
      have habsent := getJob_eq_none hnone
      cases pc with
      | reclaim job' rest => exact absurd rfl (hA.notReclaim _ _)
      | processJob job' rest =>
          cases hupdates
          exact absurd rfl (habsent job' (hA.waiting job' List.mem_cons_self).1)
      | settle job' attempt outcome rest =>
          cases hupdates
          obtain ⟨row, hrow, hid⟩ := (hA.inFlight job' attempt _ rfl).1.exists_row
          exact absurd hid (habsent row hrow)
      | _ => cases hupdates
  | manualRetry => exact absurd rfl (hA.notManual _)
  | manualRetryRejected => exact absurd rfl (hA.notManual _)
  | insert id created => exact keepsOrder_insert id created hoverdue
  | findMiss =>
      apply KeepsOrder.of_none rfl
      rintro pc' ⟨⟩
      rfl
  | insertConflict =>
      apply KeepsOrder.of_none rfl
      rintro pc' ⟨⟩
      rfl
  | findHit =>
      apply KeepsOrder.of_none rfl
      rintro pc' ⟨⟩
  | refindHit =>
      apply KeepsOrder.of_none rfl
      rintro pc' ⟨⟩
  | refindMiss =>
      apply KeepsOrder.of_none rfl
      rintro pc' ⟨⟩

/-- Attempts are not taken back. -/
theorem Attempted.effect {a : Action} {rows : List (RetryJob Payload)} {log : List (Event Payload)}
    (hA : PollClaims s ⟨p, pc⟩) (h : Effect cfg s a pc rows log next)
    (hattempted : Attempted job s.rows) : Attempted job rows := by
  cases h with
  | quiet => exact hattempted
  | reclaim => exact absurd rfl (hA.notReclaim _ _)
  | @pick now picked row rest =>
      have hpicked : picked ∈ s.rows := (hA.waiting picked List.mem_cons_self).1
      refine hattempted.updateWhere (fun _ _ => rfl) ?_ fun row _ _ hrow _ => hrow
      intro row _ hid _ hp
      have hsame : row.id = picked.id := of_decide_eq_true hp
      exact (hattempted.all picked hpicked (hsame.symm.trans hid)).trans (Nat.lt_succ_self _)
  | invoke => exact hattempted
  | settle hu =>
      refine hattempted.updateWhere (fun _ _ => rfl) ?_ fun row _ _ hrow _ => hrow
      intro row _ _ hrow _
      rw [apply_attempts, settlement_attempts hu]
      exact hrow
  | lose => exact hattempted
  | insert _ hid => exact hattempted.concat hid

end Step

/-! ## The wait of one job -/

/-- The job has been passed over by every poll so far; `served` are the jobs that went before it. -/
structure Passed (cfg : RetryQueueConfig) (job : RetryJob Payload) (rows₀ : List (RetryJob Payload))
    (n : ℕ) (c : QueueState Payload) (served : List JobId) : Prop where
  stands : job ∈ c.shared.rows
  unselected : ∀ t k, c.threads t = some k → job ∉ k.pc.waiting
  count : served.length = n * cfg.concurrency
  nodup : served.Nodup
  subset : ∀ id ∈ served, ∃ r ∈ ahead job rows₀, r.id = id
  /-- Nobody new is ahead, and whoever has been served is not, unless still held by the poll. -/
  before : ∀ r ∈ ahead job c.shared.rows, (∃ r₀ ∈ ahead job rows₀, r₀.id = r.id) ∧
    (r.id ∈ served → ∃ t k, c.threads t = some k ∧ r ∈ k.pc.waiting)

/-- Where the job is after so many polls. -/
inductive Wait (cfg : RetryQueueConfig) (job : RetryJob Payload) (rows₀ : List (RetryJob Payload))
    (n : ℕ) (c : QueueState Payload) : Prop where
  | attempted : Attempted job c.shared.rows → Wait cfg job rows₀ n c
  | selected (t : ThreadId) (k : Task Payload) : job ∈ c.shared.rows → c.threads t = some k →
      job ∈ k.pc.waiting → Wait cfg job rows₀ n c
  | passed (served : List JobId) : Passed cfg job rows₀ n c served → Wait cfg job rows₀ n c

section Wait

variable {job : RetryJob Payload} {rows₀ : List (RetryJob Payload)} {n : ℕ}
  {c c' : QueueState Payload}

/-- Nobody ahead, nobody before. -/
theorem Passed.length_le {served : List JobId} (h : Passed cfg job rows₀ n c served) :
    n * cfg.concurrency ≤ (ahead job rows₀).length := by
  have hsub : served ⊆ (ahead job rows₀).map (·.id) := by
    intro id hid
    exact List.mem_map.mpr (h.subset id hid)
  calc n * cfg.concurrency = served.length := h.count.symm
    _ ≤ ((ahead job rows₀).map (·.id)).length := (h.nodup.subperm hsub).length_le
    _ = (ahead job rows₀).length := List.length_map _

/-- A thread that holds a job is a poll, and there is only one. -/
theorem eq_of_waiting {t t' : ThreadId} {k k' : Task Payload} {r : RetryJob Payload}
    (hH : Threads.Holds (fun s => CleanInv cfg s.rows s.log) PollClaims OnePoll c)
    (hk : c.threads t = some k) (hk' : c.threads t' = some k') (hr : r ∈ k.pc.waiting)
    (hr' : k'.pc.request = none) : t = t' := by
  by_contra hne
  have hrequest : k.pc.request = none := by
    cases hpc : k.pc with
    | enqueueFind req =>
        rw [hpc] at hr
        cases hr
    | enqueueInsert req =>
        rw [hpc] at hr
        cases hr
    | enqueueRefind req =>
        rw [hpc] at hr
        cases hr
    | _ => rfl
  exact hH.compatible t t' k k' hne hk hk' hrequest hr'

/-- A step that keeps the order keeps the place of the job. -/
theorem Wait.of_keepsOrder {t : ThreadId} {p : ProcessId} {pc : Pc Payload} {s : Store Payload}
    {next : Option (Pc Payload)} (hpending : job.status = .pending)
    (hk : c.threads t = some ⟨p, pc⟩) (hkeeps : KeepsOrder job c.shared.rows s.rows pc next)
    (hattempted : Attempted job c.shared.rows → Attempted job s.rows)
    (h : Wait cfg job rows₀ n c) :
    Wait cfg job rows₀ n ⟨s, Function.update c.threads t (next.map (⟨p, ·⟩))⟩ := by
  -- a pending job that is held is held on
  have hheld : ∀ r ∈ s.rows, r.status = .pending →
      (∃ t' k', c.threads t' = some k' ∧ r ∈ k'.pc.waiting) →
      ∃ t' k', Function.update c.threads t (next.map (⟨p, ·⟩)) t' = some k' ∧
        r ∈ k'.pc.waiting := by
    rintro r hr hstatus ⟨t', k', hk', hwaiting⟩
    by_cases ht : t' = t
    · subst ht
      obtain rfl : (⟨p, pc⟩ : Task Payload) = k' := Option.some.inj (hk.symm.trans hk')
      obtain ⟨pc', hpc', hwaiting'⟩ := hkeeps.kept r hr hstatus hwaiting
      refine ⟨t', ⟨p, pc'⟩, ?_, hwaiting'⟩
      rw [Function.update_self, hpc']
      rfl
    · exact ⟨t', k', (Function.update_of_ne ht _ _).trans hk', hwaiting⟩
  cases h with
  | attempted h => exact .attempted (hattempted h)
  | selected t' k' hstands hk' hwaiting =>
      rcases hkeeps.stands hstands with hrow | hpicked
      · obtain ⟨t'', k'', hk'', hwaiting''⟩ := hheld job hrow hpending ⟨t', k', hk', hwaiting⟩
        exact .selected t'' k'' hrow hk'' hwaiting''
      · exact .attempted hpicked
  | passed served h =>
      rcases hkeeps.stands h.stands with hrow | hpicked
      · refine .passed served ⟨hrow, ?_, h.count, h.nodup, h.subset, ?_⟩
        · intro t' k' hk' hwaiting
          rcases Threads.update_eq_some hk' with ⟨-, hself⟩ | ⟨-, hother⟩
          · obtain ⟨pc', hpc', rfl⟩ := Option.map_eq_some_iff.mp hself
            exact h.unselected t _ hk (hkeeps.taken pc' hpc' job hwaiting)
          · exact h.unselected t' k' hother hwaiting
        · intro r hr
          obtain ⟨hcame, hserved⟩ := h.before r (hkeeps.ahead r hr)
          obtain ⟨hmem, hstatus, -, -⟩ := mem_ahead.mp hr
          exact ⟨hcame, fun hid => hheld r hmem hstatus (hserved hid)⟩
      · exact .attempted hpicked

/-- A poll that selects takes the job, or a whole batch from ahead of it. -/
theorem Wait.of_select {t : ThreadId} {p : ProcessId} {now : Timestamp}
    {due : List (RetryJob Payload)}
    (hH : Threads.Holds (fun s => CleanInv cfg s.rows s.log) PollClaims OnePoll c)
    (hpending : job.status = .pending) (hoverdue : job.nextAttemptAt < now)
    (hk : c.threads t = some ⟨p, .selectDueJobs⟩)
    (hdue : DueJobs cfg.concurrency now c.shared.rows due) {s : Store Payload}
    (hrows : s.rows = c.shared.rows) (h : Wait cfg job rows₀ n c) :
    Wait cfg job rows₀ (n + 1) ⟨s, Function.update c.threads t ((processNext due).map (⟨p, ·⟩))⟩ := by
  -- the poll holds no job before, and no other call does
  have hnone : ∀ t' k' r, c.threads t' = some k' → r ∉ k'.pc.waiting := by
    intro t' k' r hk' hr
    obtain rfl : t' = t := eq_of_waiting hH hk' hk hr rfl
    obtain rfl : (⟨p, .selectDueJobs⟩ : Task Payload) = k' := Option.some.inj (hk.symm.trans hk')
    cases hr
  have hnext : ∀ r ∈ due, ∃ t' k',
      Function.update c.threads t ((processNext due).map (⟨p, ·⟩)) t' = some k' ∧
        r ∈ k'.pc.waiting := by
    intro r hr
    cases due with
    | nil => cases hr
    | cons first rest =>
        refine ⟨t, ⟨p, .processJob first rest⟩, ?_, hr⟩
        rw [Function.update_self]
        rfl
  cases h with
  | attempted h => exact .attempted (hrows ▸ h)
  | selected t' k' hstands hk' hwaiting => exact absurd hwaiting (hnone t' k' job hk')
  | passed served h =>
      by_cases hjob : job ∈ due
      · obtain ⟨t', k', hk', hwaiting⟩ := hnext job hjob
        exact .selected t' k' (hrows ▸ h.stands) hk' hwaiting
      · have hisDue : isDue now job = true := by simp [isDue, hpending, hoverdue.le]
        obtain ⟨hfull, hfirst⟩ := hdue.full h.stands hisDue hjob
        obtain ⟨hspec, hdistinct⟩ := hdue.spec hH.inv.ids
        have hahead : ∀ r ∈ due, r ∈ ahead job c.shared.rows := by
          intro r hr
          obtain ⟨hmem, hstatus, -⟩ := hspec r hr
          refine mem_ahead.mpr ⟨hmem, hstatus, hfirst r hr, fun hid => hjob ?_⟩
          obtain rfl := hH.inv.ids.eq hmem h.stands hid
          exact hr
        have hunserved : ∀ r ∈ ahead job c.shared.rows, r.id ∉ served := by
          intro r hr hid
          obtain ⟨t', k', hk', hwaiting⟩ := (h.before r hr).2 hid
          exact hnone t' k' r hk' hwaiting
        refine .passed (served ++ due.map (·.id)) ⟨hrows ▸ h.stands, ?_, ?_, ?_, ?_, ?_⟩
        · intro t' k' hk' hwaiting
          rcases Threads.update_eq_some hk' with ⟨-, hself⟩ | ⟨-, hother⟩
          · obtain ⟨pc', hpc', rfl⟩ := Option.map_eq_some_iff.mp hself
            rw [(mem_processNext hpc').2.1] at hwaiting
            exact hjob hwaiting
          · exact hnone t' k' job hother hwaiting
        · rw [List.length_append, List.length_map, h.count, hfull]
          ring
        · refine List.nodup_append'.mpr ⟨h.nodup, hdistinct, ?_⟩
          intro id hid hnew
          obtain ⟨r, hr, rfl⟩ := List.mem_map.mp hnew
          exact hunserved r (hahead r hr) hid
        · intro id hid
          rcases List.mem_append.mp hid with hold | hnew
          · exact h.subset id hold
          · obtain ⟨r, hr, rfl⟩ := List.mem_map.mp hnew
            exact (h.before r (hahead r hr)).1
        · intro r hr
          have hr : r ∈ ahead job c.shared.rows := hrows ▸ hr
          refine ⟨(h.before r hr).1, fun hid => hnext r ?_⟩
          have hnew := (List.mem_append.mp hid).resolve_left (hunserved r hr)
          obtain ⟨r', hr', hsame⟩ := List.mem_map.mp hnew
          obtain rfl := hH.inv.ids.eq (hspec r' hr').1 (mem_ahead.mp hr).1 hsame
          exact hr'

/-- Nothing happens to the table, and no call takes or drops a job. -/
theorem Wait.of_same (hrows : c'.shared.rows = c.shared.rows)
    (hheld : ∀ r, (∃ t k, c.threads t = some k ∧ r ∈ k.pc.waiting) ↔
      ∃ t k, c'.threads t = some k ∧ r ∈ k.pc.waiting) (h : Wait cfg job rows₀ n c) :
    Wait cfg job rows₀ n c' := by
  cases h with
  | attempted h => exact .attempted (hrows ▸ h)
  | selected t k hstands hk hwaiting =>
      obtain ⟨t', k', hk', hwaiting'⟩ := (hheld job).mp ⟨t, k, hk, hwaiting⟩
      exact .selected t' k' (hrows ▸ hstands) hk' hwaiting'
  | passed served h =>
      refine .passed served ⟨hrows ▸ h.stands, ?_, h.count, h.nodup, h.subset, ?_⟩
      · intro t k hk hwaiting
        obtain ⟨t', k', hk', hwaiting'⟩ := (hheld job).mpr ⟨t, k, hk, hwaiting⟩
        exact h.unselected t' k' hk' hwaiting'
      · intro r hr
        obtain ⟨hcame, hserved⟩ := h.before r (hrows ▸ hr)
        exact ⟨hcame, fun hid => (hheld r).mp (hserved hid)⟩

/-- A call that begins holds no job. -/
theorem waiting_of_isEntry {pc : Pc Payload} (h : pc.isEntry = true) : pc.waiting = [] := by
  cases pc with
  | reclaimStaleProcessingJobs => rfl
  | manualRetry id => rfl
  | enqueueFind req => rfl
  | _ => cases h

/-- At the beginning nobody has been served. -/
theorem Wait.begin (hjob : job ∈ c.shared.rows) : Wait cfg job c.shared.rows 0 c := by
  by_cases hheld : ∃ t k, c.threads t = some k ∧ job ∈ k.pc.waiting
  · obtain ⟨t, k, hk, hwaiting⟩ := hheld
    exact .selected t k hjob hk hwaiting
  · refine .passed [] ⟨hjob, ?_, (Nat.zero_mul _).symm, List.nodup_nil, ?_, ?_⟩
    · intro t k hk hwaiting
      exact hheld ⟨t, k, hk, hwaiting⟩
    · rintro id ⟨⟩
    · intro r hr
      refine ⟨⟨r, hr, rfl⟩, ?_⟩
      rintro ⟨⟩

end Wait

/-! ## The result -/

section Result

variable {job : RetryJob Payload} {n : ℕ} {c c' : QueueState Payload}

/-- **Run lemma.** After any number of polls an overdue job has been attempted again, or is about to
be, or has been passed over by each of them. -/
theorem PollRun.wait (hbase : Number.le 0 cfg.baseDelayMs = true)
    (hmax : Number.le 0 cfg.maxDelayMs = true)
    (hc : ((queueSystem Payload cfg).restrict (cleanGuard cfg)).Reachable c)
    (hjob : job ∈ c.shared.rows) (hpending : job.status = .pending)
    (hoverdue : job.nextAttemptAt < c.shared.clock) (h : PollRun cfg c n c') :
    Wait cfg job c.shared.rows n c' ∧ job.nextAttemptAt < c'.shared.clock := by
  induction h with
  | start => exact ⟨.begin hjob, hoverdue⟩
  | @poll n c₁ c₂ l hrun hstep hselect ih =>
      obtain ⟨hwait, hlate⟩ := ih
      have hH := clean_holds (hrun.reachable hc)
      obtain ⟨hguard, hstep⟩ := hstep
      cases hstep with
      | start => exact hselect.elim
      | env => exact hselect.elim
      | @act t a k s next hk hact =>
          have hR := cleanReady_of_guard hguard hk
          cases hact with
          | dbError => exact hselect.elim
          | @call now p pc s s' next hcall =>
              obtain ⟨p', hp'⟩ := hselect
              obtain ⟨rfl, rfl⟩ := Task.mk.inj (Option.some.inj (hk.symm.trans hp'))
              have hnow := hlate.trans_le (hR.clock now rfl)
              cases hcall with
              -- the poll selects: it takes the job, or `concurrency` others that were ahead of it
              | selectDue hdue => exact ⟨hwait.of_select hH hpending hnow hk hdue rfl, hnow⟩
              | rowMissing hupdates => cases hupdates
  | @other n c₁ c₂ l hrun hstep hselect ih =>
      obtain ⟨hwait, hlate⟩ := ih
      have hH := clean_holds (hrun.reachable hc)
      obtain ⟨hguard, hstep⟩ := hstep
      cases hstep with
      | @start t k hfree hentry =>
          -- a call that begins holds no job
          refine ⟨Wait.of_same (c := c₁) rfl (fun r => ?_) hwait, hlate⟩
          constructor
          · rintro ⟨t', k', hk', hr⟩
            have hne : t' ≠ t := by
              rintro rfl
              rw [hfree] at hk'
              cases hk'
            exact ⟨t', k', (Function.update_of_ne hne _ _).trans hk', hr⟩
          · rintro ⟨t', k', hk', hr⟩
            rcases Threads.update_eq_some hk' with ⟨-, hself⟩ | ⟨-, hother⟩
            · cases hself
              rw [waiting_of_isEntry hentry] at hr
              cases hr
            · exact ⟨t', k', hother, hr⟩
      | @act t a k s next hk hact =>
          have hR := cleanReady_of_guard hguard hk
          have hA := hH.assertion t k hk
          cases hact with
          | dbError => exact absurd rfl hR.noError
          | @call now p pc s s' next hcall =>
              have hnow := hlate.trans_le (hR.clock now rfl)
              have hpc : pc ≠ .selectDueJobs := by
                rintro rfl
                exact hselect ⟨p, hk⟩
              -- every other query leaves what is ahead of the job, or puts something behind it
              have hkeeps := hcall.keepsOrder hbase hmax hH.inv hA hR hpending hnow hpc
              have heffect := hcall.effect
              exact ⟨hwait.of_keepsOrder hpending hk hkeeps fun h => h.effect hA heffect, hnow⟩
      | @env b s henv =>
          cases henv with
          | registerHandler =>
              refine ⟨Wait.of_same (c := c₁) rfl (fun r => ?_) hwait, hlate⟩
              simp [queue]
          | crash => exact hguard.1.elim

/-- **No job starves.** On a clean run with delays that are not negative, a pending job that is
overdue has been attempted again as soon as the polls since then could have taken all the jobs that
were due no later, and one more. -/
theorem attempted_after_polls (hbase : Number.le 0 cfg.baseDelayMs = true)
    (hmax : Number.le 0 cfg.maxDelayMs = true)
    (hc : ((queueSystem Payload cfg).restrict (cleanGuard cfg)).Reachable c)
    (hjob : job ∈ c.shared.rows) (hpending : job.status = .pending)
    (hoverdue : job.nextAttemptAt < c.shared.clock) (hrun : PollRun cfg c n c')
    (hpolls : (ahead job c.shared.rows).length < n * cfg.concurrency)
    (hbetween : BetweenPolls c') :
    ∃ row ∈ c'.shared.rows, row.id = job.id ∧ job.attempts < row.attempts := by
  obtain ⟨hwait, -⟩ := hrun.wait hbase hmax hc hjob hpending hoverdue
  cases hwait with
  | attempted h =>
      obtain ⟨row, hrow, hid⟩ := h.exists_row
      exact ⟨row, hrow, hid, h.all row hrow hid⟩
  | selected t k _ hk hwaiting =>
      -- the job is held by a poll, and none is under way
      have hrequest := hbetween t k hk
      cases hpc : k.pc with
      | enqueueFind req =>
          rw [hpc] at hwaiting
          cases hwaiting
      | enqueueInsert req =>
          rw [hpc] at hwaiting
          cases hwaiting
      | enqueueRefind req =>
          rw [hpc] at hwaiting
          cases hwaiting
      | _ =>
          rw [hpc] at hrequest
          exact absurd rfl hrequest
  -- passed over by every poll: then more jobs were ahead of it than there were
  | passed served h => exact absurd h.length_le (not_le.mpr hpolls)

end Result

/-! ## Two jobs, one at a time -/

/-- One job a poll. -/
def oneAtATime : RetryQueueConfig := { retryQueueDefaults with concurrency := 1 }

/-- The row of a job enqueued at the beginning. -/
def waitingJob (id : JobId) : RetryJob Unit :=
  newJob oneAtATime ⟨.paymentExecution, (), id, none⟩ 0 id 0

section Steps

variable {c c₁ : QueueState Payload} {n : ℕ} {t : ThreadId} {p : ProcessId} {pc : Pc Payload}
  {now : Timestamp} {s : Store Payload} {next : Option (Pc Payload)}

/-- A job without a handler is marked failed. -/
theorem recordable_noHandler (job : RetryJob Payload) (attempt : ℕ) (now : Timestamp) :
    Recordable cfg job attempt now .noHandler :=
  settlement_ne_none_iff.mp (Option.some_ne_none _)

/-- A call of a clean run goes on, with the end of every attempt written. -/
theorem cleanGuard_call (hk : c₁.threads t = some ⟨p, pc⟩) (hclock : c₁.shared.clock ≤ now)
    (hended : ∀ job attempt outcome rest, pc = .settle job attempt outcome rest →
      Recordable cfg job attempt now outcome) : cleanGuard cfg c₁ (.act t (.call now)) := by
  refine ⟨hclock, ?_⟩
  intro k job attempt outcome rest hk' hpc
  obtain rfl : (⟨p, pc⟩ : Task Payload) = k := Option.some.inj (hk.symm.trans hk')
  exact hended job attempt outcome rest hpc

theorem PollRun.call (h : PollRun cfg c n c₁) (t : ThreadId) (now : Timestamp)
    (hk : c₁.threads t = some ⟨p, pc⟩) (hcall : Call cfg now p c₁.shared pc s next)
    (hclock : c₁.shared.clock ≤ now)
    (hended : ∀ job attempt outcome rest, pc = .settle job attempt outcome rest →
      Recordable cfg job attempt now outcome) (hpc : pc ≠ .selectDueJobs) :
    PollRun cfg c n ⟨{ s with clock := now }, Function.update c₁.threads t (next.map (⟨p, ·⟩))⟩ := by
  refine h.other ⟨cleanGuard_call hk hclock hended, queue_call t now hk hcall⟩ ?_
  rintro ⟨p', hp'⟩
  exact hpc (Task.mk.inj (Option.some.inj (hk.symm.trans hp'))).2

theorem PollRun.select (h : PollRun cfg c n c₁) (t : ThreadId) (now : Timestamp)
    (due : List (RetryJob Payload)) (hk : c₁.threads t = some ⟨p, .selectDueJobs⟩)
    (hdue : DueJobs cfg.concurrency now c₁.shared.rows due) (hclock : c₁.shared.clock ≤ now) :
    PollRun cfg c (n + 1) ⟨{ c₁.shared with clock := now },
      Function.update c₁.threads t ((processNext due).map (⟨p, ·⟩))⟩ := by
  refine h.poll ⟨cleanGuard_call hk hclock ?_, queue_call t now hk (.selectDue hdue)⟩ ⟨p, hk⟩
  rintro job attempt outcome rest ⟨⟩

theorem PollRun.begins (h : PollRun cfg c n c₁) (t : ThreadId) (p : ProcessId) (pc : Pc Payload)
    (hfree : c₁.threads t = none) (hentry : pc.isEntry = true)
    (hguard : cleanGuard cfg c₁ (.start t ⟨p, pc⟩)) :
    PollRun cfg c n ⟨c₁.shared, Function.update c₁.threads t (some ⟨p, pc⟩)⟩ :=
  h.other ⟨hguard, queue_start t p pc hfree hentry⟩ not_false

/-- The run from where a run has come to. -/
theorem PollRun.anew (_ : PollRun cfg c n c₁) : PollRun cfg c₁ 0 c₁ := .start

end Steps

/-- Both jobs are due, and `b` waits for the second poll. -/
theorem attempted_after_polls_second : ∃ c c' : QueueState Unit,
    waitingJob "b" ∈ c.shared.rows ∧ ahead (waitingJob "b") c.shared.rows = [waitingJob "a"] ∧
      PollRun oneAtATime c 2 c' ∧
      ∃ row ∈ c'.shared.rows, row.id = "b" ∧ (waitingJob "b").attempts < row.attempts := by
  have hstale : staleBefore oneAtATime 10 = some (-59990) := by decide +kernel
  have h₀ : PollRun oneAtATime (emptyQueue Unit) 0 (emptyQueue Unit) := .start
  -- both are enqueued, and no process has a handler for them
  have h₁ := h₀.begins 0 0 (.enqueueFind ⟨.paymentExecution, (), "a", none⟩)
    rfl rfl ⟨⟨by simp, fun h => by cases h⟩, trivial⟩
  have h₂ := h₁.call 0 0 rfl (.findMiss rfl) (le_refl (0 : ℤ)) (by simp) (by simp)
  have h₃ := h₂.call 0 0 rfl (.insert "a" 0 rfl rfl) (le_refl (0 : ℤ)) (by simp)
    (by simp)
  have h₄ := h₃.begins 1 0 (.enqueueFind ⟨.paymentExecution, (), "b", none⟩)
    rfl rfl ⟨⟨by simp, fun h => by cases h⟩, trivial⟩
  have h₅ := h₄.call 1 0 rfl (.findMiss rfl) (le_refl (0 : ℤ)) (by simp) (by simp)
  have h₆ := h₅.call 1 0 rfl (.insert "b" 0 rfl rfl) (le_refl (0 : ℤ)) (by simp)
    (by simp)
  have h₇ := h₆.begins 2 0 .reclaimStaleProcessingJobs rfl rfl
    ⟨⟨by simp, fun _ t k hk => by
      by_cases h1 : t = 1 <;> by_cases h0 : t = 0 <;> simp [h1, h0, emptyQueue] at hk⟩, trivial⟩
  have h₈ := h₇.call 2 10 rfl (.selectStale hstale (.refl _))
    (show (0 : ℤ) ≤ 10 by decide) (by simp) (by simp)
  have hc := h₈.reachable (.init emptyQueue_init)
  -- two polls
  have k₀ := h₈.anew
  have k₁ := k₀.select 2 10 [waitingJob "a"] rfl
    ⟨[waitingJob "a", waitingJob "b"], .refl _, by decide +kernel, rfl⟩ (le_refl (10 : ℤ))
  have k₂ := k₁.call 2 10 rfl (.pick rfl) (le_refl (10 : ℤ)) (by simp) (by simp)
  have k₃ := k₂.call 2 10 rfl (.handlerMissing rfl) (le_refl (10 : ℤ)) (by simp)
    (by simp)
  have k₄ := k₃.call 2 10 rfl (.settle rfl rfl) (le_refl (10 : ℤ))
    (by rintro _ _ _ _ ⟨⟩; exact recordable_noHandler _ _ _) (by simp)
  have k₅ := k₄.begins 3 0 .reclaimStaleProcessingJobs rfl rfl
    ⟨⟨by simp, fun _ t k hk => by
      by_cases h2 : t = 2 <;> by_cases h1 : t = 1 <;> by_cases h0 : t = 0 <;>
        simp [h2, h1, h0, processNext, emptyQueue] at hk⟩, trivial⟩
  have k₆ := k₅.call 3 10 rfl (.selectStale hstale (.refl _)) (le_refl (10 : ℤ))
    (by simp) (by simp)
  have k₇ := k₆.select 3 10 [waitingJob "b"] rfl
    ⟨[waitingJob "b"], .refl _, List.pairwise_singleton _ _, rfl⟩ (le_refl (10 : ℤ))
  have k₈ := k₇.call 3 10 rfl (.pick rfl) (le_refl (10 : ℤ)) (by simp) (by simp)
  have k₉ := k₈.call 3 10 rfl (.handlerMissing rfl) (le_refl (10 : ℤ)) (by simp)
    (by simp)
  have k₁₀ := k₉.call 3 10 rfl (.settle rfl rfl) (le_refl (10 : ℤ))
    (by rintro _ _ _ _ ⟨⟩; exact recordable_noHandler _ _ _) (by simp)
  have hb : waitingJob "b" ∈ [waitingJob "a", waitingJob "b"] := by decide
  have hahead : ahead (waitingJob "b") [waitingJob "a", waitingJob "b"] = [waitingJob "a"] := by
    decide
  refine ⟨_, _, hb, hahead, k₁₀, ?_⟩
  refine attempted_after_polls (by decide +kernel) (by decide +kernel)
    (h₈.reachable (.init emptyQueue_init)) hb rfl (by decide) k₁₀ (by decide) ?_
  intro t k hk
  by_cases h3 : t = 3 <;> by_cases h2 : t = 2 <;> by_cases h1 : t = 1 <;> by_cases h0 : t = 0 <;>
    simp [h3, h2, h1, h0, processNext, emptyQueue] at hk

end ThalosBackend.RetryQueue
