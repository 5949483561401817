import ThalosBackend.RetryQueue.Exclusive

/-!
# The attempt bound across crashes

The attempt counter is written when a job is picked, but whether the attempts are used up is asked
only after the handler threw. A process that crashes during the last attempt leaves the job in
`processing` with its attempts used up; the stale reclaim puts it back without looking at them, and
the handler runs once more (`attempts_exceeded_after_crash`). A handler that throws a value without a
text in the last attempt has the same effect: `String` throws before the end is written.

On runs in which no last attempt is lost, and every update finds what its read returned, the handler
of a job is called at most `max(1, max_attempts)` times, whatever crashes otherwise
(`attemptBounded_of_attemptsKept`). The invariant counts calls against the attempt counter, and
keeps every job that may be picked below its limit; a job in `processing` is below it too, or a call
has it in flight.
-/

set_option autoImplicit false

namespace ThalosBackend.RetryQueue

open Js (Timestamp)

variable {Payload : Type} {cfg : RetryQueueConfig}

/-! ## The property -/

/-- A call of a handler. -/
def Event.isInvoked : Event Payload → Bool
  | .invoked _ _ => true
  | _ => false

/-- How often the handler of a job was called. -/
def invocations (id : JobId) (log : List (Event Payload)) : ℕ :=
  (history id log).countP Event.isInvoked

/-- **The attempt bound** of a queue: in every reachable state the handler of a job was called at most
as often as the job has attempts, and a job whose attempts are used up has one in flight or has ended;
and no step from there picks such a job. -/
def AttemptBounded (M : StepSystem (QueueState Payload) (QueueStep Payload)) : Prop :=
  ∀ c, M.Reachable c →
    (∀ row ∈ c.shared.rows, invocations row.id c.shared.log ≤ row.attemptLimit ∧
      (row.attemptLimit ≤ row.attempts →
        InFlight c row.id ∨ row.status = .failed ∨ row.status = .succeeded)) ∧
    ∀ l c', M.step c l c' → ∀ found now,
      c'.shared.log = .picked found now :: c.shared.log → found.attempts < found.attemptLimit

/-! ## The condition -/

/-- No job is retried by hand. -/
def NoManualRetry (_ : QueueState Payload) : QueueStep Payload → Prop
  | .start _ k => ∀ id, k.pc ≠ .manualRetry id
  | _ => True

/-- A job is picked with the attempt counter its select read. -/
def FreshAttempts (c : QueueState Payload) : QueueStep Payload → Prop
  | .act t (.call _) => ∀ k job rest, c.threads t = some k → k.pc = .processJob job rest →
      ∀ row ∈ c.shared.rows, row.id = job.id → row.attempts = job.attempts
  | _ => True

/-- Neither a crash nor a database error ends a call in the middle of the last attempt of a job, and
what the handler throws in it has a text. -/
def KeepsLastAttempt (c : QueueState Payload) : QueueStep Payload → Prop
  | .act t (.call _) => ∀ k job attempt rest, c.threads t = some k →
      k.pc = .settle job attempt (.threw none) rest → attempt < job.attemptLimit
  | .act t .dbError => ∀ k job attempt, c.threads t = some k →
      k.pc.inFlight = some (job, attempt) → attempt < job.attemptLimit
  | .env (.crash p) => ∀ t k job attempt, c.threads t = some k → k.process = p →
      k.pc.inFlight = some (job, attempt) → attempt < job.attemptLimit
  | _ => True

/-- No last attempt is lost, and updates find what their reads returned. -/
structure AttemptsKept (c : QueueState Payload) (l : QueueStep Payload) : Prop where
  claims : FreshClaims c l
  attempts : FreshAttempts c l
  lastAttempt : KeepsLastAttempt c l

/-! ## The invariant -/

/-- The table and the log: the attempt counters stay within the limits, below them where a job may be
picked, and count at least the calls of the handler. -/
structure AttemptInv (rows : List (RetryJob Payload)) (log : List (Event Payload)) : Prop where
  ids : Table.Unique (·.id) rows
  used : ∀ row ∈ rows, row.attempts ≤ row.attemptLimit
  pending : ∀ row ∈ rows, row.status = .pending → row.attempts < row.attemptLimit
  counted : ∀ row ∈ rows, invocations row.id log ≤ row.attempts
  known : ∀ id, (∀ row ∈ rows, row.id ≠ id) → history id log = []

/-- What a call knows about the jobs it holds. -/
structure AttemptClaims (s : Store Payload) (k : Task Payload) : Prop where
  waiting : ∀ job ∈ k.pc.waiting, job.status = .pending
  inFlight : ∀ job attempt, k.pc.inFlight = some (job, attempt) → 0 < attempt ∧
    Table.At (·.id) job.id (fun row => row.attempts = attempt ∧ row.maxAttempts = job.maxAttempts)
      s.rows
  limits : ∀ job ∈ k.pc.waiting,
    Table.At (·.id) job.id (fun row => row.maxAttempts = job.maxAttempts) s.rows
  marked : ∀ job attempt rest, k.pc = .lookUpHandler job attempt rest →
    invocations job.id s.log < attempt
  notManual : ∀ id, k.pc ≠ .manualRetry id

theorem attemptLimit_eq {row job : RetryJob Payload} (h : row.maxAttempts = job.maxAttempts) :
    row.attemptLimit = job.attemptLimit := by
  rw [RetryJob.attemptLimit, RetryJob.attemptLimit, h]

theorem invocations_append_of_isAnswer {id : JobId} {es log : List (Event Payload)}
    (h : ∀ e ∈ es, e.isAnswer = true) : invocations id (es ++ log) = invocations id log := by
  rw [invocations, history_append_of_isAnswer h, invocations]

/-- Only a call of its handler counts for a job. -/
theorem invocations_cons {id : JobId} {e : Event Payload} {log : List (Event Payload)}
    (h : e.isInvoked = false) : invocations id (e :: log) = invocations id log := by
  cases habout : e.about id with
  | false => rw [invocations, history_cons_ne habout, invocations]
  | true => rw [invocations, history_cons_self habout, List.countP_cons_of_neg (by simp [h]),
      invocations]

theorem invocations_invoked_self {id : JobId} {attempt : ℕ} {log : List (Event Payload)} :
    invocations id (.invoked id attempt :: log) = invocations id log + 1 := by
  rw [invocations, history_cons_self (by simp [Event.about]), List.countP_cons_of_pos (by rfl),
    invocations]

theorem invocations_invoked_ne {id id' : JobId} {attempt : ℕ} {log : List (Event Payload)}
    (h : id' ≠ id) : invocations id (.invoked id' attempt :: log) = invocations id log := by
  rw [invocations, history_cons_ne (by simpa [Event.about] using h), invocations]

/-- How a step counts for a job: not at all, or as the call of its handler. -/
theorem Effect.invocations {s : Store Payload} {a : Action} {pc : Pc Payload}
    {rows : List (RetryJob Payload)} {log : List (Event Payload)} {next : Option (Pc Payload)}
    (h : Effect cfg s a pc rows log next) (id : JobId) :
    invocations id log = invocations id s.log ∨
      ∃ job attempt rest, pc = .lookUpHandler job attempt rest ∧ job.id = id ∧ rows = s.rows ∧
        next = some (.runHandler job attempt rest) ∧
        RetryQueue.invocations id log = RetryQueue.invocations id s.log + 1 := by
  cases h with
  | quiet hes => exact .inl (invocations_append_of_isAnswer hes)
  | reclaim => exact .inl rfl
  | pick => exact .inl (invocations_cons rfl)
  | @invoke _ job attempt rest =>
      by_cases hid : job.id = id
      · subst hid
        exact .inr ⟨job, attempt, rest, rfl, rfl, rfl, rfl, invocations_invoked_self⟩
      · exact .inl (invocations_invoked_ne hid)
  | settle => exact .inl (invocations_cons rfl)
  | lose => exact .inl rfl
  | insert => exact .inl ((invocations_cons rfl).trans (invocations_cons rfl))

/-- Identities stay unique. -/
theorem Effect.ids {s : Store Payload} {a : Action} {pc : Pc Payload}
    {rows : List (RetryJob Payload)} {log : List (Event Payload)} {next : Option (Pc Payload)}
    (h : Effect cfg s a pc rows log next) (hu : Table.Unique (·.id) s.rows) :
    Table.Unique (·.id) rows := by
  cases h with
  | quiet => exact hu
  | reclaim => exact hu.updateWhere fun _ _ => rfl
  | pick => exact hu.updateWhere fun _ _ => rfl
  | invoke => exact hu
  | settle => exact hu.updateWhere fun _ _ => rfl
  | lose => exact hu
  | insert _ hid => exact hu.concat hid

/-- What one step keeps needs of the state before it: fresh updates, and jobs in `processing` below
their limit or in flight. -/
structure StepReady (c : QueueState Payload) (a : Action) (k : Task Payload) : Prop where
  fresh : ∀ now, a = .call now → FreshUpdate c k.pc
  attempts : ∀ now, a = .call now → ∀ job rest, k.pc = .processJob job rest →
    ∀ row ∈ c.shared.rows, row.id = job.id → row.attempts = job.attempts
  supported : Supported (fun row => row.attempts < row.attemptLimit) c

section Invariant

variable {c : QueueState Payload} {a : Action} {k : Task Payload} {rows : List (RetryJob Payload)}
  {log : List (Event Payload)} {next : Option (Pc Payload)}

/-- A job that is about to be picked is pending, and below its limit. -/
theorem StepReady.pick {now : Timestamp} {job row : RetryJob Payload}
    {rest : List (RetryJob Payload)} (hR : StepReady c (.call now) k)
    (hI : AttemptInv c.shared.rows c.shared.log) (hA : AttemptClaims c.shared k)
    (hpc : k.pc = .processJob job rest) (hrow : row ∈ c.shared.rows) (hid : row.id = job.id) :
    row.attempts = job.attempts ∧ row.attempts < row.attemptLimit := by
  have hfresh := hR.fresh now rfl
  rw [hpc] at hfresh
  have hpending : job.status = .pending := hA.waiting job (by simp [hpc, Pc.waiting])
  exact ⟨hR.attempts now rfl job rest hpc row hrow hid,
    hI.pending row hrow ((hfresh row hrow hid).trans hpending)⟩

/-- The counters stay within the limits. -/
theorem Effect.within (h : Effect cfg c.shared a k.pc rows log next) (hR : StepReady c a k)
    (hI : AttemptInv c.shared.rows c.shared.log) (hA : AttemptClaims c.shared k) :
    ∀ row ∈ rows, row.attempts ≤ row.attemptLimit ∧
      (row.status = .pending → row.attempts < row.attemptLimit) := by
  have hold : ∀ row ∈ c.shared.rows, row.attempts ≤ row.attemptLimit ∧
      (row.status = .pending → row.attempts < row.attemptLimit) := fun row hrow =>
    ⟨hI.used row hrow, hI.pending row hrow⟩
  generalize hpc : k.pc = pc at h
  cases h with
  | quiet => exact hold
  | invoke => exact hold
  | lose => exact hold
  | reclaim =>
      -- an orphaned job in processing is below its limit
      have hf := hR.fresh _ rfl
      rw [hpc] at hf
      refine Table.forall_mem_updateWhere (fun row hrow _ => hold row hrow) fun row hrow hid => ?_
      rw [decide_eq_true_eq] at hid
      have hlt : row.attempts < row.attemptLimit :=
        (hR.supported row hrow (hf.1 row hrow hid)).resolve_right (hid ▸ hf.2)
      exact ⟨hlt.le, fun _ => hlt⟩
  | pick =>
      refine Table.forall_mem_updateWhere (fun row hrow _ => hold row hrow) fun row hrow hid => ?_
      obtain ⟨heq, hlt⟩ := hR.pick hI hA hpc hrow (by simpa using hid)
      refine ⟨?_, fun hstatus => by cases hstatus⟩
      simp only [pickUpdate, apply_attempts, apply_attemptLimit, Option.getD_some]
      omega
  | settle hu =>
      refine Table.forall_mem_updateWhere (fun row hrow _ => hold row hrow) fun row hrow hid => ?_
      obtain ⟨hpos, hat⟩ := hA.inFlight _ _ (by rw [hpc]; rfl)
      obtain ⟨heq, hmax⟩ := hat.all row hrow (by simpa using hid)
      simp only [apply_attempts, apply_attemptLimit, settlement_attempts hu, Option.getD_none,
        apply_status, settlement_status hu]
      refine ⟨hI.used row hrow, fun hstatus => ?_⟩
      rw [heq, attemptLimit_eq hmax]
      exact lt_attemptLimit_of_statusAfter hpos hstatus
  | insert =>
      intro row hrow
      rcases List.mem_append.mp hrow with hrow | hrow
      · exact hold row hrow
      · rw [List.mem_singleton.mp hrow]
        exact ⟨Nat.zero_le _, fun _ => attemptLimit_pos _⟩

/-- A row after a step is an old one with at least its attempts, or new. -/
theorem Effect.old_row (h : Effect cfg c.shared a k.pc rows log next) (hR : StepReady c a k)
    {row : RetryJob Payload} (hrow : row ∈ rows) :
    (∃ old ∈ c.shared.rows, old.id = row.id ∧ old.attempts ≤ row.attempts) ∨
      ∀ old ∈ c.shared.rows, old.id ≠ row.id := by
  have hkept : ∀ (u : JobUpdate) (now : Timestamp) (id : JobId),
      (∀ old ∈ c.shared.rows, old.id = id → old.attempts ≤ (u.apply now old).attempts) →
      row ∈ Table.updateWhere (·.id = id) (u.apply now) c.shared.rows →
      ∃ old ∈ c.shared.rows, old.id = row.id ∧ old.attempts ≤ row.attempts := by
    intro u now id hle hmem
    obtain ⟨old, hold, rfl⟩ := Table.mem_updateWhere.mp hmem
    refine ⟨old, hold, ?_⟩
    by_cases hid : old.id = id
    · simpa [hid] using hle old hold hid
    · simp [hid]
  generalize hpc : k.pc = pc at h
  cases h with
  | quiet => exact .inl ⟨row, hrow, rfl, le_rfl⟩
  | invoke => exact .inl ⟨row, hrow, rfl, le_rfl⟩
  | lose => exact .inl ⟨row, hrow, rfl, le_rfl⟩
  | reclaim => exact .inl (hkept _ _ _ (fun _ _ _ => le_rfl) hrow)
  | pick =>
      refine .inl (hkept _ _ _ (fun old hold hid => ?_) hrow)
      rw [hR.attempts _ rfl _ _ hpc old hold hid]
      exact Nat.le_succ _
  | settle hu =>
      refine .inl (hkept _ _ _ (fun old _ _ => ?_) hrow)
      rw [apply_attempts, settlement_attempts hu, Option.getD_none]
  | insert _ hid =>
      rcases List.mem_append.mp hrow with hrow | hrow
      · exact .inl ⟨row, hrow, rfl, le_rfl⟩
      · rw [List.mem_singleton.mp hrow]
        exact .inr hid

/-- A job without a row has no history. -/
theorem Effect.known {s : Store Payload} {pc : Pc Payload} (h : Effect cfg s a pc rows log next)
    (hknown : ∀ id, (∀ row ∈ s.rows, row.id ≠ id) → history id s.log = [])
    (hflight : ∀ job attempt, pc.inFlight = some (job, attempt) → ∃ row ∈ s.rows, row.id = job.id) :
    ∀ id, (∀ row ∈ rows, row.id ≠ id) → history id log = [] := by
  intro id hid
  have hids : ∀ (u : JobUpdate) (now : Timestamp) (id' : JobId),
      (∀ row ∈ Table.updateWhere (·.id = id') (u.apply now) s.rows, row.id ≠ id) →
      ∀ row ∈ s.rows, row.id ≠ id := by
    intro u now id' hne row hrow
    have := hne _ (Table.mem_updateWhere.mpr ⟨row, hrow, rfl⟩)
    split at this <;> exact this
  cases h with
  | quiet hes => rw [history_append_of_isAnswer hes]; exact hknown id hid
  | reclaim => exact hknown id (hids _ _ _ hid)
  | pick hrow hjob =>
      have := hids _ _ _ hid
      rw [history_cons_ne (by simpa [Event.about] using this _ hrow)]
      exact hknown id this
  | invoke =>
      obtain ⟨row, hrow, hjob⟩ := hflight _ _ rfl
      have := hid row hrow
      rw [history_cons_ne (by simpa [Event.about, ← hjob] using this)]
      exact hknown id hid
  | settle hu hrow hjob =>
      have hold := hids _ _ _ hid
      have := hold _ hrow
      rw [history_cons_ne (by simpa [Event.about, ← hjob] using this)]
      exact hknown id hold
  | lose => exact hknown id hid
  | insert =>
      rw [history_cons_ne rfl, history_cons_ne rfl]
      exact hknown id fun row hrow => hid row (List.mem_append_left _ hrow)

/-- A step keeps the invariant. -/
theorem AttemptInv.effect (hI : AttemptInv c.shared.rows c.shared.log)
    (hA : AttemptClaims c.shared k) (hR : StepReady c a k)
    (h : Effect cfg c.shared a k.pc rows log next) : AttemptInv rows log where
  ids := h.ids hI.ids
  used row hrow := (h.within hR hI hA row hrow).1
  pending row hrow := (h.within hR hI hA row hrow).2
  counted row hrow := by
    rcases h.invocations row.id with heq | ⟨job, attempt, rest, hpc, hid, hrows, -, heq⟩
    · rw [heq]
      rcases h.old_row hR hrow with ⟨old, hold, hid, hle⟩ | hnone
      · have := hI.counted old hold
        rw [hid] at this
        exact this.trans hle
      · rw [invocations, hI.known row.id hnone]
        exact Nat.zero_le _
    · -- the handler is called once for a pick that is counted already
      have hlt := hA.marked job attempt rest hpc
      obtain ⟨-, hat⟩ := hA.inFlight job attempt (by rw [hpc]; rfl)
      have := (hat.all row (hrows ▸ hrow) hid.symm).1
      rw [heq, ← hid]
      omega
  known := h.known hI.known fun job attempt hj => (hA.inFlight job attempt hj).2.exists_row

/-- A step hands on what its call knows about its jobs. -/
theorem AttemptClaims.own {s : Store Payload} {next : Option (Task Payload)} {k' : Task Payload}
    (hI : AttemptInv c.shared.rows c.shared.log) (hA : AttemptClaims c.shared k)
    (hR : StepReady c a k) (h : Act cfg a c.shared k s next) (hk' : k' ∈ next) :
    AttemptClaims s k' where
  waiting job hjob := by
    rcases h.waiting hk' hjob with hold | ⟨-, ⟨now, -, hdue⟩ | ⟨id, hpc, -⟩⟩
    · exact hA.waiting job hold
    · simp only [isDue, Bool.decide_and, Bool.and_eq_true, decide_eq_true_eq] at hdue
      exact hdue.1
    · exact absurd hpc (hA.notManual id)
  inFlight job attempt hj := by
    rcases h.effect.inFlight_next (Option.mem_map_of_mem _ hk') hj with
      hold | ⟨now, rest, ha, hpc, rfl, hrows⟩
    · obtain ⟨hpos, hat⟩ := hA.inFlight job attempt hold
      refine ⟨hpos, h.effect.at hat fun u now row hP hu => ?_⟩
      rcases hu with hu | ⟨job', rest, -, hpc, -⟩
      · rw [apply_attempts, hu]
        exact hP
      · rw [hpc] at hold
        cases hold
    · refine ⟨Nat.succ_pos _, ?_⟩
      rw [hrows]
      refine (hA.limits job (by simp [hpc, Pc.waiting])).updateWhere (fun _ _ => rfl)
        (fun row _ _ hP _ => ⟨rfl, hP⟩) fun row _ hid _ hne => ?_
      simp [hid] at hne
  limits job hjob := by
    have hat : Table.At (·.id) job.id (fun row => row.maxAttempts = job.maxAttempts)
        c.shared.rows := by
      rcases h.waiting hk' hjob with hold | ⟨hmem, -⟩
      · exact hA.limits job hold
      · exact Table.At.of_unique hI.ids hmem rfl
    exact h.effect.at hat fun _ _ _ hP _ => hP
  marked job attempt rest hpc := by
    obtain ⟨now, row, rfl, hpick, rfl, hrow, hid, hlog⟩ := h.lookUp_next hk' hpc
    rw [hlog, invocations_cons rfl, ← hR.attempts now rfl job rest hpick row hrow hid, ← hid]
    exact Nat.lt_succ_of_le (hI.counted row hrow)
  notManual id hpc := by
    have := h.isEntry_next hk'
    rw [hpc] at this
    cases this

/-- A step leaves alone what another call knows about its jobs. -/
theorem AttemptClaims.other {s : Store Payload} {next : Option (Task Payload)} {k' : Task Payload}
    (hA : AttemptClaims c.shared k) (hA' : AttemptClaims c.shared k') (hR : StepReady c a k)
    (hclaims : Claims c.shared k') (hapart : Apart k k') (h : Act cfg a c.shared k s next) :
    AttemptClaims s k' where
  waiting := hA'.waiting
  inFlight job attempt hj := by
    obtain ⟨hpos, hat⟩ := hA'.inFlight job attempt hj
    refine ⟨hpos, h.effect.at hat fun u now row hP hu => ?_⟩
    rcases hu with hu | ⟨job', rest, rfl, hpc, hid⟩
    · rw [apply_attempts, hu]
      exact hP
    · -- a fresh pick does not find a job in processing
      exfalso
      obtain ⟨row, hrow, hrowid⟩ := hat.exists_row
      have hprocessing := (hclaims.inFlight job attempt hj).all row hrow hrowid
      have hpending := hA.waiting job' (by simp [hpc, Pc.waiting])
      have hfresh := hR.fresh now rfl
      rw [hpc] at hfresh
      rw [hfresh row hrow (hrowid.trans hid.symm), hpending] at hprocessing
      cases hprocessing
  limits job hjob := h.effect.at (hA'.limits job hjob) fun _ _ _ hP _ => hP
  marked job attempt rest hpc := by
    rcases h.effect.invocations job.id with heq | ⟨job', attempt', rest', hpc', hid, -⟩
    · rw [heq]
      exact hA'.marked job attempt rest hpc
    · exact absurd hid (hapart job' attempt' job attempt (by rw [hpc']; rfl) (by rw [hpc]; rfl))
  notManual := hA'.notManual

end Invariant

/-! ## The result -/

/-- What is known of a whole state besides: execution is exclusive, and a job in `processing` is below
its limit or in flight. -/
structure AttemptSupport (c : QueueState Payload) : Prop where
  exclusive : Threads.Holds (fun _ => True) Claims Apart c
  supported : Supported (fun row => row.attempts < row.attemptLimit) c

/-- The condition of the bound, for the queue without manual retries. -/
abbrev attemptGuard (c : QueueState Payload) (l : QueueStep Payload) : Prop :=
  NoManualRetry c l ∧ AttemptsKept c l

theorem stepReady_of_guard {c : QueueState Payload} {t : ThreadId} {a : Action} {k : Task Payload}
    (hguard : attemptGuard c (.act t a)) (hJ : AttemptSupport c) (hk : c.threads t = some k) :
    StepReady c a k where
  fresh := by
    rintro now rfl
    exact hguard.2.claims k hk
  attempts := by
    rintro now rfl job rest hpc
    exact hguard.2.attempts k job rest hk hpc
  supported := hJ.supported

/-- The thread-modular proof. -/
theorem attempt_outline (cfg : RetryQueueConfig) :
    Threads.Outline (τ := ThreadId) (queue Payload cfg)
      (fun c l => attemptGuard c l ∧ AttemptSupport c)
      (fun s => AttemptInv s.rows s.log) AttemptClaims fun _ _ => True where
  symm := fun _ _ _ => trivial
  init := by
    rintro s ⟨hrows, hlog, -⟩
    constructor <;> simp [hrows, hlog, Table.Unique, history]
  start := by
    rintro c t k ⟨⟨hmanual, -⟩, -⟩ hentry -
    obtain ⟨hflight, hwaiting⟩ := inFlight_of_isEntry hentry
    refine ⟨⟨by simp [hwaiting], by simp [hflight], by simp [hwaiting], ?_, hmanual⟩,
      fun _ _ _ => trivial⟩
    intro job attempt rest hpc
    rw [hpc] at hflight
    cases hflight
  own := by
    rintro c t a k s next ⟨hguard, hJ⟩ hk hI hA - hact
    have hR := stepReady_of_guard hguard hJ hk
    exact ⟨hI.effect hA hR hact.effect, fun k' hk' => hA.own hI hR hact hk'⟩
  other := by
    rintro c t a k s next t' k' ⟨hguard, hJ⟩ hk hne hk' - hA hA' - hact
    exact ⟨hA.other hA' (stepReady_of_guard hguard hJ hk) (hJ.exclusive.assertion t' k' hk')
      (hJ.exclusive.compatible t t' k k' hne.symm hk hk') hact, fun _ _ => trivial⟩
  env := by
    rintro c b s - henv hI
    obtain ⟨hrows, hlog⟩ := henv.rows_log
    refine ⟨by rwa [hrows, hlog], fun k _ hA => ?_⟩
    obtain ⟨hwaiting, hflight, hlimits, hmarked, hmanual⟩ := hA
    constructor <;> simpa only [hrows, hlog]

/-- A step keeps the jobs in processing supported: the attempts it loses are not last ones. -/
theorem AttemptSupport.step {c c' : QueueState Payload} {l : QueueStep Payload}
    (hH : Threads.Holds (fun s => AttemptInv s.rows s.log) AttemptClaims (fun _ _ => True) c)
    (hJ : AttemptSupport c) (hguard : attemptGuard c l)
    (hstep : (queueSystem Payload cfg).step c l c') : AttemptSupport c' where
  exclusive := (exclusive_outline cfg).step hJ.exclusive hguard.2.claims hstep
  supported := by
    have hspare : ∀ t k job attempt, c.threads t = some k →
        k.pc.inFlight = some (job, attempt) → attempt < job.attemptLimit →
        ∀ row ∈ c.shared.rows, row.id = job.id → row.attempts < row.attemptLimit := by
      intro t k job attempt hk hj hlt row hrow hid
      obtain ⟨heq, hmax⟩ := ((hH.assertion t k hk).inFlight job attempt hj).2.all row hrow hid
      rw [heq, attemptLimit_eq hmax]
      exact hlt
    refine hJ.supported.step hstep ?_ ?_
    · rintro t a k job attempt outcome rest rfl hk hpc hreason
      have hj : k.pc.inFlight = some (job, attempt) := by rw [hpc]; rfl
      refine hspare t k job attempt hk hj ?_
      rcases hreason with rfl | ⟨now, rfl, hlost⟩
      · exact hguard.2.lastAttempt k job attempt hk hj
      · by_cases htext : outcome = .threw none
        · subst htext
          exact hguard.2.lastAttempt k job attempt rest hk hpc
        · -- without a due date: there was to be another attempt
          by_contra hlast
          refine hlost ⟨htext, fun hpending => absurd ?_ hlast⟩
          exact lt_attemptLimit_of_statusAfter ((hH.assertion t k hk).inFlight job attempt hj).1
            hpending
    · rintro p t k job attempt rfl hk hp hj
      exact hspare t k job attempt hk hj (hguard.2.lastAttempt t k job attempt hk hp hj)

/-- **The attempt bound, when no last attempt is lost.** Processes may crash and restart at any point
but in the middle of the last attempt of a job. -/
theorem attemptBounded_of_attemptsKept (Payload : Type) (cfg : RetryQueueConfig) :
    AttemptBounded ((queueSystem Payload cfg).restrict attemptGuard) := by
  intro c hc
  obtain ⟨hH, hJ⟩ := (attempt_outline cfg).holds_and
    (fun c hinit => ⟨(exclusive_outline cfg).holds_init hinit,
      by intro row hrow; simp [hinit.1.1] at hrow⟩)
    (fun c l c' _ hH hJ hguard hstep => hJ.step hH hguard hstep) hc
  refine ⟨fun row hrow => ⟨(hH.inv.counted row hrow).trans (hH.inv.used row hrow), fun hused => ?_⟩, ?_⟩
  · cases hstatus : row.status with
    | pending => exact absurd (hH.inv.pending row hrow hstatus) (not_lt.mpr hused)
    | processing =>
        exact .inl ((hJ.supported row hrow hstatus).resolve_left (not_lt.mpr hused))
    | succeeded => exact .inr (.inr rfl)
    | failed => exact .inr (.inl rfl)
  · rintro l c' ⟨hguard, hstep⟩ found now hlog
    cases hstep with
    | start => exact absurd hlog log_ne_cons
    | env henv => exact absurd (henv.rows_log.2.symm.trans hlog) log_ne_cons
    | @act t a k s next hk hact =>
        rcases hact.effect.logged hlog rfl with ⟨now', job, row, rest, rfl, hpc, hrow, hid, heq⟩ |
          ⟨_, _, _, -, heq⟩ | ⟨_, _, _, _, _, _, -, heq⟩
        · cases heq
          exact ((stepReady_of_guard hguard hJ hk).pick hH.inv (hH.assertion t k hk) hpc hrow hid).2
        · cases heq
        · cases heq

/-! ## The crash -/

/-- A request for a job with one attempt. -/
def singleAttempt : EnqueueRequest Unit := ⟨.paymentExecution, (), "k", some 1⟩

/-- The process crashes while the handler runs for the only attempt. After the restart the stale job
is reclaimed, picked, and its handler called again. -/
theorem attempts_exceeded_after_crash :
    ¬ AttemptBounded ((queueSystem Unit retryQueueDefaults).restrict NoManualRetry) := by
  intro hall
  have hstale₁ : staleBefore retryQueueDefaults 10 = some (-59990) := by decide +kernel
  have hstale₂ : staleBefore retryQueueDefaults 100000 = some 40000 := by decide +kernel
  have h₀ : ((queueSystem Unit retryQueueDefaults).restrict NoManualRetry).Reachable
      (emptyQueue Unit) := .init emptyQueue_init
  have h₁ := h₀.guarded (queue_register 0 .paymentExecution) trivial
  -- one job is enqueued
  have h₂ := h₁.guarded (queue_start 0 0 (.enqueueFind singleAttempt) rfl rfl)
    fun _ h => by cases h
  have h₃ := h₂.guarded (queue_call 0 0 rfl (.findMiss rfl)) trivial
  have h₄ := h₃.guarded (queue_call 0 0 rfl (.insert "a" 0 rfl rfl)) trivial
  -- a poll calls its handler, and the process crashes
  have h₅ := h₄.guarded (queue_start 1 0 .reclaimStaleProcessingJobs rfl rfl)
    fun _ h => by cases h
  have h₆ := h₅.guarded (queue_call 1 10 rfl (.selectStale hstale₁ (.refl _))) trivial
  have h₇ := h₆.guarded (queue_call 1 10 rfl
    (.selectDue ⟨_, .refl _, List.pairwise_singleton _ _, rfl⟩)) trivial
  have h₈ := h₇.guarded (queue_call 1 10 rfl (.pick rfl)) trivial
  have h₉ := h₈.guarded (queue_call 1 10 rfl (.invoke rfl)) trivial
  have h₁₀ := h₉.guarded (queue_crash 0) trivial
  -- the restarted process reclaims the job and calls its handler again
  have h₁₁ := h₁₀.guarded (queue_register 1 .paymentExecution) trivial
  have h₁₂ := h₁₁.guarded (queue_start 2 1 .reclaimStaleProcessingJobs rfl rfl)
    fun _ h => by cases h
  have h₁₃ := h₁₂.guarded (queue_call 2 100000 rfl (.selectStale hstale₂ (.refl _))) trivial
  have h₁₄ := h₁₃.guarded (queue_call 2 100000 rfl (.reclaim rfl)) trivial
  have h₁₅ := h₁₄.guarded (queue_call 2 100000 rfl
    (.selectDue ⟨_, .refl _, List.pairwise_singleton _ _, rfl⟩)) trivial
  have h₁₆ := h₁₅.guarded (queue_call 2 100000 rfl (.pick rfl)) trivial
  have h₁₇ := h₁₆.guarded (queue_call 2 100000 rfl (.invoke rfl)) trivial
  have := ((hall _ h₁₇).1 _ (List.mem_singleton.mpr rfl)).1
  revert this
  decide

end ThalosBackend.RetryQueue
