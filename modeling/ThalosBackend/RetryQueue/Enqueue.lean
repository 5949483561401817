import Mathlib.Data.Fintype.EquivFin
import ThalosBackend.RetryQueue.StepFacts

/-!
# Idempotent enqueue

Any number of `enqueue` calls, with any keys, interleaved with each other and with everything else
the queue does: as long as the database answers the calls without an error of its own, every key
gets one row, every call with the key returns that row, and no call throws
(`enqueue_idempotent`). The only thing that keeps the keys apart is the unique constraint on
`idempotency_key`; the read before the insert is not enough, and the read after a conflict finds the
row of the caller that won.

The outline has one assertion: a call that met a conflict waits to read a row that is there.
-/

set_option autoImplicit false

namespace ThalosBackend.RetryQueue

open Js (Timestamp)

variable {Payload : Type} {cfg : RetryQueueConfig}

/-- The database answers no `enqueue` call with an error. -/
def NoEnqueueError (c : QueueState Payload) : QueueStep Payload → Prop
  | .act t .dbError => ∀ k, c.threads t = some k → k.pc.request = none
  | _ => True

/-- What is fixed when a row is created. -/
def RetryJob.origin (job : RetryJob Payload) : JobId × String × RetryJobType × Payload :=
  (job.id, job.idempotencyKey, job.jobType, job.payload)

/-- The rows `enqueue` created, newest first. -/
def insertions (log : List (Event Payload)) : List (RetryJob Payload) :=
  log.filterMap fun e => match e with
    | .inserted row => some row
    | _ => none

/-- The invariant of the rows, whatever errors the database answers with: they are the created ones,
one for each key and one for each identity, and a call that returned has returned a row of its key. -/
structure RowsInv (cfg : RetryQueueConfig) (s : Store Payload) : Prop where
  keys : Table.Unique (·.idempotencyKey) s.rows
  ids : Table.Unique (·.id) s.rows
  origins : s.rows.map RetryJob.origin = (insertions s.log).reverse.map RetryJob.origin
  winners : ∀ row, .inserted row ∈ s.log → ∃ req now created,
    row = newJob cfg req now row.id created ∧ .returned req row ∈ s.log
  returned : ∀ req job, .returned req job ∈ s.log →
    ∃ row ∈ s.rows, row.id = job.id ∧ row.idempotencyKey = req.idempotencyKey

/-- The invariant without such errors: no call has thrown. -/
structure EnqueueInv (cfg : RetryQueueConfig) (s : Store Payload) : Prop
    extends RowsInv cfg s where
  accepted : ∀ req, .rejected req ∉ s.log

/-- A call that met a conflict will find the row. -/
def ConflictVisible (s : Store Payload) (k : Task Payload) : Prop :=
  ∀ req, k.pc = .enqueueRefind req → ∃ row ∈ s.rows, row.idempotencyKey = req.idempotencyKey

/-! ## One step -/

@[simp] theorem origin_apply (u : JobUpdate) (now : Timestamp) (job : RetryJob Payload) :
    (u.apply now job).origin = job.origin := rfl

theorem insertions_append_of_isAnswer {es log : List (Event Payload)}
    (h : ∀ e ∈ es, e.isAnswer = true) : insertions (es ++ log) = insertions log := by
  have hnone : insertions es = [] := by
    refine List.filterMap_eq_nil_iff.mpr fun e he => ?_
    have := h e he
    cases e <;> simp_all [Event.isAnswer]
  rw [insertions, List.filterMap_append]
  exact congrArg (· ++ insertions log) hnone

theorem mem_insertions {row : RetryJob Payload} {log : List (Event Payload)} :
    row ∈ insertions log ↔ .inserted row ∈ log := by
  constructor
  · intro h
    obtain ⟨e, he, hrow⟩ := List.mem_filterMap.mp h
    cases e with
    | inserted row' => cases hrow; exact he
    | _ => simp at hrow
  · exact fun h => List.mem_filterMap.mpr ⟨_, h, rfl⟩

/-- What a step does to the created rows: nothing, or it adds one of a free key and a free identity,
and answers its caller. -/
theorem Effect.origins {s : Store Payload} {a : Action} {pc : Pc Payload}
    {rows : List (RetryJob Payload)} {log : List (Event Payload)} {next : Option (Pc Payload)}
    (h : Effect cfg s a pc rows log next) :
    (rows.map RetryJob.origin = s.rows.map RetryJob.origin ∧
      insertions log = insertions s.log) ∨
    (∃ now req id created, pc = .enqueueInsert req ∧
      rows = s.rows ++ [newJob cfg req now id created] ∧
      (∀ row ∈ s.rows, row.idempotencyKey ≠ req.idempotencyKey) ∧ (∀ row ∈ s.rows, row.id ≠ id) ∧
      log = .returned req (newJob cfg req now id created) ::
        .inserted (newJob cfg req now id created) :: s.log) := by
  cases h with
  | quiet hes => exact .inl ⟨rfl, insertions_append_of_isAnswer hes⟩
  | reclaim => exact .inl ⟨Table.map_updateWhere fun _ _ => rfl, rfl⟩
  | pick => exact .inl ⟨Table.map_updateWhere fun _ _ => rfl, rfl⟩
  | invoke => exact .inl ⟨rfl, rfl⟩
  | settle => exact .inl ⟨Table.map_updateWhere fun _ _ => rfl, rfl⟩
  | lose => exact .inl ⟨rfl, rfl⟩
  | insert hkey hid => exact .inr ⟨_, _, _, _, rfl, rfl, hkey, hid, rfl⟩

/-- Rows do not disappear, and keep their origin. -/
theorem Act.mem_rows {a : Action} {s s' : Store Payload} {k : Task Payload}
    {next : Option (Task Payload)} (h : Act cfg a s k s' next) {row : RetryJob Payload}
    (hrow : row ∈ s.rows) : ∃ row' ∈ s'.rows, row'.origin = row.origin := by
  rcases h.effect.origins with ⟨horigin, -⟩ | ⟨now, req, id, created, -, hrows, -⟩
  · have : row.origin ∈ s'.rows.map RetryJob.origin := horigin ▸ List.mem_map_of_mem hrow
    exact List.mem_map.mp this
  · exact ⟨row, hrows ▸ List.mem_append_left _ hrow, rfl⟩

/-- A call of `enqueue` that returns, returns a row of its key. -/
theorem Act.returned {a : Action} {s s' : Store Payload} {k : Task Payload}
    {next : Option (Task Payload)} (h : Act cfg a s k s' next) {req : EnqueueRequest Payload}
    {job : RetryJob Payload} (hret : .returned req job ∈ s'.log) :
    .returned req job ∈ s.log ∨ k.pc.request = some req ∧ next = none ∧
      job ∈ s'.rows ∧ job.idempotencyKey = req.idempotencyKey := by
  cases h with
  | call h =>
      cases h with
      | findHit hfound =>
          rcases List.mem_cons.mp hret with heq | hret
          · cases heq
            obtain ⟨hmem, hkey⟩ := findByIdempotencyKey_eq_some hfound
            exact .inr ⟨rfl, rfl, hmem, hkey⟩
          · exact .inl hret
      | refindHit hfound =>
          rcases List.mem_cons.mp hret with heq | hret
          · cases heq
            obtain ⟨hmem, hkey⟩ := findByIdempotencyKey_eq_some hfound
            exact .inr ⟨rfl, rfl, hmem, hkey⟩
          · exact .inl hret
      | insert =>
          rcases List.mem_cons.mp hret with heq | hret
          · cases heq
            exact .inr ⟨rfl, rfl, List.mem_append_right _ (List.mem_singleton.mpr rfl), rfl⟩
          · exact .inl (by simpa using hret)
      | _ => exact .inl (by simpa using hret)
  | @dbError p pc s s' next h =>
      cases pc <;> cases h <;> exact .inl (by simpa using hret)

/-- A call of `enqueue` throws only when the database answers with an error, or when the row of a
conflict is not there. -/
theorem Act.rejected {a : Action} {s s' : Store Payload} {k : Task Payload}
    {next : Option (Task Payload)} (h : Act cfg a s k s' next) {req : EnqueueRequest Payload}
    (hrej : .rejected req ∈ s'.log) :
    .rejected req ∈ s.log ∨ (a = .dbError ∧ k.pc.request = some req) ∨
      (k.pc = .enqueueRefind req ∧ ∀ row ∈ s.rows, row.idempotencyKey ≠ req.idempotencyKey) := by
  cases h with
  | call h =>
      cases h with
      | refindMiss hfound =>
          rcases List.mem_cons.mp hrej with heq | hrej
          · cases heq
            exact .inr (.inr ⟨rfl, findByIdempotencyKey_eq_none hfound⟩)
          · exact .inl hrej
      | _ => exact .inl (by simpa using hrej)
  | @dbError p pc s s' next h =>
      cases pc with
      | enqueueInsert req' =>
          cases h
          rcases List.mem_cons.mp hrej with heq | hrej
          · cases heq; exact .inr (.inl ⟨rfl, rfl⟩)
          · exact .inl hrej
      | enqueueRefind req' =>
          cases h
          rcases List.mem_cons.mp hrej with heq | hrej
          · cases heq; exact .inr (.inl ⟨rfl, rfl⟩)
          · exact .inl hrej
      | _ => cases h <;> exact .inl hrej

/-- How an `enqueue` call goes on: from the read to the insert, and from there, on a conflict, to the
second read. -/
theorem Act.request_next {a : Action} {s s' : Store Payload} {k k' : Task Payload}
    {next : Option (Task Payload)} (h : Act cfg a s k s' next) (hk : k' ∈ next)
    {req : EnqueueRequest Payload} (hreq : k'.pc.request = some req) :
    (k.pc = .enqueueFind req ∧ k'.pc = .enqueueInsert req) ∨
      (k.pc = .enqueueInsert req ∧ k'.pc = .enqueueRefind req ∧
        ∃ row ∈ s.rows, row.idempotencyKey = req.idempotencyKey) := by
  cases h with
  | call h =>
      obtain ⟨pc', hpc', rfl⟩ := Option.map_eq_some_iff.mp hk
      cases h with
      | findMiss => cases hpc'; cases hreq; exact .inl ⟨rfl, rfl⟩
      | insertConflict hfound =>
          cases hpc'
          cases hreq
          obtain ⟨hmem, hkey⟩ := findByIdempotencyKey_eq_some hfound
          exact .inr ⟨rfl, rfl, _, hmem, hkey⟩
      | selectStale => cases hpc'; simp at hreq
      | reclaim => cases hpc'; simp at hreq
      | selectDue => rw [(mem_processNext hpc').2.2] at hreq; cases hreq
      | settle => rw [(mem_processNext hpc').2.2] at hreq; cases hreq
      | _ => cases hpc' <;> cases hreq
  | @dbError p pc s s' next h =>
      obtain ⟨pc', hpc', rfl⟩ := Option.map_eq_some_iff.mp hk
      cases pc <;> cases h <;> cases hpc' <;> cases hreq
      exact .inl ⟨rfl, rfl⟩

/-- The log only grows. -/
theorem Act.log_subset {a : Action} {s s' : Store Payload} {k : Task Payload}
    {next : Option (Task Payload)} (h : Act cfg a s k s' next) : s.log ⊆ s'.log := by
  have := h.effect
  generalize s'.rows = rows, s'.log = log, next.map (·.pc) = pc', k.pc = pc at this
  cases this with
  | quiet => exact List.subset_append_right _ _
  | reclaim => exact List.Subset.refl _
  | pick => exact List.subset_cons_self _ _
  | invoke => exact List.subset_cons_self _ _
  | settle => exact List.subset_cons_self _ _
  | lose => exact List.Subset.refl _
  | insert => exact fun e he => List.mem_cons_of_mem _ (List.mem_cons_of_mem _ he)

/-! ## The invariant -/

theorem unique_iff_of_origins {rows rows' : List (RetryJob Payload)}
    (h : rows'.map RetryJob.origin = rows.map RetryJob.origin) :
    (Table.Unique (·.idempotencyKey) rows → Table.Unique (·.idempotencyKey) rows') ∧
      (Table.Unique (·.id) rows → Table.Unique (·.id) rows') := by
  have hkeys : rows'.map (·.idempotencyKey) = rows.map (·.idempotencyKey) := by
    simpa [RetryJob.origin, Function.comp_def] using congrArg (List.map (·.2.1)) h
  have hids : rows'.map (·.id) = rows.map (·.id) := by
    simpa [RetryJob.origin, Function.comp_def] using congrArg (List.map (·.1)) h
  exact ⟨fun hu => by rwa [Table.Unique, hkeys], fun hu => by rwa [Table.Unique, hids]⟩

/-- A step keeps the invariant of the rows. -/
theorem RowsInv.act {a : Action} {s s' : Store Payload} {k : Task Payload}
    {next : Option (Task Payload)} (hI : RowsInv cfg s) (h : Act cfg a s k s' next) :
    RowsInv cfg s' := by
  have hreturned : ∀ req job, .returned req job ∈ s'.log →
      ∃ row ∈ s'.rows, row.id = job.id ∧ row.idempotencyKey = req.idempotencyKey := by
    intro req job hret
    rcases h.returned hret with hold | ⟨-, -, hmem, hkey⟩
    · obtain ⟨row, hrow, hid, hkey⟩ := hI.returned req job hold
      obtain ⟨row', hrow', horigin⟩ := h.mem_rows hrow
      simp only [RetryJob.origin, Prod.mk.injEq] at horigin
      exact ⟨row', hrow', horigin.1.trans hid, horigin.2.1.trans hkey⟩
    · exact ⟨job, hmem, rfl, hkey⟩
  rcases h.effect.origins with ⟨horigin, hins⟩ | ⟨now, req, id, created, -, hrows, hkey, hid, hlog⟩
  · refine ⟨(unique_iff_of_origins horigin).1 hI.keys, (unique_iff_of_origins horigin).2 hI.ids,
      ?_, ?_, hreturned⟩
    · rw [horigin, hins]
      exact hI.origins
    · intro row hrow
      rw [← mem_insertions, hins, mem_insertions] at hrow
      obtain ⟨req, now, created, hrow, hret⟩ := hI.winners row hrow
      exact ⟨req, now, created, hrow, h.log_subset hret⟩
  · have hins : insertions s'.log = newJob cfg req now id created :: insertions s.log := by
      rw [hlog]
      rfl
    refine ⟨?_, ?_, ?_, ?_, hreturned⟩
    · rw [hrows]
      exact hI.keys.concat hkey
    · rw [hrows]
      exact hI.ids.concat hid
    · rw [hrows, hins, List.reverse_cons, List.map_append, List.map_append, hI.origins]
    · intro row hrow
      rw [← mem_insertions, hins, List.mem_cons, mem_insertions] at hrow
      rcases hrow with rfl | hrow
      · exact ⟨req, now, created, rfl, by simp [hlog]⟩
      · obtain ⟨req, now, created, hrow, hret⟩ := hI.winners row hrow
        exact ⟨req, now, created, hrow, h.log_subset hret⟩

/-- A step keeps the invariant, if the database does not answer an `enqueue` call with an error. -/
theorem EnqueueInv.act {a : Action} {s s' : Store Payload} {k : Task Payload}
    {next : Option (Task Payload)} (hI : EnqueueInv cfg s) (hA : ConflictVisible s k)
    (herr : a = .dbError → k.pc.request = none) (h : Act cfg a s k s' next) :
    EnqueueInv cfg s' where
  toRowsInv := hI.toRowsInv.act h
  accepted := by
    intro req hrej
    rcases h.rejected hrej with hold | ⟨ha, hreq⟩ | ⟨hpc, hnone⟩
    · exact hI.accepted req hold
    · simp [herr ha] at hreq
    · obtain ⟨row, hrow, hkey⟩ := hA req hpc
      exact hnone row hrow hkey

theorem RowsInv.of_eq {s s' : Store Payload} (h : RowsInv cfg s) (hrows : s'.rows = s.rows)
    (hlog : s'.log = s.log) : RowsInv cfg s' := by
  obtain ⟨hkeys, hids, horigins, hwinners, hreturned⟩ := h
  constructor <;> simpa only [hrows, hlog]

theorem rowsInv_init {s : Store Payload} (hrows : s.rows = []) (hlog : s.log = []) :
    RowsInv cfg s := by
  constructor <;> simp [hrows, hlog, Table.Unique, insertions]

/-- The thread-modular proof. -/
theorem enqueue_outline (cfg : RetryQueueConfig) :
    Threads.Outline (τ := ThreadId) (queue Payload cfg) NoEnqueueError (EnqueueInv cfg)
      ConflictVisible fun _ _ => True where
  symm := fun _ _ _ => trivial
  init := by
    rintro s ⟨hrows, hlog, -⟩
    exact ⟨rowsInv_init hrows hlog, by simp [hlog]⟩
  start := by
    rintro c t k - hentry -
    refine ⟨fun req hpc => ?_, fun _ _ _ => trivial⟩
    simp [queue, hpc, Pc.isEntry] at hentry
  own := by
    intro c t a k s next hguard hk hI hA _ hact
    refine ⟨hI.act hA (fun ha => ?_) hact, fun k' hk' req hpc => ?_⟩
    · subst ha
      exact hguard k hk
    · have hreq : k'.pc.request = some req := by rw [hpc]; rfl
      rcases hact.request_next hk' hreq with ⟨-, hpc'⟩ | ⟨-, -, row, hrow, hkey⟩
      · rw [hpc] at hpc'
        cases hpc'
      · obtain ⟨row', hrow', horigin⟩ := hact.mem_rows hrow
        simp only [RetryJob.origin, Prod.mk.injEq] at horigin
        exact ⟨row', hrow', horigin.2.1.trans hkey⟩
  other := by
    rintro c t a k s next t' k' - - - - - - hA' - hact
    refine ⟨fun req hpc => ?_, fun _ _ => trivial⟩
    obtain ⟨row, hrow, hkey⟩ := hA' req hpc
    obtain ⟨row', hrow', horigin⟩ := hact.mem_rows hrow
    simp only [RetryJob.origin, Prod.mk.injEq] at horigin
    exact ⟨row', hrow', horigin.2.1.trans hkey⟩
  env := by
    rintro c b s - henv hI
    obtain ⟨hrows, hlog⟩ := henv.rows_log
    refine ⟨?_, fun k _ hA req hpc => ?_⟩
    · exact ⟨hI.toRowsInv.of_eq hrows hlog, by rw [hlog]; exact hI.accepted⟩
    · rw [hrows]
      exact hA req hpc

/-! ## The result -/

/-- What holds of the table and of the answers given so far. -/
structure EnqueueIdempotent (s : Store Payload) : Prop where
  /-- A key has at most one row, -/
  one_row : ∀ row ∈ s.rows, ∀ row' ∈ s.rows, row.idempotencyKey = row'.idempotencyKey → row = row'
  /-- and at most one was ever created. -/
  one_insert : ((insertions s.log).map (·.idempotencyKey)).Nodup
  /-- A call that returned has returned the identity of its key's row. -/
  returned : ∀ req job, .returned req job ∈ s.log →
    ∃ row ∈ s.rows, row.idempotencyKey = req.idempotencyKey ∧ row.id = job.id
  /-- No call has thrown. -/
  never_throws : ∀ req, .rejected req ∉ s.log
  /-- A row has the job type and the payload of the call whose insert created it. -/
  winner : ∀ row ∈ s.rows, ∃ req created, .inserted created ∈ s.log ∧ .returned req created ∈ s.log ∧
    created.id = row.id ∧ row.idempotencyKey = req.idempotencyKey ∧ row.jobType = req.jobType ∧
    row.payload = req.payload

/-- A row has the job type and the payload of the call whose insert created it. -/
theorem RowsInv.winner {s : Store Payload} (h : RowsInv cfg s) {row : RetryJob Payload}
    (hrow : row ∈ s.rows) :
    ∃ req created, .inserted created ∈ s.log ∧ .returned req created ∈ s.log ∧
      created.id = row.id ∧ row.idempotencyKey = req.idempotencyKey ∧ row.jobType = req.jobType ∧
      row.payload = req.payload := by
  have hmem : row.origin ∈ (insertions s.log).reverse.map RetryJob.origin :=
    h.origins ▸ List.mem_map_of_mem hrow
  obtain ⟨created, hcreated, horigin⟩ := List.mem_map.mp hmem
  have hlog := mem_insertions.mp (List.mem_reverse.mp hcreated)
  obtain ⟨req, now, at', hnew, hret⟩ := h.winners created hlog
  rw [RetryJob.origin, RetryJob.origin, Prod.mk.injEq, Prod.mk.injEq, Prod.mk.injEq] at horigin
  obtain ⟨hid, hkey, htype, hpayload⟩ := horigin
  rw [hnew] at hkey htype hpayload
  exact ⟨req, created, hlog, hret, hid, hkey.symm, htype.symm, hpayload.symm⟩

theorem EnqueueInv.idempotent {s : Store Payload} (h : EnqueueInv cfg s) : EnqueueIdempotent s where
  one_row _ hrow _ hrow' heq := h.keys.eq hrow hrow' heq
  one_insert := by
    have hkeys := congrArg (List.map (·.2.1)) h.origins
    simp only [List.map_map, Function.comp_def, RetryJob.origin] at hkeys
    have := h.keys
    rw [Table.Unique, hkeys, List.map_reverse, List.nodup_reverse] at this
    exact this
  returned req job hret := by
    obtain ⟨row, hrow, hid, hkey⟩ := h.returned req job hret
    exact ⟨row, hrow, hkey, hid⟩
  never_throws := h.accepted
  winner _ hrow := h.winner hrow

/-- What one step of a call with this request does to rows and answers: nothing to those of another
key. -/
structure OwnKeyOnly (req : EnqueueRequest Payload) (s s' : Store Payload) : Prop where
  rows : ∃ added, s'.rows = s.rows ++ added ∧
    ∀ row ∈ added, row.idempotencyKey = req.idempotencyKey
  answers : ∀ req' job, .returned req' job ∈ s'.log → .returned req' job ∈ s.log ∨
    req' = req ∧ job.idempotencyKey = req.idempotencyKey

theorem Act.ownKeyOnly {a : Action} {s s' : Store Payload} {k : Task Payload}
    {next : Option (Task Payload)} (h : Act cfg a s k s' next) {req : EnqueueRequest Payload}
    (hreq : k.pc.request = some req) : OwnKeyOnly req s s' where
  rows := by
    have := h.effect
    generalize s'.rows = rows, s'.log = log, next.map (·.pc) = pc', k.pc = pc at this hreq
    cases this with
    | quiet => exact ⟨[], by simp, by simp⟩
    | lose => exact ⟨[], by simp, by simp⟩
    | insert =>
        cases hreq
        exact ⟨_, rfl, fun row hrow => by rw [List.mem_singleton.mp hrow]; rfl⟩
    | _ => cases hreq
  answers := by
    intro req' job hret
    rcases h.returned hret with hold | ⟨hreq', -, -, hkey⟩
    · exact .inl hold
    · obtain rfl : req = req' := by simpa [hreq] using hreq'
      exact .inr ⟨rfl, hkey⟩

/-- How many database calls an `enqueue` call still makes at most. -/
def Pc.enqueueRank : Pc Payload → ℕ
  | .enqueueFind _ => 3
  | .enqueueInsert _ => 2
  | .enqueueRefind _ => 1
  | _ => 0

/-- An `enqueue` call can always make its next database call. -/
theorem enqueue_enabled (cfg : RetryQueueConfig) (s : Store Payload) {k : Task Payload}
    {req : EnqueueRequest Payload} (hreq : k.pc.request = some req) (now : Timestamp) :
    ∃ s' next, Act cfg (.call now) s k s' next := by
  obtain ⟨p, pc⟩ := k
  obtain ⟨id, hid⟩ := Infinite.exists_notMem_finset (s.rows.map (·.id)).toFinset
  have hfresh : s.getJob id = none := by
    rw [Store.getJob, List.find?_eq_none]
    intro row hrow heq
    exact hid (by simpa using ⟨row, hrow, by simpa using heq⟩)
  cases pc with
  | enqueueFind r =>
      cases hfind : s.findByIdempotencyKey r.idempotencyKey with
      | none => exact ⟨_, _, .call (.findMiss hfind)⟩
      | some job => exact ⟨_, _, .call (.findHit hfind)⟩
  | enqueueInsert r =>
      cases hfind : s.findByIdempotencyKey r.idempotencyKey with
      | none => exact ⟨_, _, .call (.insert id now hfind hfresh)⟩
      | some job => exact ⟨_, _, .call (.insertConflict hfind)⟩
  | enqueueRefind r =>
      cases hfind : s.findByIdempotencyKey r.idempotencyKey with
      | none => exact ⟨_, _, .call (.refindMiss hfind)⟩
      | some job => exact ⟨_, _, .call (.refindHit hfind)⟩
  | _ => cases hreq

theorem updates_eq_none_of_request {pc : Pc Payload} {req : EnqueueRequest Payload}
    (h : pc.request = some req) : pc.updates = none := by
  cases pc with
  | enqueueFind => rfl
  | enqueueInsert => rfl
  | enqueueRefind => rfl
  | _ => cases h

/-- A call of `enqueue` that ends has returned, or has thrown. -/
theorem Act.enqueue_ended {a : Action} {s s' : Store Payload} {k : Task Payload}
    (h : Act cfg a s k s' none) {req : EnqueueRequest Payload} (hreq : k.pc.request = some req) :
    (∃ job, .returned req job ∈ s'.log) ∨ .rejected req ∈ s'.log := by
  obtain ⟨p, pc⟩ := k
  generalize hnone : (none : Option (Task Payload)) = next at h
  cases h with
  | call h =>
      cases h with
      | findHit => cases hreq; exact .inl ⟨_, List.mem_cons_self⟩
      | insert => cases hreq; exact .inl ⟨_, List.mem_cons_self⟩
      | refindHit => cases hreq; exact .inl ⟨_, List.mem_cons_self⟩
      | refindMiss => cases hreq; exact .inr List.mem_cons_self
      | findMiss => simp at hnone
      | insertConflict => simp at hnone
      | rowMissing hpc =>
          rw [updates_eq_none_of_request hreq] at hpc
          cases hpc
      | _ => cases hreq
  | dbError h =>
      cases pc <;> cases hreq <;> cases h
      · simp at hnone
      · exact .inr (by simp)
      · exact .inr (by simp)

/-- A call of `enqueue` that does not end goes on with its request, closer to the end. -/
theorem Act.enqueue_continues {a : Action} {s s' : Store Payload} {k k' : Task Payload}
    (h : Act cfg a s k s' (some k')) {req : EnqueueRequest Payload}
    (hreq : k.pc.request = some req) :
    k'.pc.request = some req ∧ k'.pc.enqueueRank < k.pc.enqueueRank := by
  obtain ⟨p, pc⟩ := k
  generalize hsome : some k' = next at h
  cases h with
  | call h =>
      cases h with
      | findMiss => cases hreq; cases hsome; exact ⟨rfl, by simp [Pc.enqueueRank]⟩
      | insertConflict => cases hreq; cases hsome; exact ⟨rfl, by simp [Pc.enqueueRank]⟩
      | findHit => cases hsome
      | insert => cases hsome
      | refindHit => cases hsome
      | refindMiss => cases hsome
      | rowMissing => cases hsome
      | _ => cases hreq
  | dbError h =>
      cases pc <;> cases hreq <;> cases h <;> cases hsome
      exact ⟨rfl, by simp [Pc.enqueueRank]⟩

/-- The queue under a database that answers `enqueue` calls without errors of its own. -/
abbrev enqueueSystem (Payload : Type) (cfg : RetryQueueConfig) :
    StepSystem (QueueState Payload) (QueueStep Payload) :=
  (queueSystem Payload cfg).restrict NoEnqueueError

/-- **Idempotent enqueue.** In every reachable state the table and the answers are as
`EnqueueIdempotent` says. A live call can always go on; its step leaves the rows and answers of
other keys alone, and it returns or comes closer to returning. -/
theorem enqueue_idempotent (cfg : RetryQueueConfig) {c : QueueState Payload}
    (h : (enqueueSystem Payload cfg).Reachable c) :
    EnqueueIdempotent c.shared ∧
      ∀ t k req, c.threads t = some k → k.pc.request = some req →
        (∀ now, ∃ c', (enqueueSystem Payload cfg).step c (.act t (.call now)) c') ∧
        ∀ a c', (enqueueSystem Payload cfg).step c (.act t a) c' →
          OwnKeyOnly req c.shared c'.shared ∧
          ((c'.threads t = none ∧ ∃ job, .returned req job ∈ c'.shared.log) ∨
            ∃ k', c'.threads t = some k' ∧ k'.pc.request = some req ∧
              k'.pc.enqueueRank < k.pc.enqueueRank) := by
  have hinv := ((enqueue_outline cfg).holds h).inv
  refine ⟨hinv.idempotent, fun t k req hk hreq => ⟨fun now => ?_, fun a c' hstep => ?_⟩⟩
  · obtain ⟨s', next, hact⟩ := enqueue_enabled cfg c.shared hreq now
    exact ⟨_, trivial, .act hk hact⟩
  · have hinv' := ((enqueue_outline cfg).holds (h.step hstep)).inv
    cases hstep.2 with
    | @act _ _ k₀ s next hk₀ hact =>
        obtain rfl : k = k₀ := by simpa [hk] using hk₀
        refine ⟨hact.ownKeyOnly hreq, ?_⟩
        cases next with
        | none =>
            rcases hact.enqueue_ended hreq with hret | hrej
            · exact .inl ⟨by simp, hret⟩
            · exact absurd hrej (hinv'.accepted req)
        | some k' =>
            obtain ⟨hreq', hrank⟩ := hact.enqueue_continues hreq
            exact .inr ⟨k', by simp, hreq', hrank⟩

/-- Two requests with one key and different payloads. -/
def raceRequest (payload : ℕ) : EnqueueRequest ℕ := ⟨.paymentExecution, payload, "k", none⟩

/-- Both callers read before either inserts; the second insert conflicts, and both callers return the
row of the first. -/
theorem enqueue_idempotent_race : ∃ c, (enqueueSystem ℕ retryQueueDefaults).Reachable c ∧
    (∀ payload ∈ [1, 2], ∃ job, job.payload = 1 ∧
      .returned (raceRequest payload) job ∈ c.shared.log) ∧
    EnqueueIdempotent c.shared := by
  have h₀ : (enqueueSystem ℕ retryQueueDefaults).Reachable (emptyQueue ℕ) := .init emptyQueue_init
  have h₁ := h₀.guarded (queue_start 0 0 (.enqueueFind (raceRequest 1)) rfl rfl) trivial
  have h₂ := h₁.guarded (queue_start 1 0 (.enqueueFind (raceRequest 2)) rfl rfl) trivial
  have h₃ := h₂.guarded (queue_call 0 1 rfl (.findMiss rfl)) trivial
  have h₄ := h₃.guarded (queue_call 1 2 rfl (.findMiss rfl)) trivial
  have h₅ := h₄.guarded (queue_call 0 3 rfl
    (.insert "a" 3 rfl rfl)) trivial
  have h₆ := h₅.guarded (queue_call 1 4 rfl (.insertConflict rfl)) trivial
  have h₇ := h₆.guarded (queue_call 1 5 rfl (.refindHit rfl)) trivial
  refine ⟨_, h₇, ?_, (enqueue_idempotent _ h₇).1⟩
  intro payload hpayload
  simp only [List.mem_cons, List.not_mem_nil, or_false] at hpayload
  rcases hpayload with rfl | rfl
  · exact ⟨_, rfl, .tail _ (.head _)⟩
  · exact ⟨_, rfl, .head _⟩

end ThalosBackend.RetryQueue
