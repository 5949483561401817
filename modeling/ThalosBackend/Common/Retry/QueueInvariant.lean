import ThalosBackend.Common.Retry.QueueHistory

/-!
# What the queue in memory guarantees

The invariant of the queue relates each job object to its log, the map to the objects, and the flag to the
cycles: there is one cycle while it is set and none otherwise, and the jobs of its batch wait in the state
in which they were found to be due. Every step keeps it, whatever happens while a handler runs.
-/

set_option autoImplicit false

namespace ThalosBackend.Common.Retry

open Js (Number Timestamp base36Alphabet base36Chars base36Digit base36Text ofTimestamp timeClip)

/-! ## Ids -/

theorem mem_base36Text {n : ℤ} {c : Char} (h : c ∈ (base36Text n).toList) :
    c ∈ '-' :: base36Alphabet := by
  have hdigit : ∀ d < 36, base36Digit d ∈ base36Alphabet := by decide
  have hchars : ∀ m : ℕ, ∀ c ∈ base36Chars m, c ∈ base36Alphabet := by
    intro m c hc
    unfold base36Chars at hc
    split at hc
    · obtain rfl := List.mem_singleton.mp hc
      decide
    · obtain ⟨d, hd, rfl⟩ := List.mem_map.mp hc
      exact hdigit d (Nat.digits_lt_base (by norm_num) (List.mem_reverse.mp hd))
  rw [base36Text, String.toList_ofList, List.mem_append] at h
  rcases h with h | h
  · split_ifs at h
    · exact List.mem_cons.mpr (.inl (List.mem_singleton.mp h))
    · cases h
  · exact List.mem_cons_of_mem _ (hchars _ c h)

theorem underscore_not_mem_base36Lower (n : ℤ) : '_' ∉ (base36Lower n).toList := by
  have hletter : ('-' :: base36Alphabet).all (fun c => c.toLower ≠ '_') = true := by decide
  rw [base36Lower, String.toList_ofList]
  intro h
  obtain ⟨c, hc, hlower⟩ := List.mem_map.mp h
  exact of_decide_eq_true (List.all_eq_true.mp hletter c (mem_base36Text hc)) hlower

theorem base36Lower_inj {m n : ℤ} (h : base36Lower m = base36Lower n) : m = n := by
  have hletter : ('-' :: base36Alphabet).all (fun c => c.toLower.toUpper = c) = true := by decide
  have hback : ∀ k : ℤ, ((base36Lower k).toList.map Char.toUpper) = (base36Text k).toList := by
    intro k
    rw [base36Lower, String.toList_ofList, List.map_map]
    refine (List.map_congr_left fun c hc => ?_).trans (List.map_id _)
    exact of_decide_eq_true (List.all_eq_true.mp hletter c (mem_base36Text hc))
  refine Js.base36Text_inj (String.toList_inj.mp ?_)
  rw [← hback m, h, hback n]

/-- What follows the last separator is settled. -/
theorem append_separator_inj {x y a b : List Char} {c : Char} (ha : c ∉ a) (hb : c ∉ b)
    (h : x ++ c :: a = y ++ c :: b) : a = b := by
  rcases List.append_eq_append_iff.mp h with ⟨middle, -, hmiddle⟩ | ⟨middle, -, hmiddle⟩
  · cases middle with
    | nil => exact (List.cons.inj hmiddle).2
    | cons d middle =>
        obtain ⟨-, rfl⟩ := List.cons.inj hmiddle
        exact absurd (by simp) ha
  · cases middle with
    | nil => exact (List.cons.inj hmiddle).2.symm
    | cons d middle =>
        obtain ⟨-, rfl⟩ := List.cons.inj hmiddle
        exact absurd (by simp) hb

theorem toList_generateId (type : String) (now : Timestamp) (n : ℕ) :
    (generateId type now n).toList =
      (safeType type ++ "_" ++ base36Lower now).toList ++ '_' :: (base36Lower n).toList := by
  rw [generateId, String.toList_append, String.toList_append, List.append_assoc]
  rfl

/-- The counter makes ids unique. -/
theorem generateId_inj {type type' : String} {now now' : Timestamp} {m n : ℕ}
    (h : generateId type now m = generateId type' now' n) : m = n := by
  have hlists := congrArg String.toList h
  rw [toList_generateId, toList_generateId] at hlists
  have hlast := append_separator_inj (underscore_not_mem_base36Lower m)
    (underscore_not_mem_base36Lower n) hlists
  exact Int.ofNat.inj (base36Lower_inj (String.toList_inj.mp hlast))

/-! ## The invariant -/

variable {Payload : Type}

/-- How often a job may be executed without a retry by hand. -/
def RetryJob.limit (job : RetryJob Payload) : Number := Number.max 1 job.maxRetries

def QueueState.limit (s : QueueState Payload) : JobRef → Option Number :=
  fun ref => (s.jobs ref).map RetryJob.limit

/-- A number of retries that can be reached but not passed in steps of one: a whole number, or one that
asks for at most one, or an infinite one. -/
def WholeLimit : Number → Prop
  | .nan => False
  | .infinity _ => True
  | .finite q => q ≤ 1 ∨ q.den = 1

/-- Jobs are enqueued with limits of this kind, and what handlers reject with has a text. -/
def Countable : QueueAction Payload → Prop
  | .enqueue _ _ _ maxRetries => ∀ n ∈ maxRetries, WholeLimit n
  | .settle outcome => outcome.error ≠ some none
  | _ => True

/-- The fields of a job tell of its log. -/
structure JobInv (log : List QueueEvent) (ref : JobRef) (job : RetryJob Payload) : Prop where
  failures : failures ref log = job.retryCount
  executions : executions ref log =
    job.retryCount + if job.status = .processing ∨ job.status = .completed then 1 else 0
  failed : job.status = .failed ↔ job.limit.le (.finite job.retryCount) = true
  whole : WholeLimit job.maxRetries
  completed : .completed ref ∈ log ↔ job.status = .completed
  rested : job.status = .queued ∨ job.status = .processing →
    ∀ t ∈ job.nextRetryAt, Rested ref log t

/-- The job is as it was found to be due, but for the status. -/
def Picked (jobs : JobRef → Option (RetryJob Payload)) (now : Timestamp) (status : JobStatus)
    (ref : JobRef) : Prop :=
  ∃ job, jobs ref = some job ∧ job.status = status ∧ ∃ t ∈ job.nextRetryAt, t ≤ now

/-- The jobs of a cycle are different ones, and wait for it. -/
def CycleInv (jobs : JobRef → Option (RetryJob Payload)) (now : Timestamp) : Cycle → Prop
  | .next rest => rest.Nodup ∧ ∀ ref ∈ rest, Picked jobs now .queued ref
  | .handling job rest => (job :: rest).Nodup ∧ Picked jobs now .processing job ∧
      ∀ ref ∈ rest, Picked jobs now .queued ref

/-- The flag is set while there is a cycle, and then there is one only. -/
def CyclesInv (jobs : JobRef → Option (RetryJob Payload)) (now : Timestamp) :
    Bool → List Cycle → Prop
  | false, cycles => cycles = []
  | true, cycles => ∃ c, cycles = [c] ∧ CycleInv jobs now c

structure QueueInv (s : QueueState Payload) : Prop where
  lawful : Lawful s.limit s.log
  job : ∀ ref job, s.jobs ref = some job → JobInv s.log ref job
  ids : ∀ ref job, s.jobs ref = some job →
    ∃ type now n, n ≤ s.jobCounter ∧ job.id = generateId type now n
  entries : ∀ entry ∈ s.queue, ∃ job, s.jobs entry.2 = some job ∧ job.id = entry.1
  refs : (s.queue.map Prod.snd).Nodup
  cycles : CyclesInv s.jobs s.now s.processing s.cycles

/-! ### Frames -/

section Frames

variable {log events : List QueueEvent} {ref ref' : JobRef} {job job' : RetryJob Payload}
  {jobs : JobRef → Option (RetryJob Payload)} {now now' : Timestamp} {status : JobStatus}
  {c : Cycle} {processing : Bool} {cycles : List Cycle} {s : QueueState Payload}

/-- What happens to other jobs leaves the job alone. -/
theorem JobInv.append (h : JobInv log ref job) (hother : ∀ e ∈ events, e.job ≠ ref) :
    JobInv (events ++ log) ref job := by
  induction events with
  | nil => exact h
  | cons e events ih =>
      have hrest := ih fun e' he' => hother e' (List.mem_cons_of_mem _ he')
      have he : e.job ≠ ref := hother e List.mem_cons_self
      refine
        { failures := (failures_other he).trans hrest.failures
          executions := (executions_other he).trans hrest.executions
          failed := hrest.failed
          whole := hrest.whole
          completed := ?_
          rested := fun hstatus t ht => (hrest.rested hstatus t ht).cons ?_ }
      · have hne : .completed ref ≠ e := fun heq => he (heq ▸ rfl)
        rw [List.cons_append, List.mem_cons, or_iff_right hne]
        exact hrest.completed
      · rintro failedAt rfl
        exact he rfl

theorem Picked.later (h : Picked jobs now status ref) (hle : now ≤ now') :
    Picked jobs now' status ref := by
  obtain ⟨job, hjob, hstatus, t, ht, htle⟩ := h
  exact ⟨job, hjob, hstatus, t, ht, htle.trans hle⟩

theorem Picked.update {x : Option (RetryJob Payload)} (h : Picked jobs now status ref)
    (hne : ref ≠ ref') : Picked (Function.update jobs ref' x) now status ref := by
  obtain ⟨job, hjob, hpicked⟩ := h
  exact ⟨job, (Function.update_of_ne hne _ _).trans hjob, hpicked⟩

/-- The jobs of a cycle. -/
def Cycle.refs : Cycle → List JobRef
  | .next rest => rest
  | .handling job rest => job :: rest

/-- They are queued or being processed. -/
theorem CycleInv.live (h : CycleInv jobs now c) (href : ref ∈ c.refs) :
    ∃ job, jobs ref = some job ∧ (job.status = .queued ∨ job.status = .processing) := by
  have hqueued : Picked jobs now .queued ref → ∃ job, jobs ref = some job ∧
      (job.status = .queued ∨ job.status = .processing) := by
    rintro ⟨job, hjob, hstatus, -⟩
    exact ⟨job, hjob, .inl hstatus⟩
  cases c with
  | next rest => exact hqueued (h.2 ref href)
  | handling job rest =>
      rcases List.mem_cons.mp href with rfl | href
      · obtain ⟨job, hjob, hstatus, -⟩ := h.2.1
        exact ⟨job, hjob, .inr hstatus⟩
      · exact hqueued (h.2.2 ref href)

theorem CycleInv.later (h : CycleInv jobs now c) (hle : now ≤ now') : CycleInv jobs now' c := by
  cases c with
  | next rest => exact ⟨h.1, fun ref href => (h.2 ref href).later hle⟩
  | handling job rest =>
      exact ⟨h.1, h.2.1.later hle, fun ref href => (h.2.2 ref href).later hle⟩

theorem CycleInv.update {x : Option (RetryJob Payload)} (h : CycleInv jobs now c)
    (href : ref' ∉ c.refs) : CycleInv (Function.update jobs ref' x) now c := by
  have hne : ∀ ref ∈ c.refs, ref ≠ ref' := fun ref hmem heq => href (heq ▸ hmem)
  cases c with
  | next rest => exact ⟨h.1, fun ref hmem => (h.2 ref hmem).update (hne ref hmem)⟩
  | handling job rest =>
      refine ⟨h.1, h.2.1.update (hne job List.mem_cons_self), fun ref hmem => ?_⟩
      exact (h.2.2 ref hmem).update (hne ref (List.mem_cons_of_mem _ hmem))

theorem CyclesInv.later (h : CyclesInv jobs now processing cycles) (hle : now ≤ now') :
    CyclesInv jobs now' processing cycles := by
  cases processing with
  | false => exact h
  | true =>
      obtain ⟨c, hcycles, hc⟩ := h
      exact ⟨c, hcycles, hc.later hle⟩

/-- A job that no cycle waits for can change. -/
theorem CyclesInv.update {x : Option (RetryJob Payload)} (h : CyclesInv jobs now processing cycles)
    (href : ∀ job, jobs ref = some job → job.status ≠ .queued ∧ job.status ≠ .processing) :
    CyclesInv (Function.update jobs ref x) now processing cycles := by
  cases processing with
  | false => exact h
  | true =>
      obtain ⟨c, hcycles, hc⟩ := h
      refine ⟨c, hcycles, hc.update fun hmem => ?_⟩
      obtain ⟨job, hjob, hstatus | hstatus⟩ := hc.live hmem
      · exact (href job hjob).1 hstatus
      · exact (href job hjob).2 hstatus

/-- The cycle that goes on is the only one. -/
theorem CyclesInv.alone {before after : List Cycle}
    (h : CyclesInv jobs now processing (before ++ c :: after)) :
    processing = true ∧ before = [] ∧ after = [] ∧ CycleInv jobs now c := by
  cases processing with
  | false => simp [CyclesInv] at h
  | true =>
      obtain ⟨c', hcycles, hc⟩ := h
      cases before with
      | nil =>
          obtain ⟨rfl, rfl⟩ := List.cons.inj hcycles
          exact ⟨rfl, rfl, rfl, hc⟩
      | cons b before => simp at hcycles

/-- A step that touches one job, and records only what happened to it. -/
theorem QueueInv.touch (h : QueueInv s) (events : List QueueEvent)
    (hjob : s.jobs ref = some job) (hid : job'.id = job.id)
    (hmax : job'.maxRetries = job.maxRetries) (hevents : ∀ e ∈ events, e.job = ref)
    (hlawful : Lawful s.limit (events ++ s.log)) (hinv : JobInv (events ++ s.log) ref job')
    (hcycles : CyclesInv (Function.update s.jobs ref (some job')) s.now processing cycles) :
    QueueInv { s with
      jobs := Function.update s.jobs ref (some job')
      log := events ++ s.log
      processing
      cycles } := by
  -- the limits of the jobs stay, so the log stays lawful
  have hsame : ∀ r, (Function.update s.jobs ref (some job') r).map RetryJob.limit = s.limit r := by
    intro r
    by_cases hr : r = ref
    · subst hr
      rw [Function.update_self, QueueState.limit, hjob]
      simp [RetryJob.limit, hmax]
    · rw [Function.update_of_ne hr, QueueState.limit]
  refine
    { lawful := hlawful.mono fun r n hn => (hsame r).trans hn
      job := fun r j hj => ?_
      ids := fun r j hj => ?_
      entries := fun entry hentry => ?_
      refs := h.refs
      cycles := hcycles }
  · change Function.update s.jobs ref (some job') r = some j at hj
    by_cases hr : r = ref
    · subst hr
      obtain rfl : job' = j := by simpa using hj
      exact hinv
    · rw [Function.update_of_ne hr] at hj
      refine (h.job r j hj).append fun e he heq => hr ?_
      exact heq.symm.trans (hevents e he)
  · change Function.update s.jobs ref (some job') r = some j at hj
    by_cases hr : r = ref
    · subst hr
      obtain rfl : job' = j := by simpa using hj
      rw [hid]
      exact h.ids r job hjob
    · rw [Function.update_of_ne hr] at hj
      exact h.ids r j hj
  · obtain ⟨j, hj, hkey⟩ := h.entries entry hentry
    by_cases hr : entry.2 = ref
    · rw [hr] at hj ⊢
      obtain rfl := Option.some.inj (hjob.symm.trans hj)
      exact ⟨job', Function.update_self .., hid.trans hkey⟩
    · exact ⟨j, (Function.update_of_ne hr _ _).trans hj, hkey⟩

end Frames

/-! ### The steps -/

section Steps

variable {s : QueueState Payload} {ref : JobRef} {job : RetryJob Payload} {log : List QueueEvent}

/-- Before the first failure the limit is not reached, -/
theorem RetryJob.limit_not_le_zero (job : RetryJob Payload) : job.limit.le (.finite 0) = false := by
  unfold RetryJob.limit
  cases job.maxRetries with
  | nan => rfl
  | infinity negative => cases negative <;> simp [Number.max, Number.le, Number.lt]
  | finite q =>
      rw [Number.ofNat_eq, Number.max_finite, Number.le_finite, decide_eq_false_iff_not, not_le]
      exact lt_max_of_lt_left (by norm_num)

/-- and after one it is reached when the source's test says so. -/
theorem RetryJob.limit_le_iff (job : RetryJob Payload) {count : ℕ} (hpos : 0 < count) :
    job.limit.le (.finite count) = job.maxRetries.le (.finite count) := by
  have hone : (1 : ℚ) ≤ count := by exact_mod_cast hpos
  unfold RetryJob.limit
  cases job.maxRetries with
  | nan => rfl
  | infinity negative =>
      cases negative with
      | false => rfl
      | true => simp [Number.max, Number.le, Number.lt, hpos.ne']
  | finite q => simp [hone]

/-- A limit that is not reached leaves room for one more execution. -/
theorem RetryJob.succ_le_limit {count : ℕ} (hwhole : WholeLimit job.maxRetries)
    (hlt : job.limit.le (.finite count) = false) :
    Number.le (.finite (count + 1)) job.limit = true := by
  unfold RetryJob.limit at hlt ⊢
  cases hmax : job.maxRetries with
  | nan =>
      rw [hmax] at hwhole
      exact hwhole.elim
  | infinity negative =>
      rw [hmax] at hlt
      cases negative with
      | false => simp [Number.max, Number.le, Number.lt]
      | true =>
          -- the limit is one, and nothing has failed yet
          have hone : Number.max 1 (.infinity true) = .finite 1 := by
            simp [Number.max, Number.lt]
          rw [hone, Number.le_finite, decide_eq_false_iff_not, not_le] at hlt
          rw [hone, Number.le_finite, decide_eq_true_eq]
          norm_cast at hlt ⊢
  | finite q =>
      rw [hmax] at hwhole hlt
      simp only [Number.ofNat_eq, Number.max_finite, Number.le_finite, decide_eq_false_iff_not, not_le,
        decide_eq_true_eq, lt_max_iff, le_max_iff] at hlt ⊢
      rcases hlt with hlt | hlt
      · -- nothing has failed yet
        norm_cast at hlt ⊢
        exact .inl (by omega)
      · rcases hwhole with hle | hden
        · have hlt : (count : ℚ) < 1 := hlt.trans_le hle
          norm_cast at hlt ⊢
          exact .inl (by omega)
        · -- a whole number above the count is above it by one
          obtain ⟨z, rfl⟩ : ∃ z : ℤ, q = z := ⟨q.num, (Rat.den_eq_one_iff q).mp hden |>.symm⟩
          refine .inr ?_
          have hlt : (count : ℤ) < z := by exact_mod_cast hlt
          have hle : (count : ℤ) + 1 ≤ z := hlt
          exact_mod_cast hle

theorem RetryJob.zero_le_limit (hwhole : WholeLimit job.maxRetries) :
    Number.le 0 job.limit = true := by
  have hzero : job.limit.le (.finite (0 : ℕ)) = false := by
    exact_mod_cast job.limit_not_le_zero
  refine Number.finite_le_of_le ?_ (RetryJob.succ_le_limit hwhole hzero)
  positivity

/-- A new object, of which the log says nothing. -/
theorem jobInv_new (hlog : ∀ e ∈ log, e.job ≠ ref) (hcount : job.retryCount = 0)
    (hstatus : job.status = .queued) (hwhole : WholeLimit job.maxRetries) : JobInv log ref job := by
  have hempty : JobInv [] ref job := by
    refine
      { failures := hcount.symm
        executions := by simp [hstatus, hcount, executions, current]
        failed := ?_
        whole := hwhole
        completed := by simp [hstatus]
        rested := fun _ _ _ => rested_of_forall (by simp) }
    rw [hstatus, hcount, Nat.cast_zero, job.limit_not_le_zero]
    simp
  simpa using hempty.append hlog

theorem set_eq_append {queue : List (String × JobRef)} {id : String}
    (h : ∀ entry ∈ queue, entry.1 ≠ id) : QueueState.set queue id ref = queue ++ [(id, ref)] := by
  rw [QueueState.set, if_neg]
  rw [List.any_eq_true]
  rintro ⟨entry, hentry, hid⟩
  exact h entry hentry (of_decide_eq_true hid)

/-- No entry has the next id. -/
theorem QueueInv.fresh (h : QueueInv s) (type : String) : ∀ entry ∈ s.queue,
    entry.1 ≠ generateId type s.now (s.jobCounter + 1) := by
  intro entry hentry heq
  obtain ⟨job, hjob, hid⟩ := h.entries entry hentry
  obtain ⟨type', now', n, hn, hjobId⟩ := h.ids entry.2 job hjob
  have hsame := generateId_inj (hjobId.symm.trans (hid.trans heq))
  omega

/-- A new entry goes to the end of the map. -/
theorem QueueInv.queue_enqueue (h : QueueInv s) (type : String) (payload : Payload)
    (maxRetries : Option Number) : (s.enqueue ref type payload maxRetries).2.queue =
      s.queue ++ [(generateId type s.now (s.jobCounter + 1), ref)] :=
  set_eq_append (h.fresh type)

theorem QueueInv.enqueue (h : QueueInv s) (hfree : s.jobs ref = none) (type : String)
    (payload : Payload) {maxRetries : Option Number} (hwhole : ∀ n ∈ maxRetries, WholeLimit n) :
    QueueInv (s.enqueue ref type payload maxRetries).2 := by
  have hlimit : s.limit ref = none := by rw [QueueState.limit, hfree, Option.map_none]
  -- the reference is free, so the log does not mention it yet
  have hne : ∀ r n, s.limit r = some n → r ≠ ref := by
    rintro r n hn rfl
    rw [hlimit] at hn
    cases hn
  have hother : ∀ r job, s.jobs r = some job → r ≠ ref := by
    rintro r job hjob rfl
    rw [hfree] at hjob
    cases hjob
  refine
    { lawful := h.lawful.mono fun r n hn => ?_
      job := fun r j hj => ?_
      ids := fun r j hj => ?_
      entries := fun entry hentry => ?_
      refs := ?_
      cycles := h.cycles.update fun j hj => absurd rfl (hother ref j hj) }
  · rw [← hn]
    exact congrArg _ (Function.update_of_ne (hne r n hn) _ _)
  · change Function.update s.jobs ref _ r = some j at hj
    by_cases hr : r = ref
    · subst hr
      obtain rfl := by simpa using hj
      refine jobInv_new (h.lawful.job_ne hlimit) rfl rfl ?_
      cases maxRetries with
      | none => exact .inr rfl
      | some n => exact hwhole n rfl
    · rw [Function.update_of_ne hr] at hj
      exact h.job r j hj
  · change Function.update s.jobs ref _ r = some j at hj
    by_cases hr : r = ref
    · subst hr
      obtain rfl := by simpa using hj
      exact ⟨type, s.now, s.jobCounter + 1, le_rfl, rfl⟩
    · rw [Function.update_of_ne hr] at hj
      obtain ⟨type', now', n, hn, hid⟩ := h.ids r j hj
      exact ⟨type', now', n, Nat.le_succ_of_le hn, hid⟩
  · rw [h.queue_enqueue, List.mem_append, List.mem_singleton] at hentry
    rcases hentry with hentry | rfl
    · obtain ⟨j, hj, hid⟩ := h.entries entry hentry
      exact ⟨j, (Function.update_of_ne (hother _ j hj) _ _).trans hj, hid⟩
    · exact ⟨_, Function.update_self .., rfl⟩
  · rw [h.queue_enqueue, List.map_append, List.nodup_append]
    refine ⟨h.refs, List.nodup_singleton _, fun r hr r' hr' => ?_⟩
    obtain ⟨entry, hentry, rfl⟩ := List.mem_map.mp hr
    obtain ⟨j, hj, -⟩ := h.entries entry hentry
    obtain rfl : r' = ref := by simpa using hr'
    exact hother _ j hj

/-- A failed job is queued again. -/
theorem QueueInv.retryJob (h : QueueInv s) (id : String) : QueueInv (s.retryJob id).2 := by
  unfold QueueState.retryJob
  split
  · exact h
  rename_i ref hget
  split
  · exact h
  rename_i job hjob
  split_ifs with hstatus
  · exact h
  have hfailed : job.status = .failed := not_not.mp hstatus
  have hinv := h.job ref job hjob
  have hlimit : s.limit ref = some job.limit := by rw [QueueState.limit, hjob, Option.map_some]
  refine h.touch [.retried ref] hjob rfl rfl (by simp [QueueEvent.job]) ?_ ?_ ?_
  · exact ⟨⟨_, hlimit, by simp [QueueEvent.job]⟩, h.lawful⟩
  · refine
      { failures := failures_retried
        executions := executions_retried
        failed := ⟨by simp, fun hle => ?_⟩
        whole := hinv.whole
        completed := ?_
        rested := fun _ _ _ => rested_retried }
    · -- the limit is at least one, so the counter that starts again has not reached it
      have hle : job.limit.le (.finite ((0 : ℕ) : ℚ)) = true := hle
      rw [Nat.cast_zero, job.limit_not_le_zero] at hle
      cases hle
    · have hno : .completed ref ∉ s.log := by
        simp [hinv.completed, hfailed]
      simp [hno]
  · refine h.cycles.update fun j hj => ?_
    obtain rfl := Option.some.inj (hjob.symm.trans hj)
    simp [hfailed]

theorem QueueInv.clearCompleted (h : QueueInv s) : QueueInv s.clearCompleted.2 :=
  { h with
    entries := fun entry hentry => h.entries entry (List.mem_filter.mp hentry).1
    refs := h.refs.sublist (List.filter_sublist.map _) }

theorem QueueInv.tick (h : QueueInv s) : QueueInv s.tick := by
  unfold QueueState.tick
  split_ifs with hdestroyed hprocessing
  · exact h
  · exact h
  have hcycles := h.cycles
  rw [Bool.eq_false_iff.mpr hprocessing] at hcycles
  have hnone : s.cycles = [] := hcycles
  refine { h with
    cycles := ⟨.next s.due, congrArg (· ++ [.next s.due]) hnone, h.refs.filter _,
      fun ref href => ?_⟩ }
  -- what is due is picked
  have hdue := (List.mem_filter.mp href).2
  rw [QueueState.isDue, Option.any_eq_true] at hdue
  obtain ⟨job, hjob, hdue⟩ := hdue
  rw [Bool.and_eq_true, decide_eq_true_eq, Option.any_eq_true] at hdue
  obtain ⟨hstatus, t, ht, hle⟩ := hdue
  exact ⟨job, hjob, hstatus, t, ht, of_decide_eq_true hle⟩

/-- A queued job has executions left. -/
theorem JobInv.limit_not_le (h : JobInv log ref job) (hstatus : job.status ≠ .failed) :
    job.limit.le (.finite job.retryCount) = false := by
  rw [Bool.eq_false_iff]
  exact fun hle => hstatus (h.failed.mpr hle)

/-- A picked job has rested. -/
theorem QueueInv.rested (h : QueueInv s) {status : JobStatus}
    (hstatus : status = .queued ∨ status = .processing) (hpicked : Picked s.jobs s.now status ref) :
    Rested ref s.log s.now := by
  obtain ⟨job, hjob, rfl, t, ht, hle⟩ := hpicked
  exact ((h.job ref job hjob).rested hstatus t ht).mono hle

/-- The rest of a batch still waits after something happened to its first job. -/
theorem picked_rest {jobs : JobRef → Option (RetryJob Payload)} {now : Timestamp}
    {rest : List JobRef} {x : Option (RetryJob Payload)} (hnodup : (ref :: rest).Nodup)
    (hrest : ∀ r ∈ rest, Picked jobs now .queued r) :
    ∀ r ∈ rest, Picked (Function.update jobs ref x) now .queued r := by
  intro r hr
  refine (hrest r hr).update ?_
  rintro rfl
  exact (List.nodup_cons.mp hnodup).1 hr

theorem QueueInv.processJob (h : QueueInv s) {before after : List Cycle} {rest : List JobRef}
    (hcycles : s.cycles = before ++ .next (ref :: rest) :: after) (hjob : s.jobs ref = some job) :
    QueueInv { (s.processJob ref job rest).1 with
      cycles := before ++ (s.processJob ref job rest).2 :: after } := by
  have hall := h.cycles
  rw [hcycles] at hall
  obtain ⟨hprocessing, rfl, rfl, hnodup, hwaiting⟩ := hall.alone
  have hpicked := hwaiting ref List.mem_cons_self
  have hrest := fun r hr => hwaiting r (List.mem_cons_of_mem ref hr)
  have hinv := h.job ref job hjob
  have hlimit : s.limit ref = some job.limit := by rw [QueueState.limit, hjob, Option.map_some]
  have hrested := h.rested (.inl rfl) hpicked
  obtain ⟨job', hjob', hstatus, t, ht, hle⟩ := hpicked
  obtain rfl := Option.some.inj (hjob.symm.trans hjob')
  have hlt := hinv.limit_not_le (by simp [hstatus])
  have hcount := hinv.executions
  rw [hstatus, if_neg (by simp), add_zero] at hcount
  have hno : .completed ref ∉ s.log := by
    simp [hinv.completed, hstatus]
  unfold QueueState.processJob
  split_ifs with hhandler
  · -- the handler is called
    refine h.touch [.executed ref s.now] hjob rfl rfl (by simp [QueueEvent.job]) ?_ ?_ ?_
    · refine ⟨⟨_, hlimit, fun time htime => ?_⟩, h.lawful⟩
      obtain rfl : s.now = time := by simpa [QueueEvent.job] using htime
      refine ⟨?_, hrested, hno⟩
      change Number.le (.finite (executions ref s.log + 1)) job.limit = true
      rw [hcount]
      exact RetryJob.succ_le_limit hinv.whole hlt
    · refine
        { failures := (failures_cons (by simp)).trans (by simp [isFailure, hinv.failures])
          executions := (executions_cons (by simp)).trans (by simp [isExecution, hcount])
          failed := ⟨by simp, fun hge => absurd hge (Bool.eq_false_iff.mp hlt)⟩
          whole := hinv.whole
          completed := by simp [hno]
          rested := fun _ u hu => (hinv.rested (.inl hstatus) u hu).cons (by simp) }
    · change CyclesInv _ _ s.processing _
      rw [hprocessing]
      exact ⟨_, rfl, hnodup, ⟨_, Function.update_self .., rfl, t, ht, hle⟩, picked_rest hnodup hrest⟩
  · -- there is none
    refine h.touch [] hjob rfl rfl (by simp) h.lawful ?_ ?_
    · refine { hinv with rested := fun _ u hu => hrested.mono ?_ }
      rw [Js.timeClip_ofTimestamp hu]
      exact le_add_of_nonneg_right (by norm_num)
    · change CyclesInv _ _ s.processing _
      rw [hprocessing]
      exact ⟨_, rfl, (List.nodup_cons.mp hnodup).2, picked_rest hnodup hrest⟩

/-- A job whose handler has returned. -/
theorem JobInv.completes (h : JobInv log ref job) (hstatus : job.status = .processing) :
    JobInv (.completed ref :: log) ref { job with status := .completed } := by
  have hlt := h.limit_not_le (by rw [hstatus]; nofun)
  have hcount := h.executions
  rw [hstatus, if_pos (.inl rfl)] at hcount
  exact
    { failures := (failures_cons (by simp)).trans (by simp [isFailure, h.failures])
      executions := (executions_cons (by simp)).trans (by simp [isExecution, hcount])
      failed := ⟨nofun, fun hge => absurd hge (Bool.eq_false_iff.mp hlt)⟩
      whole := h.whole
      completed := by simp
      rested := by simp }

/-- A job whose handler has failed, whatever is made of it. -/
theorem JobInv.fails {job' : RetryJob Payload} (h : JobInv log ref job)
    (hstatus : job.status = .processing)
    {failedAt : Timestamp} (hcount : job'.retryCount = job.retryCount + 1)
    (hended : job'.status ≠ .processing ∧ job'.status ≠ .completed)
    (hfailed : job'.status = .failed ↔ job'.limit.le (.finite job'.retryCount) = true)
    (hmax : job'.maxRetries = job.maxRetries)
    (hrested : job'.status = .queued →
      ∀ t ∈ job'.nextRetryAt, Rested ref (.failed ref failedAt :: log) t) :
    JobInv (.failed ref failedAt :: log) ref job' := by
  have hexecuted := h.executions
  rw [hstatus, if_pos (.inl rfl)] at hexecuted
  have hno : .completed ref ∉ log := by
    rw [h.completed, hstatus]
    nofun
  exact
    { failures := (failures_cons (by simp)).trans (by simp [isFailure, h.failures, hcount])
      executions := by
        rw [executions_cons (by simp), hexecuted, hcount, if_neg (not_or.mpr hended)]
        rfl
      failed := hfailed
      whole := by rw [hmax]; exact h.whole
      completed := iff_of_false (by simp [hno]) hended.2
      rested := fun hlive => hrested (hlive.resolve_right hended.1) }

theorem QueueInv.settle (h : QueueInv s) {before after : List Cycle} {rest : List JobRef}
    (outcome : HandlerOutcome) (hcycles : s.cycles = before ++ .handling ref rest :: after)
    (hjob : s.jobs ref = some job) (htext : outcome.error ≠ some none) :
    QueueInv { s.settleJob ref job outcome with cycles := before ++ .next rest :: after } := by
  have hall := h.cycles
  rw [hcycles] at hall
  obtain ⟨hprocessing, rfl, rfl, hnodup, hpicked, hrest⟩ := hall.alone
  have hinv := h.job ref job hjob
  have hlimit : s.limit ref = some job.limit := by rw [QueueState.limit, hjob, Option.map_some]
  have hrested := h.rested (.inr rfl) hpicked
  obtain ⟨job', hjob', hstatus, -⟩ := hpicked
  obtain rfl := Option.some.inj (hjob.symm.trans hjob')
  -- the cycle is the only one and goes on without this job, whatever became of it
  have hnext {x : Option (RetryJob Payload)} :
      CyclesInv (Function.update s.jobs ref x) s.now s.processing [.next rest] := by
    rw [hprocessing]
    exact ⟨_, rfl, (List.nodup_cons.mp hnodup).2, picked_rest hnodup hrest⟩
  unfold QueueState.settleJob
  split
  · -- completed
    exact h.touch [.completed ref] hjob rfl rfl (by simp [QueueEvent.job])
      ⟨⟨_, hlimit, by simp [QueueEvent.job]⟩, h.lawful⟩ (hinv.completes hstatus) hnext
  · rename_i hnone
    exact absurd hnone htext
  · -- one more failure
    have hlawful : Lawful s.limit (.failed ref s.now :: s.log) :=
      ⟨⟨_, hlimit, by simp [QueueEvent.job]⟩, h.lawful⟩
    have hlimitLe := job.limit_le_iff (Nat.succ_pos job.retryCount)
    dsimp only
    split_ifs with hmax
    · exact h.touch [.failed ref s.now] hjob rfl rfl (by simp [QueueEvent.job]) hlawful
        (hinv.fails hstatus rfl (by simp) (iff_of_true rfl (hlimitLe.trans hmax)) rfl (by simp)) hnext
    · refine h.touch [.failed ref s.now] hjob rfl rfl (by simp [QueueEvent.job]) hlawful
        (hinv.fails hstatus rfl (by simp)
          (iff_of_false (by simp) fun hge => hmax (hlimitLe.symm.trans hge)) rfl
          fun _ u hu => hrested.failed ?_) hnext
      have hfailures : failures ref (.failed ref s.now :: s.log) = job.retryCount + 1 :=
        (failures_cons (by simp)).trans (by simp [isFailure, hinv.failures])
      rw [hfailures, Js.timeClip_ofTimestamp hu]

/-- Every step that meets the condition keeps the invariant. -/
theorem QueueInv.step (h : QueueInv s) {a : QueueAction Payload} {s' : QueueState Payload}
    (hcountable : Countable a) (hstep : QueueStep s a s') : QueueInv s' := by
  cases hstep with
  | elapse ms => exact { h with cycles := h.cycles.later (le_add_of_nonneg_right (by positivity)) }
  | registerHandler type => exact { h with }
  | enqueue type payload maxRetries hfree => exact h.enqueue hfree type payload hcountable
  | retryJob id => exact h.retryJob id
  | clearCompleted => exact h.clearCompleted
  | onModuleDestroy => exact { h with }
  | tick => exact h.tick
  | finish hcycles =>
      have hall := h.cycles
      rw [hcycles] at hall
      obtain ⟨-, rfl, rfl, -⟩ := hall.alone
      exact { h with cycles := rfl }
  | processJob hcycles hjob => exact h.processJob hcycles hjob
  | settle outcome hcycles hjob htext => exact h.settle outcome hcycles hjob htext
  | reject outcome _ _ htext => exact absurd htext hcountable

/-- A queue whose runs meet the condition. -/
abbrev countableQueue (Payload : Type) : StepSystem (QueueState Payload) (QueueAction Payload) :=
  (memoryQueue Payload).restrict fun _ => Countable

theorem queueInv_of_reachable (h : (countableQueue Payload).Reachable s) : QueueInv s := by
  refine StepSystem.invariant_of_steps (I := QueueInv) ?_ ?_ h
  · rintro _ ⟨now, jobCounter, rfl⟩
    exact
      { lawful := trivial
        job := nofun
        ids := nofun
        entries := nofun
        refs := List.nodup_nil
        cycles := rfl }
  · rintro s a s' - hI ⟨hcountable, hstep⟩
    exact hI.step hcountable hstep

end Steps

end ThalosBackend.Common.Retry
