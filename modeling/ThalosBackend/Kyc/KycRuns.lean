import ThalosBackend.Kyc.KycService
import ThalosBackend.Library.CallThreads

/-!
# Runs of the KYC module

Any users open sessions with any providers, at any time and more than once, and the providers send
webhooks. Their calls interleave, and any query may fail. The table is empty at the beginning.

`forall_rows_of_reachable` is the rule for what holds of every row: a first session, a new session for a
row and a webhook are all that writes.
-/

set_option autoImplicit false

namespace ThalosBackend.Kyc

open Js (Timestamp Value)
open Calls (Move Only Serving Task nextCall)
open Threads (Config Label)
open Verification (VerificationRecord)

/-- A session that a user asks for, or a webhook that a provider has read. -/
inductive KycRequest where
  | createSession (provider : String) (now : Timestamp) (userId : String) (metadata : Value)
  | webhook (now : Timestamp) (payload : WebhookResult)

/-- What a request is answered with. -/
inductive KycResult where
  | verification (v : VerificationRecord)
  | handled

/-- The operation behind a request. -/
def KycRequest.program : KycRequest → KycProgram KycResult
  | .createSession provider now userId metadata => do
      return .verification (← Kyc.createSession provider now userId metadata)
  | .webhook now payload => do
      handleWebhookProcessed now payload
      return .handled

/-- The requests over the table, with the sessions that the providers may answer with. -/
def kycServing (sessions : Sessions) :
    Serving KycRequest HttpException KycCall KycCall.reply KycResult KycDb CallAct Empty where
  init db := db.verifications = []
  program := KycRequest.program
  exec act _ c db x db' := act.exec sessions c db x db'
  env b _ _ := b.elim

abbrev KycTask := Task KycRequest HttpException KycCall KycCall.reply KycResult

abbrev KycConfig := Config KycDb ℕ KycTask

abbrev KycLabel := Label ℕ KycTask CallAct Empty

/-- The step system of the requests. -/
def kycSystem (sessions : Sessions) : StepSystem KycConfig KycLabel :=
  (kycServing sessions).threads.system ℕ

/-- The step does not answer a call that the condition excludes. -/
def Answering (allowed : KycDb → KycCall → Prop) (c : KycConfig) : KycLabel → Prop
  | .act t .answer => ∀ k call, c.threads t = some k → nextCall k.rest = some call →
      allowed c.shared call
  | _ => True

theorem Answering.mono {allowed allowed' : KycDb → KycCall → Prop}
    (h : ∀ db call, allowed db call → allowed' db call) {c : KycConfig} {l : KycLabel}
    (hl : Answering allowed c l) : Answering allowed' c l := by
  rcases l with ⟨t, k⟩ | ⟨t, _ | _⟩ | b
  · trivial
  · exact fun k call hk hnext => h _ _ (hl k call hk hnext)
  · trivial
  · trivial

theorem not_answering {allowed : KycDb → KycCall → Prop} {c : KycConfig} {l : KycLabel}
    (h : ¬ Answering allowed c l) : ∃ t k call, l = .act t .answer ∧ c.threads t = some k ∧
      nextCall k.rest = some call ∧ ¬ allowed c.shared call := by
  rcases l with ⟨t, k⟩ | ⟨t, _ | _⟩ | b
  · exact absurd trivial h
  · simp only [Answering, not_forall] at h
    obtain ⟨k, call, hk, hnext, hnot⟩ := h
    exact ⟨t, k, call, rfl, hk, hnext, hnot⟩
  · exact absurd trivial h
  · exact b.elim

theorem KycRequest.program_only (req : KycRequest) : Only KycCall.Writes req.program := by
  cases req with
  | createSession provider now userId metadata => exact createSession_only.bind fun _ => trivial
  | webhook now payload => exact (handleWebhookProcessed_only payload).bind fun _ => trivial

section Rows

variable {sessions : Sessions} {allowed : KycDb → KycCall → Prop} {c : KycConfig}

/-- A condition that every call meets leaves nothing out. -/
theorem reachable_answering (h : (kycSystem sessions).Reachable c) :
    ((kycSystem sessions).restrict (Answering fun _ _ => True)).Reachable c := by
  refine h.restrict fun _ l => ?_
  rcases l with ⟨t, k⟩ | ⟨t, _ | _⟩ | b
  · trivial
  · exact fun _ _ _ _ => trivial
  · trivial
  · trivial

/-- The invariant rule for the table: what the calls of the service make of it keeps the invariant, where
they are allowed. -/
theorem db_of_reachable {I : KycDb → Prop} (hinit : ∀ db : KycDb, db.verifications = [] → I db)
    (hexec : ∀ db call act db', (act = .answer → allowed db call) → call.Writes → I db →
      RowsChange db call act db' → I db')
    (h : ((kycSystem sessions).restrict (Answering allowed)).Reachable c) : I c.shared := by
  refine Calls.shared_of_reachable (fun _ _ req _ => req.program_only) hinit ?_ (fun b => b.elim) h
  rintro c t act req call cont x db hguard hk hwrites hI hx
  refine hexec c.shared call act db ?_ hwrites hI (CallAct.exec.rows hx)
  rintro rfl
  exact hguard _ _ hk rfl

/-- **Every row.** What holds of every first row, and is kept by a new session and by a webhook, holds of
all rows. -/
theorem forall_rows_of_reachable {P : VerificationRecord → Prop}
    (hinserted : ∀ db new id created, allowed db (.insertVerification new) →
      (KycCall.insertVerification new).Writes → P (new.row id created))
    (hrestarted : ∀ db id updates v, allowed db (.updateVerification id updates) →
      (KycCall.updateVerification id updates).Writes → v ∈ db.ofId id → P v → P (updates.apply v))
    (hsettled : ∀ db reference updates v, allowed db (.updateByReference reference updates) →
      (KycCall.updateByReference reference updates).Writes → v ∈ db.ofReference reference → P v →
      P (updates.apply v))
    (h : ((kycSystem sessions).restrict (Answering allowed)).Reachable c) :
    ∀ v ∈ c.shared.verifications, P v := by
  refine db_of_reachable (I := fun db => ∀ v ∈ db.verifications, P v) ?_ ?_ h
  · intro db hempty v hv
    rw [hempty] at hv
    cases hv
  · intro db call act db' hallowed hwrites hI hchange
    cases hchange with
    | same act => exact hI
    | inserted new id created hcall hfree hfresh =>
        subst hcall
        intro v hv
        rcases List.mem_append.mp hv with hv | hv
        · exact hI v hv
        · rw [List.mem_singleton.mp hv]
          exact hinserted db new id created (hallowed rfl) hwrites
    | restarted id updates w hcall hrow =>
        subst hcall
        refine Table.forall_mem_updateWhere (fun v hv _ => hI v hv) fun v hv hid => ?_
        exact hrestarted db id updates v (hallowed rfl) hwrites (List.mem_filter.mpr ⟨hv, hid⟩)
          (hI v hv)
    | settled reference updates hcall =>
        subst hcall
        refine Table.forall_mem_updateWhere (fun v hv _ => hI v hv) fun v hv hreference => ?_
        exact hsettled db reference updates v (hallowed rfl) hwrites
          (List.mem_filter.mpr ⟨hv, hreference⟩) (hI v hv)

/-- No two rows have the same id. -/
theorem ids_unique (h : ((kycSystem sessions).restrict (Answering allowed)).Reachable c) :
    Table.Unique VerificationRecord.id c.shared.verifications := by
  refine db_of_reachable (I := fun db => Table.Unique VerificationRecord.id db.verifications) ?_ ?_ h
  · intro db hempty
    simp [hempty, Table.Unique]
  · intro db call act db' _ _ hI hchange
    cases hchange with
    | same act => exact hI
    | inserted new id created hcall hfree hfresh => exact hI.concat hfresh
    | restarted id updates v hcall hrow => exact hI.updateWhere fun _ _ => rfl
    | settled reference updates hcall => exact hI.updateWhere fun _ _ => rfl

end Rows

/-! ## Schedules -/

section Schedules

/-- The empty table. -/
def emptyTable : KycDb := ⟨[]⟩

/-- Providers whose sessions are as this function says. -/
def exactly (session : String → CreateSessionInput → Except HttpException SessionResult) : Sessions :=
  fun provider input x => x = session provider input

variable {session : String → CreateSessionInput → Except HttpException SessionResult}

/-- The requests of a schedule. -/
def playKyc (session : String → CreateSessionInput → Except HttpException SessionResult)
    (check : KycDb → List KycTask → Move KycRequest → Bool) (moves : List (Move KycRequest)) :
    Option (KycDb × List KycTask) :=
  (kycServing (exactly session)).play (fun _ c db => db.answer session c) check moves (emptyTable, [])

/-- The move does not answer a call that the condition excludes. -/
def allowedMove (allowed : KycDb → KycCall → Bool) (db : KycDb) (tasks : List KycTask) :
    Move KycRequest → Bool
  | .start _ => true
  | .next t => tasks[t]?.all fun k => (nextCall k.rest).all (allowed db)

theorem answering_of_allowedMove {allowed : KycDb → KycCall → Bool} {db : KycDb}
    {tasks : List KycTask} {m : Move KycRequest} (h : allowedMove allowed db tasks m = true) :
    Answering (fun db c => allowed db c = true) (Calls.begun db tasks)
      (m.label (kycServing (exactly session)) .answer tasks) := by
  cases m with
  | start req => trivial
  | next t =>
      intro k call hk hnext
      have hk : tasks[t]? = some k := hk
      rw [allowedMove, hk, Option.all_some, hnext, Option.all_some] at h
      exact h

theorem reachable_playKyc {allowed : KycDb → KycCall → Bool} {moves : List (Move KycRequest)}
    {state : KycDb × List KycTask} (h : playKyc session (allowedMove allowed) moves = some state) :
    ((kycSystem (exactly session)).restrict (Answering fun db c => allowed db c = true)).Reachable
      (Calls.begun state.1 state.2) := by
  have hanswers : ∀ provider input, exactly session provider input (session provider input) :=
    fun _ _ => rfl
  have hexec : ∀ (req : KycRequest) (c : KycCall) (db : KycDb),
      (kycServing (exactly session)).exec .answer req c db (db.answer session c).1
        (db.answer session c).2 := fun _ c db => db.answers_answer hanswers c
  refine Calls.reachable_play hexec (fun _ _ _ => answering_of_allowedMove) ?_ h
  exact .init ⟨rfl, fun _ => rfl⟩

end Schedules

end ThalosBackend.Kyc
