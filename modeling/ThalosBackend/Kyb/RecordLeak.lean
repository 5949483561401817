import ThalosBackend.Kyb.KybService
import ThalosBackend.Library.CallThreads
import ThalosBackend.Profiles.AdminRights

/-!
# Whose verification a session returns

Requests of any users for any organizations; their calls interleave, any query may fail, and users and
profiles change between them.

`createSession` compares the requester of a row it finds with the caller. When its insertion is refused,
because another request has inserted a row for the organization in the meantime, it reads that row and
returns it without the comparison. So it returns a row of the caller as long as no insertion meets a row
of another user.
-/

set_option autoImplicit false

namespace ThalosBackend.Kyb

open Js (Timestamp)
open Calls (Serving Task Until nextCall)
open Profiles (Directory ProfileDb)
open Threads (Config Label)
open Wallets (duplicateKey)

/-! ## Requests and their interleavings -/

/-- What is asked of the service. -/
inductive KybRequest where
  | createSession (now : Timestamp) (userId : String) (dto : CreateKybSessionDto)
  | getStatus (userId organizationId : String)
  | review (now : Timestamp) (userId organizationId : String) (dto : ReviewKybSessionDto)

/-- The operation behind a request. -/
def KybRequest.program (provider : String) : KybRequest → KybProgram KybResult
  | .createSession now userId dto => Kyb.createSession provider now userId dto
  | .getStatus userId organizationId => Kyb.getStatus userId organizationId
  | .review now userId organizationId dto => Kyb.review now userId organizationId dto

/-- The requests, on any rows. -/
def kybServing (directory : Directory) (provider : String) :
    Serving KybRequest HttpException KybCall KybCall.reply KybResult KybDb CallAct ProfileDb where
  init _ := True
  program := KybRequest.program provider
  exec act _ c db x db' := act.exec directory c db x db'
  env profile db db' := db' = { db with profile := profile }

abbrev KybTask := Task KybRequest HttpException KybCall KybCall.reply KybResult

abbrev KybConfig := Config KybDb ℕ KybTask

abbrev KybLabel := Label ℕ KybTask CallAct ProfileDb

/-- The step system of the requests. -/
def kybSystem (directory : Directory) (provider : String) : StepSystem KybConfig KybLabel :=
  (kybServing directory provider).threads.system ℕ

/-- An insertion that is answered meets no row of another user. -/
def InsertsOwn (c : KybConfig) : KybLabel → Prop
  | .act t .answer => ∀ k new, c.threads t = some k →
      nextCall k.rest = some (.insertVerification new) →
      ∀ v ∈ c.shared.verifications, v.organizationId = new.organizationId →
        v.requestedBy = new.requestedBy
  | _ => True

/-! ## Where a session is -/

/-- The organization has a row of the user. -/
def BelongsTo (db : KybDb) (organizationId userId : String) : Prop :=
  ∃ v ∈ db.verifications, v.organizationId = organizationId ∧ v.requestedBy = userId

/-- The places of a session before a query of the rows, and what is known there. -/
inductive Place (db : KybDb) (userId : String) : KybProgram KybResult → Prop where
  | begun (provider : String) (now : Timestamp) (dto : CreateKybSessionDto) :
      Place db userId (createSession provider now userId dto)
  | updating (organizationId : String) (updates : VerificationUpdates) :
      BelongsTo db organizationId userId → Place db userId (updateSession organizationId updates)
  | inserting (new : NewVerification) : new.requestedBy = userId → Place db userId (insertSession new)
  | reading (organizationId message : String) : BelongsTo db organizationId userId →
      Place db userId (readRaced organizationId message)

/-- The session goes on to one of the places, or ends with a row of its user. -/
abbrev Staged (db : KybDb) (userId : String) (p : KybProgram KybResult) : Prop :=
  Until (fun _ => True) (fun result : KybResult => result.verification.requestedBy = userId)
    (Place db userId) p

section Stages

variable {directory : Directory} {db db' : KybDb} {userId : String}

/-- The rows are still there, under their organizations and requesters. -/
abbrev Continues (db db' : KybDb) : Prop :=
  ∀ v ∈ db.verifications, ∃ w ∈ db'.verifications,
    w.organizationId = v.organizationId ∧ w.requestedBy = v.requestedBy

theorem BelongsTo.later {organizationId : String} (hlater : Continues db db')
    (h : BelongsTo db organizationId userId) : BelongsTo db' organizationId userId := by
  obtain ⟨v, hv, horganization, hrequester⟩ := h
  obtain ⟨w, hw, horganization', hrequester'⟩ := hlater v hv
  exact ⟨w, hw, horganization'.trans horganization, hrequester'.trans hrequester⟩

theorem Staged.later {p : KybProgram KybResult} (hlater : Continues db db')
    (h : Staged db userId p) : Staged db' userId p := by
  refine Until.mono h fun p hp => ?_
  cases hp with
  | begun provider now dto => exact .begun provider now dto
  | updating organizationId updates hbelongs =>
      exact .updating organizationId updates (hbelongs.later hlater)
  | inserting new hnew => exact .inserting new hnew
  | reading organizationId message hbelongs =>
      exact .reading organizationId message (hbelongs.later hlater)

/-- The only row of an organization is the user's. -/
theorem BelongsTo.eq {organizationId : String} {v : KybVerification}
    (h : BelongsTo db organizationId userId) (hrows : db.ofOrganization organizationId = [v]) :
    v.requestedBy = userId := by
  obtain ⟨w, hw, horganization, hrequester⟩ := h
  have hmem : w ∈ db.ofOrganization organizationId :=
    List.mem_filter.mpr ⟨hw, decide_eq_true horganization⟩
  rw [hrows] at hmem
  rw [← List.mem_singleton.mp hmem]
  exact hrequester

/-- The provider is asked before a place. -/
theorem session_staged {dto : CreateKybSessionDto}
    {f : VerificationSessionResult → KybProgram KybResult}
    (hf : ∀ session, Staged db userId (f session)) :
    Staged db userId (createVerificationSession dto >>= f) := by
  refine Calls.until_ask trivial fun x => ?_
  cases x with
  | error e => trivial
  | ok session => exact hf session

/-- What a session does with the row it has found. -/
theorem openSession_staged {provider : String} {now : Timestamp} {dto : CreateKybSessionDto}
    {existing : Option KybVerification} (hfound : ∀ v, existing = some v →
      v ∈ db.verifications ∧ v.organizationId = dto.organizationId) :
    Staged db userId (openSession provider now userId dto existing) := by
  cases existing with
  | none => exact session_staged fun session => Calls.until_call (.inserting _ rfl)
  | some v =>
      obtain ⟨hv, horganization⟩ := hfound v rfl
      rw [openSession]
      split
      · trivial
      · rename_i hrequester
        -- the row is the user's from here on, so it may be returned or rewritten
        have hrequester : v.requestedBy = userId := not_not.mp hrequester
        split
        · exact hrequester
        · split
          · exact hrequester
          · refine session_staged fun session => Calls.until_call (.updating _ _ ?_)
            exact ⟨v, hv, horganization, hrequester⟩

/-! ### The first call of each stage -/

/-- The first call leads to a stage. -/
abbrev Goes (directory : Directory) (act : CallAct) (userId : String) (db : KybDb)
    (p : KybProgram KybResult) : Prop :=
  Calls.FirstCall (act.exec directory) (fun _ rest db' => Staged db' userId rest) p db

variable {act : CallAct}

/-- `createSession` looks for the row of the organization. -/
theorem createSession_goes (provider : String) (now : Timestamp) (dto : CreateKybSessionDto) :
    Goes directory act userId db (createSession provider now userId dto) := by
  intro x db' hexec
  cases act with
  | answer =>
      obtain ⟨hx, rfl⟩ := hexec
      cases hdata : x with
      | error e => trivial
      | ok existing =>
          change Staged db' userId (openSession provider now userId dto existing)
          refine openSession_staged ?_
          rintro v rfl
          have hrows := KybDb.ofOrganization_eq (hx.symm.trans hdata)
          have hmem : v ∈ db'.ofOrganization dto.organizationId := hrows ▸ List.mem_singleton_self v
          exact ⟨(List.mem_filter.mp hmem).1, of_decide_eq_true (List.mem_filter.mp hmem).2⟩
  | fail =>
      obtain ⟨⟨e, rfl⟩, -⟩ := hexec
      trivial

/-- An update rewrites the user's row. -/
theorem updateSession_goes {organizationId : String} (updates : VerificationUpdates)
    (hbelongs : BelongsTo db organizationId userId) :
    Goes directory act userId db (updateSession organizationId updates) := by
  refine Calls.firstCall_ask fun x db' hexec => ?_
  cases act with
  | answer =>
      rcases updateVerification_cases directory hexec with ⟨v, hrows, rfl, -⟩ | ⟨rfl, -⟩
      · have hrequester : v.requestedBy = userId := hbelongs.eq hrows
        exact hrequester
      · trivial
  | fail =>
      obtain ⟨⟨e, rfl⟩, -⟩ := hexec
      trivial

/-- An insertion that meets no row of another user is refused because of the user's own. -/
theorem insertSession_goes {new : NewVerification} (hnew : new.requestedBy = userId)
    (hown : act = .answer → ∀ v ∈ db.verifications, v.organizationId = new.organizationId →
      v.requestedBy = new.requestedBy) : Goes directory act userId db (insertSession new) := by
  refine Calls.firstCall_ask fun x db' hexec => ?_
  cases act with
  | answer =>
      simp only [CallAct.exec, Answers] at hexec
      cases hrefusal : db.refusal new with
      | some e =>
          -- only a row of the same organization is refused with this code
          rw [hrefusal] at hexec
          obtain ⟨rfl, rfl⟩ := hexec
          dsimp only
          split
          · rename_i hcode
            obtain ⟨v, hv, horganization⟩ := KybDb.refusal_eq_duplicate hrefusal hcode
            have hrequester := hown rfl v hv horganization
            exact Calls.until_call (.reading _ _ ⟨v, hv, horganization, hrequester.trans hnew⟩)
          · trivial
      | none =>
          rw [hrefusal] at hexec
          obtain ⟨id, created, -, rfl, rfl⟩ := hexec
          exact hnew
  | fail =>
      -- a lost query does not report a violated constraint, so nothing is read again
      obtain ⟨⟨e, hcode, rfl⟩, -⟩ := hexec
      have hcode : ¬ e.code = "23505" := hcode
      dsimp only
      rw [if_neg hcode]
      trivial

/-- The row that is read again is the user's. -/
theorem readRaced_goes {organizationId : String} (message : String)
    (hbelongs : BelongsTo db organizationId userId) :
    Goes directory act userId db (readRaced organizationId message) := by
  intro x db' hexec
  cases act with
  | answer =>
      obtain ⟨hx, rfl⟩ := hexec
      rcases hdata : x with e | _ | raced
      · trivial
      · trivial
      · exact hbelongs.eq (KybDb.ofOrganization_eq (hx.symm.trans hdata))
  | fail =>
      obtain ⟨⟨e, rfl⟩, -⟩ := hexec
      trivial

/-- **What a call does.** A session at one of its stages is at a stage again; an insertion must not
meet a row of another user. -/
theorem Staged.next {c : KybCall} {next : c.reply → KybProgram KybResult} {x : c.reply}
    (hstaged : Staged db userId (.call c next))
    (hown : act = .answer → ∀ new, c = .insertVerification new → ∀ v ∈ db.verifications,
      v.organizationId = new.organizationId → v.requestedBy = new.requestedBy)
    (hexec : act.exec directory c db x db') : Staged db' userId (next x) := by
  rcases hstaged with hplace | ⟨-, hnext⟩
  · suffices hgoes : Goes directory act userId db (.call c next) from hgoes x db' hexec
    generalize hp : Calls.call c next = p at hplace
    cases hplace with
    | begun provider now dto => exact createSession_goes provider now dto
    | updating organizationId updates hbelongs => exact updateSession_goes updates hbelongs
    | inserting new hnew =>
        cases hp
        exact insertSession_goes hnew fun hact => hown hact new rfl
    | reading organizationId message hbelongs => exact readRaced_goes message hbelongs
  · exact Staged.later hexec.rows.continues (hnext x)

end Stages

/-! ## Runs -/

section Runs

variable {directory : Directory} {provider : String} {c c' : KybConfig}

/-- Every session is at one of its stages. -/
def SessionsStaged (c : KybConfig) : Prop :=
  ∀ t now userId dto rest, c.threads t = some ⟨.createSession now userId dto, rest⟩ →
    Staged c.shared userId rest

/-- **Step lemma.** A request begins, makes a call, or a profile changes. -/
theorem SessionsStaged.step {l : KybLabel} (h : SessionsStaged c) (hown : InsertsOwn c l)
    (hstep : (kybSystem directory provider).step c l c') : SessionsStaged c' := by
  cases Calls.step_cases hstep with
  | start t req hfree =>
      intro t' now userId dto rest hk'
      rcases Threads.update_eq_some hk' with ⟨-, hself⟩ | ⟨-, hother⟩
      · cases hself
        exact Calls.until_call (.begun provider now dto)
      · exact h t' now userId dto rest hother
  | act t act req call next x s hk hexec =>
      intro t' now userId dto rest hk'
      rcases Threads.update_eq_some hk' with ⟨-, hself⟩ | ⟨-, hother⟩
      -- the session that calls goes to its next place; the rows of the others' places remain
      · cases hself
        refine (h t now userId dto _ hk).next ?_ hexec
        rintro rfl new rfl
        exact hown _ new hk rfl
      · exact Staged.later (CallAct.exec.rows hexec).continues (h t' now userId dto rest hother)
  | env profile s henv =>
      -- a profile changes, and the rows are the same
      obtain rfl := henv
      intro t now userId dto rest hk
      have hlater : Continues c.shared { c.shared with profile } := fun v hv => ⟨v, hv, rfl, rfl⟩
      exact Staged.later hlater (h t now userId dto rest hk)

theorem sessionsStaged_of_reachable
    (h : ((kybSystem directory provider).restrict InsertsOwn).Reachable c) : SessionsStaged c := by
  apply StepSystem.invariant_of_steps (M := (kybSystem directory provider).restrict InsertsOwn)
    (I := SessionsStaged) _ _ h
  · rintro c ⟨-, hnone⟩ t now userId dto rest hk
    rw [hnone t] at hk
    cases hk
  · intro c l c' _ hI hs
    exact hI.step hs.1 hs.2

/-- **No leak of a verification.** In every run in which no insertion meets a row of another user, a
session that returns a row returns one that its user has requested. -/
theorem no_record_leak (h : ((kybSystem directory provider).restrict InsertsOwn).Reachable c)
    {t : ℕ} {now : Timestamp} {userId : String} {dto : CreateKybSessionDto} {result : KybResult}
    (hk : c.threads t = some ⟨.createSession now userId dto, .done result⟩) :
    result.verification.requestedBy = userId :=
  sessionsStaged_of_reachable h t now userId dto _ hk

end Runs

/-! ## Two sessions for one organization -/

section TwoSessions

open Calls (Move)

/-- The two users, and no verification. -/
def emptyStore : KybDb where
  profile := { wallet := Agreements.newStore.wallet, profiles := [] }
  verifications := []
  events := []

/-- A session of the user for the organization `o`. -/
def sessionFor (userId : String) : KybRequest :=
  .createSession 0 userId ⟨"o", "Acme Inc.", "12345", "US", .company⟩

/-- The requests of a schedule. -/
def playSessions (check : KybDb → List KybTask → Move KybRequest → Bool)
    (moves : List (Move KybRequest)) : Option (KybDb × List KybTask) :=
  (kybServing Profiles.plainDirectory "manual").play
    (fun _ c db => db.answer Profiles.plainDirectory c) check moves (emptyStore, [])

theorem reachable_playSessions {guard : KybConfig → KybLabel → Prop}
    {check : KybDb → List KybTask → Move KybRequest → Bool} {moves : List (Move KybRequest)}
    {state : KybDb × List KybTask}
    (hcheck : ∀ s tasks m, check s tasks m = true → guard (Calls.begun s tasks)
      (m.label (kybServing Profiles.plainDirectory "manual") .answer tasks))
    (h : playSessions check moves = some state) :
    ((kybSystem Profiles.plainDirectory "manual").restrict guard).Reachable
      (Calls.begun state.1 state.2) :=
  Calls.reachable_play (fun _ c db => db.answers_answer Profiles.plainDirectory c) hcheck
    (.init ⟨trivial, fun _ => rfl⟩) h

/-- The call is no insertion that meets a row of another user. -/
def meetsOwn (db : KybDb) : KybCall → Bool
  | .insertVerification new => db.verifications.all fun v =>
      v.organizationId ≠ new.organizationId || v.requestedBy = new.requestedBy
  | _ => true

/-- The call of the move is none. -/
def ownMove (db : KybDb) (tasks : List KybTask) : Move KybRequest → Bool
  | .start _ => true
  | .next t => tasks[t]?.all fun k => (nextCall k.rest).all (meetsOwn db)

theorem insertsOwn_of_move {db : KybDb} {tasks : List KybTask} {m : Move KybRequest}
    (h : ownMove db tasks m = true) : InsertsOwn (Calls.begun db tasks)
      (m.label (kybServing Profiles.plainDirectory "manual") .answer tasks) := by
  cases m with
  | start req => trivial
  | next t =>
      intro k new hk hnext v hv horganization
      have hk : tasks[t]? = some k := hk
      rw [ownMove, hk, Option.all_some, hnext, Option.all_some] at h
      have hrow := List.all_eq_true.mp h v hv
      simpa [horganization] using hrow

/-- The request is a session of the user, and has ended with a row of this requester. -/
def returned (userId requestedBy : String) : KybTask → Bool
  | ⟨.createSession _ user _, .done result⟩ =>
    user = userId && result.verification.requestedBy = requestedBy
  | _ => false

theorem returned_cases {userId requestedBy : String} {k : KybTask}
    (h : returned userId requestedBy k = true) : ∃ now dto result,
      k = ⟨.createSession now userId dto, .done result⟩ ∧
        result.verification.requestedBy = requestedBy := by
  rcases k with ⟨⟨now, user, dto⟩ | ⟨user, o⟩ | ⟨now, user, o, dto⟩, result | e | ⟨c, next⟩⟩
  · obtain ⟨huser, hrequester⟩ := Bool.and_eq_true_iff.mp h
    obtain rfl : user = userId := of_decide_eq_true huser
    exact ⟨now, dto, result, rfl, of_decide_eq_true hrequester⟩
  all_goals cases h

/-- Both sessions of `payer` look before one inserts, and both return its row. -/
theorem no_record_leak_twice :
    ∃ c, ((kybSystem Profiles.plainDirectory "manual").restrict InsertsOwn).Reachable c ∧
      ∃ now dto result, c.threads 1 = some ⟨.createSession now "payer" dto, .done result⟩ ∧
        result.verification.requestedBy = "payer" := by
  have hrun : ((playSessions ownMove (.start (sessionFor "payer") :: .start (sessionFor "payer") ::
      (List.replicate 2 (.next 1) ++ List.replicate 4 (.next 0) ++ List.replicate 3 (.next 1)))).any
        fun state => state.2[1]?.any (returned "payer" "payer")) = true := by decide +kernel
  obtain ⟨state, hstate, hends⟩ := (Option.any_eq_true _ _).mp hrun
  obtain ⟨k, hk, hreturned⟩ := (Option.any_eq_true _ _).mp hends
  obtain ⟨now, dto, result, rfl, -⟩ := returned_cases hreturned
  have hreach := reachable_playSessions (fun _ _ _ => insertsOwn_of_move) hstate
  exact ⟨_, hreach, now, dto, result, hk, no_record_leak hreach hk⟩

/-- `payer` inserts between the query and the insertion of `payee`, who is given the row. -/
theorem not_no_record_leak :
    ¬ ∀ c, (kybSystem Profiles.plainDirectory "manual").Reachable c →
      ∀ t now userId dto result,
        c.threads t = some ⟨.createSession now userId dto, .done result⟩ →
          result.verification.requestedBy = userId := by
  intro hall
  have hrun : ((playSessions (fun _ _ _ => true)
      (.start (sessionFor "payer") :: .start (sessionFor "payee") ::
        (List.replicate 2 (.next 1) ++ List.replicate 4 (.next 0) ++ List.replicate 3 (.next 1)))).any
          fun state => state.2[1]?.any (returned "payee" "payer")) = true := by decide +kernel
  obtain ⟨state, hstate, hends⟩ := (Option.any_eq_true _ _).mp hrun
  obtain ⟨k, hk, hreturned⟩ := (Option.any_eq_true _ _).mp hends
  obtain ⟨now, dto, result, rfl, hrequester⟩ := returned_cases hreturned
  have hreach : ((kybSystem Profiles.plainDirectory "manual").restrict fun _ _ => True).Reachable
      (Calls.begun state.1 state.2) := reachable_playSessions (fun _ _ _ _ => trivial) hstate
  have hown := hall _ hreach.of_restrict 1 now "payee" dto result hk
  rw [hrequester] at hown
  exact absurd hown (by decide)

end TwoSessions

end ThalosBackend.Kyb
