import ThalosBackend.Library.CallThreads
import ThalosBackend.Opportunities.OpportunityLifecycle

/-!
# One accepted application

Requests to apply, and to accept or reject applications, of any users. Their queries interleave, any
query may fail, and profiles change between them.

An acceptance looks at its application once, and then makes three writes. So two acceptances can pass
each other, an application can come after the others were rejected, and a write that fails leaves the
writes before it. Where none of this happens, every opportunity has at most one accepted application
once all requests have ended, and then it is filled and has no pending one.
-/

set_option autoImplicit false

namespace ThalosBackend.Applications

open Calls (AllEnded Only Serving Task Until after ask nextCall)
open Opportunities
open Profiles (Directory ProfileDb)
open Threads (Config Label)
open Wallets (Reply)

/-! ## Requests and their interleavings -/

/-- What is asked of the service. -/
inductive ApplicationRequest where
  | apply (userId : String) (dto : CreateApplicationDto)
  | updateStatus (userId applicationId : String) (dto : UpdateApplicationStatusDto)

/-- The operation behind a request. -/
def ApplicationRequest.program : ApplicationRequest → ConnectProgram ApplicationResult
  | .apply userId dto => Applications.apply userId dto
  | .updateStatus userId applicationId dto => Applications.updateStatus userId applicationId dto

/-- A query is answered, or fails. -/
inductive QueryAct where
  | answer
  | fail
  deriving DecidableEq

def QueryAct.exec (directory : Directory) (act : QueryAct) (c : ConnectCall) (db : ConnectDb)
    (x : c.reply) (db' : ConnectDb) : Prop :=
  match act with
  | .answer => Answers directory c db x db'
  | .fail => Fails c db x db'

theorem QueryAct.executes {directory : Directory} {act : QueryAct} {c : ConnectCall}
    {db db' : ConnectDb} {x : c.reply} (h : act.exec directory c db x db') :
    Executes directory c db x db' := by
  cases act with
  | answer => exact .inl h
  | fail => exact .inr h

/-- The opportunity is filled. -/
def IsFilled (db : ConnectDb) (opportunityId : String) : Prop :=
  ∃ o ∈ db.opportunities, o.id = opportunityId ∧ o.status = .filled

/-- No application to the opportunity is pending. -/
def NonePending (db : ConnectDb) (opportunityId : String) : Prop :=
  ∀ a ∈ db.applications, a.opportunityId = opportunityId → a.status ≠ .pending

/-- Each opportunity with an accepted application has one such, is filled, and has no pending one. -/
structure AcceptedOnce (db : ConnectDb) : Prop where
  once : ∀ a ∈ db.applications, ∀ b ∈ db.applications, a.status = .accepted → b.status = .accepted →
    b.opportunityId = a.opportunityId → b = a
  filled : ∀ a ∈ db.applications, a.status = .accepted → IsFilled db a.opportunityId
  settled : ∀ a ∈ db.applications, a.status = .accepted → NonePending db a.opportunityId

/-- The applications have their own ids, and opportunities. -/
structure Constrained (db : ConnectDb) : Prop where
  ids : Table.Unique Application.id db.applications
  opportunities : ∀ a ∈ db.applications, ∃ o ∈ db.opportunities, o.id = a.opportunityId

/-- The requests. The applications at the beginning are any that are settled. -/
def applicationServing (directory : Directory) :
    Serving ApplicationRequest HttpException ConnectCall ConnectCall.reply ApplicationResult ConnectDb
      QueryAct ProfileDb where
  init db := Constrained db ∧ AcceptedOnce db
  program := ApplicationRequest.program
  exec act _ c db x db' := act.exec directory c db x db'
  env profile db db' := db' = { db with profile := profile }

abbrev ApplicationTask :=
  Task ApplicationRequest HttpException ConnectCall ConnectCall.reply ApplicationResult

abbrev ApplicationConfig := Config ConnectDb ℕ ApplicationTask

abbrev ApplicationLabel := Label ℕ ApplicationTask QueryAct ProfileDb

/-- The step system of the requests. -/
def applicationSystem (directory : Directory) : StepSystem ApplicationConfig ApplicationLabel :=
  (applicationServing directory).threads.system ℕ

/-! ## The condition -/

/-- The query is one of an acceptance for the opportunity after its first. -/
def completes (opportunityId : String) : ConnectCall → Bool
  | .fillOpportunity id => id = opportunityId
  | .rejectOthers id _ => id = opportunityId
  | _ => false

/-- A request is about to make such a query. -/
def Ahead (c : ApplicationConfig) (P : ConnectCall → Prop) : Prop :=
  ∃ t k, c.threads t = some k ∧ ∃ call, nextCall k.rest = some call ∧ P call

/-- An acceptance for the opportunity has its last write ahead. -/
def UnderWay (c : ApplicationConfig) (opportunityId : String) : Prop :=
  Ahead c fun call => completes opportunityId call = true

/-- No application to the opportunity is accepted, but for one perhaps. -/
def NoneAcceptedBut (db : ConnectDb) (opportunityId applicationId : String) : Prop :=
  ∀ b ∈ db.applications, b.opportunityId = opportunityId → b.status = .accepted → b.id = applicationId

/-- A query is harmless: an acceptance is written when no other application to the opportunity is
accepted, its further writes fail only when nothing is left for them to do, and an application comes
in before the last of them. -/
def Harmless (c : ApplicationConfig) (act : QueryAct) : ConnectCall → Prop
  | .setApplicationStatus id .accepted => ∀ a ∈ c.shared.applications, a.id = id →
      NoneAcceptedBut c.shared a.opportunityId id
  | .fillOpportunity o => act = .fail → IsFilled c.shared o ∧ NonePending c.shared o
  | .rejectOthers o _ => act = .fail → NonePending c.shared o
  | .insertApplication new => UnderWay c new.opportunityId ∨
      ∀ b ∈ c.shared.applications, b.opportunityId = new.opportunityId → b.status ≠ .accepted
  | _ => True

/-- The query of the step is harmless. -/
def HarmlessStep (c : ApplicationConfig) : ApplicationLabel → Prop
  | .act t act => ∀ k call, c.threads t = some k → nextCall k.rest = some call → Harmless c act call
  | _ => True

/-! ## Where a request is -/

/-- The application is one to the opportunity. -/
def BelongsTo (db : ConnectDb) (applicationId opportunityId : String) : Prop :=
  ∃ a ∈ db.applications, a.id = applicationId ∧ a.opportunityId = opportunityId

/-- The application is one to the opportunity, and decided. -/
def DecidedFor (db : ConnectDb) (applicationId opportunityId : String) : Prop :=
  ∃ a ∈ db.applications, a.id = applicationId ∧ a.opportunityId = opportunityId ∧ a.status ≠ .pending

/-- The places of a request before a query that matters, and what is known there. -/
inductive Place (db : ConnectDb) : ConnectProgram ApplicationResult → Prop where
  | begun (userId applicationId : String) (dto : UpdateApplicationStatusDto) :
      Place db (updateStatus userId applicationId dto)
  | applying (userId : String) (dto : CreateApplicationDto) : Place db (insertApplication userId dto)
  | deciding (opportunityId applicationId : String) (decision : Decision) :
      BelongsTo db applicationId opportunityId →
      Place db (decideApplication opportunityId applicationId decision)
  | filling (opportunityId applicationId : String) (data : Application) :
      DecidedFor db applicationId opportunityId →
      Place db (fillOpportunity opportunityId applicationId data)
  | rejecting (opportunityId applicationId : String) (data : Application) :
      DecidedFor db applicationId opportunityId →
      Place db (rejectOthers opportunityId applicationId data)

/-- The request only reads until it is at one of the places. -/
abbrev Staged (db : ConnectDb) (p : ConnectProgram ApplicationResult) : Prop :=
  Until (fun c : ConnectCall => c.isRead = true) (fun _ => True) (Place db) p

/-- The rows are still there, and those decided stay so. -/
def Later (a b : Application) : Prop :=
  b.id = a.id ∧ b.opportunityId = a.opportunityId ∧ (a.status ≠ .pending → b.status ≠ .pending)

section Stages

variable {directory : Directory} {db db' : ConnectDb}

/-- The row of an application in a later table. -/
abbrev Continues (db db' : ConnectDb) : Prop :=
  ∀ a ∈ db.applications, ∃ b ∈ db'.applications, Later a b

theorem continues_of_eq (h : db'.applications = db.applications) : Continues db db' :=
  fun a ha => ⟨a, h ▸ ha, rfl, rfl, id⟩

theorem BelongsTo.later {applicationId opportunityId : String} (hlater : Continues db db')
    (h : BelongsTo db applicationId opportunityId) : BelongsTo db' applicationId opportunityId := by
  obtain ⟨a, ha, hid, hopportunity⟩ := h
  obtain ⟨b, hb, hid', hopportunity', -⟩ := hlater a ha
  exact ⟨b, hb, hid'.trans hid, hopportunity'.trans hopportunity⟩

theorem DecidedFor.later {applicationId opportunityId : String} (hlater : Continues db db')
    (h : DecidedFor db applicationId opportunityId) : DecidedFor db' applicationId opportunityId := by
  obtain ⟨a, ha, hid, hopportunity, hstatus⟩ := h
  obtain ⟨b, hb, hid', hopportunity', hstatus'⟩ := hlater a ha
  exact ⟨b, hb, hid'.trans hid, hopportunity'.trans hopportunity, hstatus' hstatus⟩

theorem Staged.later {p : ConnectProgram ApplicationResult} (hlater : Continues db db')
    (h : Staged db p) : Staged db' p := by
  refine Until.mono h fun p hp => ?_
  cases hp with
  | begun userId applicationId dto => exact .begun userId applicationId dto
  | applying userId dto => exact .applying userId dto
  | deciding opportunityId applicationId decision hbelongs =>
      exact .deciding opportunityId applicationId decision (hbelongs.later hlater)
  | filling opportunityId applicationId data hdecided =>
      exact .filling opportunityId applicationId data (hdecided.later hlater)
  | rejecting opportunityId applicationId data hdecided =>
      exact .rejecting opportunityId applicationId data (hdecided.later hlater)

/-! ### The stages of the programs -/

theorem apply_staged (userId : String) (dto : CreateApplicationDto) :
    Staged db (Applications.apply userId dto) := by
  apply (requireCallerProfileId_reads userId).until_bind
  intro profileId
  apply (load_reads dto.opportunityId).until_bind
  intro opportunity
  split
  · trivial
  · split
    · trivial
    · exact Calls.until_call (.applying userId dto)

/-- A request begins at one of its stages. -/
theorem program_staged (req : ApplicationRequest) : Staged db req.program := by
  cases req with
  | apply userId dto => exact apply_staged userId dto
  | updateStatus userId applicationId dto =>
      exact Calls.until_call (.begun userId applicationId dto)

/-- What `updateStatus` does after it has found the application. -/
theorem checked_staged {existing : Application} (userId : String)
    (hexisting : existing ∈ db.applications) (decision : Decision) :
    Staged db (assertOpportunityOwner userId existing.opportunityId >>= fun _ =>
      if existing.status ≠ .pending then
        .fail (.conflict ("Application is already " ++ existing.status.text ++
          " and cannot be changed"))
      else decideApplication existing.opportunityId existing.id decision) := by
  apply (assertOwner_reads _ _ _).until_bind
  intro opportunity
  split
  · trivial
  · exact Calls.until_call (.deciding _ _ decision ⟨existing, hexisting, rfl, rfl⟩)

/-! ### What a query changes -/

/-- The applications after a decision about one. -/
abbrev decided (db : ConnectDb) (applicationId : String) (now : Js.Timestamp) (decision : Decision) :
    List Application :=
  Table.updateWhere (fun a => a.id = applicationId) (Application.setStatus now decision.status)
    db.applications

/-- What a request does to the tables with its next query, and where it is then. -/
inductive Change (db : ConnectDb) (c : ConnectCall) (rest : ConnectProgram ApplicationResult) :
    ConnectDb → Prop where
  /-- Nothing changes; the query is none that completes an acceptance. -/
  | same {db' : ConnectDb} : (∀ opportunityId, completes opportunityId c = false) →
      db'.applications = db.applications → db'.opportunities = db.opportunities → Change db c rest db'
  | inserted (new : NewApplication) (id : String) (created : Js.Timestamp) :
      c = .insertApplication new → (∀ a ∈ db.applications, a.id ≠ id) →
      (∃ o ∈ db.opportunities, o.id = new.opportunityId) →
      Change db c rest { db with applications := db.applications ++ [new.row id created] }
  | decided (opportunityId applicationId : String) (decision : Decision) (now : Js.Timestamp) :
      c = .setApplicationStatus applicationId decision.status →
      BelongsTo db applicationId opportunityId →
      (decision = .accepted → nextCall rest = some (.fillOpportunity opportunityId)) →
      Change db c rest { db with applications := decided db applicationId now decision }
  | filled (opportunityId applicationId : String) : c = .fillOpportunity opportunityId →
      nextCall rest = some (.rejectOthers opportunityId applicationId) →
      Change db c rest (db.updateOpportunities opportunityId { status := some .filled })
  /-- An acceptance is not completed; nothing is left to do for it. -/
  | failed (opportunityId : String) : completes opportunityId c = true →
      (c = .fillOpportunity opportunityId → IsFilled db opportunityId) →
      NonePending db opportunityId → Change db c rest db
  | settled (opportunityId applicationId : String) (now : Js.Timestamp) :
      c = .rejectOthers opportunityId applicationId → DecidedFor db applicationId opportunityId →
      Change db c rest
        (db.updateApplications (ConnectDb.isOther opportunityId applicationId) now .rejected)

/-- The rows after a decision. -/
theorem continues_decided {applicationId : String} {now : Js.Timestamp} {decision : Decision}
    {rows : List Application} (h : rows = decided db applicationId now decision) :
    Continues db { db with applications := rows } := by
  subst h
  intro a ha
  refine ⟨_, Table.mem_updateWhere.mpr ⟨a, ha, rfl⟩, ?_⟩
  split
  · refine ⟨rfl, rfl, fun _ => ?_⟩
    cases decision with
    | accepted => exact fun h => by cases h
    | rejected => exact fun h => by cases h
  · exact ⟨rfl, rfl, id⟩

/-- Every change leaves the rows there, and the decided ones decided. -/
theorem Change.continues {c : ConnectCall} {rest : ConnectProgram ApplicationResult}
    (h : Change db c rest db') : Continues db db' := by
  cases h with
  | same hcompletes happlications hopportunities => exact continues_of_eq happlications
  | inserted new id created hc hfresh hopportunity =>
      exact fun a ha => ⟨a, List.mem_append_left _ ha, rfl, rfl, fun h => h⟩
  | decided opportunityId applicationId decision now hc hbelongs hnext => exact continues_decided rfl
  | filled opportunityId applicationId hc hnext => exact continues_of_eq rfl
  | failed opportunityId hcompletes hfilled hsettled => exact continues_of_eq rfl
  | settled opportunityId applicationId now hc hdecided =>
      intro a ha
      refine ⟨_, Table.mem_updateWhere.mpr ⟨a, ha, rfl⟩, ?_⟩
      split
      · exact ⟨rfl, rfl, fun _ h => by cases h⟩
      · exact ⟨rfl, rfl, fun h => h⟩

/-! ### The first query of each stage -/

/-- The first query makes a change, and leads to a stage. -/
abbrev Goes (directory : Directory) (act : QueryAct) (db : ConnectDb)
    (p : ConnectProgram ApplicationResult) : Prop :=
  Calls.FirstCall (act.exec directory) (fun c rest db' => Change db c rest db' ∧ Staged db' rest) p db

variable {act : QueryAct}

/-- `updateStatus` looks for the application. -/
theorem updateStatus_goes (userId applicationId : String) (dto : UpdateApplicationStatusDto) :
    Goes directory act db (updateStatus userId applicationId dto) := by
  refine Calls.firstCall_ask fun x db' hexec => ?_
  have hexec := QueryAct.executes hexec
  have hsame := hexec.applications_eq rfl
  refine ⟨.same (fun _ => rfl) hsame (hexec.opportunities_eq rfl), ?_⟩
  have hfound : ∀ a, Reply.data x = some a → a ∈ db.applications ∧ a.id = applicationId := by
    intro a ha
    rcases hexec with ⟨rfl, rfl⟩ | ⟨⟨e, rfl⟩, rfl⟩
    · rw [Agreements.data_maybeSingle, Table.sole_eq_some] at ha
      have hmem : a ∈ db'.applications.filter fun a => a.id = applicationId :=
        ha ▸ List.mem_singleton_self a
      exact ⟨(List.mem_filter.mp hmem).1, of_decide_eq_true (List.mem_filter.mp hmem).2⟩
    · cases ha
  cases hexisting : Reply.data x with
  | none => trivial
  | some existing =>
      obtain ⟨hmem, rfl⟩ := hfound existing hexisting
      exact checked_staged userId (hsame ▸ hmem) dto.status

/-- A new application has an opportunity, and is pending. -/
theorem insertApplication_goes (userId : String) (dto : CreateApplicationDto) :
    Goes directory act db (insertApplication userId dto) := by
  refine Calls.firstCall_ask fun x db' hexec => ⟨?_, ?_⟩
  · rcases QueryAct.executes hexec with hx | ⟨-, rfl⟩
    · simp only [Answers] at hx
      cases hrefusal : db.refusal ⟨dto.opportunityId, userId, dto.message.getD ""⟩ with
      | some e =>
          rw [hrefusal] at hx
          obtain ⟨-, rfl⟩ := hx
          exact .same (fun _ => rfl) rfl rfl
      | none =>
          rw [hrefusal] at hx
          obtain ⟨id, created, hfresh, -, rfl⟩ := hx
          exact .inserted _ id created rfl hfresh (ConnectDb.opportunity_of_refusal hrefusal)
    · exact .same (fun _ => rfl) rfl rfl
  · cases x with
    | error e =>
        dsimp only
        split
        · trivial
        · trivial
    | ok data => trivial

/-- The application is decided. After an acceptance the opportunity is filled next. -/
theorem decideApplication_goes {opportunityId applicationId : String} (decision : Decision)
    (hids : Table.Unique Application.id db.applications)
    (hbelongs : BelongsTo db applicationId opportunityId) :
    Goes directory act db (decideApplication opportunityId applicationId decision) := by
  refine Calls.firstCall_ask fun x db' hexec => ?_
  have ⟨a, ha, hid, hopportunity⟩ := hbelongs
  have hsole : db.applications.filter (fun a => a.id = applicationId) = [a] := by
    have hfilter := hids.filter_key ha
    rwa [hid] at hfilter
  have hwritten : (∃ e, x = .error e ∧ db' = db) ∨ ∃ now data, x = .ok data ∧
      db' = { db with applications := decided db applicationId now decision } := by
    rcases QueryAct.executes hexec with hx | ⟨⟨e, rfl⟩, rfl⟩
    · simp only [Answers, hsole] at hx
      obtain ⟨now, rfl, rfl⟩ := hx
      exact .inr ⟨now, _, rfl, rfl⟩
    · exact .inl ⟨e, rfl, rfl⟩
  rcases hwritten with ⟨e, rfl, rfl⟩ | ⟨now, data, rfl, rfl⟩
  · exact ⟨.same (fun _ => rfl) rfl rfl, trivial⟩
  · refine ⟨.decided opportunityId applicationId decision now rfl hbelongs ?_, ?_⟩
    · rintro rfl
      rfl
    · cases decision with
      | rejected => trivial
      | accepted =>
          refine Calls.until_call (.filling opportunityId applicationId data ?_)
          refine ⟨a.setStatus now .accepted, ?_, hid, hopportunity, fun h => by cases h⟩
          refine Table.mem_updateWhere.mpr ⟨a, ha, ?_⟩
          rw [if_pos (decide_eq_true hid)]
          rfl

/-- The opportunity is filled. If that fails, it was filled and nothing is left to reject. -/
theorem fillOpportunity_goes {opportunityId applicationId : String} {data : Application}
    (hfails : act = .fail → IsFilled db opportunityId ∧ NonePending db opportunityId)
    (hdecided : DecidedFor db applicationId opportunityId) :
    Goes directory act db (fillOpportunity opportunityId applicationId data) := by
  refine Calls.firstCall_ask fun x db' hexec => ?_
  cases act with
  | answer =>
      obtain ⟨rfl, rfl⟩ := hexec
      exact ⟨.filled opportunityId applicationId rfl rfl,
        Calls.until_call (.rejecting opportunityId applicationId data
          (hdecided.later (continues_of_eq rfl)))⟩
  | fail =>
      obtain ⟨⟨e, rfl⟩, rfl⟩ := hexec
      obtain ⟨hfilled, hsettled⟩ := hfails rfl
      exact ⟨.failed opportunityId (decide_eq_true rfl) (fun _ => hfilled) hsettled, trivial⟩

/-- The other applications are rejected. If that fails, there was none. -/
theorem rejectOthers_goes {opportunityId applicationId : String} {data : Application}
    (hfails : act = .fail → NonePending db opportunityId)
    (hdecided : DecidedFor db applicationId opportunityId) :
    Goes directory act db (rejectOthers opportunityId applicationId data) := by
  refine Calls.firstCall_ask fun x db' hexec => ?_
  cases act with
  | answer =>
      obtain ⟨-, now, rfl⟩ := hexec
      exact ⟨.settled opportunityId applicationId now rfl hdecided, trivial⟩
  | fail =>
      obtain ⟨-, rfl⟩ := hexec
      refine ⟨.failed opportunityId (decide_eq_true rfl) (fun hcall => ?_) (hfails rfl), trivial⟩
      cases hcall

/-- **What a query does.** A request at one of its stages makes a change and is at a stage again; a
query that completes an acceptance fails only when nothing is left to do. -/
theorem Staged.change {c : ConnectCall} {next : c.reply → ConnectProgram ApplicationResult}
    {x : c.reply} (hstaged : Staged db (.call c next))
    (hids : Table.Unique Application.id db.applications)
    (hfails : act = .fail → ∀ opportunityId, completes opportunityId c = true →
      (c = .fillOpportunity opportunityId → IsFilled db opportunityId) ∧ NonePending db opportunityId)
    (hexec : act.exec directory c db x db') : Change db c (next x) db' ∧ Staged db' (next x) := by
  rcases hstaged with hplace | ⟨hread, hnext⟩
  · suffices hgoes : Goes directory act db (.call c next) from hgoes x db' hexec
    generalize hp : Calls.call c next = p at hplace
    cases hplace with
    | begun userId applicationId dto => exact updateStatus_goes userId applicationId dto
    | applying userId dto => exact insertApplication_goes userId dto
    | deciding opportunityId applicationId decision hbelongs =>
        exact decideApplication_goes decision hids hbelongs
    | filling opportunityId applicationId data hdecided =>
        cases hp
        refine fillOpportunity_goes (fun hact => ?_) hdecided
        exact (hfails hact opportunityId (decide_eq_true rfl)).imp_left fun hfilled => hfilled rfl
    | rejecting opportunityId applicationId data hdecided =>
        cases hp
        refine rejectOthers_goes (fun hact => ?_) hdecided
        exact (hfails hact opportunityId (decide_eq_true rfl)).2
  · obtain ⟨hopportunities, happlications⟩ := ConnectCall.isRead_iff.mp hread
    have hsame := (QueryAct.executes hexec).applications_eq happlications
    refine ⟨.same ?_ hsame ((QueryAct.executes hexec).opportunities_eq hopportunities), ?_⟩
    · intro opportunityId
      cases c with
      | fillOpportunity id => cases hopportunities
      | rejectOthers id applicationId => cases happlications
      | _ => rfl
    · exact Staged.later (continues_of_eq hsame) (hnext x)

end Stages

/-! ## The invariant -/

/-- What holds of the tables while requests run: an accepted application is alone, its opportunity is
filled or about to be, and no application to it is pending, or the acceptance is under way. -/
structure AcceptInv (c : ApplicationConfig) : Prop where
  constrained : Constrained c.shared
  staged : ∀ t k, c.threads t = some k → Staged c.shared k.rest
  once : ∀ a ∈ c.shared.applications, ∀ b ∈ c.shared.applications, a.status = .accepted →
    b.status = .accepted → b.opportunityId = a.opportunityId → b = a
  filled : ∀ a ∈ c.shared.applications, a.status = .accepted → IsFilled c.shared a.opportunityId ∨
    Ahead c fun call => call = .fillOpportunity a.opportunityId
  settled : ∀ a ∈ c.shared.applications, a.status = .accepted →
    NonePending c.shared a.opportunityId ∨ UnderWay c a.opportunityId

section Invariant

variable {directory : Directory} {c c' : ApplicationConfig} {P : ConnectCall → Prop} {t : ℕ}
  {req : ApplicationRequest} {call : ConnectCall}
  {next : call.reply → ConnectProgram ApplicationResult} {rest : ConnectProgram ApplicationResult}
  {s : ConnectDb}

/-- Other requests are as far as they were. -/
theorem Ahead.update (h : Ahead c P) (hk : c.threads t = some ⟨req, .call call next⟩)
    (hcall : ¬ P call) : Ahead ⟨s, Function.update c.threads t (some ⟨req, rest⟩)⟩ P := by
  obtain ⟨t', k, hk', call', hnext, hP⟩ := h
  have hne : t' ≠ t := by
    rintro rfl
    rw [hk] at hk'
    cases hk'
    cases hnext
    exact hcall hP
  exact ⟨t', k, by simpa [hne] using hk', call', hnext, hP⟩

/-- The request itself is about to make the query. -/
theorem ahead_self (hnext : nextCall rest = some call) (hP : P call) :
    Ahead ⟨s, Function.update c.threads t (some ⟨req, rest⟩)⟩ P :=
  ⟨t, ⟨req, rest⟩, by simp, call, hnext, hP⟩

theorem Ahead.start (h : Ahead c P) (hfree : c.threads t = none) (k : ApplicationTask) :
    Ahead ⟨s, Function.update c.threads t (some k)⟩ P := by
  obtain ⟨t', k', hk', hcall⟩ := h
  have hne : t' ≠ t := by
    rintro rfl
    rw [hfree] at hk'
    cases hk'
  exact ⟨t', k', by simpa [hne] using hk', hcall⟩

/-- A query that completes an acceptance for another opportunity, or for none. -/
theorem UnderWay.update {opportunityId : String} (h : UnderWay c opportunityId)
    (hk : c.threads t = some ⟨req, .call call next⟩) (hcall : completes opportunityId call = false) :
    UnderWay ⟨s, Function.update c.threads t (some ⟨req, rest⟩)⟩ opportunityId :=
  Ahead.update h hk (by rw [hcall]; exact Bool.false_ne_true)

/-- Where the requests of the next configuration are. -/
abbrev StagedAfter (c : ApplicationConfig) (t : ℕ) (req : ApplicationRequest)
    (rest : ConnectProgram ApplicationResult) (s : ConnectDb) : Prop :=
  ∀ t' k', (after c t req rest s).threads t' = some k' → Staged s k'.rest

/-- A new application is pending: an acceptance has to be under way, if there was one. -/
theorem AcceptInv.inserted (h : AcceptInv c) {new : NewApplication}
    {next : (ConnectCall.insertApplication new).reply → ConnectProgram ApplicationResult}
    (hk : c.threads t = some ⟨req, .call (.insertApplication new) next⟩)
    (hharmless : UnderWay c new.opportunityId ∨
      ∀ b ∈ c.shared.applications, b.opportunityId = new.opportunityId → b.status ≠ .accepted)
    {id : String} {created : Js.Timestamp} (hfresh : ∀ a ∈ c.shared.applications, a.id ≠ id)
    (hopportunity : ∃ o ∈ c.shared.opportunities, o.id = new.opportunityId)
    (hs : s = { c.shared with applications := c.shared.applications ++ [new.row id created] })
    (hstaged : StagedAfter c t req rest s) : AcceptInv (after c t req rest s) := by
  subst hs
  -- the new row is not accepted
  have hold : ∀ a ∈ c.shared.applications ++ [new.row id created], a.status = .accepted →
      a ∈ c.shared.applications := by
    intro a ha haccepted
    rcases List.mem_append.mp ha with hmem | hnew
    · exact hmem
    · rw [List.mem_singleton.mp hnew] at haccepted
      cases haccepted
  constructor
  case constrained =>
    refine ⟨h.constrained.ids.concat hfresh, ?_⟩
    intro a ha
    rcases List.mem_append.mp ha with hmem | hnew
    · exact h.constrained.opportunities a hmem
    · rw [List.mem_singleton.mp hnew]
      exact hopportunity
  case staged => exact hstaged
  case once =>
    intro a ha b hb haccepted hbaccepted
    exact h.once a (hold a ha haccepted) b (hold b hb hbaccepted) haccepted hbaccepted
  case filled =>
    intro a ha haccepted
    refine (h.filled a (hold a ha haccepted) haccepted).imp_right fun hahead => ?_
    exact hahead.update hk fun hcall => by cases hcall
  case settled =>
    intro a ha haccepted
    have hmem := hold a ha haccepted
    have hway : UnderWay c a.opportunityId → UnderWay (after c t req rest
        { c.shared with applications := c.shared.applications ++ [new.row id created] })
          a.opportunityId := fun hway => hway.update hk rfl
    rcases h.settled a hmem haccepted with hsettled | hunder
    · by_cases hsame : new.opportunityId = a.opportunityId
      · rcases hharmless with hunder | hnone
        -- the acceptance under way still has to reject, and will reach the new row
        · exact .inr (hway (hsame ▸ hunder))
        · exact absurd haccepted (hnone a hmem hsame.symm)
      · left
        intro b hb hopp
        rcases List.mem_append.mp hb with hmem' | hnew
        · exact hsettled b hmem' hopp
        · rw [List.mem_singleton.mp hnew] at hopp
          exact absurd hopp hsame
    · exact .inr (hway hunder)

/-- A decision: no other application is accepted when this one is. -/
theorem AcceptInv.decided (h : AcceptInv c) {applicationId opportunityId : String}
    {decision : Decision}
    {next : (ConnectCall.setApplicationStatus applicationId decision.status).reply →
      ConnectProgram ApplicationResult}
    (hk : c.threads t = some ⟨req, .call (.setApplicationStatus applicationId decision.status) next⟩)
    (hharmless : decision = .accepted → ∀ a ∈ c.shared.applications, a.id = applicationId →
      NoneAcceptedBut c.shared a.opportunityId applicationId)
    (hbelongs : BelongsTo c.shared applicationId opportunityId)
    (hnext : decision = .accepted → nextCall rest = some (.fillOpportunity opportunityId))
    {now : Js.Timestamp}
    (hs : s = { c.shared with
      applications := Applications.decided c.shared applicationId now decision })
    (hstaged : StagedAfter c t req rest s) : AcceptInv (after c t req rest s) := by
  subst hs
  obtain ⟨a₀, ha₀, rfl, rfl⟩ := hbelongs
  have hids := h.constrained.ids
  -- a row is the decided one, or as it was
  have hrow : ∀ a ∈ Applications.decided c.shared a₀.id now decision,
      a = a₀.setStatus now decision.status ∨ a ∈ c.shared.applications ∧ a.id ≠ a₀.id := by
    intro a ha
    obtain ⟨old, hold, rfl⟩ := Table.mem_updateWhere.mp ha
    by_cases hid : old.id = a₀.id
    · rw [if_pos (decide_eq_true hid), hids.eq hold ha₀ hid]
      exact .inl rfl
    · have hfalse : ¬ decide (old.id = a₀.id) = true := by simpa using hid
      rw [if_neg hfalse]
      exact .inr ⟨hold, hid⟩
  have haccept : ∀ a, a = a₀.setStatus now decision.status → a.status = .accepted →
      decision = .accepted := by
    rintro a rfl hstatus
    cases decision with
    | accepted => rfl
    | rejected => cases hstatus
  have hway : ∀ o, UnderWay c o → UnderWay (after c t req rest
      { c.shared with applications := Applications.decided c.shared a₀.id now decision }) o :=
    fun o hway => hway.update hk rfl
  constructor
  case constrained =>
    refine ⟨hids.updateWhere fun _ _ => rfl, ?_⟩
    intro a ha
    rcases hrow a ha with rfl | ⟨hmem, -⟩
    · exact h.constrained.opportunities a₀ ha₀
    · exact h.constrained.opportunities a hmem
  case staged => exact hstaged
  case once =>
    intro a ha b hb haccepted hbaccepted hopp
    rcases hrow a ha with hself | ⟨hmem, hne⟩
    · rcases hrow b hb with hself' | ⟨hmem', hne'⟩
      · rw [hself, hself']
      -- an acceptance is written only where no other application is accepted
      · have hnone := hharmless (haccept a hself haccepted) a₀ ha₀ rfl
        rw [hself] at hopp
        exact absurd (hnone b hmem' hopp hbaccepted) hne'
    · rcases hrow b hb with hself' | ⟨hmem', hne'⟩
      · have hnone := hharmless (haccept b hself' hbaccepted) a₀ ha₀ rfl
        rw [hself'] at hopp
        exact absurd (hnone a hmem hopp.symm haccepted) hne
      · exact h.once a hmem b hmem' haccepted hbaccepted hopp
  case filled =>
    intro a ha haccepted
    rcases hrow a ha with hself | ⟨hmem, -⟩
    · right
      refine ahead_self (hnext (haccept a hself haccepted)) ?_
      rw [hself]
      rfl
    · refine (h.filled a hmem haccepted).imp_right fun hahead => ?_
      exact hahead.update hk fun hcall => by cases hcall
  case settled =>
    intro a ha haccepted
    rcases hrow a ha with hself | ⟨hmem, -⟩
    · right
      refine ahead_self (hnext (haccept a hself haccepted)) ?_
      rw [hself]
      exact decide_eq_true rfl
    · refine (h.settled a hmem haccepted).imp (fun hsettled b hb hopp => ?_) (hway _)
      rcases hrow b hb with rfl | ⟨hmem', -⟩
      · cases decision with
        | accepted => exact fun hpending => by cases hpending
        | rejected => exact fun hpending => by cases hpending
      · exact hsettled b hmem' hopp

/-- The opportunity of an acceptance is filled. -/
theorem AcceptInv.filledNow (h : AcceptInv c) {opportunityId applicationId : String}
    {next : (ConnectCall.fillOpportunity opportunityId).reply → ConnectProgram ApplicationResult}
    (hk : c.threads t = some ⟨req, .call (.fillOpportunity opportunityId) next⟩)
    (hnext : nextCall rest = some (.rejectOthers opportunityId applicationId))
    (hs : s = c.shared.updateOpportunities opportunityId { status := some .filled })
    (hstaged : StagedAfter c t req rest s) : AcceptInv (after c t req rest s) := by
  subst hs
  have hkept : ∀ o ∈ c.shared.opportunities, ∃ o' ∈ (c.shared.updateOpportunities opportunityId
      { status := some .filled }).opportunities, o'.id = o.id ∧
        (o.status = .filled ∨ o.id = opportunityId → o'.status = .filled) := by
    intro o ho
    refine ⟨_, Table.mem_updateWhere.mpr ⟨o, ho, rfl⟩, ?_⟩
    by_cases hid : o.id = opportunityId
    · rw [if_pos (decide_eq_true hid)]
      exact ⟨rfl, fun _ => rfl⟩
    · have hfalse : ¬ decide (o.id = opportunityId) = true := by simpa using hid
      rw [if_neg hfalse]
      exact ⟨rfl, fun hfilled => hfilled.resolve_right hid⟩
  constructor
  case constrained =>
    refine ⟨h.constrained.ids, ?_⟩
    intro a ha
    obtain ⟨o, ho, hid⟩ := h.constrained.opportunities a ha
    obtain ⟨o', ho', hid', -⟩ := hkept o ho
    exact ⟨o', ho', hid'.trans hid⟩
  case staged => exact hstaged
  case once => exact h.once
  case filled =>
    intro a ha haccepted
    by_cases hopp : a.opportunityId = opportunityId
    · left
      obtain ⟨o, ho, hid⟩ := h.constrained.opportunities a ha
      obtain ⟨o', ho', hid', hfilled⟩ := hkept o ho
      exact ⟨o', ho', hid'.trans hid, hfilled (.inr (hid.trans hopp))⟩
    · refine (h.filled a ha haccepted).imp ?_ fun hahead => ?_
      · rintro ⟨o, ho, hid, hstatus⟩
        obtain ⟨o', ho', hid', hfilled⟩ := hkept o ho
        exact ⟨o', ho', hid'.trans hid, hfilled (.inl hstatus)⟩
      · exact hahead.update hk fun hcall => hopp (ConnectCall.fillOpportunity.inj hcall).symm
  case settled =>
    intro a ha haccepted
    by_cases hopp : a.opportunityId = opportunityId
    -- the rejection of the others is still to come
    · exact .inr (ahead_self hnext (decide_eq_true hopp.symm))
    · refine (h.settled a ha haccepted).imp_right fun hway => hway.update hk ?_
      exact decide_eq_false (Ne.symm hopp)

/-- The other applications are rejected. -/
theorem AcceptInv.settledNow (h : AcceptInv c) {opportunityId applicationId : String}
    {next : (ConnectCall.rejectOthers opportunityId applicationId).reply →
      ConnectProgram ApplicationResult}
    (hk : c.threads t = some ⟨req, .call (.rejectOthers opportunityId applicationId) next⟩)
    (hdecided : DecidedFor c.shared applicationId opportunityId) {now : Js.Timestamp}
    (hs : s = c.shared.updateApplications (ConnectDb.isOther opportunityId applicationId) now .rejected)
    (hstaged : StagedAfter c t req rest s) : AcceptInv (after c t req rest s) := by
  subst hs
  obtain ⟨a₀, ha₀, rfl, rfl, hnotPending⟩ := hdecided
  have hids := h.constrained.ids
  -- a row is a pending one that was rejected, or as it was
  have hrow : ∀ a ∈ (c.shared.updateApplications (ConnectDb.isOther a₀.opportunityId a₀.id) now
      .rejected).applications, a.status = .rejected ∧ (∃ old ∈ c.shared.applications,
        a.id = old.id ∧ a.opportunityId = old.opportunityId) ∨
        a ∈ c.shared.applications ∧ (a.opportunityId = a₀.opportunityId → a.status ≠ .pending) := by
    intro a ha
    obtain ⟨old, hold, rfl⟩ := Table.mem_updateWhere.mp ha
    cases hother : ConnectDb.isOther a₀.opportunityId a₀.id old with
    | true => exact .inl ⟨rfl, old, hold, rfl, rfl⟩
    | false =>
        refine .inr ⟨hold, fun hopp hpending => ?_⟩
        have hnot := of_decide_eq_false hother
        -- the accepted row is not pending, and any other pending row would have been rejected
        by_cases hid : old.id = a₀.id
        · have hold : old ∈ c.shared.applications := hold
          have hsame : old = a₀ := hids.eq hold ha₀ hid
          exact hnotPending (hsame ▸ hpending)
        · exact hnot ⟨hopp, hpending, hid⟩
  have hold : ∀ a ∈ (c.shared.updateApplications (ConnectDb.isOther a₀.opportunityId a₀.id) now
      .rejected).applications, a.status = .accepted → a ∈ c.shared.applications := by
    intro a ha haccepted
    rcases hrow a ha with ⟨hrejected, -⟩ | ⟨hmem, -⟩
    · rw [hrejected] at haccepted
      cases haccepted
    · exact hmem
  constructor
  case constrained =>
    refine ⟨hids.updateWhere fun _ _ => rfl, ?_⟩
    intro a ha
    rcases hrow a ha with ⟨-, old, hmem, -, hopp⟩ | ⟨hmem, -⟩
    · rw [hopp]
      exact h.constrained.opportunities old hmem
    · exact h.constrained.opportunities a hmem
  case staged => exact hstaged
  case once =>
    intro a ha b hb haccepted hbaccepted
    exact h.once a (hold a ha haccepted) b (hold b hb hbaccepted) haccepted hbaccepted
  case filled =>
    intro a ha haccepted
    refine (h.filled a (hold a ha haccepted) haccepted).imp_right fun hahead => ?_
    exact hahead.update hk fun hcall => by cases hcall
  case settled =>
    intro a ha haccepted
    have hmem := hold a ha haccepted
    by_cases hopp : a.opportunityId = a₀.opportunityId
    · left
      intro b hb hsame
      rcases hrow b hb with ⟨hrejected, -⟩ | ⟨-, hnot⟩
      · rw [hrejected]
        exact fun hpending => by cases hpending
      · exact hnot (hsame.trans hopp)
    · refine (h.settled a hmem haccepted).imp (fun hsettled b hb hsame => ?_) fun hway => ?_
      · rcases hrow b hb with ⟨hrejected, -⟩ | ⟨hmem', -⟩
        · rw [hrejected]
          exact fun hpending => by cases hpending
        · exact hsettled b hmem' hsame
      · exact hway.update hk (decide_eq_false (Ne.symm hopp))

/-- **Step lemma.** A harmless query keeps the invariant. -/
theorem AcceptInv.change (h : AcceptInv c) (hk : c.threads t = some ⟨req, .call call next⟩)
    {act : QueryAct} (hharmless : Harmless c act call) (hchange : Change c.shared call rest s)
    (hstaged : Staged s rest) : AcceptInv (after c t req rest s) := by
  have hstages : StagedAfter c t req rest s := by
    intro t' k' hk'
    rcases Threads.update_eq_some hk' with ⟨-, hself⟩ | ⟨-, hother⟩
    · cases hself
      exact hstaged
    · exact Staged.later hchange.continues (h.staged t' k' hother)
  cases hchange with
  | same hcompletes happlications hopportunities =>
      have hfill : ∀ o, ¬ call = .fillOpportunity o := by
        rintro o rfl
        have hnot := hcompletes o
        simp [completes] at hnot
      constructor
      case constrained =>
        refine ⟨?_, ?_⟩
        · rw [happlications]
          exact h.constrained.ids
        · rw [happlications, hopportunities]
          exact h.constrained.opportunities
      case staged => exact hstages
      case once =>
        rw [happlications]
        exact h.once
      case filled =>
        simp only [IsFilled, happlications, hopportunities]
        intro a ha haccepted
        exact (h.filled a ha haccepted).imp_right fun hahead => hahead.update hk (hfill _)
      case settled =>
        simp only [NonePending, happlications]
        intro a ha haccepted
        exact (h.settled a ha haccepted).imp_right fun hway => hway.update hk (hcompletes _)
  | inserted new id created hc hfresh hopportunity =>
      subst hc
      exact h.inserted hk hharmless hfresh hopportunity rfl hstages
  | decided opportunityId applicationId decision now hc hbelongs hnext =>
      subst hc
      refine h.decided hk ?_ hbelongs hnext rfl hstages
      rintro rfl
      exact hharmless
  | filled opportunityId applicationId hc hnext =>
      subst hc
      exact h.filledNow hk hnext rfl hstages
  | failed opportunityId hcompletes hfilled hsettled =>
      -- the acceptance ends here, but nothing was left for it to do
      constructor
      case constrained => exact h.constrained
      case staged => exact hstages
      case once => exact h.once
      case filled =>
        intro a ha haccepted
        by_cases hcall : call = .fillOpportunity a.opportunityId
        · left
          subst hcall
          obtain rfl : a.opportunityId = opportunityId := of_decide_eq_true hcompletes
          exact hfilled rfl
        · exact (h.filled a ha haccepted).imp_right fun hahead => hahead.update hk hcall
      case settled =>
        intro a ha haccepted
        by_cases hopp : a.opportunityId = opportunityId
        · exact .inl (hopp ▸ hsettled)
        · refine (h.settled a ha haccepted).imp_right fun hway => hway.update hk ?_
          cases call with
          | fillOpportunity id =>
              obtain rfl : id = opportunityId := of_decide_eq_true hcompletes
              exact decide_eq_false (Ne.symm hopp)
          | rejectOthers id applicationId =>
              obtain rfl : id = opportunityId := of_decide_eq_true hcompletes
              exact decide_eq_false (Ne.symm hopp)
          | _ => rfl
  | settled opportunityId applicationId now hc hdecided =>
      subst hc
      exact h.settledNow hk hdecided rfl hstages

/-- A harmless query that completes an acceptance fails only when nothing is left to do. -/
theorem Harmless.fails {act : QueryAct} (h : Harmless c act call) (hact : act = .fail)
    {opportunityId : String} (hcompletes : completes opportunityId call = true) :
    (call = .fillOpportunity opportunityId → IsFilled c.shared opportunityId) ∧
      NonePending c.shared opportunityId := by
  cases call with
  | fillOpportunity id =>
      obtain rfl : id = opportunityId := of_decide_eq_true hcompletes
      exact ⟨fun _ => (h hact).1, (h hact).2⟩
  | rejectOthers id applicationId =>
      obtain rfl : id = opportunityId := of_decide_eq_true hcompletes
      exact ⟨(by intro hcall; cases hcall), h hact⟩
  | _ => cases hcompletes

theorem AcceptInv.init (h : (applicationSystem directory).init c) : AcceptInv c := by
  obtain ⟨⟨hconstrained, honce⟩, hnone⟩ := h
  constructor
  case constrained => exact hconstrained
  case staged =>
    intro t k hk
    rw [hnone t] at hk
    cases hk
  case once => exact honce.once
  case filled =>
    exact fun a ha haccepted => .inl (honce.filled a ha haccepted)
  case settled =>
    exact fun a ha haccepted => .inl (honce.settled a ha haccepted)

/-- **Step lemma.** A request begins, makes a harmless query, or a profile changes. -/
theorem AcceptInv.step {l : ApplicationLabel} (h : AcceptInv c) (hharmless : HarmlessStep c l)
    (hstep : (applicationSystem directory).step c l c') : AcceptInv c' := by
  cases Calls.step_cases hstep with
  | start t req hfree =>
      constructor
      case constrained => exact h.constrained
      case staged =>
        intro t' k' hk'
        rcases Threads.update_eq_some hk' with ⟨-, hself⟩ | ⟨-, hother⟩
        · cases hself
          exact program_staged req
        · exact h.staged t' k' hother
      case once => exact h.once
      case filled =>
        intro a ha haccepted
        exact (h.filled a ha haccepted).imp_right fun hahead => hahead.start hfree _
      case settled =>
        intro a ha haccepted
        exact (h.settled a ha haccepted).imp_right fun hway => Ahead.start hway hfree _
  | act t act req call next x s hk hexec =>
      have hcall : Harmless c act call := hharmless _ call hk rfl
      obtain ⟨hchange, hstaged⟩ := (h.staged t _ hk).change h.constrained.ids
        (fun hact _ hcompletes => hcall.fails hact hcompletes) hexec
      exact h.change hk hcall hchange hstaged
  | env profile s henv =>
      -- the applications and the opportunities are as they were
      obtain rfl := henv
      have hlater : Continues c.shared { c.shared with profile } := continues_of_eq rfl
      exact ⟨⟨h.constrained.ids, h.constrained.opportunities⟩,
        fun t k hk => Staged.later hlater (h.staged t k hk), h.once, h.filled, h.settled⟩

theorem acceptInv_of_reachable
    (h : ((applicationSystem directory).restrict HarmlessStep).Reachable c) : AcceptInv c := by
  apply StepSystem.invariant_of_steps (M := (applicationSystem directory).restrict HarmlessStep)
    (I := AcceptInv) _ _ h
  · intro c hinit
    exact AcceptInv.init hinit
  · intro c l c' _ hI hs
    exact hI.step hs.1 hs.2

/-- Where all requests have ended, none has a query left. -/
theorem not_ahead_of_allEnded (h : AllEnded c) : ¬ Ahead c P := by
  rintro ⟨t, k, hk, call, hnext, -⟩
  rw [Calls.nextCall_eq_none (h t k hk)] at hnext
  cases hnext

/-- **One accepted application.** In every run in which all queries are harmless, once all requests
have ended an opportunity has at most one accepted application, and if it has one it is filled and no
application to it is pending. -/
theorem accepted_once (h : ((applicationSystem directory).restrict HarmlessStep).Reachable c)
    (hended : AllEnded c) : AcceptedOnce c.shared := by
  have hinv := acceptInv_of_reachable h
  constructor
  case once => exact hinv.once
  case filled =>
    intro a ha haccepted
    exact (hinv.filled a ha haccepted).resolve_right (not_ahead_of_allEnded hended)
  case settled =>
    intro a ha haccepted
    exact (hinv.settled a ha haccepted).resolve_right (not_ahead_of_allEnded hended)

end Invariant

/-! ## Two applications to one opportunity -/

section TwoApplications

open Calls (Move)

/-- `payer` and `payee`, and another builder. -/
def threeParties : String → Option String
  | "rival" => some "R"
  | userId => Agreements.twoParties userId

/-- `payer` is the Project of an open opportunity with two pending applications. -/
def rivalStore : ConnectDb :=
  { projectStore .opened with
    profile := { (projectStore .opened).profile with
      wallet := (Agreements.storeWith threeParties [] []).wallet }
    applications :=
      [(NewApplication.mk "o" "payee" "").row "a" 0, (NewApplication.mk "o" "rival" "").row "b" 0] }

theorem constrained_rivalStore : Constrained rivalStore := by
  refine ⟨show (rivalStore.applications.map Application.id).Nodup by decide +kernel, ?_⟩
  show ∀ a ∈ rivalStore.applications, ∃ o ∈ rivalStore.opportunities, o.id = a.opportunityId
  decide +kernel

theorem acceptedOnce_rivalStore : AcceptedOnce rivalStore := by
  have hnone : ∀ a ∈ rivalStore.applications, a.status ≠ .accepted := by decide +kernel
  refine ⟨?_, ?_, ?_⟩
  · exact fun a ha _ _ haccepted => absurd haccepted (hnone a ha)
  · exact fun a ha haccepted => absurd haccepted (hnone a ha)
  · exact fun a ha haccepted => absurd haccepted (hnone a ha)

/-- `payer` accepts this application. -/
def accepting (applicationId : String) : ApplicationRequest :=
  .updateStatus "payer" applicationId ⟨.accepted⟩

/-- A state of a schedule. -/
abbrev ApplicationState := ConnectDb × List ApplicationTask

/-- The requests of a schedule on the two applications. -/
def playRivals (check : ConnectDb → List ApplicationTask → Move ApplicationRequest → Bool)
    (moves : List (Move ApplicationRequest)) : Option ApplicationState :=
  (applicationServing Profiles.plainDirectory).play
    (fun _ c db => db.answer Profiles.plainDirectory c) check moves (rivalStore, [])

theorem reachable_playRivals {guard : ApplicationConfig → ApplicationLabel → Prop}
    {check : ConnectDb → List ApplicationTask → Move ApplicationRequest → Bool}
    {moves : List (Move ApplicationRequest)} {state : ApplicationState}
    (hcheck : ∀ s tasks m, check s tasks m = true → guard (Calls.begun s tasks)
      (m.label (applicationServing Profiles.plainDirectory) .answer tasks))
    (h : playRivals check moves = some state) :
    ((applicationSystem Profiles.plainDirectory).restrict guard).Reachable
      (Calls.begun state.1 state.2) := by
  refine Calls.reachable_play (fun _ c db => db.answers_answer Profiles.plainDirectory c) hcheck
    (.init ?_) h
  exact ⟨⟨constrained_rivalStore, acceptedOnce_rivalStore⟩, fun _ => rfl⟩

/-- Nothing comes in, and nothing is accepted beside another application. -/
def isHarmless (db : ConnectDb) : ConnectCall → Bool
  | .setApplicationStatus id .accepted => db.applications.all fun b => b.status ≠ .accepted || b.id = id
  | .insertApplication _ => false
  | _ => true

/-- The query of the move is of this kind. -/
def harmlessMove (db : ConnectDb) (tasks : List ApplicationTask) : Move ApplicationRequest → Bool
  | .start _ => true
  | .next t => tasks[t]?.all fun k => (nextCall k.rest).all (isHarmless db)

theorem harmless_of_isHarmless {c : ApplicationConfig} {call : ConnectCall}
    (h : isHarmless c.shared call = true) : Harmless c .answer call := by
  cases call with
  | setApplicationStatus id status =>
      cases status with
      | accepted =>
          intro a ha hid b hb hopportunity haccepted
          have hall := List.all_eq_true.mp h b hb
          simpa [haccepted] using hall
      | pending => trivial
      | rejected => trivial
  | insertApplication new => cases h
  | fillOpportunity id => exact fun hact => by cases hact
  | rejectOthers id applicationId => exact fun hact => by cases hact
  | _ => trivial

theorem harmlessStep_of_move {db : ConnectDb} {tasks : List ApplicationTask}
    {m : Move ApplicationRequest} (h : harmlessMove db tasks m = true) :
    HarmlessStep (Calls.begun db tasks)
      (m.label (applicationServing Profiles.plainDirectory) .answer tasks) := by
  cases m with
  | start req => trivial
  | next t =>
      intro k call hk hnext
      have hk : tasks[t]? = some k := hk
      rw [harmlessMove, hk, Option.all_some, hnext, Option.all_some] at h
      exact harmless_of_isHarmless h

/-- One of the applications is accepted, and the other is rejected. -/
theorem accepted_once_rivals :
    ∃ c, ((applicationSystem Profiles.plainDirectory).restrict HarmlessStep).Reachable c ∧
      AcceptedOnce c.shared ∧ c.shared.applications.map Application.status = [.accepted, .rejected] := by
  have hrun : ((playRivals harmlessMove
      (.start (accepting "a") :: .start (accepting "b") :: (List.replicate 8 (.next 0) ++
        List.replicate 8 (.next 1)))).any fun state => Calls.allEnded state.2 &&
          state.1.applications.map Application.status = [.accepted, .rejected]) = true := by
    decide +kernel
  obtain ⟨state, hstate, hends⟩ := (Option.any_eq_true _ _).mp hrun
  rw [Bool.and_eq_true] at hends
  have hreach := reachable_playRivals (fun _ _ _ => harmlessStep_of_move) hstate
  exact ⟨_, hreach, accepted_once hreach (Calls.allEnded_begun hends.1), of_decide_eq_true hends.2⟩

/-- Both requests find their application pending, and both applications are accepted. -/
theorem not_accepted_once :
    ¬ ∀ c, (applicationSystem Profiles.plainDirectory).Reachable c → AllEnded c →
      AcceptedOnce c.shared := by
  intro hall
  have hrun : ((playRivals (fun _ _ _ => true)
      (.start (accepting "a") :: .start (accepting "b") :: (List.replicate 4 (.next 0) ++
        List.replicate 8 (.next 1) ++ List.replicate 4 (.next 0)))).any fun state =>
          Calls.allEnded state.2 && state.1.applications.any fun a => state.1.applications.any fun b =>
            a.status = .accepted && b.status = .accepted && b.opportunityId = a.opportunityId &&
              b.id ≠ a.id) = true := by decide +kernel
  obtain ⟨state, hstate, hends⟩ := (Option.any_eq_true _ _).mp hrun
  obtain ⟨hended, hrows⟩ := Bool.and_eq_true_iff.mp hends
  obtain ⟨a, ha, hrows⟩ := List.any_eq_true.mp hrows
  obtain ⟨b, hb, hrows⟩ := List.any_eq_true.mp hrows
  simp only [Bool.and_eq_true, decide_eq_true_eq] at hrows
  obtain ⟨⟨⟨haccepted, hbaccepted⟩, hopportunity⟩, hne⟩ := hrows
  have hreach : ((applicationSystem Profiles.plainDirectory).restrict fun _ _ => True).Reachable
      (Calls.begun state.1 state.2) := reachable_playRivals (fun _ _ _ _ => trivial) hstate
  have honce := hall _ hreach.of_restrict (Calls.allEnded_begun hended)
  exact hne (congrArg Application.id (honce.once a ha b hb haccepted hbaccepted hopportunity))

end TwoApplications

end ThalosBackend.Applications
