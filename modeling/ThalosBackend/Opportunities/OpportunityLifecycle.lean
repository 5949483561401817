import ThalosBackend.Applications.ApplicationsService
import ThalosBackend.Profiles.AdminRights

/-!
# The lifecycle of an opportunity

Two services write the status of an opportunity. `OpportunitiesService.update` asks
`isAllowedStatusTransition` first. `ApplicationsService.updateStatus` fills the opportunity of an
accepted application without a look at its status.

The requests of both services run one after the other, any query may fail. Where no pending application
to a closed opportunity is accepted, a status moves from open to closed or from open to filled, and
stays there.
-/

set_option autoImplicit false

namespace ThalosBackend.Opportunities

open Calls (ask Ensures LeadsTo)
open Applications (ApplicationList ApplicationResult CreateApplicationDto Decision
  UpdateApplicationStatusDto)
open Profiles (Directory)
open Wallets (Reply)

/-! ## Runs -/

/-- What is asked of the two services. -/
inductive ConnectRequest where
  | create (userId : String) (dto : CreateOpportunityDto)
  | listMine (userId : String)
  | discover (query : DiscoverOpportunitiesQueryDto)
  | getById (userId id : String)
  | update (userId id : String) (dto : UpdateOpportunityDto)
  | remove (userId id : String)
  | apply (userId : String) (dto : CreateApplicationDto)
  | listApplicants (userId opportunityId : String)
  | updateStatus (userId applicationId : String) (dto : UpdateApplicationStatusDto)

/-- What a request is answered with. -/
inductive ConnectAnswer where
  | opportunity (result : OpportunityResult)
  | opportunities (result : OpportunityList)
  | page (result : OpportunityPage)
  | removed (result : RemoveResult)
  | application (result : ApplicationResult)
  | applications (result : ApplicationList)

/-- The operation behind a request. -/
def ConnectRequest.program : ConnectRequest → ConnectProgram ConnectAnswer
  | .create userId dto => do return .opportunity (← Opportunities.create userId dto)
  | .listMine userId => do return .opportunities (← Opportunities.listMine userId)
  | .discover query => do return .page (← Opportunities.discover query)
  | .getById userId id => do return .opportunity (← Opportunities.getById userId id)
  | .update userId id dto => do return .opportunity (← Opportunities.update userId id dto)
  | .remove userId id => do return .removed (← Opportunities.remove userId id)
  | .apply userId dto => do return .application (← Applications.apply userId dto)
  | .listApplicants userId opportunityId => do
    return .applications (← Applications.listApplicants userId opportunityId)
  | .updateStatus userId applicationId dto => do
    return .application (← Applications.updateStatus userId applicationId dto)

/-- The requests of any users, one after the other. The opportunities have their own ids at the
beginning; their statuses, and what else is stored, are open. -/
def connectSystem (directory : Directory) : StepSystem ConnectDb ConnectRequest where
  init db := Table.Unique Opportunity.id db.opportunities
  step db req db' := ∃ out, Calls.Runs (Executes directory) req.program db out db'

/-! ## The law, and when a request keeps it -/

namespace ConnectDb

/-- The opportunity under an id. -/
def opportunityAt (db : ConnectDb) (id : String) : Option Opportunity :=
  Table.sole (db.opportunities.filter fun o => o.id = id)

/-- The application under an id. -/
def applicationAt (db : ConnectDb) (id : String) : Option Application :=
  Table.sole (db.applications.filter fun a => a.id = id)

/-- The Project of a user. -/
def projectOf (db : ConnectDb) (userId : String) : Option String :=
  (db.profile.profileOf userId).bind fun p =>
    if p.id ≠ "" ∧ p.accountType = some .enterprise then some p.id else none

end ConnectDb

/-- The owner accepts a pending application to a closed opportunity. -/
def acceptsClosed (db : ConnectDb) : ConnectRequest → Bool
  | .updateStatus userId applicationId ⟨.accepted⟩ =>
    (db.applicationAt applicationId).any fun a => a.status = .pending &&
      (db.opportunityAt a.opportunityId).any fun o =>
        o.status = .closed && db.projectOf userId = some o.projectId
  | _ => false

/-- The request removes the opportunity. -/
def ConnectRequest.removes (id : String) : ConnectRequest → Bool
  | .remove _ id' => id' = id
  | _ => false

/-- A status stays, or moves from open to closed or to filled. -/
def Moves (source target : OpportunityStatus) : Prop :=
  target = source ∨ isAllowedStatusTransition source target = true

/-- The law of a system of requests, from one of its states on. -/
structure Lifecycle (M : StepSystem ConnectDb ConnectRequest) (db : ConnectDb) : Prop where
  /-- What a request does to the status of an opportunity. -/
  moves : ∀ req db', M.step db req db' → ∀ o ∈ db.opportunities, ∀ o' ∈ db'.opportunities,
    o'.id = o.id → Moves o.status o'.status
  /-- A closed or filled opportunity stays so until it is removed. -/
  final : ∀ o ∈ db.opportunities, o.status ≠ .opened → ∀ db',
    (M.restrict fun _ req => req.removes o.id = false).Leads db db' →
      ∃ o' ∈ db'.opportunities, o'.id = o.id ∧ o'.status = o.status

/-! ## What a request does to the opportunities -/

/-- The opportunities after a request: as they were, with a new one, with one rewritten, filled or
removed. -/
inductive OpportunitiesStep (db : ConnectDb) (req : ConnectRequest) : List Opportunity → Prop where
  | same : OpportunitiesStep db req db.opportunities
  | created (new : NewOpportunity) (id : String) (created : Js.Timestamp) :
      (∀ o ∈ db.opportunities, o.id ≠ id) →
      OpportunitiesStep db req (db.opportunities ++ [new.row id created])
  | updated (id : String) (patch : OpportunityPatch) :
      (∀ o, db.opportunityAt id = some o → Moves o.status (patch.status.getD o.status)) →
      OpportunitiesStep db req (db.updateOpportunities id patch).opportunities
  | removed (id : String) : req.removes id = true →
      OpportunitiesStep db req (db.opportunities.filter fun o => o.id ≠ id)

section Steps

variable {directory : Directory} {db db' : ConnectDb} {userId : String} {req : ConnectRequest}

/-- Every run of the program leaves the opportunities as the request may leave them. -/
abbrev Steps {α : Type} (directory : Directory) (req : ConnectRequest) (p : ConnectProgram α)
    (db : ConnectDb) : Prop :=
  LeadsTo (Executes directory) (fun db' => OpportunitiesStep db req db'.opportunities) p db

/-- The user's wallet, if the query is answered. -/
theorem walletForUserId_ends : Ensures (Executes directory) (walletForUserId userId) db
    fun out db' => db' = db ∧ ∃ wallet, out = .ok wallet ∧
      ∀ w, wallet = some w → Js.nonEmpty (db.profile.wallet.publicKey userId) = some w := by
  intro x db₁ hx
  rcases hx with ⟨profile, ⟨wallet, ⟨rfl, rfl⟩, rfl⟩, rfl⟩ | ⟨⟨e, rfl⟩, rfl⟩
  · exact ⟨rfl, _, rfl, fun w hw => hw⟩
  · exact ⟨rfl, _, rfl, fun w hw => by cases hw⟩

/-- The profile of the caller, if the queries are answered. -/
theorem resolveCallerProfile_ends : Ensures (Executes directory) (resolveCallerProfile userId) db
    fun out db' => db' = db ∧ ∀ profile, out = .ok profile → ∃ p, db.profile.profileOf userId = some p ∧
      p.id ≠ "" ∧ profile = ⟨p.id, p.accountType⟩ := by
  refine Calls.ensures_bind.mpr (walletForUserId_ends.mono ?_)
  rintro out db₁ ⟨rfl, wallet, rfl, hwallet⟩
  refine ⟨fun w hw => ?_, fun e he => by cases he⟩
  cases hw
  cases wallet with
  | none => exact ⟨rfl, fun profile h => by cases h⟩
  | some wallet =>
      refine Calls.ensures_ask fun y db₂ hy => ?_
      have hprofile : db₂ = db₁ ∧ ∀ p, Reply.data y = some p →
          Table.sole (db₁.profile.byWallet wallet) = some p := by
        rcases hy with ⟨profile, ⟨rfl, rfl⟩, rfl⟩ | ⟨⟨e, rfl⟩, rfl⟩
        · exact ⟨rfl, fun p hp => (Agreements.data_maybeSingle _).symm.trans hp⟩
        · exact ⟨rfl, fun p hp => by cases hp⟩
      obtain ⟨rfl, hprofile⟩ := hprofile
      cases hfound : Reply.data y with
      | none => exact ⟨rfl, fun profile h => by cases h⟩
      | some p =>
          dsimp only
          split
          · exact ⟨rfl, fun profile h => by cases h⟩
          · rename_i hid
            refine ⟨rfl, fun profile h => ⟨p, ?_, hid, ?_⟩⟩
            · rw [Profiles.ProfileDb.profileOf, hwallet wallet rfl, Option.bind_some]
              exact hprofile p hfound
            · exact (Except.ok.inj h).symm

/-- The Project of the caller, if it is one. -/
theorem requireProjectProfileId_ends :
    Ensures (Executes directory) (requireProjectProfileId userId) db fun out db' => db' = db ∧
      ∀ id, out = .ok id → db.projectOf userId = some id := by
  refine Calls.ensures_bind.mpr (resolveCallerProfile_ends.mono ?_)
  rintro out db₁ ⟨rfl, hprofile⟩
  refine ⟨fun profile hok => ?_, fun e _ => ⟨rfl, fun id h => by cases h⟩⟩
  obtain ⟨p, hp, hid, rfl⟩ := hprofile profile hok
  dsimp only
  split
  · exact ⟨rfl, fun id h => by cases h⟩
  · rename_i henterprise
    refine ⟨rfl, fun id h => ?_⟩
    cases h
    rw [ConnectDb.projectOf, hp, Option.bind_some, if_pos ⟨hid, not_not.mp henterprise⟩]

theorem load_ends {id : String} : Ensures (Executes directory) (load id) db fun out db' => db' = db ∧
    ∀ o, out = .ok o → db.opportunityAt id = some o := by
  refine Calls.ensures_ask fun x db₁ hx => ?_
  have hfound : db₁ = db ∧ ∀ found, x = .ok found → ∀ o, found = some o →
      db.opportunityAt id = some o := by
    rcases hx with ⟨rfl, rfl⟩ | ⟨⟨e, rfl⟩, rfl⟩
    · refine ⟨rfl, fun found hfound o ho => ?_⟩
      rw [ConnectDb.opportunityAt, ← Agreements.data_maybeSingle, hfound, ho]
      rfl
    · exact ⟨rfl, fun found hfound => by cases hfound⟩
  obtain ⟨rfl, hfound⟩ := hfound
  rcases x with e | _ | o
  · exact ⟨rfl, fun o h => by cases h⟩
  · exact ⟨rfl, fun o h => by cases h⟩
  · refine ⟨rfl, fun o' h => ?_⟩
    cases h
    exact hfound _ rfl o rfl

/-- The owner's opportunity. -/
theorem assertOwner_ends {id refusal : String} :
    Ensures (Executes directory) (assertOwner userId id refusal) db fun out db' => db' = db ∧
      ∀ o, out = .ok o → db.opportunityAt id = some o ∧ db.projectOf userId = some o.projectId := by
  refine Calls.ensures_bind.mpr (load_ends.mono ?_)
  rintro out db₁ ⟨rfl, hload⟩
  refine ⟨fun o ho => ?_, fun e _ => ⟨rfl, fun o h => by cases h⟩⟩
  refine Calls.ensures_bind.mpr (requireProjectProfileId_ends.mono ?_)
  rintro caller db₂ ⟨rfl, hcaller⟩
  refine ⟨fun projectId hid => ?_, fun e _ => ⟨rfl, fun o h => by cases h⟩⟩
  split
  · exact ⟨rfl, fun o h => by cases h⟩
  · rename_i howner
    refine ⟨rfl, fun o' h => ?_⟩
    cases h
    refine ⟨hload o ho, ?_⟩
    rw [not_not.mp howner]
    exact hcaller projectId hid

/-! ### The opportunities service -/

theorem create_steps {dto : CreateOpportunityDto} : Steps directory req (create userId dto) db := by
  refine ⟨Calls.ensures_bind.mpr (requireProjectProfileId_ends.mono ?_)⟩
  rintro out db₁ ⟨rfl, -⟩
  refine ⟨fun projectId _ => ?_, fun e _ => .same⟩
  split
  · exact .same
  · refine Calls.ensures_ask fun x db₂ hx => ?_
    have hstep : OpportunitiesStep db₁ req db₂.opportunities := by
      rcases hx with hx | ⟨-, rfl⟩
      · simp only [Answers] at hx
        split at hx
        · rw [hx.2]
          exact .same
        · split at hx
          · rw [hx.2]
            exact .same
          · obtain ⟨id, created, hfresh, -, rfl⟩ := hx
            exact .created _ id created hfresh
      · exact .same
    cases x with
    | error e => exact hstep
    | ok data => exact hstep

/-- An update makes a move of the row it has checked. -/
theorem update_steps {id : String} {dto : UpdateOpportunityDto} :
    Steps directory req (update userId id dto) db := by
  refine ⟨Calls.ensures_bind.mpr (assertOwner_ends.mono ?_)⟩
  rintro out db₁ ⟨rfl, howner⟩
  refine ⟨fun existing hexisting => ?_, fun e _ => .same⟩
  obtain ⟨hat, -⟩ := howner existing hexisting
  split
  · exact .same
  · rename_i hallowed
    rw [Bool.not_eq_true', Bool.not_eq_false] at hallowed
    split
    · exact .same
    · split
      · exact .same
      · have hmoves : ∀ o, db₁.opportunityAt id = some o →
            Moves o.status (dto.patch.status.getD o.status) := by
          intro o ho
          obtain rfl : existing = o := Option.some.inj (hat.symm.trans ho)
          rcases hstatus : dto.status with _ | _ | target
          · exact .inl (by rw [UpdateOpportunityDto.patch, hstatus]; rfl)
          · rw [UpdateOpportunityDto.allowsStatus, hstatus] at hallowed
            cases hallowed
          · rw [UpdateOpportunityDto.allowsStatus, hstatus] at hallowed
            exact .inr (by rw [UpdateOpportunityDto.patch, hstatus]; exact hallowed)
        refine Calls.ensures_ask fun x db₂ hx => ?_
        have hstep : OpportunitiesStep db₁ req db₂.opportunities := by
          rcases hx with hx | ⟨-, rfl⟩
          · simp only [Answers] at hx
            split at hx
            · rw [hx.2]
              exact .same
            · split at hx
              · rw [hx.2]
                exact .same
              · split at hx
                · rw [hx.2]
                  exact .updated id dto.patch hmoves
                · rw [hx.2]
                  exact .same
          · exact .same
        cases x with
        | error e => exact hstep
        | ok data => exact hstep

theorem remove_steps {id : String} : Steps directory (.remove userId id) (remove userId id) db := by
  refine ⟨Calls.ensures_bind.mpr (assertOwner_ends.mono ?_)⟩
  rintro out db₁ ⟨rfl, -⟩
  refine ⟨fun existing _ => ?_, fun e _ => .same⟩
  refine Calls.ensures_ask fun x db₂ hx => ?_
  have hstep : OpportunitiesStep db₁ (.remove userId id) db₂.opportunities := by
    rcases hx with ⟨-, rfl⟩ | ⟨-, rfl⟩
    · exact .removed id (decide_eq_true rfl)
    · exact .same
  cases x with
  | error e => exact hstep
  | ok _ => exact hstep

/-! ### Requests that leave the opportunities alone -/

/-- A program that leaves the opportunities alone. -/
abbrev KeepsOpportunities {α : Type} (p : ConnectProgram α) : Prop :=
  Calls.Only (fun c : ConnectCall => c.keepsOpportunities = true) p

theorem KeepsOpportunities.ensures {α : Type} {p : ConnectProgram α} (h : KeepsOpportunities p) :
    Ensures (Executes directory) p db fun _ db' => db'.opportunities = db.opportunities :=
  Calls.Only.ensures (I := fun db' : ConnectDb => db'.opportunities = db.opportunities) h
    (fun _ _ _ _ hc hI hx => (hx.opportunities_eq hc).trans hI) rfl fun _ _ hI => hI

theorem KeepsOpportunities.steps {α : Type} {p : ConnectProgram α} (h : KeepsOpportunities p) :
    Steps directory req p db := by
  refine ⟨h.ensures.mono fun out db' hsame => ?_⟩
  rw [hsame]
  exact .same

theorem ReadsOnly.keeps {α : Type} {p : ConnectProgram α} (h : ReadsOnly p) : KeepsOpportunities p :=
  h.mono fun _ hc => (ConnectCall.isRead_iff.mp hc).1

theorem apply_keeps (userId : String) (dto : CreateApplicationDto) :
    KeepsOpportunities (Applications.apply userId dto) := by
  apply (requireCallerProfileId_reads userId).keeps.bind
  intro profileId
  apply (load_reads dto.opportunityId).keeps.bind
  intro opportunity
  split
  · exact Calls.only_fail _
  · split
    · exact Calls.only_fail _
    · refine Calls.only_ask rfl fun inserted => ?_
      cases inserted with
      | error e =>
          dsimp only
          split
          · exact Calls.only_fail _
          · exact Calls.only_fail _
      | ok data => exact Calls.only_done _

/-! ### A decision about an application -/

theorem isAllowed_or_eq_filled {source : OpportunityStatus} (h : source ≠ .closed) :
    Moves source .filled := by
  cases source with
  | opened => exact .inr rfl
  | closed => exact absurd rfl h
  | filled => exact .inl rfl

/-- The writes of a decision: an acceptance fills the opportunity, which was not closed. -/
theorem decideApplication_steps {opportunityId applicationId : String} {decision : Decision}
    (hfill : decision = .accepted → ∀ o, db.opportunityAt opportunityId = some o →
      o.status ≠ .closed) :
    Steps directory req (Applications.decideApplication opportunityId applicationId decision) db := by
  refine ⟨Calls.ensures_ask fun x db₁ hx => ?_⟩
  have hsame : db₁.opportunities = db.opportunities := hx.opportunities_eq rfl
  have hkept : OpportunitiesStep db req db₁.opportunities := by
    rw [hsame]
    exact .same
  cases x with
  | error e => exact hkept
  | ok data =>
      cases decision with
      | rejected => exact hkept
      | accepted =>
          refine Calls.ensures_ask fun y db₂ hy => ?_
          have hstep : OpportunitiesStep db req db₂.opportunities := by
            rcases hy with ⟨-, rfl⟩ | ⟨-, rfl⟩
            · rw [ConnectDb.updateOpportunities, hsame]
              exact .updated opportunityId { status := some .filled } fun o ho =>
                isAllowed_or_eq_filled (hfill rfl o ho)
            · exact hkept
          cases y with
          | error e => exact hstep
          | ok _ =>
              refine Calls.ensures_ask fun z db₃ hz => ?_
              have hlast : db₃.opportunities = db₂.opportunities := hz.opportunities_eq rfl
              rw [← hlast] at hstep
              exact hstep

/-- A decision that is no acceptance for a closed opportunity. -/
theorem updateStatus_steps {applicationId : String} {dto : UpdateApplicationStatusDto}
    (hkeeps : acceptsClosed db (.updateStatus userId applicationId dto) = false) :
    Steps directory req (Applications.updateStatus userId applicationId dto) db := by
  refine ⟨Calls.ensures_ask fun x db₁ hx => ?_⟩
  have hfound : db₁ = db ∧ ∀ a, Reply.data x = some a → db.applicationAt applicationId = some a := by
    rcases hx with ⟨rfl, rfl⟩ | ⟨⟨e, rfl⟩, rfl⟩
    · exact ⟨rfl, fun a ha => (Agreements.data_maybeSingle _).symm.trans ha⟩
    · exact ⟨rfl, fun a ha => by cases ha⟩
  obtain ⟨rfl, hfound⟩ := hfound
  cases hexisting : Reply.data x with
  | none => exact .same
  | some existing =>
      have hat := hfound existing hexisting
      refine Calls.ensures_bind.mpr (assertOwner_ends.mono ?_)
      rintro out db₂ ⟨rfl, howner⟩
      refine ⟨fun o ho => ?_, fun e _ => .same⟩
      obtain ⟨hopportunity, hproject⟩ := howner o ho
      split
      · exact .same
      · rename_i hpending
        refine (decideApplication_steps ?_).ensures
        intro haccepted o' ho' hclosed
        obtain rfl : o = o' := Option.some.inj (hopportunity.symm.trans ho')
        obtain ⟨status⟩ := dto
        obtain rfl : status = .accepted := haccepted
        simp [acceptsClosed, hat, hopportunity, hproject, hclosed, not_not.mp hpending] at hkeeps

end Steps

/-! ## Runs -/

section Runs

variable {directory : Directory} {db db' : ConnectDb} {req : ConnectRequest}

/-- **Step lemma.** What a request leaves that accepts nothing for a closed opportunity. -/
theorem step_opportunities (hkeeps : acceptsClosed db req = false)
    (h : (connectSystem directory).step db req db') : OpportunitiesStep db req db'.opportunities := by
  obtain ⟨out, hrun⟩ := h
  suffices hsteps : Steps directory req req.program db from hsteps.of_runs hrun
  cases req with
  | create userId dto => exact create_steps.wrapped _
  | listMine userId => exact (listMine_reads userId).keeps.steps.wrapped _
  | discover query => exact (discover_reads query).keeps.steps.wrapped _
  | getById userId id => exact (getById_reads userId id).keeps.steps.wrapped _
  | update userId id dto => exact update_steps.wrapped _
  | remove userId id => exact remove_steps.wrapped _
  | apply userId dto => exact (apply_keeps userId dto).steps.wrapped _
  | listApplicants userId opportunityId =>
      exact (Applications.listApplicants_reads userId opportunityId).keeps.steps.wrapped _
  | updateStatus userId applicationId dto => exact (updateStatus_steps hkeeps).wrapped _

variable {rows : List Opportunity}

theorem OpportunitiesStep.unique (h : OpportunitiesStep db req rows)
    (hunique : Table.Unique Opportunity.id db.opportunities) : Table.Unique Opportunity.id rows := by
  cases h with
  | same => exact hunique
  | created new id created hfresh => exact hunique.concat hfresh
  | updated id patch hmoves => exact hunique.updateWhere fun _ _ => rfl
  | removed id hremoves => exact List.Nodup.sublist (List.filter_sublist.map _) hunique

/-- The only opportunity under its id. -/
theorem opportunityAt_of_mem (hunique : Table.Unique Opportunity.id db.opportunities)
    {o : Opportunity} (ho : o ∈ db.opportunities) : db.opportunityAt o.id = some o := by
  rw [ConnectDb.opportunityAt, hunique.filter_key ho]
  rfl

/-- Each opportunity that was there makes a move. -/
theorem OpportunitiesStep.moves (h : OpportunitiesStep db req rows)
    (hunique : Table.Unique Opportunity.id db.opportunities) :
    ∀ o ∈ db.opportunities, ∀ o' ∈ rows, o'.id = o.id → Moves o.status o'.status := by
  intro o ho o' ho' hid
  have hsame : o' ∈ db.opportunities → Moves o.status o'.status := by
    intro hmem
    rw [hunique.eq hmem ho hid]
    exact .inl rfl
  cases h with
  | same => exact hsame ho'
  | created new id created hfresh =>
      rcases List.mem_append.mp ho' with hold | hnew
      · exact hsame hold
      · rw [List.mem_singleton.mp hnew] at hid
        exact absurd hid.symm (hfresh o ho)
  | updated id patch hmoves =>
      obtain ⟨old, hold, rfl⟩ := Table.mem_updateWhere.mp ho'
      cases hmatch : decide (old.id = id) with
      | false =>
          rw [hmatch] at hid
          rw [hunique.eq hold ho hid]
          exact .inl rfl
      | true =>
          rw [hmatch] at hid
          -- the ids are different, so the rewritten row is the one that was checked
          obtain rfl : old = o := hunique.eq hold ho hid
          have hat := opportunityAt_of_mem hunique ho
          rw [of_decide_eq_true hmatch] at hat
          exact hmoves old hat
  | removed id hremoves => exact hsame (List.mem_filter.mp ho').1

/-- An opportunity that is not removed is still there. -/
theorem OpportunitiesStep.kept (h : OpportunitiesStep db req rows) {o : Opportunity}
    (ho : o ∈ db.opportunities) (hkept : req.removes o.id = false) : ∃ o' ∈ rows, o'.id = o.id := by
  cases h with
  | same => exact ⟨o, ho, rfl⟩
  | created new id created hfresh => exact ⟨o, List.mem_append_left _ ho, rfl⟩
  | updated id patch hmoves =>
      refine ⟨_, Table.mem_updateWhere.mpr ⟨o, ho, rfl⟩, ?_⟩
      split
      · rfl
      · rfl
  | removed id hremoves =>
      refine ⟨o, List.mem_filter.mpr ⟨ho, ?_⟩, rfl⟩
      -- it is another opportunity that the request removes
      rw [decide_eq_true_eq]
      rintro rfl
      rw [hkept] at hremoves
      cases hremoves

/-- Where nothing is accepted for a closed opportunity, the system keeps the law. -/
abbrev lawfulSystem (directory : Directory) : StepSystem ConnectDb ConnectRequest :=
  (connectSystem directory).restrict fun db req => acceptsClosed db req = false

theorem unique_of_reachable (h : (lawfulSystem directory).Reachable db) :
    Table.Unique Opportunity.id db.opportunities := by
  apply StepSystem.invariant_of_steps (M := lawfulSystem directory)
    (I := fun db : ConnectDb => Table.Unique Opportunity.id db.opportunities) _ _ h
  · intro db hinit
    exact hinit
  · intro db req db' _ hunique hstep
    exact (step_opportunities hstep.1 hstep.2).unique hunique

theorem Moves.eq_of_ne_opened {source target : OpportunityStatus} (h : Moves source target)
    (hsource : source ≠ .opened) : target = source := by
  rcases h with h | h
  · exact h
  · rw [isAllowedStatusTransition, Bool.and_eq_true] at h
    exact absurd (of_decide_eq_true h.1) hsource

/-- **Lifecycle of an opportunity.** In every run in which no pending application to a closed
opportunity is accepted, a status moves from open to closed or to filled, and is final there. -/
theorem opportunity_lifecycle (h : (lawfulSystem directory).Reachable db) :
    Lifecycle (lawfulSystem directory) db where
  moves req db' hstep := (step_opportunities hstep.1 hstep.2).moves (unique_of_reachable h)
  final o ho hfinal db' hrun := by
    have hkept : Table.Unique Opportunity.id db'.opportunities ∧
        ∃ o' ∈ db'.opportunities, o'.id = o.id ∧ o'.status = o.status := by
      apply hrun.keeps (I := fun db' : ConnectDb => Table.Unique Opportunity.id db'.opportunities ∧
        ∃ o' ∈ db'.opportunities, o'.id = o.id ∧ o'.status = o.status)
      · rintro db₁ req db₂ ⟨hunique, o₁, ho₁, hid, hstatus⟩ ⟨hkept, hkeeps, hstep⟩
        have hrows := step_opportunities hkeeps hstep
        rw [← hid] at hkept
        obtain ⟨o₂, ho₂, hid₂⟩ := hrows.kept ho₁ hkept
        have hmove := hrows.moves hunique o₁ ho₁ o₂ ho₂ hid₂
        refine ⟨hrows.unique hunique, o₂, ho₂, hid₂.trans hid, ?_⟩
        rw [hmove.eq_of_ne_opened (by rwa [hstatus]), hstatus]
      · exact ⟨unique_of_reachable h, o, ho, rfl, rfl⟩
    exact hkept.2

end Runs

/-! ## An acceptance in time, and one too late -/

/-- `payer` is the Project `p`, whose opportunity `o` has this status and one pending application,
of `payee`. -/
def projectStore (status : OpportunityStatus) : ConnectDb where
  profile :=
    { wallet := Agreements.newStore.wallet
      profiles := [(Profiles.GetOrCreateProfileDto.mk "P" (some .enterprise)).row.row "p" 0] }
  opportunities := [{ (NewOpportunity.mk "p" "Reviewer" "Review a contract" [] 100 "USDC" .fixed).row
    "o" 0 with status }]
  applications := [(NewApplication.mk "o" "payee" "").row "a" 0]

/-- The request on the answering database. -/
def ConnectRequest.run (req : ConnectRequest) (db : ConnectDb) : ConnectDb :=
  (Calls.run (fun c db => db.answer Profiles.plainDirectory c) req.program db).2

theorem ConnectRequest.step_run (req : ConnectRequest) (db : ConnectDb) :
    (connectSystem Profiles.plainDirectory).step db req (req.run db) :=
  ⟨_, Calls.runs_run (fun c db => .inl (db.answers_answer Profiles.plainDirectory c)) _ db⟩

/-- `payer` accepts the application. -/
def acceptRequest : ConnectRequest := .updateStatus "payer" "a" ⟨.accepted⟩

theorem unique_projectStore (status : OpportunityStatus) :
    Table.Unique Opportunity.id (projectStore status).opportunities :=
  List.nodup_singleton _

theorem opportunity_lifecycle_accepted :
    Lifecycle (lawfulSystem Profiles.plainDirectory) (acceptRequest.run (projectStore .opened)) := by
  apply opportunity_lifecycle
  exact .step (.init (unique_projectStore .opened))
    ⟨by decide +kernel, acceptRequest.step_run (projectStore .opened)⟩

/-- An application to a closed opportunity is still pending, and accepting it fills the opportunity. -/
theorem not_opportunity_lifecycle :
    ¬ ∀ db, (connectSystem Profiles.plainDirectory).Reachable db →
      Lifecycle (connectSystem Profiles.plainDirectory) db := by
  intro h
  have hlaw := h _ (.init (unique_projectStore .closed))
  have hfilled : ∃ o' ∈ (acceptRequest.run (projectStore .closed)).opportunities,
      o'.id = "o" ∧ o'.status = .filled := by decide +kernel
  obtain ⟨o', ho', hid, hstatus⟩ := hfilled
  have hmoves := hlaw.moves acceptRequest _ (acceptRequest.step_run (projectStore .closed)) _
    List.mem_cons_self o' ho' hid
  rw [hstatus] at hmoves
  rcases hmoves with hsame | hallowed
  · cases hsame
  · cases hallowed

end ThalosBackend.Opportunities
