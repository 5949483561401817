import ThalosBackend.Profiles.ProfilesService

/-!
# Opportunities and applications

The rows of `opportunities` and `applications` with the constraints of migrations 011 and 018, and the
queries that the two services make of them. An application belongs to an opportunity, which takes its
applications along when it is deleted, and a builder applies once to an opportunity.

No constraint looks at two rows of one opportunity, and none at an application and its opportunity
together: how many applications are accepted is for the services to see to.
-/

set_option autoImplicit false

namespace ThalosBackend.Opportunities

open Js (Number Timestamp)
open Profiles (Directory ProfileCall ProfileDb newestFirst)
open Wallets (DbError Reply maybeSingle noRows duplicateKey)

/-! ## Rows -/

inductive EngagementType where
  | fixed
  | milestone
  | hourly
  deriving DecidableEq

inductive OpportunityStatus where
  /-- `open`. -/
  | opened
  | closed
  | filled
  deriving DecidableEq

def OpportunityStatus.text : OpportunityStatus → String
  | .opened => "open"
  | .closed => "closed"
  | .filled => "filled"

/-- `isAllowedStatusTransition(from, to)`. -/
def isAllowedStatusTransition (source target : OpportunityStatus) : Bool :=
  source = .opened && (target = .closed || target = .filled)

/-- A row of `opportunities`. -/
structure Opportunity where
  id : String
  projectId : String
  title : String
  description : String
  skillsRequired : List String
  budgetAmount : Number
  budgetAsset : String
  engagementType : EngagementType
  status : OpportunityStatus
  createdAt : Timestamp
  deriving DecidableEq

/-- A row of `opportunities` as `create` inserts it, with the status `open`. -/
structure NewOpportunity where
  projectId : String
  title : String
  description : String
  skillsRequired : List String
  budgetAmount : Number
  budgetAsset : String
  engagementType : EngagementType
  deriving DecidableEq

/-- The inserted row, under the id and the time the database gives it. -/
def NewOpportunity.row (new : NewOpportunity) (id : String) (created : Timestamp) : Opportunity where
  id
  projectId := new.projectId
  title := new.title
  description := new.description
  skillsRequired := new.skillsRequired
  budgetAmount := new.budgetAmount
  budgetAsset := new.budgetAsset
  engagementType := new.engagementType
  status := .opened
  createdAt := created

/-- What `update` sets. A field that is not there is `none`, and `null` is `some none`. -/
structure OpportunityPatch where
  status : Option OpportunityStatus := none
  title : Option (Option String) := none
  description : Option (Option String) := none
  skillsRequired : Option (Option (List String)) := none
  budgetAmount : Option (Option Number) := none
  budgetAsset : Option (Option String) := none
  engagementType : Option (Option EngagementType) := none
  deriving DecidableEq

/-- A column is set to `null`. -/
def OpportunityPatch.hasNull (patch : OpportunityPatch) : Bool :=
  patch.title = some none || patch.description = some none || patch.skillsRequired = some none ||
    patch.budgetAmount = some none || patch.budgetAsset = some none ||
    patch.engagementType = some none

/-- The row after an update. -/
def Opportunity.apply (patch : OpportunityPatch) (o : Opportunity) : Opportunity :=
  { o with
    status := patch.status.getD o.status
    title := patch.title.join.getD o.title
    description := patch.description.join.getD o.description
    skillsRequired := patch.skillsRequired.join.getD o.skillsRequired
    budgetAmount := patch.budgetAmount.join.getD o.budgetAmount
    budgetAsset := patch.budgetAsset.join.getD o.budgetAsset
    engagementType := patch.engagementType.join.getD o.engagementType }

@[simp] theorem Opportunity.apply_id (patch : OpportunityPatch) (o : Opportunity) :
    (o.apply patch).id = o.id := rfl

@[simp] theorem Opportunity.apply_status (patch : OpportunityPatch) (o : Opportunity) :
    (o.apply patch).status = patch.status.getD o.status := rfl

inductive ApplicationStatus where
  | pending
  | accepted
  | rejected
  deriving DecidableEq

def ApplicationStatus.text : ApplicationStatus → String
  | .pending => "pending"
  | .accepted => "accepted"
  | .rejected => "rejected"

/-- A row of `applications`. -/
structure Application where
  id : String
  opportunityId : String
  builderId : String
  message : String
  status : ApplicationStatus
  createdAt : Timestamp
  updatedAt : Timestamp
  deriving DecidableEq

/-- A row of `applications` as `apply` inserts it. -/
structure NewApplication where
  opportunityId : String
  builderId : String
  message : String
  deriving DecidableEq

def NewApplication.row (new : NewApplication) (id : String) (created : Timestamp) : Application where
  id
  opportunityId := new.opportunityId
  builderId := new.builderId
  message := new.message
  status := .pending
  createdAt := created
  updatedAt := created

/-- The row after an update of the status, at the time of the trigger. -/
def Application.setStatus (now : Timestamp) (status : ApplicationStatus) (a : Application) :
    Application :=
  { a with status := status, updatedAt := now }

@[simp] theorem Application.setStatus_id (now : Timestamp) (status : ApplicationStatus)
    (a : Application) : (a.setStatus now status).id = a.id := rfl

@[simp] theorem Application.setStatus_opportunityId (now : Timestamp) (status : ApplicationStatus)
    (a : Application) : (a.setStatus now status).opportunityId = a.opportunityId := rfl

@[simp] theorem Application.setStatus_status (now : Timestamp) (status : ApplicationStatus)
    (a : Application) : (a.setStatus now status).status = status := rfl

/-! ## Constraints -/

def notNullViolation : DbError :=
  ⟨"23502", "null value in a column of relation \"opportunities\" violates not-null constraint"⟩

def budgetViolation : DbError :=
  ⟨"23514", "new row for relation \"opportunities\" violates check constraint \"opportunities_budget_amount_check\""⟩

def foreignKeyViolation (table : String) : DbError :=
  ⟨"23503", "insert or update on table \"" ++ table ++ "\" violates foreign key constraint"⟩

/-- `budget_amount > 0`. -/
def hasBudget (budgetAmount : Number) : Bool := Number.lt 0 budgetAmount

/-! ## Queries -/

/-- What `discover` asks for, after it has read its parameters. -/
structure OpportunityQuery where
  engagementType : Option EngagementType
  skillsRequired : List String
  budgetMin : Option Number
  budgetMax : Option Number
  /-- The text of the search over title and description. -/
  search : Option String
  first : ℕ
  limit : ℕ
  deriving DecidableEq

/-- The queries of the opportunities and of the applications service. -/
inductive ConnectCall where
  /-- A query of the user's account or profile. -/
  | profile (c : ProfileCall)
  /-- The opportunity with an id, by `maybeSingle`. -/
  | findOpportunity (id : String)
  /-- The opportunities of a project, by `created_at DESC`. -/
  | listByProject (projectId : String)
  /-- The open opportunities that match, by `created_at DESC`, and how many there are. -/
  | discover (query : OpportunityQuery)
  | insertOpportunity (new : NewOpportunity)
  /-- An update of the opportunity with an id, which asks for the row back. -/
  | updateOpportunity (id : String) (patch : OpportunityPatch)
  /-- `.update({ status: 'filled' })` of the opportunity with an id. -/
  | fillOpportunity (id : String)
  | deleteOpportunity (id : String)
  /-- The application with an id, by `maybeSingle`. -/
  | findApplication (id : String)
  /-- The applications to an opportunity, by `created_at`. -/
  | listApplications (opportunityId : String)
  /-- The application of a builder to an opportunity, by `maybeSingle`. -/
  | findOwnApplication (opportunityId builderId : String)
  | insertApplication (new : NewApplication)
  /-- An update of the status of the application with an id, which asks for the row back. -/
  | setApplicationStatus (id : String) (status : ApplicationStatus)
  /-- Reject the pending applications to an opportunity, but for one. -/
  | rejectOthers (opportunityId applicationId : String)
  deriving DecidableEq

/-- The data a query is answered with. -/
abbrev ConnectCall.answer : ConnectCall → Type
  | .profile c => c.answer
  | .findOpportunity _ => Option Opportunity
  | .listByProject _ => List Opportunity
  | .discover _ => List Opportunity × ℕ
  | .insertOpportunity _ | .updateOpportunity _ _ => Opportunity
  | .findApplication _ | .findOwnApplication _ _ => Option Application
  | .listApplications _ => List Application
  | .insertApplication _ | .setApplicationStatus _ _ => Application
  | .fillOpportunity _ | .deleteOpportunity _ | .rejectOthers _ _ => Unit

/-- What a query is answered with. -/
abbrev ConnectCall.reply (c : ConnectCall) : Type := Reply c.answer

structure ConnectDb where
  profile : ProfileDb
  opportunities : List Opportunity
  applications : List Application

/-- The row is open and passes the filters. -/
def OpportunityQuery.selects (directory : Directory) (query : OpportunityQuery) (o : Opportunity) :
    Bool :=
  o.status = .opened &&
    (query.engagementType.all fun engagementType => o.engagementType = engagementType) &&
    (query.skillsRequired.isEmpty || o.skillsRequired.any (· ∈ query.skillsRequired)) &&
    (query.budgetMin.all fun budgetMin => Number.le budgetMin o.budgetAmount) &&
    (query.budgetMax.all fun budgetMax => Number.le o.budgetAmount budgetMax) &&
    query.search.all fun text => directory.matchesSearch text (some o.title) (some o.description)

/-- The error a query of the open opportunities ends in. -/
def OpportunityQuery.error (directory : Directory) (query : OpportunityQuery) (total : ℕ) :
    Option DbError :=
  query.search.bind directory.searchError <|> directory.rangeError query.first total

namespace ConnectDb

/-- Rewrite opportunities. -/
def updateOpportunities (db : ConnectDb) (id : String) (patch : OpportunityPatch) : ConnectDb :=
  { db with
    opportunities := Table.updateWhere (fun o => o.id = id) (Opportunity.apply patch)
      db.opportunities }

/-- Rewrite the status of applications. -/
def updateApplications (db : ConnectDb) (p : Application → Bool) (now : Timestamp)
    (status : ApplicationStatus) : ConnectDb :=
  { db with applications := Table.updateWhere p (Application.setStatus now status) db.applications }

/-- The application is a pending one to the opportunity, and not this one. -/
def isOther (opportunityId applicationId : String) (a : Application) : Bool :=
  a.opportunityId = opportunityId ∧ a.status = .pending ∧ a.id ≠ applicationId

/-- The constraint a new application violates. -/
def refusal (db : ConnectDb) (new : NewApplication) : Option DbError :=
  if ∃ a ∈ db.applications, a.opportunityId = new.opportunityId ∧ a.builderId = new.builderId then
    some duplicateKey
  else if ¬ (∃ o ∈ db.opportunities, o.id = new.opportunityId) ∨
      (db.profile.wallet.authUsers new.builderId).isNone then
    some (foreignKeyViolation "applications")
  else none

/-- An application that is not refused is one to an opportunity that is there. -/
theorem opportunity_of_refusal {db : ConnectDb} {new : NewApplication} (h : db.refusal new = none) :
    ∃ o ∈ db.opportunities, o.id = new.opportunityId := by
  by_contra hmissing
  rw [refusal] at h
  split at h
  · cases h
  · rw [if_pos (.inl hmissing)] at h
    cases h

end ConnectDb

/-- What the database does with a query that does not fail. The id and the times of a new row and the
time of an update are open, and so is the order of rows of one time. -/
def Answers (directory : Directory) : (c : ConnectCall) → ConnectDb → c.reply → ConnectDb → Prop
  | .profile c, db, x, db' =>
      ∃ profile, Profiles.Answers directory c db.profile x profile ∧ db' = { db with profile := profile }
  | .findOpportunity id, db, x, db' =>
      x = maybeSingle (db.opportunities.filter fun o => o.id = id) ∧ db' = db
  | .listByProject projectId, db, x, db' =>
      (∃ rows, x = .ok rows ∧ rows.Perm (db.opportunities.filter fun o => o.projectId = projectId) ∧
        rows.Pairwise fun o p => p.createdAt ≤ o.createdAt) ∧ db' = db
  | .discover query, db, x, db' =>
      (match query.error directory (db.opportunities.filter (query.selects directory)).length with
        | some e => x = .error e
        | none => ∃ rows : List Opportunity,
            rows.Perm (db.opportunities.filter (query.selects directory)) ∧
            (rows.Pairwise fun o p => p.createdAt ≤ o.createdAt) ∧
            x = .ok ((rows.drop query.first).take query.limit, rows.length)) ∧ db' = db
  | .insertOpportunity new, db, x, db' =>
      if ¬ hasBudget new.budgetAmount then x = .error budgetViolation ∧ db' = db
      else if ¬ ∃ p ∈ db.profile.profiles, p.id = new.projectId then
        x = .error (foreignKeyViolation "opportunities") ∧ db' = db
      else ∃ id created, (∀ o ∈ db.opportunities, o.id ≠ id) ∧ x = .ok (new.row id created) ∧
        db' = { db with opportunities := db.opportunities ++ [new.row id created] }
  | .updateOpportunity id patch, db, x, db' =>
      if patch.hasNull then x = .error notNullViolation ∧ db' = db
      else if ¬ patch.budgetAmount.join.all hasBudget then x = .error budgetViolation ∧ db' = db
      else match db.opportunities.filter fun o => o.id = id with
        | [o] => x = .ok (o.apply patch) ∧ db' = db.updateOpportunities id patch
        -- a single row was asked for: the update is rolled back
        | _ => x = .error noRows ∧ db' = db
  | .fillOpportunity id, db, x, db' =>
      x = .ok () ∧ db' = db.updateOpportunities id { status := some .filled }
  | .deleteOpportunity id, db, x, db' =>
      x = .ok () ∧ db' = { db with
        opportunities := db.opportunities.filter fun o => o.id ≠ id
        applications := db.applications.filter fun a => a.opportunityId ≠ id }
  | .findApplication id, db, x, db' =>
      x = maybeSingle (db.applications.filter fun a => a.id = id) ∧ db' = db
  | .listApplications opportunityId, db, x, db' =>
      (∃ rows, x = .ok rows ∧
        rows.Perm (db.applications.filter fun a => a.opportunityId = opportunityId) ∧
        rows.Pairwise fun a b => a.createdAt ≤ b.createdAt) ∧ db' = db
  | .findOwnApplication opportunityId builderId, db, x, db' =>
      x = maybeSingle (db.applications.filter fun a =>
        a.opportunityId = opportunityId ∧ a.builderId = builderId) ∧ db' = db
  | .insertApplication new, db, x, db' =>
      match db.refusal new with
      | some e => x = .error e ∧ db' = db
      | none => ∃ id created, (∀ a ∈ db.applications, a.id ≠ id) ∧ x = .ok (new.row id created) ∧
          db' = { db with applications := db.applications ++ [new.row id created] }
  | .setApplicationStatus id status, db, x, db' =>
      match db.applications.filter fun a => a.id = id with
      | [a] => ∃ now, x = .ok (a.setStatus now status) ∧
          db' = db.updateApplications (fun a => a.id = id) now status
      | _ => x = .error noRows ∧ db' = db
  | .rejectOthers opportunityId applicationId, db, x, db' =>
      x = .ok () ∧ ∃ now,
        db' = db.updateApplications (ConnectDb.isOther opportunityId applicationId) now .rejected

/-- A query that fails reports an error and changes nothing. -/
def Fails (c : ConnectCall) (db : ConnectDb) (x : c.reply) (db' : ConnectDb) : Prop :=
  (∃ e, x = .error e) ∧ db' = db

/-- A query is answered, or fails. -/
def Executes (directory : Directory) (c : ConnectCall) (db : ConnectDb) (x : c.reply)
    (db' : ConnectDb) : Prop :=
  Answers directory c db x db' ∨ Fails c db x db'

/-- The query leaves the opportunities alone. -/
def ConnectCall.keepsOpportunities : ConnectCall → Bool
  | .insertOpportunity _ | .updateOpportunity _ _ | .fillOpportunity _ | .deleteOpportunity _ => false
  | _ => true

/-- The query leaves the applications alone. -/
def ConnectCall.keepsApplications : ConnectCall → Bool
  | .deleteOpportunity _ | .insertApplication _ | .setApplicationStatus _ _ | .rejectOthers _ _ => false
  | _ => true

/-- The query leaves both tables alone. -/
def ConnectCall.isRead (c : ConnectCall) : Bool := c.keepsOpportunities && c.keepsApplications

theorem ConnectCall.isRead_iff {c : ConnectCall} :
    c.isRead = true ↔ c.keepsOpportunities = true ∧ c.keepsApplications = true :=
  Bool.and_eq_true_iff

section Keeps

variable {directory : Directory} {c : ConnectCall} {db db' : ConnectDb} {x : c.reply}

theorem Executes.opportunities_eq (h : Executes directory c db x db')
    (hkeeps : c.keepsOpportunities = true) : db'.opportunities = db.opportunities := by
  rcases h with h | ⟨-, rfl⟩
  · cases c with
    | profile c =>
        obtain ⟨profile, -, rfl⟩ := h
        rfl
    | insertApplication new =>
        simp only [Answers] at h
        cases hrefusal : db.refusal new with
        | some e =>
            rw [hrefusal] at h
            rw [h.2]
        | none =>
            rw [hrefusal] at h
            obtain ⟨id, created, -, -, rfl⟩ := h
            rfl
    | setApplicationStatus id status =>
        simp only [Answers] at h
        split at h
        · obtain ⟨now, -, rfl⟩ := h
          rfl
        · rw [h.2]
    | rejectOthers opportunityId applicationId =>
        obtain ⟨-, now, rfl⟩ := h
        rfl
    | findOpportunity id => rw [h.2]
    | listByProject projectId => rw [h.2]
    | discover query => rw [h.2]
    | findApplication id => rw [h.2]
    | listApplications opportunityId => rw [h.2]
    | findOwnApplication opportunityId builderId => rw [h.2]
    | _ => cases hkeeps
  · rfl

theorem Executes.applications_eq (h : Executes directory c db x db')
    (hkeeps : c.keepsApplications = true) : db'.applications = db.applications := by
  rcases h with h | ⟨-, rfl⟩
  · cases c with
    | profile c =>
        obtain ⟨profile, -, rfl⟩ := h
        rfl
    | insertOpportunity new =>
        simp only [Answers] at h
        split at h
        · rw [h.2]
        · split at h
          · rw [h.2]
          · obtain ⟨id, created, -, -, rfl⟩ := h
            rfl
    | updateOpportunity id patch =>
        simp only [Answers] at h
        split at h
        · rw [h.2]
        · split at h
          · rw [h.2]
          · split at h
            · rw [h.2]
              rfl
            · rw [h.2]
    | fillOpportunity id =>
        obtain ⟨-, rfl⟩ := h
        rfl
    | findOpportunity id => rw [h.2]
    | listByProject projectId => rw [h.2]
    | discover query => rw [h.2]
    | findApplication id => rw [h.2]
    | listApplications opportunityId => rw [h.2]
    | findOwnApplication opportunityId builderId => rw [h.2]
    | _ => cases hkeeps
  · rfl

end Keeps

/-! ## A database that answers -/

/-- The oldest first. -/
def oldestFirst (rows : List Application) : List Application :=
  rows.insertionSort fun a b => a.createdAt ≤ b.createdAt

theorem oldestFirst_sorted (rows : List Application) :
    (oldestFirst rows).Pairwise fun a b => a.createdAt ≤ b.createdAt := by
  have htotal : Std.Total fun a b : Application => a.createdAt ≤ b.createdAt :=
    ⟨fun a b => le_total _ _⟩
  have htrans : IsTrans Application fun a b => a.createdAt ≤ b.createdAt :=
    ⟨fun a b c hab hbc => hab.trans hbc⟩
  exact List.pairwise_insertionSort _ _

/-- The answer to a query. -/
def ConnectDb.answer (directory : Directory) : (c : ConnectCall) → ConnectDb → c.reply × ConnectDb
  | .profile c, db =>
      ((db.profile.answer directory c).1, { db with profile := (db.profile.answer directory c).2 })
  | .findOpportunity id, db => (maybeSingle (db.opportunities.filter fun o => o.id = id), db)
  | .listByProject projectId, db =>
      (.ok (newestFirst Opportunity.createdAt
        (db.opportunities.filter fun o => o.projectId = projectId)), db)
  | .discover query, db =>
      let rows := newestFirst Opportunity.createdAt (db.opportunities.filter (query.selects directory))
      match query.error directory rows.length with
      | some e => (.error e, db)
      | none => (.ok ((rows.drop query.first).take query.limit, rows.length), db)
  | .insertOpportunity new, db =>
      if ¬ hasBudget new.budgetAmount then (.error budgetViolation, db)
      else if ¬ ∃ p ∈ db.profile.profiles, p.id = new.projectId then
        (.error (foreignKeyViolation "opportunities"), db)
      else
        let row := new.row (freshText (db.opportunities.map Opportunity.id)) 0
        (.ok row, { db with opportunities := db.opportunities ++ [row] })
  | .updateOpportunity id patch, db =>
      if patch.hasNull then (.error notNullViolation, db)
      else if ¬ patch.budgetAmount.join.all hasBudget then (.error budgetViolation, db)
      else match db.opportunities.filter fun o => o.id = id with
        | [o] => (.ok (o.apply patch), db.updateOpportunities id patch)
        | _ => (.error noRows, db)
  | .fillOpportunity id, db => (.ok (), db.updateOpportunities id { status := some .filled })
  | .deleteOpportunity id, db =>
      (.ok (), { db with
        opportunities := db.opportunities.filter fun o => o.id ≠ id
        applications := db.applications.filter fun a => a.opportunityId ≠ id })
  | .findApplication id, db => (maybeSingle (db.applications.filter fun a => a.id = id), db)
  | .listApplications opportunityId, db =>
      (.ok (oldestFirst (db.applications.filter fun a => a.opportunityId = opportunityId)), db)
  | .findOwnApplication opportunityId builderId, db =>
      (maybeSingle (db.applications.filter fun a =>
        a.opportunityId = opportunityId ∧ a.builderId = builderId), db)
  | .insertApplication new, db =>
      match db.refusal new with
      | some e => (.error e, db)
      | none =>
        let row := new.row (freshText (db.applications.map Application.id)) 0
        (.ok row, { db with applications := db.applications ++ [row] })
  | .setApplicationStatus id status, db =>
      match db.applications.filter fun a => a.id = id with
      | [a] => (.ok (a.setStatus 0 status), db.updateApplications (fun a => a.id = id) 0 status)
      | _ => (.error noRows, db)
  | .rejectOthers opportunityId applicationId, db =>
      (.ok (), db.updateApplications (ConnectDb.isOther opportunityId applicationId) 0 .rejected)

theorem ConnectDb.answers_answer (directory : Directory) (c : ConnectCall) (db : ConnectDb) :
    Answers directory c db (db.answer directory c).1 (db.answer directory c).2 := by
  cases c with
  | profile c => exact ⟨_, db.profile.answers_answer directory c, rfl⟩
  | listByProject projectId =>
      exact ⟨⟨_, rfl, Profiles.newestFirst_perm _ _, Profiles.newestFirst_sorted _ _⟩, rfl⟩
  | discover query =>
      have hperm := Profiles.newestFirst_perm Opportunity.createdAt
        (db.opportunities.filter (query.selects directory))
      simp only [Answers, ConnectDb.answer, hperm.length_eq]
      split
      · exact ⟨rfl, rfl⟩
      · exact ⟨⟨_, hperm, Profiles.newestFirst_sorted _ _, by rw [hperm.length_eq]⟩, rfl⟩
  | insertOpportunity new =>
      simp only [Answers, ConnectDb.answer]
      split
      · exact ⟨rfl, rfl⟩
      · split
        · exact ⟨rfl, rfl⟩
        · exact ⟨_, _, fun o ho => freshText_ne (List.mem_map_of_mem ho), rfl, rfl⟩
  | updateOpportunity id patch =>
      simp only [Answers, ConnectDb.answer]
      split
      · exact ⟨rfl, rfl⟩
      · split
        · exact ⟨rfl, rfl⟩
        · split
          · exact ⟨rfl, rfl⟩
          · rename_i hmany
            split
            · rename_i o h
              exact absurd h (hmany o)
            · exact ⟨rfl, rfl⟩
  | listApplications opportunityId =>
      exact ⟨⟨_, rfl, List.perm_insertionSort _ _, oldestFirst_sorted _⟩, rfl⟩
  | insertApplication new =>
      simp only [Answers, ConnectDb.answer]
      split
      · exact ⟨rfl, rfl⟩
      · exact ⟨_, _, fun a ha => freshText_ne (List.mem_map_of_mem ha), rfl, rfl⟩
  | setApplicationStatus id status =>
      simp only [Answers, ConnectDb.answer]
      split
      · exact ⟨0, rfl, rfl⟩
      · rename_i hmany
        split
        · rename_i a h
          exact absurd h (hmany a)
        · exact ⟨rfl, rfl⟩
  | rejectOthers opportunityId applicationId => exact ⟨rfl, 0, rfl⟩
  | _ => exact ⟨rfl, rfl⟩

end ThalosBackend.Opportunities
