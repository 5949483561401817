import ThalosBackend.Agreements.AgreementLifecycle
import ThalosBackend.Wallets.UserWallets

/-!
# The agreement tables

The rows of `agreements`, `agreement_participants`, `agreement_activity`, `disputes` and
`dispute_resolutions`, and the queries that the agreement, dispute, webhook and sync services make.
No migration of the repository declares a constraint on these tables beyond their ids, so the status
is a text that may be `null`, and any number of agreements can hold one contract id. An id stands for the
`uuid` value of its column: two spellings of one value are one id here.

What a service emits, and the work it hands to the retry queue or leaves running behind the answer,
is recorded next to the tables. `Executes` says what a query does: it is answered, or it fails and
changes nothing.
-/

set_option autoImplicit false

namespace ThalosBackend.Agreements

open Js (Number Timestamp Value)
open Wallets (DbError WalletCall WalletDb maybeSingle noRows)

/-! ## Rows -/

/-- An entry of the `milestones` column. A webhook may store any JSON value as the description.
Evidence that is not there and evidence that is `null` are the same. -/
structure Milestone where
  description : Value
  amount : String
  status : MilestoneStatus
  evidenceDescription : Option String := none
  evidenceUrls : Option (List String) := none
  evidenceSubmittedAt : Option Timestamp := none
  deriving DecidableEq

/-- A row of `agreements`. -/
structure Agreement where
  id : String
  contractId : Option String
  title : String
  description : Option String
  amount : String
  asset : Option String
  status : Option String
  agreementType : Option String
  milestones : List Milestone
  metadata : Value
  createdBy : String
  fundedAt : Option Timestamp
  completedAt : Option Timestamp
  createdAt : Timestamp
  updatedAt : Timestamp
  deriving DecidableEq

/-- A row of `agreements` as it is inserted. -/
structure NewAgreement where
  contractId : Option String
  title : String
  description : Option String
  amount : String
  asset : String
  status : String
  agreementType : String
  milestones : List Milestone
  metadata : Value
  createdBy : String
  deriving DecidableEq

/-- The inserted row, under the id and the time the database gives it. -/
def NewAgreement.row (new : NewAgreement) (id : String) (created : Timestamp) : Agreement where
  id
  contractId := new.contractId
  title := new.title
  description := new.description
  amount := new.amount
  asset := some new.asset
  status := some new.status
  agreementType := some new.agreementType
  milestones := new.milestones
  metadata := new.metadata
  createdBy := new.createdBy
  fundedAt := none
  completedAt := none
  createdAt := created
  updatedAt := created

/-- What an update of `agreements` sets. A column that is `none` is left alone; the status can be
set to `null`. -/
structure AgreementUpdates where
  contractId : Option String := none
  status : Option (Option String) := none
  milestones : Option (List Milestone) := none
  fundedAt : Option Timestamp := none
  completedAt : Option Timestamp := none
  updatedAt : Timestamp
  deriving DecidableEq

namespace Agreement

/-- The row after an update. -/
def apply (updates : AgreementUpdates) (a : Agreement) : Agreement :=
  { a with
    contractId := updates.contractId <|> a.contractId
    status := updates.status.getD a.status
    milestones := updates.milestones.getD a.milestones
    fundedAt := updates.fundedAt <|> a.fundedAt
    completedAt := updates.completedAt <|> a.completedAt
    updatedAt := updates.updatedAt }

@[simp] theorem apply_id (u : AgreementUpdates) (a : Agreement) : (a.apply u).id = a.id := rfl

@[simp] theorem apply_amount (u : AgreementUpdates) (a : Agreement) :
    (a.apply u).amount = a.amount := rfl

@[simp] theorem apply_asset (u : AgreementUpdates) (a : Agreement) :
    (a.apply u).asset = a.asset := rfl

@[simp] theorem apply_status (u : AgreementUpdates) (a : Agreement) :
    (a.apply u).status = u.status.getD a.status := rfl

@[simp] theorem apply_milestones (u : AgreementUpdates) (a : Agreement) :
    (a.apply u).milestones = u.milestones.getD a.milestones := rfl

@[simp] theorem apply_contractId (u : AgreementUpdates) (a : Agreement) :
    (a.apply u).contractId = (u.contractId <|> a.contractId) := rfl

end Agreement

/-- A row of `agreement_participants`. -/
structure Participant where
  agreementId : String
  walletAddress : String
  role : String
  deriving DecidableEq

/-- A row of `agreement_activity`. -/
structure Activity where
  agreementId : String
  actorWallet : String
  action : String
  details : Value
  previousState : Option String := none
  newState : Option String := none
  deriving DecidableEq

inductive DisputeStatus where
  | opened
  | underReview
  | resolved
  | cancelled
  deriving DecidableEq

/-- `['open', 'under_review']`. -/
def DisputeStatus.isLive : DisputeStatus → Bool
  | .opened | .underReview => true
  | .resolved | .cancelled => false

/-- A row of `disputes`. -/
structure Dispute where
  id : String
  agreementId : String
  openedBy : String
  reason : String
  evidenceUrls : List String
  status : DisputeStatus
  resolverWallet : Option String
  createdAt : Timestamp
  updatedAt : Timestamp
  resolvedAt : Option Timestamp
  deriving DecidableEq

/-- A row of `disputes` as `openDispute` inserts it, with the status `open`. -/
structure NewDispute where
  agreementId : String
  openedBy : String
  reason : String
  evidenceUrls : List String
  deriving DecidableEq

def NewDispute.row (new : NewDispute) (id : String) (created : Timestamp) : Dispute where
  id
  agreementId := new.agreementId
  openedBy := new.openedBy
  reason := new.reason
  evidenceUrls := new.evidenceUrls
  status := .opened
  resolverWallet := none
  createdAt := created
  updatedAt := created
  resolvedAt := none

/-- What an update of `disputes` sets. -/
structure DisputeUpdates where
  status : DisputeStatus
  resolverWallet : Option String := none
  resolvedAt : Option Timestamp := none
  updatedAt : Timestamp
  deriving DecidableEq

/-- The row after an update. -/
def Dispute.apply (updates : DisputeUpdates) (d : Dispute) : Dispute :=
  { d with
    status := updates.status
    resolverWallet := updates.resolverWallet <|> d.resolverWallet
    resolvedAt := updates.resolvedAt <|> d.resolvedAt
    updatedAt := updates.updatedAt }

@[simp] theorem Dispute.apply_id (u : DisputeUpdates) (d : Dispute) : (d.apply u).id = d.id := rfl

@[simp] theorem Dispute.apply_agreementId (u : DisputeUpdates) (d : Dispute) :
    (d.apply u).agreementId = d.agreementId := rfl

@[simp] theorem Dispute.apply_status (u : DisputeUpdates) (d : Dispute) :
    (d.apply u).status = u.status := rfl

/-- A row of `dispute_resolutions`. -/
structure DisputeResolution where
  id : String
  disputeId : String
  resolvedBy : String
  payerPercentage : Number
  payeePercentage : Number
  resolutionNotes : String
  createdAt : Timestamp
  deriving DecidableEq

/-- A row of `dispute_resolutions` as it is inserted. -/
structure NewResolution where
  disputeId : String
  resolvedBy : String
  payerPercentage : Number
  payeePercentage : Number
  resolutionNotes : String
  deriving DecidableEq

def NewResolution.row (new : NewResolution) (id : String) (created : Timestamp) :
    DisputeResolution where
  id
  disputeId := new.disputeId
  resolvedBy := new.resolvedBy
  payerPercentage := new.payerPercentage
  payeePercentage := new.payeePercentage
  resolutionNotes := new.resolutionNotes
  createdAt := created

/-! ## What leaves the services -/

/-- The domain events, and the notice a disputed webhook sends. -/
inductive AgreementEvent where
  | created (agreementId title : String) (description : Option String) (amount asset : String)
      (createdByWallet : String) (participantWallets : List String)
  | funded (agreementId title amount asset fundedByWallet : String)
  | completed (agreementId title totalAmount asset : String) (completedAt : Timestamp)
  | evidenceSubmitted (agreementId agreementTitle : String) (milestoneIndex : ℕ)
      (milestoneDescription : Value) (milestoneAmount asset submittedByWallet : String)
      (evidenceDescription : Option String) (evidenceUrls : Option (List String))
  | milestoneApproved (agreementId agreementTitle : String) (milestoneIndex : ℕ)
      (milestoneDescription : Value) (milestoneAmount asset approvedByWallet : String)
      (contractId serviceType : Option String)
  | milestoneReleased (agreementId agreementTitle : String) (milestoneIndex : ℕ)
      (milestoneDescription : Value) (milestoneAmount asset : String)
      (contractId serviceType : Option String) (actorWallet : String) (evidence : Option String)
  | disputeOpened (disputeId agreementId openedByWallet reason : String)
  | disputeResolved (disputeId agreementId resolvedByWallet : String)
      (payerPercentage payeePercentage : Number) (resolutionNotes : String)
  | notifyDisputeOpened (agreementId agreementTitle disputeReason openedByWallet : String)
  deriving DecidableEq

/-- Work behind an answer: a job of the in-memory retry queue, or a call that is not awaited. -/
inductive BackgroundWork where
  | syncAgreement (agreementId : String)
  | syncStatusTransition (agreementId fromStatus toStatus : String)
  deriving DecidableEq

/-! ## Queries -/

/-- The queries and effects of the services. -/
inductive AgreementCall where
  /-- A query of the wallet tables. -/
  | wallet (c : WalletCall)
  /-- The agreement with an id, by `maybeSingle`. -/
  | findAgreement (id : String)
  /-- The agreement with an id, by `single`. -/
  | getAgreement (id : String)
  /-- The agreement with a contract id, by `maybeSingle`. -/
  | findByContract (contractId : String)
  | insertAgreement (new : NewAgreement)
  | deleteAgreement (id : String)
  | updateAgreement (id : String) (updates : AgreementUpdates)
  /-- An update of the agreements with a contract id and another status, which asks for the row back
  by `maybeSingle`. -/
  | changeStatusByContract (contractId target : String) (updates : AgreementUpdates)
  /-- An update of the agreements with a contract id. -/
  | updateByContract (contractId : String) (updates : AgreementUpdates)
  | insertParticipants (rows : List Participant)
  /-- Some participant of the agreement with one of the wallets. -/
  | findParticipant (agreementId : String) (wallets : List String)
  | listParticipants (agreementId : String)
  | insertActivity (row : Activity)
  /-- The dispute of the agreement that is open or under review, by `maybeSingle`. -/
  | findLiveDispute (agreementId : String)
  | insertDispute (new : NewDispute)
  /-- The dispute with an id, by `maybeSingle`. -/
  | findDispute (id : String)
  | updateDispute (id : String) (updates : DisputeUpdates)
  | insertResolution (new : NewResolution)
  | emit (event : AgreementEvent)
  | background (work : BackgroundWork)
  deriving DecidableEq

/-- The data a query is answered with. -/
abbrev AgreementCall.answer : AgreementCall → Type
  | .wallet c => c.answer
  | .findAgreement _ | .findByContract _ | .changeStatusByContract _ _ _ => Option Agreement
  | .getAgreement _ | .insertAgreement _ => Agreement
  | .findParticipant _ _ => Option Participant
  | .listParticipants _ => List Participant
  | .findLiveDispute _ | .findDispute _ => Option Dispute
  | .insertDispute _ => Dispute
  | .insertResolution _ => DisputeResolution
  | .deleteAgreement _ | .updateAgreement _ _ | .updateByContract _ _ | .insertParticipants _
  | .insertActivity _ | .updateDispute _ _ | .emit _ | .background _ => Unit

/-- What a query is answered with. -/
abbrev AgreementCall.reply (c : AgreementCall) : Type := Wallets.Reply c.answer

/-- The tables, and what left the services. -/
structure AgreementDb where
  wallet : WalletDb
  agreements : List Agreement
  participants : List Participant
  activity : List Activity
  disputes : List Dispute
  resolutions : List DisputeResolution
  events : List AgreementEvent
  background : List BackgroundWork

namespace AgreementDb

/-- The agreements with a contract id. -/
def byContract (db : AgreementDb) (contractId : String) : List Agreement :=
  db.agreements.filter fun a => a.contractId = some contractId

/-- The live disputes of an agreement. -/
def liveDisputes (db : AgreementDb) (agreementId : String) : List Dispute :=
  db.disputes.filter fun d => d.agreementId = agreementId ∧ d.status.isLive

/-- Rewrite rows of `agreements`. -/
def updateAgreements (db : AgreementDb) (p : Agreement → Bool) (updates : AgreementUpdates) :
    AgreementDb :=
  { db with agreements := Table.updateWhere p (Agreement.apply updates) db.agreements }

end AgreementDb

/-- The row a status update by contract id matches; `null` is not unequal to anything. -/
def matchesStatusUpdate (contractId target : String) (a : Agreement) : Bool :=
  a.contractId = some contractId ∧ ∃ s ∈ a.status, s ≠ target

/-- What the database does with a query that does not fail. The ids and creation times of new rows
are open. -/
def Answers : (c : AgreementCall) → AgreementDb → c.reply → AgreementDb → Prop
  | .wallet c, db, x, db' =>
      ∃ wallet, Wallets.Answers c db.wallet x wallet ∧ db' = { db with wallet := wallet }
  | .findAgreement id, db, x, db' =>
      x = maybeSingle (db.agreements.filter fun a => a.id = id) ∧ db' = db
  | .getAgreement id, db, x, db' =>
      (match db.agreements.filter fun a => a.id = id with
        | [a] => x = .ok a
        | _ => x = .error noRows) ∧ db' = db
  | .findByContract contractId, db, x, db' =>
      x = maybeSingle (db.byContract contractId) ∧ db' = db
  | .insertAgreement new, db, x, db' =>
      ∃ id created, (∀ a ∈ db.agreements, a.id ≠ id) ∧ x = .ok (new.row id created) ∧
        db' = { db with agreements := db.agreements ++ [new.row id created] }
  | .deleteAgreement id, db, x, db' =>
      x = .ok () ∧ db' = { db with agreements := db.agreements.filter fun a => a.id ≠ id }
  | .updateAgreement id updates, db, x, db' =>
      x = .ok () ∧ db' = db.updateAgreements (fun a => a.id = id) updates
  | .changeStatusByContract contractId target updates, db, x, db' =>
      (match db.agreements.filter (matchesStatusUpdate contractId target) with
        | [] => x = .ok none ∧ db' = db
        | [a] => x = .ok (some (a.apply updates)) ∧
            db' = db.updateAgreements (matchesStatusUpdate contractId target) updates
        -- a single row was asked for: the update is rolled back
        | _ => x = .error noRows ∧ db' = db)
  | .updateByContract contractId updates, db, x, db' =>
      x = .ok () ∧ db' = db.updateAgreements (fun a => a.contractId = some contractId) updates
  | .insertParticipants rows, db, x, db' =>
      x = .ok () ∧ db' = { db with participants := db.participants ++ rows }
  | .findParticipant agreementId wallets, db, x, db' =>
      (match db.participants.filter fun p =>
          p.agreementId = agreementId ∧ p.walletAddress ∈ wallets with
        | [] => x = .ok none
        | p :: ps => ∃ q ∈ p :: ps, x = .ok (some q)) ∧ db' = db
  | .listParticipants agreementId, db, x, db' =>
      (∃ rows, x = .ok rows ∧ rows.Perm (db.participants.filter fun p =>
        p.agreementId = agreementId)) ∧ db' = db
  | .insertActivity row, db, x, db' =>
      x = .ok () ∧ db' = { db with activity := db.activity ++ [row] }
  | .findLiveDispute agreementId, db, x, db' =>
      x = maybeSingle (db.liveDisputes agreementId) ∧ db' = db
  | .insertDispute new, db, x, db' =>
      ∃ id created, (∀ d ∈ db.disputes, d.id ≠ id) ∧ x = .ok (new.row id created) ∧
        db' = { db with disputes := db.disputes ++ [new.row id created] }
  | .findDispute id, db, x, db' =>
      x = maybeSingle (db.disputes.filter fun d => d.id = id) ∧ db' = db
  | .updateDispute id updates, db, x, db' =>
      x = .ok () ∧ db' = { db with
        disputes := Table.updateWhere (fun d => d.id = id) (Dispute.apply updates) db.disputes }
  | .insertResolution new, db, x, db' =>
      ∃ id created, (∀ r ∈ db.resolutions, r.id ≠ id) ∧ x = .ok (new.row id created) ∧
        db' = { db with resolutions := db.resolutions ++ [new.row id created] }
  | .emit event, db, x, db' =>
      x = .ok () ∧ db' = { db with events := db.events ++ [event] }
  | .background work, db, x, db' =>
      x = .ok () ∧ db' = { db with background := db.background ++ [work] }

/-- An event is emitted and work is handed over without a query. -/
def AgreementCall.isQuery : AgreementCall → Bool
  | .emit _ | .background _ => false
  | _ => true

/-- A query that fails reports an error and changes nothing. -/
def Fails (c : AgreementCall) (db : AgreementDb) (x : c.reply) (db' : AgreementDb) : Prop :=
  c.isQuery = true ∧ (∃ e, x = .error e) ∧ db' = db

/-- A query is answered, or fails. -/
def Executes (c : AgreementCall) (db : AgreementDb) (x : c.reply) (db' : AgreementDb) : Prop :=
  Answers c db x db' ∨ Fails c db x db'

end ThalosBackend.Agreements
