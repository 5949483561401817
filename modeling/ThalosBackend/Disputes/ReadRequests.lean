import ThalosBackend.Agreements.AgreementListing
import ThalosBackend.Disputes.DisputesService

/-!
# What can be read of agreements and disputes

The read operations of `agreements/agreements.service.ts` and `disputes/disputes.service.ts`:
`getById`, `getActivity`, and the ones of disputes; `list`, `listByWallet` and `getByContractId` are
there already. Every one but `getOpenDisputes` checks who asks. A dispute is read with a few columns of
its agreement.

`ReadCall` adds their queries to the ones of the lists. Reading changes nothing, so a query is only
said to be answered in some way on the tables as they are (`Sees`).
-/

set_option autoImplicit false

namespace ThalosBackend.Disputes

open Calls (ask)
open Wallets (Reply maybeSingle)
open Agreements

/-! ## Queries -/

/-- `agreement:agreements (id, title, amount, contract_id)`. -/
structure AgreementSummary where
  id : String
  title : String
  amount : String
  contractId : Option String
  deriving DecidableEq

def AgreementSummary.of (a : Agreement) : AgreementSummary where
  id := a.id
  title := a.title
  amount := a.amount
  contractId := a.contractId

/-- A row of `disputes` with its agreement. -/
structure EmbeddedDispute where
  dispute : Dispute
  agreement : Option AgreementSummary
  deriving DecidableEq

/-- The dispute with its agreement, as the tables have it. -/
def embedAgreement (db : AgreementDb) (d : Dispute) : EmbeddedDispute where
  dispute := d
  agreement := (db.agreements.filter fun a => a.id = d.agreementId).head?.map AgreementSummary.of

/-- The queries of the read operations. -/
inductive ReadCall where
  | listing (c : ListingCall)
  /-- The log of an agreement, by `created_at DESC`. -/
  | activityOf (agreementId : String)
  /-- The disputes that are open or under review, by `created_at DESC`. -/
  | openDisputes
  /-- The disputes of a resolver, by `created_at DESC`. -/
  | disputesByResolver (resolverWallet : String)
  /-- The dispute with an id, by `maybeSingle`. -/
  | disputeById (id : String)
  /-- The disputes of an agreement, by `created_at DESC`. -/
  | disputesByAgreement (agreementId : String)
  /-- The resolution of a dispute, by `maybeSingle`. -/
  | resolutionOf (disputeId : String)
  deriving DecidableEq

/-- The data a query is answered with. -/
abbrev ReadCall.answer : ReadCall → Type
  | .listing c => c.answer
  | .activityOf _ => List Activity
  | .openDisputes | .disputesByResolver _ => List EmbeddedDispute
  | .disputeById _ => Option EmbeddedDispute
  | .disputesByAgreement _ => List Dispute
  | .resolutionOf _ => Option DisputeResolution

/-- What a query is answered with. -/
abbrev ReadCall.reply (c : ReadCall) : Type := Reply c.answer

/-- The rows, the newest first; rows of one time come in any order. -/
def NewestFirst (rows data : List EmbeddedDispute) : Prop :=
  data.Perm rows ∧ data.Pairwise fun d d' => d'.dispute.createdAt ≤ d.dispute.createdAt

/-- How a query that does not fail is answered. The time of an activity is not modelled, so a log may
come in any order. -/
def ReadCall.Answers : (c : ReadCall) → AgreementDb → c.reply → Prop
  | .listing c, db, x => ∃ db', c.Answers db x db'
  | .activityOf agreementId, db, x =>
      ∃ rows, x = .ok rows ∧ rows.Perm (db.activity.filter fun row => row.agreementId = agreementId)
  | .openDisputes, db, x =>
      ∃ rows, x = .ok rows ∧
        NewestFirst ((db.disputes.filter fun d => d.status.isLive).map (embedAgreement db)) rows
  | .disputesByResolver resolverWallet, db, x =>
      ∃ rows, x = .ok rows ∧ NewestFirst ((db.disputes.filter fun d =>
        d.resolverWallet = some resolverWallet).map (embedAgreement db)) rows
  | .disputeById id, db, x =>
      x = maybeSingle ((db.disputes.filter fun d => d.id = id).map (embedAgreement db))
  | .disputesByAgreement agreementId, db, x =>
      ∃ rows, x = .ok rows ∧ rows.Perm (db.disputes.filter fun d => d.agreementId = agreementId) ∧
        rows.Pairwise fun d d' => d'.createdAt ≤ d.createdAt
  | .resolutionOf disputeId, db, x =>
      x = maybeSingle (db.resolutions.filter fun r => r.disputeId = disputeId)

/-- A query is answered, or it fails. -/
def ReadCall.Sees (c : ReadCall) (db : AgreementDb) (x : c.reply) : Prop :=
  c.Answers db x ∨ ∃ e, x = .error e

/-! ## The operations -/

/-- A program of the read operations. -/
abbrev ReadProgram := Calls HttpException ReadCall ReadCall.reply

/-- A program of the lists, among the read operations. -/
abbrev reads {α : Type} (p : ListingProgram α) : ReadProgram α :=
  p.embed ReadCall.listing fun _ x => x

/-- `{ agreement, participants, error }`. -/
structure AgreementDetail where
  agreement : Option Agreement
  participants : List Participant
  error : Option String
  deriving DecidableEq

/-- `getById(userId, agreementId)`. -/
def getById (userId agreementId : String) : ReadProgram AgreementDetail := do
  reads (listed (Agreements.assertCanAccessAgreement userId agreementId))
  match ← ask (ReadCall.listing (.agreement (.getAgreement agreementId))) with
  | .error agError => return ⟨none, [], some agError.message⟩
  | .ok agreement =>
    match ← ask (ReadCall.listing (.agreement (.listParticipants agreementId))) with
    | .error partError => return ⟨some agreement, [], some partError.message⟩
    | .ok participants => return ⟨some agreement, participants, none⟩

/-- `{ activities, error }`. -/
structure ActivityList where
  activities : List Activity
  error : Option String
  deriving DecidableEq

/-- `getActivity(userId, agreementId)`. -/
def getActivity (userId agreementId : String) : ReadProgram ActivityList := do
  reads (listed (Agreements.assertCanAccessAgreement userId agreementId))
  match ← ask (ReadCall.activityOf agreementId) with
  | .error e => return ⟨[], some e.message⟩
  | .ok data => return ⟨data, none⟩

/-- `{ disputes, error }`, with agreements. -/
structure EmbeddedDisputeList where
  disputes : List EmbeddedDispute
  error : Option String
  deriving DecidableEq

/-- `getOpenDisputes(_userId)`: resolvers see all of them, and whoever asks is taken for one. -/
def getOpenDisputes (_userId : String) : ReadProgram EmbeddedDisputeList := do
  match ← ask ReadCall.openDisputes with
  | .error e => return ⟨[], some e.message⟩
  | .ok data => return ⟨data, none⟩

/-- `getDisputesByResolver(userId, resolverWallet)`. -/
def getDisputesByResolver (userId resolverWallet : String) : ReadProgram EmbeddedDisputeList := do
  reads (listed (assertActorWallet userId resolverWallet))
  match ← ask (ReadCall.disputesByResolver resolverWallet) with
  | .error e => return ⟨[], some e.message⟩
  | .ok data => return ⟨data, none⟩

/-- `{ dispute, resolution }`. -/
structure DisputeDetail where
  dispute : EmbeddedDispute
  resolution : Option DisputeResolution
  deriving DecidableEq

/-- `getDisputeById(userId, disputeId)`. A resolution that can not be read counts as none. -/
def getDisputeById (userId disputeId : String) : ReadProgram DisputeDetail := do
  match Reply.data (← ask (ReadCall.disputeById disputeId)) with
  | none => .fail (.notFound "Dispute not found")
  | some dispute =>
    reads (listed (assertCanAccessAgreement userId dispute.dispute.agreementId))
    let resolution ← ask (ReadCall.resolutionOf disputeId)
    return ⟨dispute, Reply.data resolution⟩

/-- `{ disputes, error }`. -/
structure DisputeList where
  disputes : List Dispute
  error : Option String
  deriving DecidableEq

/-- `getDisputesByAgreement(userId, agreementId)`. -/
def getDisputesByAgreement (userId agreementId : String) : ReadProgram DisputeList := do
  reads (listed (assertCanAccessAgreement userId agreementId))
  match ← ask (ReadCall.disputesByAgreement agreementId) with
  | .error e => return ⟨[], some e.message⟩
  | .ok data => return ⟨data, none⟩

/-! ## Requests -/

/-- A request that only reads. -/
inductive ReadRequest where
  | list (query : ListAgreementsQueryDto)
  | listByWallet (wallet : String)
  | getById (agreementId : String)
  | getByContractId (contractId : String)
  | getActivity (agreementId : String)
  | getOpenDisputes
  | getDisputesByResolver (resolverWallet : String)
  | getDisputeById (disputeId : String)
  | getDisputesByAgreement (agreementId : String)

/-- What a request is answered with. -/
inductive ReadAnswer where
  | agreements (result : AgreementList)
  | agreement (result : AgreementDetail)
  | lookup (result : ContractLookup)
  | activity (result : ActivityList)
  | embedded (result : EmbeddedDisputeList)
  | dispute (result : DisputeDetail)
  | disputes (result : DisputeList)

/-- The operation behind a request of a user. -/
def ReadRequest.program (userId : String) : ReadRequest → ReadProgram ReadAnswer
  | .list query => do return .agreements (← reads (Agreements.list userId query))
  | .listByWallet wallet => do return .agreements (← reads (Agreements.listByWallet userId wallet))
  | .getById agreementId => do return .agreement (← Disputes.getById userId agreementId)
  | .getByContractId contractId => do
      return .lookup (← reads (listed (Agreements.getByContractId userId contractId)))
  | .getActivity agreementId => do return .activity (← Disputes.getActivity userId agreementId)
  | .getOpenDisputes => do return .embedded (← Disputes.getOpenDisputes userId)
  | .getDisputesByResolver resolverWallet => do
      return .embedded (← Disputes.getDisputesByResolver userId resolverWallet)
  | .getDisputeById disputeId => do return .dispute (← Disputes.getDisputeById userId disputeId)
  | .getDisputesByAgreement agreementId => do
      return .disputes (← Disputes.getDisputesByAgreement userId agreementId)

end ThalosBackend.Disputes
