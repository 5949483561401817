import ThalosBackend.Opportunities.ConnectDb

/-!
# The opportunities service

`opportunities/opportunities.service.ts`. A Project is an enterprise profile, found by the wallet of the
user; it owns the opportunities it has created.
-/

set_option autoImplicit false

namespace ThalosBackend.Opportunities

open Js (Number Value nonEmpty)
open Calls (ask)
open Profiles (AccountType)
open Wallets (Reply)

/-- A program of the two services. -/
abbrev ConnectProgram := Calls HttpException ConnectCall ConnectCall.reply

/-! ## Requests -/

/-- `CreateOpportunityDto`. -/
structure CreateOpportunityDto where
  projectId : Option String
  title : String
  description : String
  skillsRequired : List String
  budgetAmount : Number
  budgetAsset : Option String
  engagementType : EngagementType
  deriving DecidableEq

/-- `UpdateOpportunityDto`. A field that is not there is `none`, and `null` is `some none`. -/
structure UpdateOpportunityDto where
  title : Option (Option String) := none
  description : Option (Option String) := none
  skillsRequired : Option (Option (List String)) := none
  budgetAmount : Option (Option Number) := none
  budgetAsset : Option (Option String) := none
  engagementType : Option (Option EngagementType) := none
  status : Option (Option OpportunityStatus) := none
  deriving DecidableEq

/-- `DiscoverOpportunitiesQueryDto`, whose page and limit are 1 or more. -/
structure DiscoverOpportunitiesQueryDto where
  skillsRequired : Option (List String) := none
  engagementType : Option EngagementType := none
  budgetMin : Option Number := none
  budgetMax : Option Number := none
  q : Option String := none
  page : Option ℕ := none
  limit : Option ℕ := none
  deriving DecidableEq

/-- `{ opportunity, error }`. -/
structure OpportunityResult where
  opportunity : Opportunity
  error : Option String
  deriving DecidableEq

/-- `{ opportunities, error }`. -/
structure OpportunityList where
  opportunities : List Opportunity
  error : Option String
  deriving DecidableEq

/-- `{ opportunities, page, limit, total, error }`. -/
structure OpportunityPage where
  opportunities : List Opportunity
  page : ℕ
  limit : ℕ
  total : ℕ
  error : Option String
  deriving DecidableEq

/-- `{ success, error }`. -/
structure RemoveResult where
  success : Bool
  error : Option String
  deriving DecidableEq

/-- `new BadRequestException({ success: false, error: { code, details: [{ field, code, message }] } })`. -/
def requestError (field code message : String) : HttpException :=
  .badRequestBody (.record [("success", .bool false), ("error", .record [("code", .string code),
    ("details", .array [.record [("field", .string field), ("code", .string code),
      ("message", .string message)]])])])

/-! ## Who asks -/

/-- The `id` and the `account_type` of a profile. -/
structure CallerProfile where
  id : String
  accountType : Option AccountType
  deriving DecidableEq

/-- `walletForUserId(userId)`. -/
def walletForUserId (userId : String) : ConnectProgram (Option String) :=
  (Profiles.walletForUserId userId).embed ConnectCall.profile fun _ x => x

/-- `resolveCallerProfile(userId)`. -/
def resolveCallerProfile (userId : String) : ConnectProgram CallerProfile := do
  match ← walletForUserId userId with
  | none => .fail (.forbidden "No wallet on profile")
  | some wallet =>
    match Reply.data (← ask (ConnectCall.profile (.findByWallet wallet))) with
    | none => .fail (.forbidden "No Project profile for this user")
    | some data =>
      if data.id = "" then .fail (.forbidden "No Project profile for this user")
      else return ⟨data.id, data.accountType⟩

/-- `requireCallerProfileId(userId)`. -/
def requireCallerProfileId (userId : String) : ConnectProgram String := do
  let profile ← resolveCallerProfile userId
  return profile.id

/-- `requireProjectProfileId(userId)`. -/
def requireProjectProfileId (userId : String) : ConnectProgram String := do
  let profile ← resolveCallerProfile userId
  if profile.accountType ≠ some .enterprise then
    .fail (.forbidden "Only a Project can manage opportunities")
  else return profile.id

/-- `load(id)`. -/
def load (id : String) : ConnectProgram Opportunity := do
  match ← ask (ConnectCall.findOpportunity id) with
  | .error e => .fail (.badRequest e.message)
  | .ok none => .fail (.notFound "Opportunity not found")
  | .ok (some opportunity) => return opportunity

/-- The Project of the user owns the opportunity, or the request ends with the refusal. -/
def assertOwner (userId id refusal : String) : ConnectProgram Opportunity := do
  let opportunity ← load id
  let projectId ← requireProjectProfileId userId
  if opportunity.projectId ≠ projectId then .fail (.forbidden refusal)
  else return opportunity

/-- `requireOwner(userId, id)`. -/
def requireOwner (userId id : String) : ConnectProgram Opportunity :=
  assertOwner userId id "Only the owning Project can modify this opportunity"

/-! ## Operations -/

/-- The row that `create` inserts. -/
def CreateOpportunityDto.row (dto : CreateOpportunityDto) (projectId : String) : NewOpportunity where
  projectId
  title := dto.title
  description := dto.description
  skillsRequired := dto.skillsRequired
  budgetAmount := dto.budgetAmount
  budgetAsset := dto.budgetAsset.getD "USDC"
  engagementType := dto.engagementType

/-- `create(userId, dto)`. -/
def create (userId : String) (dto : CreateOpportunityDto) : ConnectProgram OpportunityResult := do
  let projectId ← requireProjectProfileId userId
  -- an empty `project_id` counts as none
  if (nonEmpty dto.projectId).any (· ≠ projectId) then
    .fail (.forbidden "project_id does not match the authenticated Project")
  else
    match ← ask (ConnectCall.insertOpportunity (dto.row projectId)) with
    | .error e => .fail (requestError "body" "OPPORTUNITY_CREATE_FAILED" e.message)
    | .ok data => return ⟨data, none⟩

/-- `listMine(userId)`. -/
def listMine (userId : String) : ConnectProgram OpportunityList := do
  let projectId ← requireProjectProfileId userId
  match ← ask (ConnectCall.listByProject projectId) with
  | .error e => .fail (requestError "query" "OPPORTUNITY_LIST_FAILED" e.message)
  | .ok data => return ⟨data, none⟩

/-- The bounds of the budget, in the wrong order. -/
def DiscoverOpportunitiesQueryDto.isInverted (query : DiscoverOpportunitiesQueryDto) : Bool :=
  match query.budgetMin, query.budgetMax with
  | some budgetMin, some budgetMax => Number.lt budgetMax budgetMin
  | _, _ => false

/-- `discover(query)`. -/
def discover (query : DiscoverOpportunitiesQueryDto) : ConnectProgram OpportunityPage := do
  let page := query.page.getD 1
  let limit := query.limit.getD 20
  if query.isInverted then
    .fail (requestError "budget_min" "VALIDATION_ERROR"
      "budget_min must be less than or equal to budget_max")
  else
    match ← ask (ConnectCall.discover
        { engagementType := query.engagementType
          skillsRequired := query.skillsRequired.getD []
          budgetMin := query.budgetMin
          budgetMax := query.budgetMax
          search := Profiles.sanitized query.q
          first := (page - 1) * limit
          limit }) with
    | .error e => .fail (requestError "query" "OPPORTUNITY_DISCOVER_FAILED" e.message)
    | .ok (opportunities, total) => return ⟨opportunities, page, limit, total, none⟩

/-- `getById(userId, id)`. -/
def getById (userId id : String) : ConnectProgram OpportunityResult := do
  let opportunity ← load id
  if opportunity.status = .opened then return ⟨opportunity, none⟩
  else
    let projectId ← requireCallerProfileId userId
    -- to others a closed opportunity does not exist
    if opportunity.projectId ≠ projectId then .fail (.notFound "Opportunity not found")
    else return ⟨opportunity, none⟩

/-- The status of the request is one the opportunity may move to, or there is none. -/
def UpdateOpportunityDto.allowsStatus (dto : UpdateOpportunityDto) (source : OpportunityStatus) :
    Bool :=
  match dto.status with
  | none => true
  | some none => false
  | some (some target) => isAllowedStatusTransition source target

/-- The error of a status the opportunity may not move to. -/
def invalidTransition (source : OpportunityStatus) (target : Option OpportunityStatus) :
    HttpException :=
  requestError "status" "INVALID_STATUS_TRANSITION" ("Cannot transition from " ++ source.text ++
    " to " ++ target.elim "null" OpportunityStatus.text ++ ". Allowed: open → closed, open → filled.")

/-- `hasFieldUpdates`. -/
def UpdateOpportunityDto.hasFieldUpdates (dto : UpdateOpportunityDto) : Bool :=
  dto.title.isSome || dto.description.isSome || dto.skillsRequired.isSome ||
    dto.budgetAmount.isSome || dto.budgetAsset.isSome || dto.engagementType.isSome

/-- The `patch` of `update`. -/
def UpdateOpportunityDto.patch (dto : UpdateOpportunityDto) : OpportunityPatch where
  status := dto.status.join
  title := dto.title
  description := dto.description
  skillsRequired := dto.skillsRequired
  budgetAmount := dto.budgetAmount
  budgetAsset := dto.budgetAsset
  engagementType := dto.engagementType

/-- `update(userId, id, dto)`. -/
def update (userId id : String) (dto : UpdateOpportunityDto) : ConnectProgram OpportunityResult := do
  let existing ← requireOwner userId id
  if !dto.allowsStatus existing.status then
    .fail (invalidTransition existing.status dto.status.join)
  else if dto.hasFieldUpdates ∧ existing.status ≠ .opened then
    .fail (requestError "status" "OPPORTUNITY_NOT_EDITABLE"
      "Only open opportunities can have their fields edited")
  -- nothing to update: the row is answered as it was read
  else if !dto.hasFieldUpdates ∧ dto.status = none then return ⟨existing, none⟩
  else
    match ← ask (ConnectCall.updateOpportunity id dto.patch) with
    | .error e => .fail (requestError "body" "OPPORTUNITY_UPDATE_FAILED" e.message)
    | .ok data => return ⟨data, none⟩

/-- `remove(userId, id)`. -/
def remove (userId id : String) : ConnectProgram RemoveResult := do
  let _ ← requireOwner userId id
  match ← ask (ConnectCall.deleteOpportunity id) with
  | .error e => .fail (requestError "id" "OPPORTUNITY_DELETE_FAILED" e.message)
  | .ok () => return ⟨true, none⟩

/-! ## What only reads -/

/-- A program that leaves both tables alone. -/
abbrev ReadsOnly {α : Type} (p : ConnectProgram α) : Prop :=
  Calls.Only (fun c : ConnectCall => c.isRead = true) p

theorem resolveCallerProfile_reads (userId : String) :
    ReadsOnly (resolveCallerProfile userId) := by
  refine ⟨rfl, fun user _ => ?_⟩
  change ReadsOnly ((Calls.done _ : ConnectProgram (Option String)) >>= _)
  rw [Calls.done_bind]
  split
  · exact Calls.only_fail _
  · refine Calls.only_ask rfl fun found => ?_
    split
    · exact Calls.only_fail _
    · split
      · exact Calls.only_fail _
      · exact Calls.only_done _

theorem requireCallerProfileId_reads (userId : String) : ReadsOnly (requireCallerProfileId userId) := by
  apply (resolveCallerProfile_reads userId).bind
  exact fun _ => Calls.only_done _

theorem requireProjectProfileId_reads (userId : String) :
    ReadsOnly (requireProjectProfileId userId) := by
  apply (resolveCallerProfile_reads userId).bind
  intro profile
  split
  · exact Calls.only_fail _
  · exact Calls.only_done _

theorem load_reads (id : String) : ReadsOnly (load id) := by
  refine Calls.only_ask rfl fun found => ?_
  rcases found with e | _ | o
  · exact Calls.only_fail _
  · exact Calls.only_fail _
  · exact Calls.only_done _

theorem assertOwner_reads (userId id refusal : String) : ReadsOnly (assertOwner userId id refusal) := by
  apply (load_reads id).bind
  intro opportunity
  apply (requireProjectProfileId_reads userId).bind
  intro projectId
  split
  · exact Calls.only_fail _
  · exact Calls.only_done _

theorem listMine_reads (userId : String) : ReadsOnly (listMine userId) := by
  apply (requireProjectProfileId_reads userId).bind
  intro projectId
  refine Calls.only_ask rfl fun rows => ?_
  cases rows with
  | error e => exact Calls.only_fail _
  | ok data => exact Calls.only_done _

theorem discover_reads (query : DiscoverOpportunitiesQueryDto) :
    ReadsOnly (discover query) := by
  rw [discover]
  split
  · exact Calls.only_fail _
  · refine Calls.only_ask rfl fun rows => ?_
    rcases rows with e | ⟨rows, total⟩
    · exact Calls.only_fail _
    · exact Calls.only_done _

theorem getById_reads (userId id : String) : ReadsOnly (getById userId id) := by
  apply (load_reads id).bind
  intro opportunity
  split
  · exact Calls.only_done _
  · apply (requireCallerProfileId_reads userId).bind
    intro projectId
    split
    · exact Calls.only_fail _
    · exact Calls.only_done _

end ThalosBackend.Opportunities
