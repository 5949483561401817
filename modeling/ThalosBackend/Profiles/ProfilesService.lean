import ThalosBackend.Profiles.ProfilesDb

/-!
# The profile service

`profiles/profiles.service.ts`. A user is found by `auth_users.wallet_public_key`, and the profile by
that wallet. An answer whose error the source does not look at is used through its data.
-/

set_option autoImplicit false

namespace ThalosBackend.Profiles

open Js (Timestamp nonEmpty)
open Calls (ask)
open Wallets (Reply WalletCall)

/-- A program of the profile service. -/
abbrev ProfileProgram := Calls HttpException ProfileCall ProfileCall.reply

/-! ## Requests -/

/-- `GetOrCreateProfileDto`. -/
structure GetOrCreateProfileDto where
  walletAddress : String
  accountType : Option AccountType
  deriving DecidableEq

/-- `SetUserRoleDto`. -/
structure SetUserRoleDto where
  walletAddress : String
  role : ProfileRole
  deriving DecidableEq

/-- `DiscoverProfilesDto`, whose numbers are 1 or more. -/
structure DiscoverProfilesDto where
  skills : Option String := none
  techStack : Option String := none
  availability : Option Availability := none
  q : Option String := none
  page : Option ℕ := none
  limit : Option ℕ := none
  deriving DecidableEq

/-- `{ profile, error }`. -/
structure ProfileResult where
  profile : Option ProfileRow
  error : Option String
  deriving DecidableEq

/-- `{ profile, error }` with the public columns. -/
structure PublicProfileResult where
  profile : Option PublicProfile
  error : Option String
  deriving DecidableEq

/-- `{ profiles, error }`. -/
structure ProfileList where
  profiles : List ProfileRow
  error : Option String
  deriving DecidableEq

/-- `{ profiles, page, limit, total, error }`. -/
structure DirectoryPage where
  profiles : List PublicProfile
  page : ℕ
  limit : ℕ
  total : ℕ
  error : Option String
  deriving DecidableEq

/-- `{ success, error }`. -/
structure RoleResult where
  success : Bool
  error : Option String
  deriving DecidableEq

/-! ## The user's wallet -/

/-- `walletForUserId(userId)`. -/
def walletForUserId (userId : String) : ProfileProgram (Option String) := do
  let user ← ask (ProfileCall.wallet (.readAuthUser userId))
  return nonEmpty ((Reply.data user).bind Wallets.AuthUser.walletPublicKey)

/-- `assertActorWallet(userId, actorWallet)`. -/
def assertActorWallet (userId actorWallet : String) : ProfileProgram Unit := do
  let w ← walletForUserId userId
  if w ≠ some actorWallet then .fail (.forbidden "Wallet does not match authenticated user")
  else return ()

/-! ## The own profile -/

/-- The row that `getOrCreate` inserts. -/
def GetOrCreateProfileDto.row (dto : GetOrCreateProfileDto) : NewProfile where
  walletAddress := dto.walletAddress
  accountType := dto.accountType.getD .personal
  role := .user

/-- The part of `getOrCreate` that creates the profile. -/
def createProfile (dto : GetOrCreateProfileDto) : ProfileProgram ProfileResult := do
  match ← ask (ProfileCall.insertProfile dto.row) with
  | .error insertError => return ⟨none, some insertError.message⟩
  | .ok newProfile => return ⟨some newProfile, none⟩

/-- `getOrCreate(userId, dto)`. -/
def getOrCreate (userId : String) (dto : GetOrCreateProfileDto) : ProfileProgram ProfileResult := do
  assertActorWallet userId dto.walletAddress
  match ← ask (ProfileCall.findByWallet dto.walletAddress) with
  | .ok (some existingProfile) => return ⟨some existingProfile, none⟩
  | .ok none => createProfile dto
  | .error fetchError =>
    -- no row is not a failure: the profile is created
    if fetchError.code ≠ "PGRST116" then return ⟨none, some fetchError.message⟩
    else createProfile dto

/-- `applyUpdate({ wallet_address }, dto)`. -/
def applyUpdate (now : Timestamp) (walletAddress : String) (dto : UpdateProfileDto) :
    ProfileProgram ProfileResult := do
  match ← ask (ProfileCall.updateProfile walletAddress now dto) with
  | .error e =>
    -- of what is updated only the handle has a unique index
    if e.code = "23505" then .fail (.conflict "handle is already taken")
    else return ⟨none, some e.message⟩
  | .ok data => return ⟨some data, none⟩

/-- `update(userId, walletAddress, dto)`. -/
def update (now : Timestamp) (userId walletAddress : String) (dto : UpdateProfileDto) :
    ProfileProgram ProfileResult := do
  assertActorWallet userId walletAddress
  applyUpdate now walletAddress dto

/-- `updateForUser(userId, dto)`. -/
def updateForUser (now : Timestamp) (userId : String) (dto : UpdateProfileDto) :
    ProfileProgram ProfileResult := do
  match ← walletForUserId userId with
  | none => .fail (.notFound "No wallet found for authenticated user")
  | some wallet => applyUpdate now wallet dto

/-! ## Roles -/

/-- `setUserRole(userId, dto)`. -/
def setUserRole (now : Timestamp) (userId : String) (dto : SetUserRoleDto) :
    ProfileProgram RoleResult := do
  match ← walletForUserId userId with
  | none => .fail (.forbidden "No wallet on profile")
  | some currentWallet =>
    let currentProfile := Reply.data (← ask (ProfileCall.findByWallet currentWallet))
    if currentProfile.map ProfileRow.role ≠ some .admin then
      .fail (.forbidden "Only admins can change user roles")
    else
      match ← ask (ProfileCall.setRole dto.walletAddress now dto.role) with
      | .error e => return ⟨false, some e.message⟩
      | .ok () => return ⟨true, none⟩

/-! ## Profiles to look at -/

/-- `{ profile, error }` of a search that may find nothing. -/
def ProfileResult.ofReply : Reply (Option ProfileRow) → ProfileResult
  | .ok data => ⟨data, none⟩
  | .error e => if e.code ≠ "PGRST116" then ⟨none, some e.message⟩ else ⟨none, none⟩

/-- `getByWallet(walletAddress)`. -/
def getByWallet (walletAddress : String) : ProfileProgram ProfileResult := do
  let reply ← ask (ProfileCall.findByWallet walletAddress)
  return .ofReply reply

/-- `getById(id)`. -/
def getById (id : String) : ProfileProgram ProfileResult := do
  match ProfileResult.ofReply (← ask (ProfileCall.findById id)) with
  | ⟨none, none⟩ => .fail (.notFound "Profile not found")
  | result => return result

/-- `getMe(userId)`. -/
def getMe (userId : String) : ProfileProgram ProfileResult := do
  match ← walletForUserId userId with
  | none => .fail (.notFound "No wallet found for authenticated user")
  | some wallet => getByWallet wallet

/-- `getByHandle(handle)`. -/
def getByHandle (handle : String) : ProfileProgram PublicProfileResult := do
  match ← ask (ProfileCall.findByHandle handle) with
  | .error e =>
    if e.code ≠ "PGRST116" then return ⟨none, some e.message⟩
    else .fail (.notFound "Profile not found")
  | .ok none => .fail (.notFound "Profile not found")
  | .ok (some data) => return ⟨some data, none⟩

/-- `parseList(value)`. -/
def parseList (value : Option String) : List String :=
  match nonEmpty value with
  | none => []
  | some text =>
    ((text.toList.splitOn ',').map fun v => Js.trim (String.ofList v)).filter (· ≠ "")

/-- `dto.q.replace(/[%_,]/g, '').trim()`, unless it is empty. -/
def sanitized (q : Option String) : Option String :=
  (nonEmpty q).bind fun text => nonEmpty (some (Js.trim (String.ofList
    (text.toList.filter fun c => c ≠ '%' ∧ c ≠ '_' ∧ c ≠ ','))))

/-- `discover(dto)`. -/
def discover (dto : DiscoverProfilesDto) : ProfileProgram DirectoryPage := do
  let page := dto.page.getD 1
  let limit := dto.limit.getD 12
  match ← ask (ProfileCall.discover
      { skills := parseList dto.skills
        techStack := parseList dto.techStack
        availability := dto.availability
        search := sanitized dto.q
        first := (page - 1) * limit
        limit }) with
  | .error e => return ⟨[], page, limit, 0, some e.message⟩
  | .ok (profiles, total) => return ⟨profiles, page, limit, total, none⟩

/-- `getByRole(role)`. -/
def getByRole (role : ProfileRole) : ProfileProgram ProfileList := do
  match ← ask (ProfileCall.listByRole role) with
  | .error e => return ⟨[], some e.message⟩
  | .ok data => return ⟨data, none⟩

/-- `getDisputeResolvers()`. -/
def getDisputeResolvers : ProfileProgram ProfileList := getByRole .disputeResolver

/-- `getValidators()`. -/
def getValidators : ProfileProgram ProfileList := getByRole .validator

end ThalosBackend.Profiles
