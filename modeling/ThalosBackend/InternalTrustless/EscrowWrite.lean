import ThalosBackend.InternalTrustless.EscrowRead
import ThalosBackend.Js.Date

/-!
# Building escrow writes

`internal-trustless/dto/escrow-write.dto.ts` and the request builders of
`internal-trustless/escrow-write.helper.ts`. The DTOs have the fields the request validation lets
through, in the types it promises; a body is the value that is sent, so a field that is `undefined`
is not in it and a number that is not finite is `null`.
-/

set_option autoImplicit false

namespace ThalosBackend.InternalTrustless

open Js (Number Value Timestamp)
open Disputes (Distribution PercentageAllocation)

/-- A field under `@IsOptional() @IsString()`. -/
inductive OptionalText where
  | undefined
  | null
  | text (s : String)
  deriving DecidableEq

def OptionalText.value : OptionalText → Value
  | .undefined => .undefined
  | .null => .null
  | .text s => .string s

/-- `Number(field)`. -/
def OptionalText.toNumber : OptionalText → Number
  | .undefined => .nan
  | .null => 0
  | .text s => Number.stringToNumber s

/-- `${field ?? other}`. -/
def OptionalText.orElse (t : OptionalText) (other : String) : String :=
  match t with
  | .text s => s
  | _ => other

/-- A number as it is sent. -/
def sentNumber (x : Number) : Value := if x.isFinite then .number x else .null

/-! ## The DTOs -/

structure CreateEscrowRolesDto where
  approver : String
  serviceProvider : String
  releaseSigner : String
  receiver : OptionalText

structure CreateEscrowMilestoneDto where
  description : String
  amount : OptionalText
  status : OptionalText

structure CreateEscrowDto where
  title : String
  description : String
  amount : String
  platformFee : String
  signer : String
  serviceType : ServiceType
  roles : CreateEscrowRolesDto
  milestones : List CreateEscrowMilestoneDto

/-- The amount passes `@IsNumber()`, so it is finite. -/
structure FundEscrowDto where
  contractId : String
  signer : String
  amount : ℚ
  type : ServiceType
  deriving DecidableEq

structure ApproveMilestoneDto where
  contractId : String
  milestoneIndex : String
  approver : String
  type : ServiceType
  deriving DecidableEq

/-- The values `@IsIn` admits for a milestone status. -/
def changeableStatuses : List String := ["pending", "approved", "released", "rejected", "completed"]

structure ChangeMilestoneStatusDto where
  contractId : String
  milestoneIndex : String
  newEvidence : String
  newStatus : String
  serviceProvider : String
  type : ServiceType
  known : newStatus ∈ changeableStatuses
  deriving DecidableEq

structure ReleaseFundsDto where
  contractId : String
  releaseSigner : String
  type : ServiceType
  milestoneIndex : OptionalText
  deriving DecidableEq

/-- The index is validated on multi-release only: there it is a text, on single-release it can be
any value. -/
structure ResolveDisputeDto where
  contractId : String
  type : ServiceType
  milestoneIndex : Value
  disputeResolver : String
  allocations : List PercentageAllocation
  indexed : type = .multiRelease → ∃ index, milestoneIndex = .string index

/-! ## What a create request takes from the environment -/

/-- The environment variables the bodies depend on. -/
structure EscrowEnv where
  platformAddress : Option String := none
  disputeResolver : Option String := none
  trustlineUsdcAddress : Option String := none
  stellarNetwork : Option String := none

def defaultPlatformAddress : String := "GBMJTAVJFAKMKLXYXGXACBFGIFS62A7DT46PFHQ3W4RG7CG4HVESSNRY"
def defaultDisputeResolver : String := "GB6MP3L6UGIDY6O6MXNLSKHLXT2T2TCMPZIZGUTOGYKOLHW7EORWMFCK"
def usdcIssuerTestnet : String := "GBBD47IF6LWK7P7MDEVSCWR7DPUWV3NY3DTQEVFL4NAT4AQH3ZLLFLA5"
def usdcIssuerMainnet : String := "GA5ZSEJYB37JRC5AVCIA5MOP4RHTM335X2KGX3IHOJAPP5RE34K4KZVN"

/-- `setting || fallback`: an empty variable counts as absent. -/
def envOr (setting : Option String) (fallback : String) : String :=
  match setting with
  | some s => if s = "" then fallback else s
  | none => fallback

def getPlatformAddress (env : EscrowEnv) : String :=
  envOr env.platformAddress defaultPlatformAddress

def getDisputeResolver (env : EscrowEnv) : String :=
  envOr env.disputeResolver defaultDisputeResolver

def isMainnet (env : EscrowEnv) : Bool :=
  let n := (envOr env.stellarNetwork "testnet").toLower
  n = "mainnet" || n = "public"

/-- The address of the trustline; its symbol is always `USDC`. -/
def getTrustlineAddress (env : EscrowEnv) : String :=
  envOr env.trustlineUsdcAddress (if isMainnet env then usdcIssuerMainnet else usdcIssuerTestnet)

/-! ## The requests -/

structure RelayRequest where
  path : String
  body : Value
  deriving DecidableEq

def releaseKind : ServiceType → String
  | .multiRelease => "MULTIRELEASE"
  | .singleRelease => "SINGLERELEASE"

/-- The engagement id of an escrow created at this time. -/
def generateEngagementId (type : ServiceType) (now : Timestamp) : String :=
  "THALOS-v2-" ++ releaseKind type ++ "-" ++ Js.base36Text now

def buildRoles (env : EscrowEnv) (serviceType : ServiceType) (roles : CreateEscrowRolesDto) :
    Value :=
  .record ([("approver", .string roles.approver),
    ("serviceProvider", .string roles.serviceProvider),
    ("platformAddress", .string (getPlatformAddress env)),
    ("releaseSigner", .string roles.releaseSigner),
    ("disputeResolver", .string (getDisputeResolver env))] ++
    if serviceType = .singleRelease then [("receiver", roles.receiver.value)] else [])

/-- The fields of a create body that do not depend on the escrow type. -/
def agreementBase (env : EscrowEnv) (now : Timestamp) (dto : CreateEscrowDto) :
    List (String × Value) :=
  [("signer", .string dto.signer),
    ("engagementId", .string (generateEngagementId dto.serviceType now)),
    ("title", .string dto.title),
    ("description", .string dto.description),
    ("roles", buildRoles env dto.serviceType dto.roles),
    ("platformFee", sentNumber (Number.stringToNumber dto.platformFee)),
    ("trustline", .record [("symbol", .string "USDC"),
      ("address", .string (getTrustlineAddress env))])]

/-- A milestone of a multi-release body: its receiver is the signer. -/
def multiMilestone (signer : String) (m : CreateEscrowMilestoneDto) : Value :=
  .record [("description", .string m.description), ("amount", sentNumber m.amount.toNumber),
    ("status", m.status.value), ("receiver", .string signer)]

/-- A milestone of a single-release body. -/
def singleMilestone (m : CreateEscrowMilestoneDto) : Value :=
  .record [("description", .string m.description)]

def buildAgreementBody (env : EscrowEnv) (now : Timestamp) (dto : CreateEscrowDto) : Value :=
  match dto.serviceType with
  | .multiRelease => .record (agreementBase env now dto ++
      [("milestones", .array (dto.milestones.map (multiMilestone dto.signer)))])
  | .singleRelease => .record (agreementBase env now dto ++
      [("amount", sentNumber (Number.stringToNumber dto.amount)),
        ("milestones", .array (dto.milestones.map singleMilestone))])

def buildCreateEscrowRequest (env : EscrowEnv) (now : Timestamp) (dto : CreateEscrowDto) :
    RelayRequest where
  path := match dto.serviceType with
    | .multiRelease => "deployer/multi-release"
    | .singleRelease => "deployer/single-release"
  body := buildAgreementBody env now dto

def buildFundEscrowRequest (dto : FundEscrowDto) : RelayRequest where
  path := "escrow/" ++ dto.type.text ++ "/fund-escrow"
  body := .record [("contractId", .string dto.contractId), ("signer", .string dto.signer),
    ("amount", .number (.finite dto.amount))]

def buildApproveMilestoneRequest (dto : ApproveMilestoneDto) : RelayRequest where
  path := "escrow/" ++ dto.type.text ++ "/approve-milestone"
  body := .record [("contractId", .string dto.contractId),
    ("milestoneIndex", .string dto.milestoneIndex), ("approver", .string dto.approver)]

def buildChangeMilestoneStatusRequest (dto : ChangeMilestoneStatusDto) : RelayRequest where
  path := "escrow/" ++ dto.type.text ++ "/change-milestone-status"
  body := .record [("contractId", .string dto.contractId),
    ("milestoneIndex", .string dto.milestoneIndex), ("newEvidence", .string dto.newEvidence),
    ("newStatus", .string dto.newStatus), ("serviceProvider", .string dto.serviceProvider)]

def buildReleaseFundsRequest (dto : ReleaseFundsDto) : RelayRequest where
  path := match dto.type with
    | .singleRelease => "escrow/" ++ dto.type.text ++ "/release-funds"
    | .multiRelease => "escrow/" ++ dto.type.text ++ "/release-milestone-funds"
  body := .record [("contractId", .string dto.contractId),
    ("releaseSigner", .string dto.releaseSigner), ("milestoneIndex", dto.milestoneIndex.value)]

/-- A distribution as it is sent. -/
def distributionValue (d : Distribution) : Value :=
  .record [("address", .string d.address), ("amount", sentNumber d.amount)]

def buildResolveDisputeRequest (dto : ResolveDisputeDto) (distributions : List Distribution) :
    RelayRequest :=
  match dto.type with
  | .singleRelease =>
      { path := "escrow/single-release/resolve-dispute"
        body := .record [("contractId", .string dto.contractId),
          ("disputeResolver", .string dto.disputeResolver),
          ("distributions", .array (distributions.map distributionValue))] }
  | .multiRelease =>
      { path := "escrow/multi-release/resolve-milestone-dispute"
        body := .record [("contractId", .string dto.contractId),
          ("milestoneIndex", dto.milestoneIndex),
          ("disputeResolver", .string dto.disputeResolver),
          ("distributions", .array (distributions.map distributionValue))] }

end ThalosBackend.InternalTrustless
