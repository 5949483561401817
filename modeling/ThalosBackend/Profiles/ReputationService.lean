import ThalosBackend.Agreements.AgreementDb

/-!
# The reputation service

`profiles/reputation.service.ts`: what is shown about a builder, computed from the agreements that a
wallet takes part in. A milestone counts as released when its status says so.
-/

set_option autoImplicit false

namespace ThalosBackend.Profiles

open Js (FloatArithmetic Number)
open Agreements

/-- What the service reads of a row of `profiles`. -/
structure Profile where
  walletAddress : String
  handle : Option String
  showEarnings : Bool
  deriving DecidableEq

/-- `ReputationPayload`. Nothing sets `github_verified` yet. -/
structure ReputationPayload where
  handle : Option String
  completedAgreementsCount : ℕ
  releasedMilestonesCount : ℕ
  totalReleasedUsdc : Option Number
  githubVerified : Option Bool
  prBackedMilestoneCount : ℕ
  deriving DecidableEq

/-- `fetchBuilderAgreements(walletAddress)`, when both queries are answered. -/
def fetchBuilderAgreements (db : AgreementDb) (walletAddress : String) : List Agreement :=
  let agreementIds := (db.participants.filter fun p => p.walletAddress = walletAddress).map
    Participant.agreementId
  db.agreements.filter fun a => a.id ∈ agreementIds

/-- `total_released_usdc` after one more released amount. -/
def addReleased (F : FloatArithmetic) (total : Number) (amount : String) : Number :=
  let parsed := F.parseFloat amount
  if parsed = .nan then total else F.add total parsed

/-- The milestones of the agreements, in the order they are counted. -/
def countedMilestones (agreements : List Agreement) : List Milestone :=
  agreements.flatMap Agreement.milestones

/-- `computeReputation(agreements, profile, { includeEarnings })`. -/
def computeReputation (F : FloatArithmetic) (agreements : List Agreement) (profile : Profile)
    (includeEarnings : Bool) : ReputationPayload :=
  let released := (countedMilestones agreements).filter fun m => m.status = .released
  { handle := profile.handle
    completedAgreementsCount := agreements.countP fun a => a.status = some "completed"
    releasedMilestonesCount := released.length
    totalReleasedUsdc :=
      if includeEarnings then some ((released.map Milestone.amount).foldl (addReleased F) 0)
      else none
    githubVerified := none
    prBackedMilestoneCount := (countedMilestones agreements).countP fun m =>
      m.evidenceUrls.any (· ≠ []) }

/-- `getPublicReputation(handle)`, of the profile found. -/
def getPublicReputation (F : FloatArithmetic) (db : AgreementDb) (profile : Profile) :
    ReputationPayload :=
  computeReputation F (fetchBuilderAgreements db profile.walletAddress) profile profile.showEarnings

/-- `getMyReputation(userId)`, of the profile found. -/
def getMyReputation (F : FloatArithmetic) (db : AgreementDb) (profile : Profile) :
    ReputationPayload :=
  computeReputation F (fetchBuilderAgreements db profile.walletAddress) profile true

end ThalosBackend.Profiles
