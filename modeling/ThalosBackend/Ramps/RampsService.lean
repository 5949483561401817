import ThalosBackend.InternalTrustless.EscrowWrite
import ThalosBackend.Ramps.LendaraClient

/-!
# The ramps service

`ramps/ramps.service.ts`: a session with Lendara that buys USDC for an agreement, and the check that its
deposit has arrived. Sessions are recorded nowhere. The wallet a deposit must go to is derived from the
caller and the agreement, once for the session and again for the check.
-/

set_option autoImplicit false

namespace ThalosBackend.Ramps

open Agreements (AgreementCall Participant)
open Calls (ask)
open InternalTrustless (EscrowEnv getTrustlineAddress)
open Js (nonEmpty)
open Wallets (Reply)

/-! ## The destination -/

/-- `participants ?? []`. An error is not looked at. -/
def participantRows : Reply (List Participant) → List Participant
  | .ok rows => rows
  | .error _ => []

/-- The payer's wallet, if it is one of the caller's, and the caller's first if no payer is named. -/
def fundingWallet (wallets : List String) (primary : String) (participants : List Participant) :
    Except HttpException String :=
  match nonEmpty ((participants.find? fun p => p.role = "payer").map Participant.walletAddress) with
  | some candidate =>
    if candidate ∈ wallets then .ok candidate
    else .error (.forbidden "Only the wallet funding this agreement can buy USDC for it")
  | none => .ok primary

/-- `destinationWalletFor(userId, agreementId)`. -/
def destinationWalletFor (userId agreementId : String) : RampsProgram String := do
  match Reply.data (← ask (RampsCall.agreement (.findAgreement agreementId))) with
  | none => .fail (.notFound "Agreement not found")
  | some agreement =>
    if ← ofAgreements (Agreements.userCanAccessAgreement userId agreementId agreement.createdBy) then
      match ← ofAgreements (Agreements.resolveUserWallets userId) with
      | [] => .fail (.badRequest "This account has no wallet to receive the funds")
      | primary :: others =>
        let participants ← ask (RampsCall.agreement (.listParticipants agreementId))
        .ofExcept (fundingWallet (primary :: others) primary (participantRows participants))
    else .fail (.forbidden "Not a participant of this agreement")

/-! ## Sessions -/

/-- The parameters of `createSession`. -/
structure CreateSessionParams where
  agreementId : String
  fiatCurrency : String
  amount : String
  deriving DecidableEq

/-- What `createSession` returns. -/
structure CreatedSession where
  id : String
  url : String
  expiresAt : Option String
  account : String
  deriving DecidableEq

/-- What `createSession` does with the session of Lendara. -/
def usableSession (account : String) (session : Option LendaraSession) :
    Except HttpException CreatedSession :=
  match session.bind fun s => nonEmpty s.url, session.bind fun s => nonEmpty s.id with
  | some url, some id => .ok ⟨id, url, session.bind LendaraSession.expiresAt, account⟩
  | _, _ => .error (.badRequest "Lendara did not return a usable session")

/-- `createSession(userId, params)`. -/
def createSession (userId : String) (params : CreateSessionParams) : RampsProgram CreatedSession := do
  let account ← destinationWalletFor userId params.agreementId
  match ← ask (RampsCall.createSession ⟨account, params.fiatCurrency, params.amount⟩) with
  | .error e => .fail e
  | .ok session => .ofExcept (usableSession account session)

/-! ## Deposits -/

/-- The parameters of `verify`. -/
structure VerifyParams where
  agreementId : String
  sessionId : String
  deriving DecidableEq

/-- What `verify` returns. -/
structure VerifyResult where
  verified : Bool
  reason : Option String
  stellarTransactionId : Option String
  usableForEscrow : Option Bool
  deriving DecidableEq

def VerifyResult.unverified (reason : String) : VerifyResult := ⟨false, some reason, none, none⟩

/-- The states of a deposit that has arrived. -/
def finishedStatuses : List String := ["completed", "complete", "success", "succeeded"]

/-- `matchesEscrowAsset(tx)`. -/
def matchesEscrowAsset (toUpperCase : String → String) (env : EscrowEnv) (tx : LendaraTransaction) :
    Bool :=
  match nonEmpty (issuerOf tx.amountOutAsset <|> tx.assetIssuer) with
  | some issuer => toUpperCase issuer = toUpperCase (getTrustlineAddress env)
  | none => false

/-- What `verify` reports of a transaction. -/
def verdict (toUpperCase : String → String) (env : EscrowEnv) (expectedAccount : String)
    (tx : LendaraTransaction) : VerifyResult :=
  if (tx.status.getD "").toLower ∉ finishedStatuses then
    .unverified ("The deposit is " ++ tx.status.getD "not finished")
  else match nonEmpty tx.paidTo with
    | none => .unverified "Lendara did not report a destination account"
    | some destination =>
      if toUpperCase destination ≠ toUpperCase expectedAccount then
        .unverified "The deposit went to a different wallet"
      else match nonEmpty tx.stellarTransactionId with
        | none => .unverified "Lendara did not report a Stellar transaction"
        | some id => ⟨true, none, some id, some (matchesEscrowAsset toUpperCase env tx)⟩

/-- `verify(userId, params)`. -/
def verify (toUpperCase : String → String) (env : EscrowEnv) (userId : String) (params : VerifyParams) :
    RampsProgram VerifyResult := do
  let expectedAccount ← destinationWalletFor userId params.agreementId
  match ← ask (RampsCall.getTransaction params.sessionId) with
  | .error e => .fail e
  -- a read of `tx.status` throws
  | .ok none => .fail .internal
  | .ok (some tx) => return verdict toUpperCase env expectedAccount tx

/-- A deposit is reported as verified if it is finished, has an id, and went to the expected wallet. -/
theorem verdict_verified {toUpperCase : String → String} {env : EscrowEnv} {expectedAccount : String}
    {tx : LendaraTransaction}
    (h : (verdict toUpperCase env expectedAccount tx).verified = true) :
    (tx.status.getD "").toLower ∈ finishedStatuses ∧
      (∃ account, tx.paidTo = some account ∧ toUpperCase account = toUpperCase expectedAccount) ∧
      ∃ id, tx.stellarTransactionId = some id ∧
        (verdict toUpperCase env expectedAccount tx).stellarTransactionId = some id := by
  unfold verdict at h ⊢
  split at h
  · cases h
  · rename_i hstatus
    split at h
    · cases h
    · rename_i destination hdestination
      split at h
      · cases h
      · rename_i haccount
        split at h
        · cases h
        · rename_i id hid
          refine ⟨not_not.mp hstatus, ⟨destination, ?_, not_not.mp haccount⟩, id, ?_, ?_⟩
          · exact (Js.nonEmpty_eq_some.mp hdestination).1
          · exact (Js.nonEmpty_eq_some.mp hid).1
          · rw [if_neg hstatus]
            simp only [if_neg haccount]

end ThalosBackend.Ramps
