import ThalosBackend.Wallets.StellarVerification
import ThalosBackend.Wallets.UserWallets

/-!
# The wallet service

`wallets/wallets.service.ts` and `common/wallets/resolve-user-wallets.ts`. An operation is a program
over the queries of the wallet tables, so that what other requests do between two of its queries is
not left out. The clock is read once per request, and the columns hold times where the source writes
them as text.

`linkWallet` has one branch for each kind of wallet; `linkIdentity` is that choice, and says what the
new row will record about the login. The checks of a signed request are the same in `linkWallet` and
`verifyWallet`: `checkSignedChallenge`.
-/

set_option autoImplicit false

namespace ThalosBackend.Wallets

open Js (Value Timestamp nonEmpty isoText ofTimestamp timeClip)

/-- A program of the wallet module. -/
abbrev WalletProgram := Calls HttpException WalletCall WalletCall.reply

open Calls (ask)

/-- Libraries and configuration. -/
structure WalletEnv where
  platform : Platform
  /-- `JWT_SECRET`. -/
  jwtSecret : Option String

/-! ## Requests -/

/-- `LinkWalletDto`. -/
structure LinkWalletDto where
  walletAddress : String
  walletType : WalletType
  label : Option String
  signedMessage : Option String
  signature : Option String
  authProvider : Option AuthProvider
  pollarUserId : Option String
  cAddress : Option String
  deriving DecidableEq

/-- `/^C[A-Z2-7]{55}$/` -/
def isContractAddress (s : String) : Bool :=
  match s.toList with
  | 'C' :: rest => rest.length = 55 && rest.all fun c =>
      ('A' ≤ c && c ≤ 'Z') || ('2' ≤ c && c ≤ '7')
  | _ => false

/-- What the decorators of `LinkWalletDto` check beyond the types: `c_address` is there for an
Accesly wallet, and a contract address when it is there. -/
def LinkWalletDto.Valid (dto : LinkWalletDto) : Prop :=
  (dto.walletType = .accesly → dto.cAddress.isSome) ∧ ∀ c ∈ dto.cAddress, isContractAddress c

instance (dto : LinkWalletDto) : Decidable dto.Valid :=
  inferInstanceAs (Decidable (_ ∧ ∀ c ∈ dto.cAddress, _))

/-- `UpdateWalletDto`; a field that is not there is `none`, and `null` is `some none`. -/
structure UpdateWalletDto where
  label : Option (Option String)
  isPrimary : Option (Option Bool)
  deriving DecidableEq

/-- `VerifyWalletDto`. -/
structure VerifyWalletDto where
  walletAddress : String
  signedMessage : String
  signature : String
  deriving DecidableEq

/-- `{ wallet, error }`. -/
structure WalletResult where
  wallet : Option UserWallet
  error : Option String
  deriving DecidableEq

/-- The result of an update that asks for its row back. -/
def WalletResult.ofReply : Reply UserWallet → WalletResult
  | .ok wallet => ⟨some wallet, none⟩
  | .error e => ⟨none, some e.message⟩

/-- `{ success, error }`. -/
structure UnlinkResult where
  success : Bool
  error : Option String
  deriving DecidableEq

/-! ## Proofs of ownership -/

/-- `readVerifiedIdentity` and the checks of `assertPollarOwnership`. -/
def assertPollarOwnership (userId walletAddress claimedPollarUserId : String) :
    WalletProgram Unit := do
  match ← ask (WalletCall.readAuthUser userId) with
  | .error _ => .fail (.internalServerError "Could not read the authenticated identity")
  | .ok row =>
    if row.bind AuthUser.walletPublicKey ≠ some walletAddress then
      .fail (.forbidden "Pollar wallet does not match the authenticated user")
    else if nonEmpty (row.bind AuthUser.pollarUserId) ≠ some claimedPollarUserId then
      .fail (.forbidden "pollar_user_id does not match the authenticated user")
    else return ()

/-- The checks on a signed message in `linkWallet` and in `verifyWallet`. -/
def checkSignedChallenge (env : WalletEnv) (now : Timestamp)
    (userId walletAddress signedMessage signature : String) : Except HttpException Unit :=
  match nonEmpty env.jwtSecret with
  | none => .error (.internalServerError "Server misconfiguration")
  | some jwtSecret => do
    let payload ← parseAndVerifyChallenge env.platform now signedMessage jwtSecret
    if payload.field "sub" ≠ .string userId then
      .error (.forbidden "Challenge was not issued for this user")
    else if payload.field "addr" ≠ .string walletAddress then
      .error (.forbidden "Challenge was not issued for this wallet address")
    else verifyStellarSignature env.platform signedMessage signature walletAddress

/-! ## `generateVerificationChallenge` -/

/-- Five minutes. -/
def challengeTtl : ℤ := 5 * 60 * 1000

/-- The text of bytes in hexadecimal. -/
def toHex (bytes : List (Fin 256)) : String :=
  String.ofList (bytes.flatMap fun b => [Nat.digitChar (b.val / 16), Nat.digitChar (b.val % 16)])

/-- The payload of a challenge that expires at a time. -/
def challengePayload (userId address nonce : String) (expiresAt : Timestamp) : Value :=
  .object [("v", .number 1), ("sub", .string userId), ("addr", .string address),
    ("nonce", .string nonce), ("exp", .number (.finite (expiresAt / 1000 : ℤ)))]

structure VerificationChallenge where
  message : String
  expiresAt : String
  deriving DecidableEq

/-- The message of a challenge: the text to sign, and the Proof below it. -/
def challengeMessage (userId address nonce : String) (issuedAt expiresAt : Timestamp)
    (payloadB64 sig : String) : String :=
  "Stellar Signed Message:\n" ++
  (walletOwnershipPrefix ++ "\n") ++
  "\n" ++
  "I authorize linking this wallet to my Thalos account.\n" ++
  ("Account: " ++ userId ++ "\n") ++
  ("Wallet: " ++ address ++ "\n") ++
  ("Nonce: " ++ nonce ++ "\n") ++
  ("Issued At: " ++ isoText issuedAt ++ "\n") ++
  ("Expires At: " ++ isoText expiresAt ++ "\n") ++
  "\n" ++
  ("Proof: " ++ payloadB64 ++ "." ++ sig)

/-- `generateVerificationChallenge(userId, address)` at a time, with these random bytes. `encodeJson` is
`Buffer.from(JSON.stringify(value)).toString('base64url')`. -/
def generateVerificationChallenge (env : WalletEnv) (encodeJson : Value → String)
    (issuedAt : Timestamp) (random : List (Fin 256)) (userId address : String) :
    Except HttpException VerificationChallenge :=
  match nonEmpty env.jwtSecret with
  | none => .error (.internalServerError "Server misconfiguration")
  | some secret =>
    match timeClip (ofTimestamp (issuedAt + challengeTtl)) with
    -- `toISOString` of an invalid date throws
    | none => .error .internal
    | some expiresAt =>
      let nonce := toHex random
      let payloadB64 := encodeJson (challengePayload userId address nonce expiresAt)
      let sig := env.platform.hmac secret payloadB64
      .ok
        { message := challengeMessage userId address nonce issuedAt expiresAt payloadB64 sig
          expiresAt := isoText expiresAt }

/-! ## `linkWallet` -/

/-- What a link records about how the wallet was verified, and by which login. -/
structure LinkIdentity where
  isVerified : Bool
  verifiedAt : Option Timestamp
  authProvider : Option AuthProvider
  pollarUserId : Option String
  deriving DecidableEq

/-- The branch for `custodial`. -/
def linkCustodial (now : Timestamp) (userId : String) (dto : LinkWalletDto) :
    WalletProgram LinkIdentity := do
  let identity : LinkIdentity := ⟨true, some now, dto.authProvider, dto.pollarUserId⟩
  if (nonEmpty dto.pollarUserId).isSome ∧ dto.authProvider ≠ some .pollar then
    .fail (.badRequest "pollar_user_id requires auth_provider 'pollar'")
  else if dto.authProvider = some .pollar ∧ nonEmpty dto.pollarUserId = none then
    .fail (.badRequest "auth_provider 'pollar' requires pollar_user_id")
  else if dto.authProvider = some .accesly then
    .fail (.badRequest "auth_provider 'accesly' requires wallet_type 'accesly'")
  else match dto.authProvider, nonEmpty dto.pollarUserId with
    | some .pollar, some pollarUserId => do
      assertPollarOwnership userId dto.walletAddress pollarUserId
      return identity
    | _, _ => return identity

/-- The branch for `accesly`. -/
def linkAccesly (now : Timestamp) (userId : String) (dto : LinkWalletDto) :
    WalletProgram LinkIdentity := do
  if nonEmpty dto.cAddress = none then
    .fail (.badRequest "c_address is required for accesly wallets")
  else if dto.authProvider = some .pollar then
    .fail (.badRequest "auth_provider must be 'accesly' for an accesly wallet")
  else if (nonEmpty dto.pollarUserId).isSome then
    .fail (.badRequest "pollar_user_id is not valid for an accesly wallet")
  else
    let authUser ← ask (WalletCall.readAuthUser userId)
    if (Reply.data authUser).bind AuthUser.walletPublicKey ≠ some dto.walletAddress then
      .fail (.forbidden "Accesly wallet does not match the authenticated user")
    else return ⟨true, some now, some .accesly, none⟩

/-- The branch for a wallet the user brought and Pollar authenticated. -/
def linkPollar (now : Timestamp) (userId : String) (dto : LinkWalletDto) :
    WalletProgram LinkIdentity :=
  match nonEmpty dto.pollarUserId with
  | none => .fail (.badRequest "auth_provider 'pollar' requires pollar_user_id")
  | some pollarUserId => do
    assertPollarOwnership userId dto.walletAddress pollarUserId
    return ⟨true, some now, some .pollar, some pollarUserId⟩

/-- The branch for a wallet that has to sign. -/
def linkSigned (env : WalletEnv) (now : Timestamp) (userId : String) (dto : LinkWalletDto) :
    Except HttpException LinkIdentity :=
  if dto.authProvider.isSome ∨ (nonEmpty dto.pollarUserId).isSome then
    .error (.badRequest
      "auth_provider and pollar_user_id are only valid for wallets a login provisioned or authenticated")
  else match nonEmpty dto.signedMessage, nonEmpty dto.signature with
    | some signedMessage, some signature => do
      checkSignedChallenge env now userId dto.walletAddress signedMessage signature
      return ⟨true, some now, none, none⟩
    | _, _ => .error (.badRequest
      "signed_message and signature are required for non-custodial wallets")

/-- The choice between the branches. -/
def linkIdentity (env : WalletEnv) (now : Timestamp) (userId : String) (dto : LinkWalletDto) :
    WalletProgram LinkIdentity :=
  match dto.walletType with
  | .custodial => linkCustodial now userId dto
  | .accesly => linkAccesly now userId dto
  | _ =>
    if dto.authProvider = some .pollar then linkPollar now userId dto
    else .ofExcept (linkSigned env now userId dto)

/-- `baseRow`. -/
def baseRow (userId : String) (dto : LinkWalletDto) (isPrimary : Bool) (identity : LinkIdentity) :
    NewWallet where
  userId
  walletAddress := dto.walletAddress
  walletType := dto.walletType
  label := nonEmpty dto.label
  isPrimary
  isVerified := identity.isVerified
  verifiedAt := identity.verifiedAt
  authProvider := none
  pollarUserId := none
  cAddress := none

/-- `identityRow`. -/
def identityRow (userId : String) (dto : LinkWalletDto) (isPrimary : Bool)
    (identity : LinkIdentity) : NewWallet :=
  { baseRow userId dto isPrimary identity with
    authProvider := identity.authProvider
    pollarUserId := nonEmpty identity.pollarUserId
    cAddress := nonEmpty dto.cAddress }

/-- The error says that a column is missing. -/
def isMissingColumn (reply : Reply UserWallet) : Bool :=
  match reply with
  | .ok _ => false
  | .error e => e.code = "PGRST204"

/-- The insert, which gives up the identity columns when they are missing. -/
def insertLinked (row base : NewWallet) : WalletProgram (Reply UserWallet) := do
  let first ← ask (WalletCall.insertWallet row)
  let second ←
    if isMissingColumn first ∧ row.pollarUserId.isSome then
      ask (WalletCall.insertWallet { row with pollarUserId := none })
    else pure first
  if isMissingColumn second then ask (WalletCall.insertWallet base) else return second

/-- `linkWallet(userId, dto)`. -/
def linkWallet (env : WalletEnv) (now : Timestamp) (userId : String) (dto : LinkWalletDto) :
    WalletProgram WalletResult := do
  let existing ← ask (WalletCall.findWallet userId dto.walletAddress)
  match Reply.data existing with
  | some wallet => return ⟨some wallet, none⟩
  | none =>
    let count ← ask (WalletCall.countWallets userId)
    -- a count that could not be read is not 0
    let isPrimary : Bool := match count with
      | .ok n => n = 0
      | .error _ => false
    let identity ← linkIdentity env now userId dto
    match ← insertLinked (identityRow userId dto isPrimary identity)
        (baseRow userId dto isPrimary identity) with
    | .error e =>
      if e.code = "23505" then .fail (.conflict "Wallet is already linked to an account")
      else return ⟨none, some e.message⟩
    | .ok wallet =>
      match identity.authProvider with
      | none => return ⟨some wallet, none⟩
      | some provider =>
        let _ ← ask (WalletCall.setWalletProvider userId provider)
        return ⟨some wallet, none⟩

/-! ## The other operations -/

/-- `updateWallet(userId, walletId, dto)`. -/
def updateWallet (now : Timestamp) (userId walletId : String) (dto : UpdateWalletDto) :
    WalletProgram WalletResult := do
  match Reply.data (← ask (WalletCall.getWallet walletId userId)) with
  | none => .fail (.notFound "Wallet not found")
  | some _ =>
    if dto.isPrimary = some (some true) then
      let _ ← ask (WalletCall.clearOtherPrimaries userId walletId now)
      let reply ← ask (WalletCall.updateWallet walletId ⟨dto.label, dto.isPrimary, now⟩)
      return .ofReply reply
    else
      let reply ← ask (WalletCall.updateWallet walletId ⟨dto.label, dto.isPrimary, now⟩)
      return .ofReply reply

/-- `unlinkWallet(userId, walletId)`. -/
def unlinkWallet (userId walletId : String) : WalletProgram UnlinkResult := do
  match Reply.data (← ask (WalletCall.getWallet walletId userId)) with
  | none => .fail (.notFound "Wallet not found")
  | some wallet =>
    if wallet.walletType = .custodial then .fail (.badRequest "Cannot remove custodial wallet")
    else
      match ← ask (WalletCall.deleteWallet walletId userId) with
      | .error e => return ⟨false, some e.message⟩
      | .ok () =>
        if wallet.isPrimary = some true then
          match Reply.data (← ask (WalletCall.anyWallet userId)) with
          | none => return ⟨true, none⟩
          | some remaining =>
            let _ ← ask (WalletCall.setPrimary remaining)
            return ⟨true, none⟩
        else return ⟨true, none⟩

/-- `verifyWallet(userId, walletId, dto)`. -/
def verifyWallet (env : WalletEnv) (now : Timestamp) (userId walletId : String)
    (dto : VerifyWalletDto) : WalletProgram WalletResult := do
  match Reply.data (← ask (WalletCall.getWallet walletId userId)) with
  | none => .fail (.notFound "Wallet not found")
  | some existing =>
    if existing.isVerified then return ⟨some existing, none⟩
    else if existing.walletAddress ≠ dto.walletAddress then
      .fail (.badRequest "Wallet address does not match")
    else
      Calls.ofExcept
        (checkSignedChallenge env now userId dto.walletAddress dto.signedMessage dto.signature)
      let reply ← ask (WalletCall.markVerified walletId now)
      return .ofReply reply

/-- `resolveUserWallets(client, userId)`. -/
def resolveUserWallets (userId : String) : WalletProgram (List String) := do
  let linked ← ask (WalletCall.listWallets userId)
  let addresses : List String := match linked with
    | .ok rows => (rows.map UserWallet.walletAddress).filter (· ≠ "")
    | .error _ => []
  let legacy ← ask (WalletCall.readAuthUser userId)
  let legacyWallet := nonEmpty ((Reply.data legacy).bind AuthUser.walletPublicKey)
  return (addresses ++ legacyWallet.toList).eraseDups

end ThalosBackend.Wallets
