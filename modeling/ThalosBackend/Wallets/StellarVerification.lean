import ThalosBackend.Common.HttpException
import ThalosBackend.Js.Coercion
import ThalosBackend.Js.IsoDate
import ThalosBackend.Js.Text

/-!
# Signed challenges

`wallets/helpers/stellar-verification.helper.ts`. A challenge is a text for the wallet to sign and,
in its last line, a Proof: a payload of the server under the server's HMAC. `parseAndVerifyChallenge`
reads the Proof line of a message and checks the HMAC; `verifyStellarSignature` checks the wallet's
signature over the text that `stripProofLine` leaves.

The regular expressions are read off by hand. White space is greedy and may cross lines, and only
when nothing follows it does the expression give some of it back: then `.+` has to take its last
character that is not a line terminator.

`Platform` is what the source takes from libraries: HMAC-SHA256 in base64url, base64url with
`JSON.parse`, and the Stellar keypair.
-/

set_option autoImplicit false

namespace ThalosBackend.Wallets

open Js (Number Value Timestamp isLineTerminator isWhiteSpace trimEndChars trimStartChars isoText)

/-- The bytes a signature is checked against: those of a text, or their SHA-256 digest. -/
inductive SignedBytes where
  | utf8 (text : String)
  | sha256 (text : String)
  deriving DecidableEq

/-- Library functions. `none` is an exception: of `JSON.parse`, and of `keypair.verify`. -/
structure Platform where
  /-- `createHmac('sha256', secret).update(text).digest('base64url')`. -/
  hmac : String → String → String
  /-- `JSON.parse(Buffer.from(text, 'base64url').toString('utf-8'))`. -/
  decodeJson : String → Option Value
  /-- Whether `Keypair.fromPublicKey` takes the address. -/
  isPublicKey : String → Bool
  /-- `keypair.verify(bytes, Buffer.from(signature, 'base64url'))` for the keypair of an address. -/
  verify : String → SignedBytes → String → Option Bool

def walletOwnershipPrefix : String := "Thalos Wallet Ownership Proof"

def sep53Prefix : String := "Stellar Signed Message:\n"

/-! ## The Proof line -/

/-- `Proof:` -/
def proofMarker : List Char := "Proof:".toList

/-- What follows `\s*Proof:` at the head of the text. -/
def afterMarker (cs : List Char) : Option (List Char) :=
  let line := trimStartChars cs
  if proofMarker <+: line then some (line.drop proofMarker.length) else none

/-- The text up to the end of its line, which `.` does not cross. -/
def restOfLine (cs : List Char) : List Char := cs.takeWhile fun c => !isLineTerminator c

/-- What `\s*(.+)$` captures, where `$` is the end of a line. -/
def captureLine (rest : List Char) : Option (List Char) :=
  match trimStartChars rest with
  -- only white space: the last of it that is not a line terminator
  | [] => (rest.reverse.find? fun c => !isLineTerminator c).map fun c => [c]
  | c :: cs => some (restOfLine (c :: cs))

/-- The Proof at a place where `^\s*Proof:\s*(.+)$` may begin. -/
def proofAt (cs : List Char) : Option (List Char) := (afterMarker cs).bind captureLine

/-- The capture of the first match of `/^\s*Proof:\s*(.+)$/m`; `lineStart` says whether `^` holds. -/
def findProof (lineStart : Bool) : List Char → Option (List Char)
  | [] => none
  | c :: cs =>
      match (if lineStart then proofAt (c :: cs) else none) with
      | some proof => some proof
      | none => findProof (isLineTerminator c) cs

/-- Whether `\s*.+$` matches the text to its end. -/
def reachesEnd (rest : List Char) : Bool :=
  match trimStartChars rest with
  | [] => rest.getLast?.any fun c => !isLineTerminator c
  | c :: cs => (c :: cs).all fun c => !isLineTerminator c

/-- Whether `\s*Proof:\s*.+$` matches the text to its end. -/
def proofToEnd (cs : List Char) : Bool := (afterMarker cs).any reachesEnd

/-- Cut the first match of `/\n\s*Proof:\s*.+$/` off. -/
def dropProofLine : List Char → List Char
  | [] => []
  | c :: cs => if c = '\n' ∧ proofToEnd cs then [] else c :: dropProofLine cs

/-- `stripProofLine(signedMessage)`. -/
def stripProofLine (signedMessage : String) : String :=
  String.ofList (trimEndChars (dropProofLine signedMessage.toList))

/-- The first two parts of `proof.split('.')`. -/
def splitProof (proof : List Char) : String × Option String :=
  let payload := proof.takeWhile (· ≠ '.')
  match proof.drop payload.length with
  | [] => (String.ofList payload, none)
  | _ :: rest => (String.ofList payload, some (String.ofList (rest.takeWhile (· ≠ '.'))))

/-! ## The challenge -/

/-- What `buildChallengeMessage` is given. -/
structure ChallengeFields where
  sub : String
  addr : String
  nonce : String
  iat : String
  exp : String

/-- `buildChallengeMessage(payload)`. -/
def buildChallengeMessage (payload : ChallengeFields) : String :=
  String.intercalate "\n" [
    "Stellar Signed Message:",
    walletOwnershipPrefix,
    "",
    "I authorize linking this wallet to my Thalos account.",
    "Account: " ++ payload.sub,
    "Wallet: " ++ payload.addr,
    "Nonce: " ++ payload.nonce,
    "Issued At: " ++ payload.iat,
    "Expires At: " ++ payload.exp,
    ""]

/-! ## Checking a message -/

section Checking

variable (platform : Platform)

/-- The seconds of `Math.floor(Date.now() / 1000)`. -/
def nowSeconds (now : Timestamp) : Number := .finite (now / 1000 : ℤ)

/-- The checks on the decoded payload: its fields are there and it has not expired. -/
def checkPayload (now : Timestamp) (payload : Value) : Except HttpException Value :=
  -- the read of a field of `null` throws
  if payload = .null then .error .internal
  else if !(payload.field "sub").truthy || !(payload.field "addr").truthy ||
      !(payload.field "exp").truthy then
    .error (.forbidden "Incomplete proof payload")
  else match (payload.field "exp").ltNumber (nowSeconds now) with
    | none => .error .internal
    | some true => .error (.forbidden "Challenge has expired")
    | some false => .ok payload

/-- `parseAndVerifyChallenge(signedMessage, jwtSecret)` at a time. -/
def parseAndVerifyChallenge (now : Timestamp) (signedMessage jwtSecret : String) :
    Except HttpException Value :=
  if signedMessage = "" then .error (.badRequest "signed_message is required")
  else match findProof true signedMessage.toList with
    | none => .error (.forbidden "Invalid challenge format – missing Proof")
    | some proof =>
      match splitProof proof with
      | (payloadB64, hmac) =>
        if payloadB64 = "" ∨ hmac.all (· = "") then .error (.forbidden "Invalid proof format")
        else if hmac ≠ some (platform.hmac jwtSecret payloadB64) then
          .error (.forbidden "Invalid proof signature")
        else match platform.decodeJson payloadB64 with
          | none => .error (.forbidden "Malformed proof payload")
          | some payload => checkPayload now payload

/-- The bytes whose signature is checked for a message body, by the prefix of the body. -/
def signedBytes (messageBody : String) : Option SignedBytes :=
  if messageBody.startsWith sep53Prefix then some (.sha256 messageBody)
  else if messageBody.startsWith walletOwnershipPrefix then some (.utf8 messageBody)
  else none

/-- `verifyStellarSignature(signedMessage, signature, walletAddress)`. -/
def verifyStellarSignature (signedMessage signature walletAddress : String) :
    Except HttpException Unit :=
  if signature = "" then .error (.badRequest "signature is required")
  else if platform.isPublicKey walletAddress = false then
    .error (.badRequest "Invalid Stellar public key")
  else match signedBytes (stripProofLine signedMessage) with
    | none => .error (.forbidden "Unrecognized challenge prefix")
    | some bytes =>
      match platform.verify walletAddress bytes signature with
      | none => .error .internal
      | some false => .error (.forbidden "Invalid Stellar signature")
      | some true => .ok ()

end Checking

end ThalosBackend.Wallets
