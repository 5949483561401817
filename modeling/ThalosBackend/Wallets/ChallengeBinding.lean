import Mathlib.Data.List.Infix
import ThalosBackend.Wallets.OwnershipProof
import ThalosBackend.Wallets.ProofLine

/-!
# What is accepted

`linkWallet` and `verifyWallet` accept a message and a signature for a user and an address exactly
when they prove ownership (`accepts_iff`). The Proof line is checked by its HMAC and the rest of the
message by the wallet's signature, and nothing compares the two: a fresh Proof for the user and the
address may stand under another text that the wallet has signed.
-/

set_option autoImplicit false

namespace ThalosBackend.Wallets

open Js (Number Value Timestamp nonEmpty trimEnd trimEndChars isoText isWhiteSpace isLineTerminator)
open Calls (Issues Ends)

/-! ## Acceptance -/

/-- The request takes the branch of `linkWallet` that asks for a signature. -/
def LinkWalletDto.NeedsSignature (dto : LinkWalletDto) : Prop :=
  dto.walletType ≠ .custodial ∧ dto.walletType ≠ .accesly ∧ dto.authProvider ≠ some .pollar

/-- Such a request has its identity from the signed branch. -/
theorem linkIdentity_needsSignature {env : WalletEnv} {now : Timestamp} {userId : String}
    {dto : LinkWalletDto} (h : dto.NeedsSignature) :
    linkIdentity env now userId dto = .ofExcept (linkSigned env now userId dto) := by
  obtain ⟨hcustodial, haccesly, hpollar⟩ := h
  unfold linkIdentity
  split
  · rename_i hc
    exact absurd hc hcustodial
  · rename_i ha
    exact absurd ha haccesly
  · rw [if_neg hpollar]

/-- `linkWallet` or `verifyWallet` accepts the message and the signature: whatever the tables hold,
some run goes on to insert the wallet, or to mark it verified. -/
inductive Accepts (env : WalletEnv) (now : Timestamp)
    (userId walletAddress signedMessage signature : String) : Prop where
  | link (dto : LinkWalletDto) (row : NewWallet) :
      dto.NeedsSignature → dto.walletAddress = walletAddress →
      dto.signedMessage = some signedMessage → dto.signature = some signature →
      Issues (linkWallet env now userId dto) (.insertWallet row) →
      Accepts env now userId walletAddress signedMessage signature
  | verify (walletId : String) :
      Issues (verifyWallet env now userId walletId ⟨walletAddress, signedMessage, signature⟩)
        (.markVerified walletId now) →
      Accepts env now userId walletAddress signedMessage signature

variable {env : WalletEnv} {now : Timestamp}
  {userId walletAddress signedMessage signature : String}

/-- A signed request is inserted only after its message and signature proved ownership. -/
theorem provesOwnership_of_link {dto : LinkWalletDto} {row : NewWallet}
    (hsigned : dto.NeedsSignature) (hm : dto.signedMessage = some signedMessage)
    (hs : dto.signature = some signature)
    (h : Issues (linkWallet env now userId dto) (.insertWallet row)) :
    ∃ payload, ProvesOwnership env now userId dto.walletAddress signedMessage signature payload := by
  simp only [linkWallet, Calls.ask_bind, Calls.issues_call, reduceCtorEq, false_or] at h
  obtain ⟨existing, h⟩ := h
  split at h
  · exact absurd h (Calls.not_issues_done _ _)
  simp only [Calls.issues_call, reduceCtorEq, false_or] at h
  obtain ⟨count, h⟩ := h
  rw [linkIdentity_needsSignature hsigned] at h
  -- the signed branch makes no call of its own: it has ended with an identity
  rcases Calls.issues_bind.mp h with h | ⟨identity, hend, -⟩
  · exact absurd h Calls.not_issues_ofExcept
  · obtain ⟨-, -, -, m, s, payload, hm', hs', hproof⟩ :=
      linkSigned_eq_ok.mp (Calls.ends_ofExcept.mp hend)
    obtain rfl : m = signedMessage := by simpa [hm'] using hm
    obtain rfl : s = signature := by simpa [hs'] using hs
    exact ⟨payload, hproof⟩

/-- A wallet is marked verified only after the message and the signature proved ownership. -/
theorem provesOwnership_of_verify {walletId : String}
    (h : Issues (verifyWallet env now userId walletId ⟨walletAddress, signedMessage, signature⟩)
      (.markVerified walletId now)) :
    ∃ payload, ProvesOwnership env now userId walletAddress signedMessage signature payload := by
  simp only [verifyWallet, Calls.ask_bind, Calls.issues_call, reduceCtorEq, false_or] at h
  obtain ⟨existing, h⟩ := h
  split at h
  · exact absurd h (Calls.not_issues_fail _ _)
  split_ifs at h with hverified haddress
  · exact absurd h (Calls.not_issues_done _ _)
  · exact absurd h (Calls.not_issues_fail _ _)
  · rcases Calls.issues_bind.mp h with h | ⟨⟨⟩, hend, -⟩
    · exact absurd h Calls.not_issues_ofExcept
    · exact checkSignedChallenge_eq_ok.mp (Calls.ends_ofExcept.mp hend)

/-- The link request of a browser wallet. -/
def signedLink (walletAddress signedMessage signature : String) : LinkWalletDto where
  walletAddress
  walletType := .freighter
  label := none
  signedMessage := some signedMessage
  signature := some signature
  authProvider := none
  pollarUserId := none
  cAddress := none

/-- With a proof of ownership, the link of a wallet that is not there yet goes on to its insert. -/
theorem issues_signedLink {payload : Value}
    (h : ProvesOwnership env now userId walletAddress signedMessage signature payload) :
    ∃ row, Issues (linkWallet env now userId (signedLink walletAddress signedMessage signature))
      (.insertWallet row) := by
  have hneeds : (signedLink walletAddress signedMessage signature).NeedsSignature :=
    ⟨by simp [signedLink], by simp [signedLink], by simp [signedLink]⟩
  have hend : linkSigned env now userId (signedLink walletAddress signedMessage signature) =
      .ok ⟨true, some now, none, none⟩ :=
    linkSigned_eq_ok.mpr ⟨rfl, rfl, rfl, signedMessage, signature, payload, rfl, rfl, h⟩
  refine ⟨identityRow userId (signedLink walletAddress signedMessage signature) true
    ⟨true, some now, none, none⟩, ?_⟩
  simp only [linkWallet, Calls.ask_bind, Calls.issues_call, reduceCtorEq, false_or]
  -- no wallet is found, and none is counted
  refine ⟨.ok none, ?_⟩
  simp only [Reply.data, Calls.issues_call, reduceCtorEq, false_or]
  refine ⟨.ok 0, ?_⟩
  rw [linkIdentity_needsSignature hneeds, hend]
  simp only [Calls.ofExcept, Calls.done_bind, insertLinked, Calls.ask_bind, Calls.call_bind,
    Calls.issues_call]
  exact .inl rfl

/-- **Acceptance.** A message and a signature are accepted exactly when they prove ownership. -/
theorem accepts_iff :
    Accepts env now userId walletAddress signedMessage signature ↔
      ∃ payload, ProvesOwnership env now userId walletAddress signedMessage signature payload := by
  constructor
  · intro h
    cases h with
    | link dto row hneeds haddress hm hs h =>
        subst haddress
        exact provesOwnership_of_link hneeds hm hs h
    | verify walletId h => exact provesOwnership_of_verify h
  · rintro ⟨payload, h⟩
    obtain ⟨row, hrow⟩ := issues_signedLink h
    exact .link (signedLink walletAddress signedMessage signature) row
      ⟨by simp [signedLink], by simp [signedLink], by simp [signedLink]⟩ rfl rfl rfl hrow

/-! ## The signed text -/

/-- The fields of a challenge are those of the payload of a Proof. The payload does not say when it
was issued, and it has its expiry in seconds. -/
structure FieldsOf (payload : Value) (fields : ChallengeFields) : Prop where
  sub : payload.field "sub" = .string fields.sub
  addr : payload.field "addr" = .string fields.addr
  nonce : (payload.field "nonce").toText = some fields.nonce
  exp : ∃ t : Timestamp, payload.field "exp" = .number (.finite (t / 1000 : ℤ)) ∧
    fields.exp = isoText t

/-- The text is the challenge of the payload, up to white space at its end: as SEP-53 has it, or as
legacy wallets signed it, without the first line. -/
def IsChallengeText (payload : Value) (text : String) : Prop :=
  ∃ fields, FieldsOf payload fields ∧
    (text = trimEnd (buildChallengeMessage fields) ∨
      sep53Prefix ++ text = trimEnd (buildChallengeMessage fields))

/-! ## A signature over another text -/

/-- The user's account and a wallet whose owner has signed a text of another kind. -/
def otherAccount : String := "7b6f8a52-0c3e-4d9b-9a61-2f5e8c1d4a70"

def otherWallet : String := "GBXFXNDLV4LSWA4VB7YIL5GBD7BVNR22SGBTDKMO2SBZZHDXSKZYCP7L"

/-- The text the wallet has signed, and its signature. -/
def otherText : String := "Stellar Signed Message:\nHello, World!"

def otherSignature : String :=
  "fO5dbYhXUhBMhe6kId/cuVq/AfEnHRHEvsP8vXh03M1uLpi5e46yO2Q8rEBzu3feXQewcQE5GArp88u6ePK6BA=="

/-- The payload of the challenge the server issues to the account for the wallet, and its text. -/
def freshPayload : Value := .object [("v", .number 1), ("sub", .string otherAccount),
  ("addr", .string otherWallet), ("nonce", .string "9f86d081884c7d659a2feaa0c55ad015"),
  ("exp", .number 1767225900)]

/-- The payload in base64url, in parts. -/
def freshParts : List String := [
  "eyJ2IjoxLCJzdWIiOiI3YjZmOGE1Mi0wYzNlLTRk",
  "OWItOWE2MS0yZjVlOGMxZDRhNzAiLCJhZGRyIjoi",
  "R0JYRlhORExWNExTV0E0VkI3WUlMNUdCRDdCVk5S",
  "MjJTR0JUREtNTzJTQlpaSERYU0taWUNQN0wiLCJu",
  "b25jZSI6IjlmODZkMDgxODg0YzdkNjU5YTJmZWFh",
  "MGM1NWFkMDE1IiwiZXhwIjoxNzY3MjI1OTAwfQ"]

def freshPayloadB64 : String := String.join freshParts

def freshHmac : String := "hT-4iRhaG6JtP2Nup3eiYJ5f38Gc1Vu4A2CfRmrFcBI"

/-- The libraries on these inputs. -/
def exampleEnv : WalletEnv where
  platform := {
    hmac := fun secret text =>
      if secret = "unit-test-jwt-secret" ∧ text = freshPayloadB64 then freshHmac else ""
    decodeJson := fun text => if text = freshPayloadB64 then some freshPayload else none
    isPublicKey := fun address => address = otherWallet
    verify := fun address bytes signature =>
      some (address = otherWallet ∧ bytes = .sha256 otherText ∧ signature = otherSignature) }
  jwtSecret := some "unit-test-jwt-secret"

/-- The Proof of the fresh challenge. -/
def freshProof : List Char := freshPayloadB64.toList ++ '.' :: freshHmac.toList

/-- The other text with the fresh Proof below it. -/
def splicedMessage : String := otherText ++ "\nProof: " ++ String.ofList freshProof

theorem splicedMessage_toList : splicedMessage.toList =
    'S' :: "tellar Signed Message:".toList ++ '\n' :: ('H' :: "ello, World!".toList ++
      '\n' :: (proofMarker ++ ' ' :: freshProof)) := by
  simp only [splicedMessage, otherText, proofMarker, String.toList_append, String.toList_ofList,
    String.reduceToList, List.cons_append, List.nil_append]

/-- The characters of base64url that matter here: no dot, and no end of a line. -/
def isPlain (c : Char) : Bool := !isLineTerminator c && c ≠ '.'

theorem freshPayloadB64_plain : ∀ c ∈ freshPayloadB64.toList, isPlain c = true := by
  have hparts : ∀ part ∈ freshParts, part.toList.all isPlain = true := by decide +kernel
  intro c hc
  rw [freshPayloadB64, String.toList_join, List.mem_flatMap] at hc
  obtain ⟨part, hpart, hc⟩ := hc
  exact List.all_eq_true.mp (hparts part hpart) c hc

theorem freshHmac_plain : ∀ c ∈ freshHmac.toList, isPlain c = true := by
  have hall : freshHmac.toList.all isPlain = true := by decide +kernel
  exact List.all_eq_true.mp hall

theorem freshProof_oneLine : OneLine freshProof := by
  constructor
  · have hhead : (freshParts.flatMap String.toList).head? = some 'e' := by decide +kernel
    obtain ⟨rest, hrest⟩ := List.head?_eq_some_iff.mp hhead
    refine ⟨'e', rest ++ '.' :: freshHmac.toList, ?_, by decide⟩
    rw [freshProof, freshPayloadB64, String.toList_join, hrest, List.cons_append]
  · intro c hc
    rcases List.mem_append.mp hc with hc | hc
    · have := freshPayloadB64_plain c hc
      simp_all [isPlain]
    · rcases List.mem_cons.mp hc with rfl | hc
      · decide
      · have := freshHmac_plain c hc
        simp_all [isPlain]

theorem unterminated_of_all {line : List Char} (h : line.all (!isLineTerminator ·) = true) :
    ∀ c ∈ line, isLineTerminator c = false := by
  simpa using h

/-- The Proof line of the message is found. -/
theorem findProof_splicedMessage : findProof true splicedMessage.toList = some freshProof := by
  rw [splicedMessage_toList,
    findProof_otherLine ⟨by decide, by decide⟩ (unterminated_of_all (by decide +kernel)),
    findProof_otherLine ⟨by decide, by decide⟩ (unterminated_of_all (by decide +kernel)),
    findProof_proof freshProof_oneLine]

/-- What is left of the message without it is the other text. -/
theorem stripProofLine_splicedMessage : stripProofLine splicedMessage = otherText := by
  have hdrop : dropProofLine splicedMessage.toList = otherText.toList := by
    rw [splicedMessage_toList,
      dropProofLine_inside (unterminated_of_all (by decide +kernel)),
      dropProofLine_otherLine ⟨by decide, by decide⟩,
      dropProofLine_inside (unterminated_of_all (by decide +kernel)),
      dropProofLine_proof freshProof_oneLine]
    decide +kernel
  have htrim : trimEndChars otherText.toList = otherText.toList := by decide +kernel
  rw [stripProofLine, hdrop, htrim, String.ofList_toList]

/-- A message with the fresh Proof is authentic, whatever else it says. -/
theorem authenticProof_of_freshProof {message : String}
    (h : findProof true message.toList = some freshProof) :
    AuthenticProof exampleEnv.platform "unit-test-jwt-secret" 1767225600000 message
      freshPayload := by
  have hsplit : splitProof freshProof = (freshPayloadB64, some freshHmac) := by
    refine splitProof_dot (fun c hc => ?_) (fun c hc => ?_)
    · have := freshPayloadB64_plain c hc
      simp_all [isPlain]
    · have := freshHmac_plain c hc
      simp_all [isPlain]
  refine ⟨⟨freshProof, freshPayloadB64, freshHmac, h, hsplit, by decide +kernel,
    by decide +kernel, ?_, ?_⟩, by decide +kernel, by decide +kernel⟩
  · simp only [exampleEnv, and_self, if_true]
  · simp only [exampleEnv, if_true]

end ThalosBackend.Wallets
