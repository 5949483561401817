import ThalosBackend.Wallets.WalletsService

/-!
# Proofs of ownership

What the checks on a signed request accept, said without the order of the checks: an authentic Proof
(`AuthenticProof`), a valid signature (`ValidSignature`), and both together for a user and an address
(`ProvesOwnership`). Each checking function of the source succeeds exactly on its predicate, and
`linkWallet` and `verifyWallet` go on to write exactly when the signed request is a proof.
-/

set_option autoImplicit false

namespace ThalosBackend.Wallets

open Js (Value Timestamp nonEmpty nonEmpty_eq_some)
open Calls (Issues Ends)

/-! ## The predicates -/

/-- The message carries a Proof of this payload under the server's HMAC, and the payload is complete
and has not expired. -/
structure AuthenticProof (platform : Platform) (jwtSecret : String) (now : Timestamp)
    (signedMessage : String) (payload : Value) : Prop where
  authentic : ∃ proof payloadB64 hmac, findProof true signedMessage.toList = some proof ∧
    splitProof proof = (payloadB64, some hmac) ∧ payloadB64 ≠ "" ∧ hmac ≠ "" ∧
    hmac = platform.hmac jwtSecret payloadB64 ∧ platform.decodeJson payloadB64 = some payload
  complete : payload ≠ .null ∧ (payload.field "sub").truthy ∧ (payload.field "addr").truthy ∧
    (payload.field "exp").truthy
  unexpired : (payload.field "exp").ltNumber (nowSeconds now) = some false

/-- The signature is one by the address over the bytes that a text with a known prefix stands for. -/
structure ValidSignature (platform : Platform) (walletAddress text signature : String) : Prop where
  nonempty : signature ≠ ""
  isPublicKey : platform.isPublicKey walletAddress = true
  verifies : ∃ bytes, signedBytes text = some bytes ∧
    platform.verify walletAddress bytes signature = some true

/-- The payload of the message's Proof is authentic under the secret the server is configured with. -/
def Authenticated (env : WalletEnv) (now : Timestamp) (signedMessage : String) (payload : Value) :
    Prop :=
  ∃ jwtSecret, nonEmpty env.jwtSecret = some jwtSecret ∧
    AuthenticProof env.platform jwtSecret now signedMessage payload

/-- The message and the signature prove that the user owns the address: its Proof was issued for the
two of them, and the rest of it is signed by the address. -/
structure ProvesOwnership (env : WalletEnv) (now : Timestamp)
    (userId walletAddress signedMessage signature : String) (payload : Value) : Prop where
  authentic : Authenticated env now signedMessage payload
  user : payload.field "sub" = .string userId
  address : payload.field "addr" = .string walletAddress
  signed : ValidSignature env.platform walletAddress (stripProofLine signedMessage) signature

/-! ## The checks succeed on them -/

section Checks

variable {platform : Platform} {now : Timestamp}

theorem checkPayload_eq_ok {payload payload' : Value} :
    checkPayload now payload = .ok payload' ↔ payload' = payload ∧
      (payload ≠ .null ∧ (payload.field "sub").truthy ∧ (payload.field "addr").truthy ∧
        (payload.field "exp").truthy) ∧
      (payload.field "exp").ltNumber (nowSeconds now) = some false := by
  unfold checkPayload
  split_ifs with hnull hincomplete
  · simp [hnull]
  · constructor
    · intro h
      cases h
    · rintro ⟨-, ⟨-, hsub, haddr, hexp⟩, -⟩
      simp [hsub, haddr, hexp] at hincomplete
  · -- what is left is the comparison with the time
    have hcomplete : (payload.field "sub").truthy ∧ (payload.field "addr").truthy ∧
        (payload.field "exp").truthy := by
      simpa [and_assoc] using hincomplete
    cases hlt : (payload.field "exp").ltNumber (nowSeconds now) with
    | none => simp
    | some expired =>
        cases expired with
        | true => simp
        | false => simp [hnull, hcomplete, eq_comm]

/-- `parseAndVerifyChallenge` returns exactly the authentic payload. -/
theorem parseAndVerifyChallenge_eq_ok {signedMessage jwtSecret : String} {payload : Value} :
    parseAndVerifyChallenge platform now signedMessage jwtSecret = .ok payload ↔
      AuthenticProof platform jwtSecret now signedMessage payload := by
  unfold parseAndVerifyChallenge
  constructor
  · intro h
    split_ifs at h with hempty
    split at h
    · cases h
    rename_i proof hproof
    split at h
    rename_i payloadB64 hmac hsplit
    split_ifs at h with hformat hhmac
    split at h
    · cases h
    rename_i decoded hdecoded
    obtain ⟨rfl, hcomplete, hunexpired⟩ := checkPayload_eq_ok.mp h
    -- the comparison with the HMAC says that there was one
    obtain rfl := not_not.mp hhmac
    simp only [Option.all_some, decide_eq_true_eq, not_or] at hformat
    exact ⟨⟨proof, payloadB64, _, hproof, hsplit, hformat.1, hformat.2, rfl, hdecoded⟩, hcomplete,
      hunexpired⟩
  · rintro ⟨⟨proof, payloadB64, hmac, hproof, hsplit, hb64, hne, rfl, hdecoded⟩, hcomplete,
      hunexpired⟩
    have hmessage : signedMessage ≠ "" := by
      rintro rfl
      cases hproof
    simp only [hmessage, if_false, hproof, hsplit, hb64, Option.all_some, hne, decide_false,
      Bool.false_eq_true, or_self, ne_eq, not_true_eq_false, hdecoded]
    exact checkPayload_eq_ok.mpr ⟨rfl, hcomplete, hunexpired⟩

/-- A message has at most one authentic payload. -/
theorem AuthenticProof.unique {signedMessage jwtSecret : String} {payload payload' : Value}
    (h : AuthenticProof platform jwtSecret now signedMessage payload)
    (h' : AuthenticProof platform jwtSecret now signedMessage payload') : payload = payload' := by
  have hparse := parseAndVerifyChallenge_eq_ok.mpr h
  rw [parseAndVerifyChallenge_eq_ok.mpr h'] at hparse
  exact (Except.ok.inj hparse).symm

/-- `verifyStellarSignature` returns exactly on the valid signatures over the stripped message. -/
theorem verifyStellarSignature_eq_ok {signedMessage signature walletAddress : String} :
    verifyStellarSignature platform signedMessage signature walletAddress = .ok () ↔
      ValidSignature platform walletAddress (stripProofLine signedMessage) signature := by
  unfold verifyStellarSignature
  constructor
  · intro h
    split_ifs at h with hempty hkey
    split at h
    · cases h
    rename_i bytes hbytes
    split at h
    · cases h
    · cases h
    · rename_i hverify
      exact ⟨hempty, by simpa using hkey, bytes, hbytes, hverify⟩
  · rintro ⟨hempty, hkey, bytes, hbytes, hverify⟩
    simp [hempty, hkey, hbytes, hverify]

end Checks

variable {env : WalletEnv} {now : Timestamp} {userId walletAddress signedMessage signature : String}

theorem Authenticated.unique {payload payload' : Value}
    (h : Authenticated env now signedMessage payload)
    (h' : Authenticated env now signedMessage payload') : payload = payload' := by
  obtain ⟨secret, hsecret, hproof⟩ := h
  obtain ⟨secret', hsecret', hproof'⟩ := h'
  obtain rfl : secret = secret' := Option.some.inj (hsecret.symm.trans hsecret')
  exact hproof.unique hproof'

/-- The checks on a signed message accept exactly the proofs of ownership. -/
theorem checkSignedChallenge_eq_ok :
    checkSignedChallenge env now userId walletAddress signedMessage signature = .ok () ↔
      ∃ payload, ProvesOwnership env now userId walletAddress signedMessage signature payload := by
  unfold checkSignedChallenge
  constructor
  · intro h
    split at h
    · cases h
    rename_i jwtSecret hsecret
    obtain ⟨payload, hparse, h⟩ := bind_eq_ok.mp h
    have hauthentic := parseAndVerifyChallenge_eq_ok.mp hparse
    split_ifs at h with hsub haddr
    · exact ⟨payload, ⟨jwtSecret, hsecret, hauthentic⟩, not_not.mp hsub, not_not.mp haddr,
        verifyStellarSignature_eq_ok.mp h⟩
  · rintro ⟨payload, ⟨jwtSecret, hsecret, hauthentic⟩, hsub, haddr, hsigned⟩
    simp only [hsecret]
    refine bind_eq_ok.mpr ⟨payload, parseAndVerifyChallenge_eq_ok.mpr hauthentic, ?_⟩
    simpa [hsub, haddr] using verifyStellarSignature_eq_ok.mpr hsigned

/-- The signed branch of `linkWallet` accepts exactly the requests whose message is a proof. -/
theorem linkSigned_eq_ok {dto : LinkWalletDto} {identity : LinkIdentity} :
    linkSigned env now userId dto = .ok identity ↔
      identity = ⟨true, some now, none, none⟩ ∧ dto.authProvider = none ∧
      nonEmpty dto.pollarUserId = none ∧
      ∃ m s payload, dto.signedMessage = some m ∧ dto.signature = some s ∧
        ProvesOwnership env now userId dto.walletAddress m s payload := by
  unfold linkSigned
  constructor
  · intro h
    split_ifs at h with hprovider
    simp only [not_or, Bool.not_eq_true, Option.isSome_eq_false_iff, Option.isNone_iff_eq_none]
      at hprovider
    split at h
    · rename_i m s hm hs
      obtain ⟨⟨⟩, hcheck, h⟩ := bind_eq_ok.mp h
      obtain ⟨payload, hproof⟩ := checkSignedChallenge_eq_ok.mp hcheck
      cases h
      exact ⟨rfl, hprovider.1, hprovider.2, m, s, payload, (nonEmpty_eq_some.mp hm).1,
        (nonEmpty_eq_some.mp hs).1, hproof⟩
    · cases h
  · rintro ⟨rfl, hprovider, hpollar, m, s, payload, hm, hs, hproof⟩
    -- an authentic message and a valid signature are not empty
    have hmessage : nonEmpty dto.signedMessage = some m := by
      refine nonEmpty_eq_some.mpr ⟨hm, ?_⟩
      rintro rfl
      obtain ⟨_, -, ⟨_, _, _, hfind, -⟩, -⟩ := hproof.authentic
      cases hfind
    have hsignature : nonEmpty dto.signature = some s :=
      nonEmpty_eq_some.mpr ⟨hs, hproof.signed.nonempty⟩
    simp only [hprovider, hpollar, hmessage, hsignature, Option.isSome_none, Bool.false_eq_true,
      or_self, if_false]
    refine bind_eq_ok.mpr ⟨(), checkSignedChallenge_eq_ok.mpr ⟨payload, hproof⟩, rfl⟩

end ThalosBackend.Wallets
