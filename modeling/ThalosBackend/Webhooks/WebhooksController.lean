import ThalosBackend.Common.HttpException
import ThalosBackend.Js.Coercion
import ThalosBackend.Js.Hex
import ThalosBackend.Js.Text

/-!
# The receiver of webhooks

`webhooks/webhooks.controller.ts` and `verifySignature` of `webhooks/webhooks.service.ts`. The header
is to carry the HMAC of the raw body in hexadecimal digits. They are read the way `Buffer.from` reads
them: by the low bytes of their code units, in either case, and whatever stands behind them is passed
over as long as it is no digit pair (`verifySignature_iff`).
-/

set_option autoImplicit false

namespace ThalosBackend.Webhooks

open Js (Value hexBytes hexText lowBytes readHex)

/-- What the receiver is configured with, and library functions. -/
structure ReceiverEnv where
  /-- `TRUSTLESS_WORK_WEBHOOK_SECRET`; empty when it is not set. -/
  webhookSecret : String
  /-- HMAC-SHA256 under a key. -/
  hmac : (key : String) → (message : List UInt8) → List UInt8
  length_hmac : ∀ key message, (hmac key message).length = 32
  /-- `JSON.parse(rawBody.toString('utf-8'))`; `none` when it throws. -/
  parse : List UInt8 → Option Value

/-- A request to `POST /webhooks/trustless-work`. -/
structure SignedRequest where
  rawBody : Option (List UInt8)
  signatureHeader : Option String
  deriving DecidableEq

/-- `req.rawBody ?? Buffer.from('')`. -/
def SignedRequest.body (req : SignedRequest) : List UInt8 := req.rawBody.getD []

/-- What the digits of a header may follow. -/
def signatureScheme : String := "sha256="

/-- `signatureHeader.startsWith('sha256=') ? signatureHeader.slice(7) : signatureHeader`. -/
def providedSignature (signatureHeader : String) : List Char :=
  if signatureScheme.toList.isPrefixOf signatureHeader.toList then signatureHeader.toList.drop 7
  else signatureHeader.toList

/-- `verifySignature(rawBody, signatureHeader)`. The comparison throws for bytes of another length, and
then the signature is not valid either. -/
def verifySignature (env : ReceiverEnv) (rawBody : List UInt8) (signatureHeader : String) : Bool :=
  if env.webhookSecret = "" then false
  else
    let expected := hexText (env.hmac env.webhookSecret rawBody)
    decide (hexBytes expected = hexBytes (providedSignature signatureHeader))

/-- `handleTrustlessWork(req, signatureHeader)`, up to `handleEvent`: the payload it is called with. -/
def handleTrustlessWork (env : ReceiverEnv) (req : SignedRequest) : Except HttpException Value :=
  match Js.nonEmpty req.signatureHeader with
  | none => .error (.unauthorized "Missing x-trustless-signature header")
  | some signatureHeader =>
    if verifySignature env req.body signatureHeader = false then
      .error (.unauthorized "Invalid webhook signature")
    else
      match env.parse req.body with
      | none => .error (.badRequest "Malformed JSON payload")
      | some payload =>
        -- a field of `null` cannot be read
        if payload.isNullish then .error .internal
        else if !(payload.field "event").truthy || !(payload.field "contractId").truthy then
          .error (.badRequest "Payload must include event and contractId")
        else .ok payload

/-! ## Signatures -/

section Signatures

variable {env : ReceiverEnv} {rawBody : List UInt8} {signatureHeader : String}

/-- A text that begins with the scheme is no spelling of anything. -/
theorem spelling_not_scheme {bytes : List UInt8} {provided digits rest : List Char} (hne : bytes ≠ [])
    (hprovided : lowBytes provided = digits ++ rest)
    (hdigits : digits.map Char.toLower = hexText bytes) :
    signatureScheme.toList.isPrefixOf provided = false := by
  obtain ⟨byte, bytes, rfl⟩ := List.exists_cons_of_ne_nil hne
  obtain ⟨a, tail, rfl⟩ : ∃ a tail, digits = a :: tail := by
    cases digits with
    | nil => simp [Js.hexDigits] at hdigits
    | cons a tail => exact ⟨a, tail, rfl⟩
  have hfirst : a.toLower = Js.hexChar (byte.toNat / 16) := (List.cons.inj hdigits).1
  have hnone : ∀ n < 16, 's' ≠ Js.hexChar n := by decide
  have hbyte : byte.toNat < 256 := byte.toNat_lt
  have ha : ('s' == a) = false := by
    apply beq_false_of_ne
    rintro rfl
    exact hnone (byte.toNat / 16) (by omega) hfirst
  rw [Bool.eq_false_iff]
  intro hscheme
  obtain ⟨after, rfl⟩ := List.isPrefixOf_iff_prefix.mp hscheme
  have hlow : lowBytes (signatureScheme.toList ++ after) =
      's' :: lowBytes ("ha256=".toList ++ after) := Js.lowBytes_cons (by decide) _
  rw [hlow] at hprovided
  have hs : 's' = a := (List.cons.inj hprovided).1
  exact absurd ha (by rw [hs, beq_self_eq_true]; decide)

/-- **What the receiver accepts.** A header is accepted exactly when the secret is set and the low bytes
of what it provides, perhaps behind `sha256=`, begin with the digits of the HMAC of the body, each in
either case, and no pair of digits follows them. -/
theorem verifySignature_iff (env : ReceiverEnv) (rawBody : List UInt8) (signatureHeader : String) :
    verifySignature env rawBody signatureHeader = true ↔ env.webhookSecret ≠ "" ∧
      ∃ scheme ∈ ["", signatureScheme], ∃ provided digits rest : List Char,
        signatureHeader.toList = scheme.toList ++ provided ∧ lowBytes provided = digits ++ rest ∧
        digits.map Char.toLower = hexText (env.hmac env.webhookSecret rawBody) ∧
        readHex rest = [] := by
  have hmac_ne : env.hmac env.webhookSecret rawBody ≠ [] := by
    intro hnil
    have hlength := env.length_hmac env.webhookSecret rawBody
    rw [hnil] at hlength
    cases hlength
  have haccepts : verifySignature env rawBody signatureHeader = true ↔ env.webhookSecret ≠ "" ∧
      hexBytes (providedSignature signatureHeader) = env.hmac env.webhookSecret rawBody := by
    simp only [verifySignature, Js.hexBytes_hexText]
    split
    · rename_i hunset
      simp [hunset]
    · rename_i hset
      simp only [ne_eq, hset, not_false_eq_true, true_and, decide_eq_true_eq]
      exact eq_comm
  rw [haccepts, Js.hexBytes_eq_iff]
  apply and_congr_right
  intro _
  constructor
  · rintro ⟨digits, rest, hprovided, hdigits, hrest⟩
    rw [providedSignature] at hprovided
    -- what is read as hex is the header, without the scheme if it begins with it
    split at hprovided
    · rename_i hscheme
      refine ⟨signatureScheme, by simp, _, digits, rest, ?_, hprovided, hdigits, hrest⟩
      obtain ⟨tail, htail⟩ := List.isPrefixOf_iff_prefix.mp hscheme
      rw [← htail]
      rfl
    · exact ⟨"", by simp, _, digits, rest, rfl, hprovided, hdigits, hrest⟩
  · rintro ⟨scheme, hscheme, provided, digits, rest, hheader, hprovided, hdigits, hrest⟩
    refine ⟨digits, rest, ?_, hdigits, hrest⟩
    rw [providedSignature, hheader]
    rcases List.mem_cons.mp hscheme with rfl | hscheme
    · -- without a scheme there is none to take away
      have hnot : signatureScheme.toList.isPrefixOf provided = false :=
        spelling_not_scheme hmac_ne hprovided hdigits
      change lowBytes (if signatureScheme.toList.isPrefixOf provided = true then _ else provided) = _
      rw [hnot]
      exact hprovided
    · obtain rfl := List.mem_singleton.mp hscheme
      have hthere : signatureScheme.toList.isPrefixOf
          (signatureScheme.toList ++ provided) = true :=
        List.isPrefixOf_iff_prefix.mpr (List.prefix_append _ _)
      rw [if_pos hthere]
      exact hprovided

end Signatures

end ThalosBackend.Webhooks
