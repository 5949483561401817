import ThalosBackend.Common.HttpException
import ThalosBackend.Disputes.DisputeDistributions
import ThalosBackend.Js.Double

/-!
# Reading one escrow

`internal-trustless/escrow-read.helper.ts`: the snapshot of an escrow that Trustless Work answers
with, the amount a resolution splits, and the checks a resolution passes before it is built. Every
field of the answer is untyped: what cannot be read as a number is zero, what is not a text that
says something is absent, and only `true` is a set flag.
-/

set_option autoImplicit false

namespace ThalosBackend.InternalTrustless

open Js (Number Value)
open Disputes (EscrowKind)

/-- The escrow types of the request DTOs. -/
abbrev ServiceType := EscrowKind

/-- What Trustless Work answers: the status and the body, parsed when it is JSON. -/
structure Reply where
  status : ℕ
  data : Value

/-- `relayToTrustless` for a reader: an answer, or the error it threw. -/
abbrev Relayed := Except HttpException Reply

structure EscrowRoles where
  approver : Option String := none
  serviceProvider : Option String := none
  releaseSigner : Option String := none
  disputeResolver : Option String := none
  receiver : Option String := none
  platformAddress : Option String := none
  deriving DecidableEq

structure MilestoneFlags where
  disputed : Bool
  released : Bool
  resolved : Bool
  approved : Bool
  deriving DecidableEq

structure EscrowMilestoneSnapshot where
  description : Option String := none
  status : Option String := none
  amount : Option Number := none
  approved : Bool := false
  flags : Option MilestoneFlags := none
  deriving DecidableEq

structure EscrowFlags where
  disputed : Bool
  released : Bool
  resolved : Bool
  deriving DecidableEq

/-- The asset of an escrow, which recipients need a trustline for. -/
structure EscrowAsset where
  address : Option String
  symbol : Option String
  deriving DecidableEq

structure EscrowSnapshot where
  contractId : String
  type : ServiceType
  amount : Number
  balance : Number
  roles : EscrowRoles
  flags : EscrowFlags
  milestones : List EscrowMilestoneSnapshot
  trustline : Option EscrowAsset
  deriving DecidableEq

/-! ## Parsing -/

/-- A number, or a text that is one; everything else is zero. -/
def toNumber : Value → Number
  | .number x => if x.isFinite then x else 0
  | .string s =>
      if Js.trim s ≠ "" then
        let parsed := Number.stringToDouble s
        if parsed.isFinite then parsed else 0
      else 0
  | _ => 0

/-- A text that is not blank. -/
def optionalString : Value → Option String
  | .string s => if Js.trim s ≠ "" then some s else none
  | _ => none

/-- The value itself when it is a record, an empty one otherwise. -/
def orEmpty (value : Value) : Value := if value.isRecord then value else .object []

def parseMilestone (entry : Value) : EscrowMilestoneSnapshot :=
  let milestone := orEmpty entry
  let flags := if (milestone.field "flags").isRecord then some (milestone.field "flags") else none
  { description := optionalString (milestone.field "description")
    status := optionalString (milestone.field "status")
    amount := if (milestone.field "amount").isUndefined then none
      else some (toNumber (milestone.field "amount"))
    approved := (milestone.field "approved").isTrue ||
      (flags.map fun f => (f.field "approved").isTrue).getD false
    flags := flags.map fun f =>
      { disputed := (f.field "disputed").isTrue
        released := (f.field "released").isTrue
        resolved := (f.field "resolved").isTrue
        approved := (f.field "approved").isTrue } }

def parseMilestones : Value → List EscrowMilestoneSnapshot
  | .array entries => entries.map parseMilestone
  | _ => []

def parseRoles (roles : Value) : EscrowRoles where
  approver := optionalString (roles.field "approver")
  serviceProvider := optionalString (roles.field "serviceProvider")
  releaseSigner := optionalString (roles.field "releaseSigner")
  disputeResolver := optionalString (roles.field "disputeResolver")
  receiver := optionalString (roles.field "receiver")
  platformAddress := optionalString (roles.field "platformAddress")

def parseEscrow (raw : Value) : Option EscrowSnapshot :=
  if !raw.isRecord then none
  else (optionalString (raw.field "contractId")).map fun contractId =>
    let flags := orEmpty (raw.field "flags")
    { contractId
      type := if (raw.field "type").text? = some "multi-release" then .multiRelease
        else .singleRelease
      amount := toNumber (raw.field "amount")
      balance := toNumber (raw.field "balance")
      roles := parseRoles (orEmpty (raw.field "roles"))
      flags :=
        { disputed := (flags.field "disputed").isTrue
          released := (flags.field "released").isTrue
          resolved := (flags.field "resolved").isTrue }
      milestones := parseMilestones (raw.field "milestones")
      trustline := if (raw.field "trustline").isRecord then
          some
            { address := optionalString ((raw.field "trustline").field "address")
              symbol := optionalString ((raw.field "trustline").field "symbol") }
        else none }

/-- The message of an upstream error body; `none` when its conversion to text throws. -/
def upstreamMessage (data : Value) : Option String :=
  if data.hasField "message" then (data.field "message").toText
  else match data with
    | .string s => some s
    | _ => some (data.stringify.getD "undefined")

/-- The body of a 400 answer that passes on an upstream error. -/
def formatUpstreamError (data : Value) : Option Value :=
  (upstreamMessage data).map fun message =>
    .record [("success", .bool false),
      ("error", .record [("code", .string "UPSTREAM_ERROR"),
        ("details", .array [.record [("field", .string "upstream"),
          ("code", .string "UPSTREAM_ERROR"), ("message", .string message)]])])]

/-- The first item of a list answer, or the answer itself. -/
def firstEscrow : Value → Value
  | .array items => items.headD .undefined
  | data => data

/-- `readEscrow(contractId)`, from the answer to `GET helper/get-escrow-by-contract-ids`. -/
def readEscrow (contractId : String) (relayed : Relayed) : Except HttpException EscrowSnapshot :=
  match relayed with
  | .error e => .error e
  | .ok result =>
    if 500 ≤ result.status then
      .error (.serviceUnavailable
        "Could not read the escrow from Trustless Work. Try again in a moment.")
    else if 400 ≤ result.status then
      match formatUpstreamError result.data with
      | some body => .error (.badRequestBody body)
      | none => .error .internal
    else match parseEscrow (firstEscrow result.data) with
      | some escrow => .ok escrow
      | none => .error (.notFound ("No escrow found for contract " ++ contractId))

/-! ## What a resolution splits, and what refuses it -/

/-- `milestones[index]`: lists have items at whole non-negative indices only. -/
def milestoneAt (milestones : List EscrowMilestoneSnapshot) :
    Number → Option EscrowMilestoneSnapshot
  | .finite q => if q.den = 1 ∧ 0 ≤ q then milestones[q.num.toNat]? else none
  | _ => none

/-- `Number(milestoneIndex)`; that of `undefined` is `NaN`. Which texts are whole numbers depends on
the rounding. -/
def indexNumber (milestoneIndex : Option String) : Number :=
  (milestoneIndex.map Number.stringToDouble).getD .nan

/-- What a resolution's percentages are percentages of. -/
def resolutionTotal (escrow : EscrowSnapshot) (type : ServiceType)
    (milestoneIndex : Option String) : Except HttpException Number :=
  if type = .singleRelease then
    if escrow.balance.le 0 then
      .error (.badRequest "This escrow holds no funds, so there is nothing to distribute.")
    else .ok escrow.balance
  else
    let index := indexNumber milestoneIndex
    if !index.isInteger || index.lt 0 || Number.le (.finite escrow.milestones.length) index then
      .error (.badRequest
        ("Milestone " ++ milestoneIndex.getD "(none)" ++ " does not exist on this escrow."))
    else match milestoneAt escrow.milestones index with
      -- excluded by the test above; the source would read a field of `undefined`
      | none => .error .internal
      | some milestone =>
        let nothing := HttpException.badRequest
          ("Milestone " ++ index.toText ++ " has no amount, so there is nothing to distribute.")
        match milestone.amount with
        | none => .error nothing
        | some amount =>
          if amount.le 0 then .error nothing
          -- never more than the contract holds, unless no balance was read
          else .ok (amount.min (if Number.lt 0 escrow.balance then escrow.balance else amount))

/-- Refuse a resolution the chain would refuse anyway. -/
def assertResolvable (toUpperCase : String → String) (escrow : EscrowSnapshot) (type : ServiceType)
    (disputeResolver : String) (milestoneIndex : Option String) : Except HttpException Unit :=
  if escrow.type ≠ type then
    .error (.badRequest ("This escrow is " ++ escrow.type.text ++ ", not " ++ type.text ++
      ". Resolving it needs the other endpoint."))
  else if ∃ expected ∈ escrow.roles.disputeResolver, expected ≠ "" ∧
      toUpperCase expected ≠ toUpperCase (Js.trim disputeResolver) then
    .error (.badRequest
      "This wallet is not the dispute resolver of this escrow, so it cannot resolve it.")
  else if escrow.flags.resolved then
    .error (.badRequest "This dispute was already resolved on-chain.")
  else if type = .singleRelease then
    if !escrow.flags.disputed then
      .error (.badRequest "This escrow is not in dispute, so there is nothing to resolve.")
    else .ok ()
  else match milestoneAt escrow.milestones (indexNumber milestoneIndex) with
    | none => .ok ()
    | some milestone =>
      match milestone.flags with
      | none => .ok ()
      | some flags =>
        if flags.released || flags.resolved then
          .error (.badRequest
            ("Milestone " ++ milestoneIndex.getD "undefined" ++ " is already settled."))
        else if !flags.disputed then
          .error (.badRequest ("Milestone " ++ milestoneIndex.getD "undefined" ++
            " is not in dispute, so there is nothing to resolve."))
        else .ok ()

/-! ## What the snapshot and the checks leave -/

theorem optionalString_ne_empty {value : Value} {s : String}
    (h : optionalString value = some s) : s ≠ "" := by
  cases value with
  | string t =>
      simp only [optionalString] at h
      split at h
      · rename_i hblank
        obtain rfl : t = s := by simpa using h
        rintro rfl
        exact hblank rfl
      · cases h
  | _ => cases h

/-- A snapshot that was read names a dispute resolver or none, never an empty text. -/
theorem disputeResolver_ne_empty {contractId : String} {relayed : Relayed}
    {escrow : EscrowSnapshot} (h : readEscrow contractId relayed = .ok escrow) :
    ∀ resolver ∈ escrow.roles.disputeResolver, resolver ≠ "" := by
  unfold readEscrow at h
  split at h
  · cases h
  · split at h
    · cases h
    · split at h
      · split at h <;> cases h
      · split at h
        · rename_i hparse
          cases h
          unfold parseEscrow at hparse
          split at hparse
          · cases hparse
          · obtain ⟨contractId, -, rfl⟩ := Option.map_eq_some_iff.mp hparse
            exact fun resolver hresolver => optionalString_ne_empty hresolver
        · cases h

end ThalosBackend.InternalTrustless
