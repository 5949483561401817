import ThalosBackend.Agreements.AgreementAccess
import ThalosBackend.InternalTrustless.EscrowRead
import ThalosBackend.Js.IsoDate

/-!
# The synchronisation with Trustless Work

`agreements/sync/agreement-sync.service.ts`. What Trustless Work answers while an operation runs is
given with the operation: any status and any JSON value, or an error of the request. The fields of
an escrow are read the way JavaScript reads them, whatever they hold.

A status is looked up in a table that is an object, so the names every object inherits are found as
well; what they lead to is a function, which has no JSON form. `undefined` stands for it.
-/

set_option autoImplicit false

namespace ThalosBackend.Agreements

open Js (Number Timestamp Value nonEmpty)
open Calls (ask)
open InternalTrustless (Relayed)
open Wallets (Reply)

/-! ## Reading an escrow -/

/-- What the two requests of `fetchTrustlessEscrow` are answered with. -/
structure Fetch where
  direct : Relayed
  fallback : Relayed

/-- `escrows.find((e) => e.id === contractId)`; `none` when an item has no fields. -/
def findEscrow (contractId : String) : List Value → Option (Option Value)
  | [] => some none
  | escrow :: rest =>
    if escrow.isNullish then none
    else if escrow.field "id" = .string contractId then some (some escrow)
    else findEscrow contractId rest

/-- The escrow of an answer: the item with the id, the first item, or the answer itself. -/
def escrowOf (contractId : String) : Value → Value
  | .array items =>
    match findEscrow contractId items with
    | none => .null
    | some (some escrow) => escrow
    | some none => items.headD .null
  | data => data

/-- `fetchTrustlessEscrow(contractId)`. -/
def fetchTrustlessEscrow (contractId : String) (fetch : Fetch) : Value :=
  match fetch.direct with
  | .error _ => .null
  | .ok direct =>
    if 200 ≤ direct.status ∧ direct.status < 300 ∧ direct.data.truthy then
      escrowOf contractId direct.data
    else match fetch.fallback with
      | .error _ => .null
      | .ok fallback =>
        if 400 ≤ fallback.status then .null
        else if !fallback.data.truthy then .null
        else escrowOf contractId fallback.data

/-- `{ valid, escrow, error }`. -/
structure ValidateContractResult where
  valid : Bool
  escrow : Option Value := none
  error : Option String := none
  deriving DecidableEq

/-- `validateContractOnTrustless(contractId)`. -/
def validateContractOnTrustless (contractId : String) (fetch : Fetch) : ValidateContractResult :=
  let escrow := fetchTrustlessEscrow contractId fetch
  if escrow.truthy then { valid := true, escrow := some escrow }
  else { valid := false
         error := some ("Contract \"" ++ contractId ++ "\" not found on Trustless Work") }

/-! ## Statuses -/

/-- `TW_TO_THALOS_STATUS[status] ?? status`, of a status with this text. -/
def twToThalosStatus (text : String) (status : Value) : Value :=
  if text = "created" then .string "pending"
  else if text ∈ ["funded", "active", "completed", "cancelled", "disputed"] then .string text
  else if text = "__proto__" then .object []
  else if isInheritedName text then .undefined
  else status

/-- `THALOS_TO_TW_STATUS[status]`. -/
def thalosToTwStatus (status : AgreementStatus) : Option String :=
  match status with
  | .pending => some "created"
  | .funded | .active | .completed | .cancelled | .disputed => some status.text
  | _ => none

/-- The value a text column takes from a JSON value; `undefined` is not sent. -/
def columnValue : Value → Option (Option String)
  | .undefined => none
  | .null => some none
  | .string s => some (some s)
  | v => v.stringify.map some

/-- `statusOrder`. -/
def statusOrder : List Value :=
  [.string "pending", .string "funded", .string "active", .string "in_review", .string "completed"]

/-- `statusOrder.indexOf(status)`. -/
def statusIndex (status : Value) : ℤ :=
  if status ∈ statusOrder then statusOrder.idxOf status else -1

inductive SyncDirection where
  | thalosToTw
  | twToThalos
  | alreadyInSync
  deriving DecidableEq

def SyncDirection.text : SyncDirection → String
  | .thalosToTw => "thalos_to_tw"
  | .twToThalos => "tw_to_thalos"
  | .alreadyInSync => "already_in_sync"

/-- Which side is ahead; on a tie that of Trustless Work. -/
def syncDirection (current : String) (mapped : Value) : SyncDirection :=
  if .string current = mapped then .alreadyInSync
  else if statusIndex mapped < statusIndex (.string current) then .thalosToTw
  else .twToThalos

/-! ## Results -/

structure SyncResult where
  synced : Bool
  direction : Option SyncDirection := none
  actions : List String
  errors : List String
  deriving DecidableEq

structure ReconcileResult where
  reconciled : Bool
  divergence : Option String := none
  resolution : Option String := none
  actions : List String
  deriving DecidableEq

/-- `logSyncActivity(agreementId, action, details)`. -/
def logSyncActivity (now : Timestamp) (agreementId action : String)
    (details : List (String × Value)) : AgreementProgram Unit :=
  logActivity
    { agreementId
      actorWallet := "SYNC_ENGINE"
      action := "sync_" ++ action
      details := .record (details ++ [("timestamp", .string (Js.isoText now))]) }

/-! ## Participants -/

/-- The participant an escrow names under a field, unless there is one already. -/
def namedParticipant (agreementId : String) (existing : List Participant) (escrow : Value)
    (role : String) : Except HttpException (List Participant) :=
  let named := escrow.field role
  if !named.truthy then .ok []
  else match named.toText with
    | none => .error .internal
    | some text =>
      if existing.any fun p => p.walletAddress ++ ":" ++ p.role = text ++ ":" ++ role then .ok []
      else .ok [⟨agreementId, ((columnValue named).bind id).getD "", role⟩]

/-- `syncParticipants(agreementId, escrow)`. -/
def syncParticipants (agreementId : String) (escrow : Value) : AgreementProgram Unit := do
  let reply ← ask (AgreementCall.listParticipants agreementId)
  let existing : List Participant := match reply with
    | .ok rows => rows
    | .error _ => []
  let sender ← Calls.ofExcept (namedParticipant agreementId existing escrow "sender")
  let receiver ← Calls.ofExcept (namedParticipant agreementId existing escrow "receiver")
  let approver ← Calls.ofExcept (namedParticipant agreementId existing escrow "approver")
  let toInsert := sender ++ receiver ++ approver
  if toInsert.isEmpty then return ()
  else
    let _ ← ask (AgreementCall.insertParticipants toInsert)
    return ()

/-! ## Sync -/

/-- The part of `doSync` that writes: the status comes from Trustless Work. -/
def pullStatus (now : Timestamp) (agreementId contractId current : String) (escrow mapped : Value)
    (actions : List String) : AgreementProgram SyncResult := do
  match ← ask (AgreementCall.updateAgreement agreementId
      { status := columnValue mapped, updatedAt := now }) with
  | .error e =>
    return ⟨false, some .twToThalos, actions, ["Failed to update Thalos status: " ++ e.message]⟩
  | .ok () =>
    let actions := actions ++ ["Status updated in Thalos: \"" ++ current ++ "\" → \"" ++
      mapped.toText.getD "" ++ "\""]
    let details : List (String × Value) := [("fromStatus", .string current), ("toStatus", mapped),
      ("twRawStatus", escrow.field "status"), ("contractId", .string contractId)]
    if (escrow.field "sender").truthy ∨ (escrow.field "receiver").truthy then
      syncParticipants agreementId escrow
      logSyncActivity now agreementId "pulled_from_tw" details
      return ⟨true, some .twToThalos, actions ++ ["Participants synced from TW"], []⟩
    else
      logSyncActivity now agreementId "pulled_from_tw" details
      return ⟨true, some .twToThalos, actions, []⟩

/-- `doSync` for an escrow that was fetched. -/
def syncWith (now : Timestamp) (agreement : Agreement) (contractId : String) (escrow : Value) :
    AgreementProgram SyncResult := do
  match (escrow.field "status").toText with
  | none => .fail .internal
  | some text =>
    let fetched := "Fetched escrow " ++ contractId ++ " from TW (status: " ++ text ++ ")"
    let mapped := twToThalosStatus text (escrow.field "status")
    let current := agreement.status.getD "pending"
    let direction := syncDirection current mapped
    let actions := [fetched, "Sync direction: " ++ direction.text ++ " (Thalos: \"" ++ current ++
      "\", TW mapped: \"" ++ mapped.toText.getD "" ++ "\")"]
    match direction with
    | .alreadyInSync =>
      logSyncActivity now agreement.id "already_in_sync"
        [("status", .string current), ("contractId", .string contractId)]
      return ⟨true, some .alreadyInSync, [fetched, "Statuses match — already in sync"], []⟩
    | .twToThalos => pullStatus now agreement.id contractId current escrow mapped actions
    | .thalosToTw =>
      logSyncActivity now agreement.id "push_pending"
        [("fromStatus", .string current), ("toStatus", mapped), ("contractId", .string contractId)]
      return ⟨true, some .thalosToTw, actions ++ ["Thalos status \"" ++ current ++
        "\" is ahead of TW \"" ++ mapped.toText.getD "" ++
        "\" — deploy/fund/complete on TW client-side"], []⟩

/-- `doSync(agreementId)`. -/
def doSync (now : Timestamp) (agreementId : String) (fetch : Fetch) :
    AgreementProgram SyncResult := do
  match ← ask (AgreementCall.getAgreement agreementId) with
  | .error e => return ⟨false, none, [], [e.message]⟩
  | .ok agreement =>
    match nonEmpty agreement.contractId with
    | none => return ⟨true, none, ["No contract_id linked — skipping TW sync"], []⟩
    | some contractId =>
      let escrow := fetchTrustlessEscrow contractId fetch
      if escrow.truthy then syncWith now agreement contractId escrow
      else
        logSyncActivity now agreementId "fetch_failed" [("contractId", .string contractId)]
        return ⟨false, none, [], ["Could not fetch escrow from Trustless Work"]⟩

/-! ## Reconcile -/

/-- `value.length`. -/
def lengthOf : Value → Value
  | .array items => .number (.finite items.length)
  | .string s => .number (.finite (s.toList.map fun c => if c.toNat < 0x10000 then 1 else 2).sum)
  | v => v.field "length"

/-- `value[index]`. What an index of a text holds has no fields, like the text itself. -/
def itemOf (index : ℕ) : Value → Value
  | .array items => items.getD index .undefined
  | .string s => .string s
  | v => v.field (toString index)

/-- The status of one milestone after `doReconcile`, when the loop gets to it. -/
def reconcileMilestone (escrow : Value) (limit : Number) (entry : Milestone × ℕ) :
    Except HttpException Milestone :=
  let (milestone, index) := entry
  if Number.lt (.finite index) limit then
    match milestoneStatusFromTrustless (itemOf index (escrow.field "milestones"))
        ((escrow.field "flags").field "released") with
    | none => .error .internal
    | some status => .ok { milestone with status }
  else .ok milestone

/-- The milestones after the loop of `doReconcile`. -/
def reconcileMilestones (escrow : Value) (milestones : List Milestone) :
    Except HttpException (List Milestone) :=
  match (lengthOf (escrow.field "milestones")).toNumber with
  | none => .error .internal
  | some limit => milestones.zipIdx.mapM (reconcileMilestone escrow limit)

/-- What the loop reports of the milestones it changed. -/
def reconcileActions (before after : List Milestone) : List String :=
  (before.zip after).zipIdx.filterMap fun ((old, new), index) =>
    if old.status = new.status then none
    else some ("Reconciled milestone[" ++ toString index ++ "] status: \"" ++ old.status.text ++
      "\" → \"" ++ new.status.text ++ "\"")

/-- The entry that ends the second part of `doReconcile`. -/
def logReconciled (now : Timestamp) (agreementId : String) (agreement : Agreement)
    (escrow : Value) : AgreementProgram Unit :=
  let count := lengthOf (escrow.field "milestones")
  logSyncActivity now agreementId "reconcile_completed"
    [("thalosStatus", nullableText agreement.status), ("twStatus", escrow.field "status"),
      ("milestonesReconciled", if count.isNullish then .number 0 else count)]

/-- The second part of `doReconcile`, with a second answer of Trustless Work: what it did. -/
def correctMilestones (now : Timestamp) (agreementId : String) (fetch : Fetch) :
    AgreementProgram (List String) := do
  match ← ask (AgreementCall.getAgreement agreementId) with
  | .error _ => return []
  | .ok agreement =>
    match nonEmpty agreement.contractId with
    | none => return []
    | some contractId =>
      let escrow := fetchTrustlessEscrow contractId fetch
      if !escrow.truthy then return []
      else if (escrow.field "milestones").truthy then
        let milestones ← Calls.ofExcept (reconcileMilestones escrow agreement.milestones)
        -- nobody looks at the result of this update
        let _ ← ask (AgreementCall.updateAgreement agreementId
          { milestones := some milestones, updatedAt := now })
        logReconciled now agreementId agreement escrow
        return reconcileActions agreement.milestones milestones
      else
        logReconciled now agreementId agreement escrow
        return []

/-- `doReconcile(agreementId)`, with what Trustless Work answers first and then. -/
def doReconcile (now : Timestamp) (agreementId : String) (first second : Fetch) :
    AgreementProgram ReconcileResult := do
  let syncResult ← doSync now agreementId first
  if syncResult.direction = some .alreadyInSync then
    return { reconciled := true, actions := syncResult.actions }
  else if !syncResult.synced ∧ syncResult.errors ≠ [] then
    return { reconciled := false
             divergence := some (String.intercalate "; " syncResult.errors)
             resolution := some "Could not reconcile — errors during sync"
             actions := syncResult.actions }
  else
    let reconciled ← correctMilestones now agreementId second
    let actions := syncResult.actions ++ reconciled
    return { reconciled := !actions.isEmpty
             divergence := syncResult.direction.map fun _ => "Status divergence: Thalos vs TW"
             resolution := some "Divergence corrected"
             actions }

/-! ## Status transitions -/

/-- The event of a status an agreement has reached. -/
def statusEvent (now : Timestamp) (agreement : Agreement) (agreementId wallet toStatus : String) :
    Option AgreementEvent :=
  let asset := agreement.asset.getD "USDC"
  if toStatus = "funded" then
    some (.funded agreementId agreement.title agreement.amount asset wallet)
  else if toStatus = "completed" ∨ toStatus = "resolved" then
    some (.completed agreementId agreement.title agreement.amount asset now)
  else none

/-- The event, if the status has one. -/
def emitStatus (now : Timestamp) (agreement : Agreement) (agreementId wallet toStatus : String) :
    AgreementProgram Unit :=
  match statusEvent now agreement agreementId wallet toStatus with
  | some event => emit event
  | none => return ()

/-- `syncStatusTransition(agreementId, fromStatus, toStatus)`, which runs behind an answer. -/
def syncStatusTransition (now : Timestamp) (agreementId fromStatus toStatus : String) :
    AgreementProgram SyncResult := do
  match ← Calls.ofExcept (AgreementValidationService.validateTransition fromStatus toStatus) with
  | some reason =>
    logSyncActivity now agreementId "transition_rejected"
      [("from", .string fromStatus), ("to", .string toStatus), ("reason", .string reason)]
    return ⟨false, none, [], [reason]⟩
  | none =>
    let validated := "Transition \"" ++ fromStatus ++ "\" → \"" ++ toStatus ++ "\" validated"
    match ← ask (AgreementCall.getAgreement agreementId) with
    | .error _ => return ⟨false, none, [validated], ["Agreement not found"]⟩
    | .ok agreement =>
      let target := (AgreementStatus.ofText? toStatus).bind thalosToTwStatus
      let actions := if (nonEmpty agreement.contractId).isSome ∧ target.isSome then
        [validated, "Status \"" ++ toStatus ++
          "\" logged for TW sync — user must sign transaction on client"] else [validated]
      emitStatus now agreement agreementId agreement.createdBy toStatus
      logSyncActivity now agreementId "transition_applied"
        [("from", .string fromStatus), ("to", .string toStatus),
          ("contractId", nullableText agreement.contractId)]
      return ⟨true, some .thalosToTw, actions, []⟩

end ThalosBackend.Agreements
