import ThalosBackend.Agreements.AgreementsService

/-!
# The Trustless Work webhook

`webhooks/webhooks.service.ts`, from the moment the retry queue hands over a signed payload. Nothing
of a payload is validated beyond its signature and that an event and a contract id are there, so
every field is an arbitrary JSON value and is used the way JavaScript uses it.

An index that names no entry of the milestones may still name a property every list has. Writing to
it changes that shared object and leaves the milestones alone; writing to nothing, or to the length,
is a `TypeError`. What the rest of the process reads of the object is not followed: after a write to the
one that all lists inherit from (`namesPrototype`), a list in the place of a `milestone` has a status or
a description, and results about these leave such writes out.

The table of events inherits names, too. An event of such a name gets a job that changes nothing.
-/

set_option autoImplicit false

namespace ThalosBackend.Webhooks

open Js (Number Timestamp Value)
open Calls (ask)
open Wallets (Reply)
open Agreements

/-! ## Events -/

/-- The action of an event. What an inherited name leads to has none: the prototype of all objects is
stored in the job as an empty object, and a method is not stored. -/
inductive EventConfig where
  | statusUpdate (targetStatus : AgreementStatus)
  | milestoneUpdate
  | info
  | withoutAction
  | notStored
  deriving DecidableEq

/-- `TW_EVENT_MAP`. -/
def twEventMap : String → Option EventConfig
  | "escrow.funded" => some (.statusUpdate .funded)
  | "escrow.released" => some (.statusUpdate .completed)
  | "escrow.disputed" => some (.statusUpdate .disputed)
  | "contract.completed" => some (.statusUpdate .completed)
  | "contract.cancelled" => some (.statusUpdate .cancelled)
  | "agreement.created" => some .info
  | "agreement.updated" => some .info
  | "agreement.milestone_updated" => some .milestoneUpdate
  | "escrow.created" => some .info
  | "escrow.updated" => some .info
  | "escrow.milestone_updated" => some .milestoneUpdate
  | "escrow.dispute_created" => some (.statusUpdate .disputed)
  | "dispute.created" => some (.statusUpdate .disputed)
  | "milestone.completed" => some .milestoneUpdate
  | "milestone.approved" => some .milestoneUpdate
  | "milestone.rejected" => some .milestoneUpdate
  | "milestone.cancelled" => some .milestoneUpdate
  | event =>
    if event = "__proto__" then some .withoutAction
    else if isInheritedName event then some .notStored
    else none

/-! ## Status updates -/

/-- `dispatchNotification(status, agreement)`. -/
def dispatchNotification (now : Timestamp) (status : AgreementStatus) (agreement : Agreement) :
    AgreementProgram Unit :=
  let asset := agreement.asset.getD "USDC"
  match status with
  | .funded => emit (.funded agreement.id agreement.title agreement.amount asset "trustless-work")
  | .completed => emit (.completed agreement.id agreement.title agreement.amount asset now)
  | .disputed => emit (.notifyDisputeOpened agreement.id agreement.title
      "Dispute raised via Trustless Work" "trustless-work")
  | _ => return ()

/-- The update of a status event. -/
def webhookUpdates (now : Timestamp) (targetStatus : AgreementStatus) : AgreementUpdates where
  status := some (some targetStatus.text)
  fundedAt := if targetStatus = .funded then some now else none
  completedAt := if targetStatus = .completed then some now else none
  updatedAt := now

/-- The part of `applyStatusUpdate` that writes. -/
def writeStatus (now : Timestamp) (payload : Value) (contractId : String)
    (targetStatus : AgreementStatus) : AgreementProgram Unit := do
  match ← ask (AgreementCall.changeStatusByContract contractId targetStatus.text
      (webhookUpdates now targetStatus)) with
  | .error _ => .fail .internal
  | .ok none =>
    -- the agreement has the status already, or there is none
    match Reply.data (← ask (AgreementCall.findByContract contractId)) with
    | none => .fail .internal
    | some _ => return ()
  | .ok (some row) =>
    logActivity
      { agreementId := row.id
        actorWallet := "trustless-work-webhook"
        action := "webhook_status_changed_to_" ++ targetStatus.text
        details := .record [("event", payload.field "event"),
          ("contractId", payload.field "contractId")] }
    dispatchNotification now targetStatus row

/-- `applyStatusUpdate(payload, targetStatus)`. -/
def applyStatusUpdate (now : Timestamp) (payload : Value) (contractId : String)
    (targetStatus : AgreementStatus) : AgreementProgram Unit := do
  match ← ask (AgreementCall.findByContract contractId) with
  | .error _ => .fail .internal
  | .ok none => writeStatus now payload contractId targetStatus
  | .ok (some current) =>
    match validateTransition (statusText current.status) targetStatus.text with
    | .error reason =>
      logActivity
        { agreementId := current.id
          actorWallet := "trustless-work-webhook"
          action := "webhook_transition_rejected"
          details := .record [("event", payload.field "event"),
            ("contractId", payload.field "contractId"), ("from", nullableText current.status),
            ("to", .string targetStatus.text), ("reason", reason.value)] }
    | .ok () => writeStatus now payload contractId targetStatus

/-! ## Milestone updates -/

/-- The methods of a list. -/
def isArrayMethod (name : String) : Bool :=
  name ∈ ["at", "concat", "copyWithin", "entries", "every", "fill", "filter", "find", "findIndex",
    "findLast", "findLastIndex", "flat", "flatMap", "forEach", "includes", "indexOf", "join", "keys",
    "lastIndexOf", "map", "pop", "push", "reduce", "reduceRight", "reverse", "shift", "slice", "some",
    "sort", "splice", "toReversed", "toSorted", "toSpliced", "unshift", "values", "with"]

/-- The entry of a list of this length that a key names. -/
def entryIndex (key : String) (length : ℕ) : Option ℕ :=
  (List.range length).find? fun i => toString i = key

/-- `milestones[key].field = value`; `none` is a `TypeError`. -/
def writeEntry (key : String) (write : Milestone → Milestone) (milestones : List Milestone) :
    Option (List Milestone) :=
  match entryIndex key milestones.length with
  | some index => some (milestones.modify index write)
  | none => if isArrayMethod key || isInheritedName key then some milestones else none

/-- The milestones with the status of the payload; the log entry about a status that is not canonical
shows it as text. -/
def writeMilestoneStatus (key : String) (status : Value) (milestones : List Milestone) :
    Option (List Milestone) :=
  match normalizeMilestoneStatus status with
  | some normalized => writeEntry key (fun m => { m with status := normalized }) milestones
  | none => if status.truthy then status.toText.map fun _ => milestones else some milestones

/-- The milestones with the description of the payload. -/
def writeMilestoneDescription (key : String) (description : Value) (milestones : List Milestone) :
    Option (List Milestone) :=
  if description.truthy then writeEntry key (fun m => { m with description }) milestones
  else some milestones

/-- `payload.milestone?.index ?? payload.data?.milestone_index`. -/
def milestoneIndex (payload : Value) : Value :=
  let index := (payload.field "milestone").field "index"
  if index.isNullish then (payload.field "data").field "milestone_index" else index

/-- The payload names the object that all lists inherit from. -/
def namesPrototype (payload : Value) : Bool := (milestoneIndex payload).toText = some "__proto__"

/-- The milestones a payload makes of the stored ones: `none` when the request ends without writing,
an error when it throws. -/
def editMilestones (payload : Value) (milestones : List Milestone) :
    Except HttpException (Option (List Milestone)) :=
  let index := milestoneIndex payload
  let milestone := payload.field "milestone"
  if index.isUndefined then .ok none
  else match index.toNumber, index.toText with
    | some number, some key =>
      if number.lt 0 then .ok none
      else if Number.le (.finite milestones.length) number then .ok none
      else
        match (writeMilestoneStatus key (milestone.field "status") milestones).bind
            (writeMilestoneDescription key (milestone.field "description")) with
        | none => .error .internal
        | some edited => .ok (some edited)
    | _, _ => .error .internal

section Edits

variable {key : String} {milestones milestones' : List Milestone}

/-- A write leaves the list, or rewrites the entry its key names. -/
theorem writeEntry_cases {write : Milestone → Milestone}
    (h : writeEntry key write milestones = some milestones') :
    milestones' = milestones ∨ ∃ index, entryIndex key milestones.length = some index ∧
      milestones' = milestones.modify index write := by
  unfold writeEntry at h
  split at h
  · rename_i index hindex
    cases h
    exact .inr ⟨index, hindex, rfl⟩
  · split at h
    · cases h
      exact .inl rfl
    · cases h

/-- A status is written if it is a canonical one. -/
theorem writeMilestoneStatus_cases {status : Value}
    (h : writeMilestoneStatus key status milestones = some milestones') :
    milestones' = milestones ∨ ∃ normalized, normalizeMilestoneStatus status = some normalized ∧
      writeEntry key (fun m => { m with status := normalized }) milestones = some milestones' := by
  unfold writeMilestoneStatus at h
  split at h
  · rename_i normalized hnormalized
    exact .inr ⟨normalized, hnormalized, h⟩
  · split at h
    · -- the status is only shown
      obtain ⟨_, -, rfl⟩ := Option.map_eq_some_iff.mp h
      exact .inl rfl
    · cases h
      exact .inl rfl

/-- A description is written if there is one. -/
theorem writeMilestoneDescription_cases {description : Value}
    (h : writeMilestoneDescription key description milestones = some milestones') :
    milestones' = milestones ∨
      writeEntry key (fun m => { m with description }) milestones = some milestones' := by
  unfold writeMilestoneDescription at h
  split at h
  · exact .inr h
  · cases h
    exact .inl rfl

/-- A payload that writes has an index within the list, and its two writes go through. -/
theorem editMilestones_some {payload : Value}
    (h : editMilestones payload milestones = .ok (some milestones')) :
    ∃ number key between, (milestoneIndex payload).isUndefined = false ∧
      (milestoneIndex payload).toNumber = some number ∧ (milestoneIndex payload).toText = some key ∧
      number.lt 0 = false ∧ Number.le (.finite milestones.length) number = false ∧
      writeMilestoneStatus key ((payload.field "milestone").field "status") milestones =
        some between ∧
      writeMilestoneDescription key ((payload.field "milestone").field "description") between =
        some milestones' := by
  unfold editMilestones at h
  dsimp only at h
  split at h
  · cases h
  · rename_i hundefined
    split at h
    · rename_i number key hnumber hkey
      split at h
      · cases h
      · rename_i hnegative
        split at h
        · cases h
        · rename_i hlength
          split at h
          · cases h
          · rename_i edited hedited
            cases h
            obtain ⟨between, hstatus, hdescription⟩ := Option.bind_eq_some_iff.mp hedited
            exact ⟨number, key, between, Bool.eq_false_iff.mpr hundefined, hnumber, hkey,
              Bool.eq_false_iff.mpr hnegative, Bool.eq_false_iff.mpr hlength, hstatus, hdescription⟩
    · cases h

end Edits

/-- `applyMilestoneUpdate(payload)`. -/
def applyMilestoneUpdate (now : Timestamp) (payload : Value) (contractId : String) :
    AgreementProgram Unit := do
  match Reply.data (← ask (AgreementCall.findByContract contractId)) with
  | none => return ()
  | some agreement =>
    match ← Calls.ofExcept (editMilestones payload agreement.milestones) with
    | none => return ()
    | some milestones =>
      match ← ask (AgreementCall.updateByContract contractId
          { milestones := some milestones, updatedAt := now }) with
      | .error _ => .fail .internal
      | .ok () =>
        logActivity
          { agreementId := agreement.id
            actorWallet := "trustless-work-webhook"
            action := "webhook_milestone_updated"
            details := .record [("event", payload.field "event"),
              ("contractId", payload.field "contractId"),
              ("milestone_index", milestoneIndex payload)] }

/-! ## Other events -/

/-- `text.replace('.', '_')`. -/
def replaceDot (text : String) : String :=
  match text.toList.dropWhile (· ≠ '.') with
  | [] => text
  | _ :: rest => String.ofList (text.toList.takeWhile (· ≠ '.') ++ '_' :: rest)

/-- `applyInfoUpdate(payload)`. -/
def applyInfoUpdate (payload : Value) (contractId : String) : AgreementProgram Unit := do
  match Reply.data (← ask (AgreementCall.findByContract contractId)) with
  | none => return ()
  | some agreement =>
    match payload.field "event" with
    | .string event =>
      logActivity
        { agreementId := agreement.id
          actorWallet := "trustless-work-webhook"
          action := "webhook_event_" ++ replaceDot event
          details := .record [("event", .string event), ("contractId", payload.field "contractId"),
            ("data", payload.field "data")] }
    | _ => .fail .internal

/-- `processEvent(payload, config)`. -/
def processEvent (now : Timestamp) (payload : Value) (contractId : String) :
    EventConfig → AgreementProgram Unit
  | .statusUpdate targetStatus => applyStatusUpdate now payload contractId targetStatus
  | .milestoneUpdate => applyMilestoneUpdate now payload contractId
  | .info => applyInfoUpdate payload contractId
  | .withoutAction => return ()
  | .notStored => .fail .internal

/-- `handleEvent(payload)` and what the retry queue does for it. The event and the contract id are
used as texts; an event that is not in the table is not handled. -/
def handleEvent (now : Timestamp) (payload : Value) : AgreementProgram Unit :=
  match (payload.field "event").toText, (payload.field "contractId").toText with
  | some event, some contractId =>
    match twEventMap event with
    | some config => processEvent now payload contractId config
    | none => return ()
  | _, _ => .fail .internal

/-! ## What is quiet in them -/

theorem dispatchNotification_quiet (now : Timestamp) (status : AgreementStatus)
    (agreement : Agreement) : Quiet (dispatchNotification now status agreement) := by
  cases status with
  | funded => exact emit_quiet _
  | completed => exact emit_quiet _
  | disputed => exact emit_quiet _
  | _ => exact quiet_done _

theorem applyInfoUpdate_silent (payload : Value) (contractId : String) :
    Silent (applyInfoUpdate payload contractId) := by
  refine Calls.only_ask rfl fun reply => ?_
  split
  · exact Calls.only_done _
  · split
    · exact logActivity_silent _
    · exact Calls.only_fail _

theorem applyInfoUpdate_quiet (payload : Value) (contractId : String) :
    Quiet (applyInfoUpdate payload contractId) :=
  (applyInfoUpdate_silent payload contractId).quiet

end ThalosBackend.Webhooks
