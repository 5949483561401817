import ThalosBackend.Js.Coercion

/-!
# Milestone statuses

`common/milestone-status.ts`. The status of a Trustless Work milestone is free text; approval and
release are read from its flags. A milestone read from an answer can be any JSON value, and `none`
is the `TypeError` of a value that has no fields or no `toLowerCase`.
-/

set_option autoImplicit false

namespace ThalosBackend

open Js (Value)

/-- `MILESTONE_STATUSES`. -/
inductive MilestoneStatus where
  | pending
  | approved
  | released
  | rejected
  deriving DecidableEq

namespace MilestoneStatus

def text : MilestoneStatus → String
  | .pending => "pending"
  | .approved => "approved"
  | .released => "released"
  | .rejected => "rejected"

/-- The status as JSON. -/
def value (status : MilestoneStatus) : Value := .string status.text

end MilestoneStatus

/-- `normalizeMilestoneStatus(raw)`, of any value. -/
def normalizeMilestoneStatus : Value → Option MilestoneStatus
  | .string "pending" => some .pending
  | .string "approved" => some .approved
  | .string "released" => some .released
  | .string "rejected" => some .rejected
  | _ => none

/-- `milestoneStatusFromTrustless(milestone, escrowReleased)`. Only ASCII letters have a lower case
that occurs in `rejected`. -/
def milestoneStatusFromTrustless (milestone escrowReleased : Value) : Option MilestoneStatus :=
  let flags := milestone.field "flags"
  if escrowReleased.truthy then some .released
  else if milestone.isNullish then none
  else if (flags.field "released").truthy then some .released
  else if (milestone.field "approved").truthy || (flags.field "approved").truthy then some .approved
  else match milestone.field "status" with
    | .undefined | .null => some .pending
    | .string s => if s.toLower = "rejected" then some .rejected else some .pending
    | _ => none

/-- A canonical text is its own status. -/
@[simp] theorem normalizeMilestoneStatus_value (status : MilestoneStatus) :
    normalizeMilestoneStatus status.value = some status := by
  cases status <;> rfl

end ThalosBackend
