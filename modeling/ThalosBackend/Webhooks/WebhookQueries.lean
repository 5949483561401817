import ThalosBackend.Agreements.Interleaving

/-!
# What a webhook asks for

A webhook updates the agreements with a contract id, right after it has read the agreement with that
contract id. A milestone update comes only after a row was found. A status update comes also when none
was found, and then nothing has been checked.
-/

set_option autoImplicit false

namespace ThalosBackend.Webhooks

open Js (Timestamp Value)
open Calls (Follows Only)
open Agreements

/-- The query is one of a webhook, after these. -/
def Asks (c : AgreementCall) (history : QueryHistory) : Prop :=
  match c with
  | .insertAgreement _ | .deleteAgreement _ | .updateAgreement _ _ | .getAgreement _ => False
  | .changeStatusByContract contractId target updates => updates.contractId = none ∧
      updates.milestones = none ∧ updates.status = some (some target) ∧
      ∃ found before, history = ⟨.findByContract contractId, .ok found⟩ :: before ∧
        ∀ a, found = some a → canTransition (statusText a.status) target = true
  | .updateByContract contractId updates => updates.contractId = none ∧ updates.status = none ∧
      ∃ a before, history = ⟨.findByContract contractId, .ok (some a)⟩ :: before
  | _ => True

variable {history : QueryHistory}

/-- The discipline of a webhook. -/
abbrev AsksOnly {α : Type} (p : AgreementProgram α) (history : QueryHistory) : Prop :=
  Follows (fun _ _ => True) Asks (fun _ _ => True) p history

theorem logActivity_asks (row : Activity) : AsksOnly (logActivity row) history :=
  Calls.follows_ask trivial fun _ _ => Calls.follows_done trivial

theorem dispatchNotification_asks (now : Timestamp) (status : AgreementStatus)
    (agreement : Agreement) : AsksOnly (dispatchNotification now status agreement) history := by
  have hemit : ∀ event, AsksOnly (emit event) history := by
    intro event
    exact Calls.follows_ask trivial fun _ _ => Calls.follows_done trivial
  cases status with
  | funded => exact hemit _
  | completed => exact hemit _
  | disputed => exact hemit _
  | _ => exact Calls.follows_done trivial

theorem writeStatus_asks (now : Timestamp) (payload : Value) {contractId : String}
    {target : AgreementStatus} {found : Option Agreement}
    (hfound : ∀ a, found = some a → canTransition (statusText a.status) target.text = true) :
    AsksOnly (writeStatus now payload contractId target)
      (⟨.findByContract contractId, .ok found⟩ :: history) := by
  refine Calls.follows_ask ⟨rfl, rfl, rfl, found, history, rfl, hfound⟩ fun x _ => ?_
  match x with
  | .error e => exact Calls.follows_fail _
  | .ok none =>
      refine Calls.follows_ask trivial fun y _ => ?_
      split
      · exact Calls.follows_fail _
      · exact Calls.follows_done trivial
  | .ok (some row) =>
      apply (logActivity_asks _).bind
      intro _ _
      exact dispatchNotification_asks _ _ _

theorem applyStatusUpdate_asks (now : Timestamp) (payload : Value) (contractId : String)
    (target : AgreementStatus) :
    AsksOnly (applyStatusUpdate now payload contractId target) history := by
  refine Calls.follows_ask trivial fun x _ => ?_
  match x with
  | .error e => exact Calls.follows_fail _
  | .ok none =>
      apply writeStatus_asks
      intro a ha
      cases ha
  | .ok (some current) =>
      dsimp only
      split
      · exact logActivity_asks _
      · rename_i hvalid
        apply writeStatus_asks
        intro a ha
        cases ha
        exact validateTransition_eq_ok.mp hvalid

theorem applyMilestoneUpdate_asks (now : Timestamp) (payload : Value) (contractId : String) :
    AsksOnly (applyMilestoneUpdate now payload contractId) history := by
  refine Calls.follows_ask trivial fun x _ => ?_
  match x with
  | .error e => exact Calls.follows_done trivial
  | .ok none => exact Calls.follows_done trivial
  | .ok (some agreement) =>
      refine Calls.follows_ofExcept fun edited _ => ?_
      cases edited with
      | none => exact Calls.follows_done trivial
      | some milestones =>
          refine Calls.follows_ask ⟨rfl, rfl, agreement, history, rfl⟩ fun y _ => ?_
          cases y with
          | error e => exact Calls.follows_fail _
          | ok _ => exact logActivity_asks _

theorem applyInfoUpdate_asks (payload : Value) (contractId : String) :
    AsksOnly (applyInfoUpdate payload contractId) history := by
  refine Calls.follows_ask trivial fun x _ => ?_
  split
  · exact Calls.follows_done trivial
  · split
    · exact logActivity_asks _
    · exact Calls.follows_fail _

theorem handleEvent_asks (now : Timestamp) (payload : Value) :
    AsksOnly (handleEvent now payload) history := by
  unfold handleEvent
  split
  · split
    · rename_i config _
      cases config with
      | statusUpdate target => exact applyStatusUpdate_asks now payload _ target
      | milestoneUpdate => exact applyMilestoneUpdate_asks now payload _
      | info => exact applyInfoUpdate_asks payload _
      | withoutAction => exact Calls.follows_done trivial
      | notStored => exact Calls.follows_fail _
    · exact Calls.follows_done trivial
  · exact Calls.follows_fail _

end ThalosBackend.Webhooks
