import ThalosBackend.Common.HttpException
import ThalosBackend.Common.MilestoneStatus

/-!
# The agreement lifecycle

`agreements/agreement-lifecycle.ts` with the two checks that are made of it:
`agreement.validator.ts` `validateTransition`, and `AgreementValidationService`. The status column
is text and may hold anything; a text that is `null` or missing is converted like any other value.

`AgreementValidationService` looks a status up with `in`, which also finds the names every object
inherits.
-/

set_option autoImplicit false

namespace ThalosBackend.Agreements

open Js (Value)

/-- `AGREEMENT_STATUSES`. -/
inductive AgreementStatus where
  | draft
  | pending
  | funded
  | active
  | inReview
  | completed
  | disputed
  | resolved
  | cancelled
  deriving DecidableEq

namespace AgreementStatus

def text : AgreementStatus → String
  | .draft => "draft"
  | .pending => "pending"
  | .funded => "funded"
  | .active => "active"
  | .inReview => "in_review"
  | .completed => "completed"
  | .disputed => "disputed"
  | .resolved => "resolved"
  | .cancelled => "cancelled"

/-- The status with this text. -/
def ofText? : String → Option AgreementStatus
  | "draft" => some .draft
  | "pending" => some .pending
  | "funded" => some .funded
  | "active" => some .active
  | "in_review" => some .inReview
  | "completed" => some .completed
  | "disputed" => some .disputed
  | "resolved" => some .resolved
  | "cancelled" => some .cancelled
  | _ => none

@[simp] theorem ofText?_text (status : AgreementStatus) : ofText? status.text = some status := by
  cases status <;> rfl

theorem ofText?_eq_some {s : String} {status : AgreementStatus} :
    ofText? s = some status ↔ s = status.text := by
  constructor
  · intro h
    unfold ofText? at h
    split at h <;> cases h <;> rfl
  · rintro rfl
    exact ofText?_text status

theorem text_inj {s t : AgreementStatus} : s.text = t.text ↔ s = t := by
  constructor
  · intro h
    have hst := ofText?_text s
    rw [h, ofText?_text] at hst
    exact (Option.some.inj hst).symm
  · rintro rfl
    rfl

end AgreementStatus

/-- `AGREEMENT_TRANSITIONS`. -/
def agreementTransitions : AgreementStatus → List AgreementStatus
  | .draft => [.pending, .cancelled]
  | .pending => [.funded, .active, .cancelled]
  | .funded => [.active, .cancelled]
  | .active => [.inReview, .disputed, .cancelled]
  | .inReview => [.completed, .active, .disputed]
  | .disputed => [.resolved, .active]
  | .completed => []
  | .resolved => []
  | .cancelled => []

/-- `isAgreementStatus(value)`, of a text. -/
def isAgreementStatus (value : String) : Bool := (AgreementStatus.ofText? value).isSome

/-- `isTerminalStatus(status)`. -/
def isTerminalStatus (status : AgreementStatus) : Bool := (agreementTransitions status).isEmpty

/-- `canTransition(from, to)`. -/
def canTransition (source target : String) : Bool :=
  match AgreementStatus.ofText? source, AgreementStatus.ofText? target with
  | some s, some t => decide (t ∈ agreementTransitions s)
  | _, _ => false

theorem canTransition_iff {source target : String} :
    canTransition source target = true ↔ ∃ s t : AgreementStatus, source = s.text ∧
      target = t.text ∧ t ∈ agreementTransitions s := by
  unfold canTransition
  constructor
  · intro h
    split at h
    · rename_i s t hs ht
      exact ⟨s, t, AgreementStatus.ofText?_eq_some.mp hs, AgreementStatus.ofText?_eq_some.mp ht,
        of_decide_eq_true h⟩
    · cases h
  · rintro ⟨s, t, rfl, rfl, h⟩
    simpa using h

/-- No transition stays where it is. -/
theorem canTransition_ne {source target : String} (h : canTransition source target = true) :
    source ≠ target := by
  obtain ⟨s, t, rfl, rfl, hst⟩ := canTransition_iff.mp h
  intro heq
  obtain rfl := AgreementStatus.text_inj.mp heq
  revert hst
  cases s <;> decide

/-- A terminal status has no transition. -/
theorem not_canTransition_of_terminal {status : AgreementStatus} (h : isTerminalStatus status = true)
    (target : String) : canTransition status.text target = false := by
  rw [Bool.eq_false_iff]
  intro hstep
  obtain ⟨s, t, hs, -, hst⟩ := canTransition_iff.mp hstep
  obtain rfl := AgreementStatus.text_inj.mp hs
  rw [isTerminalStatus, List.isEmpty_iff] at h
  simp [h] at hst

/-! ## Errors of the validators -/

structure ValidationErrorDetail where
  field : String
  code : String
  message : String
  deriving DecidableEq

structure ValidationError where
  code : String
  details : List ValidationErrorDetail
  deriving DecidableEq

def ValidationErrorDetail.value (detail : ValidationErrorDetail) : Value :=
  .record [("field", .string detail.field), ("code", .string detail.code),
    ("message", .string detail.message)]

def ValidationError.value (error : ValidationError) : Value :=
  .record [("code", .string error.code), ("details", .array (error.details.map (·.value)))]

/-- `{ success, error }`. -/
abbrev ValidationResult := Except ValidationError Unit

/-- `errors.length > 0 ? errResult(errors) : okResult()`. -/
def errResult (details : List ValidationErrorDetail) : ValidationResult :=
  if details.isEmpty then .ok () else .error ⟨"VALIDATION_ERROR", details⟩

theorem errResult_eq_ok {details : List ValidationErrorDetail} :
    errResult details = .ok () ↔ details = [] := by
  cases details <;> simp [errResult]

/-- `{ success: false, error }` as the body of a 400 answer. -/
def failureBody (error : Value) : Value := .record [("success", .bool false), ("error", error)]

/-! ## The two validators -/

/-- The text of the statuses a status may move to. -/
def allowedText (source : AgreementStatus) (none : String) : String :=
  if (agreementTransitions source).isEmpty then none
  else String.intercalate ", " ((agreementTransitions source).map AgreementStatus.text)

/-- The error of a text that is no status. -/
def unknownStatus (status : String) : List ValidationErrorDetail :=
  if isAgreementStatus status then []
  else [⟨"status", "INVALID_STATUS", "\"" ++ status ++ "\" is not a valid agreement status"⟩]

theorem unknownStatus_eq_nil {status : String} :
    unknownStatus status = [] ↔ ∃ s, AgreementStatus.ofText? status = some s := by
  unfold unknownStatus isAgreementStatus
  cases AgreementStatus.ofText? status <;> simp

/-- `validateTransition(from, to)` of `agreement.validator.ts`. -/
def validateTransition (source target : String) : ValidationResult :=
  match AgreementStatus.ofText? source, AgreementStatus.ofText? target with
  | some s, some t =>
    errResult (if t ∈ agreementTransitions s then [] else
      [⟨"status", "INVALID_TRANSITION", "Invalid status transition \"" ++ source ++ "\" → \"" ++
        target ++ "\". Allowed from \"" ++ source ++ "\": " ++
        allowedText s "none (terminal status)"⟩])
  | _, _ => errResult (unknownStatus source ++ unknownStatus target)

/-- The names every object inherits. -/
def isInheritedName (name : String) : Bool :=
  name ∈ ["constructor", "__defineGetter__", "__defineSetter__", "hasOwnProperty",
    "__lookupGetter__", "__lookupSetter__", "isPrototypeOf", "propertyIsEnumerable", "toString",
    "valueOf", "__proto__", "toLocaleString"]

/-- `status in VALID_TRANSITIONS`. -/
def inValidTransitions (status : String) : Bool :=
  isAgreementStatus status || isInheritedName status

/-- `validateTransition(from, to)` of `AgreementValidationService`: the reason of a refusal, if any.
What an inherited name leads to is no list, and asking it `includes` throws. -/
def AgreementValidationService.validateTransition (source target : String) :
    Except HttpException (Option String) :=
  if !inValidTransitions source then
    .ok (some ("Unknown source status: \"" ++ source ++ "\""))
  else if !inValidTransitions target then
    .ok (some ("Unknown target status: \"" ++ target ++ "\""))
  else if source = target then
    .ok (some ("Transition to the same status (\"" ++ source ++ "\" → \"" ++ target ++
      "\") is a no-op"))
  else match AgreementStatus.ofText? source with
    | none => .error .internal
    | some s =>
      if ∃ t ∈ agreementTransitions s, t.text = target then .ok none
      else .ok (some ("Invalid transition: \"" ++ source ++ "\" → \"" ++ target ++
        "\". Allowed targets: " ++ allowedText s "(none — terminal state)"))

theorem validateTransition_eq_ok {source target : String} :
    validateTransition source target = .ok () ↔ canTransition source target = true := by
  unfold validateTransition canTransition
  split
  · rename_i s t hs ht
    rw [errResult_eq_ok]
    by_cases h : t ∈ agreementTransitions s <;> simp [h]
  · rename_i hunknown
    -- one of the two texts is no status, and is reported
    rw [errResult_eq_ok, List.append_eq_nil_iff, unknownStatus_eq_nil, unknownStatus_eq_nil]
    simp only [Bool.false_eq_true, iff_false, not_and]
    rintro ⟨s, hs⟩ ⟨t, ht⟩
    exact hunknown s t hs ht

/-- The service accepts exactly the transitions. -/
theorem AgreementValidationService.validateTransition_eq_ok {source target : String} :
    AgreementValidationService.validateTransition source target = .ok none ↔
      canTransition source target = true := by
  constructor
  · intro h
    unfold AgreementValidationService.validateTransition at h
    split at h
    · cases h
    split at h
    · cases h
    split at h
    · cases h
    split at h
    · cases h
    · rename_i s hs
      split at h
      · rename_i hallowed
        obtain ⟨t, ht, htext⟩ := hallowed
        exact canTransition_iff.mpr ⟨s, t, AgreementStatus.ofText?_eq_some.mp hs, htext.symm, ht⟩
      · cases h
  · intro h
    have hne := canTransition_ne h
    obtain ⟨s, t, rfl, rfl, hst⟩ := canTransition_iff.mp h
    have hallowed : ∃ t' ∈ agreementTransitions s, t'.text = t.text := ⟨t, hst, rfl⟩
    simp [AgreementValidationService.validateTransition, inValidTransitions, isAgreementStatus, hne,
      hallowed]

end ThalosBackend.Agreements
