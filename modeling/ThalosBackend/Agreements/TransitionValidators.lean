import ThalosBackend.Agreements.AgreementLifecycle

/-!
# The three answers about a transition

`canTransition` and the validator look a text up among the statuses. `AgreementValidationService` asks
whether it is `in` an object, and that holds of the names every object inherits too. What it finds under
such a name is no list of targets.

All three accept the same transitions, and the service throws for a source with an inherited name, unless
it has answered before it looks the source up (`transitionsAgree_iff`).
-/

set_option autoImplicit false

namespace ThalosBackend.Agreements

/-- The three answer alike, they refuse a text that is no status, and the service does not throw. -/
structure TransitionsAgree (source target : String) : Prop where
  answered : ∃ refusal, AgreementValidationService.validateTransition source target = .ok refusal
  service : AgreementValidationService.validateTransition source target = .ok none ↔
    canTransition source target = true
  validator : validateTransition source target = .ok () ↔ canTransition source target = true
  unknown : isAgreementStatus source = false ∨ isAgreementStatus target = false →
    canTransition source target = false

variable {source target : String}

/-- No status is called like an inherited name. -/
theorem isInheritedName_text (status : AgreementStatus) : isInheritedName status.text = false := by
  cases status <;> decide

/-- What is inherited is no status. -/
theorem ofText?_eq_none_of_inherited (h : isInheritedName source = true) :
    AgreementStatus.ofText? source = none := by
  cases hs : AgreementStatus.ofText? source with
  | none => rfl
  | some status =>
      obtain rfl := AgreementStatus.ofText?_eq_some.mp hs
      rw [isInheritedName_text] at h
      cases h

/-- What an object has a property for is a status or inherited. -/
theorem inValidTransitions_cases (h : inValidTransitions source = true) :
    isInheritedName source = true ∨ ∃ status, AgreementStatus.ofText? source = some status := by
  rw [inValidTransitions, Bool.or_eq_true] at h
  rcases h with h | h
  · exact .inr (Option.isSome_iff_exists.mp h)
  · exact .inl h

/-- The source is looked up under an inherited name. -/
def ReadsInherited (source target : String) : Prop :=
  isInheritedName source = true ∧ inValidTransitions target = true ∧ source ≠ target

instance : Decidable (ReadsInherited source target) := inferInstanceAs (Decidable (_ ∧ _ ∧ _))

/-- The service throws when it reads something inherited. -/
theorem AgreementValidationService.validateTransition_throws (h : ReadsInherited source target) :
    AgreementValidationService.validateTransition source target = .error .internal := by
  obtain ⟨hsource, htarget, hne⟩ := h
  have hin : inValidTransitions source = true := by simp [inValidTransitions, hsource]
  have hnone := ofText?_eq_none_of_inherited hsource
  simp [AgreementValidationService.validateTransition, hin, htarget, hne, hnone]

/-- Otherwise it answers. -/
theorem AgreementValidationService.validateTransition_answers (h : ¬ ReadsInherited source target) :
    ∃ refusal, AgreementValidationService.validateTransition source target = .ok refusal := by
  unfold AgreementValidationService.validateTransition
  split_ifs with hsource htarget hsame
  · exact ⟨_, rfl⟩
  · exact ⟨_, rfl⟩
  · exact ⟨_, rfl⟩
  · have hin : inValidTransitions source = true := by simpa using hsource
    have htarget : inValidTransitions target = true := by simpa using htarget
    -- the source is read: from the table, or from what every object inherits
    rcases inValidTransitions_cases hin with hinherited | ⟨status, hstatus⟩
    · exact absurd ⟨hinherited, htarget, hsame⟩ h
    · rw [hstatus]
      simp only
      split_ifs <;> exact ⟨_, rfl⟩

/-- A text that is no status has no transition, and none leads to it. -/
theorem canTransition_unknown (h : isAgreementStatus source = false ∨ isAgreementStatus target = false) :
    canTransition source target = false := by
  rw [Bool.eq_false_iff]
  intro hstep
  obtain ⟨s, t, rfl, rfl, -⟩ := canTransition_iff.mp hstep
  simp [isAgreementStatus] at h

/-- **The validators.** The three agree on a pair of texts unless the source is an inherited name that the
service looks up: for another text it has a property for. -/
theorem transitionsAgree_iff (source target : String) :
    TransitionsAgree source target ↔
      ¬ (isInheritedName source = true ∧
        (isAgreementStatus target = true ∨ isInheritedName target = true) ∧ source ≠ target) := by
  have hin : (isAgreementStatus target = true ∨ isInheritedName target = true) ↔
      inValidTransitions target = true := by
    rw [inValidTransitions, Bool.or_eq_true]
  rw [hin]
  constructor
  · intro hagree hreads
    obtain ⟨refusal, hanswer⟩ := hagree.answered
    rw [AgreementValidationService.validateTransition_throws hreads] at hanswer
    cases hanswer
  · intro h
    exact
      { answered := AgreementValidationService.validateTransition_answers h
        service := AgreementValidationService.validateTransition_eq_ok
        validator := validateTransition_eq_ok
        unknown := canTransition_unknown }

/-- An agreement whose status has come to be `constructor` cannot even be refused. -/
theorem not_transitionsAgree : ¬ ∀ source target, TransitionsAgree source target := by
  intro hagree
  obtain ⟨refusal, hanswer⟩ := (hagree "constructor" "draft").answered
  rw [AgreementValidationService.validateTransition_throws (by decide)] at hanswer
  cases hanswer

end ThalosBackend.Agreements
