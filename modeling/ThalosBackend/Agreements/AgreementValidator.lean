import ThalosBackend.Agreements.AgreementDb

/-!
# The agreement validator

`agreements/agreement.validator.ts` without `validateTransition`. Amounts are compared in cents, and
the cents are computed in floating point; the arithmetic is a parameter.

`validateAgreementConsistency` checks what is stored, and a stored description may be any JSON value:
one that has no `trim` ends the request with an error of its own.
-/

set_option autoImplicit false

namespace ThalosBackend.Agreements

open Js (FloatArithmetic Number Value)

structure MilestoneInput where
  description : String
  amount : Option String
  deriving DecidableEq

structure ParticipantInput where
  walletAddress : String
  role : String
  deriving DecidableEq

structure AgreementInput where
  title : String
  description : Option String
  amount : String
  asset : Option String
  agreementType : Option String
  milestones : Option (List MilestoneInput)
  participants : List ParticipantInput
  deriving DecidableEq

/-- `AMOUNT_REGEX`: digits, and a point with digits behind it at most once. -/
def matchesAmountRegex (s : String) : Bool :=
  let whole := s.toList.takeWhile Char.isDigit
  !whole.isEmpty && match s.toList.dropWhile Char.isDigit with
    | [] => true
    | '.' :: fraction => !fraction.isEmpty && fraction.all Char.isDigit
    | _ => false

variable (F : FloatArithmetic)

def toCents (s : String) : Number := F.round (F.mul (F.parseFloat s) 100)

def isValidPositiveNumeric (s : String) : Bool :=
  matchesAmountRegex s && Number.lt 0 (F.number s)

/-- The text is empty, or only white space. -/
def isBlank (s : String) : Bool := Js.trim s = ""

/-- The cents of the milestones, added from the left. -/
def milestoneSumCents (amounts : List String) : Number :=
  amounts.foldl (fun sum amount => F.add sum (toCents F amount)) 0

/-- The milestones add up to the total. -/
def sumMatches (amount : String) (amounts : List String) : Bool :=
  (toCents F amount).strictEq (milestoneSumCents F amounts)

/-- The error of milestones that do not add up. -/
def sumErrors (amount : String) (amounts : List String) : List ValidationErrorDetail :=
  if sumMatches F amount amounts then []
  else [⟨"milestones", "MILESTONE_SUM_MISMATCH", "Sum of milestone amounts (" ++
    F.toFixed (F.div (milestoneSumCents F amounts) 100) 2 ++ ") does not equal total amount (" ++
    F.toFixed (F.div (toCents F amount) 100) 2 ++ ")"⟩]

/-- The field of an entry of a list. -/
def itemField (list : String) (index : ℕ) (field : String) : String :=
  list ++ "[" ++ toString index ++ "]." ++ field

def descriptionErrors (index : ℕ) (m : MilestoneInput) : List ValidationErrorDetail :=
  if isBlank m.description then
    [⟨itemField "milestones" index "description", "REQUIRED",
      "Milestone description must be non-empty"⟩]
  else []

def amountErrors (index : ℕ) (m : MilestoneInput) : List ValidationErrorDetail :=
  match m.amount with
  | none =>
    [⟨itemField "milestones" index "amount", "REQUIRED", "Milestone amount is required"⟩]
  | some amount =>
    if isValidPositiveNumeric F amount then []
    else [⟨itemField "milestones" index "amount", "INVALID_AMOUNT",
      "Milestone amount must be a positive numeric string"⟩]

/-- More than one milestone makes an agreement `multi`. -/
def agreementTypeErrors (count : ℕ) (agreementType : Option String) :
    List ValidationErrorDetail :=
  if 1 < count then
    if agreementType = some "multi" then []
    else [⟨"agreement_type", "INVALID_AGREEMENT_TYPE",
      "Agreement with multiple milestones must have agreement_type \"multi\""⟩]
  else if agreementType = some "multi" then
    [⟨"agreement_type", "INVALID_AGREEMENT_TYPE",
      "Agreement with a single milestone must have agreement_type \"single\""⟩]
  else []

def participantErrors (participants : List ParticipantInput) : List ValidationErrorDetail :=
  if participants.isEmpty then
    [⟨"participants", "REQUIRED", "At least one participant is required"⟩]
  else participants.zipIdx.flatMap fun (p, index) =>
    if isBlank p.walletAddress then
      [⟨itemField "participants" index "wallet_address", "REQUIRED",
        "Participant wallet address must be non-empty"⟩]
    else []

/-- The errors before the milestones are added up. -/
def fieldErrors (input : AgreementInput) : List ValidationErrorDetail :=
  (if isBlank input.title then
    [⟨"title", "REQUIRED", "Title is required and must be non-empty"⟩] else []) ++
  (if input.description.any isBlank then
    [⟨"description", "INVALID", "Description must be non-empty if provided"⟩] else []) ++
  (if isValidPositiveNumeric F input.amount then [] else
    [⟨"amount", "INVALID_AMOUNT", "Amount must be a positive numeric string"⟩]) ++
  (if input.asset.getD "USDC" = "USDC" then [] else
    [⟨"asset", "INVALID_ASSET", "Only USDC is supported"⟩]) ++
  (input.milestones.getD []).zipIdx.flatMap fun (m, index) =>
    descriptionErrors index m ++ amountErrors F index m

/-- The errors about the milestones together: their sum, looked at when nothing was wrong so far,
and the type of the agreement. -/
def milestonesErrors (input : AgreementInput) : List ValidationErrorDetail :=
  let milestones := input.milestones.getD []
  if milestones.isEmpty then []
  else
    (if (fieldErrors F input).isEmpty then
      sumErrors F input.amount (milestones.filterMap MilestoneInput.amount) else []) ++
    agreementTypeErrors milestones.length input.agreementType

/-- `validateAgreement(input)`. -/
def validateAgreement (input : AgreementInput) : ValidationResult :=
  errResult (fieldErrors F input ++ milestonesErrors F input ++ participantErrors input.participants)

/-! ## Stored agreements -/

/-- The error of a stored description that is empty. -/
def storedDescriptionErrors (index : ℕ) : Value → Except HttpException (List ValidationErrorDetail)
  | .undefined | .null => .ok []
  | .string s => .ok <| if isBlank s then
      [⟨itemField "milestones" index "description", "INCONSISTENT", "Milestone description is empty"⟩]
    else []
  | _ => .error .internal

/-- The errors of one stored milestone. Its amount is always there. -/
def storedMilestoneErrors (entry : Milestone × ℕ) :
    Except HttpException (List ValidationErrorDetail) := do
  let (m, index) := entry
  let errors ← storedDescriptionErrors index m.description
  return errors ++
    if isValidPositiveNumeric F m.amount then []
    else [⟨itemField "milestones" index "amount", "INCONSISTENT_AMOUNT",
      "Milestone amount is not a positive numeric string"⟩]

/-- `validateAgreementConsistency(agreement)`. -/
def validateAgreementConsistency (amount : String) (milestones : List Milestone) :
    Except HttpException ValidationResult := do
  let amountError : List ValidationErrorDetail :=
    if isValidPositiveNumeric F amount then []
    else [⟨"amount", "INCONSISTENT_AMOUNT", "Agreement amount is not a positive numeric string"⟩]
  let milestoneErrors ← milestones.zipIdx.mapM (storedMilestoneErrors F)
  let errors := amountError ++ milestoneErrors.flatten
  return errResult (errors ++
    if errors.isEmpty ∧ milestones ≠ [] then sumErrors F amount (milestones.map Milestone.amount)
    else [])

/-! ## What an accepted agreement is -/

variable {F}

theorem sumErrors_eq_nil {amount : String} {amounts : List String} :
    sumErrors F amount amounts = [] ↔ sumMatches F amount amounts = true := by
  unfold sumErrors
  cases sumMatches F amount amounts <;> simp

/-- An accepted agreement has milestones that add up to its amount, or none. -/
theorem sumMatches_of_validateAgreement {input : AgreementInput}
    (h : validateAgreement F input = .ok ()) (hne : input.milestones.getD [] ≠ []) :
    sumMatches F input.amount ((input.milestones.getD []).filterMap MilestoneInput.amount) =
      true := by
  rw [validateAgreement, errResult_eq_ok, List.append_eq_nil_iff, List.append_eq_nil_iff] at h
  obtain ⟨⟨hfields, hmilestones⟩, -⟩ := h
  have hsome : (input.milestones.getD []).isEmpty = false := by simpa using hne
  rw [milestonesErrors, hsome, hfields] at hmilestones
  simp only [Bool.false_eq_true, if_false, List.isEmpty_nil, if_true,
    List.append_eq_nil_iff] at hmilestones
  exact sumErrors_eq_nil.mp hmilestones.1

/-- A check of each entry of a list finds nothing when it finds nothing at any entry, wherever the
entry stands. -/
theorem flatMap_zipIdx_eq_nil {α β : Type} {f : α × ℕ → List β} {P : α → Prop}
    (hf : ∀ a i, f (a, i) = [] ↔ P a) (as : List α) (k : ℕ) :
    (as.zipIdx k).flatMap f = [] ↔ ∀ a ∈ as, P a := by
  induction as generalizing k with
  | nil => simp
  | cons a as ih => simp [hf, ih]

/-- What `validateAgreement` asks of a milestone. -/
def MilestoneInput.Acceptable (F : FloatArithmetic) (m : MilestoneInput) : Prop :=
  isBlank m.description = false ∧ ∃ amount, m.amount = some amount ∧
    isValidPositiveNumeric F amount = true

/-- What `validateAgreement` asks of an agreement. -/
structure AgreementInput.Acceptable (F : FloatArithmetic) (input : AgreementInput) : Prop where
  title : isBlank input.title = false
  description : input.description.any isBlank = false
  amount : isValidPositiveNumeric F input.amount = true
  asset : input.asset.getD "USDC" = "USDC"
  milestones : ∀ m ∈ input.milestones.getD [], m.Acceptable F
  sum : input.milestones.getD [] ≠ [] →
    sumMatches F input.amount ((input.milestones.getD []).filterMap MilestoneInput.amount) = true
  type : input.milestones.getD [] ≠ [] →
    (1 < (input.milestones.getD []).length ↔ input.agreementType = some "multi")
  participants : input.participants ≠ []
  wallets : ∀ p ∈ input.participants, isBlank p.walletAddress = false

theorem milestoneErrors_eq_nil (m : MilestoneInput) (index : ℕ) :
    descriptionErrors index m ++ amountErrors F index m = [] ↔ m.Acceptable F := by
  rw [List.append_eq_nil_iff, MilestoneInput.Acceptable]
  refine and_congr ?_ ?_
  · unfold descriptionErrors
    cases isBlank m.description <;> simp
  · unfold amountErrors
    cases m.amount with
    | none => simp
    | some amount => cases isValidPositiveNumeric F amount <;> simp

theorem fieldErrors_eq_nil {input : AgreementInput} :
    fieldErrors F input = [] ↔ isBlank input.title = false ∧
      input.description.any isBlank = false ∧ isValidPositiveNumeric F input.amount = true ∧
      input.asset.getD "USDC" = "USDC" ∧
      ∀ m ∈ input.milestones.getD [], m.Acceptable F := by
  have hmilestones := flatMap_zipIdx_eq_nil
    (f := fun p => descriptionErrors p.2 p.1 ++ amountErrors F p.2 p.1)
    (P := MilestoneInput.Acceptable F) milestoneErrors_eq_nil (input.milestones.getD []) 0
  unfold fieldErrors
  rw [List.append_eq_nil_iff, List.append_eq_nil_iff, List.append_eq_nil_iff,
    List.append_eq_nil_iff, hmilestones]
  simp [and_assoc]

theorem agreementTypeErrors_eq_nil {count : ℕ} {agreementType : Option String} :
    agreementTypeErrors count agreementType = [] ↔
      (1 < count ↔ agreementType = some "multi") := by
  unfold agreementTypeErrors
  split <;> split <;> simp_all

theorem participantErrors_eq_nil {participants : List ParticipantInput} :
    participantErrors participants = [] ↔
      participants ≠ [] ∧ ∀ p ∈ participants, isBlank p.walletAddress = false := by
  unfold participantErrors
  split
  · rename_i hempty
    simp [List.isEmpty_iff.mp hempty]
  · rename_i hsome
    rw [flatMap_zipIdx_eq_nil (P := fun p => isBlank p.walletAddress = false)
      (fun p index => by cases hblank : isBlank p.walletAddress <;> simp [hblank])]
    have hne : participants ≠ [] := by simpa using hsome
    exact ⟨fun hwallets => ⟨hne, hwallets⟩, And.right⟩

/-- **The agreements that are accepted.** -/
theorem validateAgreement_eq_ok {input : AgreementInput} :
    validateAgreement F input = .ok () ↔ input.Acceptable F := by
  rw [validateAgreement, errResult_eq_ok, List.append_eq_nil_iff, List.append_eq_nil_iff,
    participantErrors_eq_nil]
  constructor
  · rintro ⟨⟨hfields, hmilestones⟩, hsome, hwallets⟩
    obtain ⟨htitle, hdescription, hamount, hasset, heach⟩ := fieldErrors_eq_nil.mp hfields
    have hshape : input.milestones.getD [] ≠ [] →
        sumMatches F input.amount ((input.milestones.getD []).filterMap MilestoneInput.amount) =
            true ∧
          (1 < (input.milestones.getD []).length ↔ input.agreementType = some "multi") := by
      intro hne
      rw [milestonesErrors, if_neg (by simpa using hne), hfields, List.isEmpty_nil, if_pos rfl,
        List.append_eq_nil_iff, sumErrors_eq_nil, agreementTypeErrors_eq_nil] at hmilestones
      exact hmilestones
    exact ⟨htitle, hdescription, hamount, hasset, heach, fun hne => (hshape hne).1,
      fun hne => (hshape hne).2, hsome, hwallets⟩
  · intro h
    have hfields : fieldErrors F input = [] :=
      fieldErrors_eq_nil.mpr ⟨h.title, h.description, h.amount, h.asset, h.milestones⟩
    refine ⟨⟨hfields, ?_⟩, h.participants, h.wallets⟩
    rw [milestonesErrors]
    split
    · rfl
    · rename_i hne
      have hne : input.milestones.getD [] ≠ [] := by simpa using hne
      rw [hfields, List.isEmpty_nil, if_pos rfl, List.append_eq_nil_iff, sumErrors_eq_nil,
        agreementTypeErrors_eq_nil]
      exact ⟨h.sum hne, h.type hne⟩

end ThalosBackend.Agreements
