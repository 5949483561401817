import ThalosBackend.Agreements.MilestoneWrites
import ThalosBackend.Agreements.MoneyTerms

/-!
# Stored agreements stay consistent

`create` validates an agreement with `validateAgreement`, and `updateMilestone` checks what it is about
to store with `validateAgreementConsistency`. Amounts never change, so whatever breaks the second check
is a description, and the only writer of descriptions besides `create` is the webhook, which takes any
JSON value that is not falsy.

`descriptionsKept` asks of a webhook that the description is a text and not blank, and that it does not
go to what all lists share, where later payloads would find one. Where every operation of a run meets it, every stored agreement is consistent, and `updateMilestone` never refuses
a request for what an earlier operation stored.
-/

set_option autoImplicit false

namespace ThalosBackend.Agreements

open Js (FloatArithmetic Value)

/-! ## The consistency check as a condition -/

/-- A description the check accepts. -/
def keptDescription : Value → Bool
  | .undefined | .null => true
  | .string s => !isBlank s
  | _ => false

/-- A milestone the check accepts. -/
def keptMilestone (F : FloatArithmetic) (m : Milestone) : Bool :=
  keptDescription m.description && isValidPositiveNumeric F m.amount

section Consistency

variable {F : FloatArithmetic}

theorem storedDescriptionErrors_eq (index : ℕ) {description : Value} :
    storedDescriptionErrors index description = .ok [] ↔ keptDescription description = true := by
  cases description with
  | string s =>
      cases hblank : isBlank s with
      | true => simp [storedDescriptionErrors, keptDescription, hblank]
      | false => simp [storedDescriptionErrors, keptDescription, hblank]
  | undefined => exact iff_of_true rfl rfl
  | null => exact iff_of_true rfl rfl
  | _ =>
      refine iff_of_false (fun hstored => ?_) fun hkept => ?_
      · cases hstored
      · cases hkept

theorem storedMilestoneErrors_eq {entry : Milestone × ℕ} :
    storedMilestoneErrors F entry = .ok [] ↔ keptMilestone F entry.1 = true := by
  obtain ⟨m, index⟩ := entry
  rw [keptMilestone, Bool.and_eq_true, ← storedDescriptionErrors_eq index]
  unfold storedMilestoneErrors
  dsimp only
  rw [bind_eq_ok]
  constructor
  · rintro ⟨errors, herrors, hend⟩
    obtain ⟨rfl, hamount⟩ := List.append_eq_nil_iff.mp (Except.ok.inj hend)
    refine ⟨herrors, ?_⟩
    by_contra hinvalid
    rw [if_neg hinvalid] at hamount
    cases hamount
  · rintro ⟨herrors, hvalid⟩
    exact ⟨[], herrors, by rw [if_pos hvalid]; rfl⟩

/-- A check of a list finds nothing when it finds nothing in any entry. -/
theorem mapM_flatten_eq_nil {ε α β : Type} {check : α → Except ε (List β)} {xs : List α} :
    (∃ errors, xs.mapM check = .ok errors ∧ errors.flatten = []) ↔ ∀ x ∈ xs, check x = .ok [] := by
  induction xs with
  | nil => simp [pure, Except.pure]
  | cons x rest ih =>
      rw [List.forall_mem_cons, ← ih]
      simp only [List.mapM_cons, bind_eq_ok]
      constructor
      · rintro ⟨errors, ⟨first, hfirst, others, hothers, hend⟩, hflat⟩
        cases hend
        obtain ⟨rfl, hflat⟩ := List.append_eq_nil_iff.mp (List.flatten_cons ▸ hflat)
        exact ⟨hfirst, others, hothers, hflat⟩
      · rintro ⟨hfirst, others, hothers, hflat⟩
        exact ⟨[] :: others, ⟨[], hfirst, others, hothers, rfl⟩, hflat⟩

/-- The errors of the stored amount. -/
def storedAmountErrors (F : FloatArithmetic) (amount : String) : List ValidationErrorDetail :=
  if isValidPositiveNumeric F amount then []
  else [⟨"amount", "INCONSISTENT_AMOUNT", "Agreement amount is not a positive numeric string"⟩]

theorem storedAmountErrors_eq_nil {amount : String} :
    storedAmountErrors F amount = [] ↔ isValidPositiveNumeric F amount = true := by
  unfold storedAmountErrors
  cases isValidPositiveNumeric F amount <;> simp

/-- The check passes when it returns no error. -/
theorem isConsistent_eq_true {amount : String} {milestones : List Milestone} :
    isConsistent F amount milestones = true ↔
      validateAgreementConsistency F amount milestones = .ok (.ok ()) := by
  unfold isConsistent
  split
  · rename_i hok
    exact iff_of_true rfl hok
  · rename_i hno
    exact iff_of_false nofun hno

/-- The check finds nothing in the entries when it accepts each. -/
theorem storedMilestones_eq {milestones : List Milestone} :
    (∃ errors, milestones.zipIdx.mapM (storedMilestoneErrors F) = .ok errors ∧
      errors.flatten = []) ↔ ∀ m ∈ milestones, keptMilestone F m = true := by
  rw [mapM_flatten_eq_nil]
  simp only [storedMilestoneErrors_eq]
  constructor
  · intro hall m hm
    rw [← List.zipIdx_map_fst 0 milestones] at hm
    obtain ⟨entry, hentry, rfl⟩ := List.mem_map.mp hm
    exact hall entry hentry
  · intro hall entry hentry
    exact hall entry.1 (List.fst_mem_of_mem_zipIdx hentry)

/-- The check passes when the amount is valid, every milestone is accepted and the amounts add up. -/
theorem isConsistent_iff {amount : String} {milestones : List Milestone} :
    isConsistent F amount milestones = true ↔
      isValidPositiveNumeric F amount = true ∧ (∀ m ∈ milestones, keptMilestone F m = true) ∧
        (milestones ≠ [] → sumMatches F amount (milestoneAmounts milestones) = true) := by
  rw [isConsistent_eq_true, ← storedMilestones_eq]
  cases hmap : milestones.zipIdx.mapM (storedMilestoneErrors F) with
  | error e =>
      have hthrows : validateAgreementConsistency F amount milestones = .error e := by
        simp only [validateAgreementConsistency, hmap]
        rfl
      refine iff_of_false (by simp [hthrows]) ?_
      rintro ⟨-, ⟨errors, herrors, -⟩, -⟩
      cases herrors
  | ok errors =>
      have hends : validateAgreementConsistency F amount milestones = .ok (errResult
          (storedAmountErrors F amount ++ errors.flatten ++
            if (storedAmountErrors F amount ++ errors.flatten).isEmpty ∧ milestones ≠ [] then
              sumErrors F amount (milestoneAmounts milestones)
            else [])) := by
        simp only [validateAgreementConsistency, hmap]
        rfl
      rw [hends, Except.ok.injEq, errResult_eq_ok, List.append_eq_nil_iff,
        List.append_eq_nil_iff, storedAmountErrors_eq_nil]
      constructor
      · rintro ⟨⟨hvalid, hflat⟩, hsum⟩
        refine ⟨hvalid, ⟨errors, rfl, hflat⟩, fun hne => ?_⟩
        -- nothing was found so far, so the sum has been looked at
        rw [if_pos (by simp [storedAmountErrors_eq_nil.mpr hvalid, hflat, hne])] at hsum
        exact sumErrors_eq_nil.mp hsum
      · rintro ⟨hvalid, ⟨errors', herrors, hflat⟩, hsum⟩
        cases herrors
        refine ⟨⟨hvalid, hflat⟩, ?_⟩
        split
        · rename_i hchecked
          exact sumErrors_eq_nil.mpr (hsum hchecked.2)
        · rfl

end Consistency

/-! ## Writers -/

/-- What the operation is about to write as a description is a text and not blank, and it gives none to
all lists. -/
def descriptionsKept (db : AgreementDb) (o : Operation) : Bool :=
  !spreadsDescription db o && db.agreements.all fun a => (List.range a.milestones.length).all fun index =>
    (descriptionWritten db o a index).all keptDescription

/-- The stored row passes the check. -/
def Consistent (F : FloatArithmetic) (a : Agreement) : Prop :=
  isConsistent F a.amount a.milestones = true

section Writers

variable {F : FloatArithmetic} {db db' : AgreementDb} {o : Operation}

/-- What `validateAgreement` accepts has a valid amount and milestones the other check accepts. -/
theorem kept_of_validateAgreement {dto : CreateAgreementDto}
    (h : validateAgreement F dto.input = .ok ()) :
    isValidPositiveNumeric F dto.amount = true ∧
      ∀ m ∈ (dto.milestones.getD []).map MilestoneDto.milestone, keptMilestone F m = true := by
  rw [validateAgreement, errResult_eq_ok, List.append_eq_nil_iff, List.append_eq_nil_iff] at h
  obtain ⟨⟨hfields, -⟩, -⟩ := h
  simp only [fieldErrors, List.append_eq_nil_iff, List.flatMap_eq_nil_iff] at hfields
  obtain ⟨⟨⟨-, hamount⟩, -⟩, hmilestones⟩ := hfields
  constructor
  · by_contra hinvalid
    have hinvalid : ¬ isValidPositiveNumeric F dto.input.amount = true := hinvalid
    rw [if_neg hinvalid] at hamount
    cases hamount
  · intro m hm
    obtain ⟨entry, hentry, rfl⟩ := List.mem_map.mp hm
    obtain ⟨index, hindex⟩ := List.getElem?_of_mem hentry
    have hlisted : ((⟨entry.description, some entry.amount⟩ : MilestoneInput), index) ∈
        (dto.input.milestones.getD []).zipIdx := by
      rw [List.mk_mem_zipIdx_iff_getElem?]
      cases hms : dto.milestones with
      | none => simp [hms] at hindex
      | some ms =>
          rw [hms, Option.getD_some] at hindex
          simp [CreateAgreementDto.input, hms, hindex]
    obtain ⟨hdescription, hvalid⟩ := hmilestones _ hlisted
    have hblank : isBlank entry.description = false := by
      simpa [descriptionErrors] using hdescription
    have hnumeric : isValidPositiveNumeric F entry.amount = true := by
      simpa [amountErrors] using hvalid
    simp [keptMilestone, keptDescription, MilestoneDto.milestone, hblank, hnumeric]

/-- An accepted agreement is consistent. -/
theorem consistent_row {dto : CreateAgreementDto} {id : String} {created : Js.Timestamp}
    (h : validateAgreement F dto.input = .ok ()) : Consistent F (dto.row.row id created) := by
  obtain ⟨hamount, hmilestones⟩ := kept_of_validateAgreement h
  rw [Consistent, isConsistent_iff]
  exact ⟨hamount, hmilestones, sumChecked_row h⟩

/-- A write of a description that is kept leaves the entry one the check accepts. -/
theorem EntryWrite.keptMilestone {status : Option MilestoneStatus} {description : Option Value}
    {m m' : Milestone} (h : EntryWrite status description m m')
    (hkept : description.all keptDescription = true) (hm : Agreements.keptMilestone F m = true) :
    Agreements.keptMilestone F m' = true := by
  rw [Agreements.keptMilestone, Bool.and_eq_true] at hm ⊢
  obtain ⟨hdescription, hamount⟩ := hm
  constructor
  · rcases h.description with hsame | hwritten
    · rw [hsame]
      exact hdescription
    · simpa [hwritten] using hkept
  · rw [h.amount]
    exact hamount

/-- **Step lemma.** A row that passes the check passes it after a step that keeps the descriptions. -/
theorem MilestonesStep.consistent {a a' : Agreement} (hrow : RowStep o a a')
    (h : MilestonesStep F db o a a') (hkept : descriptionsKept db o = true)
    (ha : a ∈ db.agreements) (hconsistent : Consistent F a) : Consistent F a' := by
  obtain ⟨hamount, hmilestones, hsum⟩ := isConsistent_iff.mp hconsistent
  have hterms := hrow.sameTerms
  refine isConsistent_iff.mpr ⟨?_, fun m' hm' => ?_, hterms.sumChecked hsum⟩
  · rw [hterms.amount]
    exact hamount
  · obtain ⟨index, hindex⟩ := List.getElem?_of_mem hm'
    obtain ⟨m, hm, hwrite⟩ := h.exists_old hindex
    have hlt : index < a.milestones.length := (List.getElem?_eq_some_iff.mp hm).1
    apply hwrite.keptMilestone
    · have hrows := (Bool.and_eq_true_iff.mp hkept).2
      exact List.all_eq_true.mp (List.all_eq_true.mp hrows a ha) index (List.mem_range.mpr hlt)
    · exact hmilestones m (List.mem_of_getElem? hm)

/-- An update of one milestone of a consistent row is consistent. -/
theorem consistent_update {a : Agreement} (h : Consistent F a) {now : Js.Timestamp}
    {dto : UpdateMilestoneDto} {m : Milestone} (hm : a.milestones[dto.milestoneIndex]? = some m) :
    isConsistent F a.amount (a.milestones.set dto.milestoneIndex (m.update now dto)) = true := by
  obtain ⟨hamount, hmilestones, hsum⟩ := isConsistent_iff.mp h
  refine isConsistent_iff.mpr ⟨hamount, fun m' hm' => ?_, fun hne => ?_⟩
  · rcases List.mem_or_eq_of_mem_set hm' with hold | rfl
    · exact hmilestones m' hold
    · exact hmilestones m (List.mem_of_getElem? hm)
  · have hsame : (m.update now dto).amount = m.amount := rfl
    rw [milestoneAmounts_set hm hsame]
    apply hsum
    intro hnil
    rw [hnil] at hne
    exact hne rfl

end Writers

/-! ## Runs -/

section Runs

variable {F : FloatArithmetic} {db db' : AgreementDb}

/-- The operations, as long as each keeps the descriptions. -/
abbrev describedSystem (F : FloatArithmetic) : StepSystem AgreementDb Operation :=
  (agreementSystem F).restrict fun db o => descriptionsKept db o = true

theorem consistent_step {o : Operation} (hconsistent : ∀ a ∈ db.agreements, Consistent F a)
    (hs : (describedSystem F).step db o db') : ∀ a' ∈ db'.agreements, Consistent F a' := by
  obtain ⟨hkept, hstep⟩ := hs
  rcases step_milestones hstep with hrows | ⟨userId, dto, id, created, -, haccepts, -, hadded⟩
  · intro a' ha'
    obtain ⟨a, ha, hrow, hmilestones⟩ := Table.exists_of_forall₂_right hrows ha'
    exact hmilestones.consistent hrow hkept ha (hconsistent a ha)
  · rw [hadded]
    intro a' ha'
    rcases List.mem_append.mp ha' with hold | hnew
    · exact hconsistent a' hold
    · obtain rfl := List.mem_singleton.mp hnew
      apply consistent_row
      exact of_decide_eq_true (Bool.and_eq_true_iff.mp haccepts).1

/-- **Stored agreements.** Where a webhook writes no description that is not a text or is blank, every
stored agreement passes `validateAgreementConsistency`, and so does what `updateMilestone` is about to
store: no request is refused for what an earlier operation stored. -/
theorem stored_agreements_consistent (h : (describedSystem F).Reachable db) :
    ∀ a ∈ db.agreements,
      validateAgreementConsistency F a.amount a.milestones = .ok (.ok ()) ∧
        ∀ (now : Js.Timestamp) (dto : UpdateMilestoneDto) (m : Milestone),
          a.milestones[dto.milestoneIndex]? = some m →
            validateAgreementConsistency F a.amount
              (a.milestones.set dto.milestoneIndex (m.update now dto)) = .ok (.ok ()) := by
  have hall : ∀ a ∈ db.agreements, Consistent F a := by
    refine StepSystem.invariant_of_steps
      (I := fun db : AgreementDb => ∀ a ∈ db.agreements, Consistent F a) (fun db hinit => ?_)
      (fun db o db' _ hI hs => consistent_step hI hs) h
    rw [hinit.1]
    intro a ha
    cases ha
  intro a ha
  have hconsistent := hall a ha
  exact ⟨isConsistent_eq_true.mp hconsistent,
    fun now dto m hm => isConsistent_eq_true.mp (consistent_update hconsistent hm)⟩

end Runs

/-- A payload that describes the first milestone anew. -/
def describeFirst (description : Value) : Value :=
  .object [("event", .string "escrow.milestone_updated"), ("contractId", .string "C"),
    ("milestone", .object [("index", .string "0"), ("description", description)])]

/-- The theorem for a payload with a description. -/
theorem stored_agreements_consistent_described :
    let db := runAll exactArithmetic [createOperation "10" (some "C") splitTen,
      ⟨1, .webhook (describeFirst (.string "Roof"))⟩] newStore
    db.agreements.map (fun a => a.milestones.map fun m => m.description.toText) =
        [[some "Roof", some "Launch"]] ∧
      ∀ a ∈ db.agreements,
        validateAgreementConsistency exactArithmetic a.amount a.milestones = .ok (.ok ()) ∧
          ∀ (now : Js.Timestamp) (dto : UpdateMilestoneDto) (m : Milestone),
            a.milestones[dto.milestoneIndex]? = some m →
              validateAgreementConsistency exactArithmetic a.amount
                (a.milestones.set dto.milestoneIndex (m.update now dto)) = .ok (.ok ()) := by
  intro db
  refine ⟨by decide +kernel, stored_agreements_consistent (F := exactArithmetic) ?_⟩
  exact reachable_restrict_runAll (.init isNew_newStore) (by decide +kernel)

/-- A payload describes the milestone with a space. -/
theorem not_stored_agreements_consistent : ¬ ∀ db, (agreementSystem exactArithmetic).Reachable db →
    ∀ a ∈ db.agreements,
      validateAgreementConsistency exactArithmetic a.amount a.milestones = .ok (.ok ()) := by
  intro h
  let described := runAll exactArithmetic [createOperation "10" (some "C") splitTen,
    ⟨1, .webhook (describeFirst (.string " "))⟩] newStore
  have hconsistent := h described (reachable_runAll (.init isNew_newStore))
  have hblank : ∃ a ∈ described.agreements,
      isConsistent exactArithmetic a.amount a.milestones = false := by decide +kernel
  obtain ⟨a, ha, hblank⟩ := hblank
  rw [isConsistent_eq_true.mpr (hconsistent a ha)] at hblank
  cases hblank

end ThalosBackend.Agreements
