import ThalosBackend.Agreements.AnsweringDb
import ThalosBackend.Agreements.OperationRows

/-!
# The agreed money terms

Three services read the whole `milestones` column, change entries of it and write it back. None of
them touches an amount or moves an entry, whatever the index in a payload and whatever Trustless Work
answers: the terms of an agreement are those it was created with, and the check on their sum that
was made then holds ever after.
-/

set_option autoImplicit false

namespace ThalosBackend.Agreements

open Js (FloatArithmetic Timestamp Value)
open Webhooks (editMilestones editMilestones_some writeEntry writeEntry_cases
  writeMilestoneDescription_cases writeMilestoneStatus_cases)

/-- The amounts of the milestones, in order. -/
def milestoneAmounts (milestones : List Milestone) : List String := milestones.map Milestone.amount

/-- The same agreement, under the same money terms. -/
structure SameTerms (a a' : Agreement) : Prop where
  id : a'.id = a.id
  amount : a'.amount = a.amount
  asset : a'.asset = a.asset
  milestones : milestoneAmounts a'.milestones = milestoneAmounts a.milestones

namespace SameTerms

theorem refl (a : Agreement) : SameTerms a a := ⟨rfl, rfl, rfl, rfl⟩

theorem trans {a b c : Agreement} (h : SameTerms a b) (h' : SameTerms b c) : SameTerms a c :=
  ⟨h'.id.trans h.id, h'.amount.trans h.amount, h'.asset.trans h.asset,
    h'.milestones.trans h.milestones⟩

/-- An update that leaves the milestones alone keeps the terms. -/
theorem apply_of_none {a : Agreement} {updates : AgreementUpdates} (h : updates.milestones = none) :
    SameTerms a (a.apply updates) := by
  refine ⟨rfl, rfl, rfl, ?_⟩
  rw [Agreement.apply_milestones, h]
  rfl

/-- An update of milestones with the same amounts keeps the terms. -/
theorem apply_milestones {a : Agreement} {milestones : List Milestone} {now : Timestamp}
    (h : milestoneAmounts milestones = milestoneAmounts a.milestones) :
    SameTerms a (a.apply { milestones := some milestones, updatedAt := now }) :=
  ⟨rfl, rfl, rfl, h⟩

end SameTerms

/-! ## Writers of milestones -/

/-- Rewriting one entry keeps the amounts when it keeps that of the entry. -/
theorem milestoneAmounts_modify {write : Milestone → Milestone}
    (hwrite : ∀ m, (write m).amount = m.amount) (milestones : List Milestone) (index : ℕ) :
    milestoneAmounts (milestones.modify index write) = milestoneAmounts milestones := by
  induction milestones generalizing index with
  | nil => rw [List.modify_nil]
  | cons m rest ih =>
      cases index with
      | zero =>
          rw [List.modify_zero_cons]
          simp only [milestoneAmounts, List.map_cons, hwrite]
      | succ index =>
          rw [List.modify_succ_cons]
          simp only [milestoneAmounts, List.map_cons] at ih ⊢
          rw [ih]

theorem milestoneAmounts_set {milestones : List Milestone} {index : ℕ} {m m' : Milestone}
    (hm : milestones[index]? = some m) (hamount : m'.amount = m.amount) :
    milestoneAmounts (milestones.set index m') = milestoneAmounts milestones := by
  induction milestones generalizing index with
  | nil => rfl
  | cons first rest ih =>
      cases index with
      | zero =>
          cases hm
          rw [List.set_cons_zero]
          simp only [milestoneAmounts, List.map_cons, hamount]
      | succ index =>
          rw [List.getElem?_cons_succ] at hm
          rw [List.set_cons_succ]
          simp only [milestoneAmounts, List.map_cons] at ih ⊢
          rw [ih hm]

theorem milestoneAmounts_writeEntry {key : String} {write : Milestone → Milestone}
    (hwrite : ∀ m, (write m).amount = m.amount) {milestones milestones' : List Milestone}
    (h : writeEntry key write milestones = some milestones') :
    milestoneAmounts milestones' = milestoneAmounts milestones := by
  rcases writeEntry_cases h with rfl | ⟨index, -, rfl⟩
  · rfl
  · exact milestoneAmounts_modify hwrite milestones index

/-- Whatever a payload makes of the milestones, their amounts are the same. -/
theorem milestoneAmounts_editMilestones {payload : Value} {milestones milestones' : List Milestone}
    (h : editMilestones payload milestones = .ok (some milestones')) :
    milestoneAmounts milestones' = milestoneAmounts milestones := by
  obtain ⟨_, key, between, -, -, -, -, -, hstatus, hdescription⟩ := editMilestones_some h
  have hfirst : milestoneAmounts between = milestoneAmounts milestones := by
    rcases writeMilestoneStatus_cases hstatus with rfl | ⟨status, -, hwritten⟩
    · rfl
    · refine milestoneAmounts_writeEntry ?_ hwritten
      intro m
      rfl
  rw [← hfirst]
  rcases writeMilestoneDescription_cases hdescription with rfl | hwritten
  · rfl
  · refine milestoneAmounts_writeEntry ?_ hwritten
    intro m
    rfl

theorem amount_reconcileMilestone {escrow : Value} {limit : Js.Number} {entry : Milestone × ℕ}
    {m : Milestone} (h : reconcileMilestone escrow limit entry = .ok m) :
    m.amount = entry.1.amount := by
  unfold reconcileMilestone at h
  dsimp only at h
  split at h
  · split at h
    · cases h
    · cases h
      rfl
  · cases h
    rfl

/-- Whatever escrow the milestones are reconciled with, their amounts are the same. -/
theorem milestoneAmounts_reconcileMilestones {escrow : Value}
    {milestones milestones' : List Milestone}
    (h : reconcileMilestones escrow milestones = .ok milestones') :
    milestoneAmounts milestones' = milestoneAmounts milestones := by
  unfold reconcileMilestones at h
  split at h
  · cases h
  · rename_i limit _
    have hentries := forall₂_of_mapM_eq_ok h
    have hamounts : milestones'.map Milestone.amount =
        milestones.zipIdx.map (Milestone.amount ∘ Prod.fst) :=
      Table.map_eq_of_forall₂ (fun entry m hm => amount_reconcileMilestone hm) hentries
    rw [milestoneAmounts, hamounts, ← List.map_map, List.zipIdx_map_fst]
    rfl

/-! ## Steps and runs -/

theorem Pulled.sameTerms {now : Timestamp} {fetch : Fetch} {a a' : Agreement}
    (h : Pulled now fetch a a') : SameTerms a a' := by
  rcases h with rfl | rfl
  · exact .refl a'
  · exact .apply_of_none rfl

theorem Corrected.sameTerms {now : Timestamp} {fetch : Fetch} {a a' : Agreement}
    (h : Corrected now fetch a a') : SameTerms a a' := by
  rcases h with rfl | ⟨contractId, milestones, -, -, -, hmilestones, rfl⟩
  · exact .refl a'
  · exact .apply_milestones (milestoneAmounts_reconcileMilestones hmilestones)

/-- No step of a row changes its terms. -/
theorem RowStep.sameTerms {o : Operation} {a a' : Agreement} (h : RowStep o a a') :
    SameTerms a a' := by
  cases h with
  | same => exact .refl a
  | linked userId dto fetch ho => exact .apply_of_none rfl
  | status userId dto ho hedge hgate => exact .apply_of_none rfl
  | disputed target ho htarget hedge => exact .apply_of_none rfl
  | milestone userId dto m ho hm => exact .apply_milestones (milestoneAmounts_set hm rfl)
  | webhookStatus payload event contractId target => exact .apply_of_none rfl
  | webhookMilestones payload event contractId milestones ho hevent hcontract hconfig hid hedited =>
      exact .apply_milestones (milestoneAmounts_editMilestones hedited)
  | pulled _ fetch ho hpulled => exact hpulled.sameTerms
  | reconciled _ first second ho hreconciled =>
      obtain ⟨b, hpulled, rfl | ⟨-, hcorrected⟩⟩ := hreconciled
      · exact hpulled.sameTerms
      · exact hpulled.sameTerms.trans hcorrected.sameTerms

/-- The check on the sum of the milestones, as `create` makes it. -/
def SumChecked (F : FloatArithmetic) (a : Agreement) : Prop :=
  a.milestones ≠ [] → sumMatches F a.amount (milestoneAmounts a.milestones) = true

theorem SameTerms.sumChecked {F : FloatArithmetic} {a a' : Agreement} (h : SameTerms a a')
    (hchecked : SumChecked F a) : SumChecked F a' := by
  intro hne
  rw [h.amount, h.milestones]
  refine hchecked fun hnil => hne ?_
  have hamounts := h.milestones
  rw [hnil] at hamounts
  exact List.map_eq_nil_iff.mp hamounts

/-- A new agreement has been checked. -/
theorem sumChecked_row {F : FloatArithmetic} {dto : CreateAgreementDto} {id : String}
    {created : Timestamp} (h : validateAgreement F dto.input = .ok ()) :
    SumChecked F (dto.row.row id created) := by
  have hamounts : milestoneAmounts (dto.row.row id created).milestones =
      (dto.input.milestones.getD []).filterMap MilestoneInput.amount := by
    cases hms : dto.milestones with
    | none => simp [milestoneAmounts, NewAgreement.row, CreateAgreementDto.row,
        CreateAgreementDto.input, hms]
    | some ms =>
        simp [milestoneAmounts, NewAgreement.row, CreateAgreementDto.row, CreateAgreementDto.input,
          hms, MilestoneDto.milestone, List.filterMap_map, Function.comp_def]
  intro hne
  rw [hamounts]
  refine sumMatches_of_validateAgreement h fun hnil => hne ?_
  rw [hnil] at hamounts
  exact List.map_eq_nil_iff.mp hamounts

/-- In every reachable state every agreement has been checked. -/
theorem sumChecked_of_reachable {F : FloatArithmetic} {db : AgreementDb}
    (h : (agreementSystem F).Reachable db) : ∀ a ∈ db.agreements, SumChecked F a := by
  refine StepSystem.invariant_of_steps
    (I := fun db : AgreementDb => ∀ a ∈ db.agreements, SumChecked F a) (fun db hinit => ?_)
    (fun db o db' _ hI hs => ?_) h
  · rw [hinit.1]
    intro a ha
    cases ha
  · exact (step_rows hs).forall_mem (fun a a' ha hstep => hstep.sameTerms.sumChecked (hI a ha))
      fun userId dto id created _ hvalid => sumChecked_row hvalid

/-- Across a run, every agreement stays and keeps its terms. -/
theorem extends_of_leads {F : FloatArithmetic} {db db' : AgreementDb}
    (h : (agreementSystem F).Reachable db) (hrun : (agreementSystem F).Leads db db') :
    Table.Extends SameTerms db.agreements db'.agreements := by
  refine StepSystem.rel_of_steps
    (R := fun db db' : AgreementDb => Table.Extends SameTerms db.agreements db'.agreements)
    (fun db => .refl SameTerms.refl _) (fun _ _ _ h₁ h₂ => h₁.trans (fun _ _ _ => .trans) h₂)
    (fun db o db' _ hs => ?_) h hrun
  exact (step_rows hs).extends_of SameTerms.refl fun _ _ _ => RowStep.sameTerms

/-- **Money terms.** In every reachable state each agreement's milestones pass the check of their
sum, and whatever happens from there, the agreement is still there under the same amount, asset and
milestone amounts. -/
theorem money_terms_kept {F : FloatArithmetic} {db db' : AgreementDb}
    (h : (agreementSystem F).Reachable db) (hrun : (agreementSystem F).Leads db db') :
    (∀ a ∈ db'.agreements, SumChecked F a) ∧
      ∀ a ∈ db.agreements, (∃ a' ∈ db'.agreements, a'.id = a.id) ∧
        ∀ a' ∈ db'.agreements, a'.id = a.id → SameTerms a a' := by
  refine ⟨sumChecked_of_reachable (h.leads hrun), fun a ha => ?_⟩
  obtain ⟨kept, hkept, hterms⟩ := (extends_of_leads h hrun).exists_row ha
  refine ⟨⟨kept, hkept, hterms.id⟩, fun a' ha' hid => ?_⟩
  -- ids are unique, so the row under this id is the one that was kept
  rw [(uniqueIds_of_reachable (h.leads hrun)).eq ha' hkept (hid.trans hterms.id.symm)]
  exact hterms

/-- A payload that approves the milestone `1`, named by a text. -/
def approveSecond : Value :=
  .object [("event", .string "milestone.approved"), ("contractId", .string "C"),
    ("milestone", .object [("index", .string "1"), ("status", .string "approved")])]

/-- The theorem for an agreement of two milestones, of which a webhook approves the second. -/
theorem money_terms_kept_approved :
    let before := runAll exactArithmetic [createOperation "10" (some "C") splitTen] newStore
    let after := runAll exactArithmetic [⟨1, .webhook approveSecond⟩] before
    after.agreements.map (fun a => a.milestones.map Milestone.status) = [[.pending, .approved]] ∧
      (∀ a ∈ after.agreements, SumChecked exactArithmetic a) ∧
      ∀ a ∈ before.agreements, (∃ a' ∈ after.agreements, a'.id = a.id) ∧
        ∀ a' ∈ after.agreements, a'.id = a.id → SameTerms a a' := by
  intro before after
  refine ⟨by decide +kernel, money_terms_kept (reachable_runAll (.init isNew_newStore)) ?_⟩
  exact .single ⟨_, _, Operation.runs exactArithmetic ⟨1, .webhook approveSecond⟩ before⟩

end ThalosBackend.Agreements
