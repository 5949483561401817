import ThalosBackend.Agreements.AnsweringDb
import ThalosBackend.Agreements.OperationRows

/-!
# The completion gate

`updateStatus` completes an agreement only when every milestone is approved or released. The gate is
checked there and then: a webhook or a sync completes an agreement without asking for the milestones,
and the milestones of a completed agreement can be set back by a participant, a webhook or a
reconcile.

`gateRespected` rules these out, one by one, and the writes to what all lists share, of which later
payloads read a status they do not carry; where every operation of a run meets it, a completed agreement
has only finished milestones.
-/

set_option autoImplicit false

namespace ThalosBackend.Agreements

open Js (FloatArithmetic Number Timestamp Value nonEmpty)
open Webhooks (EventConfig editMilestones editMilestones_some entryIndex milestoneIndex
  namesPrototype twEventMap writeEntry writeEntry_cases writeMilestoneDescription_cases
  writeMilestoneStatus_cases)

/-! ## The condition -/

/-- `COMPLETED_MILESTONE_STATUSES.includes(status)`. -/
def isFinished (status : MilestoneStatus) : Bool := status = .approved ∨ status = .released

/-- A pull of this row, if there is one, completes it. -/
def pullsCompleted (fetch : Fetch) (a : Agreement) : Bool :=
  match nonEmpty a.contractId with
  | none => false
  | some contractId =>
    let escrow := fetchTrustlessEscrow contractId fetch
    match (escrow.field "status").toText with
    | none => false
    | some text => escrow.truthy &&
        columnValue (twToThalosStatus text (escrow.field "status")) = some (some "completed")

/-- What Trustless Work says of a milestone the loop of `doReconcile` gets to: nothing when the loop
does not get there, `none` when the reading throws. -/
def upstreamStatus (escrow : Value) (limit : Number) (index : ℕ) :
    Option (Option MilestoneStatus) :=
  if Number.lt (.finite index) limit then
    some (milestoneStatusFromTrustless (itemOf index (escrow.field "milestones"))
      ((escrow.field "flags").field "released"))
  else none

/-- Trustless Work reopens no milestone of the row, or the reading of some milestone throws and none
is written. -/
def correctsFinished (fetch : Fetch) (a : Agreement) : Bool :=
  match nonEmpty a.contractId with
  | none => true
  | some contractId =>
    let escrow := fetchTrustlessEscrow contractId fetch
    match escrow.truthy && (escrow.field "milestones").truthy,
        (lengthOf (escrow.field "milestones")).toNumber with
    | true, some limit =>
      let upstream := (List.range a.milestones.length).filterMap (upstreamStatus escrow limit)
      upstream.any Option.isNone || upstream.all fun status => status.all isFinished
    | _, _ => true

/-- The payload sets a milestone back to a status that is not finished. -/
def reopens (payload : Value) (milestones : List Milestone) : Bool :=
  let index := milestoneIndex payload
  match index.toNumber, index.toText,
      normalizeMilestoneStatus ((payload.field "milestone").field "status") with
  | some number, some key, some status =>
    !isFinished status && !index.isUndefined && !number.lt 0 &&
      !Number.le (.finite milestones.length) number &&
      (entryIndex key milestones.length).isSome
  | _, _, _ => false

/-- The payload gives every list a status, which is read from then on where a list stands in the place
of a milestone. -/
def sharesStatus (payload : Value) : Bool :=
  namesPrototype payload &&
    (normalizeMilestoneStatus ((payload.field "milestone").field "status")).isSome

/-- The event leaves the gate alone, if this is the agreement it finds. -/
def eventRespects (payload : Value) (a : Agreement) : EventConfig → Bool
  | .statusUpdate target => target ≠ .completed ||
      !canTransition (statusText a.status) "completed" || milestonesSatisfyCompletion a.milestones
  | .milestoneUpdate => !sharesStatus payload &&
      (a.status ≠ some "completed" || !reopens payload a.milestones)
  | _ => true

/-- The operation completes an agreement only with finished milestones, and reopens no milestone of a
completed one. -/
def gateRespected (db : AgreementDb) (o : Operation) : Bool :=
  match o.request with
  | .updateMilestone _ agreementId dto => db.agreements.all fun a =>
      a.id ≠ agreementId || a.status ≠ some "completed" ||
        a.milestones.length ≤ dto.milestoneIndex || isFinished dto.status
  | .webhook payload =>
    match (payload.field "event").toText, (payload.field "contractId").toText with
    | some event, some contractId =>
      match twEventMap event, db.byContract contractId with
      | some config, [a] => eventRespects payload a config
      | _, _ => true
    | _, _ => true
  | .sync agreementId fetch => db.agreements.all fun a =>
      a.id ≠ agreementId || !pullsCompleted fetch a || milestonesSatisfyCompletion a.milestones
  | .reconcile agreementId first second => db.agreements.all fun a =>
      a.id ≠ agreementId ||
        ((!pullsCompleted first a || milestonesSatisfyCompletion a.milestones) &&
          (!(a.status = some "completed" || pullsCompleted first a) || !outOfStep first a ||
            correctsFinished second a))
  | _ => true

/-- What the gate is for. -/
def Gated (a : Agreement) : Prop :=
  a.status = some "completed" → ∀ m ∈ a.milestones, m.status = .approved ∨ m.status = .released

theorem milestonesSatisfyCompletion_iff {milestones : List Milestone} :
    milestonesSatisfyCompletion milestones = true ↔
      ∀ m ∈ milestones, isFinished m.status = true := by
  simp [milestonesSatisfyCompletion, isFinished]

theorem gated_iff {a : Agreement} :
    Gated a ↔ (a.status = some "completed" → milestonesSatisfyCompletion a.milestones = true) := by
  simp [Gated, milestonesSatisfyCompletion]

/-! ## Writers of milestones -/

/-- Rewriting one entry keeps what the rewriting keeps. -/
theorem forall_mem_modify {P : Milestone → Prop} {write : Milestone → Milestone}
    (hwrite : ∀ m, P m → P (write m)) {milestones : List Milestone}
    (h : ∀ m ∈ milestones, P m) (index : ℕ) : ∀ m ∈ milestones.modify index write, P m := by
  rw [List.modify_eq_set_getElem?]
  intro m hm
  cases hindex : milestones[index]? with
  | none =>
      rw [hindex] at hm
      exact h m hm
  | some old =>
      rw [hindex] at hm
      rcases List.mem_or_eq_of_mem_set hm with hm | rfl
      · exact h m hm
      · exact hwrite old (h old (List.mem_of_getElem? hindex))

theorem forall_mem_writeEntry {P : Milestone → Prop} {key : String} {write : Milestone → Milestone}
    {milestones milestones' : List Milestone} (h : writeEntry key write milestones = some milestones')
    (hold : ∀ m ∈ milestones, P m)
    (hwrite : (entryIndex key milestones.length).isSome = true → ∀ m, P m → P (write m)) :
    ∀ m ∈ milestones', P m := by
  rcases writeEntry_cases h with rfl | ⟨index, hindex, rfl⟩
  · exact hold
  · exact forall_mem_modify (hwrite (by rw [hindex]; rfl)) hold index

/-- A payload that reopens no milestone keeps them finished. -/
theorem finished_of_editMilestones {payload : Value} {milestones milestones' : List Milestone}
    (h : editMilestones payload milestones = .ok (some milestones'))
    (hreopens : reopens payload milestones = false)
    (hold : ∀ m ∈ milestones, isFinished m.status = true) :
    ∀ m ∈ milestones', isFinished m.status = true := by
  obtain ⟨number, key, between, hundefined, hnumber, hkey, hnegative, hlength, hstatus,
    hdescription⟩ := editMilestones_some h
  have hbetween : ∀ m ∈ between, isFinished m.status = true := by
    rcases writeMilestoneStatus_cases hstatus with rfl | ⟨status, hnormalized, hwritten⟩
    · exact hold
    · -- the entry that is written is the one `reopens` has looked at
      refine forall_mem_writeEntry hwritten hold fun hentry _ _ => ?_
      unfold reopens at hreopens
      dsimp only at hreopens
      rw [hnumber, hkey, hnormalized] at hreopens
      dsimp only at hreopens
      rw [hundefined, hnegative, hlength, hentry] at hreopens
      simpa using hreopens
  rcases writeMilestoneDescription_cases hdescription with rfl | hwritten
  · exact hbetween
  · exact forall_mem_writeEntry hwritten hbetween fun _ m hm => hm

/-- What a milestone becomes is what Trustless Work says of it, if the loop gets there. -/
theorem reconcileMilestone_eq {escrow : Value} {limit : Number} {m m' : Milestone} {index : ℕ}
    (h : reconcileMilestone escrow limit (m, index) = .ok m') :
    upstreamStatus escrow limit index = none ∧ m' = m ∨
      upstreamStatus escrow limit index = some (some m'.status) := by
  unfold reconcileMilestone at h
  dsimp only at h
  unfold upstreamStatus
  split at h
  · rename_i hlimit
    rw [if_pos hlimit]
    split at h
    · cases h
    · rename_i status hstatus
      cases h
      exact .inr (by rw [hstatus])
  · rename_i hlimit
    rw [if_neg hlimit]
    cases h
    exact .inl ⟨rfl, rfl⟩

/-- A correction that reopens no milestone keeps them finished. -/
theorem finished_of_reconcileMilestones {fetch : Fetch} {a : Agreement} {contractId : String}
    {milestones : List Milestone} (hcontract : nonEmpty a.contractId = some contractId)
    (htruthy : (fetchTrustlessEscrow contractId fetch).truthy = true)
    (hmilestones : ((fetchTrustlessEscrow contractId fetch).field "milestones").truthy = true)
    (h : reconcileMilestones (fetchTrustlessEscrow contractId fetch) a.milestones = .ok milestones)
    (hcorrects : correctsFinished fetch a = true)
    (hold : ∀ m ∈ a.milestones, isFinished m.status = true) :
    ∀ m ∈ milestones, isFinished m.status = true := by
  unfold reconcileMilestones at h
  unfold correctsFinished at hcorrects
  split at h
  · cases h
  · rename_i limit hlimit
    have hentries := forall₂_of_mapM_eq_ok h
    rw [hcontract] at hcorrects
    dsimp only at hcorrects
    rw [htruthy, hmilestones, hlimit] at hcorrects
    rcases Bool.or_eq_true_iff.mp hcorrects with hthrows | hfinished
    · -- the reading of some milestone would have thrown
      obtain ⟨status, hstatus, hnone⟩ := List.any_eq_true.mp hthrows
      obtain rfl := Option.isNone_iff_eq_none.mp hnone
      obtain ⟨index, hindex, hupstream⟩ := List.mem_filterMap.mp hstatus
      have hlt : index < a.milestones.length := List.mem_range.mp hindex
      have hmem : (a.milestones[index], index) ∈ a.milestones.zipIdx := by
        rw [List.mk_mem_zipIdx_iff_getElem?]
        exact List.getElem?_eq_getElem hlt
      obtain ⟨m', -, hm'⟩ := Table.exists_of_forall₂_left hentries hmem
      rcases reconcileMilestone_eq hm' with ⟨hnone, -⟩ | hsome
      · rw [hupstream] at hnone
        cases hnone
      · rw [hupstream] at hsome
        cases hsome
    · intro m' hm'
      obtain ⟨⟨m, index⟩, hmem, hstep⟩ := Table.exists_of_forall₂_right hentries hm'
      obtain ⟨hlt, hm⟩ := List.mem_zipIdx' hmem
      rcases reconcileMilestone_eq hstep with ⟨-, rfl⟩ | hsome
      · exact hold m' (hm ▸ List.getElem_mem hlt)
      · have hlisted := List.mem_filterMap.mpr ⟨index, List.mem_range.mpr hlt, hsome⟩
        simpa using List.all_eq_true.mp hfinished _ hlisted

/-! ## Steps -/

theorem pullsCompleted_of_pulledStatus {fetch : Fetch} {a : Agreement}
    (h : pulledStatus fetch a = some (some "completed")) : pullsCompleted fetch a = true := by
  cases hcontract : nonEmpty a.contractId with
  | none => simp [pulledStatus, hcontract] at h
  | some contractId =>
      simp only [pulledStatus, hcontract] at h
      simp only [pullsCompleted, hcontract]
      cases htext : ((fetchTrustlessEscrow contractId fetch).field "status").toText with
      | none => simp [htext] at h
      | some text =>
          simp only [htext] at h ⊢
          split at h
          · rename_i hpull
            rw [hpull.1, h]
            rfl
          · cases h

/-- A pulled row that is completed was completed, or is by the pull. -/
theorem Pulled.completed_or {now : Timestamp} {fetch : Fetch} {a a' : Agreement}
    (h : Pulled now fetch a a') (hstatus : a'.status = some "completed") :
    a.status = some "completed" ∨ pullsCompleted fetch a = true := by
  rcases h with rfl | rfl
  · exact .inl hstatus
  · cases hpulled : pulledStatus fetch a with
    | none =>
        rw [Agreement.apply_status, hpulled] at hstatus
        exact .inl hstatus
    | some status =>
        rw [Agreement.apply_status, hpulled] at hstatus
        obtain rfl : status = some "completed" := hstatus
        exact .inr (pullsCompleted_of_pulledStatus hpulled)

theorem Pulled.milestones_eq {now : Timestamp} {fetch : Fetch} {a a' : Agreement}
    (h : Pulled now fetch a a') : a'.milestones = a.milestones := by
  rcases h with rfl | rfl <;> rfl

/-- A pull completes a row only when its milestones are finished. -/
theorem Pulled.gated {now : Timestamp} {fetch : Fetch} {a a' : Agreement} (h : Pulled now fetch a a')
    (hgated : Gated a)
    (hrespects : (!pullsCompleted fetch a || milestonesSatisfyCompletion a.milestones) = true) :
    Gated a' := by
  rw [gated_iff] at hgated ⊢
  intro hstatus
  rw [h.milestones_eq]
  rcases h.completed_or hstatus with hcompleted | hpulls
  · exact hgated hcompleted
  · simpa [hpulls] using hrespects

/-- A reconcile reopens no milestone of a row that is completed after its pull. -/
theorem Reconciled.gated {now : Timestamp} {first second : Fetch} {a a' : Agreement}
    (h : Reconciled now first second a a') (hgated : Gated a)
    (hrespects : (!pullsCompleted first a || milestonesSatisfyCompletion a.milestones) = true)
    (hcorrects : (!(a.status = some "completed" || pullsCompleted first a) || !outOfStep first a ||
      correctsFinished second a) = true) : Gated a' := by
  obtain ⟨b, hpulled, rfl | ⟨hout, hcorrected⟩⟩ := h
  · exact hpulled.gated hgated hrespects
  · have hb := hpulled.gated hgated hrespects
    rcases hcorrected with rfl |
      ⟨contractId, milestones, hcontract, htruthy, hlisted, hmilestones, rfl⟩
    · exact hb
    · rw [gated_iff] at hb ⊢
      intro hstatus
      have hfinished : correctsFinished second a = true := by
        have hcompleted : (a.status = some "completed" || pullsCompleted first a) = true := by
          simpa using hpulled.completed_or hstatus
        simpa [hcompleted, hout] using hcorrects
      have hold := milestonesSatisfyCompletion_iff.mp (hb hstatus)
      rw [hpulled.contractId_eq] at hcontract
      rw [hpulled.milestones_eq] at hold hmilestones
      exact milestonesSatisfyCompletion_iff.mpr
        (finished_of_reconcileMilestones hcontract htruthy hlisted hmilestones hfinished hold)

/-- A guard over all rows, at one of them. -/
theorem guard_at {db : AgreementDb} {p : Agreement → Bool} {a : Agreement} (ha : a ∈ db.agreements)
    (h : (db.agreements.all fun b => b.id ≠ a.id || p b) = true) : p a = true := by
  simpa using List.all_eq_true.mp h a ha

/-- **Step lemma.** A row that meets the gate meets it after a step. -/
theorem RowStep.gated {o : Operation} {db : AgreementDb} (hrespected : gateRespected db o = true)
    {a a' : Agreement} (ha : a ∈ db.agreements) (hgated : Gated a)
    (halone : ∀ payload contractId, o.request = .webhook payload →
      (payload.field "contractId").toText = some contractId → a.contractId = some contractId →
        db.byContract contractId = [a])
    (h : RowStep o a a') : Gated a' := by
  cases h with
  | same => exact hgated
  | linked userId dto fetch ho => exact hgated
  | status userId dto ho hedge hgate =>
      rw [gated_iff]
      -- the gate of `updateStatus` has looked at these milestones
      intro hstatus
      have htext : dto.status.text = AgreementStatus.completed.text := Option.some.inj hstatus
      exact hgate (AgreementStatus.text_inj.mp htext)
  | disputed target ho htarget hedge =>
      intro hstatus
      have htext : target.text = AgreementStatus.completed.text := Option.some.inj hstatus
      exact absurd (AgreementStatus.text_inj.mp htext) htarget
  | milestone userId dto m ho hm =>
      rw [gated_iff] at hgated ⊢
      intro hstatus
      have hstatus : a.status = some "completed" := hstatus
      -- the agreement may be completed already, and the entry reopened
      have hlt : ¬ a.milestones.length ≤ dto.milestoneIndex := by
        have hindex := (List.getElem?_eq_some_iff.mp hm).1
        omega
      have hfinished : isFinished dto.status = true := by
        have hall : (db.agreements.all fun b => b.id ≠ a.id || (b.status ≠ some "completed" ||
            b.milestones.length ≤ dto.milestoneIndex || isFinished dto.status)) = true := by
          simpa only [gateRespected, ho, Bool.or_assoc] using hrespected
        simpa [hstatus, hlt] using guard_at ha hall
      refine milestonesSatisfyCompletion_iff.mpr fun m' hm' => ?_
      rcases List.mem_or_eq_of_mem_set hm' with hm' | rfl
      · exact milestonesSatisfyCompletion_iff.mp (hgated hstatus) m' hm'
      · exact hfinished
  | webhookStatus payload event contractId target ho hevent hcontract hconfig hid hedge =>
      rw [gated_iff]
      intro hstatus
      have htext : target.text = AgreementStatus.completed.text := Option.some.inj hstatus
      obtain rfl := AgreementStatus.text_inj.mp htext
      -- no gate here: the condition has to say that the milestones are finished
      have hevents : eventRespects payload a (.statusUpdate .completed) = true := by
        simpa only [gateRespected, ho, hevent, hcontract, hconfig,
          halone payload contractId ho hcontract hid] using hrespected
      have hedge : canTransition (statusText a.status) "completed" = true := hedge
      have hfinished : milestonesSatisfyCompletion a.milestones = true := by
        simpa [eventRespects, hedge] using hevents
      exact hfinished
  | webhookMilestones payload event contractId milestones ho hevent hcontract hconfig hid hedited =>
      rw [gated_iff] at hgated ⊢
      intro hstatus
      have hstatus : a.status = some "completed" := hstatus
      have hevents : eventRespects payload a .milestoneUpdate = true := by
        simpa only [gateRespected, ho, hevent, hcontract, hconfig,
          halone payload contractId ho hcontract hid] using hrespected
      -- an edit of a completed agreement must reopen nothing
      have hreopens : reopens payload a.milestones = false := by
        have hreopens := (Bool.and_eq_true_iff.mp hevents).2
        simpa [hstatus] using hreopens
      exact milestonesSatisfyCompletion_iff.mpr (finished_of_editMilestones hedited hreopens
        (milestonesSatisfyCompletion_iff.mp (hgated hstatus)))
  | pulled _ fetch ho hpulled =>
      have hall : (db.agreements.all fun b => b.id ≠ a.id ||
          (!pullsCompleted fetch b || milestonesSatisfyCompletion b.milestones)) = true := by
        simpa only [gateRespected, ho, Bool.or_assoc] using hrespected
      exact hpulled.gated hgated (guard_at ha hall)
  | reconciled _ first second ho hreconciled =>
      have hall : (db.agreements.all fun b => b.id ≠ a.id ||
          ((!pullsCompleted first b || milestonesSatisfyCompletion b.milestones) &&
            (!(b.status = some "completed" || pullsCompleted first b) || !outOfStep first b ||
              correctsFinished second b))) = true := by
        simpa only [gateRespected, ho] using hrespected
      obtain ⟨hfirst, hsecond⟩ := Bool.and_eq_true_iff.mp (guard_at ha hall)
      exact hreconciled.gated hgated hfirst hsecond

/-! ## Runs -/

section Runs

variable {F : FloatArithmetic}

/-- The operations, as long as each respects the gate. -/
abbrev gatedSystem (F : FloatArithmetic) : StepSystem AgreementDb Operation :=
  (agreementSystem F).restrict fun db o => gateRespected db o = true

theorem gated_step {db db' : AgreementDb} {o : Operation}
    (hgated : ∀ a ∈ db.agreements, Gated a) (hs : (gatedSystem F).step db o db') :
    ∀ a' ∈ db'.agreements, Gated a' := by
  obtain ⟨hrespected, hstep⟩ := hs
  by_cases hshared : ∃ payload contractId, o.request = .webhook payload ∧
      (payload.field "contractId").toText = some contractId ∧
      ∀ a, db.byContract contractId ≠ [a]
  · obtain ⟨payload, contractId, ho, hcontract, hshared⟩ := hshared
    rw [unchanged_of_shared ho hcontract hshared hstep]
    exact hgated
  · refine (step_rows hstep).forall_mem (fun a a' ha hrow => ?_) fun userId dto id created _ _ => ?_
    · refine hrow.gated hrespected ha (hgated a ha) fun payload contractId ho hcontract hid => ?_
      have halone : ∃ b, db.byContract contractId = [b] := by
        by_contra hnone
        exact hshared ⟨payload, contractId, ho, hcontract, fun b hb => hnone ⟨b, hb⟩⟩
      obtain ⟨b, hb⟩ := halone
      have hmem := mem_byContract.mpr ⟨ha, hid⟩
      rw [hb] at hmem ⊢
      rw [List.mem_singleton.mp hmem]
    · -- a new agreement is pending
      intro hstatus
      have htext : "pending" = "completed" := Option.some.inj hstatus
      exact absurd htext (by decide)

/-- **Completion gate.** Where no webhook and no sync completes an agreement with open milestones, nobody
reopens a milestone of a completed one, and no webhook gives all lists a status, every milestone of a
completed agreement is approved or released. -/
theorem completion_gate {db : AgreementDb} (h : (gatedSystem F).Reachable db) :
    ∀ a ∈ db.agreements, a.status = some "completed" →
      ∀ m ∈ a.milestones, m.status = .approved ∨ m.status = .released := by
  refine StepSystem.invariant_of_steps (I := fun db : AgreementDb => ∀ a ∈ db.agreements, Gated a)
    (fun db hinit => ?_) (fun db o db' _ hI hs => gated_step hI hs) h
  rw [hinit.1]
  intro a ha
  cases ha

end Runs

/-- The payer takes an agreement over one milestone to its completion. -/
def completeSite : List Operation :=
  [createOperation "10" none [⟨"Launch", "10", .pending⟩],
    ⟨1, .updateStatus "payer" "i" ⟨.active, "P"⟩⟩, ⟨2, .updateStatus "payer" "i" ⟨.inReview, "P"⟩⟩,
    ⟨3, .updateMilestone "payer" "i" ⟨0, .approved, "P", none, none⟩⟩,
    ⟨4, .updateStatus "payer" "i" ⟨.completed, "P"⟩⟩]

/-- The theorem for a completed agreement. -/
theorem completion_gate_site :
    let db := runAll exactArithmetic completeSite newStore
    db.agreements.map Agreement.status = [some "completed"] ∧
      ∀ a ∈ db.agreements, a.status = some "completed" →
        ∀ m ∈ a.milestones, m.status = .approved ∨ m.status = .released := by
  intro db
  refine ⟨by decide +kernel, completion_gate (F := exactArithmetic) ?_⟩
  exact reachable_restrict_runAll (.init isNew_newStore) (by decide +kernel)

/-- A participant sets the milestone of the completed agreement back. -/
theorem not_completion_gate : ¬ ∀ db, (agreementSystem exactArithmetic).Reachable db →
    ∀ a ∈ db.agreements, a.status = some "completed" →
      ∀ m ∈ a.milestones, m.status = .approved ∨ m.status = .released := by
  intro h
  let reopened := runAll exactArithmetic (completeSite ++
    [⟨5, .updateMilestone "payer" "i" ⟨0, .pending, "P", none, none⟩⟩]) newStore
  have hgate := h reopened (reachable_runAll (.init isNew_newStore))
  have hopen : ∃ a ∈ reopened.agreements, a.status = some "completed" ∧
      ∃ m ∈ a.milestones, m.status = .pending := by decide +kernel
  obtain ⟨a, ha, hstatus, m, hm, hpending⟩ := hopen
  rcases hgate a ha hstatus m hm with hfinished | hfinished
  · rw [hpending] at hfinished
    cases hfinished
  · rw [hpending] at hfinished
    cases hfinished

end ThalosBackend.Agreements
