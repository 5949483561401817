import ThalosBackend.Agreements.CompletionGate
import ThalosBackend.Agreements.MilestoneSyncService
import ThalosBackend.Agreements.SyncOutcome

/-!
# The policy of a reconcile

`applyTWMilestoneUpdate` says which of the milestone updates of Trustless Work are to be applied, and
which are conflicts to be left alone. `doReconcile` does not ask it: it overwrites every milestone that
differs, or none when the agreement's status already matches, and reports in both cases that the two
sides are reconciled. It reports so as well when the agreement is ahead and its status is left behind.

`policyKept` is the condition on the row and the two escrows under which a reconcile does what the
policy says and reports.
-/

set_option autoImplicit false

namespace ThalosBackend.Agreements

open Js (Number Timestamp Value nonEmpty)
open Calls (ask Ensures)

/-! ## The policy -/

/-- The status an escrow gives for the milestone at an index, where both sides have one. -/
def givenStatus (escrow : Value) (index : ℕ) : Option MilestoneStatus :=
  match (escrow.field "milestones").truthy, (lengthOf (escrow.field "milestones")).toNumber with
  | true, some limit => (upstreamStatus escrow limit index).join
  | _, _ => none

/-- How the update that an escrow gives for a milestone is classified. -/
def classified (escrow : Value) (index : ℕ) (m : Milestone) : Option TWUpdate :=
  (givenStatus escrow index).map fun status => applyTWMilestoneUpdate m.status.text status.text

/-- What a reconcile with this escrow may make of a row, and may report. -/
structure MeetsPolicy (escrow : Value) (a a' : Agreement) (reported : Bool) : Prop where
  changed : ∀ (index : ℕ) (m m' : Milestone), a.milestones[index]? = some m →
    a'.milestones[index]? = some m' → m'.status ≠ m.status →
      classified escrow index m = some .applied
  milestones : reported = true → ∀ (index : ℕ) (m m' : Milestone) (status : MilestoneStatus),
    a.milestones[index]? = some m → a'.milestones[index]? = some m' →
      givenStatus escrow index = some status → classified escrow index m ≠ some .conflict →
        m'.status = status
  status : reported = true → (mappedStatus escrow).bind columnValue = some a'.status

/-! ## The condition -/

/-- The loop over the milestones reads every status it gets to. -/
def readsMilestones (escrow : Value) (count : ℕ) : Bool :=
  !(escrow.field "milestones").truthy ||
    ((lengthOf (escrow.field "milestones")).toNumber).any fun limit =>
      (List.range count).all (upstreamStatus escrow limit · ≠ some none)

/-- The status of the row after `doSync`. -/
def statusAfter (escrow : Value) (a : Agreement) : Option String :=
  if directionOf escrow a = some .twToThalos then
    ((mappedStatus escrow).bind columnValue).getD a.status
  else a.status

/-- The reconcile stops after `doSync`, or does not find an escrow the second time. -/
def leavesMilestones (first second : Value) (a : Agreement) : Bool :=
  syncReport first a = some .alreadyInSync || !second.truthy

/-- The reconcile ends without a report: the escrow is not fetched, or something of it is unreadable. -/
def endsUnreported (first second : Value) (a : Agreement) : Bool :=
  !first.truthy || syncReport first a = none ||
    !leavesMilestones first second a && !readsMilestones second a.milestones.length

/-- The escrow the reconcile has seen last. -/
def lastEscrow (first second : Value) (a : Agreement) : Value :=
  if leavesMilestones first second a then first else second

/-- No update that the escrow gives is classified so. -/
def noneClassified (update : TWUpdate) (escrow : Value) (a : Agreement) : Bool :=
  a.milestones.zipIdx.all fun (m, index) => classified escrow index m ≠ some update

/-- A reconcile that reports finds no conflict in the milestones it writes and nothing to apply in
those it leaves, and the row's status is the one of the escrow it has seen last. -/
def policyKept (first second : Value) (a : Agreement) : Bool :=
  endsUnreported first second a ||
    (mappedStatus (lastEscrow first second a)).bind columnValue = some (statusAfter first a) &&
      if leavesMilestones first second a then noneClassified .applied first a
      else noneClassified .conflict second a

/-! ## The end of a reconcile -/

section Outcome

variable {now : Timestamp} {agreementId contractId : String} {fetch first second : Fetch}
  {escrow : Value} {a : Agreement} {db : AgreementDb}

/-- The milestones after the loop. -/
def correctedMilestones (escrow : Value) (milestones : List Milestone) : List Milestone :=
  milestones.mapIdx fun index m => { m with status := (givenStatus escrow index).getD m.status }

theorem noneClassified_iff {update : TWUpdate} :
    noneClassified update escrow a = true ↔ ∀ (index : ℕ) (m : Milestone),
      a.milestones[index]? = some m → classified escrow index m ≠ some update := by
  rw [noneClassified, List.all_eq_true]
  constructor
  · intro hall index m hm
    exact of_decide_eq_true (hall (m, index) (List.mk_mem_zipIdx_iff_getElem?.mpr hm))
  · rintro hall ⟨m, index⟩ hentry
    exact decide_eq_true (hall index m (List.mk_mem_zipIdx_iff_getElem?.mp hentry))

theorem givenStatus_of_falsy (h : (escrow.field "milestones").truthy = false) (index : ℕ) :
    givenStatus escrow index = none := by
  rw [givenStatus, h]

theorem correctedMilestones_of_falsy (h : (escrow.field "milestones").truthy = false)
    (milestones : List Milestone) : correctedMilestones escrow milestones = milestones := by
  simp only [correctedMilestones, givenStatus_of_falsy h, Option.getD_none]
  rw [List.mapIdx_eq_zipIdx_map]
  exact List.zipIdx_map_fst 0 milestones

/-- One round of the loop, when the status can be read. -/
theorem reconcileMilestone_of_reads {limit : Number} {m : Milestone} {index : ℕ}
    (hreads : upstreamStatus escrow limit index ≠ some none) :
    reconcileMilestone escrow limit (m, index) =
      .ok { m with status := (upstreamStatus escrow limit index).join.getD m.status } := by
  unfold upstreamStatus at hreads ⊢
  unfold reconcileMilestone
  dsimp only
  split
  · rename_i hlimit
    rw [if_pos hlimit] at hreads
    cases hstatus : milestoneStatusFromTrustless (itemOf index (escrow.field "milestones"))
        ((escrow.field "flags").field "released") with
    | none => exact absurd (by rw [hstatus]) hreads
    | some status => rfl
  · rfl

/-- The loop writes `correctedMilestones` when it reads every status, and throws otherwise. -/
theorem reconcileMilestones_end (milestones : List Milestone)
    (htruthy : (escrow.field "milestones").truthy = true) :
    if readsMilestones escrow milestones.length then
      reconcileMilestones escrow milestones = .ok (correctedMilestones escrow milestones)
    else ∃ e, reconcileMilestones escrow milestones = .error e := by
  cases hlimit : (lengthOf (escrow.field "milestones")).toNumber with
  | none =>
      have hreads : readsMilestones escrow milestones.length = false := by
        simp [readsMilestones, htruthy, hlimit]
      rw [hreads]
      refine ⟨.internal, ?_⟩
      simp only [reconcileMilestones, hlimit]
  | some limit =>
      have hreads : readsMilestones escrow milestones.length =
          (List.range milestones.length).all (upstreamStatus escrow limit · ≠ some none) := by
        simp [readsMilestones, htruthy, hlimit]
      have hloop : reconcileMilestones escrow milestones =
          milestones.zipIdx.mapM (reconcileMilestone escrow limit) := by
        simp only [reconcileMilestones, hlimit]
      rw [hreads, hloop]
      split
      · rename_i hall
        have hgiven : ∀ index, givenStatus escrow index =
            (upstreamStatus escrow limit index).join := by
          intro index
          simp only [givenStatus, htruthy, hlimit]
        rw [mapM_of_forall_ok (g := fun entry =>
          { entry.1 with status := (givenStatus escrow entry.2).getD entry.1.status })]
        · rw [correctedMilestones, List.mapIdx_eq_zipIdx_map]
        · rintro ⟨m, index⟩ hentry
          have hlt : index < milestones.length := (List.mem_zipIdx' hentry).1
          have hread := List.all_eq_true.mp hall index (List.mem_range.mpr hlt)
          rw [reconcileMilestone_of_reads (of_decide_eq_true hread), hgiven]
      · rename_i hsome
        cases hmap : milestones.zipIdx.mapM (reconcileMilestone escrow limit) with
        | error e => exact ⟨e, rfl⟩
        | ok milestones' =>
            -- every entry has been read
            refine absurd (List.all_eq_true.mpr fun index hindex => ?_) hsome
            have hlt := List.mem_range.mp hindex
            have hmem : (milestones[index], index) ∈ milestones.zipIdx := by
              rw [List.mk_mem_zipIdx_iff_getElem?]
              exact List.getElem?_eq_getElem hlt
            obtain ⟨m', -, hm'⟩ := Table.exists_of_forall₂_left (forall₂_of_mapM_eq_ok hmap) hmem
            rcases reconcileMilestone_eq hm' with ⟨hnone, -⟩ | hsome
            · simp [hnone]
            · simp [hsome]

/-- The second part of `doReconcile`, for an escrow that is found. -/
theorem correctMilestones_end (ha : db.agreementAt agreementId = some a)
    (hcontract : nonEmpty a.contractId = some contractId)
    (hfetched : (fetchTrustlessEscrow contractId fetch).truthy = true) :
    Ensures Answers (correctMilestones now agreementId fetch) db fun out db' =>
      ∃ a', db'.agreementAt agreementId = some a' ∧ a'.status = a.status ∧
        if readsMilestones (fetchTrustlessEscrow contractId fetch) a.milestones.length then
          a'.milestones = correctedMilestones (fetchTrustlessEscrow contractId fetch) a.milestones ∧
            ∃ actions, out = .ok actions
        else a'.milestones = a.milestones ∧ ∃ e, out = .error e := by
  refine answered_getAgreement (fun b hb => ?_) fun hnone => ?_
  swap
  · rw [ha] at hnone
    cases hnone
  rw [ha] at hb
  cases hb
  simp only [hcontract, hfetched, Bool.not_true, Bool.false_eq_true, if_false]
  -- an escrow that lists no milestones corrects none
  cases htruthy : ((fetchTrustlessEscrow contractId fetch).field "milestones").truthy with
  | false =>
      have hreads : readsMilestones (fetchTrustlessEscrow contractId fetch) a.milestones.length =
          true := by
        simp [readsMilestones, htruthy]
      rw [hreads, correctedMilestones_of_falsy htruthy]
      refine answered_logSyncActivity fun db' hsame => ⟨a, ?_, rfl, rfl, _, rfl⟩
      rw [agreementAt_congr hsame.agreements, ha]
  | true =>
      have hend := reconcileMilestones_end a.milestones htruthy
      split at hend
      · rename_i hreads
        refine Calls.ensures_bind.mpr (Calls.ensures_ofExcept.mpr ?_)
        rw [hend]
        refine ⟨fun milestones hok => ?_, fun _ he => by cases he⟩
        cases hok
        refine Calls.ensures_ask fun x db₁ hx => ?_
        obtain ⟨-, rfl⟩ := hx
        refine answered_logSyncActivity fun db' hsame => ⟨a.apply
          { milestones := some (correctedMilestones (fetchTrustlessEscrow contractId fetch) a.milestones)
            updatedAt := now }, ?_, rfl, ?_⟩
        · rw [agreementAt_congr hsame.agreements, agreementAt_updateAgreements _ ha]
        · rw [if_pos hreads]
          exact ⟨rfl, _, rfl⟩
      · -- an entry that cannot be read, and nothing is written
        rename_i hthrows
        obtain ⟨e, he⟩ := hend
        refine Calls.ensures_bind.mpr (Calls.ensures_ofExcept.mpr ?_)
        rw [he]
        refine ⟨fun _ hok => (by cases hok), fun e' _ => ⟨a, ha, rfl, ?_⟩⟩
        rw [if_neg hthrows]
        exact ⟨rfl, e', rfl⟩

/-- Without an escrow the second part does nothing. -/
theorem correctMilestones_unfetched (ha : db.agreementAt agreementId = some a)
    (hcontract : nonEmpty a.contractId = some contractId)
    (hunfetched : (fetchTrustlessEscrow contractId fetch).truthy = false) :
    Ensures Answers (correctMilestones now agreementId fetch) db fun out db' =>
      out = .ok [] ∧ db' = db := by
  refine answered_getAgreement (fun b hb => ?_) fun hnone => ?_
  · rw [ha] at hb
    cases hb
    simp only [hcontract, hunfetched, Bool.not_false, if_true]
    exact ⟨rfl, rfl⟩
  · rw [ha] at hnone
    cases hnone

/-- `doSync` of an agreement whose escrow is not fetched. -/
theorem doSync_unfetched (ha : db.agreementAt agreementId = some a)
    (hcontract : nonEmpty a.contractId = some contractId)
    (hunfetched : (fetchTrustlessEscrow contractId fetch).truthy = false) :
    Ensures Answers (doSync now agreementId fetch) db fun out db' =>
      db'.agreementAt agreementId = some a ∧ ∃ result, out = .ok result ∧
        result.direction = none ∧ result.synced = false ∧ result.errors ≠ [] := by
  refine answered_getAgreement (fun b hb => ?_) fun hnone => ?_
  · rw [ha] at hb
    cases hb
    simp only [hcontract, hunfetched, Bool.false_eq_true, if_false]
    refine answered_logSyncActivity fun db' hsame => ⟨?_, _, rfl, rfl, rfl, by simp⟩
    rw [agreementAt_congr hsame.agreements, ha]
  · rw [ha] at hnone
    cases hnone

/-- The reconcile reports that the two sides are reconciled. -/
def reportsReconciled : Except HttpException ReconcileResult → Bool
  | .ok result => result.reconciled
  | .error _ => false

/-- How a reconcile ends. -/
inductive ReconcileEnd (first second : Value) (a a' : Agreement) : Bool → Prop where
  | unreported : endsUnreported first second a = true → a'.milestones = a.milestones →
      ReconcileEnd first second a a' false
  | left : endsUnreported first second a = false → leavesMilestones first second a = true →
      a'.status = statusAfter first a → a'.milestones = a.milestones →
      ReconcileEnd first second a a' true
  | corrected : endsUnreported first second a = false → leavesMilestones first second a = false →
      a'.status = statusAfter first a →
      a'.milestones = correctedMilestones second a.milestones → ReconcileEnd first second a a' true

theorem pullRow_status : (pullRow now escrow a).status = statusAfter escrow a := by
  unfold pullRow statusAfter
  split
  · rfl
  · rfl

theorem pullRow_milestones : (pullRow now escrow a).milestones = a.milestones := by
  unfold pullRow
  split
  · rfl
  · rfl

theorem pullRow_contractId : (pullRow now escrow a).contractId = a.contractId := by
  unfold pullRow
  split
  · rfl
  · rfl

/-- The reconcile ends where an escrow cannot be fetched or read. -/
theorem ReconcileEnd.of_unreported {first second : Value} {a' : Agreement}
    (h : first.truthy = false ∨ syncReport first a = none)
    (hmilestones : a'.milestones = a.milestones) : ReconcileEnd first second a a' false := by
  refine .unreported ?_ hmilestones
  rcases h with hfirst | hreport
  · simp [endsUnreported, hfirst]
  · simp [endsUnreported, hreport]

/-- The reconcile leaves the milestones of a row that is in sync, or whose escrow is gone. -/
theorem ReconcileEnd.of_left {first second : Value} {direction : SyncDirection}
    (hfirst : first.truthy = true) (hreport : syncReport first a = some direction)
    (h : direction = .alreadyInSync ∨ second.truthy = false) :
    ReconcileEnd first second a (pullRow now first a) true := by
  have hleaves : leavesMilestones first second a = true := by
    rcases h with rfl | hsecond
    · simp [leavesMilestones, hreport]
    · simp [leavesMilestones, hsecond]
  have hreported : endsUnreported first second a = false := by
    simp [endsUnreported, hfirst, hreport, hleaves]
  exact .left hreported hleaves pullRow_status pullRow_milestones

/-- The second part of a reconcile, after a sync that has found another status. -/
theorem correctMilestones_reconciles (second : Fetch) {first : Value} {direction : SyncDirection}
    (hfirst : first.truthy = true) (hreport : syncReport first a = some direction)
    (hother : direction ≠ .alreadyInSync)
    (hrow : db.agreementAt agreementId = some (pullRow now first a))
    (hcontract : nonEmpty a.contractId = some contractId) :
    Ensures Answers (correctMilestones now agreementId second) db fun out db' =>
      ∃ a', db'.agreementAt agreementId = some a' ∧ ReconcileEnd first
        (fetchTrustlessEscrow contractId second) a a' out.isOk := by
  have hcontract₁ : nonEmpty (pullRow now first a).contractId = some contractId := by
    rw [pullRow_contractId, hcontract]
  cases hsecond : (fetchTrustlessEscrow contractId second).truthy with
  | false =>
      refine (correctMilestones_unfetched hrow hcontract₁ hsecond).mono ?_
      rintro out db₂ ⟨rfl, rfl⟩
      exact ⟨_, hrow, .of_left hfirst hreport (.inr hsecond)⟩
  | true =>
      have hwrites : leavesMilestones first (fetchTrustlessEscrow contractId second) a = false := by
        simp [leavesMilestones, hsecond, hreport, hother]
      refine (correctMilestones_end hrow hcontract₁ hsecond).mono ?_
      rintro out db₂ ⟨a', hrow', hstatus, hcorrected⟩
      rw [pullRow_milestones] at hcorrected
      refine ⟨a', hrow', ?_⟩
      split at hcorrected
      · rename_i hreads
        obtain ⟨hmilestones, actions, rfl⟩ := hcorrected
        have hreported : endsUnreported first (fetchTrustlessEscrow contractId second) a = false := by
          simp [endsUnreported, hfirst, hreport, hreads]
        exact .corrected hreported hwrites (hstatus.trans pullRow_status) hmilestones
      · rename_i hthrows
        obtain ⟨hmilestones, e, rfl⟩ := hcorrected
        have hunreported : endsUnreported first (fetchTrustlessEscrow contractId second) a = true := by
          simp [endsUnreported, hwrites, hthrows]
        exact .unreported hunreported hmilestones

/-- `doReconcile` of an agreement over a contract. -/
theorem doReconcile_end (ha : db.agreementAt agreementId = some a)
    (hcontract : nonEmpty a.contractId = some contractId) :
    Ensures Answers (doReconcile now agreementId first second) db fun out db' =>
      ∃ a', db'.agreementAt agreementId = some a' ∧
        ReconcileEnd (fetchTrustlessEscrow contractId first) (fetchTrustlessEscrow contractId second)
          a a' (reportsReconciled out) := by
  refine Calls.ensures_bind.mpr ?_
  cases hfirst : (fetchTrustlessEscrow contractId first).truthy with
  | false =>
      refine (doSync_unfetched ha hcontract hfirst).mono ?_
      rintro out db₁ ⟨hrow, result, rfl, hdirection, hsynced, herrors⟩
      refine ⟨fun _ hok => ?_, fun _ he => by cases he⟩
      cases hok
      rw [if_neg (by simp [hdirection]), if_pos (by simp [hsynced, herrors])]
      exact ⟨a, hrow, .of_unreported (.inl hfirst) rfl⟩
  | true =>
      refine (doSync_end ha hcontract hfirst).mono ?_
      rintro out db₁ ⟨hrow, hend⟩
      cases hreport : syncReport (fetchTrustlessEscrow contractId first) a with
      | none =>
          simp only [SyncEnd, hreport] at hend
          obtain ⟨e, rfl⟩ := hend
          refine ⟨fun _ hok => (by cases hok), fun e _ => ?_⟩
          exact ⟨_, hrow, .of_unreported (.inr hreport) pullRow_milestones⟩
      | some direction =>
          simp only [SyncEnd, hreport] at hend
          obtain ⟨result, rfl, hsync⟩ := hend
          refine ⟨fun _ hok => ?_, fun _ he => by cases he⟩
          cases hok
          by_cases hinSync : direction = .alreadyInSync
          · -- the milestones are not looked at
            rw [if_pos (by rw [hsync.direction, hinSync])]
            exact ⟨_, hrow, .of_left hfirst hreport (.inl hinSync)⟩
          · rw [if_neg (by simp [hsync.direction, hinSync]), if_neg (by simp [hsync.synced])]
            have hsecond := correctMilestones_reconciles second hfirst hreport hinSync hrow hcontract
            refine Calls.ensures_bind.mpr (hsecond.mono ?_)
            rintro out db₂ ⟨a', hrow', hend⟩
            refine ⟨fun actions hok => ?_, fun e he => ?_⟩
            · subst hok
              -- the sync has reported what it did
              have hreports : (!(result.actions ++ actions).isEmpty) = true := by
                simp [hsync.actions]
              refine ⟨a', hrow', ?_⟩
              simp only [reportsReconciled, hreports]
              exact hend
            · subst he
              exact ⟨a', hrow', hend⟩

end Outcome

/-! ## When a reconcile meets the policy -/

section Policy

variable {escrow first second : Value} {a a' : Agreement} {reported : Bool}

/-- A conflict is a difference. -/
theorem ne_of_conflict {index : ℕ} {m : Milestone} {status : MilestoneStatus}
    (hgiven : givenStatus escrow index = some status)
    (h : classified escrow index m = some .conflict) : status ≠ m.status := by
  rintro rfl
  rw [classified, hgiven, Option.map_some, applyTWMilestoneUpdate_skipped.mpr rfl] at h
  cases h

/-- Milestones that are left alone meet the policy when there is nothing to apply. -/
theorem meetsPolicy_of_same (hmilestones : a'.milestones = a.milestones) :
    MeetsPolicy escrow a a' true ↔
      (mappedStatus escrow).bind columnValue = some a'.status ∧
        noneClassified .applied escrow a = true := by
  rw [noneClassified_iff]
  constructor
  · intro h
    refine ⟨h.status rfl, fun index m hm happlied => ?_⟩
    obtain ⟨status, hgiven, happlies⟩ := Option.map_eq_some_iff.mp happlied
    have hconflict : classified escrow index m ≠ some .conflict := by
      rw [happlied]
      nofun
    have hsame := h.milestones rfl index m m status hm (by rw [hmilestones, hm]) hgiven hconflict
    rw [applyTWMilestoneUpdate_skipped.mpr hsame] at happlies
    cases happlies
  · rintro ⟨hstatus, hnone⟩
    refine ⟨fun index m m' hm hm' hne => ?_, fun _ index m m' status hm hm' hgiven hconflict => ?_,
      fun _ => hstatus⟩
    · rw [hmilestones, hm] at hm'
      exact absurd (congrArg Milestone.status (Option.some.inj hm')).symm hne
    · rw [hmilestones, hm] at hm'
      obtain rfl := Option.some.inj hm'
      have happlied := hnone index m hm
      rw [classified, hgiven, Option.map_some] at happlied hconflict
      cases hupdate : applyTWMilestoneUpdate m.status.text status.text with
      | applied => exact absurd (by rw [hupdate]) happlied
      | skipped => exact applyTWMilestoneUpdate_skipped.mp hupdate
      | conflict => exact absurd (by rw [hupdate]) hconflict

/-- Milestones that are overwritten meet the policy when there is no conflict. -/
theorem meetsPolicy_of_corrected
    (hmilestones : a'.milestones = correctedMilestones escrow a.milestones) :
    MeetsPolicy escrow a a' true ↔
      (mappedStatus escrow).bind columnValue = some a'.status ∧
        noneClassified .conflict escrow a = true := by
  have hentry : ∀ (index : ℕ) (m : Milestone), a.milestones[index]? = some m →
      a'.milestones[index]? = some { m with status := (givenStatus escrow index).getD m.status } := by
    intro index m hm
    rw [hmilestones, correctedMilestones, List.getElem?_mapIdx, hm]
    rfl
  rw [noneClassified_iff]
  constructor
  · intro h
    refine ⟨h.status rfl, fun index m hm hconflict => ?_⟩
    obtain ⟨status, hgiven, -⟩ := Option.map_eq_some_iff.mp hconflict
    -- `doReconcile` writes a conflicting status like any other
    have happlied := h.changed index m _ hm (hentry index m hm) (by
      rw [hgiven]
      exact ne_of_conflict hgiven hconflict)
    rw [hconflict] at happlied
    cases happlied
  · rintro ⟨hstatus, hnone⟩
    refine ⟨fun index m m' hm hm' hne => ?_, fun _ index m m' status hm hm' hgiven _ => ?_,
      fun _ => hstatus⟩
    · rw [hentry index m hm] at hm'
      obtain rfl := Option.some.inj hm'
      cases hgiven : givenStatus escrow index with
      | none => exact absurd (by rw [hgiven]; rfl) hne
      | some status =>
          have hconflict := hnone index m hm
          rw [classified, hgiven, Option.map_some] at hconflict ⊢
          cases hupdate : applyTWMilestoneUpdate m.status.text status.text with
          | applied => rfl
          | skipped =>
              rw [hgiven, Option.getD_some] at hne
              exact absurd (applyTWMilestoneUpdate_skipped.mp hupdate).symm hne
          | conflict => exact absurd (by rw [hupdate]) hconflict
    · rw [hentry index m hm, hgiven] at hm'
      obtain rfl := Option.some.inj hm'
      rfl

/-- Without a report, milestones that are left alone are all the policy asks for. -/
theorem meetsPolicy_unreported (hmilestones : a'.milestones = a.milestones) :
    MeetsPolicy escrow a a' false := by
  refine ⟨fun index m m' hm hm' hne => ?_, nofun, nofun⟩
  rw [hmilestones, hm] at hm'
  exact absurd (congrArg Milestone.status (Option.some.inj hm')).symm hne

/-- The end of a reconcile meets the policy under the condition, and only then. -/
theorem ReconcileEnd.meetsPolicy_iff (h : ReconcileEnd first second a a' reported) :
    MeetsPolicy (lastEscrow first second a) a a' reported ↔ policyKept first second a = true := by
  cases h with
  | unreported hunreported hmilestones =>
      refine iff_of_true (meetsPolicy_unreported hmilestones) ?_
      rw [policyKept, hunreported, Bool.true_or]
  | left hreported hleaves hstatus hmilestones =>
      rw [meetsPolicy_of_same hmilestones, policyKept, hreported, hstatus]
      simp [lastEscrow, hleaves]
  | corrected hreported hwrites hstatus hmilestones =>
      have hlast : lastEscrow first second a = second := by simp [lastEscrow, hwrites]
      rw [hlast, meetsPolicy_of_corrected hmilestones, policyKept, hreported, hstatus]
      simp [hlast, hwrites]

end Policy

/-- **Reconcile policy.** A reconcile of an agreement over a contract changes only what the policy
applies, and reports only what it says, exactly under the condition. -/
theorem reconcile_policy_iff {now : Timestamp} {agreementId contractId : String}
    {first second : Fetch} {a : Agreement} {db db' : AgreementDb}
    {out : Except HttpException ReconcileResult} (ha : db.agreementAt agreementId = some a)
    (hcontract : nonEmpty a.contractId = some contractId)
    (hrun : Calls.Runs Answers (doReconcile now agreementId first second) db out db') :
    (∃ a', db'.agreementAt agreementId = some a' ∧
      MeetsPolicy (lastEscrow (fetchTrustlessEscrow contractId first)
        (fetchTrustlessEscrow contractId second) a) a a' (reportsReconciled out)) ↔
      policyKept (fetchTrustlessEscrow contractId first) (fetchTrustlessEscrow contractId second) a =
        true := by
  obtain ⟨a', hrow, hend⟩ := Calls.ensures_iff.mp (doReconcile_end ha hcontract) out db' hrun
  rw [← hend.meetsPolicy_iff]
  constructor
  · rintro ⟨b, hb, hmeets⟩
    rw [hrow] at hb
    obtain rfl := Option.some.inj hb
    exact hmeets
  · intro hmeets
    exact ⟨a', hrow, hmeets⟩

/-- What Trustless Work answers about an escrow with one milestone. -/
def fetchMilestone (status : String) (flags : List (String × Value)) : Fetch :=
  answered (.object [("id", .string "C"), ("status", .string status),
    ("milestones", .array [.object [("flags", .object flags)]])])

/-- An active agreement over one milestone. -/
def agreementOver (status : MilestoneStatus) : Agreement :=
  { agreementIn .active with milestones := [⟨.string "Launch", "10", status, none, none, none⟩] }

/-- The end of a reconcile of this agreement with the escrow. -/
def reconciledWith (status : MilestoneStatus) (fetch : Fetch) :
    Except HttpException ReconcileResult × AgreementDb :=
  Calls.run (fun c db => AgreementDb.answer c db) (doReconcile 1 "a" fetch fetch)
    (storeWith twoParties [agreementOver status] [])

/-- The theorem for an escrow that is completed, with an approved milestone. -/
theorem reconcile_policy_iff_approved :
    let fetch := fetchMilestone "completed" [("approved", .bool true)]
    (∃ a', (reconciledWith .pending fetch).2.agreementAt "a" = some a' ∧
      MeetsPolicy (lastEscrow (fetchTrustlessEscrow "C" fetch) (fetchTrustlessEscrow "C" fetch)
        (agreementOver .pending)) (agreementOver .pending) a'
          (reportsReconciled (reconciledWith .pending fetch).1)) ↔
      policyKept (fetchTrustlessEscrow "C" fetch) (fetchTrustlessEscrow "C" fetch)
        (agreementOver .pending) = true :=
  reconcile_policy_iff rfl rfl (Calls.runs_run (fun c db => db.answers_answer c) _ _)

/-- A released milestone is overwritten with the approval upstream, a conflict. -/
theorem not_reconcile_policy : ¬ ∀ (now : Timestamp) (agreementId contractId : String)
    (first second : Fetch) (a : Agreement) (db db' : AgreementDb)
    (out : Except HttpException ReconcileResult), db.agreementAt agreementId = some a →
      nonEmpty a.contractId = some contractId →
      Calls.Runs Answers (doReconcile now agreementId first second) db out db' →
        ∃ a', db'.agreementAt agreementId = some a' ∧
          MeetsPolicy (lastEscrow (fetchTrustlessEscrow contractId first)
            (fetchTrustlessEscrow contractId second) a) a a' (reportsReconciled out) := by
  intro h
  let fetch := fetchMilestone "completed" [("approved", .bool true)]
  obtain ⟨a', hrow, hmeets⟩ := h 1 "a" "C" fetch fetch (agreementOver .released)
    (storeWith twoParties [agreementOver .released] []) (reconciledWith .released fetch).2
    (reconciledWith .released fetch).1 rfl rfl
    (Calls.runs_run (fun c db => db.answers_answer c) _ _)
  have hoverwritten : ∃ b, (reconciledWith .released fetch).2.agreementAt "a" = some b ∧
      (b.milestones[0]?).map Milestone.status = some .approved := by decide +kernel
  obtain ⟨b, hb, happroved⟩ := hoverwritten
  rw [hb] at hrow
  obtain rfl := Option.some.inj hrow
  obtain ⟨m', hm', hstatus⟩ := Option.map_eq_some_iff.mp happroved
  have happlied := hmeets.changed 0 _ m' rfl hm' (by rw [hstatus]; nofun)
  revert happlied
  decide +kernel

end ThalosBackend.Agreements
