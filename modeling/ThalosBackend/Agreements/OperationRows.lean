import ThalosBackend.Agreements.RowSteps

/-!
# Every operation takes row steps

The disputes service, the webhook and the sync, and with them `operation_rows`, the step lemma of
all runs. A dispute operation writes other tables before the agreement, and a reconcile writes the
agreement twice, the second time from what it reads then.
-/

set_option autoImplicit false

namespace ThalosBackend.Agreements

open Js (FloatArithmetic Timestamp Value nonEmpty)
open Calls (ask Ensures)
open Wallets (Reply)

variable {F : FloatArithmetic} {o : Operation} {rows : List Agreement} {db : AgreementDb}

/-! ## The disputes service -/

/-- The calls that write agreements. -/
def AgreementCall.writesAgreements : AgreementCall → Bool
  | .insertAgreement _ | .deleteAgreement _ | .updateAgreement _ _ | .changeStatusByContract _ _ _
  | .updateByContract _ _ => true
  | _ => false

theorem Executes.agreements {c : AgreementCall} {db db' : AgreementDb} {x : c.reply}
    (h : Executes c db x db') (hc : c.writesAgreements = false) : db'.agreements = db.agreements := by
  rcases h with h | ⟨-, -, hsame⟩
  · cases c with
    | wallet c' =>
        obtain ⟨wallet, -, rfl⟩ := h
        rfl
    | insertAgreement new => cases hc
    | deleteAgreement id => cases hc
    | updateAgreement id updates => cases hc
    | changeStatusByContract contractId target updates => cases hc
    | updateByContract contractId updates => cases hc
    | insertDispute new =>
        obtain ⟨id, created, -, -, rfl⟩ := h
        rfl
    | insertResolution new =>
        obtain ⟨id, created, -, -, rfl⟩ := h
        rfl
    | _ => exact h.2 ▸ rfl
  · exact hsame ▸ rfl

/-- A query that does not write agreements. -/
theorem rowsEnd_ask_of_eq {α : Type} {P : List Agreement → Prop} {c : AgreementCall}
    {f : c.reply → AgreementProgram α} (hc : c.writesAgreements = false) (hdb : db.agreements = rows)
    (hf : ∀ x db', db'.agreements = rows → RowsEnd P (f x) db') : RowsEnd P (ask c >>= f) db :=
  rowsEnd_ask fun x db' hx => hf x db' ((hx.agreements hc).trans hdb)

/-- `applyStatusChange` for a dispute: the transition is checked, here or by the caller. -/
theorem applyStatusChange_rowsEnd {agreementId wallet : String} {target : AgreementStatus}
    {enforce : Bool} {details : List (String × Value)} (ho : o.request.isDispute = true)
    (htarget : target ≠ .completed) (hdb : db.agreements = rows)
    (hchecked : enforce = true ∨ ∀ a, rows.filter (fun b => b.id = agreementId) = [a] →
      canTransition (statusText a.status) target.text = true) :
    RowsEnd (RowsStep F o rows) (applyStatusChange o.now agreementId wallet target enforce details)
      db := by
  have hsame : RowsStep F o rows rows := .unchanged rows
  refine rowsEnd_ask fun x db₁ hx => ?_
  obtain ⟨rfl, hfound⟩ := getAgreement_found hx
  cases x with
  | error e => exact Quiet.rowsEnd (quiet_done _) (hdb ▸ hsame)
  | ok a =>
      have ha := hfound a rfl
      refine rowsEnd_ofExcept_bind (hdb ▸ hsame) fun refused hvalid => ?_
      cases refused with
      | some reason => exact Quiet.rowsEnd (quiet_done _) (hdb ▸ hsame)
      | none =>
          have hedge : canTransition (statusText a.status) target.text = true := by
            rcases hchecked with rfl | hchecked
            · exact AgreementValidationService.validateTransition_eq_ok.mp hvalid
            · exact hchecked a (hdb ▸ ha)
          refine rowsEnd_ask fun y db₂ hy => ?_
          have hwrite : RowsStep F o rows db₂.agreements := by
            rw [← hdb]
            exact .updateAgreement hy ha (.disputed a target ho htarget hedge)
          cases y with
          | error e => exact Quiet.rowsEnd (quiet_done _) hwrite
          | ok _ =>
              refine Quiet.rowsEnd ?_ hwrite
              exact (logActivity_quiet _).bind fun _ => (emitStatus_quiet _ _ _ _ _).bind fun _ =>
                quiet_done _

open Disputes

theorem openDispute_rowsEnd {userId : String} {dto : OpenDisputeDto}
    (ho : o.request = .openDispute userId dto) (hdb : db.agreements = rows) :
    RowsEnd (RowsStep F o rows) (openDispute o.now userId dto) db := by
  have hsame : RowsStep F o rows rows := .unchanged rows
  have hdispute : o.request.isDispute = true := by rw [ho]; rfl
  refine (Disputes.assertCanAccessAgreement_quiet _ _).bind_rowsEnd hdb hsame fun _ db₁ h₁ => ?_
  refine (Disputes.assertActorWallet_quiet _ _).bind_rowsEnd h₁ hsame fun _ db₂ h₂ => ?_
  refine rowsEnd_ask_of_eq rfl h₂ fun existing db₃ h₃ => ?_
  split
  · exact Quiet.rowsEnd (quiet_done _) (h₃ ▸ hsame)
  · refine rowsEnd_ask_of_eq rfl h₃ fun inserted db₄ h₄ => ?_
    cases inserted with
    | error e => exact Quiet.rowsEnd (quiet_done _) (h₄ ▸ hsame)
    | ok dispute =>
        refine (applyStatusChange_rowsEnd hdispute (by decide) h₄ (.inl rfl)).bind_quiet
          fun result => ?_
        split
        · exact quiet_fail _
        · exact (logActivity_quiet _).bind fun _ => (emit_quiet _).bind fun _ => quiet_done _

theorem assignResolver_rowsEnd {userId disputeId : String} {dto : AssignResolverDto}
    (hdb : db.agreements = rows) :
    RowsEnd (RowsStep F o rows) (assignResolver o.now userId disputeId dto) db := by
  have hsame : RowsStep F o rows rows := .unchanged rows
  refine rowsEnd_ask_of_eq rfl hdb fun reply db₁ h₁ => ?_
  split
  · exact Quiet.rowsEnd (quiet_fail _) (h₁ ▸ hsame)
  · refine (Disputes.assertCanAccessAgreement_quiet _ _).bind_rowsEnd h₁ hsame fun _ db₂ h₂ => ?_
    split
    · exact Quiet.rowsEnd (quiet_fail _) (h₂ ▸ hsame)
    · refine rowsEnd_ask_of_eq rfl h₂ fun updated db₃ h₃ => ?_
      cases updated with
      | error e => exact Quiet.rowsEnd (quiet_done _) (h₃ ▸ hsame)
      | ok _ =>
          refine Quiet.rowsEnd ?_ (h₃ ▸ hsame)
          exact (logActivity_quiet _).bind fun _ => quiet_done _

theorem resolveDispute_rowsEnd {userId disputeId : String} {dto : ResolveDisputeDto}
    (ho : o.request = .resolveDispute userId disputeId dto) (hdb : db.agreements = rows) :
    RowsEnd (RowsStep F o rows) (resolveDispute F o.now userId disputeId dto) db := by
  have hsame : RowsStep F o rows rows := .unchanged rows
  have hdispute : o.request.isDispute = true := by rw [ho]; rfl
  refine (Disputes.assertActorWallet_quiet _ _).bind_rowsEnd hdb hsame fun _ db₁ h₁ => ?_
  split
  · exact Quiet.rowsEnd (quiet_fail _) (h₁ ▸ hsame)
  · refine rowsEnd_ask_of_eq rfl h₁ fun reply db₂ h₂ => ?_
    split
    · exact Quiet.rowsEnd (quiet_fail _) (h₂ ▸ hsame)
    · split
      · exact Quiet.rowsEnd (quiet_fail _) (h₂ ▸ hsame)
      · split
        · exact Quiet.rowsEnd (quiet_fail _) (h₂ ▸ hsame)
        · refine rowsEnd_ask_of_eq rfl h₂ fun inserted db₃ h₃ => ?_
          cases inserted with
          | error e => exact Quiet.rowsEnd (quiet_done _) (h₃ ▸ hsame)
          | ok resolution =>
              refine rowsEnd_ask_of_eq rfl h₃ fun updated db₄ h₄ => ?_
              refine (applyStatusChange_rowsEnd hdispute (by decide) h₄ (.inl rfl)).bind_quiet
                fun result => ?_
              split
              · exact quiet_done _
              · exact (logActivity_quiet _).bind fun _ => (emit_quiet _).bind fun _ => quiet_done _

theorem reactivate_rowsEnd {disputeId agreementId : String} {dto : CancelDisputeDto}
    (ho : o.request.isDispute = true) (hdb : db.agreements = rows) :
    RowsEnd (RowsStep F o rows) (reactivate o.now disputeId agreementId dto) db := by
  have hsame : RowsStep F o rows rows := .unchanged rows
  refine rowsEnd_ask fun reply db₁ hreply => ?_
  obtain ⟨rfl, hfound⟩ := getAgreement_found hreply
  dsimp only
  split
  · exact Quiet.rowsEnd (quiet_fail _) (hdb ▸ hsame)
  · rename_i hvalid
    refine (applyStatusChange_rowsEnd ho (by decide) hdb (.inr fun a ha => ?_)).bind_quiet
      fun result => ?_
    · -- the row is the one that was checked
      cases reply with
      | error e =>
          have hundefined : canTransition "undefined" "active" = true :=
            validateTransition_eq_ok.mp hvalid
          exact absurd hundefined (by decide)
      | ok b =>
          obtain rfl : b = a := by
            have hb := hfound b rfl
            rw [hdb, ha] at hb
            exact (List.singleton_inj.mp hb).symm
          exact validateTransition_eq_ok.mp hvalid
    · split
      · exact quiet_done _
      · exact (logActivity_quiet _).bind fun _ => quiet_done _

theorem cancelDispute_rowsEnd {userId disputeId : String} {dto : CancelDisputeDto}
    (ho : o.request = .cancelDispute userId disputeId dto) (hdb : db.agreements = rows) :
    RowsEnd (RowsStep F o rows) (cancelDispute o.now userId disputeId dto) db := by
  have hsame : RowsStep F o rows rows := .unchanged rows
  have hdispute : o.request.isDispute = true := by rw [ho]; rfl
  refine (Disputes.assertActorWallet_quiet _ _).bind_rowsEnd hdb hsame fun _ db₁ h₁ => ?_
  refine rowsEnd_ask_of_eq rfl h₁ fun reply db₂ h₂ => ?_
  split
  · exact Quiet.rowsEnd (quiet_fail _) (h₂ ▸ hsame)
  · split
    · exact Quiet.rowsEnd (quiet_fail _) (h₂ ▸ hsame)
    · split
      · exact Quiet.rowsEnd (quiet_fail _) (h₂ ▸ hsame)
      · refine rowsEnd_ask_of_eq rfl h₂ fun updated db₃ h₃ => ?_
        cases updated with
        | error e => exact Quiet.rowsEnd (quiet_done _) (h₃ ▸ hsame)
        | ok _ => exact reactivate_rowsEnd hdispute h₃

/-! ## The webhook -/

open Webhooks

/-- The webhook's status update changes the rows it matches, or nothing. -/
theorem writeStatus_ends {P : List Agreement → Prop} {now : Timestamp} {payload : Value}
    {contractId : String} {target : AgreementStatus} (hsame : P db.agreements)
    (hwrite : P (Table.updateWhere (matchesStatusUpdate contractId target.text)
      (Agreement.apply (webhookUpdates now target)) db.agreements)) :
    RowsEnd P (writeStatus now payload contractId target) db := by
  refine rowsEnd_ask fun x db₁ hx => ?_
  have hend : P db₁.agreements := by
    rcases hx with hx | ⟨-, -, rfl⟩
    · simp only [Answers] at hx
      split at hx
      · exact hx.2 ▸ hsame
      · exact hx.2 ▸ hwrite
      · exact hx.2 ▸ hsame
    · exact hsame
  rcases x with e | _ | row
  · exact Quiet.rowsEnd (quiet_fail _) hend
  · refine Quiet.rowsEnd (quiet_ask rfl fun reply => ?_) hend
    split
    · exact quiet_fail _
    · exact quiet_done _
  · refine Quiet.rowsEnd ?_ hend
    exact (logActivity_quiet _).bind fun _ => dispatchNotification_quiet _ _ _

theorem writeStatus_rowsEnd {payload : Value} {contractId : String} {target : AgreementStatus}
    (hdb : db.agreements = rows)
    (hstep : ∀ a ∈ rows, a.contractId = some contractId →
      RowStep o a (a.apply (webhookUpdates o.now target))) :
    RowsEnd (RowsStep F o rows) (writeStatus o.now payload contractId target) db := by
  subst hdb
  refine writeStatus_ends (.unchanged _) (.update fun a ha hmatch => hstep a ha ?_)
  simp only [matchesStatusUpdate, decide_eq_true_eq] at hmatch
  exact hmatch.1

theorem mem_byContract {contractId : String} {a : Agreement} :
    a ∈ db.byContract contractId ↔ a ∈ db.agreements ∧ a.contractId = some contractId := by
  simp [AgreementDb.byContract]

theorem applyStatusUpdate_rowsEnd {payload : Value} {event contractId : String}
    {target : AgreementStatus} (ho : o.request = .webhook payload)
    (hevent : (payload.field "event").toText = some event)
    (hcontract : (payload.field "contractId").toText = some contractId)
    (hconfig : twEventMap event = some (.statusUpdate target)) (hdb : db.agreements = rows) :
    RowsEnd (RowsStep F o rows) (applyStatusUpdate o.now payload contractId target) db := by
  have hsame : RowsStep F o rows rows := .unchanged rows
  refine rowsEnd_ask fun x db₁ hx => ?_
  obtain ⟨rfl, hfound⟩ := findByContract_found hx
  rcases x with e | _ | current
  · exact Quiet.rowsEnd (quiet_fail _) (hdb ▸ hsame)
  · -- no agreement has the contract id, so the update by contract id finds none either
    refine writeStatus_rowsEnd hdb fun a ha hc => ?_
    have hmem := mem_byContract.mpr ⟨hdb ▸ ha, hc⟩
    rw [hfound none rfl] at hmem
    cases hmem
  · dsimp only
    split
    · exact Quiet.rowsEnd (logActivity_quiet _) (hdb ▸ hsame)
    · rename_i hvalid
      refine writeStatus_rowsEnd hdb fun a ha hc => ?_
      have hmem := mem_byContract.mpr ⟨hdb ▸ ha, hc⟩
      rw [hfound (some current) rfl] at hmem
      obtain rfl := List.mem_singleton.mp hmem
      exact .webhookStatus a payload event contractId target ho hevent hcontract hconfig hc
        (validateTransition_eq_ok.mp hvalid)

theorem applyMilestoneUpdate_rowsEnd {payload : Value} {event contractId : String}
    (ho : o.request = .webhook payload) (hevent : (payload.field "event").toText = some event)
    (hcontract : (payload.field "contractId").toText = some contractId)
    (hconfig : twEventMap event = some .milestoneUpdate) (hdb : db.agreements = rows) :
    RowsEnd (RowsStep F o rows) (applyMilestoneUpdate o.now payload contractId) db := by
  have hsame : RowsStep F o rows rows := .unchanged rows
  refine rowsEnd_ask fun x db₁ hx => ?_
  obtain ⟨rfl, hfound⟩ := findByContract_found hx
  rcases x with e | _ | current
  · exact Quiet.rowsEnd (quiet_done _) (hdb ▸ hsame)
  · exact Quiet.rowsEnd (quiet_done _) (hdb ▸ hsame)
  · refine rowsEnd_ofExcept_bind (hdb ▸ hsame) fun edited hedited => ?_
    cases edited with
    | none => exact Quiet.rowsEnd (quiet_done _) (hdb ▸ hsame)
    | some milestones =>
        refine rowsEnd_ask fun y db₂ hy => ?_
        have hwrite : RowsStep F o rows db₂.agreements := by
          rcases hy with ⟨-, rfl⟩ | ⟨-, -, rfl⟩
          · rw [← hdb]
            refine .update fun a ha hc => ?_
            have hc : a.contractId = some contractId := by simpa using hc
            have hmem := mem_byContract.mpr ⟨ha, hc⟩
            rw [hfound (some current) rfl] at hmem
            obtain rfl := List.mem_singleton.mp hmem
            exact .webhookMilestones a payload event contractId milestones ho hevent hcontract
              hconfig hc hedited
          · exact hdb ▸ hsame
        cases y with
        | error e => exact Quiet.rowsEnd (quiet_fail _) hwrite
        | ok _ => exact Quiet.rowsEnd (logActivity_quiet _) hwrite

theorem handleEvent_rowsEnd {payload : Value} (ho : o.request = .webhook payload)
    (hdb : db.agreements = rows) :
    RowsEnd (RowsStep F o rows) (handleEvent o.now payload) db := by
  have hsame : RowsStep F o rows rows := .unchanged rows
  unfold handleEvent
  split
  · rename_i event contractId hevent hcontract
    split
    · rename_i config hconfig
      cases config with
      | statusUpdate target => exact applyStatusUpdate_rowsEnd ho hevent hcontract hconfig hdb
      | milestoneUpdate => exact applyMilestoneUpdate_rowsEnd ho hevent hcontract hconfig hdb
      | info => exact Quiet.rowsEnd (applyInfoUpdate_quiet _ _) (hdb ▸ hsame)
      | withoutAction => exact Quiet.rowsEnd (quiet_done _) (hdb ▸ hsame)
      | notStored => exact Quiet.rowsEnd (quiet_fail _) (hdb ▸ hsame)
    · exact Quiet.rowsEnd (quiet_done _) (hdb ▸ hsame)
  · exact Quiet.rowsEnd (quiet_fail _) (hdb ▸ hsame)

/-- A webhook changes nothing unless exactly one agreement has the contract. -/
theorem handleEvent_unchanged {now : Timestamp} {payload : Value} {contractId : String}
    (hcontract : (payload.field "contractId").toText = some contractId)
    (hshared : ∀ a, db.byContract contractId ≠ [a]) :
    RowsEnd (fun rows' => rows' = db.agreements) (handleEvent now payload) db := by
  unfold handleEvent
  split
  · rename_i event contractId' hevent hcontract'
    obtain rfl : contractId' = contractId := Option.some.inj (hcontract'.symm.trans hcontract)
    split
    · rename_i config hconfig
      cases config with
      | statusUpdate target =>
          refine rowsEnd_ask fun x db₁ hx => ?_
          obtain ⟨rfl, hfound⟩ := findByContract_found hx
          rcases x with e | _ | current
          · exact Quiet.rowsEnd (quiet_fail _) rfl
          · refine writeStatus_ends rfl (Table.updateWhere_eq_self fun a ha => ?_)
            rw [Bool.eq_false_iff]
            intro hmatch
            simp only [matchesStatusUpdate, decide_eq_true_eq] at hmatch
            have hmem := mem_byContract.mpr ⟨ha, hmatch.1⟩
            rw [hfound none rfl] at hmem
            cases hmem
          · exact absurd (hfound (some current) rfl) (hshared current)
      | milestoneUpdate =>
          refine rowsEnd_ask fun x db₁ hx => ?_
          obtain ⟨rfl, hfound⟩ := findByContract_found hx
          rcases x with e | _ | current
          · exact Quiet.rowsEnd (quiet_done _) rfl
          · exact Quiet.rowsEnd (quiet_done _) rfl
          · exact absurd (hfound (some current) rfl) (hshared current)
      | info => exact Quiet.rowsEnd (applyInfoUpdate_quiet _ _) rfl
      | withoutAction => exact Quiet.rowsEnd (quiet_done _) rfl
      | notStored => exact Quiet.rowsEnd (quiet_fail _) rfl
    · exact Quiet.rowsEnd (quiet_done _) rfl
  · exact Quiet.rowsEnd (quiet_fail _) rfl

/-! ## Sync and reconcile -/

/-- The rows after `doSync` of one agreement. -/
abbrev PulledRows (now : Timestamp) (agreementId : String) (fetch : Fetch)
    (rows rows' : List Agreement) : Prop :=
  List.Forall₂ (fun a a' => a' = a ∨ a.id = agreementId ∧ Pulled now fetch a a') rows rows'

/-- The rows after the second part of `doReconcile`. -/
abbrev CorrectedRows (now : Timestamp) (agreementId : String) (fetch : Fetch)
    (rows rows' : List Agreement) : Prop :=
  List.Forall₂ (fun a a' => a' = a ∨ a.id = agreementId ∧ Corrected now fetch a a') rows rows'

theorem forall₂_refl {R : Agreement → Agreement → Prop} (h : ∀ a, R a a) (rows : List Agreement) :
    List.Forall₂ R rows rows :=
  List.forall₂_same.mpr fun a _ => h a

/-- An update of the row under an id, seen as a relation of the rows before and after. -/
theorem forall₂_updateAgreement {R : Agreement → Agreement → Prop} (hrefl : ∀ a, R a a) {id : String}
    {updates : AgreementUpdates} {db db' : AgreementDb} {x : Reply Unit}
    (h : Executes (.updateAgreement id updates) db x db')
    (hR : ∀ a ∈ db.agreements, a.id = id → R a (a.apply updates)) :
    List.Forall₂ R db.agreements db'.agreements := by
  rcases updateAgreement_done h with rfl | rfl
  · exact forall₂_refl hrefl _
  · rw [AgreementDb.updateAgreements, Table.updateWhere, List.forall₂_map_right_iff,
      List.forall₂_same]
    intro a ha
    by_cases hid : a.id = id
    · simpa [hid] using hR a ha hid
    · simpa [hid] using hrefl a

theorem syncWith_rowsEnd {now : Timestamp} {fetch : Fetch} {a : Agreement} {contractId : String}
    (ha : db.agreements.filter (fun b => b.id = a.id) = [a])
    (hcontract : nonEmpty a.contractId = some contractId)
    (htruthy : (fetchTrustlessEscrow contractId fetch).truthy = true) :
    RowsEnd (PulledRows now a.id fetch db.agreements)
      (syncWith now a contractId (fetchTrustlessEscrow contractId fetch)) db := by
  have hsame : PulledRows now a.id fetch db.agreements db.agreements :=
    forall₂_refl (fun _ => .inl rfl) _
  unfold syncWith
  split
  · exact Quiet.rowsEnd (quiet_fail _) hsame
  · rename_i text htext
    dsimp only
    split
    · refine Quiet.rowsEnd ?_ hsame
      exact (logSyncActivity_quiet _ _ _ _).bind fun _ => quiet_done _
    · rename_i hdirection
      refine rowsEnd_ask fun x db₁ hx => ?_
      have hwrite : PulledRows now a.id fetch db.agreements db₁.agreements := by
        refine forall₂_updateAgreement (fun _ => .inl rfl) hx fun b hb hid => .inr ⟨hid, .inr ?_⟩
        obtain rfl := eq_of_filter_eq_singleton ha hb (by simpa using hid)
        simp [pulledStatus, hcontract, htext, htruthy, hdirection]
      cases x with
      | error e => exact Quiet.rowsEnd (quiet_done _) hwrite
      | ok _ =>
          refine Quiet.rowsEnd ?_ hwrite
          dsimp only
          split
          · exact (syncParticipants_quiet _ _).bind fun _ =>
              (logSyncActivity_quiet _ _ _ _).bind fun _ => quiet_done _
          · exact (logSyncActivity_quiet _ _ _ _).bind fun _ => quiet_done _
    · refine Quiet.rowsEnd ?_ hsame
      exact (logSyncActivity_quiet _ _ _ _).bind fun _ => quiet_done _

theorem doSync_rowsEnd {now : Timestamp} {agreementId : String} {fetch : Fetch} :
    RowsEnd (PulledRows now agreementId fetch db.agreements) (doSync now agreementId fetch) db := by
  have hsame : PulledRows now agreementId fetch db.agreements db.agreements :=
    forall₂_refl (fun _ => .inl rfl) _
  refine rowsEnd_ask fun x db₁ hx => ?_
  obtain ⟨rfl, hfound⟩ := getAgreement_found hx
  cases x with
  | error e => exact Quiet.rowsEnd (quiet_done _) hsame
  | ok a =>
      have ha := hfound a rfl
      have hid := id_of_filter_eq_singleton ha
      dsimp only
      split
      · exact Quiet.rowsEnd (quiet_done _) hsame
      · rename_i contractId hcontract
        split
        · rename_i htruthy
          rw [← hid] at ha ⊢
          exact syncWith_rowsEnd ha hcontract htruthy
        · refine Quiet.rowsEnd ?_ hsame
          exact (logSyncActivity_quiet _ _ _ _).bind fun _ => quiet_done _

theorem correctMilestones_rowsEnd {now : Timestamp} {agreementId : String} {fetch : Fetch} :
    RowsEnd (CorrectedRows now agreementId fetch db.agreements)
      (correctMilestones now agreementId fetch) db := by
  have hsame : CorrectedRows now agreementId fetch db.agreements db.agreements :=
    forall₂_refl (fun _ => .inl rfl) _
  refine rowsEnd_ask fun x db₁ hx => ?_
  obtain ⟨rfl, hfound⟩ := getAgreement_found hx
  cases x with
  | error e => exact Quiet.rowsEnd (quiet_done _) hsame
  | ok a =>
      have ha := hfound a rfl
      dsimp only
      split
      · exact Quiet.rowsEnd (quiet_done _) hsame
      · rename_i contractId hcontract
        split
        · exact Quiet.rowsEnd (quiet_done _) hsame
        · rename_i htruthy
          split
          · rename_i hlisted
            refine rowsEnd_ofExcept_bind hsame fun milestones hmilestones => ?_
            refine rowsEnd_ask fun y db₂ hy => ?_
            refine Quiet.rowsEnd ((logReconciled_quiet _ _ _ _).bind fun _ => quiet_done _) ?_
            refine forall₂_updateAgreement (fun _ => .inl rfl) hy fun b hb hid => ?_
            obtain rfl := eq_of_filter_eq_singleton ha hb (by simpa using hid)
            exact .inr ⟨hid, .inr ⟨contractId, milestones, hcontract, by simpa using htruthy, hlisted,
              hmilestones, rfl⟩⟩
          · refine Quiet.rowsEnd ?_ hsame
            exact (logReconciled_quiet _ _ _ _).bind fun _ => quiet_done _

theorem Pulled.id_eq {now : Timestamp} {fetch : Fetch} {a a' : Agreement}
    (h : Pulled now fetch a a') : a'.id = a.id := by
  rcases h with rfl | rfl <;> rfl

theorem Pulled.contractId_eq {now : Timestamp} {fetch : Fetch} {a a' : Agreement}
    (h : Pulled now fetch a a') : a'.contractId = a.contractId := by
  rcases h with rfl | rfl <;> rfl

/-- Without a contract there is nothing to correct. -/
theorem Corrected.or_outOfStep {now : Timestamp} {first second : Fetch} {a b c : Agreement}
    (h : Corrected now second b c) (hcontract : b.contractId = a.contractId)
    (hout : nonEmpty a.contractId = none ∨ outOfStep first a = true) :
    c = b ∨ outOfStep first a = true ∧ Corrected now second b c := by
  rcases hout with hnone | hout
  · rcases h with rfl | ⟨contractId, milestones, hsome, -⟩
    · exact .inl rfl
    · rw [hcontract, hnone] at hsome
      cases hsome
  · exact .inr ⟨hout, h⟩

/-- `doReconcile` goes on after this result of `doSync`. -/
def SyncResult.goesOn (result : SyncResult) : Prop :=
  result.direction ≠ some .alreadyInSync ∧ ¬ (result.synced = false ∧ result.errors ≠ [])

theorem syncWith_goesOn {now : Timestamp} {fetch : Fetch} {a : Agreement} {contractId : String}
    (hcontract : nonEmpty a.contractId = some contractId)
    (htruthy : (fetchTrustlessEscrow contractId fetch).truthy = true) :
    Ensures Executes (syncWith now a contractId (fetchTrustlessEscrow contractId fetch)) db
      fun out _ => ∀ result, out = .ok result → result.goesOn → outOfStep fetch a = true := by
  cases hout : outOfStep fetch a with
  | true => exact Calls.ensures_of_forall fun _ _ _ _ _ => rfl
  | false =>
      unfold syncWith
      split
      · intro result hresult
        cases hresult
      · rename_i text htext
        have hdirection : syncDirection (a.status.getD "pending")
            (twToThalosStatus text ((fetchTrustlessEscrow contractId fetch).field "status")) =
              .alreadyInSync := by
          simpa [outOfStep, hcontract, htext, htruthy] using hout
        dsimp only
        rw [hdirection]
        refine Calls.ensures_bind.mpr ((logSyncActivity_quiet _ _ _ _).ensures fun out db' _ => ?_)
        refine ⟨fun _ _ result hresult hgo => ?_, fun e _ result hresult => by cases hresult⟩
        cases hresult
        exact absurd rfl hgo.1

/-- `doReconcile` goes on for a row without a contract, and for one that is out of step. -/
theorem doSync_goesOn {now : Timestamp} {agreementId : String} {fetch : Fetch} :
    Ensures Executes (doSync now agreementId fetch) db fun out _ => ∀ result, out = .ok result →
      result.goesOn → ∀ a ∈ db.agreements, a.id = agreementId →
        nonEmpty a.contractId = none ∨ outOfStep fetch a = true := by
  refine Calls.ensures_ask fun x db₁ hx => ?_
  obtain ⟨rfl, hfound⟩ := getAgreement_found hx
  cases x with
  | error e =>
      intro result hresult hgo
      cases hresult
      exact absurd ⟨rfl, List.cons_ne_nil _ _⟩ hgo.2
  | ok b =>
      have honly : ∀ a ∈ db₁.agreements, a.id = agreementId → a = b := fun a ha hid =>
        eq_of_filter_eq_singleton (hfound b rfl) ha (by simpa using hid)
      dsimp only
      split
      · rename_i hcontract
        intro result _ _ a ha hid
        rw [honly a ha hid]
        exact .inl hcontract
      · rename_i contractId hcontract
        split
        · rename_i htruthy
          refine (syncWith_goesOn hcontract htruthy).mono fun out _ h result hresult hgo a ha hid => ?_
          rw [honly a ha hid]
          exact .inr (h result hresult hgo)
        · refine Calls.ensures_bind.mpr ((logSyncActivity_quiet _ _ _ _).ensures fun out db' _ => ?_)
          refine ⟨fun _ _ result hresult hgo => ?_, fun e _ result hresult => by cases hresult⟩
          cases hresult
          exact absurd ⟨rfl, List.cons_ne_nil _ _⟩ hgo.2

theorem doReconcile_rowsEnd {now : Timestamp} {agreementId : String} {first second : Fetch} :
    RowsEnd (fun rows' => List.Forall₂
        (fun a a' => a' = a ∨ a.id = agreementId ∧ Reconciled now first second a a')
        db.agreements rows')
      (doReconcile now agreementId first second) db := by
  have hpulled : ∀ a a', (a' = a ∨ a.id = agreementId ∧ Pulled now first a a') →
      a' = a ∨ a.id = agreementId ∧ Reconciled now first second a a' := by
    rintro a a' (rfl | ⟨hid, h⟩)
    · exact .inl rfl
    · exact .inr ⟨hid, a', h, .inl rfl⟩
  refine ⟨Calls.ensures_bind.mpr
    ((doSync_rowsEnd.ensures.and doSync_goesOn).mono fun out db₁ h => ?_)⟩
  obtain ⟨hsync, hgoes⟩ := h
  refine ⟨fun result hresult => RowsEnd.ensures ?_, fun _ _ => hsync.imp hpulled⟩
  split
  · exact Quiet.rowsEnd (quiet_done _) (hsync.imp hpulled)
  · rename_i hdirection
    split
    · exact Quiet.rowsEnd (quiet_done _) (hsync.imp hpulled)
    · rename_i herrors
      refine RowsEnd.bind_quiet (correctMilestones_rowsEnd.mono fun rows' hcorrect => ?_)
        fun _ => quiet_done _
      have hgo : result.goesOn := ⟨hdirection, by simpa using herrors⟩
      -- the row that is corrected is the row that was pulled
      have hpair := Table.forall₂_trans
        (T := fun a c => ∃ b, (b = a ∨ a.id = agreementId ∧ Pulled now first a b) ∧
          (c = b ∨ b.id = agreementId ∧ Corrected now second b c))
        (fun a b c hab hbc => ⟨b, hab, hbc⟩) hsync hcorrect
      refine Table.forall₂_imp_mem hpair fun a c ha hac => ?_
      obtain ⟨b, rfl | ⟨hid, hab⟩, hbc⟩ := hac
      · rcases hbc with rfl | ⟨hid, hbc⟩
        · exact .inl rfl
        · refine .inr ⟨hid, b, .inl rfl, ?_⟩
          exact hbc.or_outOfStep rfl (hgoes result hresult hgo b ha hid)
      · refine .inr ⟨hid, b, hab, ?_⟩
        rcases hbc with rfl | ⟨-, hbc⟩
        · exact .inl rfl
        · exact hbc.or_outOfStep hab.contractId_eq (hgoes result hresult hgo a ha hid)

/-! ## All operations -/

/-- **Step lemma.** Every run of an operation takes every agreement a row step, or adds an accepted
one. -/
theorem operation_rows (F : FloatArithmetic) (o : Operation) (db : AgreementDb) :
    RowsEnd (RowsStep F o db.agreements) (o.program F) db := by
  obtain ⟨now, request⟩ := o
  cases request with
  | create userId dto => exact (create_rowsEnd rfl rfl).bind_quiet fun _ => quiet_done _
  | linkContract userId agreementId dto fetch =>
      exact (linkContract_rowsEnd (o := ⟨now, _⟩) rfl rfl).bind_quiet fun _ => quiet_done _
  | updateStatus userId agreementId dto =>
      exact (updateStatus_rowsEnd (o := ⟨now, _⟩) rfl rfl).bind_quiet fun _ => quiet_done _
  | updateMilestone userId agreementId dto =>
      exact (updateMilestone_rowsEnd (o := ⟨now, _⟩) rfl rfl).bind_quiet fun _ => quiet_done _
  | openDispute userId dto =>
      exact (openDispute_rowsEnd (o := ⟨now, _⟩) rfl rfl).bind_quiet fun _ => quiet_done _
  | assignResolver userId disputeId dto =>
      exact (assignResolver_rowsEnd (o := ⟨now, _⟩) rfl).bind_quiet fun _ => quiet_done _
  | resolveDispute userId disputeId dto =>
      exact (resolveDispute_rowsEnd (o := ⟨now, _⟩) rfl rfl).bind_quiet fun _ => quiet_done _
  | cancelDispute userId disputeId dto =>
      exact (cancelDispute_rowsEnd (o := ⟨now, _⟩) rfl rfl).bind_quiet fun _ => quiet_done _
  | webhook payload =>
      exact (handleEvent_rowsEnd (o := ⟨now, _⟩) rfl rfl).bind_quiet fun _ => quiet_done _
  | sync agreementId fetch =>
      have h : RowsEnd (RowsStep F ⟨now, .sync agreementId fetch⟩ db.agreements)
          (doSync now agreementId fetch) db := by
        refine doSync_rowsEnd.mono fun rows' hrows => .rows (hrows.imp ?_)
        rintro a a' (rfl | ⟨rfl, hpulled⟩)
        · exact .same a'
        · exact .pulled a a' fetch rfl hpulled
      exact h.bind_quiet fun _ => quiet_done _
  | reconcile agreementId first second =>
      have h : RowsEnd (RowsStep F ⟨now, .reconcile agreementId first second⟩ db.agreements)
          (doReconcile now agreementId first second) db := by
        refine doReconcile_rowsEnd.mono fun rows' hrows => .rows (hrows.imp ?_)
        rintro a a' (rfl | ⟨rfl, hreconciled⟩)
        · exact .same a'
        · exact .reconciled a a' first second rfl hreconciled
      exact h.bind_quiet fun _ => quiet_done _
  | syncStatusTransition agreementId fromStatus toStatus =>
      have h : RowsEnd (RowsStep F ⟨now, .syncStatusTransition agreementId fromStatus toStatus⟩
          db.agreements) (syncStatusTransition now agreementId fromStatus toStatus) db :=
        (syncStatusTransition_quiet _ _ _ _).rowsEnd (.unchanged _)
      exact h.bind_quiet fun _ => quiet_done _

/-- Where every run of the operation ends, a step of the system ends. -/
theorem RowsEnd.of_step {P : List Agreement → Prop} {db db' : AgreementDb}
    (hend : RowsEnd P (o.program F) db) (h : (agreementSystem F).step db o db') :
    P db'.agreements := by
  obtain ⟨out, hrun⟩ := h
  exact hend.of_runs hrun

/-- The step lemma for a step of the system. -/
theorem step_rows {db db' : AgreementDb} (h : (agreementSystem F).step db o db') :
    RowsStep F o db.agreements db'.agreements :=
  (operation_rows F o db).of_step h

/-- A webhook for a contract that not exactly one agreement has changes none. -/
theorem unchanged_of_shared {payload : Value} {contractId : String} {db' : AgreementDb}
    (ho : o.request = .webhook payload)
    (hcontract : (payload.field "contractId").toText = some contractId)
    (hshared : ∀ a, db.byContract contractId ≠ [a]) (h : (agreementSystem F).step db o db') :
    db'.agreements = db.agreements := by
  have hend : RowsEnd (fun rows' => rows' = db.agreements) (o.program F) db := by
    obtain ⟨now, request⟩ := o
    cases ho
    exact (handleEvent_unchanged hcontract hshared).bind_quiet fun _ => quiet_done _
  exact hend.of_step h

/-! ## Ids -/

theorem Corrected.id_eq {now : Timestamp} {fetch : Fetch} {a a' : Agreement}
    (h : Corrected now fetch a a') : a'.id = a.id := by
  rcases h with rfl | ⟨contractId, milestones, -, -, -, -, rfl⟩ <;> rfl

theorem Reconciled.id_eq {now : Timestamp} {first second : Fetch} {a a' : Agreement}
    (h : Reconciled now first second a a') : a'.id = a.id := by
  obtain ⟨b, hpulled, rfl | ⟨-, hcorrected⟩⟩ := h
  · exact hpulled.id_eq
  · exact hcorrected.id_eq.trans hpulled.id_eq

/-- A row keeps its id. -/
theorem RowStep.id_eq {a a' : Agreement} (h : RowStep o a a') : a'.id = a.id := by
  cases h with
  | pulled _ fetch ho hpulled => exact hpulled.id_eq
  | reconciled _ first second ho hreconciled => exact hreconciled.id_eq
  | _ => rfl

/-- What holds of the rows that made a step, and of an added one, holds of all. -/
theorem RowsStep.forall_mem {P : Agreement → Prop} {rows rows' : List Agreement}
    (h : RowsStep F o rows rows') (hstep : ∀ a a', a ∈ rows → RowStep o a a' → P a')
    (hnew : ∀ userId dto id created, o.request = .create userId dto →
      validateAgreement F dto.input = .ok () → P (dto.row.row id created)) :
    ∀ a' ∈ rows', P a' := by
  intro a' ha'
  cases h with
  | rows hrows =>
      obtain ⟨a, ha, hrow⟩ := Table.exists_of_forall₂_right hrows ha'
      exact hstep a a' ha hrow
  | added userId dto id created ho hvalid hfresh =>
      rcases List.mem_append.mp ha' with ha' | ha'
      · exact hstep a' a' ha' (.same a')
      · rw [List.mem_singleton.mp ha']
        exact hnew userId dto id created ho hvalid

/-- The rows that were there are still there, as what a step makes of them. -/
theorem RowsStep.extends_of {R : Agreement → Agreement → Prop} {rows rows' : List Agreement}
    (h : RowsStep F o rows rows') (hrefl : ∀ a, R a a)
    (hstep : ∀ a a', a ∈ rows → RowStep o a a' → R a a') : Table.Extends R rows rows' := by
  cases h with
  | rows hrows => exact .of_forall₂ (Table.forall₂_imp_mem hrows hstep)
  | added userId dto id created ho hvalid hfresh => exact .concat hrefl _ _

/-- A row that was there before has made a step, if its id is still the only one. -/
theorem RowsStep.rowStep {rows rows' : List Agreement} (h : RowsStep F o rows rows')
    (hunique : Table.Unique Agreement.id rows) {a a' : Agreement} (ha : a ∈ rows)
    (ha' : a' ∈ rows') (hid : a'.id = a.id) : RowStep o a a' := by
  cases h with
  | rows hrows =>
      obtain ⟨b, hb, hrow⟩ := Table.exists_of_forall₂_right hrows ha'
      obtain rfl := hunique.eq hb ha (hrow.id_eq.symm.trans hid)
      exact hrow
  | added userId dto id created ho hvalid hfresh =>
      rcases List.mem_append.mp ha' with ha' | ha'
      · obtain rfl := hunique.eq ha' ha hid
        exact .same a'
      · rw [List.mem_singleton.mp ha'] at hid
        exact absurd hid.symm (hfresh a ha)

theorem RowsStep.uniqueIds {rows rows' : List Agreement} (h : RowsStep F o rows rows')
    (hunique : Table.Unique Agreement.id rows) : Table.Unique Agreement.id rows' := by
  cases h with
  | rows hrows =>
      rw [Table.Unique, Table.map_eq_of_forall₂ (fun a a' hstep => hstep.id_eq) hrows]
      exact hunique
  | added userId dto id created ho hvalid hfresh => exact hunique.concat hfresh

/-- In every reachable state the ids are unique. -/
theorem uniqueIds_of_reachable {db : AgreementDb} (h : (agreementSystem F).Reachable db) :
    Table.Unique Agreement.id db.agreements := by
  refine StepSystem.invariant_of_steps
    (I := fun db : AgreementDb => Table.Unique Agreement.id db.agreements) (fun db hinit => ?_)
    (fun db o db' _ hI hs => (step_rows hs).uniqueIds hI) h
  rw [hinit.1]
  exact List.nodup_nil

end ThalosBackend.Agreements
