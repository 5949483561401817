import ThalosBackend.Agreements.AccessRule
import ThalosBackend.Agreements.RowSteps
import ThalosBackend.Agreements.StatusHistory

/-!
# One event for every change

`applyStatusChange` and the webhook emit the event of a status they have stored. `updateStatus` emits it
too, and so does the `syncStatusTransition` it starts behind its answer: the event comes twice. A sync
stores the status of the escrow and emits nothing.

`leavesEvents` asks that `updateStatus` stores no status that has an event, and no sync pulls one. Where
every operation of a run meets it, the events are those of the changes, one for each and in their order,
and each change has left its time.
-/

set_option autoImplicit false

namespace ThalosBackend.Agreements

open Js (FloatArithmetic Timestamp Value nonEmpty)
open Calls (ask Ensures)
open Webhooks (EventConfig applyInfoUpdate applyMilestoneUpdate applyStatusUpdate dispatchNotification
  handleEvent processEvent twEventMap webhookUpdates writeStatus)

/-! ## The condition -/

/-- `updateStatus` passes its checks and stores the status. -/
def changesStatus (db : AgreementDb) (userId agreementId : String) (dto : UpdateAgreementStatusDto) :
    Bool :=
  mayAccess db userId agreementId && dto.actorWallet ∈ ownWallets db userId &&
    (db.agreementAt agreementId).any fun a => canTransition (statusText a.status) dto.status.text &&
      (dto.status ≠ .completed || milestonesSatisfyCompletion a.milestones)

/-- The sync stores no status that has an event. -/
def pullsNoEvent (db : AgreementDb) (agreementId : String) (fetch : Fetch) : Bool :=
  (db.agreementAt agreementId).all fun a => (pulledStatus fetch a).all fun status =>
    StatusEvent.ofStatus status = none

/-- The operation leaves the statuses that have an event to disputes and webhooks. -/
def leavesEvents (db : AgreementDb) (o : Operation) : Bool :=
  match o.request with
  | .updateStatus userId agreementId dto =>
    StatusEvent.ofStatus (some dto.status.text) = none || !changesStatus db userId agreementId dto
  | .sync agreementId fetch => pullsNoEvent db agreementId fetch
  | .reconcile agreementId first _ => pullsNoEvent db agreementId first
  | _ => true

/-! ## The operations -/

section Programs

variable {now : Timestamp} {s : StatusHistory} {α : Type}

/-- The rule for reading one agreement. -/
theorem records_getAgreement {id : String} {f : Wallets.Reply Agreement → AgreementProgram α}
    {Q : Except HttpException α → StatusHistory → Prop}
    (hsome : ∀ a, s.db.agreementAt id = some a → Ensures Records (f (.ok a)) s Q)
    (hnone : ∀ e, Ensures Records (f (.error e)) s Q) :
    Ensures Records (ask (AgreementCall.getAgreement id) >>= f) s Q := by
  intro x s' hx
  obtain ⟨⟨hanswer, hdb⟩, hchanges⟩ := hx
  have hsame : s' = s := by
    obtain ⟨db', changes'⟩ := s'
    obtain rfl : db' = s.db := hdb
    rw [statusChanges_same rfl, List.append_nil] at hchanges
    obtain rfl : changes' = s.changes := hchanges
    rfl
  subst hsame
  split at hanswer
  · rename_i a ha
    subst hanswer
    exact hsome a (Table.sole_eq_some.mpr ha)
  · subst hanswer
    exact hnone _

/-- The entry in the log is silent, and never fails. -/
theorem records_logActivity {row : Activity} {f : Unit → AgreementProgram α}
    {Q : Except HttpException α → StatusHistory → Prop}
    (h : ∀ s', SameHistory s s' → Ensures Records (f ()) s' Q) :
    Ensures Records (logActivity row >>= f) s Q :=
  fun _ s' hx => h s' (hx.sameHistory rfl)

/-- A check that only reads, with what it says of the store. -/
theorem Silent.records_reads {p : AgreementProgram α} (h : Silent p)
    {R : Except HttpException α → Prop}
    (hreads : Ensures Executes p s.db fun out db' => db' = s.db ∧ R out) :
    Ensures Records p s fun out s' => s' = s ∧ R out := by
  have himage : Ensures Records p s fun out s' => s'.db = s.db ∧ R out :=
    Ensures.comap StatusHistory.db hreads fun c t x t' hx => .inl hx.1
  refine (himage.and (h.records fun _ _ hsame => hsame.changes)).mono ?_
  rintro out ⟨db', changes'⟩ ⟨⟨hdb, hR⟩, hchanges⟩
  refine ⟨?_, hR⟩
  obtain rfl : db' = s.db := hdb
  obtain rfl : changes' = s.changes := hchanges
  rfl

/-- `applyStatusChange` settles when it checks the transition, or stores a status without an event. -/
theorem applyStatusChange_settles {agreementId wallet : String} {target : AgreementStatus}
    {enforce : Bool} {details : List (String × Value)}
    (h : enforce = true ∨ StatusEvent.ofStatus (some target.text) = none) :
    Settles (applyStatusChange now agreementId wallet target enforce details) := by
  intro s hs
  refine records_getAgreement (fun a ha => ?_) fun e => hs
  refine Calls.ensures_bind.mpr (Calls.ensures_ofExcept.mpr ⟨fun refused hvalid => ?_, fun _ _ => hs⟩)
  cases refused with
  | some reason => exact hs
  | none =>
      intro x s₁ hx
      obtain ⟨⟨rfl, hdb⟩, hchanges⟩ := hx
      have howed : Owing (owedFor agreementId target.text) s₁ := by
        cases hkind : StatusEvent.ofStatus (some target.text) with
        | none =>
            rw [owedFor, hkind]
            refine hs.update (fun status hstatus => ?_) hdb hchanges
            cases hstatus
            exact hkind
        | some kind =>
            -- the check has passed, so the status is another one
            have henforce : enforce = true := by
              rcases h with h | h
              · exact h
              · rw [h] at hkind
                cases hkind
            subst henforce
            have hedge := AgreementValidationService.validateTransition_eq_ok.mp hvalid
            have hne : a.status ≠ (a.apply (statusUpdates now target.text)).status := by
              intro heq
              apply canTransition_ne hedge
              rw [heq]
              rfl
            have hone := hs.updateOne (Table.sole_eq_some.mp ha) hne
              (stamped_statusUpdates now target.text a) hdb hchanges
            obtain ⟨-, rfl⟩ := mem_of_agreementAt ha
            exact hone
      refine records_logActivity fun s₂ h₂ => ?_
      exact Calls.ensures_bind.mpr ((emitStatus_pays (h₂.owing howed)).mono fun _ _ hs₃ =>
        ⟨fun _ _ => hs₃, fun _ _ => hs₃⟩)

/-- `updateStatus` settles when it stores no status that has an event. -/
theorem updateStatus_settles {userId agreementId : String} {dto : UpdateAgreementStatusDto}
    (hs : Owing [] s) (hleaves : leavesEvents s.db ⟨now, .updateStatus userId agreementId dto⟩ = true) :
    Ensures Records (updateStatus now userId agreementId dto) s fun _ s' => Owing [] s' := by
  refine Calls.ensures_bind.mpr (((assertCanAccessAgreement_silent _ _).records_reads
    assertCanAccessAgreement_own).mono ?_)
  rintro access s₁ ⟨rfl, haccess⟩
  refine ⟨fun _ hpass => ?_, fun _ _ => hs⟩
  have hmay := haccess (by rw [hpass])
  refine Calls.ensures_bind.mpr (((assertActorWallet_silent _ _).records_reads
    assertActorWallet_own).mono ?_)
  rintro actor s₂ ⟨rfl, hactor⟩
  refine ⟨fun _ hpass => ?_, fun _ _ => hs⟩
  have hown := hactor (by rw [hpass])
  refine records_getAgreement (fun a ha => ?_) fun _ => hs
  refine Calls.ensures_bind.mpr (Calls.ensures_ofExcept.mpr ⟨fun refused hvalid => ?_, fun _ _ => hs⟩)
  cases refused with
  | some reason => exact hs
  | none =>
      have hedge := AgreementValidationService.validateTransition_eq_ok.mp hvalid
      dsimp only
      split
      · exact hs
      · rename_i hgate
        have hplain : StatusEvent.ofStatus (some dto.status.text) = none := by
          by_contra hevent
          -- every check has passed, against the condition
          have hchanges : changesStatus s₂.db userId agreementId dto = true := by
            have hfinished : dto.status = .completed → milestonesSatisfyCompletion a.milestones = true := by
              intro hcompleted
              by_contra hopen
              exact hgate ⟨hcompleted, by simpa using hopen⟩
            by_cases hcompleted : dto.status = .completed
            · simp [changesStatus, hmay, hown, ha, hedge, hfinished hcompleted]
            · simp [changesStatus, hmay, hown, ha, hedge, hcompleted]
          simp [leavesEvents, hevent, hchanges] at hleaves
        refine settles_update (fun status hstatus => ?_) (fun reply => ?_) s₂ hs
        · cases hstatus
          exact hplain
        · cases reply with
          | error e => exact settles_done _
          | ok _ =>
              refine (logActivity_silent _).settles.bind fun _ => ?_
              refine (settles_inBackground fun _ _ target hwork => ?_).bind fun _ => ?_
              · cases hwork
                exact hplain
              · refine Settles.bind (fun s hs => ?_) fun _ => settles_done _
                apply emitStatus_pays
                rw [owedFor, hplain]
                exact hs

theorem openDispute_settles {userId : String} {dto : Disputes.OpenDisputeDto} :
    Settles (Disputes.openDispute now userId dto) := by
  refine (Disputes.assertCanAccessAgreement_silent _ _).settles.bind fun _ => ?_
  refine (Disputes.assertActorWallet_silent _ _).settles.bind fun _ => ?_
  refine settles_read rfl fun existing => ?_
  split
  · exact settles_done _
  · refine settles_aside (fun db x db' hx => ?_) fun reply => ?_
    · obtain ⟨id, created, -, -, rfl⟩ := hx
      exact ⟨rfl, rfl, rfl⟩
    · cases reply with
      | error e => exact settles_done _
      | ok dispute =>
          refine (applyStatusChange_settles (.inl rfl)).bind fun result => ?_
          split
          · exact settles_fail _
          · refine (logActivity_silent _).settles.bind fun _ => ?_
            exact (settles_emit rfl).bind fun _ => settles_done _

theorem assignResolver_settles {userId disputeId : String} {dto : Disputes.AssignResolverDto} :
    Settles (Disputes.assignResolver now userId disputeId dto) := by
  refine settles_read rfl fun found => ?_
  split
  · exact settles_fail _
  · refine (Disputes.assertCanAccessAgreement_silent _ _).settles.bind fun _ => ?_
    split
    · exact settles_fail _
    · refine settles_aside (fun db x db' hx => hx.2 ▸ ⟨rfl, rfl, rfl⟩) fun reply => ?_
      cases reply with
      | error e => exact settles_done _
      | ok _ => exact (logActivity_silent _).settles.bind fun _ => settles_done _

theorem resolveDispute_settles {F : FloatArithmetic} {userId disputeId : String}
    {dto : Disputes.ResolveDisputeDto} :
    Settles (Disputes.resolveDispute F now userId disputeId dto) := by
  refine (Disputes.assertActorWallet_silent _ _).settles.bind fun _ => ?_
  split
  · exact settles_fail _
  · refine settles_read rfl fun found => ?_
    split
    · exact settles_fail _
    · split
      · exact settles_fail _
      · split
        · exact settles_fail _
        · refine settles_aside (fun db x db' hx => ?_) fun reply => ?_
          · obtain ⟨id, created, -, -, rfl⟩ := hx
            exact ⟨rfl, rfl, rfl⟩
          · cases reply with
            | error e => exact settles_done _
            | ok resolution =>
                refine settles_aside (fun db x db' hx => hx.2 ▸ ⟨rfl, rfl, rfl⟩) fun _ => ?_
                refine (applyStatusChange_settles (.inl rfl)).bind fun result => ?_
                split
                · exact settles_done _
                · refine (logActivity_silent _).settles.bind fun _ => ?_
                  exact (settles_emit rfl).bind fun _ => settles_done _

theorem cancelDispute_settles {userId disputeId : String} {dto : Disputes.CancelDisputeDto} :
    Settles (Disputes.cancelDispute now userId disputeId dto) := by
  refine (Disputes.assertActorWallet_silent _ _).settles.bind fun _ => ?_
  refine settles_read rfl fun found => ?_
  split
  · exact settles_fail _
  · split
    · exact settles_fail _
    · split
      · exact settles_fail _
      · refine settles_aside (fun db x db' hx => hx.2 ▸ ⟨rfl, rfl, rfl⟩) fun reply => ?_
        cases reply with
        | error e => exact settles_done _
        | ok _ =>
            refine settles_read rfl fun agreement => ?_
            dsimp only
            split
            · exact settles_fail _
            · -- `active` has no event
              refine (applyStatusChange_settles (.inr rfl)).bind fun result => ?_
              split
              · exact settles_done _
              · exact (logActivity_silent _).settles.bind fun _ => settles_done _

/-! ### Webhooks -/

/-- The events about a status name one that the webhook announces. -/
theorem ne_resolved_of_twEventMap {event : String} {target : AgreementStatus}
    (h : twEventMap event = some (.statusUpdate target)) : target ≠ .resolved := by
  rintro rfl
  unfold twEventMap at h
  split at h
  case h_18 =>
    split_ifs at h <;> cases h
  all_goals cases h

/-- A row the webhook has given a status. -/
theorem stamped_webhookUpdates {target : AgreementStatus} (htarget : target ≠ .resolved)
    (a : Agreement) : (a.apply (webhookUpdates now target)).Stamped := by
  intro kind hkind
  cases target with
  | resolved => exact absurd rfl htarget
  | funded =>
      cases hkind
      rfl
  | completed =>
      cases hkind
      rfl
  | _ => cases hkind

/-- `dispatchNotification` pays for a status the webhook stores. -/
theorem dispatchNotification_pays {target : AgreementStatus} (htarget : target ≠ .resolved)
    {a : Agreement} (hs : Owing (owedFor a.id target.text) s) :
    Ensures Records (dispatchNotification now target a) s fun _ s' => Owing [] s' := by
  have hpays : ∀ event : AgreementEvent, event.announced.toList = owedFor a.id target.text →
      Ensures Records (emit event) s fun _ s' => Owing [] s' := by
    intro event hevent x s' hx
    refine Owing.emit event ?_ hx
    rw [hevent, List.append_nil]
    exact hs
  cases target with
  | resolved => exact absurd rfl htarget
  | funded => exact hpays _ rfl
  | completed => exact hpays _ rfl
  | disputed => exact hpays _ rfl
  | _ => exact hs

theorem writeStatus_settles {payload : Value} {contractId : String} {target : AgreementStatus}
    (htarget : target ≠ .resolved) : Settles (writeStatus now payload contractId target) := by
  intro s hs x s₁ hx
  obtain ⟨hanswer, hchanges⟩ := hx
  simp only [Answers] at hanswer
  split at hanswer
  · -- no row has another status
    obtain ⟨rfl, hdb⟩ := hanswer
    have hsame : Owing [] s₁ := by
      refine SameHistory.owing ⟨by rw [hdb], by rw [hdb], by rw [hdb], ?_⟩ hs
      rw [hchanges, statusChanges_same (by rw [hdb]), List.append_nil]
    refine settles_read (c := .findByContract contractId) rfl (fun found => ?_) s₁ hsame
    split
    · exact settles_fail _
    · exact settles_done _
  · rename_i a hone
    obtain ⟨rfl, hdb⟩ := hanswer
    have hmatches : matchesStatusUpdate contractId target.text a = true := by
      have hmem : a ∈ s.db.agreements.filter (matchesStatusUpdate contractId target.text) := by
        rw [hone]
        exact List.mem_singleton_self a
      exact (List.mem_filter.mp hmem).2
    have hne : a.status ≠ (a.apply (webhookUpdates now target)).status := by
      intro heq
      obtain ⟨-, status, hstatus, hother⟩ := of_decide_eq_true hmatches
      rw [heq] at hstatus
      exact hother (Option.some.inj hstatus).symm
    have howed : Owing (owedFor a.id target.text) s₁ :=
      hs.updateOne hone hne (stamped_webhookUpdates htarget a) hdb hchanges
    refine records_logActivity fun s₂ h₂ => ?_
    exact dispatchNotification_pays (a := a.apply (webhookUpdates now target)) htarget (h₂.owing howed)
  · obtain ⟨rfl, hdb⟩ := hanswer
    refine SameHistory.owing ⟨by rw [hdb], by rw [hdb], by rw [hdb], ?_⟩ hs
    rw [hchanges, statusChanges_same (by rw [hdb]), List.append_nil]

theorem handleEvent_settles {payload : Value} : Settles (handleEvent now payload) := by
  unfold handleEvent
  split
  · split
    · rename_i config hconfig
      cases config with
      | statusUpdate target =>
          have htarget := ne_resolved_of_twEventMap hconfig
          refine settles_read rfl fun found => ?_
          split
          · exact settles_fail _
          · exact writeStatus_settles htarget
          · split
            · exact (logActivity_silent _).settles
            · exact writeStatus_settles htarget
      | milestoneUpdate =>
          refine settles_read rfl fun found => ?_
          split
          · exact settles_done _
          · refine (Silent.settles (Calls.only_ofExcept _)).bind fun edited => ?_
            split
            · exact settles_done _
            · refine settles_ask (fun s x s' hs hx => ?_) fun reply => ?_
              · exact hs.update (fun _ hstatus => by cases hstatus) hx.1.2 hx.2
              · split
                · exact settles_fail _
                · exact (logActivity_silent _).settles
      | info => exact (Webhooks.applyInfoUpdate_silent _ _).settles
      | withoutAction => exact settles_done _
      | notStored => exact settles_fail _
    · exact settles_done _
  · exact settles_fail _

/-! ### Synchronisation -/

/-- What the sync of a row stores is what `pulledStatus` says. -/
theorem pulledStatus_eq {a : Agreement} {contractId text : String} {fetch : Fetch}
    (hcontract : nonEmpty a.contractId = some contractId)
    (hfetched : (fetchTrustlessEscrow contractId fetch).truthy = true)
    (htext : ((fetchTrustlessEscrow contractId fetch).field "status").toText = some text)
    (hpull : syncDirection (a.status.getD "pending")
      (twToThalosStatus text ((fetchTrustlessEscrow contractId fetch).field "status")) = .twToThalos) :
    pulledStatus fetch a =
      columnValue (twToThalosStatus text ((fetchTrustlessEscrow contractId fetch).field "status")) := by
  simp [pulledStatus, hcontract, htext, hfetched, hpull]

/-- A sync settles when it pulls no status that has an event. -/
theorem doSync_settles {agreementId : String} {fetch : Fetch} (hs : Owing [] s)
    (hleaves : pullsNoEvent s.db agreementId fetch = true) :
    Ensures Records (doSync now agreementId fetch) s fun _ s' => Owing [] s' := by
  refine records_getAgreement (fun a ha => ?_) fun _ => hs
  have hplain : ∀ status, pulledStatus fetch a = some status → StatusEvent.ofStatus status = none := by
    intro status hstatus
    simp only [pullsNoEvent, ha, Option.all_some, hstatus] at hleaves
    exact of_decide_eq_true hleaves
  dsimp only
  split
  · exact hs
  · rename_i contractId hcontract
    split
    · rename_i hfetched
      unfold syncWith
      split
      · exact hs
      · rename_i text htext
        dsimp only
        split
        · exact ((logSyncActivity_silent _ _ _ _).settles.bind fun _ => settles_done _) s hs
        · rename_i hpull
          have hpulled := pulledStatus_eq hcontract hfetched htext hpull
          refine settles_update (fun status hstatus => ?_) (fun reply => ?_) s hs
          · exact hplain status (hpulled.trans hstatus)
          · cases reply with
            | error e => exact settles_done _
            | ok _ =>
                dsimp only
                split
                · refine (syncParticipants_silent _ _).settles.bind fun _ => ?_
                  exact (logSyncActivity_silent _ _ _ _).settles.bind fun _ => settles_done _
                · exact (logSyncActivity_silent _ _ _ _).settles.bind fun _ => settles_done _
        · exact ((logSyncActivity_silent _ _ _ _).settles.bind fun _ => settles_done _) s hs
    · exact ((logSyncActivity_silent _ _ _ _).settles.bind fun _ => settles_done _) s hs

theorem correctMilestones_settles {agreementId : String} {fetch : Fetch} :
    Settles (correctMilestones now agreementId fetch) := by
  refine settles_read rfl fun found => ?_
  split
  · exact settles_done _
  · split
    · exact settles_done _
    · dsimp only
      split
      · exact settles_done _
      · split
        · refine (Silent.settles (Calls.only_ofExcept _)).bind fun milestones => ?_
          refine settles_update (fun _ hstatus => by cases hstatus) fun _ => ?_
          exact (logSyncActivity_silent _ _ _ _).settles.bind fun _ => settles_done _
        · exact (logSyncActivity_silent _ _ _ _).settles.bind fun _ => settles_done _

theorem doReconcile_settles {agreementId : String} {first second : Fetch} (hs : Owing [] s)
    (hleaves : pullsNoEvent s.db agreementId first = true) :
    Ensures Records (doReconcile now agreementId first second) s fun _ s' => Owing [] s' := by
  refine Calls.ensures_bind.mpr ((doSync_settles hs hleaves).mono fun out s₁ hs₁ =>
    ⟨fun result _ => ?_, fun _ _ => hs₁⟩)
  split
  · exact hs₁
  · split
    · exact hs₁
    · exact (correctMilestones_settles.bind fun _ => settles_done _) s₁ hs₁

/-- What `updateStatus` has left behind announces nothing. -/
theorem syncStatusTransition_settles {agreementId source target : String}
    (hplain : StatusEvent.ofStatus (some target) = none) :
    Settles (syncStatusTransition now agreementId source target) := by
  refine (Silent.settles (Calls.only_ofExcept _)).bind fun refused => ?_
  split
  · exact (logSyncActivity_silent _ _ _ _).settles.bind fun _ => settles_done _
  · refine settles_read rfl fun found => ?_
    split
    · exact settles_done _
    · refine Settles.bind (fun s hs => ?_) fun _ => ?_
      · apply emitStatus_pays
        rw [owedFor, hplain]
        exact hs
      · exact (logSyncActivity_silent _ _ _ _).settles.bind fun _ => settles_done _

/-! ### Agreements and milestones -/

theorem create_settles {F : FloatArithmetic} {userId : String} {dto : CreateAgreementDto} :
    Settles (create F userId dto) := by
  unfold create
  split
  · exact settles_done _
  · refine (assertActorWallet_silent _ _).settles.bind fun _ => ?_
    refine settles_ask (fun s x s' hs hx => ?_) fun inserted => ?_
    · -- a row that is added has changed no status
      obtain ⟨⟨id, created, -, -, hdb⟩, hchanges⟩ := hx
      have hnone : statusChanges s.db s'.db = [] := by
        rw [hdb]
        exact statusChanges_append _
      refine ⟨?_, ?_, ?_⟩
      · rw [hchanges, hnone, List.append_nil, hdb]
        exact hs.announced
      · rw [hchanges, hnone, List.append_nil]
        exact hs.stamped
      · rw [hdb]
        exact hs.settled
    · split
      · exact settles_done _
      · rename_i agreement
        intro s hs x s₁ hx
        have hs₁ : Owing [] s₁ := (hx.sameHistory rfl).owing hs
        obtain ⟨⟨rfl, -⟩, -⟩ := hx
        refine Settles.bind (logActivity_silent _).settles (fun _ => ?_) s₁ hs₁
        refine (logMilestonesCreated_silent _ _ _).settles.bind fun _ => ?_
        refine (settles_emit rfl).bind fun _ => ?_
        split
        · exact (settles_inBackground fun _ _ _ hwork => by cases hwork).bind fun _ => settles_done _
        · exact settles_done _

theorem linkContract_settles {userId agreementId : String} {dto : LinkContractDto} {fetch : Fetch} :
    Settles (linkContract now userId agreementId dto fetch) := by
  refine (assertCanAccessAgreement_silent _ _).settles.bind fun _ => ?_
  refine (assertActorWallet_silent _ _).settles.bind fun _ => ?_
  dsimp only
  split
  · exact settles_done _
  · refine settles_update (fun _ hstatus => by cases hstatus) fun reply => ?_
    split
    · exact settles_done _
    · refine (logActivity_silent _).settles.bind fun _ => ?_
      exact (settles_inBackground fun _ _ _ hwork => by cases hwork).bind fun _ => settles_done _

/-- The events of a milestone announce no status. -/
theorem milestoneEvents_announced {agreement : Agreement} {agreementId : String}
    {dto : UpdateMilestoneDto} {previous : MilestoneStatus} {m : Milestone} :
    ∀ event ∈ milestoneEvents agreement agreementId dto previous m, event.announced = none := by
  intro event hevent
  simp only [milestoneEvents, List.mem_append] at hevent
  rcases hevent with (hevent | hevent) | hevent <;> split at hevent
  all_goals simp at hevent; try subst hevent
  all_goals rfl

theorem updateMilestone_settles {F : FloatArithmetic} {userId agreementId : String}
    {dto : UpdateMilestoneDto} : Settles (updateMilestone F now userId agreementId dto) := by
  refine (assertCanAccessAgreement_silent _ _).settles.bind fun _ => ?_
  refine (assertActorWallet_silent _ _).settles.bind fun _ => ?_
  refine settles_read rfl fun found => ?_
  split
  · exact settles_done _
  · dsimp only
    split
    · exact settles_done _
    · refine (Silent.settles (Calls.only_ofExcept _)).bind fun consistency => ?_
      split
      · exact settles_fail _
      · refine settles_update (fun _ hstatus => by cases hstatus) fun reply => ?_
        split
        · exact settles_done _
        · refine (logActivity_silent _).settles.bind fun _ => ?_
          refine (settles_emitAll milestoneEvents_announced).bind fun _ => ?_
          exact (settles_inBackground fun _ _ _ hwork => by cases hwork).bind fun _ => settles_done _

end Programs

/-! ## Runs -/

/-- A transition that is synced has been left behind by an answer. -/
def leftBehind (db : AgreementDb) (o : Operation) : Bool :=
  match o.request with
  | .syncStatusTransition agreementId source target =>
    .syncStatusTransition agreementId source target ∈ db.background
  | _ => true

/-- The operations one after the other, none of whose queries fails, with the changes of statuses. -/
def eventSystem (F : FloatArithmetic) : StepSystem StatusHistory Operation where
  init s := s.db.events = [] ∧ s.db.background = [] ∧ s.changes = []
  step s o s' := leftBehind s.db o = true ∧ ∃ out, Calls.Runs Records (o.program F) s out s'

/-- The operations, as long as each leaves the events to disputes and webhooks. -/
abbrev leavingSystem (F : FloatArithmetic) : StepSystem StatusHistory Operation :=
  (eventSystem F).restrict fun s o => leavesEvents s.db o = true

section Runs

variable {F : FloatArithmetic} {s s' : StatusHistory} {o : Operation}

/-- **Step lemma.** An operation that leaves the events to others pays for the changes it makes. -/
theorem program_settles (hs : Owing [] s) (hleft : leftBehind s.db o = true)
    (hleaves : leavesEvents s.db o = true) :
    Calls.LeadsTo Records (Owing []) (o.program F) s := by
  obtain ⟨now, request⟩ := o
  cases request with
  | create userId dto => exact (create_settles.leadsTo hs).wrapped _
  | linkContract userId agreementId dto fetch => exact (linkContract_settles.leadsTo hs).wrapped _
  | updateStatus userId agreementId dto =>
      have hend : Calls.LeadsTo Records (Owing []) (updateStatus now userId agreementId dto) s :=
        ⟨updateStatus_settles hs hleaves⟩
      exact hend.wrapped _
  | updateMilestone userId agreementId dto => exact (updateMilestone_settles.leadsTo hs).wrapped _
  | openDispute userId dto => exact (openDispute_settles.leadsTo hs).wrapped _
  | assignResolver userId disputeId dto => exact (assignResolver_settles.leadsTo hs).wrapped _
  | resolveDispute userId disputeId dto => exact (resolveDispute_settles.leadsTo hs).wrapped _
  | cancelDispute userId disputeId dto => exact (cancelDispute_settles.leadsTo hs).wrapped _
  | webhook payload => exact (handleEvent_settles.leadsTo hs).wrapped _
  | sync agreementId fetch =>
      have hend : Calls.LeadsTo Records (Owing []) (doSync now agreementId fetch) s :=
        ⟨doSync_settles hs hleaves⟩
      exact hend.wrapped _
  | reconcile agreementId first second =>
      have hend : Calls.LeadsTo Records (Owing []) (doReconcile now agreementId first second) s :=
        ⟨doReconcile_settles hs hleaves⟩
      exact hend.wrapped _
  | syncStatusTransition agreementId source target =>
      -- the condition held of the request that left it behind
      have hplain := hs.settled agreementId source target (of_decide_eq_true hleft)
      exact ((syncStatusTransition_settles hplain).leadsTo hs).wrapped _

theorem owing_step (hs : Owing [] s) (hstep : (leavingSystem F).step s o s') : Owing [] s' := by
  obtain ⟨hleaves, hleft, out, hrun⟩ := hstep
  exact (program_settles hs hleft hleaves).of_runs hrun

/-- **Events match changes.** Where `updateStatus` and the sync store no status that has an event, the
events about statuses are those of the changes into one, one for each and in their order, and each of
these changes has left its time. -/
theorem events_match_changes (h : (leavingSystem F).Reachable s) :
    s.db.events.filterMap AgreementEvent.announced = s.changes.filterMap Agreement.announcement ∧
      ∀ a ∈ s.changes, a.Stamped := by
  have howing : Owing [] s := by
    refine StepSystem.invariant_of_steps (I := Owing []) (fun s hinit => ?_)
      (fun s o s' _ hs hstep => owing_step hs hstep) h
    obtain ⟨hevents, hbackground, hchanges⟩ := hinit
    refine ⟨?_, ?_, ?_⟩
    · rw [hevents, hchanges]
      rfl
    · rw [hchanges]
      intro a ha
      cases ha
    · rw [hbackground]
      intro agreementId source target hwork
      cases hwork
  refine ⟨?_, howing.stamped⟩
  rw [howing.announced, List.append_nil]

end Runs

/-! ### A store that answers, with its history -/

/-- The answer to a query, noted. -/
def StatusHistory.answer (c : AgreementCall) (s : StatusHistory) : c.reply × StatusHistory :=
  ((s.db.answer c).1, ⟨(s.db.answer c).2, s.changes ++ statusChanges s.db (s.db.answer c).2⟩)

/-- The operations, one after the other, as long as each is one that can be asked for. -/
def recordAll (F : FloatArithmetic) (guard : AgreementDb → Operation → Bool) :
    List Operation → StatusHistory → Option StatusHistory
  | [], s => some s
  | o :: os, s =>
    if leftBehind s.db o && guard s.db o then
      recordAll F guard os (Calls.run StatusHistory.answer (o.program F) s).2
    else none

theorem reachable_recordAll {F : FloatArithmetic} {guard : AgreementDb → Operation → Bool}
    {os : List Operation} {s s' : StatusHistory}
    (h : ((eventSystem F).restrict fun s o => guard s.db o = true).Reachable s)
    (hrun : recordAll F guard os s = some s') :
    ((eventSystem F).restrict fun s o => guard s.db o = true).Reachable s' := by
  induction os generalizing s with
  | nil =>
      cases hrun
      exact h
  | cons o rest ih =>
      rw [recordAll] at hrun
      split at hrun
      · rename_i hstart
        obtain ⟨hleft, hguard⟩ := Bool.and_eq_true_iff.mp hstart
        refine ih (h.step ⟨hguard, hleft, (Calls.run StatusHistory.answer (o.program F) s).1, ?_⟩) hrun
        exact Calls.runs_run (fun c s => ⟨s.db.answers_answer c, rfl⟩) _ _
      · cases hrun

/-- Nothing has happened yet. -/
def newHistory : StatusHistory := ⟨newStore, []⟩

/-- What a history has changed and announced. -/
def StatusHistory.announcements (s : StatusHistory) :
    List (StatusEvent × String) × List (StatusEvent × String) :=
  (s.changes.filterMap Agreement.announcement, s.db.events.filterMap AgreementEvent.announced)

/-- The theorem for an escrow that a webhook reports as funded. -/
theorem events_match_changes_funded :
    let funded : Value := .object [("event", .string "escrow.funded"), ("contractId", .string "C")]
    ∃ s, recordAll exactArithmetic leavesEvents
        [createOperation "10" (some "C") splitTen, ⟨1, .webhook funded⟩] newHistory = some s ∧
      s.announcements = ([(.funded, "i")], [(.funded, "i")]) ∧
      s.db.events.filterMap AgreementEvent.announced = s.changes.filterMap Agreement.announcement ∧
      ∀ a ∈ s.changes, a.Stamped := by
  intro funded
  have hrun : (recordAll exactArithmetic leavesEvents [createOperation "10" (some "C") splitTen,
      ⟨1, .webhook funded⟩] newHistory).map StatusHistory.announcements =
        some ([(.funded, "i")], [(.funded, "i")]) := by decide +kernel
  obtain ⟨s, hs, hannounced⟩ := Option.map_eq_some_iff.mp hrun
  refine ⟨s, hs, hannounced, events_match_changes (F := exactArithmetic) ?_⟩
  exact reachable_recordAll (.init ⟨rfl, rfl, rfl⟩) hs

/-- The payer reports the funding, and the transition that is synced behind the answer does again. -/
theorem not_events_match_changes : ¬ ∀ s, (eventSystem exactArithmetic).Reachable s →
    s.db.events.filterMap AgreementEvent.announced = s.changes.filterMap Agreement.announcement ∧
      ∀ a ∈ s.changes, a.Stamped := by
  intro h
  have hrun : (recordAll exactArithmetic (fun _ _ => true) [createOperation "10" none splitTen,
      ⟨1, .updateStatus "payer" "i" ⟨.funded, "P"⟩⟩,
      ⟨2, .syncStatusTransition "i" "pending" "funded"⟩] newHistory).map StatusHistory.announcements =
        some ([(.funded, "i")], [(.funded, "i"), (.funded, "i")]) := by decide +kernel
  obtain ⟨s, hs, hannounced⟩ := Option.map_eq_some_iff.mp hrun
  have hreached := (reachable_recordAll (.init ⟨rfl, rfl, rfl⟩) hs).of_restrict
  have hmatch := (h s hreached).1
  obtain ⟨hchanges, hevents⟩ := Prod.mk.inj hannounced
  rw [hchanges, hevents] at hmatch
  cases hmatch

end ThalosBackend.Agreements
