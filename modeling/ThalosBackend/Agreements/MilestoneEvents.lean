import ThalosBackend.Agreements.MilestoneTransitions

/-!
# Events of milestones

`updateMilestone` announces an approval when the milestone was not approved before, and a release
whenever one is asked for. The webhook and `doReconcile` store the same statuses and announce nothing.

A store is followed together with every status that an entry got. `announcesStored` asks that a release
is new, and that a webhook and a reconcile store no approval and no release that is new. As long as every
operation of a run meets it, and no webhook gives all lists a status (`eventsKept`), there are as many
events as changes, for each milestone and each of the two statuses; the first operation that announces
something else than it stores ends this.
-/

set_option autoImplicit false

namespace ThalosBackend.Agreements

open Js (FloatArithmetic Timestamp Value)
open Webhooks (handleEvent writeStatus)

/-! ## Changes and announcements -/

/-- A milestone of an agreement, and a status. -/
structure MilestoneChange where
  agreementId : String
  index : ℕ
  status : MilestoneStatus
  deriving DecidableEq

/-- There is an event of the status. -/
def isAnnounced : MilestoneStatus → Bool
  | .approved | .released => true
  | _ => false

/-- What an event announces of a milestone. -/
def AgreementEvent.milestoneChange : AgreementEvent → Option MilestoneChange
  | .milestoneApproved agreementId _ index _ _ _ _ _ _ => some ⟨agreementId, index, .approved⟩
  | .milestoneReleased agreementId _ index _ _ _ _ _ _ _ => some ⟨agreementId, index, .released⟩
  | _ => none

/-- The entries with their statuses before and after, where these differ. -/
def changedEntries (a a' : Agreement) : List MilestoneChange :=
  ((a.milestones.zip a'.milestones).zipIdx.filter fun entry =>
    entry.1.1.status ≠ entry.1.2.status).map fun entry => ⟨a.id, entry.2, entry.1.2.status⟩

/-- The statuses that entries of these rows got. -/
def milestoneChanges (rows rows' : List Agreement) : List MilestoneChange :=
  (rows.zip rows').flatMap fun (a, a') => if a.id = a'.id then changedEntries a a' else []

/-- A store, and every status that an entry has got. -/
structure MilestoneHistory where
  db : AgreementDb
  changes : List MilestoneChange

/-- What the events so far have announced. -/
def AgreementDb.notices (db : AgreementDb) : List MilestoneChange :=
  db.events.filterMap AgreementEvent.milestoneChange

/-- A milestone has been announced approved, or released, as often as it became so. -/
def EventsMatch (s : MilestoneHistory) : Prop :=
  ∀ change : MilestoneChange, isAnnounced change.status = true →
    s.db.notices.count change = s.changes.count change

/-- The operations one after the other, none of whose queries fails, with the changes they make. -/
def milestoneSystem (F : FloatArithmetic) : StepSystem MilestoneHistory Operation where
  init s := s.db.events = [] ∧ s.changes = []
  step s o s' := (∃ out, Calls.Runs Answers (o.program F) s.db out s'.db) ∧
    s'.changes = s.changes ++ milestoneChanges s.db.agreements s'.db.agreements

/-- The operation announces what it stores: a release is new, and what is stored without an event is
either not announced or was there. -/
def announcesStored (F : FloatArithmetic) (db : AgreementDb) (o : Operation) : Bool :=
  match o.request with
  | .updateMilestone userId agreementId dto =>
    !acceptsMilestone F o.now db userId agreementId dto || dto.status ≠ .released ||
      (db.agreementAt agreementId).all fun a =>
        (a.milestones[dto.milestoneIndex]?).all fun m => m.status ≠ .released
  | _ => db.agreements.all fun a => a.milestones.zipIdx.all fun (m, index) =>
      (storedStatus F db o a index).all fun status => !isAnnounced status || status = m.status

/-- It does, and gives no status to what all lists share, of which later payloads read one. -/
def eventsKept (F : FloatArithmetic) (db : AgreementDb) (o : Operation) : Bool :=
  announcesStored F db o && !spreadsStatus db o

/-! ## What changes -/

section Changes

variable {rows : List Agreement} {a a' : Agreement} {change : MilestoneChange}

theorem mem_changedEntries : change ∈ changedEntries a a' ↔ ∃ m m',
    a.milestones[change.index]? = some m ∧ a'.milestones[change.index]? = some m' ∧
      m.status ≠ m'.status ∧ change.agreementId = a.id ∧ change.status = m'.status := by
  obtain ⟨agreementId, index, status⟩ := change
  simp only [changedEntries, List.mem_map, List.mem_filter, Prod.exists,
    List.mk_mem_zipIdx_iff_getElem?, List.getElem?_zip_eq_some, MilestoneChange.mk.injEq,
    decide_eq_true_eq]
  constructor
  · rintro ⟨m, m', j, ⟨⟨hm, hm'⟩, hne⟩, rfl, rfl, rfl⟩
    exact ⟨m, m', hm, hm', hne, rfl, rfl⟩
  · rintro ⟨m, m', hm, hm', hne, rfl, rfl⟩
    exact ⟨m, m', index, ⟨⟨hm, hm'⟩, hne⟩, rfl, rfl, rfl⟩

theorem changedEntries_same (h : a'.milestones = a.milestones) : changedEntries a a' = [] := by
  rw [List.eq_nil_iff_forall_not_mem]
  intro change hchange
  obtain ⟨m, m', hm, hm', hne, -⟩ := mem_changedEntries.mp hchange
  rw [h, hm] at hm'
  exact hne (congrArg Milestone.status (Option.some.inj hm'))

/-- One entry is rewritten. -/
theorem filter_zip_set {m m' : Milestone} (milestones : List Milestone) (index n : ℕ)
    (hm : milestones[index]? = some m) :
    (((milestones.zip (milestones.set index m')).zipIdx n).filter fun entry =>
      entry.1.1.status ≠ entry.1.2.status) =
      if m.status ≠ m'.status then [((m, m'), n + index)] else [] := by
  induction milestones generalizing index n with
  | nil => cases hm
  | cons first rest ih =>
      cases index with
      | zero =>
          obtain rfl : first = m := Option.some.inj hm
          have hrest : ((rest.zip rest).zipIdx (n + 1)).filter (fun entry =>
              entry.1.1.status ≠ entry.1.2.status) = [] := by
            rw [List.filter_eq_nil_iff]
            rintro ⟨⟨m, m'⟩, j⟩ hmem
            have hzip := List.fst_mem_of_mem_zipIdx hmem
            rw [List.zip_eq_zipWith, List.zipWith_self] at hzip
            obtain ⟨m, -, hsame⟩ := List.mem_map.mp hzip
            cases hsame
            simp
          rw [List.set_cons_zero, List.zip_cons_cons, List.zipIdx_cons, List.filter_cons, hrest]
          simp
      | succ index =>
          rw [List.set_cons_succ, List.zip_cons_cons, List.zipIdx_cons, List.filter_cons]
          rw [ih index (n + 1) hm, if_neg (by simp), Nat.add_right_comm, Nat.add_assoc]

theorem milestoneChanges_cons (rows' : List Agreement) :
    milestoneChanges (a :: rows) (a' :: rows') =
      (if a.id = a'.id then changedEntries a a' else []) ++ milestoneChanges rows rows' := rfl

/-- Rows that stay make no changes. -/
theorem milestoneChanges_same (kept rows rows' : List Agreement) :
    milestoneChanges (kept ++ rows) (kept ++ rows') = milestoneChanges rows rows' := by
  induction kept with
  | nil => rfl
  | cons b rest ih =>
      rw [List.cons_append, List.cons_append, milestoneChanges_cons, if_pos rfl,
        changedEntries_same rfl, List.nil_append, ih]

theorem milestoneChanges_self (rows : List Agreement) : milestoneChanges rows rows = [] := by
  have hsame := milestoneChanges_same rows [] []
  rwa [List.append_nil] at hsame

/-- An update of one entry of one row. -/
theorem milestoneChanges_of_set {p : Agreement → Bool} {m : Milestone} {index : ℕ}
    (updates : AgreementUpdates) (m' : Milestone) (hone : rows.filter p = [a]) (hm : a.milestones[index]? = some m)
    (hupdates : updates.milestones = some (a.milestones.set index m')) :
    milestoneChanges rows (Table.updateWhere p (Agreement.apply updates) rows) =
      if m.status ≠ m'.status then [⟨a.id, index, m'.status⟩] else [] := by
  obtain ⟨before, after, hrows, hupdated⟩ :=
    Table.updateWhere_of_filter_eq_singleton (f := Agreement.apply updates) hone
  have hentry : changedEntries a (a.apply updates) =
      if m.status ≠ m'.status then [⟨a.id, index, m'.status⟩] else [] := by
    rw [changedEntries, Agreement.apply_milestones, hupdates, Option.getD_some,
      filter_zip_set a.milestones index 0 hm]
    split
    · simp
    · rfl
  rw [hupdated, hrows, milestoneChanges_same, milestoneChanges_cons, milestoneChanges_self,
    List.append_nil, ← hentry]
  exact if_pos rfl

variable {F : FloatArithmetic} {db : AgreementDb} {o : Operation}

/-- What becomes of the entries is what is stored in them, where that is something else. -/
theorem mem_milestoneChanges (h : RowsStored F db o rows) :
    change ∈ milestoneChanges db.agreements rows ↔ ∃ a ∈ db.agreements, ∃ m,
      a.milestones[change.index]? = some m ∧ change.agreementId = a.id ∧
        storedStatus F db o a change.index = some change.status ∧ change.status ≠ m.status := by
  obtain ⟨kept, new, rfl, hkept⟩ := h
  have hentry : ∀ a a', a'.id = a.id ∧ StatusesStored F db o a a' →
      (change ∈ changedEntries a a' ↔ ∃ m, a.milestones[change.index]? = some m ∧
        change.agreementId = a.id ∧ storedStatus F db o a change.index = some change.status ∧
          change.status ≠ m.status) := by
    rintro a a' ⟨-, hstored⟩
    rw [mem_changedEntries]
    constructor
    · rintro ⟨m, m', hm, hm', hne, hid, hstatus⟩
      have hwritten := hstored.entry _ _ _ hm hm'
      cases hnew : storedStatus F db o a change.index with
      | none =>
          rw [hnew, Option.getD_none] at hwritten
          exact absurd hwritten.symm hne
      | some status =>
          rw [hnew, Option.getD_some] at hwritten
          refine ⟨m, hm, hid, ?_, ?_⟩
          · rw [hstatus, hwritten]
          · rw [hstatus]
            exact Ne.symm hne
    · rintro ⟨m, hm, hid, hnew, hne⟩
      obtain ⟨m', hm', hwritten⟩ := hstored.exists_entry hm
      rw [hnew, Option.getD_some] at hwritten
      refine ⟨m, m', hm, hm', ?_, hid, hwritten.symm⟩
      rw [hwritten]
      exact Ne.symm hne
  -- row by row: the rows stay in order, and new ones change nothing
  generalize db.agreements = old at hkept ⊢
  induction hkept with
  | nil => simp [milestoneChanges]
  | @cons a a' rest rest' hrow _ ih =>
      rw [List.cons_append, milestoneChanges_cons, if_pos hrow.1.symm, List.mem_append,
        hentry a a' hrow, List.exists_mem_cons_iff]
      exact or_congr Iff.rfl ih

end Changes

/-! ## What is announced -/

/-- The call announces nothing of a milestone. -/
def AgreementCall.isUnannounced : AgreementCall → Bool
  | .emit event => event.milestoneChange.isNone
  | _ => true

/-- A program that announces nothing of a milestone. -/
abbrev Unannounced {α : Type} (p : AgreementProgram α) : Prop :=
  Calls.Only (fun c : AgreementCall => c.isUnannounced = true) p

section Unannounced

variable {now : Timestamp} {α : Type}

theorem Silent.unannounced {p : AgreementProgram α} (h : Silent p) : Unannounced p := by
  refine Calls.Only.mono h fun c hc => ?_
  cases c with
  | emit event => cases hc
  | _ => rfl

theorem Unannounced.leadsTo {p : AgreementProgram α} (h : Unannounced p) (db : AgreementDb) :
    Calls.LeadsTo Answers (fun db' => db'.notices = db.notices) p db := by
  refine ⟨Calls.Only.ensures h (I := fun db' => db'.notices = db.notices) ?_ rfl
    fun _ _ hsame => hsame⟩
  intro c db₁ x db₂ hc hsame hx
  rw [← hsame]
  have hevents : db₂.events = db₁.events → db₂.notices = db₁.notices := by
    intro h
    rw [AgreementDb.notices, h, AgreementDb.notices]
  cases c with
  | emit event =>
      obtain ⟨-, rfl⟩ := hx
      simp only [AgreementCall.isUnannounced, Option.isNone_iff_eq_none] at hc
      simp [AgreementDb.notices, hc]
  | wallet c =>
      obtain ⟨wallet, -, rfl⟩ := hx
      rfl
  | insertAgreement new =>
      obtain ⟨id, created, -, -, rfl⟩ := hx
      rfl
  | insertDispute new =>
      obtain ⟨id, created, -, -, rfl⟩ := hx
      rfl
  | insertResolution new =>
      obtain ⟨id, created, -, -, rfl⟩ := hx
      rfl
  | changeStatusByContract contractId target updates =>
      simp only [Answers] at hx
      split at hx
      all_goals
        obtain ⟨-, rfl⟩ := hx
        rfl
  | _ =>
      obtain ⟨-, rfl⟩ := hx
      rfl

theorem emit_unannounced {event : AgreementEvent} (h : event.milestoneChange = none) :
    Unannounced (emit event) :=
  Calls.only_ask (by rw [AgreementCall.isUnannounced, h]; rfl) fun _ => Calls.only_done _

theorem inBackground_unannounced (work : BackgroundWork) : Unannounced (inBackground work) :=
  Calls.only_ask rfl fun _ => Calls.only_done _

theorem emitStatus_unannounced {a : Agreement} {agreementId wallet target : String} :
    Unannounced (emitStatus now a agreementId wallet target) := by
  unfold emitStatus statusEvent
  dsimp only
  split
  · rename_i event hevent
    refine emit_unannounced ?_
    split_ifs at hevent
    all_goals
      obtain rfl := Option.some.inj hevent
      rfl
  · exact Calls.only_done _

theorem create_unannounced {F : FloatArithmetic} {userId : String} {dto : CreateAgreementDto} :
    Unannounced (create F userId dto) := by
  unfold create
  split
  · exact Calls.only_done _
  · refine (assertActorWallet_silent _ _).unannounced.bind fun _ => ?_
    refine Calls.only_ask rfl fun inserted => ?_
    split
    · exact Calls.only_done _
    · refine Calls.only_ask rfl fun written => ?_
      split
      · exact Calls.only_ask rfl fun _ => Calls.only_fail _
      · refine (logActivity_silent _).unannounced.bind fun _ => ?_
        refine (logMilestonesCreated_silent _ _ _).unannounced.bind fun _ => ?_
        refine (emit_unannounced rfl).bind fun _ => ?_
        split
        · exact (inBackground_unannounced _).bind fun _ => Calls.only_done _
        · exact Calls.only_done _

theorem linkContract_unannounced {userId agreementId : String} {dto : LinkContractDto} {fetch : Fetch} :
    Unannounced (linkContract now userId agreementId dto fetch) := by
  refine (assertCanAccessAgreement_silent _ _).unannounced.bind fun _ => ?_
  refine (assertActorWallet_silent _ _).unannounced.bind fun _ => ?_
  dsimp only
  split
  · exact Calls.only_done _
  · refine Calls.only_ask rfl fun reply => ?_
    split
    · exact Calls.only_done _
    · refine (logActivity_silent _).unannounced.bind fun _ => ?_
      exact (inBackground_unannounced _).bind fun _ => Calls.only_done _

theorem updateStatus_unannounced {userId agreementId : String} {dto : UpdateAgreementStatusDto} :
    Unannounced (updateStatus now userId agreementId dto) := by
  refine (assertCanAccessAgreement_silent _ _).unannounced.bind fun _ => ?_
  refine (assertActorWallet_silent _ _).unannounced.bind fun _ => ?_
  refine Calls.only_ask rfl fun found => ?_
  split
  · exact Calls.only_done _
  · refine Calls.Only.bind (Calls.only_ofExcept _) fun refused => ?_
    split
    · exact Calls.only_fail _
    · split
      · exact Calls.only_fail _
      · refine Calls.only_ask rfl fun reply => ?_
        split
        · exact Calls.only_done _
        · refine (logActivity_silent _).unannounced.bind fun _ => ?_
          refine (inBackground_unannounced _).bind fun _ => ?_
          exact emitStatus_unannounced.bind fun _ => Calls.only_done _

theorem applyStatusChange_unannounced {agreementId wallet : String} {target : AgreementStatus}
    {enforce : Bool} {details : List (String × Value)} :
    Unannounced (applyStatusChange now agreementId wallet target enforce details) := by
  refine Calls.only_ask rfl fun found => ?_
  split
  · exact Calls.only_done _
  · refine Calls.Only.bind (Calls.only_ofExcept _) fun refused => ?_
    split
    · exact Calls.only_done _
    · refine Calls.only_ask rfl fun reply => ?_
      split
      · exact Calls.only_done _
      · refine (logActivity_silent _).unannounced.bind fun _ => ?_
        exact emitStatus_unannounced.bind fun _ => Calls.only_done _

theorem openDispute_unannounced {userId : String} {dto : Disputes.OpenDisputeDto} :
    Unannounced (Disputes.openDispute now userId dto) := by
  refine (Disputes.assertCanAccessAgreement_silent _ _).unannounced.bind fun _ => ?_
  refine (Disputes.assertActorWallet_silent _ _).unannounced.bind fun _ => ?_
  refine Calls.only_ask rfl fun existing => ?_
  split
  · exact Calls.only_done _
  · refine Calls.only_ask rfl fun reply => ?_
    split
    · exact Calls.only_done _
    · refine applyStatusChange_unannounced.bind fun result => ?_
      split
      · exact Calls.only_fail _
      · refine (logActivity_silent _).unannounced.bind fun _ => ?_
        exact (emit_unannounced rfl).bind fun _ => Calls.only_done _

theorem assignResolver_unannounced {userId disputeId : String} {dto : Disputes.AssignResolverDto} :
    Unannounced (Disputes.assignResolver now userId disputeId dto) := by
  refine Calls.only_ask rfl fun found => ?_
  split
  · exact Calls.only_fail _
  · refine (Disputes.assertCanAccessAgreement_silent _ _).unannounced.bind fun _ => ?_
    split
    · exact Calls.only_fail _
    · refine Calls.only_ask rfl fun reply => ?_
      split
      · exact Calls.only_done _
      · exact (logActivity_silent _).unannounced.bind fun _ => Calls.only_done _

theorem resolveDispute_unannounced {F : FloatArithmetic} {userId disputeId : String}
    {dto : Disputes.ResolveDisputeDto} :
    Unannounced (Disputes.resolveDispute F now userId disputeId dto) := by
  refine (Disputes.assertActorWallet_silent _ _).unannounced.bind fun _ => ?_
  split
  · exact Calls.only_fail _
  · refine Calls.only_ask rfl fun found => ?_
    split
    · exact Calls.only_fail _
    · split
      · exact Calls.only_fail _
      · split
        · exact Calls.only_fail _
        · refine Calls.only_ask rfl fun reply => ?_
          split
          · exact Calls.only_done _
          · refine Calls.only_ask rfl fun _ => ?_
            refine applyStatusChange_unannounced.bind fun result => ?_
            split
            · exact Calls.only_done _
            · refine (logActivity_silent _).unannounced.bind fun _ => ?_
              exact (emit_unannounced rfl).bind fun _ => Calls.only_done _

theorem cancelDispute_unannounced {userId disputeId : String} {dto : Disputes.CancelDisputeDto} :
    Unannounced (Disputes.cancelDispute now userId disputeId dto) := by
  refine (Disputes.assertActorWallet_silent _ _).unannounced.bind fun _ => ?_
  refine Calls.only_ask rfl fun found => ?_
  split
  · exact Calls.only_fail _
  · split
    · exact Calls.only_fail _
    · split
      · exact Calls.only_fail _
      · refine Calls.only_ask rfl fun reply => ?_
        split
        · exact Calls.only_done _
        · refine Calls.only_ask rfl fun agreement => ?_
          dsimp only
          split
          · exact Calls.only_fail _
          · refine applyStatusChange_unannounced.bind fun result => ?_
            split
            · exact Calls.only_done _
            · exact (logActivity_silent _).unannounced.bind fun _ => Calls.only_done _

theorem writeStatus_unannounced {payload : Value} {contractId : String} {target : AgreementStatus} :
    Unannounced (writeStatus now payload contractId target) := by
  refine Calls.only_ask rfl fun written => ?_
  split
  · exact Calls.only_fail _
  · refine Calls.only_ask rfl fun found => ?_
    split
    · exact Calls.only_fail _
    · exact Calls.only_done _
  · refine (logActivity_silent _).unannounced.bind fun _ => ?_
    cases target with
    | funded => exact emit_unannounced rfl
    | completed => exact emit_unannounced rfl
    | disputed => exact emit_unannounced rfl
    | _ => exact Calls.only_done _

/-- The webhook stores statuses of milestones, and announces none of them. -/
theorem handleEvent_unannounced {payload : Value} : Unannounced (handleEvent now payload) := by
  unfold handleEvent
  split
  · split
    · rename_i config hconfig
      cases config with
      | statusUpdate target =>
          refine Calls.only_ask rfl fun found => ?_
          split
          · exact Calls.only_fail _
          · exact writeStatus_unannounced
          · split
            · exact (logActivity_silent _).unannounced
            · exact writeStatus_unannounced
      | milestoneUpdate =>
          refine Calls.only_ask rfl fun found => ?_
          split
          · exact Calls.only_done _
          · refine Calls.Only.bind (Calls.only_ofExcept _) fun edited => ?_
            split
            · exact Calls.only_done _
            · refine Calls.only_ask rfl fun reply => ?_
              split
              · exact Calls.only_fail _
              · exact (logActivity_silent _).unannounced
      | info => exact (Webhooks.applyInfoUpdate_silent _ _).unannounced
      | withoutAction => exact Calls.only_done _
      | notStored => exact Calls.only_fail _
    · exact Calls.only_done _
  · exact Calls.only_fail _

theorem doSync_unannounced {agreementId : String} {fetch : Fetch} :
    Unannounced (doSync now agreementId fetch) := by
  refine Calls.only_ask rfl fun found => ?_
  split
  · exact Calls.only_done _
  · split
    · exact Calls.only_done _
    · dsimp only
      split
      · unfold syncWith
        split
        · exact Calls.only_fail _
        · dsimp only
          split
          · exact (logSyncActivity_silent _ _ _ _).unannounced.bind fun _ => Calls.only_done _
          · refine Calls.only_ask rfl fun reply => ?_
            split
            · exact Calls.only_done _
            · dsimp only
              split
              · refine (syncParticipants_silent _ _).unannounced.bind fun _ => ?_
                exact (logSyncActivity_silent _ _ _ _).unannounced.bind fun _ => Calls.only_done _
              · exact (logSyncActivity_silent _ _ _ _).unannounced.bind fun _ => Calls.only_done _
          · exact (logSyncActivity_silent _ _ _ _).unannounced.bind fun _ => Calls.only_done _
      · exact (logSyncActivity_silent _ _ _ _).unannounced.bind fun _ => Calls.only_done _

/-- A reconcile stores statuses of milestones, and announces none of them. -/
theorem doReconcile_unannounced {agreementId : String} {first second : Fetch} :
    Unannounced (doReconcile now agreementId first second) := by
  refine doSync_unannounced.bind fun result => ?_
  split
  · exact Calls.only_done _
  · split
    · exact Calls.only_done _
    · refine Calls.Only.bind (Calls.only_ask rfl fun found => ?_) fun _ => Calls.only_done _
      split
      · exact Calls.only_done _
      · split
        · exact Calls.only_done _
        · dsimp only
          split
          · exact Calls.only_done _
          · split
            · refine Calls.Only.bind (Calls.only_ofExcept _) fun milestones => ?_
              refine Calls.only_ask rfl fun _ => ?_
              exact (logSyncActivity_silent _ _ _ _).unannounced.bind fun _ => Calls.only_done _
            · exact (logSyncActivity_silent _ _ _ _).unannounced.bind fun _ => Calls.only_done _

theorem syncStatusTransition_unannounced {agreementId source target : String} :
    Unannounced (syncStatusTransition now agreementId source target) := by
  refine Calls.Only.bind (Calls.only_ofExcept _) fun refused => ?_
  split
  · exact (logSyncActivity_silent _ _ _ _).unannounced.bind fun _ => Calls.only_done _
  · refine Calls.only_ask rfl fun found => ?_
    split
    · exact Calls.only_done _
    · refine emitStatus_unannounced.bind fun _ => ?_
      exact (logSyncActivity_silent _ _ _ _).unannounced.bind fun _ => Calls.only_done _

/-- Only `updateMilestone` announces something of a milestone. -/
theorem program_unannounced {F : FloatArithmetic} {o : Operation} (db : AgreementDb)
    (hother : ∀ userId agreementId dto, o.request ≠ .updateMilestone userId agreementId dto) :
    Calls.LeadsTo Answers (fun db' => db'.notices = db.notices) (o.program F) db := by
  obtain ⟨now, request⟩ := o
  cases request with
  | updateMilestone userId agreementId dto => exact absurd rfl (hother userId agreementId dto)
  | create userId dto => exact (create_unannounced.leadsTo db).wrapped _
  | linkContract userId agreementId dto fetch =>
      exact (linkContract_unannounced.leadsTo db).wrapped _
  | updateStatus userId agreementId dto => exact (updateStatus_unannounced.leadsTo db).wrapped _
  | openDispute userId dto => exact (openDispute_unannounced.leadsTo db).wrapped _
  | assignResolver userId disputeId dto =>
      exact (assignResolver_unannounced.leadsTo db).wrapped _
  | resolveDispute userId disputeId dto =>
      exact (resolveDispute_unannounced.leadsTo db).wrapped _
  | cancelDispute userId disputeId dto => exact (cancelDispute_unannounced.leadsTo db).wrapped _
  | webhook payload => exact (handleEvent_unannounced.leadsTo db).wrapped _
  | sync agreementId fetch => exact (doSync_unannounced.leadsTo db).wrapped _
  | reconcile agreementId first second => exact (doReconcile_unannounced.leadsTo db).wrapped _
  | syncStatusTransition agreementId source target =>
      exact (syncStatusTransition_unannounced.leadsTo db).wrapped _

end Unannounced

/-! ## Runs -/

section Runs

variable {F : FloatArithmetic} {s s' : MilestoneHistory} {o : Operation}

/-- As many announcements as changes, for each milestone and each status that is announced. -/
def SameCounts (announced changed : List MilestoneChange) : Prop :=
  ∀ change : MilestoneChange, isAnnounced change.status = true →
    announced.count change = changed.count change

/-- What an operation adds to both sides. -/
theorem EventsMatch.append_iff (hs : EventsMatch s) {announced changed : List MilestoneChange}
    (hnotices : s'.db.notices = s.db.notices ++ announced)
    (hchanges : s'.changes = s.changes ++ changed) :
    EventsMatch s' ↔ SameCounts announced changed := by
  refine forall₂_congr fun change hannounced => ?_
  rw [hnotices, hchanges, List.count_append, List.count_append, hs change hannounced]
  omega

/-- What is added without an announcement. -/
theorem sameCounts_nil {changed : List MilestoneChange} :
    SameCounts [] changed ↔ ∀ change ∈ changed, isAnnounced change.status = false := by
  constructor
  · intro h change hmem
    rw [Bool.eq_false_iff]
    intro hannounced
    have hnone := h change hannounced
    rw [List.count_nil, eq_comm, List.count_eq_zero] at hnone
    exact hnone hmem
  · intro h change hannounced
    rw [List.count_nil, eq_comm, List.count_eq_zero]
    intro hmem
    rw [h change hmem] at hannounced
    cases hannounced

/-- What `updateMilestone` announces. -/
theorem notices_milestoneEvents {a : Agreement} {dto : UpdateMilestoneDto} {previous : MilestoneStatus}
    {m : Milestone} :
    (milestoneEvents a a.id dto previous m).filterMap AgreementEvent.milestoneChange =
      if dto.status = .approved ∧ previous ≠ .approved ∨ dto.status = .released then
        [⟨a.id, dto.milestoneIndex, dto.status⟩] else [] := by
  have hevidence : (if dto.emitsEvidence then
      [AgreementEvent.evidenceSubmitted a.id a.title dto.milestoneIndex m.description m.amount
        (a.asset.getD "USDC") dto.actorWallet dto.evidenceDescription.join dto.evidenceUrls.join]
      else []).filterMap AgreementEvent.milestoneChange = [] := by
    split
    · rfl
    · rfl
  rw [milestoneEvents, List.filterMap_append, List.filterMap_append, hevidence, List.nil_append]
  cases hstatus : dto.status with
  | approved =>
      by_cases hprevious : previous = .approved
      · simp [hprevious]
      · simp [hprevious, AgreementEvent.milestoneChange]
  | released => simp [AgreementEvent.milestoneChange]
  | _ => simp

/-- An entry that `updateMilestone` rewrites is announced as often as it changes, unless it is released
again. -/
theorem sameCounts_update (change : MilestoneChange) (previous : MilestoneStatus) :
    SameCounts
        (if change.status = .approved ∧ previous ≠ .approved ∨ change.status = .released then [change]
          else [])
        (if previous ≠ change.status then [change] else []) ↔
      (change.status = .released → previous ≠ .released) := by
  obtain ⟨agreementId, index, status⟩ := change
  cases status with
  | approved =>
      by_cases hprevious : previous = .approved
      · simp [hprevious, SameCounts]
      · simp [hprevious, SameCounts]
  | released =>
      by_cases hprevious : previous = .released
      · -- one announcement, and no change
        refine iff_of_false (fun h => ?_) fun h => h rfl hprevious
        have hcount := h ⟨agreementId, index, .released⟩ rfl
        simp [hprevious] at hcount
      · simp [hprevious, SameCounts]
  | _ =>
      refine iff_of_true ?_ fun hreleased => by cases hreleased
      rw [if_neg (by simp), sameCounts_nil]
      intro change hmem
      split at hmem
      · rw [List.mem_singleton.mp hmem]
        rfl
      · cases hmem

theorem notices_append {db db' : AgreementDb} {events : List AgreementEvent}
    (h : db'.events = db.events ++ events) :
    db'.notices = db.notices ++ events.filterMap AgreementEvent.milestoneChange := by
  rw [AgreementDb.notices, h, List.filterMap_append, AgreementDb.notices]

/-- The step of `updateMilestone`. -/
theorem EventsMatch.updateMilestone_iff {now : Timestamp} {userId agreementId : String}
    {dto : UpdateMilestoneDto} (hs : EventsMatch s)
    (hend : MilestoneEnd F now s.db userId agreementId dto s'.db)
    (hchanges : s'.changes = s.changes ++ milestoneChanges s.db.agreements s'.db.agreements) :
    EventsMatch s' ↔
      announcesStored F s.db ⟨now, .updateMilestone userId agreementId dto⟩ = true := by
  cases hend with
  | refused hrefused hrows hevents =>
      have hnone : milestoneChanges s.db.agreements s'.db.agreements = [] := by
        rw [hrows, milestoneChanges_self]
      have hnotices : s'.db.notices = s.db.notices ++ [] := by
        rw [List.append_nil, AgreementDb.notices, hevents, AgreementDb.notices]
      rw [hnone] at hchanges
      refine iff_of_true ((hs.append_iff hnotices hchanges).mpr fun _ _ => rfl) ?_
      simp [announcesStored, hrefused]
  | accepted a m haccepts ha hm hrows hevents =>
      obtain ⟨-, rfl⟩ := mem_of_agreementAt ha
      have hchanged := milestoneChanges_of_set
        { milestones := some (a.milestones.set dto.milestoneIndex (m.update now dto))
          updatedAt := now } (m.update now dto) (Table.sole_eq_some.mp ha) hm rfl
      rw [hrows, hchanged] at hchanges
      have hnotices := notices_append hevents
      rw [notices_milestoneEvents] at hnotices
      have hcondition : announcesStored F s.db ⟨now, .updateMilestone userId a.id dto⟩ = true ↔
          (dto.status = .released → m.status ≠ .released) := by
        simp [announcesStored, haccepts, ha, hm, imp_iff_not_or]
      rw [hs.append_iff hnotices hchanges, hcondition]
      exact sameCounts_update ⟨a.id, dto.milestoneIndex, dto.status⟩ m.status

/-- The step of an operation that announces nothing of a milestone. -/
theorem EventsMatch.unannounced_iff (hs : EventsMatch s)
    (hother : ∀ userId agreementId dto, o.request ≠ .updateMilestone userId agreementId dto)
    (hnotices : s'.db.notices = s.db.notices) (hstored : RowsStored F s.db o s'.db.agreements)
    (hchanges : s'.changes = s.changes ++ milestoneChanges s.db.agreements s'.db.agreements) :
    EventsMatch s' ↔ announcesStored F s.db o = true := by
  have hcondition : announcesStored F s.db o = true ↔ ∀ a ∈ s.db.agreements, ∀ m index,
      a.milestones[index]? = some m → ∀ status, storedStatus F s.db o a index = some status →
        isAnnounced status = false ∨ status = m.status := by
    unfold announcesStored
    split
    · rename_i userId agreementId dto ho
      exact absurd ho (hother userId agreementId dto)
    · simp [List.mk_mem_zipIdx_iff_getElem?, Option.all_eq_true]
  rw [hs.append_iff (by rw [hnotices, List.append_nil]) hchanges, sameCounts_nil, hcondition]
  constructor
  · intro h a ha m index hm status hstatus
    by_contra hnew
    rw [not_or] at hnew
    refine hnew.1 (h ⟨a.id, index, status⟩ ?_)
    exact (mem_milestoneChanges hstored).mpr ⟨a, ha, m, hm, rfl, hstatus, hnew.2⟩
  · intro h change hmem
    obtain ⟨a, ha, m, hm, -, hstatus, hne⟩ := (mem_milestoneChanges hstored).mp hmem
    rcases h a ha m change.index hm change.status hstatus with hplain | hsame
    · exact hplain
    · exact absurd hsame hne

/-- **Step lemma.** From a history that matches, an operation leads to one that matches exactly when it
announces what it stores. -/
theorem EventsMatch.step_iff (hs : EventsMatch s) (hstep : (milestoneSystem F).step s o s') :
    EventsMatch s' ↔ announcesStored F s.db o = true := by
  obtain ⟨⟨out, hrun⟩, hchanges⟩ := hstep
  by_cases hmilestone : ∃ userId agreementId dto, o.request = .updateMilestone userId agreementId dto
  · obtain ⟨userId, agreementId, dto, ho⟩ := hmilestone
    obtain ⟨now, request⟩ := o
    cases ho
    exact hs.updateMilestone_iff (end_of_runs updateMilestone_answered hrun) hchanges
  · have hother : ∀ userId agreementId dto, o.request ≠ .updateMilestone userId agreementId dto :=
      fun userId agreementId dto ho => hmilestone ⟨userId, agreementId, dto, ho⟩
    exact hs.unannounced_iff hother ((program_unannounced s.db hother).of_runs hrun)
      (answered_statuses hrun) hchanges

/-- **Run lemma.** -/
theorem EventsMatch.of_reachable
    (hs : ((milestoneSystem F).restrict fun s o => eventsKept F s.db o = true).Reachable s) :
    EventsMatch s := by
  refine StepSystem.invariant_of_steps (I := EventsMatch) ?_ ?_ hs
  · rintro s ⟨hevents, hchanges⟩ change -
    rw [AgreementDb.notices, hevents, hchanges]
    rfl
  · rintro s o s' - h ⟨hkept, hstep⟩
    exact (h.step_iff hstep).mpr (Bool.and_eq_true_iff.mp hkept).1

/-- **Events match transitions** in every run in which no milestone is released twice by a participant,
no webhook or reconcile approves or releases one anew, and none gives all lists a status; and an
operation that announces something else than it stores ends the match. -/
theorem milestone_events_match (F : FloatArithmetic) :
    ∀ s, ((milestoneSystem F).restrict fun s o => eventsKept F s.db o = true).Reachable s →
      EventsMatch s ∧
      ∀ o s', (milestoneSystem F).step s o s' → announcesStored F s.db o = false →
        ¬ EventsMatch s' := by
  intro s hs
  have hmatch := EventsMatch.of_reachable hs
  refine ⟨hmatch, fun o s' hstep hsilent hmatch' => ?_⟩
  rw [(hmatch.step_iff hstep).mp hmatch'] at hsilent
  cases hsilent

end Runs

/-! ### A store that answers, with its changes -/

/-- The operation on the answering database, with the changes it makes. -/
def MilestoneHistory.follow (F : FloatArithmetic) (s : MilestoneHistory) (o : Operation) :
    MilestoneHistory :=
  let db := (o.run F s.db).2
  ⟨db, s.changes ++ milestoneChanges s.db.agreements db.agreements⟩

theorem MilestoneHistory.step_follow (F : FloatArithmetic) (s : MilestoneHistory) (o : Operation) :
    (milestoneSystem F).step s o (s.follow F o) :=
  ⟨⟨_, o.answers F s.db⟩, rfl⟩

/-- The operations, one after the other, as long as each meets the guard. -/
def followAll (F : FloatArithmetic) (guard : AgreementDb → Operation → Bool) :
    List Operation → MilestoneHistory → Option MilestoneHistory
  | [], s => some s
  | o :: os, s => if guard s.db o then followAll F guard os (s.follow F o) else none

theorem reachable_followAll {F : FloatArithmetic} {guard : AgreementDb → Operation → Bool}
    {os : List Operation} {s s' : MilestoneHistory}
    (h : ((milestoneSystem F).restrict fun s o => guard s.db o = true).Reachable s)
    (hrun : followAll F guard os s = some s') :
    ((milestoneSystem F).restrict fun s o => guard s.db o = true).Reachable s' := by
  induction os generalizing s with
  | nil =>
      cases hrun
      exact h
  | cons o rest ih =>
      rw [followAll] at hrun
      split at hrun
      · rename_i hguard
        exact ih (h.step ⟨hguard, s.step_follow F o⟩) hrun
      · cases hrun

/-- The payer gives the first milestone this status. -/
def setFirst (now : Timestamp) (status : MilestoneStatus) : Operation :=
  ⟨now, .updateMilestone "payer" "i" ⟨0, status, "P", none, none⟩⟩

/-- A webhook gives the first milestone this status. -/
def reportFirst (now : Timestamp) (status : MilestoneStatus) : Operation :=
  ⟨now, .webhook (.object [("event", .string "escrow.milestone_updated"),
    ("contractId", .string "C"),
    ("milestone", .object [("index", .number 0), ("status", .string status.text)])])⟩

/-- What has been announced, and what has changed. -/
def MilestoneHistory.sides (s : MilestoneHistory) : List MilestoneChange × List MilestoneChange :=
  (s.db.notices, s.changes)

/-- The theorem for a milestone that is approved, approved again, released, and reported released;
released again, it is announced once more. -/
theorem milestone_events_match_released :
    ∃ s, followAll exactArithmetic (eventsKept exactArithmetic)
        [createOperation "10" (some "C") splitTen, setFirst 1 .approved, setFirst 2 .approved,
          setFirst 3 .released, reportFirst 4 .released] ⟨newStore, []⟩ = some s ∧
      s.sides = ([⟨"i", 0, .approved⟩, ⟨"i", 0, .released⟩],
        [⟨"i", 0, .approved⟩, ⟨"i", 0, .released⟩]) ∧
      EventsMatch s ∧ ¬ EventsMatch (s.follow exactArithmetic (setFirst 5 .released)) := by
  have hrun : (followAll exactArithmetic (eventsKept exactArithmetic)
      [createOperation "10" (some "C") splitTen, setFirst 1 .approved, setFirst 2 .approved,
        setFirst 3 .released, reportFirst 4 .released] ⟨newStore, []⟩).map
          (fun s => (s.sides, announcesStored exactArithmetic s.db (setFirst 5 .released))) =
        some (([⟨"i", 0, .approved⟩, ⟨"i", 0, .released⟩],
          [⟨"i", 0, .approved⟩, ⟨"i", 0, .released⟩]), false) := by decide +kernel
  obtain ⟨s, hs, hsides⟩ := Option.map_eq_some_iff.mp hrun
  obtain ⟨hsides, hagain⟩ := Prod.mk.inj hsides
  obtain ⟨hmatch, hbroken⟩ := milestone_events_match exactArithmetic s
    (reachable_followAll (.init ⟨rfl, rfl⟩) hs)
  exact ⟨s, hs, hsides, hmatch, hbroken _ _ (s.step_follow _ _) hagain⟩

/-- A release that is repeated is announced twice, and an approval by webhook not at all. -/
theorem not_milestone_events_match :
    (¬ ∀ s, (milestoneSystem exactArithmetic).Reachable s →
      s.db.notices.count ⟨"i", 0, .released⟩ = s.changes.count ⟨"i", 0, .released⟩) ∧
    ¬ ∀ s, (milestoneSystem exactArithmetic).Reachable s →
      s.db.notices.count ⟨"i", 0, .approved⟩ = s.changes.count ⟨"i", 0, .approved⟩ := by
  have hreach : ∀ os s, followAll exactArithmetic (fun _ _ => true) os ⟨newStore, []⟩ = some s →
      (milestoneSystem exactArithmetic).Reachable s :=
    fun os s hs => (reachable_followAll (.init ⟨rfl, rfl⟩) hs).of_restrict
  constructor
  · intro h
    have hrun : (followAll exactArithmetic (fun _ _ => true)
        [createOperation "10" (some "C") splitTen, setFirst 1 .released, setFirst 2 .released]
          ⟨newStore, []⟩).map MilestoneHistory.sides =
        some ([⟨"i", 0, .released⟩, ⟨"i", 0, .released⟩], [⟨"i", 0, .released⟩]) := by
      decide +kernel
    obtain ⟨s, hs, hsides⟩ := Option.map_eq_some_iff.mp hrun
    obtain ⟨hnotices, hchanges⟩ := Prod.mk.inj hsides
    have hcount := h s (hreach _ s hs)
    rw [hnotices, hchanges] at hcount
    simp at hcount
  · intro h
    have hrun : (followAll exactArithmetic (fun _ _ => true)
        [createOperation "10" (some "C") splitTen, reportFirst 1 .approved]
          ⟨newStore, []⟩).map MilestoneHistory.sides = some ([], [⟨"i", 0, .approved⟩]) := by
      decide +kernel
    obtain ⟨s, hs, hsides⟩ := Option.map_eq_some_iff.mp hrun
    obtain ⟨hnotices, hchanges⟩ := Prod.mk.inj hsides
    have hcount := h s (hreach _ s hs)
    rw [hnotices, hchanges] at hcount
    simp at hcount

end ThalosBackend.Agreements
