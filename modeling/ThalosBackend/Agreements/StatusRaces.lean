import ThalosBackend.Webhooks.WebhookQueries

/-!
# Changes of status at the same time

`updateStatus`, the disputes and the status webhook read the status, check the transition and store
the new status. `cancelDispute` reads the agreement once more between the two and does not look at the
status again. Nothing ties the update to the status that was checked.

`aboutToStore` says which change a request in progress has checked and is about to store. In the runs
in which no status is stored while another request is about to store one that does not follow on it,
every change is a transition of the lifecycle.
-/

set_option autoImplicit false

namespace ThalosBackend.Agreements

open Js (FloatArithmetic Timestamp Value)
open Calls (Follows Only)

/-! ## The requests -/

/-- The requests that change a status along the lifecycle. -/
def AgreementRequest.changesStatus : AgreementRequest → Bool
  | .updateStatus _ _ _ | .openDispute _ _ | .assignResolver _ _ _ | .resolveDispute _ _ _
  | .cancelDispute _ _ _ | .webhook _ => true
  | _ => false

/-- They come on any tables. -/
def statusTraffic : Traffic where
  serves := AgreementRequest.changesStatus
  startsFrom _ := True

/-- How an update names its rows. -/
inductive RowKey where
  | byId (id : String)
  | byContract (contractId : String)
  deriving DecidableEq

def RowKey.names : RowKey → Agreement → Bool
  | .byId id, a => a.id = id
  | .byContract contractId, a => a.contractId = some contractId

/-- `cancelDispute` reads the agreement for its check, and again before it stores the status. -/
def AgreementRequest.rereads : AgreementRequest → Bool
  | .cancelDispute _ _ _ => true
  | _ => false

/-- The status a request has checked and is about to store: it asks for the update, or it cancels a
dispute and reads the agreement for the second time. -/
def Operation.aboutToStore (o : Operation) (c : AgreementCall) (history : QueryHistory) :
    Option (RowKey × String) :=
  match c with
  | .updateAgreement id updates => updates.status.join.map fun target => (.byId id, target)
  | .changeStatusByContract contractId target _ => some (.byContract contractId, target)
  | .getAgreement id =>
    match o.request.rereads, history with
    | true, ⟨.getAgreement _, .ok _⟩ :: _ => some (.byId id, "active")
    | _, _ => none
  | _ => none

/-- Every change of a status is a transition of the lifecycle, so a terminal status stays. -/
structure AgreementStore.OnEdges (s : AgreementStore) : Prop where
  edge : ∀ w ∈ s.writes, w.after.status ≠ w.before.status →
    canTransition (statusText w.before.status) (statusText w.after.status) = true
  terminal : ∀ w ∈ s.writes, ∀ status : AgreementStatus, w.before.status = some status.text →
    isTerminalStatus status = true → w.after.status = w.before.status

/-- An answered update changes the status of an agreement only to one that another request, about to
store its own status in the same agreement, wants as well or may follow on. -/
def FollowsOn (c : AgreementConfig statusTraffic) :
    AgreementLabel statusTraffic → Prop
  | .act t .answer => ∀ req call history cont, c.threads t = some ⟨req, .call (call, history) cont⟩ →
      ∀ w ∈ call.written req.operation history c.shared.db, ∀ target,
        w.updates.status = some (some target) → w.before.status ≠ some target →
        ∀ t' req' call' history' cont', t' ≠ t →
          c.threads t' = some ⟨req', .call (call', history') cont'⟩ →
          ∀ key target', req'.operation.aboutToStore call' history' = some (key, target') →
            key.names w.before = true → target' = target ∨ canTransition target target' = true
  | _ => True

/-! ## What the programs check -/

/-- What a request knows of the change it is about to store: the query before this one read the
agreement, with a status that allows the change or after the change had been checked. -/
def Operation.Checked (o : Operation) (history : QueryHistory) : RowKey → String → Prop
  | .byId id, target => ∃ a before, history = ⟨.getAgreement id, .ok a⟩ :: before ∧
      (canTransition (statusText a.status) target = true ∨
        o.aboutToStore (.getAgreement id) before = some (.byId id, target))
  | .byContract contractId, target => ∃ found before,
      history = ⟨.findByContract contractId, .ok found⟩ :: before ∧
      ∀ a, found = some a → canTransition (statusText a.status) target = true

/-- The query moves no rows and links no contract, and a change of status has been checked. -/
def Operation.ChecksStatus (o : Operation) (c : AgreementCall) (history : QueryHistory) : Prop :=
  match c with
  | .insertAgreement _ | .deleteAgreement _ => False
  | .updateAgreement id updates => updates.contractId = none ∧
      (updates.status = none ∨
        ∃ target, updates.status = some (some target) ∧ o.Checked history (.byId id) target)
  | .changeStatusByContract contractId target updates => updates.contractId = none ∧
      updates.status = some (some target) ∧ o.Checked history (.byContract contractId) target
  | .updateByContract _ updates => updates.contractId = none ∧ updates.status = none
  | .getAgreement id => ∀ key target, o.aboutToStore (.getAgreement id) history = some (key, target) →
      o.Checked history key target
  | _ => True

section Programs

variable {o : Operation} {history : QueryHistory} {α : Type}

/-- The discipline of the programs. -/
abbrev Checks (o : Operation) {α : Type} (p : AgreementProgram α) (history : QueryHistory) : Prop :=
  Follows (fun _ _ => True) o.ChecksStatus (fun _ _ => True) p history

theorem checksStatus_of_other (c : AgreementCall) (history : QueryHistory)
    (hc : c.isQuiet = true ∧ ∀ id, c ≠ .getAgreement id) : o.ChecksStatus c history := by
  obtain ⟨hquiet, hread⟩ := hc
  cases c with
  | insertAgreement new => cases hquiet
  | deleteAgreement id => cases hquiet
  | updateAgreement id updates => cases hquiet
  | changeStatusByContract contractId target updates => cases hquiet
  | updateByContract contractId updates => cases hquiet
  | getAgreement id => exact absurd rfl (hread id)
  | _ => trivial

/-- A request that reads once may read where it likes. -/
theorem checksStatus_getAgreement (ho : o.request.rereads = false) (id : String)
    (history : QueryHistory) : o.ChecksStatus (.getAgreement id) history := by
  intro key target h
  simp only [Operation.aboutToStore, ho] at h
  cases h

theorem Quiet.checks (ho : o.request.rereads = false) {p : AgreementProgram α} (hp : Quiet p) :
    Checks o p history := by
  refine Only.follows hp fun c before hquiet => ?_
  by_cases hread : ∃ id, c = .getAgreement id
  · obtain ⟨id, rfl⟩ := hread
    exact checksStatus_getAgreement ho id before
  · exact checksStatus_of_other c before ⟨hquiet, fun id hid => hread ⟨id, hid⟩⟩

/-! ### Small programs that do not read the agreement -/

theorem logActivity_checks (row : Activity) : Checks o (logActivity row) history :=
  Calls.follows_ask trivial fun _ _ => Calls.follows_done trivial

theorem emit_checks (event : AgreementEvent) : Checks o (emit event) history :=
  Calls.follows_ask trivial fun _ _ => Calls.follows_done trivial

theorem emitStatus_checks (now : Timestamp) (agreement : Agreement)
    (agreementId wallet toStatus : String) :
    Checks o (emitStatus now agreement agreementId wallet toStatus) history := by
  unfold emitStatus
  split
  · exact emit_checks _
  · exact Calls.follows_done trivial

theorem assertActorWallet_checks (userId actorWallet : String) :
    Checks o (Disputes.assertActorWallet userId actorWallet) history := by
  refine Calls.follows_ask trivial fun x _ => ?_
  dsimp only [Calls.pure_eq, Calls.done_bind]
  split
  · exact Calls.follows_fail _
  · exact Calls.follows_done trivial

/-! ### The operations -/

theorem updateStatus_checks (ho : o.request.rereads = false) (now : Timestamp)
    (userId agreementId : String) (dto : UpdateAgreementStatusDto) :
    Checks o (updateStatus now userId agreementId dto) history := by
  refine ((assertCanAccessAgreement_quiet _ _).checks ho).bind fun _ history₁ => ?_
  refine ((assertActorWallet_quiet _ _).checks ho).bind fun _ history₂ => ?_
  refine Calls.follows_ask (checksStatus_getAgreement ho _ _) fun x _ => ?_
  cases x with
  | error e => exact Calls.follows_done trivial
  | ok current =>
      refine Calls.follows_ofExcept fun refused hvalid => ?_
      cases refused with
      | some reason => exact Calls.follows_fail _
      | none =>
          have hedge := AgreementValidationService.validateTransition_eq_ok.mp hvalid
          dsimp only
          split
          · exact Calls.follows_fail _
          · refine Calls.follows_ask ?_ fun y _ => ?_
            · exact ⟨rfl, .inr ⟨_, rfl, current, _, rfl, .inl hedge⟩⟩
            cases y with
            | error e => exact Calls.follows_done trivial
            | ok _ =>
                refine (logActivity_checks _).bind fun _ _ => ?_
                refine ((inBackground_quiet _).checks ho).bind fun _ _ => ?_
                refine (emitStatus_checks _ _ _ _ _).bind fun _ _ => ?_
                exact Calls.follows_done trivial

/-- `applyStatusChange`, which checks the transition itself, or is called right after the check. -/
theorem applyStatusChange_checks {now : Timestamp} {agreementId wallet : String}
    {target : AgreementStatus} {enforce : Bool} {details : List (String × Value)}
    (hread : o.ChecksStatus (.getAgreement agreementId) history)
    (hchecked : enforce = true ∨
      o.aboutToStore (.getAgreement agreementId) history = some (.byId agreementId, target.text)) :
    Checks o (applyStatusChange now agreementId wallet target enforce details) history := by
  refine Calls.follows_ask hread fun x _ => ?_
  cases x with
  | error e => exact Calls.follows_done trivial
  | ok current =>
      refine Calls.follows_ofExcept fun refused hvalid => ?_
      cases refused with
      | some reason => exact Calls.follows_done trivial
      | none =>
          refine Calls.follows_ask ?_ fun y _ => ?_
          · refine ⟨rfl, .inr ⟨_, rfl, current, _, rfl, ?_⟩⟩
            rcases hchecked with rfl | hchecked
            · exact .inl (AgreementValidationService.validateTransition_eq_ok.mp hvalid)
            · exact .inr hchecked
          cases y with
          | error e => exact Calls.follows_done trivial
          | ok _ =>
              refine (logActivity_checks _).bind fun _ _ => ?_
              refine (emitStatus_checks _ _ _ _ _).bind fun _ _ => ?_
              exact Calls.follows_done trivial

theorem openDispute_checks (ho : o.request.rereads = false) (now : Timestamp) (userId : String)
    (dto : Disputes.OpenDisputeDto) : Checks o (Disputes.openDispute now userId dto) history := by
  refine ((Disputes.assertCanAccessAgreement_quiet _ _).checks ho).bind fun _ _ => ?_
  refine (assertActorWallet_checks _ _).bind fun _ _ => ?_
  refine Calls.follows_ask trivial fun existing _ => ?_
  split
  · exact Calls.follows_done trivial
  · refine Calls.follows_ask trivial fun x _ => ?_
    cases x with
    | error e => exact Calls.follows_done trivial
    | ok dispute =>
        refine Follows.bind (applyStatusChange_checks (checksStatus_getAgreement ho _ _)
          (.inl rfl)) fun result _ => ?_
        split
        · exact Calls.follows_fail _
        · refine (logActivity_checks _).bind fun _ _ => ?_
          exact (emit_checks _).bind fun _ _ => Calls.follows_done trivial

theorem assignResolver_checks (ho : o.request.rereads = false) (now : Timestamp)
    (userId disputeId : String) (dto : Disputes.AssignResolverDto) :
    Checks o (Disputes.assignResolver now userId disputeId dto) history := by
  refine Calls.follows_ask trivial fun x _ => ?_
  split
  · exact Calls.follows_fail _
  · refine ((Disputes.assertCanAccessAgreement_quiet _ _).checks ho).bind fun _ _ => ?_
    split
    · exact Calls.follows_fail _
    · refine Calls.follows_ask trivial fun y _ => ?_
      cases y with
      | error e => exact Calls.follows_done trivial
      | ok _ => exact (logActivity_checks _).bind fun _ _ => Calls.follows_done trivial

theorem resolveDispute_checks (ho : o.request.rereads = false) (F : FloatArithmetic)
    (now : Timestamp) (userId disputeId : String) (dto : Disputes.ResolveDisputeDto) :
    Checks o (Disputes.resolveDispute F now userId disputeId dto) history := by
  refine (assertActorWallet_checks _ _).bind fun _ _ => ?_
  split
  · exact Calls.follows_fail _
  · refine Calls.follows_ask trivial fun x _ => ?_
    split
    · exact Calls.follows_fail _
    · split
      · exact Calls.follows_fail _
      · split
        · exact Calls.follows_fail _
        · refine Calls.follows_ask trivial fun y _ => ?_
          cases y with
          | error e => exact Calls.follows_done trivial
          | ok resolution =>
              refine Calls.follows_ask trivial fun z _ => ?_
              refine Follows.bind (applyStatusChange_checks (checksStatus_getAgreement ho _ _)
                (.inl rfl)) fun result _ => ?_
              split
              · exact Calls.follows_done trivial
              · refine (logActivity_checks _).bind fun _ _ => ?_
                exact (emit_checks _).bind fun _ _ => Calls.follows_done trivial

/-- The second half of a cancellation checks what it reads first, and stores what it has checked. -/
theorem reactivate_checks (ho : o.request.rereads = true) (now : Timestamp)
    (disputeId agreementId : String) (dto : Disputes.CancelDisputeDto)
    (hread : o.ChecksStatus (.getAgreement agreementId) history) :
    Checks o (Disputes.reactivate now disputeId agreementId dto) history := by
  refine Calls.follows_ask hread fun x _ => ?_
  dsimp only
  split
  · exact Calls.follows_fail _
  · rename_i hvalid
    rw [validateTransition_eq_ok] at hvalid
    cases x with
    | error e =>
        have hundefined : canTransition "undefined" "active" = true := hvalid
        exact absurd hundefined (by decide)
    | ok current =>
        have habout : o.aboutToStore (.getAgreement agreementId)
            (⟨.getAgreement agreementId, .ok current⟩ :: history) =
              some (.byId agreementId, "active") := by
          simp only [Operation.aboutToStore, ho]
        refine Follows.bind (applyStatusChange_checks ?_ (.inr habout)) fun result _ => ?_
        · intro key target h
          rw [habout] at h
          obtain ⟨rfl, rfl⟩ := Prod.mk.inj (Option.some.inj h)
          exact ⟨current, history, rfl, .inl hvalid⟩
        · split
          · exact Calls.follows_done trivial
          · exact (logActivity_checks _).bind fun _ _ => Calls.follows_done trivial

theorem cancelDispute_checks (ho : o.request.rereads = true) (now : Timestamp)
    (userId disputeId : String) (dto : Disputes.CancelDisputeDto) :
    Checks o (Disputes.cancelDispute now userId disputeId dto) history := by
  refine (assertActorWallet_checks _ _).bind fun _ _ => ?_
  refine Calls.follows_ask trivial fun x _ => ?_
  split
  · exact Calls.follows_fail _
  · split
    · exact Calls.follows_fail _
    · split
      · exact Calls.follows_fail _
      · refine Calls.follows_ask trivial fun y _ => ?_
        cases y with
        | error e => exact Calls.follows_done trivial
        | ok _ =>
            refine reactivate_checks ho now disputeId _ dto ?_
            -- the query before this read is the update of the dispute
            intro key target h
            simp only [Operation.aboutToStore, ho] at h
            cases h

/-- A webhook stores a status right after it has read the agreement and checked the transition. -/
theorem handleEvent_checks (ho : o.request.rereads = false) (now : Timestamp) (payload : Value) :
    Checks o (Webhooks.handleEvent now payload) [] := by
  refine (Webhooks.handleEvent_asks now payload).mono (fun _ _ _ => trivial) ?_
    (fun _ _ _ => trivial) (List.forall_mem_nil _)
  intro c history _ hc
  cases c with
  | insertAgreement new => cases hc
  | deleteAgreement id => cases hc
  | updateAgreement id updates => cases hc
  | getAgreement id => exact checksStatus_getAgreement ho id history
  | changeStatusByContract contractId target updates =>
      obtain ⟨hcontract, -, hstatus, hfound⟩ := hc
      exact ⟨hcontract, hstatus, hfound⟩
  | updateByContract contractId updates => exact ⟨hc.1, hc.2.1⟩
  | _ => trivial

/-- Every request that changes a status keeps to the discipline. -/
theorem program_checks (F : FloatArithmetic) (o : Operation)
    (ho : o.request.changesStatus = true) : Checks o (o.program F) [] := by
  obtain ⟨now, request⟩ := o
  cases request with
  | updateStatus userId agreementId dto =>
      exact (updateStatus_checks rfl now userId agreementId dto).bind fun _ _ =>
        Calls.follows_done trivial
  | openDispute userId dto =>
      exact (openDispute_checks rfl now userId dto).bind fun _ _ => Calls.follows_done trivial
  | assignResolver userId disputeId dto =>
      exact (assignResolver_checks rfl now userId disputeId dto).bind fun _ _ =>
        Calls.follows_done trivial
  | resolveDispute userId disputeId dto =>
      exact (resolveDispute_checks rfl F now userId disputeId dto).bind fun _ _ =>
        Calls.follows_done trivial
  | cancelDispute userId disputeId dto =>
      exact (cancelDispute_checks rfl now userId disputeId dto).bind fun _ _ =>
        Calls.follows_done trivial
  | webhook payload =>
      exact (handleEvent_checks rfl now payload).bind fun _ _ => Calls.follows_done trivial
  | _ => cases ho

end Programs

/-! ## What an answered query keeps -/

/-- Every agreement under the key has the status already, or may change to it. -/
def AgreementDb.Admits (db : AgreementDb) (key : RowKey) (target : String) : Prop :=
  ∀ a ∈ db.agreements, key.names a = true → a.status ≠ some target →
    canTransition (statusText a.status) target = true

section Queries

variable {c : AgreementCall} {db db' : AgreementDb} {x : c.reply} {o : Operation}
  {history : QueryHistory} {key : RowKey} {target : String} {w : RowWrite}

/-- The checks leave no room for a query that moves rows. -/
theorem movesRows_of_checksStatus (hc : o.ChecksStatus c history) : c.movesRows = false := by
  cases c with
  | insertAgreement new => cases hc
  | deleteAgreement id => cases hc
  | _ => rfl

theorem contractId_of_checksStatus (hc : o.ChecksStatus c history) {updates : AgreementUpdates}
    (h : c.rowUpdates = some updates) : updates.contractId = none := by
  cases c with
  | updateAgreement id updates' =>
      obtain rfl := Option.some.inj h
      exact hc.1
  | updateByContract contractId updates' =>
      obtain rfl := Option.some.inj h
      exact hc.1
  | changeStatusByContract contractId target updates' =>
      obtain rfl := Option.some.inj h
      exact hc.1
  | _ => cases h

/-- A recorded change of status is the one the request was about to store. -/
theorem aboutToStore_of_written (hc : o.ChecksStatus c history) (hw : w ∈ c.written o history db) :
    w.updates.status = none ∨ ∃ key target, w.updates.status = some (some target) ∧
      o.aboutToStore c history = some (key, target) ∧ key.names w.before = true := by
  obtain ⟨hhit, hupdates, -, -⟩ := mem_written.mp hw
  cases c with
  | updateAgreement id updates =>
      obtain rfl := Option.some.inj hupdates
      rcases hc.2 with hnone | ⟨target, htarget, -⟩
      · exact .inl hnone
      · refine .inr ⟨.byId id, target, htarget, ?_, (List.mem_filter.mp hhit).2⟩
        simp [Operation.aboutToStore, htarget]
  | updateByContract contractId updates =>
      obtain rfl := Option.some.inj hupdates
      exact .inl hc.2
  | changeStatusByContract contractId target updates =>
      obtain rfl := Option.some.inj hupdates
      have hsole := Table.sole_eq_some.mp (Option.mem_toList.mp hhit)
      have hmem := List.mem_singleton_self w.before
      rw [← hsole] at hmem
      obtain ⟨-, hmatch⟩ := List.mem_filter.mp hmem
      simp only [matchesStatusUpdate, decide_eq_true_eq] at hmatch
      exact .inr ⟨.byContract contractId, target, hc.2.1, rfl, decide_eq_true hmatch.1⟩
  | _ => cases hupdates

/-- A read that has been answered allows what is stored next: the row it found may change, or the
change was allowed already. -/
theorem admits_of_checked {act : QueryAct} (hx : act.exec c db x db')
    (hchecked : o.Checked (⟨c, x⟩ :: history) key target)
    (hbefore : ∀ key target, o.aboutToStore c history = some (key, target) → db.Admits key target) :
    db'.Admits key target := by
  cases key with
  | byId id =>
      obtain ⟨a, before, heq, hedge⟩ := hchecked
      cases heq
      obtain ⟨rfl, hfound⟩ := getAgreement_found hx.executes
      rcases hedge with hedge | habout
      · intro b hb hnames _
        rw [eq_of_filter_eq_singleton (hfound a rfl) hb hnames]
        exact hedge
      · exact hbefore _ _ habout
  | byContract contractId =>
      obtain ⟨found, before, heq, hedge⟩ := hchecked
      cases heq
      obtain ⟨rfl, hfound⟩ := findByContract_found hx.executes
      intro b hb hnames _
      have hmem : b ∈ db'.byContract contractId := List.mem_filter.mpr ⟨hb, hnames⟩
      rw [hfound found rfl] at hmem
      exact hedge b (Option.mem_toList.mp hmem)

/-- What another request was about to store stays admissible if it follows on what is stored now. -/
theorem AgreementDb.Admits.write (h : db.Admits key target) (hx : Answers c db x db')
    (hc : o.ChecksStatus c history)
    (hfollows : ∀ w ∈ c.written o history db, ∀ target', w.updates.status = some (some target') →
      w.before.status ≠ some target' → key.names w.before = true →
      target = target' ∨ canTransition target' target = true) : db'.Admits key target := by
  intro a' ha' hnames hne
  rcases hx.row (movesRows_of_checksStatus hc) ha' with ⟨ha, -⟩ | ⟨a, ha, updates, hupdates, rfl⟩
  · exact h a' ha hnames hne
  · have hsame : key.names a = true := by
      rw [← hnames]
      cases key with
      | byId id => rfl
      | byContract contractId => simp [RowKey.names, contractId_of_checksStatus hc hupdates]
    have hw : ⟨o, lastRead history, a, updates⟩ ∈ c.written o history db :=
      mem_written.mpr ⟨ha, hupdates, rfl, rfl⟩
    rw [Agreement.apply_status] at hne ⊢
    rcases aboutToStore_of_written hc hw with hnone | ⟨key', target', hstatus, -, -⟩
    · simp only at hnone
      rw [hnone] at hne ⊢
      exact h a (mem_of_hits ha) hsame hne
    · simp only at hstatus
      rw [hstatus, Option.getD_some] at hne ⊢
      by_cases hstays : a.status = some target'
      · rw [← hstays] at hne ⊢
        exact h a (mem_of_hits ha) hsame hne
      · rcases hfollows _ hw target' hstatus hstays hsame with rfl | hedge
        · exact absurd rfl hne
        · exact hedge

/-- What a request is about to store has been checked. -/
theorem checked_of_aboutToStore (hc : o.ChecksStatus c history)
    (h : o.aboutToStore c history = some (key, target)) : o.Checked history key target := by
  cases c with
  | updateAgreement id updates =>
      obtain ⟨target', hjoin, heq⟩ := Option.map_eq_some_iff.mp h
      cases heq
      have hset := Option.join_eq_some_iff.mp hjoin
      rcases hc.2 with hnone | ⟨target', htarget, hchecked⟩
      · rw [hnone] at hset
        cases hset
      · rw [htarget] at hset
        cases hset
        exact hchecked
  | changeStatusByContract contractId target' updates =>
      cases h
      exact hc.2.2
  | getAgreement id => exact hc key target h
  | _ => cases h

/-- What is recorded of an update that is admitted is on an edge. -/
theorem edge_of_written (hc : o.ChecksStatus c history) (hw : w ∈ c.written o history db)
    (hadmits : ∀ key target, o.aboutToStore c history = some (key, target) → db.Admits key target)
    (hne : w.after.status ≠ w.before.status) :
    canTransition (statusText w.before.status) (statusText w.after.status) = true := by
  have hmem : w.before ∈ db.agreements := mem_of_hits (mem_written.mp hw).1
  rw [RowWrite.after, Agreement.apply_status] at hne ⊢
  rcases aboutToStore_of_written hc hw with hnone | ⟨key, target, hstatus, habout, hnames⟩
  · rw [hnone] at hne
    exact absurd rfl hne
  · rw [hstatus, Option.getD_some] at hne ⊢
    exact hadmits key target habout w.before hmem hnames (Ne.symm hne)

end Queries

/-! ## Runs -/

theorem onEdges_of_edge {s : AgreementStore} (h : ∀ w ∈ s.writes, w.after.status ≠ w.before.status →
    canTransition (statusText w.before.status) (statusText w.after.status) = true) : s.OnEdges := by
  constructor
  · exact h
  · intro w hw status hstatus hterminal
    by_contra hne
    have hedge := h w hw hne
    rw [hstatus] at hedge
    have hnone := not_canTransition_of_terminal hterminal (statusText w.after.status)
    exact Bool.false_ne_true (hnone.symm.trans hedge)

/-- What every run of the guarded requests keeps. -/
structure StatusInv (c : AgreementConfig statusTraffic) : Prop where
  disciplined : Disciplined (fun _ _ => True) Operation.ChecksStatus (fun _ _ _ => True) c
  admits : ∀ t req call history cont, c.threads t = some ⟨req, .call (call, history) cont⟩ →
    ∀ key target, req.operation.aboutToStore call history = some (key, target) →
      c.shared.db.Admits key target
  edges : c.shared.OnEdges

variable {F : FloatArithmetic} {c c' : AgreementConfig statusTraffic}
  {l : AgreementLabel statusTraffic}

theorem StatusInv.init (h : (interleavingSystem F statusTraffic).init c) :
    StatusInv c := by
  refine ⟨disciplined_init h, ?_, onEdges_of_edge ?_⟩
  · intro t req call history cont hk
    rw [h.2 t] at hk
    cases hk
  · intro w hw
    rw [h.1.2] at hw
    cases hw

theorem StatusInv.step (h : StatusInv c) (hguard : FollowsOn c l)
    (hstep : (interleavingSystem F statusTraffic).step c l c') : StatusInv c' := by
  have hdisciplined : Disciplined (fun _ _ => True) Operation.ChecksStatus (fun _ _ _ => True) c' :=
    h.disciplined.step (fun o ho => program_checks F o ho) (fun _ _ _ _ _ => trivial) hstep
  refine ⟨hdisciplined, ?_, onEdges_of_edge ?_⟩
  · intro t req call history cont hk key target habout
    have hchecked := checked_of_aboutToStore (hdisciplined.next hk).1 habout
    cases h.disciplined.atQuery (fun _ _ _ _ _ => trivial) hstep hk with
    | begun hshared hnil =>
        -- nothing has been read yet, so nothing has been checked
        rw [hnil] at hchecked
        cases key with
        | byId id => obtain ⟨a, before, heq, -⟩ := hchecked; cases heq
        | byContract contractId => obtain ⟨found, before, heq, -⟩ := hchecked; cases heq
    | replied act before next x hl hhistory hbefore hexec =>
        rw [hhistory] at hchecked
        exact admits_of_checked hexec.1 hchecked (h.admits t req before.1 before.2 next hbefore)
    | other t' act req' before next x hl hne hsame hbefore hexec =>
        have hadmits := h.admits t req call history cont hsame key target habout
        cases act with
        | answer =>
            refine hadmits.write hexec.1 (h.disciplined.next hbefore).1 ?_
            intro w hw target' hstatus hchanges hnames
            subst hl
            exact hguard req' before.1 before.2 next hbefore w hw target' hstatus hchanges t req call
              history cont hne hsame key target habout hnames
        | fail =>
            rw [exec_fail hexec]
            exact hadmits
    | kept hshared hsame =>
        rw [hshared]
        exact h.admits t req call history cont hsame key target habout
  · intro w hw hne
    cases Calls.step_cases hstep with
    | start t req hfree => exact h.edges.edge w hw hne
    | act t act req before next x s hk hexec =>
        cases act with
        | answer =>
            obtain ⟨hx, hwrites⟩ := hexec
            simp only [hwrites] at hw
            rcases List.mem_append.mp hw with hw | hw
            · exact edge_of_written (h.disciplined.next hk).1 hw
                (h.admits t req before.1 before.2 next hk) hne
            · exact h.edges.edge w hw hne
        | fail =>
            obtain rfl := exec_fail hexec
            exact h.edges.edge w hw hne
    | env b => exact nomatch b

/-- **Status changes stay on the edges.** In a run of changes of status in which no status is stored
while another request is about to store one that does not follow on it, every change of a stored
status is a transition of the lifecycle, and a terminal status is never overwritten. -/
theorem status_changes_on_edges (F : FloatArithmetic)
    (h : ((interleavingSystem F statusTraffic).restrict FollowsOn).Reachable c) :
    c.shared.OnEdges := by
  have hinv : StatusInv c :=
    StepSystem.invariant_of_steps
      (M := (interleavingSystem F statusTraffic).restrict FollowsOn)
      (fun _ hinit => StatusInv.init hinit) (fun _ _ _ _ hI hs => hI.step hs.1 hs.2) h
  exact hinv.edges

/-! ## Two changes of one status -/

section TwoChanges

open Calls (Move)

/-- The store with a funded agreement of the two parties. -/
def fundedStore : AgreementStore where
  db := storeWith twoParties
    [{ (sampleDto "10" none splitTen).row.row "a" 0 with status := some "funded" }] []
  writes := []

/-- `payer` changes the status. -/
def changeStatus (status : AgreementStatus) : Served statusTraffic where
  operation := ⟨0, .updateStatus "payer" "a" ⟨status, "P"⟩⟩
  isServed := rfl

/-- The agreement is activated and cancelled at the same time, with the queries in this order. -/
def activateAndCancel (turns : List ℕ) : List (Move (Served statusTraffic)) :=
  .start (changeStatus .active) :: .start (changeStatus .cancelled) :: turns.map .next

/-- The next query stores a status that everybody else may follow on. -/
def leavesFollowing (s : AgreementStore) (tasks : List (AgreementTask statusTraffic)) :
    Move (Served statusTraffic) → Bool
  | .start _ => true
  | .next t => match tasks[t]? with
    | some ⟨req, .call (call, history) _⟩ =>
      (call.written req.operation history s.db).all fun w =>
        w.updates.status.join.all fun target => tasks.zipIdx.all fun other =>
          other.2 = t || match other.1.rest with
            | .call (call', history') _ =>
              (other.1.request.operation.aboutToStore call' history').all fun next =>
                next.2 = target || canTransition target next.2
            | _ => true
    | _ => true

theorem followsOn_of_leavesFollowing {s : AgreementStore}
    {tasks : List (AgreementTask statusTraffic)}
    {m : Move (Served statusTraffic)} (h : leavesFollowing s tasks m = true) :
    FollowsOn (Calls.begun s tasks)
      (m.label (interleaving F statusTraffic) .answer tasks) := by
  cases m with
  | start req => trivial
  | next t =>
      intro req call history cont hk w hw target hstatus _ t' req' call' history' cont' hne hk' key
        target' habout _
      have htask : tasks[t]? = some ⟨req, .call (call, history) cont⟩ := hk
      have hother : (⟨req', .call (call', history') cont'⟩, t') ∈ tasks.zipIdx :=
        List.mem_zipIdx_iff_getElem?.mpr hk'
      simp only [leavesFollowing, htask, List.all_eq_true] at h
      have hall := h w hw
      rw [hstatus, Option.join_some, Option.all_some] at hall
      have hnext := List.all_eq_true.mp hall _ hother
      simpa [hne, habout] using hnext

/-- Where the cancellation comes second, it follows on the activation. -/
theorem status_changes_on_edges_cancelled :
    ∃ c, ((interleavingSystem exactArithmetic statusTraffic).restrict
        FollowsOn).Reachable c ∧ c.shared.OnEdges ∧
      c.shared.db.agreements.map Agreement.status = [some "cancelled"] := by
  have hrun : (playFrom exactArithmetic _ leavesFollowing fundedStore
      (activateAndCancel (List.replicate 6 0 ++ List.replicate 6 1 ++ List.replicate 6 0 ++
        List.replicate 6 1))).map (fun state => state.1.db.agreements.map Agreement.status) =
      some [some "cancelled"] := by decide +kernel
  obtain ⟨state, hstate, hstatuses⟩ := Option.map_eq_some_iff.mp hrun
  have hreach : ((interleavingSystem exactArithmetic statusTraffic).restrict
      FollowsOn).Reachable (Calls.begun state.1 state.2) :=
    reachable_playFrom trivial rfl (fun _ _ _ => followsOn_of_leavesFollowing) hstate
  exact ⟨_, hreach, status_changes_on_edges exactArithmetic hreach, hstatuses⟩

/-- Where it comes first, the activation overwrites a terminal status. -/
theorem not_status_changes_on_edges :
    ¬ ∀ c, (interleavingSystem exactArithmetic statusTraffic).Reachable c →
      c.shared.OnEdges := by
  intro hall
  have hrun : ((playFrom exactArithmetic _ (fun _ _ _ => true) fundedStore
      (activateAndCancel (List.replicate 6 0 ++ List.replicate 6 1 ++ List.replicate 6 1 ++
        List.replicate 6 0))).any fun state => state.1.writes.any fun w =>
      w.before.status = some "cancelled" && w.after.status = some "active") = true := by decide +kernel
  obtain ⟨state, hstate, hlost⟩ := (Option.any_eq_true _ _).mp hrun
  obtain ⟨w, hw, hlost⟩ := List.any_eq_true.mp hlost
  obtain ⟨hbefore, hafter⟩ := Bool.and_eq_true_iff.mp hlost
  have hreach := reachable_playAll trivial rfl hstate
  have hkept := (hall _ hreach).terminal w hw .cancelled (of_decide_eq_true hbefore) rfl
  rw [of_decide_eq_true hbefore, of_decide_eq_true hafter] at hkept
  revert hkept
  decide

end TwoChanges

end ThalosBackend.Agreements
