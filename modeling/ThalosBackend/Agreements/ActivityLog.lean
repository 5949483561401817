import ThalosBackend.Agreements.AccessRule
import ThalosBackend.Agreements.SyncOutcome
import ThalosBackend.Webhooks.WebhooksService

/-!
# The activity log and the status

Whoever changes the status of an agreement writes a row to `agreement_activity`. The rows about the
status are replayed in their order, from the status of a new agreement: each has to start from the
status reached so far, and its `new_state` is the next one.

`updateStatus` and `applyStatusChange` write rows that can be replayed. A webhook and a sync write the
status too, and their rows have neither a `previous_state` nor a `new_state`.
-/

set_option autoImplicit false

namespace ThalosBackend.Agreements

open Js (FloatArithmetic Timestamp Value nonEmpty)
open Calls (ask Ensures LeadsTo)

/-! ## Replaying changes -/

section Replay

variable {γ : Type} [DecidableEq γ]

/-- Follow changes, each from the value it says it starts from; `none` when one of them starts
elsewhere. -/
def replay (value : γ) : List (γ × γ) → Option γ
  | [] => some value
  | (source, target) :: rest => if source = value then replay target rest else none

/-- One more change, from where the others ended. -/
theorem replay_concat {value reached target : γ} {changes : List (γ × γ)}
    (h : replay value changes = some reached) :
    replay value (changes ++ [(reached, target)]) = some target := by
  induction changes generalizing value with
  | nil =>
      cases h
      simp [replay]
  | cons change rest ih =>
      obtain ⟨source, next⟩ := change
      rw [replay] at h
      by_cases hsource : source = value
      · rw [if_pos hsource] at h
        rw [List.cons_append, replay, if_pos hsource]
        exact ih h
      · rw [if_neg hsource] at h
        cases h

end Replay

/-! ## The rows about the status -/

/-- The actions that the writers of the status log it under. -/
def statusActions : List String :=
  ["status_changed_to_", "webhook_status_changed_to_", "sync_pulled_from_tw"]

/-- The action begins like one of these. -/
def isStatusAction (action : String) : Bool :=
  statusActions.any fun start => start.toList.isPrefixOf action.toList

/-- The row is about a change of the status. -/
def Activity.recordsStatus (row : Activity) : Bool := isStatusAction row.action

/-- The change that the row tells of. -/
def Activity.change (row : Activity) : Option String × Option String :=
  (row.previousState, row.newState)

namespace AgreementDb

/-- The ids and the statuses. -/
def statuses (db : AgreementDb) : List (String × Option String) :=
  db.agreements.map fun a => (a.id, a.status)

/-- The rows about statuses, in their order. -/
def statusLog (db : AgreementDb) : List Activity := db.activity.filter Activity.recordsStatus

end AgreementDb

/-- The changes that a log tells of one agreement. -/
def changesOf (log : List Activity) (agreementId : String) : List (Option String × Option String) :=
  (log.filter fun row => row.agreementId = agreementId).map Activity.change

/-- Each agreement has the status that its rows lead to, from the status of a new agreement. -/
def LogExplains (db : AgreementDb) : Prop :=
  ∀ a ∈ db.agreements, replay (some "pending") (changesOf db.statusLog a.id) = some a.status

instance (db : AgreementDb) : Decidable (LogExplains db) :=
  inferInstanceAs (Decidable (∀ a ∈ db.agreements, _))

/-! ## Who writes the status -/

/-- The options of `applyStatusChange`. -/
structure StatusChangeOptions where
  fromStatus : Option String := none
  enforceTransition : Bool := false
  activityDetails : List (String × Value) := []

/-- `applyStatusChange(agreementId, actorWallet, toStatus, options)`, with every option. -/
def applyStatusChangeWith (now : Timestamp) (agreementId actorWallet toStatus : String)
    (options : StatusChangeOptions) : AgreementProgram StatusChangeResult := do
  match ← ask (AgreementCall.getAgreement agreementId) with
  | .error e => return { success := false, error := some e.message }
  | .ok current =>
    let fromStatus := options.fromStatus <|> current.status
    match ← Calls.ofExcept
        (enforced options.enforceTransition (statusText fromStatus) toStatus) with
    | some reason => return { success := false, error := some reason }
    | none =>
      match ← ask (AgreementCall.updateAgreement agreementId (statusUpdates now toStatus)) with
      | .error e => return { success := false, error := some e.message }
      | .ok () =>
        logActivity
          (statusActivity agreementId actorWallet fromStatus toStatus options.activityDetails)
        emitStatus now current agreementId actorWallet toStatus
        return { success := true, error := none, fromStatus }

/-- What creates an agreement or writes its status. -/
inductive StatusRequest where
  | create (userId : String) (dto : CreateAgreementDto)
  | updateStatus (userId agreementId : String) (dto : UpdateAgreementStatusDto)
  | applyStatusChange (agreementId actorWallet toStatus : String) (options : StatusChangeOptions)
  | webhook (payload : Value)
  | sync (agreementId : String) (fetch : Fetch)
  | syncStatusTransition (agreementId fromStatus toStatus : String)

/-- The operation behind a request. -/
def StatusRequest.program (F : FloatArithmetic) (now : Timestamp) :
    StatusRequest → AgreementProgram Unit
  | .create userId dto => Agreements.create F userId dto >>= fun _ => .done ()
  | .updateStatus userId agreementId dto =>
      Agreements.updateStatus now userId agreementId dto >>= fun _ => .done ()
  | .applyStatusChange agreementId actorWallet toStatus options =>
      applyStatusChangeWith now agreementId actorWallet toStatus options >>= fun _ => .done ()
  | .webhook payload => Webhooks.handleEvent now payload
  | .sync agreementId fetch => doSync now agreementId fetch >>= fun _ => .done ()
  | .syncStatusTransition agreementId fromStatus toStatus =>
      Agreements.syncStatusTransition now agreementId fromStatus toStatus >>= fun _ => .done ()

/-- Every agreement is as it was created, and nothing is logged about its status. -/
structure AsCreated (db : AgreementDb) : Prop where
  ids : Table.Unique Agreement.id db.agreements
  pending : ∀ a ∈ db.agreements, a.status = some "pending"
  unlogged : db.statusLog = []

/-- The requests one after the other, every query answered. -/
def statusSystem (F : FloatArithmetic) : StepSystem AgreementDb (Timestamp × StatusRequest) where
  init := AsCreated
  step db request db' := ∃ out, Calls.Runs Answers (request.2.program F request.1) db out db'

/-! ## When a request keeps to the log -/

/-- A webhook with this payload changes the status of an agreement. -/
def webhookChanges (db : AgreementDb) (payload : Value) : Bool :=
  match (payload.field "event").toText.bind Webhooks.twEventMap,
      (payload.field "contractId").toText with
  | some (.statusUpdate target), some contractId =>
    (Table.sole (db.byContract contractId)).any fun a =>
      canTransition (statusText a.status) target.text
  | _, _ => false

/-- A sync of the agreement takes its status from Trustless Work. -/
def pullsStatus (db : AgreementDb) (agreementId : String) (fetch : Fetch) : Bool :=
  (db.agreementAt agreementId).any fun a => (nonEmpty a.contractId).any fun contractId =>
    let escrow := fetchTrustlessEscrow contractId fetch
    escrow.truthy && directionOf escrow a = some .twToThalos

/-- The status is not changed by a webhook or a sync, and a caller of `applyStatusChange` that names a
status to come from names the one the agreement has. -/
def keepsToLog (db : AgreementDb) : StatusRequest → Bool
  | .applyStatusChange agreementId _ _ options => (db.agreementAt agreementId).all fun a =>
      (options.fromStatus <|> a.status) = a.status
  | .webhook payload => !webhookChanges db payload
  | .sync agreementId fetch => !pullsStatus db agreementId fetch
  | _ => true

/-! ## Programs that keep the log -/

/-- The invariant of a run: the log explains the statuses and tells of no other agreements. -/
structure Logged (statuses : List (String × Option String)) (log : List Activity) : Prop where
  ids : (statuses.map Prod.fst).Nodup
  known : ∀ row ∈ log, row.agreementId ∈ statuses.map Prod.fst
  explained : ∀ row ∈ statuses, replay (some "pending") (changesOf log row.1) = some row.2

section Logged

variable {statuses : List (String × Option String)} {log : List Activity}

theorem changesOf_concat (row : Activity) (agreementId : String) :
    changesOf (log ++ [row]) agreementId = changesOf log agreementId ++
      if row.agreementId = agreementId then [row.change] else [] := by
  rw [changesOf, List.filter_append, List.map_append, changesOf]
  by_cases hid : row.agreementId = agreementId
  · simp [hid]
  · simp [hid]

theorem changesOf_eq_nil (h : Logged statuses log) {id : String}
    (hid : id ∉ statuses.map Prod.fst) : changesOf log id = [] := by
  rw [changesOf, List.map_eq_nil_iff, List.filter_eq_nil_iff]
  intro row hrow heq
  exact hid (of_decide_eq_true heq ▸ h.known row hrow)

/-- A new agreement, of which nothing is logged. -/
theorem Logged.created (h : Logged statuses log) {id : String} (hid : id ∉ statuses.map Prod.fst) :
    Logged (statuses ++ [(id, some "pending")]) log where
  ids := by
    rw [List.map_append, List.nodup_append]
    refine ⟨h.ids, List.nodup_singleton _, ?_⟩
    rintro _ hmem _ hnew rfl
    rw [List.mem_singleton.mp hnew] at hmem
    exact hid hmem
  known row hrow := by
    rw [List.map_append]
    exact List.mem_append_left _ (h.known row hrow)
  explained row hrow := by
    rcases List.mem_append.mp hrow with hold | hnew
    · exact h.explained row hold
    · rw [List.mem_singleton.mp hnew, changesOf_eq_nil h hid]
      rfl

/-- A change of one status, logged from the status it had. -/
theorem Logged.changed (h : Logged statuses log) (row : Activity) {status : Option String}
    (hmem : (row.agreementId, status) ∈ statuses) (hprevious : row.previousState = status) :
    Logged (statuses.map fun r => (r.1, if r.1 = row.agreementId then row.newState else r.2))
      (log ++ [row]) := by
  have hfst : (statuses.map fun r => (r.1, if r.1 = row.agreementId then row.newState else r.2)).map
      Prod.fst = statuses.map Prod.fst := by
    rw [List.map_map]
    rfl
  refine ⟨hfst ▸ h.ids, fun entry hentry => ?_, fun changed hchanged => ?_⟩
  · rw [hfst]
    rcases List.mem_append.mp hentry with hold | hnew
    · exact h.known entry hold
    · rw [List.mem_singleton.mp hnew]
      exact List.mem_map.mpr ⟨_, hmem, rfl⟩
  · obtain ⟨r, hr, rfl⟩ := List.mem_map.mp hchanged
    have hold := h.explained r hr
    dsimp only
    rw [changesOf_concat]
    by_cases hid : r.1 = row.agreementId
    · -- the ids are different, so this is the agreement the row is about
      have hr : r = (row.agreementId, status) := by
        have hpairs := List.inj_on_of_nodup_map h.ids
        exact hpairs hr hmem hid
      rw [if_pos hid.symm, if_pos hid, Activity.change, hprevious]
      rw [hr] at hold ⊢
      exact replay_concat hold
    · rw [if_neg (Ne.symm hid), if_neg hid, List.append_nil]
      exact hold

end Logged

/-- The call leaves the statuses and their log alone. -/
def AgreementCall.keepsLog : AgreementCall → Bool
  | .insertActivity row => !row.recordsStatus
  | .updateAgreement _ updates | .updateByContract _ updates => updates.status = none
  | c => c.isQuiet

/-- The statuses and their log are the same. -/
structure SameLog (db db' : AgreementDb) : Prop where
  statuses : db'.statuses = db.statuses
  statusLog : db'.statusLog = db.statusLog

theorem SameLog.refl (db : AgreementDb) : SameLog db db := ⟨rfl, rfl⟩

/-- The log explains the statuses of the store. -/
def AgreementDb.logged (db : AgreementDb) : Prop := Logged db.statuses db.statusLog

section Keeps

variable {db db' : AgreementDb}

theorem SameLog.logged (h : SameLog db db') (hlogged : db.logged) : db'.logged := by
  rw [AgreementDb.logged, h.statuses, h.statusLog]
  exact hlogged

/-- An update without a status. -/
theorem statuses_updateAgreements {p : Agreement → Bool} {updates : AgreementUpdates}
    (h : updates.status = none) : (db.updateAgreements p updates).statuses = db.statuses := by
  rw [AgreementDb.statuses, AgreementDb.updateAgreements, Table.updateWhere, List.map_map]
  refine List.map_congr_left fun a _ => ?_
  by_cases hp : p a = true
  · simp [hp, h]
  · simp [hp]

/-- An update by id with a status. -/
theorem statuses_updateAgreements_id (db : AgreementDb) (id : String) {updates : AgreementUpdates}
    {status : Option String} (h : updates.status = some status) :
    (db.updateAgreements (fun a => a.id = id) updates).statuses =
      db.statuses.map fun r => (r.1, if r.1 = id then status else r.2) := by
  rw [AgreementDb.statuses, AgreementDb.updateAgreements, Table.updateWhere, AgreementDb.statuses,
    List.map_map, List.map_map]
  refine List.map_congr_left fun a _ => ?_
  by_cases hid : a.id = id
  · simp [hid, h]
  · simp [hid]

/-- A row about something else. -/
theorem statusLog_concat_of_not {row : Activity} (h : row.recordsStatus = false) :
    ({ db with activity := db.activity ++ [row] } : AgreementDb).statusLog = db.statusLog := by
  rw [AgreementDb.statusLog, List.filter_append, AgreementDb.statusLog]
  simp [h]

theorem statusLog_concat (db : AgreementDb) {row : Activity} (h : row.recordsStatus = true) :
    ({ db with activity := db.activity ++ [row] } : AgreementDb).statusLog =
      db.statusLog ++ [row] := by
  rw [AgreementDb.statusLog, List.filter_append, AgreementDb.statusLog]
  simp [h]

theorem Answers.sameLog {c : AgreementCall} {x : c.reply} (h : Answers c db x db')
    (hkeeps : c.keepsLog = true) : SameLog db db' := by
  cases c with
  | insertActivity row =>
      obtain ⟨-, rfl⟩ := h
      exact ⟨rfl, statusLog_concat_of_not (by simpa [AgreementCall.keepsLog] using hkeeps)⟩
  | updateAgreement id updates =>
      obtain ⟨-, rfl⟩ := h
      exact ⟨statuses_updateAgreements (of_decide_eq_true hkeeps), rfl⟩
  | updateByContract contractId updates =>
      obtain ⟨-, rfl⟩ := h
      exact ⟨statuses_updateAgreements (of_decide_eq_true hkeeps), rfl⟩
  | wallet c =>
      obtain ⟨wallet, -, rfl⟩ := h
      exact ⟨rfl, rfl⟩
  | insertParticipants rows =>
      obtain ⟨-, rfl⟩ := h
      exact ⟨rfl, rfl⟩
  | emit event =>
      obtain ⟨-, rfl⟩ := h
      exact ⟨rfl, rfl⟩
  | background work =>
      obtain ⟨-, rfl⟩ := h
      exact ⟨rfl, rfl⟩
  | findAgreement id => exact h.2 ▸ .refl db
  | getAgreement id => exact h.2 ▸ .refl db
  | findByContract contractId => exact h.2 ▸ .refl db
  | findParticipant agreementId wallets => exact h.2 ▸ .refl db
  | listParticipants agreementId => exact h.2 ▸ .refl db
  | findLiveDispute agreementId => exact h.2 ▸ .refl db
  | findDispute id => exact h.2 ▸ .refl db
  | _ => cases hkeeps

/-- A program of calls that keep the log. -/
abbrev KeepsLog {α : Type} (p : AgreementProgram α) : Prop :=
  Calls.Only (fun c : AgreementCall => c.keepsLog = true) p

/-- Whatever such a program does, the log explains the statuses as before. -/
theorem KeepsLog.ensures {α : Type} {p : AgreementProgram α} (h : KeepsLog p) (hlogged : db.logged) :
    Ensures Answers p db fun _ db' => db'.logged :=
  Calls.Only.ensures h (fun _ _ _ _ hkeeps hI hanswers => (hanswers.sameLog hkeeps).logged hI)
    hlogged fun _ _ hI => hI

/-- A row under another action. -/
theorem logActivity_keepsLog {row : Activity} (action : String) (haction : row.action = action)
    (h : isStatusAction action = false) : KeepsLog (logActivity row) := by
  apply Calls.only_ask
  · rw [AgreementCall.keepsLog, Activity.recordsStatus, haction, h]
    rfl
  · exact fun _ => Calls.only_done _

theorem emit_keepsLog (event : AgreementEvent) : KeepsLog (emit event) :=
  Calls.only_ask rfl fun _ => Calls.only_done _

theorem inBackground_keepsLog (work : BackgroundWork) : KeepsLog (inBackground work) :=
  Calls.only_ask rfl fun _ => Calls.only_done _

theorem emitStatus_keepsLog (now : Timestamp) (a : Agreement) (agreementId wallet toStatus : String) :
    KeepsLog (emitStatus now a agreementId wallet toStatus) := by
  rw [emitStatus]
  cases statusEvent now a agreementId wallet toStatus with
  | none => exact Calls.only_done _
  | some event => exact emit_keepsLog event

/-- The row that tells of the change of a status. -/
theorem statusActivity_recordsStatus (agreementId wallet : String) (source : Option String)
    (target : String) (details : List (String × Value)) :
    (statusActivity agreementId wallet source target details).recordsStatus = true := by
  simp [Activity.recordsStatus, isStatusAction, statusActions, statusActivity, String.toList_append]

/-- The change of one status and its row, together. -/
theorem logged_changed {agreementId wallet target : String} {details : List (String × Value)}
    {now : Timestamp} {a : Agreement} (hlogged : db.logged) (ha : db.agreementAt agreementId = some a) :
    AgreementDb.logged { db.updateAgreements (fun b => b.id = agreementId) (statusUpdates now target) with
      activity := db.activity ++ [statusActivity agreementId wallet a.status target details] } := by
  obtain ⟨hmem, hid⟩ := mem_of_agreementAt ha
  have hlog := statusLog_concat
    (db.updateAgreements (fun b => b.id = agreementId) (statusUpdates now target))
    (statusActivity_recordsStatus agreementId wallet a.status target details)
  have hstatuses : (db.updateAgreements (fun b => b.id = agreementId)
      (statusUpdates now target)).statuses =
        db.statuses.map fun r => (r.1, if r.1 = agreementId then some target else r.2) :=
    statuses_updateAgreements_id db agreementId rfl
  have hrow : (agreementId, a.status) ∈ db.statuses :=
    List.mem_map.mpr ⟨a, hmem, by rw [hid]⟩
  have hchanged := Logged.changed hlogged
    (statusActivity agreementId wallet a.status target details) hrow rfl
  rw [AgreementDb.logged]
  exact hlog ▸ hstatuses ▸ hchanged

/-- The row of the log comes before what follows. -/
theorem answered_logRow {α : Type} {row : Activity} {f : Unit → AgreementProgram α}
    {Q : Except HttpException α → AgreementDb → Prop}
    (h : Ensures Answers (f ()) { db with activity := db.activity ++ [row] } Q) :
    Ensures Answers (logActivity row >>= f) db Q := by
  refine Calls.ensures_bind.mpr fun x db' hx => ⟨fun _ _ => ?_, fun e he => by cases he⟩
  obtain ⟨-, rfl⟩ := hx
  exact h

/-! ## The operations -/

/-- `updateStatus` logs the change it makes. -/
theorem updateStatus_logged {now : Timestamp} {userId agreementId : String}
    {dto : UpdateAgreementStatusDto} (hlogged : db.logged) :
    LeadsTo Answers AgreementDb.logged (updateStatus now userId agreementId dto) db := by
  refine ⟨?_⟩
  apply Calls.ensures_bind.mpr
  refine (Ensures.of_exec assertCanAccessAgreement_own Answers.executes).mono ?_
  rintro access db₁ ⟨rfl, -⟩
  refine ⟨fun _ _ => ?_, fun _ _ => hlogged⟩
  apply Calls.ensures_bind.mpr
  refine (Ensures.of_exec assertActorWallet_own Answers.executes).mono ?_
  rintro actor db₂ ⟨rfl, -⟩
  refine ⟨fun _ _ => ?_, fun _ _ => hlogged⟩
  refine answered_getAgreement (fun a ha => ?_) fun _ e => hlogged
  apply Calls.ensures_bind.mpr
  refine Calls.ensures_ofExcept.mpr ⟨fun refused _ => ?_, fun _ _ => hlogged⟩
  cases refused with
  | some reason => exact hlogged
  | none =>
      dsimp only
      split
      · exact hlogged
      · refine Calls.ensures_ask fun x db₃ hx => ?_
        obtain ⟨rfl, rfl⟩ := hx
        refine answered_logRow (KeepsLog.ensures ?_ (logged_changed hlogged ha))
        apply (inBackground_keepsLog _).bind
        intro _
        apply (emitStatus_keepsLog _ _ _ _ _).bind
        exact fun _ => Calls.only_done _

/-- `applyStatusChange` logs the change it makes, if it names the status the agreement has. -/
theorem applyStatusChangeWith_logged {now : Timestamp} {agreementId wallet toStatus : String}
    {options : StatusChangeOptions} (hlogged : db.logged)
    (hfrom : ∀ a, db.agreementAt agreementId = some a →
      (options.fromStatus <|> a.status) = a.status) :
    LeadsTo Answers AgreementDb.logged
      (applyStatusChangeWith now agreementId wallet toStatus options) db := by
  refine ⟨?_⟩
  refine answered_getAgreement (fun a ha => ?_) fun _ e => hlogged
  dsimp only
  rw [hfrom a ha]
  apply Calls.ensures_bind.mpr
  refine Calls.ensures_ofExcept.mpr ⟨fun refused _ => ?_, fun _ _ => hlogged⟩
  cases refused with
  | some reason => exact hlogged
  | none =>
      refine Calls.ensures_ask fun x db₃ hx => ?_
      obtain ⟨rfl, rfl⟩ := hx
      refine answered_logRow (KeepsLog.ensures ?_ (logged_changed hlogged ha))
      apply (emitStatus_keepsLog _ _ _ _ _).bind
      exact fun _ => Calls.only_done _

/-- `create` adds a pending agreement, about whose status nothing is logged. -/
theorem create_logged {F : FloatArithmetic} {userId : String} {dto : CreateAgreementDto}
    (hlogged : db.logged) : LeadsTo Answers AgreementDb.logged (create F userId dto) db := by
  refine ⟨?_⟩
  have hmilestones : ∀ (id createdBy : String) (entries : List (Milestone × ℕ)),
      KeepsLog (logMilestonesCreated id createdBy entries) := by
    intro id createdBy entries
    induction entries with
    | nil => exact Calls.only_done _
    | cons entry rest ih =>
        exact (logActivity_keepsLog "milestone_created" rfl (by decide +kernel)).bind
          fun _ => ih
  have hafter : ∀ agreement : Agreement, KeepsLog (afterCreate dto agreement) := by
    intro agreement
    apply (logActivity_keepsLog "created" rfl (by decide +kernel)).bind
    intro _
    apply (hmilestones _ _ _).bind
    intro _
    apply (emit_keepsLog _).bind
    intro _
    split
    · exact (inBackground_keepsLog _).bind fun _ => Calls.only_done _
    · exact Calls.only_done _
  rw [create]
  cases validateAgreement F dto.input with
  | error e => exact hlogged
  | ok _ =>
      apply Calls.ensures_bind.mpr
      refine (Ensures.of_exec assertActorWallet_own Answers.executes).mono ?_
      rintro actor db₁ ⟨rfl, -⟩
      refine ⟨fun _ _ => ?_, fun _ _ => hlogged⟩
      refine Calls.ensures_ask fun x db₂ hx => ?_
      obtain ⟨id, created, hfresh, rfl, rfl⟩ := hx
      refine Calls.ensures_ask fun y db₃ hy => ?_
      obtain ⟨rfl, rfl⟩ := hy
      refine (hafter _).ensures ?_
      -- no row of the log is about a fresh id
      have hid : id ∉ db₁.statuses.map Prod.fst := by
        intro hmem
        obtain ⟨r, hr, rfl⟩ := List.mem_map.mp hmem
        obtain ⟨a, ha, rfl⟩ := List.mem_map.mp hr
        exact hfresh a ha rfl
      have hstatuses : (db₁.agreements ++ [dto.row.row id created]).map (fun a => (a.id, a.status)) =
          db₁.statuses ++ [(id, some "pending")] := List.map_append
      rw [AgreementDb.logged, AgreementDb.statuses, hstatuses]
      exact hlogged.created hid

theorem applyMilestoneUpdate_keepsLog (now : Timestamp) (payload : Value) (contractId : String) :
    KeepsLog (Webhooks.applyMilestoneUpdate now payload contractId) := by
  refine Calls.only_ask rfl fun found => ?_
  cases Wallets.Reply.data found with
  | none => exact Calls.only_done _
  | some a =>
      apply (Calls.only_ofExcept _).bind
      intro edited
      cases edited with
      | none => exact Calls.only_done _
      | some milestones =>
          refine Calls.only_ask rfl fun written => ?_
          cases written with
          | error e => exact Calls.only_fail _
          | ok _ => exact logActivity_keepsLog "webhook_milestone_updated" rfl (by decide +kernel)

theorem applyInfoUpdate_keepsLog (payload : Value) (contractId : String) :
    KeepsLog (Webhooks.applyInfoUpdate payload contractId) := by
  refine Calls.only_ask rfl fun found => ?_
  cases Wallets.Reply.data found with
  | none => exact Calls.only_done _
  | some a =>
      dsimp only
      split
      · rename_i event _
        refine logActivity_keepsLog ("webhook_event_" ++ Webhooks.replaceDot event) rfl ?_
        simp [isStatusAction, statusActions, String.toList_append, List.isPrefixOf]
      · exact Calls.only_fail _

/-- The status is written after a lookup that found nothing: there is no such agreement. -/
theorem writeStatus_logged {now : Timestamp} {payload : Value} {contractId : String}
    {target : AgreementStatus} (hlogged : db.logged) (hnone : db.byContract contractId = []) :
    Ensures Answers (Webhooks.writeStatus now payload contractId target) db fun _ db' => db'.logged := by
  have hmatched : db.agreements.filter (matchesStatusUpdate contractId target.text) = [] := by
    rw [List.filter_eq_nil_iff]
    intro a ha hmatches
    have hmem : a ∈ db.byContract contractId :=
      List.mem_filter.mpr ⟨ha, decide_eq_true (of_decide_eq_true hmatches).1⟩
    rw [hnone] at hmem
    cases hmem
  refine Calls.ensures_ask fun x db₁ hx => ?_
  simp only [Answers, hmatched] at hx
  obtain ⟨rfl, rfl⟩ := hx
  refine Calls.ensures_ask fun y db₂ hy => ?_
  obtain ⟨-, rfl⟩ := hy
  split
  · exact hlogged
  · exact hlogged

/-- A status event for a contract whose agreement may not move there. -/
theorem applyStatusUpdate_logged {now : Timestamp} {payload : Value} {contractId : String}
    {target : AgreementStatus} (hlogged : db.logged)
    (hkeeps : (Table.sole (db.byContract contractId)).any
      (fun a => canTransition (statusText a.status) target.text) = false) :
    Ensures Answers (Webhooks.applyStatusUpdate now payload contractId target) db
      fun _ db' => db'.logged := by
  refine Calls.ensures_ask fun x db₁ hx => ?_
  obtain ⟨rfl, rfl⟩ := hx
  rcases hrows : db₁.byContract contractId with _ | ⟨a, _ | ⟨b, rest⟩⟩
  · exact writeStatus_logged hlogged hrows
  · rw [hrows, Table.sole, Option.any_some] at hkeeps
    dsimp only [Wallets.maybeSingle]
    cases hvalid : validateTransition (statusText a.status) target.text with
    | ok _ =>
        rw [validateTransition_eq_ok, hkeeps] at hvalid
        cases hvalid
    | error reason =>
        exact (logActivity_keepsLog "webhook_transition_rejected" rfl (by decide +kernel)).ensures
          hlogged
  · exact hlogged

/-- A webhook that changes no status keeps the log. -/
theorem handleEvent_logged {now : Timestamp} {payload : Value} (hlogged : db.logged)
    (hkeeps : webhookChanges db payload = false) :
    LeadsTo Answers AgreementDb.logged (Webhooks.handleEvent now payload) db := by
  refine ⟨?_⟩
  rw [Webhooks.handleEvent]
  cases hevent : (payload.field "event").toText with
  | none => exact hlogged
  | some event =>
      cases hcontract : (payload.field "contractId").toText with
      | none => exact hlogged
      | some contractId =>
          dsimp only
          cases hconfig : Webhooks.twEventMap event with
          | none => exact hlogged
          | some config =>
              cases config with
              | statusUpdate target =>
                  rw [webhookChanges, hevent, hcontract, Option.bind_some, hconfig] at hkeeps
                  exact applyStatusUpdate_logged hlogged hkeeps
              | milestoneUpdate =>
                  exact (applyMilestoneUpdate_keepsLog now payload contractId).ensures hlogged
              | info => exact (applyInfoUpdate_keepsLog payload contractId).ensures hlogged
              | _ => exact hlogged

theorem logSyncActivity_keepsLog {now : Timestamp} {agreementId action : String}
    {details : List (String × Value)} (h : isStatusAction ("sync_" ++ action) = false) :
    KeepsLog (logSyncActivity now agreementId action details) :=
  logActivity_keepsLog _ rfl h

/-- A sync with an escrow that is not ahead. -/
theorem syncWith_keepsLog {now : Timestamp} {a : Agreement} {contractId : String} {escrow : Value}
    (hkeeps : directionOf escrow a ≠ some .twToThalos) :
    KeepsLog (syncWith now a contractId escrow) := by
  rw [syncWith]
  rw [directionOf, mappedStatus] at hkeeps
  cases htext : (escrow.field "status").toText with
  | none => exact Calls.only_fail _
  | some text =>
      rw [htext] at hkeeps
      dsimp only
      cases hside : syncDirection (a.status.getD "pending")
          (twToThalosStatus text (escrow.field "status")) with
      | alreadyInSync =>
          apply (logSyncActivity_keepsLog (by decide +kernel)).bind
          exact fun _ => Calls.only_done _
      | thalosToTw =>
          apply (logSyncActivity_keepsLog (by decide +kernel)).bind
          exact fun _ => Calls.only_done _
      | twToThalos => exact absurd (congrArg some hside) hkeeps

/-- A sync that pulls no status keeps the log. -/
theorem doSync_logged {now : Timestamp} {agreementId : String} {fetch : Fetch} (hlogged : db.logged)
    (hkeeps : pullsStatus db agreementId fetch = false) :
    LeadsTo Answers AgreementDb.logged (doSync now agreementId fetch) db := by
  refine ⟨?_⟩
  refine answered_getAgreement (fun a ha => ?_) fun _ e => hlogged
  dsimp only
  cases hcontract : nonEmpty a.contractId with
  | none => exact hlogged
  | some contractId =>
      dsimp only
      rw [pullsStatus, ha, Option.any_some, hcontract, Option.any_some] at hkeeps
      split
      · rename_i htruthy
        dsimp only at hkeeps
        rw [htruthy, Bool.true_and, decide_eq_false_iff_not] at hkeeps
        exact (syncWith_keepsLog hkeeps).ensures hlogged
      · apply KeepsLog.ensures _ hlogged
        apply (logSyncActivity_keepsLog (by decide +kernel)).bind
        exact fun _ => Calls.only_done _

theorem syncStatusTransition_keepsLog (now : Timestamp) (agreementId fromStatus toStatus : String) :
    KeepsLog (syncStatusTransition now agreementId fromStatus toStatus) := by
  apply (Calls.only_ofExcept _).bind
  intro refused
  cases refused with
  | some reason =>
      apply (logSyncActivity_keepsLog (by decide +kernel)).bind
      exact fun _ => Calls.only_done _
  | none =>
      refine Calls.only_ask rfl fun found => ?_
      cases found with
      | error e => exact Calls.only_done _
      | ok a =>
          apply (emitStatus_keepsLog _ _ _ _ _).bind
          intro _
          apply (logSyncActivity_keepsLog (by decide +kernel)).bind
          exact fun _ => Calls.only_done _

end Keeps

/-! ## Runs -/

section Runs

variable {F : FloatArithmetic} {db db' : AgreementDb} {request : Timestamp × StatusRequest}

/-- **Step lemma.** A request that keeps to the log leaves a log that explains the statuses. -/
theorem logged_step (hlogged : db.logged) (hkeeps : keepsToLog db request.2 = true)
    (hstep : (statusSystem F).step db request db') : db'.logged := by
  obtain ⟨out, hrun⟩ := hstep
  suffices hall : LeadsTo Answers AgreementDb.logged (request.2.program F request.1) db from
    hall.of_runs hrun
  obtain ⟨now, req⟩ := request
  cases req with
  | create userId dto => exact (create_logged hlogged).wrapped _
  | updateStatus userId agreementId dto => exact (updateStatus_logged hlogged).wrapped _
  | applyStatusChange agreementId actorWallet toStatus options =>
      refine (applyStatusChangeWith_logged hlogged fun a ha => ?_).wrapped _
      rw [keepsToLog, ha, Option.all_some] at hkeeps
      exact of_decide_eq_true hkeeps
  | webhook payload =>
      rw [keepsToLog, Bool.not_eq_true'] at hkeeps
      exact handleEvent_logged hlogged hkeeps
  | sync agreementId fetch =>
      rw [keepsToLog, Bool.not_eq_true'] at hkeeps
      exact (doSync_logged hlogged hkeeps).wrapped _
  | syncStatusTransition agreementId fromStatus toStatus =>
      have hleads : LeadsTo Answers AgreementDb.logged
          (syncStatusTransition now agreementId fromStatus toStatus) db :=
        ⟨(syncStatusTransition_keepsLog _ _ _ _).ensures hlogged⟩
      exact hleads.wrapped _

theorem AsCreated.logged (h : AsCreated db) : db.logged where
  ids := by
    have hids : db.statuses.map Prod.fst = db.agreements.map Agreement.id := List.map_map
    rw [hids]
    exact h.ids
  known row hrow := by
    rw [h.unlogged] at hrow
    cases hrow
  explained row hrow := by
    obtain ⟨a, ha, rfl⟩ := List.mem_map.mp hrow
    rw [h.unlogged, h.pending a ha]
    rfl

/-- **The log explains the status.** In every run whose webhooks and syncs change no status, and whose
callers of `applyStatusChange` name no other status than the agreement has, the log explains the status
of every agreement. -/
theorem log_explains
    (h : ((statusSystem F).restrict fun db request => keepsToLog db request.2 = true).Reachable db) :
    LogExplains db := by
  have hlogged : db.logged := by
    apply StepSystem.invariant_of_steps (I := AgreementDb.logged) _ _ h
    · intro db hinit
      exact AsCreated.logged hinit
    · intro db request db' _ hlogged hstep
      exact logged_step hlogged hstep.1 hstep.2
  intro a ha
  exact hlogged.explained _ (List.mem_map_of_mem ha)

end Runs

/-- A store with one pending agreement of `payer`, linked to the contract `C`. -/
def pendingStore : AgreementDb :=
  storeWith twoParties [(sampleDto "10" (some "C") splitTen).row.row "i" 0] []

theorem asCreated_pendingStore : AsCreated pendingStore :=
  ⟨List.nodup_singleton _, by decide, rfl⟩

/-- The request on the answering database. -/
def StatusRequest.run (request : StatusRequest) (db : AgreementDb) : AgreementDb :=
  (Calls.run (fun c db => db.answer c) (request.program exactArithmetic 1) db).2

theorem StatusRequest.step_run (request : StatusRequest) (db : AgreementDb) :
    (statusSystem exactArithmetic).step db (1, request) (request.run db) :=
  ⟨_, Calls.runs_run (fun c db => db.answers_answer c) _ db⟩

/-- The parties fund the agreement. -/
def fundRequest : StatusRequest := .updateStatus "payer" "i" ⟨.funded, "P"⟩

theorem log_explains_funding : LogExplains (fundRequest.run pendingStore) := by
  apply log_explains (F := exactArithmetic)
  exact .step (.init asCreated_pendingStore) ⟨rfl, fundRequest.step_run pendingStore⟩

/-- Trustless Work reports the funding. -/
def fundedWebhook : StatusRequest :=
  .webhook (.object [("event", .string "escrow.funded"), ("contractId", .string "C")])

/-- The row of a webhook does not say what changed. -/
theorem not_log_explains :
    ¬ ∀ db, (statusSystem exactArithmetic).Reachable db → LogExplains db := by
  intro h
  have hexplains := h _ (.step (.init asCreated_pendingStore) (fundedWebhook.step_run pendingStore))
  exact absurd hexplains (by decide +kernel)

end ThalosBackend.Agreements
