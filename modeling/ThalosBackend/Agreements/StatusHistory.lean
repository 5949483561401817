import ThalosBackend.Agreements.AgreementRuns
import ThalosBackend.Agreements.AnsweredQueries

/-!
# The history of statuses, beside the events

A store is followed together with every change of a status that was committed, the row as it was then.
Reaching `funded` is to be announced by one event, and so is reaching `completed` or `resolved`:
`Owing` says that the events are those of the changes so far, in their order, except for some that are
still owed. A program that `Settles` starts with nothing owed and ends so.
-/

set_option autoImplicit false

namespace ThalosBackend.Agreements

open Js (Timestamp)
open Calls (ask Ensures)

/-! ## Announcements -/

/-- The events about a status. -/
inductive StatusEvent where
  | funded
  | completed
  deriving DecidableEq

namespace StatusEvent

/-- The event of a status. -/
def ofStatus : Option String → Option StatusEvent
  | none => none
  | some status =>
    if status = "funded" then some .funded
    else if status = "completed" ∨ status = "resolved" then some .completed
    else none

/-- The column with the time of the event. -/
def stamp : StatusEvent → Agreement → Option Timestamp
  | .funded, a => a.fundedAt
  | .completed, a => a.completedAt

end StatusEvent

/-- What an event announces, and of which agreement. -/
def AgreementEvent.announced : AgreementEvent → Option (StatusEvent × String)
  | .funded agreementId _ _ _ _ => some (.funded, agreementId)
  | .completed agreementId _ _ _ _ => some (.completed, agreementId)
  | _ => none

/-- What is to be announced of a row that has changed its status. -/
def Agreement.announcement (a : Agreement) : Option (StatusEvent × String) :=
  (StatusEvent.ofStatus a.status).map fun kind => (kind, a.id)

/-- The time of the event is the time of the change. -/
def Agreement.Stamped (a : Agreement) : Prop :=
  ∀ kind, StatusEvent.ofStatus a.status = some kind → kind.stamp a = some a.updatedAt

/-! ## Histories -/

/-- A store and the changes of a status so far: every row that got one, as it was then. -/
structure StatusHistory where
  db : AgreementDb
  changes : List Agreement

/-- The rows that have another status. -/
def statusChanges (db db' : AgreementDb) : List Agreement :=
  (db.agreements.zip db'.agreements).filterMap fun (a, a') =>
    if a.id = a'.id ∧ a.status ≠ a'.status then some a' else none

/-- A query is answered, and the changes it commits are noted. -/
def Records (c : AgreementCall) (s : StatusHistory) (x : c.reply) (s' : StatusHistory) : Prop :=
  Answers c s.db x s'.db ∧ s'.changes = s.changes ++ statusChanges s.db s'.db

section Changes

variable {db : AgreementDb} {p : Agreement → Bool} {updates : AgreementUpdates}

theorem statusChanges_same {db' : AgreementDb} (h : db'.agreements = db.agreements) :
    statusChanges db db' = [] := by
  have hrows : ∀ rows : List Agreement, ((rows.zip rows).filterMap fun (a, a') =>
      if a.id = a'.id ∧ a.status ≠ a'.status then some a' else none) = [] := by
    intro rows
    induction rows with
    | nil => rfl
    | cons a rest ih => simp [ih]
  rw [statusChanges, h]
  exact hrows db.agreements

/-- Rows that are added have not changed. -/
theorem statusChanges_append (rows : List Agreement) :
    statusChanges db { db with agreements := db.agreements ++ rows } = [] := by
  have hrows : ∀ old : List Agreement, ((old.zip (old ++ rows)).filterMap fun (a, a') =>
      if a.id = a'.id ∧ a.status ≠ a'.status then some a' else none) = [] := by
    intro old
    induction old with
    | nil => rfl
    | cons a rest ih => simp [ih]
  exact hrows db.agreements

/-- What an update changes, row by row. -/
theorem statusChanges_updateAgreements : statusChanges db (db.updateAgreements p updates) =
    (db.agreements.filter p).filterMap fun a =>
      if a.status ≠ (a.apply updates).status then some (a.apply updates) else none := by
  have hrows : ∀ rows : List Agreement,
      ((rows.zip (Table.updateWhere p (Agreement.apply updates) rows)).filterMap fun (a, a') =>
        if a.id = a'.id ∧ a.status ≠ a'.status then some a' else none) =
      (rows.filter p).filterMap fun a =>
        if a.status ≠ (a.apply updates).status then some (a.apply updates) else none := by
    intro rows
    induction rows with
    | nil => rfl
    | cons a rest ih =>
        rw [Table.updateWhere, List.map_cons, ← Table.updateWhere, List.zip_cons_cons]
        cases hp : p a with
        | false => simp [hp, ih]
        | true =>
            by_cases hsame : a.status = (a.apply updates).status
            · rw [Agreement.apply_status] at hsame
              simp [hp, ih, ← hsame]
            · rw [Agreement.apply_status] at hsame
              simp [hp, ih, hsame]
  exact hrows db.agreements

/-- An update that sets no status changes none. -/
theorem statusChanges_of_none (h : updates.status = none) :
    statusChanges db (db.updateAgreements p updates) = [] := by
  rw [statusChanges_updateAgreements, List.filterMap_eq_nil_iff]
  intro a ha
  rw [Agreement.apply_status, h]
  exact if_neg fun hne => hne rfl

/-- What an update changes has the status it sets. -/
theorem status_of_mem_statusChanges {a' : Agreement} {status : Option String}
    (hstatus : updates.status = some status)
    (h : a' ∈ statusChanges db (db.updateAgreements p updates)) : a'.status = status := by
  rw [statusChanges_updateAgreements] at h
  obtain ⟨a, -, ha'⟩ := List.mem_filterMap.mp h
  split at ha'
  · obtain rfl := Option.some.inj ha'
    rw [Agreement.apply_status, hstatus, Option.getD_some]
  · cases ha'

/-- An update of one row that gives it another status. -/
theorem statusChanges_of_one {a : Agreement} (hone : db.agreements.filter p = [a])
    (hne : a.status ≠ (a.apply updates).status) :
    statusChanges db (db.updateAgreements p updates) = [a.apply updates] := by
  rw [statusChanges_updateAgreements, hone, List.filterMap_cons, if_pos hne, List.filterMap_nil]

end Changes

/-! ## What is owed -/

/-- The changes have been announced in their order, except for what is owed; each has its time; and
no work is left that would announce anything. -/
structure Owing (owed : List (StatusEvent × String)) (s : StatusHistory) : Prop where
  announced : s.changes.filterMap Agreement.announcement =
    s.db.events.filterMap AgreementEvent.announced ++ owed
  stamped : ∀ a ∈ s.changes, a.Stamped
  settled : ∀ agreementId source target,
    .syncStatusTransition agreementId source target ∈ s.db.background →
      StatusEvent.ofStatus (some target) = none

/-- The store and what has left the services are the same, as far as statuses go. -/
structure SameHistory (s s' : StatusHistory) : Prop where
  agreements : s'.db.agreements = s.db.agreements
  events : s'.db.events = s.db.events
  background : s'.db.background = s.db.background
  changes : s'.changes = s.changes

namespace SameHistory

theorem refl (s : StatusHistory) : SameHistory s s := ⟨rfl, rfl, rfl, rfl⟩

theorem trans {s₁ s₂ s₃ : StatusHistory} (h : SameHistory s₁ s₂) (h' : SameHistory s₂ s₃) :
    SameHistory s₁ s₃ :=
  ⟨h'.agreements.trans h.agreements, h'.events.trans h.events, h'.background.trans h.background,
    h'.changes.trans h.changes⟩

theorem owing {s s' : StatusHistory} {owed : List (StatusEvent × String)} (h : SameHistory s s')
    (hs : Owing owed s) : Owing owed s' := by
  refine ⟨?_, ?_, ?_⟩
  · rw [h.changes, h.events]
    exact hs.announced
  · rw [h.changes]
    exact hs.stamped
  · rw [h.background]
    exact hs.settled

end SameHistory

/-- A silent call adds nothing to the history. -/
theorem Records.sameHistory {c : AgreementCall} {s s' : StatusHistory} {x : c.reply}
    (h : Records c s x s') (hsilent : c.isSilent = true) : SameHistory s s' := by
  obtain ⟨hanswer, hchanges⟩ := h
  obtain ⟨hquiet, hleaves⟩ := Bool.and_eq_true_iff.mp hsilent
  have hsame := (Answers.executes _ _ _ _ hanswer).sameTables hquiet
  have hleft : s'.db.events = s.db.events ∧ s'.db.background = s.db.background := by
    cases c with
    | wallet c =>
        obtain ⟨wallet, -, hdb⟩ := hanswer
        rw [hdb]
        exact ⟨rfl, rfl⟩
    | emit event => cases hleaves
    | background work => cases hleaves
    | insertParticipants rows => exact hanswer.2 ▸ ⟨rfl, rfl⟩
    | insertActivity row => exact hanswer.2 ▸ ⟨rfl, rfl⟩
    | findAgreement id => exact hanswer.2 ▸ ⟨rfl, rfl⟩
    | getAgreement id => exact hanswer.2 ▸ ⟨rfl, rfl⟩
    | findByContract contractId => exact hanswer.2 ▸ ⟨rfl, rfl⟩
    | findParticipant agreementId wallets => exact hanswer.2 ▸ ⟨rfl, rfl⟩
    | listParticipants agreementId => exact hanswer.2 ▸ ⟨rfl, rfl⟩
    | findLiveDispute agreementId => exact hanswer.2 ▸ ⟨rfl, rfl⟩
    | findDispute id => exact hanswer.2 ▸ ⟨rfl, rfl⟩
    | _ => cases hquiet
  refine ⟨hsame.agreements, hleft.1, hleft.2, ?_⟩
  rw [hchanges, statusChanges_same hsame.agreements, List.append_nil]

section Owing

variable {s s' : StatusHistory} {owed : List (StatusEvent × String)} {p : Agreement → Bool}
  {updates : AgreementUpdates}

theorem Agreement.announcement_of_none {a : Agreement} (h : StatusEvent.ofStatus a.status = none) :
    a.announcement = none := by
  rw [Agreement.announcement, h]
  rfl

/-- A change to statuses without an event. -/
theorem Owing.update (h : Owing owed s)
    (hquiet : ∀ status, updates.status = some status → StatusEvent.ofStatus status = none)
    (hdb : s'.db = s.db.updateAgreements p updates)
    (hchanges : s'.changes = s.changes ++ statusChanges s.db s'.db) : Owing owed s' := by
  have hplain : ∀ a ∈ statusChanges s.db s'.db, StatusEvent.ofStatus a.status = none := by
    intro a ha
    rw [hdb] at ha
    cases hstatus : updates.status with
    | none =>
        rw [statusChanges_of_none hstatus] at ha
        cases ha
    | some status =>
        rw [status_of_mem_statusChanges hstatus ha]
        exact hquiet status hstatus
  refine ⟨?_, ?_, ?_⟩
  · have hnothing : (statusChanges s.db s'.db).filterMap Agreement.announcement = [] := by
      rw [List.filterMap_eq_nil_iff]
      intro a ha
      exact Agreement.announcement_of_none (hplain a ha)
    rw [hchanges, List.filterMap_append, hnothing, List.append_nil, h.announced, hdb]
    rfl
  · intro a ha
    rw [hchanges] at ha
    rcases List.mem_append.mp ha with hold | hnew
    · exact h.stamped a hold
    · intro kind hkind
      rw [hplain a hnew] at hkind
      cases hkind
  · rw [hdb]
    exact h.settled

/-- A change of one row to another status is owed an event, if there is one for the status. -/
theorem Owing.updateOne (h : Owing [] s) {a : Agreement} (hone : s.db.agreements.filter p = [a])
    (hne : a.status ≠ (a.apply updates).status) (hstamped : (a.apply updates).Stamped)
    (hdb : s'.db = s.db.updateAgreements p updates)
    (hchanges : s'.changes = s.changes ++ statusChanges s.db s'.db) :
    Owing (a.apply updates).announcement.toList s' := by
  have hrow : statusChanges s.db s'.db = [a.apply updates] := by
    rw [hdb, statusChanges_of_one hone hne]
  rw [hrow] at hchanges
  refine ⟨?_, ?_, ?_⟩
  · have hannounced := h.announced
    rw [List.append_nil] at hannounced
    rw [hchanges, List.filterMap_append, hannounced, hdb]
    rfl
  · intro b hb
    rw [hchanges] at hb
    rcases List.mem_append.mp hb with hold | hnew
    · exact h.stamped b hold
    · rw [List.mem_singleton.mp hnew]
      exact hstamped
  · rw [hdb]
    exact h.settled

/-- An event pays what it announces. -/
theorem Owing.emit (event : AgreementEvent) (h : Owing (event.announced.toList ++ owed) s)
    {x : (AgreementCall.emit event).reply} (hx : Records (.emit event) s x s') : Owing owed s' := by
  obtain ⟨⟨-, hdb⟩, hchanges⟩ := hx
  have hsame : s'.changes = s.changes := by
    rw [hchanges, statusChanges_same (by rw [hdb]), List.append_nil]
  refine ⟨?_, ?_, ?_⟩
  · rw [hsame, h.announced, hdb, List.filterMap_append, List.append_assoc]
    rfl
  · rw [hsame]
    exact h.stamped
  · rw [hdb]
    exact h.settled

end Owing

/-! ## Programs that settle -/

/-- Nothing is owed at the end, if nothing was at the start. -/
def Settles {α : Type} (p : AgreementProgram α) : Prop :=
  ∀ s, Owing [] s → Ensures Records p s fun _ s' => Owing [] s'

section Settles

variable {α β : Type} {s : StatusHistory}

/-- What a silent program is followed by finds the history as it was. -/
theorem Silent.records {p : AgreementProgram α} (h : Silent p)
    {Q : Except HttpException α → StatusHistory → Prop}
    (hQ : ∀ out s', SameHistory s s' → Q out s') : Ensures Records p s Q :=
  Calls.Only.ensures h (fun _ _ _ _ hsilent hI hx => hI.trans (Records.sameHistory hx hsilent))
    (SameHistory.refl s) hQ

theorem Silent.settles {p : AgreementProgram α} (h : Silent p) : Settles p :=
  fun _ hs => h.records fun _ _ hsame => hsame.owing hs

theorem Settles.bind {p : AgreementProgram α} {f : α → AgreementProgram β} (h : Settles p)
    (hf : ∀ a, Settles (f a)) : Settles (p >>= f) := by
  intro s hs
  refine Calls.ensures_bind.mpr ((h s hs).mono fun out s' hs' => ⟨fun a _ => ?_, fun _ _ => hs'⟩)
  exact hf a s' hs'

theorem Settles.leadsTo {p : AgreementProgram α} (h : Settles p) (hs : Owing [] s) :
    Calls.LeadsTo Records (Owing []) p s :=
  ⟨h s hs⟩

theorem settles_done (a : α) : Settles (.done a) := fun _ hs => hs

theorem settles_fail (e : HttpException) : Settles (.fail e : AgreementProgram α) := fun _ hs => hs

theorem settles_ask {c : AgreementCall} {f : c.reply → AgreementProgram α}
    (hc : ∀ s x s', Owing [] s → Records c s x s' → Owing [] s') (hf : ∀ x, Settles (f x)) :
    Settles (ask c >>= f) :=
  fun s hs x s' hx => hf x s' (hc s x s' hs hx)

/-- A query that reads. -/
theorem settles_read {c : AgreementCall} {f : c.reply → AgreementProgram α}
    (hc : c.isSilent = true) (hf : ∀ x, Settles (f x)) : Settles (ask c >>= f) :=
  settles_ask (fun _ _ _ hs hx => (hx.sameHistory hc).owing hs) hf

/-- A query of another table. -/
theorem settles_aside {c : AgreementCall} {f : c.reply → AgreementProgram α}
    (hc : ∀ db x db', Answers c db x db' → db'.agreements = db.agreements ∧
      db'.events = db.events ∧ db'.background = db.background)
    (hf : ∀ x, Settles (f x)) : Settles (ask c >>= f) := by
  refine settles_ask (fun s x s' hs hx => ?_) hf
  obtain ⟨hagreements, hevents, hbackground⟩ := hc _ _ _ hx.1
  refine SameHistory.owing ⟨hagreements, hevents, hbackground, ?_⟩ hs
  rw [hx.2, statusChanges_same hagreements, List.append_nil]

/-- An update by id to statuses without an event. -/
theorem settles_update {id : String} {updates : AgreementUpdates}
    {f : (AgreementCall.updateAgreement id updates).reply → AgreementProgram α}
    (hquiet : ∀ status, updates.status = some status → StatusEvent.ofStatus status = none)
    (hf : ∀ x, Settles (f x)) : Settles (ask (AgreementCall.updateAgreement id updates) >>= f) :=
  settles_ask (fun _ _ _ hs hx => hs.update hquiet hx.1.2 hx.2) hf

/-- An event that announces no status. -/
theorem settles_emit {event : AgreementEvent} (h : event.announced = none) : Settles (emit event) := by
  refine settles_ask (fun s x s' hs hx => ?_) fun _ => settles_done _
  refine Owing.emit event ?_ hx
  rw [h]
  exact hs

theorem settles_emitAll {events : List AgreementEvent} (h : ∀ event ∈ events, event.announced = none) :
    Settles (emitAll events) := by
  induction events with
  | nil => exact settles_done _
  | cons event rest ih =>
      rw [List.forall_mem_cons] at h
      exact (settles_emit h.1).bind fun _ => ih h.2

/-- Work that announces nothing. -/
theorem settles_inBackground {work : BackgroundWork}
    (h : ∀ agreementId source target, work = .syncStatusTransition agreementId source target →
      StatusEvent.ofStatus (some target) = none) : Settles (inBackground work) := by
  refine settles_ask (fun s x s' hs hx => ?_) fun _ => settles_done _
  obtain ⟨⟨-, hdb⟩, hchanges⟩ := hx
  have hsame : s'.changes = s.changes := by
    rw [hchanges, statusChanges_same (by rw [hdb]), List.append_nil]
  refine ⟨?_, ?_, fun agreementId source target hwork => ?_⟩
  · rw [hsame, hdb]
    exact hs.announced
  · rw [hsame]
    exact hs.stamped
  · rw [hdb] at hwork
    rcases List.mem_append.mp hwork with hold | hnew
    · exact hs.settled agreementId source target hold
    · exact h agreementId source target (List.mem_singleton.mp hnew).symm

/-- What is owed for this status of an agreement. -/
def owedFor (agreementId target : String) : List (StatusEvent × String) :=
  ((StatusEvent.ofStatus (some target)).map fun kind => (kind, agreementId)).toList

/-- `emitStatus` pays what is owed for the status. -/
theorem emitStatus_pays {now : Timestamp} {a : Agreement} {agreementId wallet target : String}
    (hs : Owing (owedFor agreementId target) s) :
    Ensures Records (emitStatus now a agreementId wallet target) s fun _ s' => Owing [] s' := by
  have hpays : ∀ event : AgreementEvent,
      event.announced.toList = owedFor agreementId target →
        Ensures Records (emit event) s fun _ s' => Owing [] s' := by
    intro event hevent x s' hx
    refine Owing.emit event ?_ hx
    rw [hevent, List.append_nil]
    exact hs
  unfold emitStatus statusEvent
  dsimp only
  by_cases hfunded : target = "funded"
  · rw [if_pos hfunded]
    exact hpays _ (by simp [owedFor, StatusEvent.ofStatus, hfunded, AgreementEvent.announced])
  · rw [if_neg hfunded]
    by_cases hcompleted : target = "completed" ∨ target = "resolved"
    · rw [if_pos hcompleted]
      exact hpays _ (by
        simp [owedFor, StatusEvent.ofStatus, hfunded, hcompleted, AgreementEvent.announced])
    · rw [if_neg hcompleted]
      have hnothing : owedFor agreementId target = [] := by
        simp [owedFor, StatusEvent.ofStatus, hfunded, hcompleted]
      rw [hnothing] at hs
      exact hs

/-- A row that has been given a status in time. -/
theorem stamped_statusUpdates (now : Timestamp) (target : String) (a : Agreement) :
    (a.apply (statusUpdates now target)).Stamped := by
  intro kind hkind
  have hstatus : (a.apply (statusUpdates now target)).status = some target := rfl
  rw [hstatus, StatusEvent.ofStatus] at hkind
  split at hkind
  · rename_i hfunded
    cases hkind
    simp [StatusEvent.stamp, Agreement.apply, statusUpdates, hfunded]
  · split at hkind
    · rename_i hcompleted
      cases hkind
      simp [StatusEvent.stamp, Agreement.apply, statusUpdates, hcompleted]
    · cases hkind

end Settles

end ThalosBackend.Agreements
