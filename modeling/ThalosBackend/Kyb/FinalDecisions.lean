import ThalosBackend.Kyb.KybService
import ThalosBackend.Library.CallThreads
import ThalosBackend.Profiles.AdminRights

/-!
# Final decisions

Reviews of any users for any organizations; their calls interleave, any query may fail, and users and
profiles change between them. No session is opened.

A review looks at the status of a row, and then updates the row whatever its status is. So a review
that has looked can overwrite the final decision of another. Where no final decision is written while
another review of the same organization is between the two, a row is decided once, is not changed after
that, and is told of by one event.
-/

set_option autoImplicit false

namespace ThalosBackend.Kyb

open Js (Timestamp)
open Calls (AllEnded Only Serving Task Until after nextCall)
open Profiles (Directory ProfileDb)
open Threads (Config Label)
open Wallets (Reply maybeSingle)

/-! ## Reviews and their interleavings -/

/-- A review that is asked for. -/
structure ReviewRequest where
  now : Timestamp
  userId : String
  organizationId : String
  dto : ReviewKybSessionDto

/-- The operation behind a request. -/
def ReviewRequest.program (req : ReviewRequest) : KybProgram KybResult :=
  review req.now req.userId req.organizationId req.dto

/-- The reviews, from this database on. An organization has one row. -/
def reviewServing (directory : Directory) (start : KybDb) :
    Serving ReviewRequest HttpException KybCall KybCall.reply KybResult KybDb CallAct ProfileDb where
  init db := db = start ∧ Table.Unique KybVerification.organizationId start.verifications
  program := ReviewRequest.program
  exec act _ c db x db' := act.exec directory c db x db'
  env profile db db' := db' = { db with profile := profile }

abbrev ReviewTask := Task ReviewRequest HttpException KybCall KybCall.reply KybResult

abbrev ReviewConfig := Config KybDb ℕ ReviewTask

abbrev ReviewLabel := Label ℕ ReviewTask CallAct ProfileDb

/-- The step system of the reviews. -/
def reviewSystem (directory : Directory) (start : KybDb) : StepSystem ReviewConfig ReviewLabel :=
  (reviewServing directory start).threads.system ℕ

/-! ## Finality -/

/-- The row is verified or rejected. -/
def KybVerification.IsFinal (v : KybVerification) : Prop := v.status ∈ finalizedStatuses

instance (v : KybVerification) : Decidable v.IsFinal :=
  inferInstanceAs (Decidable (v.status ∈ finalizedStatuses))

/-- The events that tell of an organization. -/
def KybDb.eventsOf (db : KybDb) (organizationId : String) : List KybEvent :=
  db.events.filter fun e => e.organizationId = organizationId

/-- The review has returned the row. -/
def Returned (c : ReviewConfig) (t : ℕ) (v : KybVerification) : Prop :=
  ∃ req, c.threads t = some ⟨req, .done ⟨v⟩⟩

/-- One review decides about an organization, what is decided stays, and once all reviews have ended a
row that is final was so at the start, and nothing was emitted, or it was not, and one event tells of
it. -/
structure Finality (M : StepSystem ReviewConfig ReviewLabel) (start : KybDb) (c : ReviewConfig) :
    Prop where
  once : ∀ t t' v v', Returned c t v → Returned c t' v' → v.IsFinal → v'.IsFinal →
    v'.organizationId = v.organizationId → t' = t
  kept : ∀ c', M.Leads c c' → ∀ v ∈ c.shared.verifications, v.IsFinal → v ∈ c'.shared.verifications
  announced : AllEnded c → ∀ v ∈ c.shared.verifications, v.IsFinal →
    v ∈ start.verifications ∧
        c.shared.eventsOf v.organizationId = start.eventsOf v.organizationId ∨
      (∀ s ∈ start.verifications, s.organizationId = v.organizationId → ¬ s.IsFinal) ∧
        ∃ e, v.event = some e ∧
          c.shared.eventsOf v.organizationId = start.eventsOf v.organizationId ++ [e]

/-! ## The condition -/

/-- The review is about to update the row of the organization. -/
def AboutToWrite (c : ReviewConfig) (t : ℕ) (organizationId : String) : Prop :=
  ∃ k updates, c.threads t = some k ∧
    nextCall k.rest = some (.updateVerification organizationId updates)

/-- A final decision that is written finds no other review about to update the row. -/
def DecidesAlone (c : ReviewConfig) : ReviewLabel → Prop
  | .act t .answer => ∀ k organizationId updates, c.threads t = some k →
      nextCall k.rest = some (.updateVerification organizationId updates) →
      updates.status ∈ finalizedStatuses → ∀ t', AboutToWrite c t' organizationId → t' = t
  | _ => True

/-! ## Where a review is -/

/-- The row of the organization is not final. -/
def Undecided (db : KybDb) (organizationId : String) : Prop :=
  ∀ v ∈ db.verifications, v.organizationId = organizationId → ¬ v.IsFinal

/-- The program is at the query whose answer is checked. -/
def IsCheck (p : KybProgram KybResult) : Prop :=
  ∃ now organizationId dto, p = reviewAsAdmin now organizationId dto

/-- The phases of a review, and what is known in each. -/
inductive Phase (db : KybDb) : KybProgram KybResult → Prop where
  /-- It has not written yet, and ends with nothing before it has. -/
  | reading {p : KybProgram KybResult} :
      Until (fun c : KybCall => c.isRead = true) (fun _ => False) IsCheck p → Phase db p
  | deciding (now : Timestamp) (organizationId : String) (dto : ReviewKybSessionDto) :
      Undecided db organizationId → Phase db (decideReview now organizationId dto)
  | announcing (v : KybVerification) : Phase db (announce v)
  | ended (v : KybVerification) : Phase db (.done ⟨v⟩)

/-- What is left of a review that has written the final row. -/
def Outcome (rest : KybProgram KybResult) (v : KybVerification) : Prop :=
  v.IsFinal ∧ (rest = announce v ∨ rest = .done ⟨v⟩)

/-- The review has written the final row. -/
def Decides (c : ReviewConfig) (t : ℕ) (v : KybVerification) : Prop :=
  ∃ k, c.threads t = some k ∧ Outcome k.rest v

section Phases

variable {directory : Directory} {db db' : KybDb} {v w : KybVerification}

/-! ### Announcing -/

theorem event_of_isFinal (h : v.IsFinal) :
    ∃ e, v.event = some e ∧ e.organizationId = v.organizationId := by
  rw [KybVerification.IsFinal, finalizedStatuses, List.mem_pair] at h
  rcases h with h | h
  · refine ⟨.verified v.organizationId v.businessName v.verifiedAt, ?_, rfl⟩
    rw [KybVerification.event, if_pos h]
  · refine ⟨.rejected v.organizationId v.businessName v.rejectionReason, ?_, rfl⟩
    rw [KybVerification.event, h]
    rfl

theorem event_eq_none (h : ¬ v.IsFinal) : v.event = none := by
  rw [KybVerification.IsFinal, finalizedStatuses, List.mem_pair, not_or] at h
  rw [KybVerification.event, if_neg h.1, if_neg h.2]

/-- The event of a final row comes before the answer. -/
theorem announce_eq_call {e : KybEvent} (h : v.event = some e) :
    announce v = .call (.emit e) fun _ => .done ⟨v⟩ := by
  rw [announce, h]
  rfl

theorem announce_eq_done (h : ¬ v.IsFinal) : announce v = .done ⟨v⟩ := by
  rw [announce, event_eq_none h]
  rfl

theorem Outcome.eq_of_done (h : Outcome (.done ⟨w⟩) v) : v = w := by
  obtain ⟨hfinal, hrest | hrest⟩ := h
  · obtain ⟨e, he, -⟩ := event_of_isFinal hfinal
    rw [announce_eq_call he] at hrest
    cases hrest
  · cases hrest
    rfl

theorem Outcome.eq_of_announce (h : Outcome (announce w) v) : v = w := by
  by_cases hw : w.IsFinal
  · obtain ⟨e, he, -⟩ := event_of_isFinal hw
    obtain ⟨hfinal, hrest | hrest⟩ := h
    · obtain ⟨e', he', -⟩ := event_of_isFinal hfinal
      rw [announce_eq_call he, announce_eq_call he'] at hrest
      simp only [Calls.call.injEq] at hrest
      obtain ⟨-, hnext⟩ := hrest
      have hdone := congrFun (eq_of_heq hnext) ()
      cases hdone
      rfl
    · rw [announce_eq_call he] at hrest
      cases hrest
  · rw [announce_eq_done hw] at h
    exact h.eq_of_done

/-! ### One call -/

theorem isAdmin_reads (userId : String) :
    Only (fun c : KybCall => c.isRead = true) (isAdmin userId) := by
  refine Calls.only_ask rfl fun user => ?_
  split
  · exact Calls.only_done _
  · exact Calls.only_ask rfl fun profile => Calls.only_done _

/-- A review begins by reading. -/
theorem program_reads (req : ReviewRequest) :
    Until (fun c : KybCall => c.isRead = true) (fun _ => False) IsCheck req.program := by
  apply (isAdmin_reads req.userId).until_bind
  intro admin
  cases admin with
  | false => trivial
  | true => exact Calls.until_call ⟨req.now, req.organizationId, req.dto, rfl⟩

/-- What a review does with its next call, and where it is then. -/
inductive ReviewMove (act : CallAct) (db : KybDb) (c : KybCall) (rest : KybProgram KybResult) :
    KybDb → Prop where
  /-- It reads, or its update finds no row or fails. -/
  | read {db' : KybDb} : (∀ e, c ≠ .emit e) → db'.verifications = db.verifications →
      db'.events = db.events → (∀ v, ¬ Outcome rest v) → Phase db' rest → ReviewMove act db c rest db'
  | wrote (organizationId : String) (updates : VerificationUpdates) (v : KybVerification) :
      c = .updateVerification organizationId updates → act = .answer → Undecided db organizationId →
      db.ofOrganization organizationId = [v] → rest = announce (v.apply updates) →
      ReviewMove act db c rest (db.update organizationId updates)
  | emitted (v : KybVerification) (e : KybEvent) : c = .emit e → v.IsFinal → v.event = some e →
      rest = .done ⟨v⟩ → ReviewMove act db c rest { db with events := db.events ++ [e] }

/-- A program that has not written yet is not at an outcome. -/
theorem not_outcome_of_reading {p : KybProgram KybResult}
    (h : Until (fun c : KybCall => c.isRead = true) (fun _ => False) IsCheck p) : ¬ Outcome p v := by
  rintro ⟨hfinal, rfl | rfl⟩
  · obtain ⟨e, he, -⟩ := event_of_isFinal hfinal
    rw [announce_eq_call he] at h
    rcases h with ⟨now, organizationId, dto, hcheck⟩ | ⟨hread, -⟩
    · cases hcheck
    · cases hread
  · exact h

theorem not_outcome_fail (e : HttpException) : ¬ Outcome (.fail e) v := by
  rintro ⟨hfinal, h | h⟩
  · obtain ⟨event, hevent, -⟩ := event_of_isFinal hfinal
    rw [announce_eq_call hevent] at h
    cases h
  · cases h

/-- A review that is about to write has written nothing. -/
theorem not_outcome_decideReview {now : Timestamp} {organizationId : String}
    {dto : ReviewKybSessionDto} : ¬ Outcome (decideReview now organizationId dto) v := by
  rintro ⟨hfinal, h | h⟩
  · obtain ⟨event, hevent, -⟩ := event_of_isFinal hfinal
    rw [announce_eq_call hevent] at h
    cases h
  · cases h

theorem ReviewMove.refused {act : CallAct} {c : KybCall} {e : HttpException} (hc : ∀ e, c ≠ .emit e)
    (hverifications : db'.verifications = db.verifications) (hevents : db'.events = db.events) :
    ReviewMove act db c (.fail e) db' :=
  .read hc hverifications hevents (fun _ => not_outcome_fail e) (.reading trivial)

/-! ### The first call of each phase -/

/-- The first call makes a move. -/
abbrev Moves (directory : Directory) (act : CallAct) (db : KybDb) (p : KybProgram KybResult) : Prop :=
  Calls.FirstCall (act.exec directory) (fun c rest db' => ReviewMove act db c rest db') p db

variable {act : CallAct}

/-- A review that goes on after its check has found a row that is not final. -/
theorem reviewAsAdmin_moves (now : Timestamp) (organizationId : String) (dto : ReviewKybSessionDto) :
    Moves directory act db (reviewAsAdmin now organizationId dto) := by
  intro x db' hexec
  have hemits : ∀ e, KybCall.findByOrganization organizationId ≠ .emit e := fun _ h => by cases h
  cases act with
  | answer =>
      obtain ⟨hx, rfl⟩ := hexec
      rcases hdata : x with e | _ | existing
      · exact ReviewMove.refused hemits rfl rfl
      · exact ReviewMove.refused hemits rfl rfl
      · have hrows := KybDb.ofOrganization_eq (hx.symm.trans hdata)
        change ReviewMove _ _ _ (if existing.status ∈ finalizedStatuses then _ else _) _
        split
        · exact ReviewMove.refused hemits rfl rfl
        · rename_i hstatus
          refine .read hemits rfl rfl (fun _ => not_outcome_decideReview)
            (.deciding now organizationId dto ?_)
          intro v hv horganization
          have hmem : v ∈ db'.ofOrganization organizationId :=
            List.mem_filter.mpr ⟨hv, decide_eq_true horganization⟩
          rw [hrows] at hmem
          rw [List.mem_singleton.mp hmem]
          exact hstatus
  | fail =>
      obtain ⟨⟨e, rfl⟩, rfl⟩ := hexec
      exact ReviewMove.refused hemits rfl rfl

/-- The update rewrites the only row of the organization, whatever its status is. -/
theorem decideReview_moves (now : Timestamp) {organizationId : String} (dto : ReviewKybSessionDto)
    (hundecided : Undecided db organizationId) :
    Moves directory act db (decideReview now organizationId dto) := by
  refine Calls.firstCall_ask fun x db' hexec => ?_
  cases act with
  | answer =>
      rcases updateVerification_cases directory hexec with ⟨v, hrows, rfl, rfl⟩ | ⟨rfl, rfl⟩
      · exact .wrote organizationId _ v rfl rfl hundecided hrows rfl
      · exact ReviewMove.refused (fun _ h => by cases h) rfl rfl
  | fail =>
      obtain ⟨⟨e, rfl⟩, rfl⟩ := hexec
      exact ReviewMove.refused (fun _ h => by cases h) rfl rfl

/-- A final row is announced, and any other only returned. -/
theorem announce_moves (v : KybVerification) : Moves directory act db (announce v) := by
  by_cases hfinal : v.IsFinal
  · obtain ⟨e, he, -⟩ := event_of_isFinal hfinal
    rw [announce_eq_call he]
    intro x db' hexec
    cases act with
    | answer =>
        obtain rfl := hexec
        exact .emitted v e rfl hfinal he rfl
    | fail => exact hexec.elim
  · rw [announce_eq_done hfinal]
    trivial

/-- **What a call does.** A review reads, writes a row that is not final, or tells of one that is. -/
theorem Phase.move {c : KybCall} {next : c.reply → KybProgram KybResult} {x : c.reply}
    (h : Phase db (.call c next)) (hexec : act.exec directory c db x db') :
    ReviewMove act db c (next x) db' := by
  suffices hmoves : Moves directory act db (.call c next) from hmoves x db' hexec
  generalize hp : Calls.call c next = p at h
  cases h with
  | reading hread =>
      subst hp
      rcases hread with ⟨now, organizationId, dto, hcheck⟩ | ⟨hc, hnext⟩
      · rw [hcheck]
        exact reviewAsAdmin_moves now organizationId dto
      · intro x db' hexec
        obtain ⟨hverifications, hevents⟩ := hexec.read hc
        refine .read ?_ hverifications hevents (fun v => not_outcome_of_reading (hnext x))
          (.reading (hnext x))
        rintro e rfl
        cases hc
  | deciding now organizationId dto hundecided => exact decideReview_moves now dto hundecided
  | announcing v => exact announce_moves v
  | ended v => trivial

/-- A row that is not final stays so in the phases of other reviews, unless it is decided. -/
theorem Phase.later {p : KybProgram KybResult} (h : Phase db p)
    (hkeep : ∀ organizationId updates, nextCall p = some (.updateVerification organizationId updates) →
      Undecided db organizationId → Undecided db' organizationId) : Phase db' p := by
  cases h with
  | reading hread => exact .reading hread
  | deciding now organizationId dto hundecided =>
      exact .deciding now organizationId dto (hkeep organizationId _ rfl hundecided)
  | announcing v => exact .announcing v
  | ended v => exact .ended v

end Phases

/-! ## The invariant -/

/-- What holds while reviews run. -/
structure FinalInv (start : KybDb) (c : ReviewConfig) : Prop where
  unique : Table.Unique KybVerification.organizationId c.shared.verifications
  phases : ∀ t k, c.threads t = some k → Phase c.shared k.rest
  /-- A row that a review has decided is there, and was not final at the start. -/
  decided : ∀ t v, Decides c t v → v ∈ c.shared.verifications ∧
    ∀ s ∈ start.verifications, s.organizationId = v.organizationId → ¬ s.IsFinal
  once : ∀ t t' v v', Decides c t v → Decides c t' v' → v'.organizationId = v.organizationId → t' = t
  /-- A final row was so at the start, or a review has decided it. -/
  byReview : ∀ v ∈ c.shared.verifications, v.IsFinal → v ∈ start.verifications ∨ ∃ t, Decides c t v
  kept : ∀ s ∈ start.verifications, s.IsFinal → s ∈ c.shared.verifications
  announced : ∀ t v, Returned c t v → v.IsFinal → ∃ e, v.event = some e ∧
    c.shared.eventsOf v.organizationId = start.eventsOf v.organizationId ++ [e]
  /-- Nothing tells of an organization that no review has returned. -/
  silent : ∀ o, (∀ t v, Returned c t v → v.IsFinal → v.organizationId ≠ o) →
    c.shared.eventsOf o = start.eventsOf o

section Invariant

variable {directory : Directory} {start : KybDb} {c c' : ReviewConfig} {t t' : ℕ}
  {req : ReviewRequest} {rest : KybProgram KybResult} {s : KybDb} {v : KybVerification}

theorem Returned.decides (h : Returned c t v) (hfinal : v.IsFinal) : Decides c t v := by
  obtain ⟨req, hk⟩ := h
  exact ⟨_, hk, hfinal, .inr rfl⟩

/-- Who has decided afterwards: the review itself, or another that had before. -/
theorem decides_after (h : Decides (after c t req rest s) t' v) :
    t' = t ∧ Outcome rest v ∨ t' ≠ t ∧ Decides c t' v := by
  obtain ⟨k, hk, houtcome⟩ := h
  rcases Threads.update_eq_some hk with ⟨rfl, hself⟩ | ⟨hne, hother⟩
  · cases hself
    exact .inl ⟨rfl, houtcome⟩
  · exact .inr ⟨hne, k, hother, houtcome⟩

theorem Decides.other (h : Decides c t' v) (hne : t' ≠ t) : Decides (after c t req rest s) t' v := by
  obtain ⟨k, hk, houtcome⟩ := h
  exact ⟨k, by simpa [hne] using hk, houtcome⟩

theorem decides_self (h : Outcome rest v) : Decides (after c t req rest s) t v :=
  ⟨⟨req, rest⟩, by simp, h⟩

theorem returned_after (h : Returned (after c t req rest s) t' v) :
    t' = t ∧ rest = .done ⟨v⟩ ∨ t' ≠ t ∧ Returned c t' v := by
  obtain ⟨req', hk⟩ := h
  rcases Threads.update_eq_some hk with ⟨rfl, hself⟩ | ⟨hne, hother⟩
  · cases hself
    exact .inl ⟨rfl, rfl⟩
  · exact .inr ⟨hne, req', hother⟩

theorem Returned.other (h : Returned c t' v) (hne : t' ≠ t) :
    Returned (after c t req rest s) t' v := by
  obtain ⟨req', hk⟩ := h
  exact ⟨req', by simpa [hne] using hk⟩

variable {call : KybCall} {next : call.reply → KybProgram KybResult}

/-- A review with another call left has decided nothing. -/
theorem not_decides_of_call (hk : c.threads t = some ⟨req, .call call next⟩)
    (hcall : ∀ e, call ≠ .emit e) : ¬ Decides c t v := by
  rintro ⟨k, hk', hfinal, houtcome⟩
  rw [hk] at hk'
  cases hk'
  rcases houtcome with hrest | hrest
  · obtain ⟨e, he, -⟩ := event_of_isFinal hfinal
    rw [announce_eq_call he] at hrest
    cases hrest
    exact hcall e rfl
  · cases hrest

theorem not_returned_of_call (hk : c.threads t = some ⟨req, .call call next⟩) : ¬ Returned c t v := by
  rintro ⟨req', hk'⟩
  rw [hk] at hk'
  cases hk'

/-- What was emitted is as before, if nothing is emitted and nothing final is returned. -/
theorem FinalInv.tells (h : FinalInv start c) (req : ReviewRequest)
    (hnot : ∀ v, ¬ Returned c t v) (hevents : s.events = c.shared.events)
    (hrest : ∀ v, v.IsFinal → rest ≠ .done ⟨v⟩) :
    (∀ t' v, Returned (after c t req rest s) t' v → v.IsFinal → ∃ e, v.event = some e ∧
        s.eventsOf v.organizationId = start.eventsOf v.organizationId ++ [e]) ∧
      ∀ o, (∀ t' v, Returned (after c t req rest s) t' v → v.IsFinal → v.organizationId ≠ o) →
        s.eventsOf o = start.eventsOf o := by
  have hsame : ∀ o, s.eventsOf o = c.shared.eventsOf o := by
    intro o
    rw [KybDb.eventsOf, hevents, KybDb.eventsOf]
  refine ⟨fun t' v hreturned hfinal => ?_, fun o hnone => ?_⟩
  · rw [hsame]
    rcases returned_after hreturned with ⟨-, hdone⟩ | ⟨-, hother⟩
    · exact absurd hdone (hrest v hfinal)
    · exact h.announced t' v hother hfinal
  · rw [hsame]
    refine h.silent o fun t' v hreturned hfinal => ?_
    have hne : t' ≠ t := by
      rintro rfl
      exact hnot v hreturned
    exact hnone t' v (hreturned.other hne) hfinal

/-- A review that has decided nothing begins, or reads. -/
theorem FinalInv.read (h : FinalInv start c) (hnot : ∀ v, ¬ Returned c t v)
    (hopen : ∀ v, ¬ Decides c t v) (hverifications : s.verifications = c.shared.verifications)
    (hevents : s.events = c.shared.events) (hquiet : ∀ v, ¬ Outcome rest v) (hphase : Phase s rest) :
    FinalInv start (after c t req rest s) := by
  have hsame : ∀ t' v, Decides (after c t req rest s) t' v → Decides c t' v := by
    intro t' v hdecides
    rcases decides_after hdecides with ⟨-, houtcome⟩ | ⟨-, hother⟩
    · exact absurd houtcome (hquiet v)
    · exact hother
  obtain ⟨hannounced, hsilent⟩ := h.tells req hnot hevents fun v hfinal hdone =>
    hquiet v ⟨hfinal, .inr hdone⟩
  constructor
  case unique =>
    rw [hverifications]
    exact h.unique
  case phases =>
    intro t' k' hk'
    rcases Threads.update_eq_some hk' with ⟨-, hself⟩ | ⟨-, hother⟩
    · cases hself
      exact hphase
    · refine (h.phases t' k' hother).later fun o updates _ hundecided => ?_
      rw [Undecided, hverifications]
      exact hundecided
  case decided =>
    intro t' v hdecides
    rw [hverifications]
    exact h.decided t' v (hsame t' v hdecides)
  case once =>
    intro t₁ t₂ v v' hdecides hdecides'
    exact h.once t₁ t₂ v v' (hsame _ _ hdecides) (hsame _ _ hdecides')
  case byReview =>
    intro v hv hfinal
    rw [hverifications] at hv
    refine (h.byReview v hv hfinal).imp_right ?_
    rintro ⟨t', hdecides⟩
    -- the call that reads is not the review that has decided
    refine ⟨t', hdecides.other ?_⟩
    rintro rfl
    exact hopen v hdecides
  case kept =>
    intro s₀ hs₀ hfinal
    rw [hverifications]
    exact h.kept s₀ hs₀ hfinal
  case announced => exact hannounced
  case silent => exact hsilent

theorem KybDb.eventsOf_append (db : KybDb) (e : KybEvent) (o : String) :
    KybDb.eventsOf { db with events := db.events ++ [e] } o =
      db.eventsOf o ++ if e.organizationId = o then [e] else [] := by
  rw [KybDb.eventsOf, List.filter_append, List.filter_singleton, KybDb.eventsOf]
  simp

/-- A review emits the event of the row it has decided. -/
theorem FinalInv.emitted (h : FinalInv start c) {e : KybEvent}
    {next : (KybCall.emit e).reply → KybProgram KybResult}
    (hk : c.threads t = some ⟨req, .call (.emit e) next⟩) (hfinal : v.IsFinal)
    (hevent : v.event = some e) (hnext : next () = .done ⟨v⟩) :
    FinalInv start (after c t req (.done ⟨v⟩)
      { c.shared with events := c.shared.events ++ [e] }) := by
  have hannounce : Calls.call (.emit e) next = announce v := by
    rw [announce_eq_call hevent]
    congr 1
    funext x
    exact hnext
  have hself : Decides c t v := ⟨_, hk, hfinal, .inl hannounce⟩
  have horganization : e.organizationId = v.organizationId := by
    obtain ⟨e', he', horganization⟩ := event_of_isFinal hfinal
    obtain rfl := Option.some.inj (hevent.symm.trans he')
    exact horganization
  -- who has decided is the same as before
  have hsame : ∀ t' w, Decides (after c t req (.done ⟨v⟩)
      { c.shared with events := c.shared.events ++ [e] }) t' w → Decides c t' w := by
    intro t' w hdecides
    rcases decides_after hdecides with ⟨rfl, houtcome⟩ | ⟨-, hother⟩
    · rw [houtcome.eq_of_done]
      exact hself
    · exact hother
  constructor
  case unique => exact h.unique
  case phases =>
    intro t' k' hk'
    rcases Threads.update_eq_some hk' with ⟨-, hself'⟩ | ⟨-, hother⟩
    · cases hself'
      exact .ended v
    · exact (h.phases t' k' hother).later fun o updates _ hundecided => hundecided
  case decided =>
    exact fun t' w hdecides => h.decided t' w (hsame t' w hdecides)
  case once =>
    intro t₁ t₂ w w' hdecides hdecides'
    exact h.once t₁ t₂ w w' (hsame _ _ hdecides) (hsame _ _ hdecides')
  case byReview =>
    intro w hw hwfinal
    refine (h.byReview w hw hwfinal).imp_right ?_
    rintro ⟨t', hdecides⟩
    by_cases hne : t' = t
    -- the review that had decided has now returned its row
    · subst hne
      obtain ⟨k, hk', houtcome⟩ := hdecides
      rw [hk] at hk'
      cases hk'
      rw [hannounce] at houtcome
      rw [houtcome.eq_of_announce]
      exact ⟨t', decides_self ⟨hfinal, .inr rfl⟩⟩
    · exact ⟨t', hdecides.other hne⟩
  case kept => exact h.kept
  case announced =>
    intro t' w hreturned hwfinal
    rw [KybDb.eventsOf_append]
    rcases returned_after hreturned with ⟨-, hdone⟩ | ⟨hne, hother⟩
    · cases hdone
      refine ⟨e, hevent, ?_⟩
      rw [if_pos horganization, h.silent]
      -- no other review decides about this organization, and this one had not ended
      intro t₁ w hreturned₁ hfinal₁ horganization₁
      obtain rfl := h.once t t₁ v w hself (hreturned₁.decides hfinal₁) horganization₁
      exact not_returned_of_call hk hreturned₁
    · obtain ⟨e', hevent', hevents⟩ := h.announced t' w hother hwfinal
      refine ⟨e', hevent', ?_⟩
      have hother' : e.organizationId ≠ w.organizationId := by
        rw [horganization]
        intro heq
        exact hne (h.once t t' v w hself (hother.decides hwfinal) heq.symm)
      rw [if_neg hother', List.append_nil, hevents]
  case silent =>
    intro o hnone
    have hself' : v.organizationId ≠ o := hnone t v ⟨req, by simp⟩ hfinal
    rw [KybDb.eventsOf_append, if_neg (by rwa [horganization]), List.append_nil]
    refine h.silent o fun t' w hreturned hwfinal => ?_
    have hne : t' ≠ t := by
      rintro rfl
      exact not_returned_of_call hk hreturned
    exact hnone t' w (hreturned.other hne) hwfinal

/-- The rows after an update of an organization with one. -/
theorem KybDb.mem_update {db : KybDb} {o : String} {updates : VerificationUpdates}
    {old : KybVerification} (hrows : db.ofOrganization o = [old]) :
    v ∈ (db.update o updates).verifications ↔
      v = old.apply updates ∨ v ∈ db.verifications ∧ v.organizationId ≠ o := by
  have hold : ∀ w, w ∈ db.verifications ∧ w.organizationId = o ↔ w = old := by
    intro w
    have hmem : w ∈ db.ofOrganization o ↔ w ∈ [old] := by rw [hrows]
    rwa [KybDb.ofOrganization, List.mem_filter, decide_eq_true_eq, List.mem_singleton] at hmem
  constructor
  · intro hv
    obtain ⟨w, hw, rfl⟩ := Table.mem_updateWhere.mp hv
    by_cases ho : w.organizationId = o
    · rw [if_pos (decide_eq_true ho), (hold w).mp ⟨hw, ho⟩]
      exact .inl rfl
    · rw [if_neg (by simpa using ho)]
      exact .inr ⟨hw, ho⟩
  · rintro (rfl | ⟨hv, ho⟩)
    · obtain ⟨hw, ho⟩ := (hold old).mpr rfl
      exact Table.mem_updateWhere.mpr ⟨old, hw, by rw [if_pos (decide_eq_true ho)]⟩
    · exact Table.mem_updateWhere.mpr ⟨v, hv, by rw [if_neg (by simpa using ho)]⟩

/-- A review writes a row that is not final. A final decision finds no other about to write it. -/
theorem FinalInv.wrote (h : FinalInv start c) {o : String} {updates : VerificationUpdates}
    {next : (KybCall.updateVerification o updates).reply → KybProgram KybResult}
    (hk : c.threads t = some ⟨req, .call (.updateVerification o updates) next⟩)
    (halone : updates.status ∈ finalizedStatuses → ∀ t', AboutToWrite c t' o → t' = t)
    (hundecided : Undecided c.shared o) {old : KybVerification}
    (hrows : c.shared.ofOrganization o = [old]) :
    FinalInv start (after c t req (announce (old.apply updates)) (c.shared.update o updates)) := by
  have hcall : ∀ e, KybCall.updateVerification o updates ≠ .emit e := fun _ he => by cases he
  have hold : old ∈ c.shared.verifications ∧ old.organizationId = o := by
    have hmem : old ∈ c.shared.ofOrganization o := hrows ▸ List.mem_singleton_self old
    exact ⟨(List.mem_filter.mp hmem).1, of_decide_eq_true (List.mem_filter.mp hmem).2⟩
  -- a final row belongs to another organization, and stays
  have hstays : ∀ v ∈ c.shared.verifications, v.IsFinal → v.organizationId ≠ o ∧
      v ∈ (c.shared.update o updates).verifications := by
    intro v hv hfinal
    have hne : v.organizationId ≠ o := fun ho => hundecided v hv ho hfinal
    exact ⟨hne, (KybDb.mem_update hrows).mpr (.inr ⟨hv, hne⟩)⟩
  have hrest : ∀ v, v.IsFinal → announce (old.apply updates) ≠ .done ⟨v⟩ := by
    intro v hfinal hdone
    have houtcome : Outcome (announce (old.apply updates)) v := ⟨hfinal, .inr hdone⟩
    obtain ⟨e, he, -⟩ := event_of_isFinal hfinal
    rw [← houtcome.eq_of_announce, announce_eq_call he] at hdone
    cases hdone
  obtain ⟨hannounced, hsilent⟩ := h.tells (s := c.shared.update o updates) req
    (fun v => not_returned_of_call hk) rfl hrest
  constructor
  case unique => exact h.unique.updateWhere fun _ _ => rfl
  case phases =>
    intro t' k' hk'
    rcases Threads.update_eq_some hk' with ⟨-, hself⟩ | ⟨hne, hother⟩
    · cases hself
      exact .announcing _
    · refine (h.phases t' k' hother).later fun o' updates' hnext hundecided' v hv ho' => ?_
      rcases (KybDb.mem_update hrows).mp hv with rfl | ⟨hv, -⟩
      -- another review about to write the organization would have been in the way
      · intro hfinal
        obtain rfl : o = o' := hold.2.symm.trans ho'
        exact hne (halone hfinal t' ⟨k', updates', hother, hnext⟩)
      · exact hundecided' v hv ho'
  case decided =>
    intro t' v hdecides
    rcases decides_after hdecides with ⟨-, houtcome⟩ | ⟨-, hother⟩
    · obtain rfl := houtcome.eq_of_announce
      refine ⟨(KybDb.mem_update hrows).mpr (.inl rfl), fun s hs ho hfinal => ?_⟩
      exact hundecided s (h.kept s hs hfinal) (ho.trans hold.2) hfinal
    · obtain ⟨hv, hstart⟩ := h.decided t' v hother
      obtain ⟨k, -, houtcome⟩ := hother
      exact ⟨(hstays v hv houtcome.1).2, hstart⟩
  case once =>
    intro t₁ t₂ v v' hdecides hdecides' ho
    -- nobody has decided about this organization before
    have hfar : ∀ t' w, Decides c t' w → w.organizationId ≠ o := by
      intro t' w hother
      obtain ⟨hw, -⟩ := h.decided t' w hother
      obtain ⟨k, -, houtcome⟩ := hother
      exact (hstays w hw houtcome.1).1
    rcases decides_after hdecides with ⟨rfl, houtcome⟩ | ⟨-, hother⟩
    · obtain rfl := houtcome.eq_of_announce
      rcases decides_after hdecides' with ⟨rfl, -⟩ | ⟨-, hother'⟩
      · rfl
      · exact absurd (ho.trans hold.2) (hfar t₂ v' hother')
    · rcases decides_after hdecides' with ⟨rfl, houtcome'⟩ | ⟨-, hother'⟩
      · obtain rfl := houtcome'.eq_of_announce
        exact absurd (ho.symm.trans hold.2) (hfar t₁ v hother)
      · exact h.once t₁ t₂ v v' hother hother' ho
  case byReview =>
    intro v hv hfinal
    rcases (KybDb.mem_update hrows).mp hv with rfl | ⟨hv, -⟩
    · exact .inr ⟨t, decides_self ⟨hfinal, .inl rfl⟩⟩
    · refine (h.byReview v hv hfinal).imp_right ?_
      rintro ⟨t', hdecides⟩
      refine ⟨t', hdecides.other ?_⟩
      rintro rfl
      exact not_decides_of_call hk hcall hdecides
  case kept =>
    intro s hs hfinal
    exact (hstays s (h.kept s hs hfinal) hfinal).2
  case announced => exact hannounced
  case silent => exact hsilent

theorem FinalInv.init (h : (reviewSystem directory start).init c) : FinalInv start c := by
  obtain ⟨⟨hstart, hunique⟩, hnone⟩ := h
  have hdecides : ∀ t v, ¬ Decides c t v := by
    rintro t v ⟨k, hk, -⟩
    rw [hnone t] at hk
    cases hk
  constructor
  case unique => exact hstart ▸ hunique
  case phases =>
    intro t k hk
    rw [hnone t] at hk
    cases hk
  case decided =>
    exact fun t v hdecided => absurd hdecided (hdecides t v)
  case once =>
    exact fun t t' v v' hdecided => absurd hdecided (hdecides t v)
  case byReview =>
    exact fun v hv _ => .inl (hstart ▸ hv)
  case kept =>
    exact fun s hs _ => hstart ▸ hs
  case announced =>
    exact fun t v hreturned hfinal => absurd (hreturned.decides hfinal) (hdecides t v)
  case silent =>
    exact fun o _ => by rw [hstart]

/-- **Step lemma.** A review begins, makes a call that leaves the others alone, or a profile changes. -/
theorem FinalInv.step {l : ReviewLabel} (h : FinalInv start c) (halone : DecidesAlone c l)
    (hstep : (reviewSystem directory start).step c l c') : FinalInv start c' := by
  cases Calls.step_cases hstep with
  | start t req hfree =>
      have hreads := program_reads req
      refine h.read ?_ ?_ rfl rfl (fun v => not_outcome_of_reading hreads) (.reading hreads)
      · rintro v ⟨req', hk⟩
        rw [hfree] at hk
        cases hk
      · rintro v ⟨k, hk, -⟩
        rw [hfree] at hk
        cases hk
  | act t act req call next x s hk hexec =>
      have hmove := (h.phases t _ hk).move hexec
      generalize hrest : next x = rest at hmove
      cases hmove with
      | read hcall hverifications hevents hquiet hphase =>
          exact h.read (fun v => not_returned_of_call hk) (fun v => not_decides_of_call hk hcall)
            hverifications hevents hquiet hphase
      | wrote o updates old hcall hact hundecided hrows hannounce =>
          subst hcall hact hannounce
          exact h.wrote hk (halone _ o updates hk rfl) hundecided hrows
      | emitted v e hcall hfinal hevent hdone =>
          subst hcall hdone
          exact h.emitted hk hfinal hevent hrest
  | env profile s henv =>
      obtain rfl := henv
      exact ⟨h.unique, fun t k hk => (h.phases t k hk).later fun o updates _ hundecided => hundecided,
        h.decided, h.once, h.byReview, h.kept, h.announced, h.silent⟩

/-- A step leaves the final rows as they are. -/
theorem FinalInv.rows_kept {l : ReviewLabel} (h : FinalInv start c)
    (hstep : (reviewSystem directory start).step c l c') :
    ∀ v ∈ c.shared.verifications, v.IsFinal → v ∈ c'.shared.verifications := by
  intro v hv hfinal
  cases Calls.step_cases hstep with
  | start t req hfree => exact hv
  | act t act req call next x s hk hexec =>
      have hmove := (h.phases t _ hk).move hexec
      generalize next x = rest at hmove
      cases hmove with
      | read hcall hverifications hevents hquiet hphase =>
          show v ∈ s.verifications
          rw [hverifications]
          exact hv
      | wrote o updates old hcall hact hundecided hrows hannounce =>
          exact (KybDb.mem_update hrows).mpr (.inr ⟨hv, fun ho => hundecided v hv ho hfinal⟩)
      | emitted v e hcall hfinal hevent hdone => exact hv
  | env profile s henv =>
      obtain rfl := henv
      exact hv

theorem finalInv_of_reachable
    (h : ((reviewSystem directory start).restrict DecidesAlone).Reachable c) : FinalInv start c := by
  apply StepSystem.invariant_of_steps (M := (reviewSystem directory start).restrict DecidesAlone)
    (I := FinalInv start) _ _ h
  · intro c hinit
    exact FinalInv.init hinit
  · intro c l c' _ hI hs
    exact hI.step hs.1 hs.2

/-- A review that has ended with a decision has returned it. -/
theorem Decides.returned (h : Decides c t v) (hended : AllEnded c) : Returned c t v := by
  obtain ⟨⟨req, rest⟩, hk, hfinal, hrest⟩ := h
  rcases hrest with hrest | hrest
  · obtain ⟨e, he, -⟩ := event_of_isFinal hfinal
    have hleft := hended t _ hk
    rw [hrest, announce_eq_call he] at hleft
    exact absurd trivial hleft
  · subst hrest
    exact ⟨req, hk⟩

/-- **Finality of a decision.** In every run of reviews in which a final decision is written only while
no other review of the organization has looked and not written yet, one review decides about an
organization, its decision is not changed, and one event tells of it. -/
theorem final_decisions (h : ((reviewSystem directory start).restrict DecidesAlone).Reachable c) :
    Finality ((reviewSystem directory start).restrict DecidesAlone) start c where
  once t t' v v' hreturned hreturned' hfinal hfinal' ho :=
    (finalInv_of_reachable h).once t t' v v' (hreturned.decides hfinal) (hreturned'.decides hfinal') ho
  kept c' hleads := by
    refine StepSystem.rel_of_steps (M := (reviewSystem directory start).restrict DecidesAlone)
      (R := fun c c' : ReviewConfig => ∀ v ∈ c.shared.verifications, v.IsFinal →
        v ∈ c'.shared.verifications) ?_ ?_ ?_ h hleads
    · exact fun c v hv _ => hv
    · exact fun c₁ c₂ c₃ h₁ h₂ v hv hfinal => h₂ v (h₁ v hv hfinal) hfinal
    · exact fun c l c' hreach hs => (finalInv_of_reachable hreach).rows_kept hs.2
  announced hended v hv hfinal := by
    have hinv := finalInv_of_reachable h
    rcases hinv.byReview v hv hfinal with hstart | ⟨t, hdecides⟩
    · refine .inl ⟨hstart, hinv.silent _ fun t w hreturned hwfinal ho => ?_⟩
      exact (hinv.decided t w (hreturned.decides hwfinal)).2 v hstart ho.symm hfinal
    · exact .inr ⟨(hinv.decided t v hdecides).2, hinv.announced t v (hdecides.returned hended) hfinal⟩

end Invariant

/-! ## Two reviews of one verification -/

section TwoReviews

open Calls (Move)

/-- `payer` is an admin, and the verification of the organization `o`, of `payee`, is pending. -/
def pendingStore : KybDb where
  profile := Profiles.adminStore
  verifications := [(NewVerification.mk "o" "payee" .company "Acme Inc." "12345" "US" .pending "manual"
    "manual" none).row "v" 0]
  events := []

/-- `payer` verifies the organization. -/
def verifying : ReviewRequest := ⟨1, "payer", "o", ⟨.verified, none⟩⟩

/-- `payer` rejects the organization. -/
def rejecting : ReviewRequest := ⟨1, "payer", "o", ⟨.rejected, some "Not in the registry"⟩⟩

/-- The reviews of a schedule. -/
def playReviews (check : KybDb → List ReviewTask → Move ReviewRequest → Bool)
    (moves : List (Move ReviewRequest)) : Option (KybDb × List ReviewTask) :=
  (reviewServing Profiles.plainDirectory pendingStore).play
    (fun _ c db => db.answer Profiles.plainDirectory c) check moves (pendingStore, [])

theorem reachable_playReviews {guard : ReviewConfig → ReviewLabel → Prop}
    {check : KybDb → List ReviewTask → Move ReviewRequest → Bool} {moves : List (Move ReviewRequest)}
    {state : KybDb × List ReviewTask}
    (hcheck : ∀ s tasks m, check s tasks m = true → guard (Calls.begun s tasks)
      (m.label (reviewServing Profiles.plainDirectory pendingStore) .answer tasks))
    (h : playReviews check moves = some state) :
    ((reviewSystem Profiles.plainDirectory pendingStore).restrict guard).Reachable
      (Calls.begun state.1 state.2) :=
  Calls.reachable_play (fun _ c db => db.answers_answer Profiles.plainDirectory c) hcheck
    (.init ⟨⟨rfl, List.nodup_singleton _⟩, fun _ => rfl⟩) h

/-- The request is about to update a row. -/
def isWriting (k : ReviewTask) : Bool :=
  match nextCall k.rest with
  | some (.updateVerification _ _) => true
  | _ => false

/-- No other request is about to update a row. -/
def writesAlone (_ : KybDb) (tasks : List ReviewTask) : Move ReviewRequest → Bool
  | .start _ => true
  | .next t => tasks.zipIdx.all fun other => other.2 = t || !isWriting other.1

theorem decidesAlone_of_move {db : KybDb} {tasks : List ReviewTask} {m : Move ReviewRequest}
    (h : writesAlone db tasks m = true) : DecidesAlone (Calls.begun db tasks)
      (m.label (reviewServing Profiles.plainDirectory pendingStore) .answer tasks) := by
  cases m with
  | start req => trivial
  | next t =>
      rintro k o updates - - - t' ⟨k', updates', hk', hnext⟩
      have hother := List.all_eq_true.mp h (k', t') (List.mem_zipIdx_iff_getElem?.mpr hk')
      simpa [isWriting, hnext] using hother

/-- `payer` verifies the organization, and then finds that it cannot be rejected. -/
theorem final_decisions_one : ∃ c,
    ((reviewSystem Profiles.plainDirectory pendingStore).restrict DecidesAlone).Reachable c ∧
      Finality ((reviewSystem Profiles.plainDirectory pendingStore).restrict DecidesAlone)
        pendingStore c ∧
      c.shared.verifications.map KybVerification.status = [.verified] ∧
      c.shared.events = [.verified "o" "Acme Inc." (some 1)] := by
  have hrun : ((playReviews writesAlone (.start verifying :: .start rejecting ::
      (List.replicate 5 (.next 0) ++ List.replicate 5 (.next 1)))).any fun state =>
        decide (state.1.verifications.map KybVerification.status = [.verified] ∧
          state.1.events = [.verified "o" "Acme Inc." (some 1)])) = true := by decide +kernel
  obtain ⟨state, hstate, hends⟩ := (Option.any_eq_true _ _).mp hrun
  have hreach := reachable_playReviews (fun _ _ _ => decidesAlone_of_move) hstate
  exact ⟨_, hreach, final_decisions hreach, of_decide_eq_true hends⟩

/-- The request has returned a final row of the organization `o`. -/
def returnedFinal (k : ReviewTask) : Bool :=
  match k with
  | ⟨_, .done result⟩ => decide result.verification.IsFinal && result.verification.organizationId = "o"
  | _ => false

theorem returnedFinal_cases {c : ReviewConfig} {t : ℕ} {k : ReviewTask} (hk : c.threads t = some k)
    (h : returnedFinal k = true) :
    ∃ v, Returned c t v ∧ v.IsFinal ∧ v.organizationId = "o" := by
  rcases k with ⟨req, ⟨⟨v⟩⟩ | e | ⟨call, next⟩⟩
  · obtain ⟨hfinal, ho⟩ := Bool.and_eq_true_iff.mp h
    exact ⟨v, ⟨req, hk⟩, of_decide_eq_true hfinal, of_decide_eq_true ho⟩
  · cases h
  · cases h

/-- Both reviews find the row pending, and both decide. -/
theorem not_final_decisions :
    ¬ ∀ start c, (reviewSystem Profiles.plainDirectory start).Reachable c →
      Finality (reviewSystem Profiles.plainDirectory start) start c := by
  intro hall
  have hrun : ((playReviews (fun _ _ _ => true) (.start verifying :: .start rejecting ::
      (List.replicate 3 (.next 0) ++ List.replicate 3 (.next 1) ++ List.replicate 2 (.next 0) ++
        List.replicate 2 (.next 1)))).any fun state =>
          state.2[0]?.any returnedFinal && state.2[1]?.any returnedFinal) = true := by decide +kernel
  obtain ⟨state, hstate, hends⟩ := (Option.any_eq_true _ _).mp hrun
  obtain ⟨hfirst, hsecond⟩ := Bool.and_eq_true_iff.mp hends
  have hreach : ((reviewSystem Profiles.plainDirectory pendingStore).restrict fun _ _ => True).Reachable
      (Calls.begun state.1 state.2) := reachable_playReviews (fun _ _ _ _ => trivial) hstate
  obtain ⟨k, hk, hreturned⟩ := (Option.any_eq_true _ _).mp hfirst
  obtain ⟨k', hk', hreturned'⟩ := (Option.any_eq_true _ _).mp hsecond
  obtain ⟨v, hv, hfinal, ho⟩ :=
    returnedFinal_cases (c := Calls.begun state.1 state.2) (t := 0) hk hreturned
  obtain ⟨v', hv', hfinal', ho'⟩ :=
    returnedFinal_cases (c := Calls.begun state.1 state.2) (t := 1) hk' hreturned'
  have honce := (hall _ _ hreach.of_restrict).once 0 1 v v' hv hv' hfinal hfinal' (ho'.trans ho.symm)
  exact absurd honce (by decide)

end TwoReviews

end ThalosBackend.Kyb
