import ThalosBackend.Agreements.AnsweredQueries
import ThalosBackend.Agreements.AnsweringDb
import ThalosBackend.Agreements.RowSteps

/-!
# What a sync does

`syncedRow` is the row after `doSync` when no query fails, and `syncReport` what `doSync` reports of it.

`doSync` decides which side is ahead by the position in a list of five statuses. `cancelled` and
`disputed` are not in the list, so an agreement that is in the list counts as ahead of them: an escrow
that is disputed or cancelled upstream is followed only by an agreement off the list.
-/

set_option autoImplicit false

namespace ThalosBackend.Agreements

open Js (Timestamp Value nonEmpty)
open Calls (ask Ensures)

/-! ## The outcome, as a function -/

/-- The status of an escrow in the words of an agreement; `none` when it has no text. -/
def mappedStatus (escrow : Value) : Option Value :=
  (escrow.field "status").toText.map fun text => twToThalosStatus text (escrow.field "status")

/-- The participants are synced, and one of them has no text. -/
def namesUnreadable (escrow : Value) : Bool :=
  ((escrow.field "sender").truthy || (escrow.field "receiver").truthy) &&
    ["sender", "receiver", "approver"].any fun role =>
      (escrow.field role).truthy && (escrow.field role).toText.isNone

/-- The direction of a sync with this escrow. -/
def directionOf (escrow : Value) (a : Agreement) : Option SyncDirection :=
  (mappedStatus escrow).map (syncDirection (a.status.getD "pending"))

/-- The row after `doSync` with this escrow. -/
def pullRow (now : Timestamp) (escrow : Value) (a : Agreement) : Agreement :=
  if directionOf escrow a = some .twToThalos then
    a.apply { status := (mappedStatus escrow).bind columnValue, updatedAt := now }
  else a

/-- What `doSync` reports of an escrow, if it ends without an error. -/
def syncReport (escrow : Value) (a : Agreement) : Option SyncDirection :=
  match directionOf escrow a with
  | none => none
  | some direction =>
    if direction = .twToThalos ∧ namesUnreadable escrow then none else some direction

/-- A result in this direction. -/
structure Synced (direction : SyncDirection) (result : SyncResult) : Prop where
  direction : result.direction = some direction
  synced : result.synced = true
  actions : result.actions ≠ []

/-- The end of a sync with this escrow. -/
def SyncEnd (escrow : Value) (a : Agreement) (out : Except HttpException SyncResult) : Prop :=
  match syncReport escrow a with
  | none => ∃ e, out = .error e
  | some direction => ∃ result, out = .ok result ∧ Synced direction result

/-! ## Following the program -/

section Outcome

variable {now : Timestamp} {agreementId contractId : String} {fetch : Fetch} {escrow : Value}
  {a : Agreement} {db : AgreementDb}

theorem agreementAt_congr {db' : AgreementDb} (h : db'.agreements = db.agreements) (id : String) :
    db'.agreementAt id = db.agreementAt id := by
  rw [AgreementDb.agreementAt, h, AgreementDb.agreementAt]

/-- An update by id, seen from the row under the id. -/
theorem agreementAt_updateAgreements (updates : AgreementUpdates)
    (h : db.agreementAt agreementId = some a) :
    (db.updateAgreements (fun b => b.id = agreementId) updates).agreementAt agreementId =
      some (a.apply updates) := by
  have hsole := Table.sole_eq_some.mp h
  have hfilter : ∀ rows : List Agreement,
      (Table.updateWhere (fun b => b.id = agreementId) (Agreement.apply updates) rows).filter
          (fun b => b.id = agreementId) =
        (rows.filter fun b => b.id = agreementId).map (Agreement.apply updates) := by
    intro rows
    induction rows with
    | nil => rfl
    | cons b rest ih =>
        rw [Table.updateWhere, List.map_cons, ← Table.updateWhere]
        by_cases hid : b.id = agreementId
        · simp [hid, ih]
        · simp [hid, ih]
  rw [AgreementDb.agreementAt, Table.sole_eq_some]
  exact (hfilter db.agreements).trans (by rw [hsole]; rfl)

variable (agreementId escrow) in
/-- A role is unreadable when the participant it names has no text. -/
theorem namedParticipant_end (existing : List Participant) (role : String) :
    (∃ rows, namedParticipant agreementId existing escrow role = .ok rows) ∧
        ((escrow.field role).truthy && (escrow.field role).toText.isNone) = false ∨
      (∃ e, namedParticipant agreementId existing escrow role = .error e) ∧
        ((escrow.field role).truthy && (escrow.field role).toText.isNone) = true := by
  cases htruthy : (escrow.field role).truthy with
  | false => exact .inl ⟨⟨[], by simp [namedParticipant, htruthy]⟩, rfl⟩
  | true =>
      cases htext : (escrow.field role).toText with
      | none => exact .inr ⟨⟨_, by simp only [namedParticipant, htruthy, htext]; rfl⟩, rfl⟩
      | some text =>
          refine .inl ⟨?_, rfl⟩
          simp only [namedParticipant, htruthy, htext, Bool.not_true, Bool.false_eq_true, if_false]
          split
          · exact ⟨_, rfl⟩
          · exact ⟨_, rfl⟩

/-- A program that reads the participant of a role goes on with it, or fails. -/
theorem answered_namedParticipant {α : Type} {existing : List Participant} {role : String}
    {f : List Participant → AgreementProgram α} {Q : Except HttpException α → AgreementDb → Prop}
    (hreads : ((escrow.field role).truthy && (escrow.field role).toText.isNone) = false →
      ∀ rows, Ensures Answers (f rows) db Q)
    (hthrows : ((escrow.field role).truthy && (escrow.field role).toText.isNone) = true →
      ∀ e, Q (.error e) db) :
    Ensures Answers (Calls.ofExcept (namedParticipant agreementId existing escrow role) >>= f) db
      Q := by
  refine Calls.ensures_bind.mpr (Calls.ensures_ofExcept.mpr ?_)
  rcases namedParticipant_end agreementId escrow existing role with
    ⟨⟨rows, hrows⟩, hread⟩ | ⟨⟨e, hfails⟩, hunread⟩
  · rw [hrows]
    exact ⟨fun rows' _ => hreads hread rows', fun _ he => by cases he⟩
  · rw [hfails]
    exact ⟨fun _ hok => (by cases hok), fun e' _ => hthrows hunread e'⟩

/-- The participants are written, unless one of them has no text. -/
theorem syncParticipants_end :
    Ensures Answers (syncParticipants agreementId escrow) db fun out db' => SameTables db db' ∧
      if (["sender", "receiver", "approver"].any fun role =>
          (escrow.field role).truthy && (escrow.field role).toText.isNone) then ∃ e, out = .error e
      else out = .ok () := by
  refine Calls.ensures_ask fun existing db₁ hx => ?_
  obtain ⟨-, rfl⟩ := hx
  dsimp only
  simp only [List.any_cons, List.any_nil, Bool.or_false]
  refine answered_namedParticipant (fun hsender sender => ?_) fun hthrows e => ?_
  swap
  · rw [hthrows]
    exact ⟨.refl _, e, rfl⟩
  rw [hsender, Bool.false_or]
  refine answered_namedParticipant (fun hreceiver receiver => ?_) fun hthrows e => ?_
  swap
  · rw [hthrows]
    exact ⟨.refl _, e, rfl⟩
  rw [hreceiver, Bool.false_or]
  refine answered_namedParticipant (fun happrover approver => ?_) fun hthrows e => ?_
  swap
  · rw [hthrows]
    exact ⟨.refl _, e, rfl⟩
  rw [happrover]
  split
  · exact ⟨.refl _, rfl⟩
  · refine Calls.ensures_ask fun x db₂ hx => ?_
    obtain ⟨-, rfl⟩ := hx
    exact ⟨⟨rfl, rfl, rfl, rfl⟩, rfl⟩

theorem answered_logSyncActivity {α : Type} {action : String} {details : List (String × Value)}
    {f : Unit → AgreementProgram α} {Q : Except HttpException α → AgreementDb → Prop}
    (h : ∀ db', SameTables db db' → Ensures Answers (f ()) db' Q) :
    Ensures Answers (logSyncActivity now agreementId action details >>= f) db Q :=
  answered_logActivity h

/-- A sync that takes nothing over logs its direction and leaves the row. -/
theorem logged_end {direction : SyncDirection} {action : String} {details : List (String × Value)}
    {result : SyncResult} (ha : db.agreementAt a.id = some a)
    (hdirection : directionOf escrow a = some direction) (hother : direction ≠ .twToThalos)
    (hresult : Synced direction result) :
    Ensures Answers (logSyncActivity now a.id action details >>= fun _ => .done result) db
      fun out db' => db'.agreementAt a.id = some (pullRow now escrow a) ∧ SyncEnd escrow a out := by
  have hrow : pullRow now escrow a = a := by
    rw [pullRow, hdirection]
    exact if_neg fun h => hother (Option.some.inj h)
  have hreport : syncReport escrow a = some direction := by
    simp only [syncReport, hdirection]
    exact if_neg fun h => hother h.1
  refine answered_logSyncActivity fun db' hsame => ⟨?_, ?_⟩
  · rw [agreementAt_congr hsame.agreements, ha, hrow]
  · simp only [SyncEnd, hreport]
    exact ⟨_, rfl, hresult⟩

/-- A sync that takes the status over writes the row, and reports it unless a participant that is named
has no text. -/
theorem pullStatus_end {current : String} {mapped : Value} {actions : List String}
    (ha : db.agreementAt a.id = some a) (hmapped : mappedStatus escrow = some mapped)
    (hdirection : directionOf escrow a = some .twToThalos) :
    Ensures Answers (pullStatus now a.id contractId current escrow mapped actions) db
      fun out db' => db'.agreementAt a.id = some (pullRow now escrow a) ∧ SyncEnd escrow a out := by
  have hrow : pullRow now escrow a =
      a.apply { status := columnValue mapped, updatedAt := now } := by
    rw [pullRow, hdirection, hmapped]
    rfl
  have hreads : namesUnreadable escrow = false → syncReport escrow a = some .twToThalos := by
    intro hreads
    simp [syncReport, hdirection, hreads]
  refine Calls.ensures_ask fun x db₁ hx => ?_
  obtain ⟨rfl, rfl⟩ := hx
  have hat := agreementAt_updateAgreements { status := columnValue mapped, updatedAt := now } ha
  rw [← hrow] at hat
  dsimp only
  split
  · -- participants are read only if the escrow names one
    rename_i hnamed
    have hunreadable : namesUnreadable escrow = ["sender", "receiver", "approver"].any fun role =>
        (escrow.field role).truthy && (escrow.field role).toText.isNone := by
      rw [namesUnreadable, Bool.or_eq_true_iff.mpr hnamed, Bool.true_and]
    refine Calls.ensures_bind.mpr (syncParticipants_end.mono ?_)
    rintro out db₂ ⟨hsame, hend⟩
    rw [← hunreadable] at hend
    refine ⟨fun _ hok => ?_, fun e he => ?_⟩
    · have hread : namesUnreadable escrow = false := by
        rw [Bool.eq_false_iff]
        intro hthrows
        rw [if_pos hthrows] at hend
        obtain ⟨e, he⟩ := hend
        rw [hok] at he
        cases he
      refine answered_logSyncActivity fun db' hsame' => ⟨?_, ?_⟩
      · rw [agreementAt_congr hsame'.agreements, agreementAt_congr hsame.agreements, hat]
      · simp only [SyncEnd, hreads hread]
        exact ⟨_, rfl, rfl, rfl, by simp⟩
    · -- the row is written before the participants are read
      have hthrows : namesUnreadable escrow = true := by
        by_contra hread
        rw [if_neg hread, he] at hend
        cases hend
      refine ⟨?_, ?_⟩
      · rw [agreementAt_congr hsame.agreements, hat]
      · simp only [SyncEnd, syncReport, hdirection, hthrows]
        exact ⟨e, rfl⟩
  · rename_i hunnamed
    have hread : namesUnreadable escrow = false := by
      rw [namesUnreadable, Bool.eq_false_iff.mpr (mt Bool.or_eq_true_iff.mp hunnamed),
        Bool.false_and]
    refine answered_logSyncActivity fun db' hsame => ⟨?_, ?_⟩
    · rw [agreementAt_congr hsame.agreements, hat]
    · simp only [SyncEnd, hreads hread]
      exact ⟨_, rfl, rfl, rfl, by simp⟩

/-- `doSync` of a fetched escrow leaves `pullRow`, and ends as `syncReport` says. -/
theorem syncWith_end (ha : db.agreementAt a.id = some a) :
    Ensures Answers (syncWith now a contractId escrow) db fun out db' =>
      db'.agreementAt a.id = some (pullRow now escrow a) ∧ SyncEnd escrow a out := by
  cases htext : (escrow.field "status").toText with
  | none =>
      simp only [syncWith, htext]
      refine ⟨?_, ?_⟩
      · rw [ha, pullRow, directionOf, mappedStatus, htext]
        rfl
      · simp only [SyncEnd, syncReport, directionOf, mappedStatus, htext, Option.map_none]
        exact ⟨_, rfl⟩
  | some text =>
      have hmapped : mappedStatus escrow = some (twToThalosStatus text (escrow.field "status")) := by
        rw [mappedStatus, htext]
        rfl
      have hdirection : directionOf escrow a = some (syncDirection (a.status.getD "pending")
          (twToThalosStatus text (escrow.field "status"))) := by
        rw [directionOf, hmapped]
        rfl
      simp only [syncWith, htext]
      cases hside : syncDirection (a.status.getD "pending")
          (twToThalosStatus text (escrow.field "status")) with
      | alreadyInSync =>
          rw [hside] at hdirection
          exact logged_end ha hdirection (by simp) ⟨rfl, rfl, by simp⟩
      | thalosToTw =>
          rw [hside] at hdirection
          exact logged_end ha hdirection (by simp) ⟨rfl, rfl, by simp⟩
      | twToThalos =>
          rw [hside] at hdirection
          exact pullStatus_end ha hmapped hdirection

/-- `doSync` of an agreement whose escrow is fetched. -/
theorem doSync_end (ha : db.agreementAt agreementId = some a)
    (hcontract : nonEmpty a.contractId = some contractId)
    (hfetched : (fetchTrustlessEscrow contractId fetch).truthy = true) :
    Ensures Answers (doSync now agreementId fetch) db fun out db' =>
      db'.agreementAt agreementId =
          some (pullRow now (fetchTrustlessEscrow contractId fetch) a) ∧
        SyncEnd (fetchTrustlessEscrow contractId fetch) a out := by
  obtain ⟨-, rfl⟩ := mem_of_agreementAt ha
  refine answered_getAgreement (fun b hb => ?_) fun hnone => ?_
  · rw [ha] at hb
    cases hb
    simp only [hcontract, hfetched, if_true]
    exact syncWith_end ha
  · rw [ha] at hnone
    cases hnone

end Outcome

/-! ## Changes upstream that are to be followed -/

/-- The main line of the lifecycle. -/
def mainLine : List AgreementStatus := [.pending, .funded, .active, .inReview, .completed]

/-- The change is a transition, to `cancelled`, to `disputed` or along the main line. -/
def isAdmissible (source target : AgreementStatus) : Bool :=
  canTransition source.text target.text &&
    (target = .cancelled || target = .disputed ||
      source ∈ mainLine && target ∈ mainLine && mainLine.idxOf source < mainLine.idxOf target)

/-- An admissible change is pulled unless it leaves the main line. -/
theorem syncDirection_of_admissible {source target : AgreementStatus}
    (h : isAdmissible source target = true) :
    syncDirection source.text (.string target.text) = .twToThalos ↔
      target ∈ mainLine ∨ source ∉ mainLine := by
  cases source <;> cases target <;> revert h <;> decide +kernel

section Follows

variable {now : Timestamp} {agreementId contractId : String} {fetch : Fetch} {a : Agreement}
  {db db' : AgreementDb} {source target : AgreementStatus} {out : Except HttpException SyncResult}

/-- **A sync follows upstream.** An admissible change of the escrow is the agreement's status after a
sync exactly when it stays on the main line, or the agreement was off it. -/
theorem sync_follows_iff (ha : db.agreementAt agreementId = some a)
    (hstatus : a.status = some source.text) (hcontract : nonEmpty a.contractId = some contractId)
    (hfetched : (fetchTrustlessEscrow contractId fetch).truthy = true)
    (hmapped : mappedStatus (fetchTrustlessEscrow contractId fetch) = some (.string target.text))
    (hadmissible : isAdmissible source target = true)
    (hrun : Calls.Runs Answers (doSync now agreementId fetch) db out db') :
    (db'.agreementAt agreementId).map Agreement.status = some (some target.text) ↔
      target ∈ mainLine ∨ source ∉ mainLine := by
  obtain ⟨hrow, -⟩ := Calls.ensures_iff.mp (doSync_end ha hcontract hfetched) out db' hrun
  have hne : source.text ≠ target.text :=
    canTransition_ne (Bool.and_eq_true_iff.mp hadmissible).1
  have hdirection : directionOf (fetchTrustlessEscrow contractId fetch) a =
      some (syncDirection source.text (.string target.text)) := by
    rw [directionOf, hmapped, hstatus]
    rfl
  rw [hrow, ← syncDirection_of_admissible hadmissible, Option.map_some, Option.some.injEq, pullRow,
    hdirection, hmapped]
  constructor
  · intro hfollows
    by_contra hbehind
    rw [if_neg (mt Option.some.inj hbehind), hstatus] at hfollows
    exact hne (Option.some.inj hfollows)
  · intro hpull
    rw [hpull, if_pos rfl]
    rfl

end Follows

/-- What Trustless Work answers about an escrow in this state. -/
def fetchStatus (status : String) : Fetch :=
  answered (.object [("id", .string "C"), ("status", .string status)])

/-- An agreement in this state, over a contract. -/
def agreementIn (status : AgreementStatus) : Agreement where
  id := "a"
  contractId := some "C"
  title := "Site"
  description := none
  amount := "10"
  asset := some "USDC"
  status := some status.text
  agreementType := some "single"
  milestones := []
  metadata := .object []
  createdBy := "payer"
  fundedAt := none
  completedAt := none
  createdAt := 0
  updatedAt := 0

/-- The end of a sync of this agreement with the escrow in another state. -/
def syncedWith (source : AgreementStatus) (status : String) :
    Except HttpException SyncResult × AgreementDb :=
  Calls.run (fun c db => AgreementDb.answer c db) (doSync 1 "a" (fetchStatus status))
    (storeWith twoParties [agreementIn source] [])

/-- The theorem for an escrow that has been funded. -/
theorem sync_follows_iff_funded :
    ((syncedWith .pending "funded").2.agreementAt "a").map Agreement.status = some (some "funded") ↔
      AgreementStatus.funded ∈ mainLine ∨ AgreementStatus.pending ∉ mainLine := by
  have hrow : (storeWith twoParties [agreementIn .pending] []).agreementAt "a" =
      some (agreementIn .pending) := rfl
  have hfetched : (fetchTrustlessEscrow "C" (fetchStatus "funded")).truthy = true := by
    decide +kernel
  have hmapped : mappedStatus (fetchTrustlessEscrow "C" (fetchStatus "funded")) =
      some (.string AgreementStatus.funded.text) := rfl
  have hstatus : (agreementIn .pending).status = some AgreementStatus.pending.text := rfl
  exact sync_follows_iff hrow hstatus rfl hfetched hmapped (by decide)
    (Calls.runs_run (fun c db => db.answers_answer c) _ _)

/-- An escrow is disputed, and the agreement stays active. -/
theorem not_sync_follows : ¬ ∀ (db db' : AgreementDb) (now : Timestamp) (agreementId contractId : String)
    (fetch : Fetch) (a : Agreement) (source target : AgreementStatus)
    (out : Except HttpException SyncResult), db.agreementAt agreementId = some a →
      a.status = some source.text → nonEmpty a.contractId = some contractId →
      (fetchTrustlessEscrow contractId fetch).truthy = true →
      mappedStatus (fetchTrustlessEscrow contractId fetch) = some (.string target.text) →
      isAdmissible source target = true →
      Calls.Runs Answers (doSync now agreementId fetch) db out db' →
        (db'.agreementAt agreementId).map Agreement.status = some (some target.text) := by
  intro h
  have hfollows := h (storeWith twoParties [agreementIn .active] []) (syncedWith .active "disputed").2 1
    "a" "C" (fetchStatus "disputed") (agreementIn .active) .active .disputed
    (syncedWith .active "disputed").1 rfl rfl rfl (by decide +kernel) rfl (by decide)
    (Calls.runs_run (fun c db => db.answers_answer c) _ _)
  revert hfollows
  decide +kernel

end ThalosBackend.Agreements
