import ThalosBackend.Webhooks.WebhookQueries

/-!
# Milestone updates at the same time

`updateMilestone`, the milestone webhook and the reconcile read the whole list of milestones, change
entries of it and store the whole list. An update stores the entries it has not changed as it read
them, whatever is stored there by now.

`StillAsRead` says when this does no harm: at the moment of the update, every entry that the request
leaves as it read it is still stored so. In the runs in which every answered update meets it, an entry
is what the latest update that changed it made of it.
-/

set_option autoImplicit false

namespace ThalosBackend.Agreements

open Js (FloatArithmetic Timestamp Value)
open Calls (Follows Only)

/-! ## The requests -/

/-- The requests that write milestones. -/
def AgreementRequest.writesMilestones : AgreementRequest → Bool
  | .updateMilestone _ _ _ | .webhook _ | .reconcile _ _ _ => true
  | _ => false

/-- They come on any tables; the ids of agreements are unique. -/
def milestoneTraffic : Traffic where
  serves := AgreementRequest.writesMilestones
  startsFrom db := Table.Unique Agreement.id db.agreements

/-- The entry of the milestones that were read last. -/
def readEntry (seen : Option Agreement) (index : ℕ) : Option Milestone :=
  seen.bind fun a => a.milestones[index]?

/-- The update stores another entry than the request had read. -/
def RowWrite.changes (w : RowWrite) (index : ℕ) : Bool :=
  w.updates.milestones.any fun milestones => milestones[index]? ≠ readEntry w.seen index

/-- The latest update that changed an entry of an agreement. -/
def AgreementStore.lastChange (s : AgreementStore) (agreementId : String) (index : ℕ) :
    Option RowWrite :=
  s.writes.find? fun w => w.before.id = agreementId && w.changes index

/-- Every entry is what the latest update that changed it made of it, and every update of milestones
is of the agreement whose milestones its request had read. -/
structure AgreementStore.NoLostUpdate (s : AgreementStore) : Prop where
  kept : ∀ a ∈ s.db.agreements, ∀ index w, s.lastChange a.id index = some w →
    a.milestones[index]? = w.after.milestones[index]?
  ofRead : ∀ w ∈ s.writes, w.updates.milestones ≠ none → ∃ a, w.seen = some a ∧ a.id = w.before.id

/-- An answered update finds the entries that it leaves as they were read as they were read. -/
def StillAsRead (c : AgreementConfig milestoneTraffic) :
    AgreementLabel milestoneTraffic → Prop
  | .act t .answer => ∀ req call history cont, c.threads t = some ⟨req, .call (call, history) cont⟩ →
      ∀ w ∈ call.written req.operation history c.shared.db, ∀ milestones,
        w.updates.milestones = some milestones → ∀ index, w.changes index = false →
          w.before.milestones[index]? = milestones[index]?
  | _ => True

/-! ## What the programs write -/

/-- The ids of the agreements, and their contract ids. -/
def AgreementDb.contracts (db : AgreementDb) : List (String × Option String) :=
  db.agreements.map fun a => (a.id, a.contractId)

/-- What a read finds when these are the contracts. -/
def ReadsFrom (contracts : List (String × Option String)) : (c : AgreementCall) → c.reply → Prop
  | .getAgreement id, x => ∀ a, x = .ok a → a.id = id
  | .findByContract contractId, x => ∀ a, x = .ok (some a) →
      ∀ entry ∈ contracts, entry.2 = some contractId → entry.1 = a.id
  | _, _ => True

/-- The query keeps the contracts as they are, and the milestones it writes are for the agreement that
was read last. -/
def WritesWhatWasRead (contracts : List (String × Option String)) (c : AgreementCall)
    (history : QueryHistory) : Prop :=
  match c with
  | .insertAgreement _ | .deleteAgreement _ => False
  | .updateAgreement id updates => updates.contractId = none ∧
      (updates.milestones ≠ none → ∃ a, lastRead history = some a ∧ a.id = id)
  | .changeStatusByContract _ _ updates => updates.contractId = none ∧ updates.milestones = none
  | .updateByContract contractId updates => updates.contractId = none ∧
      ∃ a, lastRead history = some a ∧
        ∀ entry ∈ contracts, entry.2 = some contractId → entry.1 = a.id
  | _ => True

section Programs

variable {contracts : List (String × Option String)} {history : QueryHistory} {α : Type}

/-- The discipline of the programs. -/
abbrev WritesRead (contracts : List (String × Option String)) {α : Type} (p : AgreementProgram α)
    (history : QueryHistory) : Prop :=
  Follows (ReadsFrom contracts) (WritesWhatWasRead contracts) (fun _ _ => True) p history

theorem writesWhatWasRead_of_quiet (c : AgreementCall) (history : QueryHistory)
    (hc : c.isQuiet = true) : WritesWhatWasRead contracts c history := by
  cases c with
  | insertAgreement new => cases hc
  | deleteAgreement id => cases hc
  | updateAgreement id updates => cases hc
  | changeStatusByContract contractId target updates => cases hc
  | updateByContract contractId updates => cases hc
  | _ => trivial

theorem Quiet.writesRead {p : AgreementProgram α} (hp : Quiet p) : WritesRead contracts p history :=
  Only.follows hp writesWhatWasRead_of_quiet

theorem updateMilestone_writesRead (F : FloatArithmetic) (now : Timestamp)
    (userId agreementId : String) (dto : UpdateMilestoneDto) :
    WritesRead contracts (updateMilestone F now userId agreementId dto) history := by
  refine (assertCanAccessAgreement_quiet _ _).writesRead.bind fun _ history₁ => ?_
  refine (assertActorWallet_quiet _ _).writesRead.bind fun _ history₂ => ?_
  refine Calls.follows_ask trivial fun x hx => ?_
  cases x with
  | error e => exact Calls.follows_done trivial
  | ok agreement =>
      dsimp only
      split
      · exact Calls.follows_done trivial
      · refine Calls.follows_ofExcept fun consistency _ => ?_
        cases consistency with
        | error e => exact Calls.follows_fail _
        | ok _ =>
            refine Calls.follows_ask ⟨rfl, fun _ => ⟨agreement, rfl, hx agreement rfl⟩⟩ fun y _ => ?_
            cases y with
            | error e => exact Calls.follows_done trivial
            | ok _ =>
                refine (logActivity_quiet _).writesRead.bind fun _ _ => ?_
                refine (emitAll_quiet _).writesRead.bind fun _ _ => ?_
                refine (inBackground_quiet _).writesRead.bind fun _ _ => ?_
                exact Calls.follows_done trivial

/-- A webhook stores milestones right after it has found the only agreement of the contract. -/
theorem handleEvent_writesRead (now : Timestamp) (payload : Value) :
    WritesRead contracts (Webhooks.handleEvent now payload) [] := by
  refine (Webhooks.handleEvent_asks now payload).mono (fun _ _ _ => trivial) ?_
    (fun _ _ _ => trivial) (List.forall_mem_nil _)
  intro c history hread hc
  cases c with
  | insertAgreement new => cases hc
  | deleteAgreement id => cases hc
  | updateAgreement id updates => cases hc
  | changeStatusByContract contractId target updates => exact ⟨hc.1, hc.2.1⟩
  | updateByContract contractId updates =>
      obtain ⟨hcontract, -, a, before, rfl⟩ := hc
      exact ⟨hcontract, a, rfl, hread _ List.mem_cons_self a rfl⟩
  | _ => trivial

theorem syncWith_writesRead (now : Timestamp) (agreement : Agreement) (contractId : String)
    (escrow : Value) : WritesRead contracts (syncWith now agreement contractId escrow) history := by
  unfold syncWith
  split
  · exact Calls.follows_fail _
  · dsimp only
    split
    · exact (logSyncActivity_quiet _ _ _ _).writesRead.bind fun _ _ => Calls.follows_done trivial
    · -- the status is taken over; neither the contract nor the milestones are touched
      refine Calls.follows_ask ⟨rfl, fun hm => absurd rfl hm⟩ fun x _ => ?_
      cases x with
      | error e => exact Calls.follows_done trivial
      | ok _ =>
          dsimp only
          split
          · refine (syncParticipants_quiet _ _).writesRead.bind fun _ _ => ?_
            exact (logSyncActivity_quiet _ _ _ _).writesRead.bind fun _ _ => Calls.follows_done trivial
          · exact (logSyncActivity_quiet _ _ _ _).writesRead.bind fun _ _ => Calls.follows_done trivial
    · exact (logSyncActivity_quiet _ _ _ _).writesRead.bind fun _ _ => Calls.follows_done trivial

theorem doSync_writesRead (now : Timestamp) (agreementId : String) (fetch : Fetch) :
    WritesRead contracts (doSync now agreementId fetch) history := by
  refine Calls.follows_ask trivial fun x _ => ?_
  cases x with
  | error e => exact Calls.follows_done trivial
  | ok agreement =>
      dsimp only
      split
      · exact Calls.follows_done trivial
      · split
        · exact syncWith_writesRead now agreement _ _
        · exact (logSyncActivity_quiet _ _ _ _).writesRead.bind fun _ _ => Calls.follows_done trivial

theorem correctMilestones_writesRead (now : Timestamp) (agreementId : String) (fetch : Fetch) :
    WritesRead contracts (correctMilestones now agreementId fetch) history := by
  refine Calls.follows_ask trivial fun x hx => ?_
  cases x with
  | error e => exact Calls.follows_done trivial
  | ok agreement =>
      dsimp only
      split
      · exact Calls.follows_done trivial
      · split
        · exact Calls.follows_done trivial
        · split
          · refine Calls.follows_ofExcept fun milestones _ => ?_
            refine Calls.follows_ask ⟨rfl, fun _ => ⟨agreement, rfl, hx agreement rfl⟩⟩ fun y _ => ?_
            exact (logReconciled_quiet _ _ _ _).writesRead.bind fun _ _ => Calls.follows_done trivial
          · exact (logReconciled_quiet _ _ _ _).writesRead.bind fun _ _ => Calls.follows_done trivial

theorem doReconcile_writesRead (now : Timestamp) (agreementId : String) (first second : Fetch) :
    WritesRead contracts (doReconcile now agreementId first second) history := by
  refine (doSync_writesRead now agreementId first).bind fun result _ => ?_
  split
  · exact Calls.follows_done trivial
  · split
    · exact Calls.follows_done trivial
    · refine (correctMilestones_writesRead now agreementId second).bind fun _ _ => ?_
      exact Calls.follows_done trivial

/-- Every request that writes milestones keeps to the discipline. -/
theorem program_writesRead (F : FloatArithmetic) (o : Operation)
    (ho : o.request.writesMilestones = true) : WritesRead contracts (o.program F) [] := by
  obtain ⟨now, request⟩ := o
  cases request with
  | updateMilestone userId agreementId dto =>
      refine (updateMilestone_writesRead F now userId agreementId dto).bind fun _ _ => ?_
      exact Calls.follows_done trivial
  | webhook payload =>
      exact (handleEvent_writesRead now payload).bind fun _ _ => Calls.follows_done trivial
  | reconcile agreementId first second =>
      refine (doReconcile_writesRead now agreementId first second).bind fun _ _ => ?_
      exact Calls.follows_done trivial
  | _ => cases ho

end Programs

/-! ## What an answered query keeps -/

section Queries

variable {c : AgreementCall} {db db' : AgreementDb} {x : c.reply} {o : Operation}
  {history : QueryHistory} {s s' : AgreementStore}

theorem mem_contracts {a : Agreement} (ha : a ∈ db.agreements) :
    (a.id, a.contractId) ∈ db.contracts :=
  List.mem_map_of_mem ha

theorem contracts_updateAgreements {p : Agreement → Bool} {updates : AgreementUpdates}
    (h : updates.contractId = none) : (db.updateAgreements p updates).contracts = db.contracts := by
  apply Table.map_updateWhere
  intro a _
  simp [h]

/-- The contracts stay as they are. -/
theorem Answers.contracts_eq {contracts : List (String × Option String)} (h : Answers c db x db')
    (hc : WritesWhatWasRead contracts c history) : db'.contracts = db.contracts := by
  cases c with
  | insertAgreement new => cases hc
  | deleteAgreement id => cases hc
  | updateAgreement id updates =>
      obtain ⟨-, rfl⟩ := h
      exact contracts_updateAgreements hc.1
  | updateByContract contractId updates =>
      obtain ⟨-, rfl⟩ := h
      exact contracts_updateAgreements hc.1
  | changeStatusByContract contractId target updates =>
      simp only [Answers] at h
      split at h
      · rw [h.2]
      · rw [h.2]
        exact contracts_updateAgreements hc.1
      · rw [h.2]
  | _ =>
      have hsame := Executes.agreements (.inl h) rfl
      simp only [AgreementDb.contracts, hsame]

theorem uniqueIds_of_contracts (h : db'.contracts = db.contracts)
    (hids : Table.Unique Agreement.id db.agreements) : Table.Unique Agreement.id db'.agreements := by
  have hcolumn : ∀ db : AgreementDb, db.contracts.map Prod.fst = db.agreements.map Agreement.id := by
    intro db
    simp [AgreementDb.contracts, Function.comp_def]
  rw [Table.Unique, ← hcolumn, h, hcolumn]
  exact hids

/-- A read finds the row it asks for. -/
theorem QueryAct.exec.readsFrom {act : QueryAct} (h : act.exec c db x db') :
    ReadsFrom db.contracts c x := by
  cases c with
  | getAgreement id =>
      rintro a rfl
      exact id_of_filter_eq_singleton ((getAgreement_found h.executes).2 a rfl)
  | findByContract contractId =>
      rintro a rfl entry hentry hcontract
      have hfound := (findByContract_found h.executes).2 _ rfl
      obtain ⟨b, hb, rfl⟩ := List.mem_map.mp hentry
      have hmem : b ∈ db.byContract contractId :=
        List.mem_filter.mpr ⟨hb, decide_eq_true hcontract⟩
      rw [hfound] at hmem
      rw [List.mem_singleton.mp hmem]
  | _ => trivial

/-- What is recorded of an update is of the row that was read. -/
theorem ofRead_of_written (hc : WritesWhatWasRead db.contracts c history) {w : RowWrite}
    (hw : w ∈ c.written o history db) (hm : w.updates.milestones ≠ none) :
    ∃ a, w.seen = some a ∧ a.id = w.before.id := by
  obtain ⟨hhit, hupdates, -, hseen⟩ := mem_written.mp hw
  rw [hseen]
  cases c with
  | updateAgreement id updates =>
      obtain rfl := Option.some.inj hupdates
      obtain ⟨a, hread, rfl⟩ := hc.2 hm
      exact ⟨a, hread, (of_decide_eq_true (List.mem_filter.mp hhit).2).symm⟩
  | updateByContract contractId updates =>
      obtain ⟨-, a, hread, hone⟩ := hc
      obtain ⟨hmem, hcontract⟩ := List.mem_filter.mp hhit
      exact ⟨a, hread, (hone _ (mem_contracts hmem) (of_decide_eq_true hcontract)).symm⟩
  | changeStatusByContract contractId target updates =>
      obtain rfl := Option.some.inj hupdates
      exact absurd hc.2 hm
  | _ => cases hupdates

/-- An answered query that finds what it leaves alone as it was read loses no update. -/
theorem AgreementStore.NoLostUpdate.write (h : s.NoLostUpdate)
    (hids : Table.Unique Agreement.id s.db.agreements) (hx : Answers c s.db x s'.db)
    (hwrites : s'.writes = c.written o history s.db ++ s.writes)
    (hc : WritesWhatWasRead s.db.contracts c history)
    (hguard : ∀ w ∈ c.written o history s.db, ∀ milestones, w.updates.milestones = some milestones →
      ∀ index, w.changes index = false → w.before.milestones[index]? = milestones[index]?) :
    s'.NoLostUpdate := by
  have hmoves : c.movesRows = false := by
    cases c with
    | insertAgreement new => cases hc
    | deleteAgreement id => cases hc
    | _ => rfl
  constructor
  · intro a' ha' index w hw
    rw [AgreementStore.lastChange, hwrites, List.find?_append] at hw
    rcases hx.row hmoves ha' with ⟨ha, hnot⟩ | ⟨a, ha, updates, hupdates, rfl⟩
    · -- the query is not about this agreement
      have hnone : (c.written o history s.db).find?
          (fun w => w.before.id = a'.id && w.changes index) = none := by
        rw [List.find?_eq_none]
        intro v hv hchanges
        obtain ⟨hhit, -⟩ := mem_written.mp hv
        obtain ⟨hid, -⟩ := Bool.and_eq_true_iff.mp hchanges
        apply hnot
        rw [hids.eq ha (mem_of_hits hhit) (of_decide_eq_true hid).symm]
        exact hhit
      rw [hnone, Option.none_or] at hw
      exact h.kept a' ha index w hw
    · have hmem : ⟨o, lastRead history, a, updates⟩ ∈ c.written o history s.db :=
        mem_written.mpr ⟨ha, hupdates, rfl, rfl⟩
      cases hnew : (c.written o history s.db).find?
          (fun w => w.before.id = (a.apply updates).id && w.changes index) with
      | some v =>
          -- it changes the entry, and is the latest to do so
          rw [hnew] at hw
          obtain rfl := Option.some.inj hw
          obtain ⟨hhit, hset, -⟩ := mem_written.mp (List.mem_of_find?_eq_some hnew)
          have hfound := List.find?_some hnew
          obtain ⟨hid, -⟩ := Bool.and_eq_true_iff.mp hfound
          have hbefore : v.before = a :=
            hids.eq (mem_of_hits hhit) (mem_of_hits ha) (of_decide_eq_true hid)
          have hsame : v.updates = updates := Option.some.inj (hset.symm.trans hupdates)
          rw [RowWrite.after, hbefore, hsame]
      | none =>
          -- it leaves the entry, so what is there is what it stores
          rw [hnew, Option.none_or] at hw
          have hkept := h.kept a (mem_of_hits ha) index w hw
          rw [← hkept, Agreement.apply_milestones]
          cases hm : updates.milestones with
          | none => rfl
          | some milestones =>
              have hunchanged := List.find?_eq_none.mp hnew _ hmem
              simp only [Agreement.apply_id, decide_true, Bool.true_and, Bool.not_eq_true]
                at hunchanged
              exact (hguard _ hmem milestones hm index hunchanged).symm
  · intro w hw hm
    rw [hwrites] at hw
    rcases List.mem_append.mp hw with hw | hw
    · exact ofRead_of_written hc hw hm
    · exact h.ofRead w hw hm

end Queries

/-! ## Runs -/

/-- What every run of the guarded requests keeps. -/
structure MilestoneInv (contracts : List (String × Option String))
    (c : AgreementConfig milestoneTraffic) : Prop where
  ids : Table.Unique Agreement.id c.shared.db.agreements
  sameContracts : c.shared.db.contracts = contracts
  disciplined : Disciplined (ReadsFrom contracts) (fun _ => WritesWhatWasRead contracts)
    (fun _ _ _ => True) c
  noLost : c.shared.NoLostUpdate

variable {F : FloatArithmetic} {c c' : AgreementConfig milestoneTraffic}
  {l : AgreementLabel milestoneTraffic} {contracts : List (String × Option String)}

theorem MilestoneInv.init
    (h : (interleavingSystem F milestoneTraffic).init c) :
    MilestoneInv c.shared.db.contracts c := by
  refine ⟨h.1.1, rfl, disciplined_init h, ?_⟩
  constructor
  · intro a _ index w hw
    rw [AgreementStore.lastChange, h.1.2] at hw
    cases hw
  · intro w hw
    rw [h.1.2] at hw
    cases hw

theorem MilestoneInv.step (h : MilestoneInv contracts c) (hguard : StillAsRead c l)
    (hstep : (interleavingSystem F milestoneTraffic).step c l c') :
    MilestoneInv contracts c' := by
  have hdisciplined : Disciplined (ReadsFrom contracts) (fun _ => WritesWhatWasRead contracts)
    (fun _ _ _ => True) c' := by
    refine h.disciplined.step (fun o ho => program_writesRead F o ho) ?_ hstep
    intro act call x db' hx
    rw [← h.sameContracts]
    exact hx.readsFrom
  cases Calls.step_cases hstep with
  | start t req hfree => exact ⟨h.ids, h.sameContracts, hdisciplined, h.noLost⟩
  | act t act req call cont x s hk hexec =>
      have hok := (h.disciplined.next hk).1
      cases act with
      | answer =>
          obtain ⟨hx, hwrites⟩ := hexec
          have hsame : s.db.contracts = c.shared.db.contracts := Answers.contracts_eq hx hok
          refine ⟨uniqueIds_of_contracts hsame h.ids, hsame.trans h.sameContracts, hdisciplined, ?_⟩
          refine h.noLost.write h.ids hx hwrites ?_ (hguard req call.1 call.2 cont hk)
          rw [h.sameContracts]
          exact hok
      | fail =>
          obtain rfl := exec_fail hexec
          exact ⟨h.ids, h.sameContracts, hdisciplined, h.noLost⟩
  | env b => exact nomatch b

/-- **No lost milestone update.** In a run of milestone writes in which every answered update finds
the entries it leaves alone still as its request read them, every entry is what the latest update
that changed it made of it. -/
theorem no_lost_milestone_update (F : FloatArithmetic)
    (h : ((interleavingSystem F milestoneTraffic).restrict StillAsRead).Reachable c) :
    c.shared.NoLostUpdate := by
  have hinv : ∃ contracts, MilestoneInv contracts c := by
    refine StepSystem.invariant_of_steps
      (M := (interleavingSystem F milestoneTraffic).restrict StillAsRead)
      (I := fun c => ∃ contracts, MilestoneInv contracts c) ?_ ?_ h
    · intro c hinit
      exact ⟨_, MilestoneInv.init hinit⟩
    · rintro c l c' - ⟨contracts, hI⟩ ⟨hguard, hstep⟩
      exact ⟨contracts, hI.step hguard hstep⟩
  obtain ⟨contracts, hI⟩ := hinv
  exact hI.noLost

/-! ## Two updates of one agreement -/

section TwoUpdates

open Calls (Move)

/-- An agreement of the two parties over two milestones. -/
def sharedAgreement : Agreement := (sampleDto "10" none splitTen).row.row "a" 0

/-- The store with the agreement, before any request. -/
def sharedStore : AgreementStore := ⟨storeWith twoParties [sharedAgreement] [], []⟩

theorem uniqueIds_sharedStore : Table.Unique Agreement.id sharedStore.db.agreements :=
  List.nodup_singleton _

/-- `payer` approves a milestone. -/
def approveMilestone (index : ℕ) : Served milestoneTraffic where
  operation := ⟨0, .updateMilestone "payer" "a" ⟨index, .approved, "P", none, none⟩⟩
  isServed := rfl

/-- The next query stores milestones over those its request has read. -/
def isFresh (s : AgreementStore) (tasks : List (AgreementTask milestoneTraffic)) :
    Move (Served milestoneTraffic) → Bool
  | .start _ => true
  | .next t => match tasks[t]? with
    | some ⟨req, .call (call, history) _⟩ =>
      (call.written req.operation history s.db).all fun w =>
        w.updates.milestones.isNone || w.seen.map Agreement.milestones = some w.before.milestones
    | _ => true

/-- Both milestones are approved at the same time, with their queries in this order. -/
def approveBoth (turns : List ℕ) : List (Move (Served milestoneTraffic)) :=
  .start (approveMilestone 0) :: .start (approveMilestone 1) :: turns.map .next

/-- The request has reported success. -/
def succeeded (k : AgreementTask milestoneTraffic) : Bool :=
  match k.rest with
  | .done (.done result, _) => result.success
  | _ => false

theorem stillAsRead_of_isFresh {s : AgreementStore}
    {tasks : List (AgreementTask milestoneTraffic)}
    {m : Move (Served milestoneTraffic)} (h : isFresh s tasks m = true) :
    StillAsRead (Calls.begun s tasks)
      (m.label (interleaving F milestoneTraffic) .answer tasks) := by
  cases m with
  | start req => trivial
  | next t =>
      intro req call history cont hk w hw milestones hm index hunchanged
      have htask : tasks[t]? = some ⟨req, .call (call, history) cont⟩ := hk
      simp only [isFresh, htask, List.all_eq_true] at h
      have hfresh := h w hw
      simp only [hm, Option.isNone_some, Bool.false_or, decide_eq_true_eq] at hfresh
      obtain ⟨a, ha, hsame⟩ := Option.map_eq_some_iff.mp hfresh
      simp only [RowWrite.changes, hm, Option.any_some, readEntry, ha, Option.bind_some, hsame,
        ne_eq, decide_not, Bool.not_eq_false', decide_eq_true_eq] at hunchanged
      exact hunchanged.symm

/-- One after the other, both take effect. -/
theorem no_lost_milestone_update_serial :
    ∃ c, ((interleavingSystem exactArithmetic milestoneTraffic).restrict
        StillAsRead).Reachable c ∧ c.shared.NoLostUpdate ∧
      c.shared.db.agreements.map (fun a => a.milestones.map Milestone.status) =
        [[.approved, .approved]] := by
  have hrun : (playFrom exactArithmetic _ isFresh sharedStore
      (approveBoth (List.replicate 12 0 ++ List.replicate 12 1))).map
        (fun state => state.1.db.agreements.map fun a => a.milestones.map Milestone.status) =
      some [[.approved, .approved]] := by decide +kernel
  obtain ⟨state, hstate, hstatuses⟩ := Option.map_eq_some_iff.mp hrun
  have hreach : ((interleavingSystem exactArithmetic milestoneTraffic).restrict
      StillAsRead).Reachable (Calls.begun state.1 state.2) :=
    reachable_playFrom uniqueIds_sharedStore rfl (fun _ _ _ => stillAsRead_of_isFresh) hstate
  exact ⟨_, hreach, no_lost_milestone_update exactArithmetic hreach, hstatuses⟩

/-- Where the second one reads before the first one writes, both succeed and the first is lost. -/
theorem not_no_lost_milestone_update :
    ¬ ∀ c, (interleavingSystem exactArithmetic milestoneTraffic).Reachable c →
      (∀ t k, c.threads t = some k → succeeded k = true) → c.shared.NoLostUpdate := by
  intro hall
  have hrun : ((playFrom exactArithmetic _ (fun _ _ _ => true) sharedStore
      (approveBoth (List.replicate 6 0 ++ List.replicate 6 1 ++ List.replicate 6 0 ++
        List.replicate 6 1))).any fun state => state.2.all succeeded &&
      state.1.db.agreements.any fun a => (state.1.lastChange a.id 0).any fun w =>
        decide (a.milestones[0]? ≠ w.after.milestones[0]?)) = true := by decide +kernel
  obtain ⟨state, hstate, hlost⟩ := (Option.any_eq_true _ _).mp hrun
  obtain ⟨hsucceeded, hlost⟩ := Bool.and_eq_true_iff.mp hlost
  obtain ⟨a, ha, hlost⟩ := List.any_eq_true.mp hlost
  obtain ⟨w, hw, hlost⟩ := (Option.any_eq_true _ _).mp hlost
  have hreach := reachable_playAll uniqueIds_sharedStore rfl hstate
  refine of_decide_eq_true hlost ((hall _ hreach fun t k hk => ?_).kept a ha 0 w hw)
  exact List.all_eq_true.mp hsucceeded k (List.mem_of_getElem? hk)

end TwoUpdates

end ThalosBackend.Agreements
