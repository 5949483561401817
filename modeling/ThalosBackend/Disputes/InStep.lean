import ThalosBackend.Agreements.AnsweringDb
import ThalosBackend.Disputes.DisputeOutcomes

/-!
# Disputes and agreements in step

A dispute is live in one table and the agreement is disputed in another. The operations move the two
sides together as long as no one of four things happens: `updateStatus` moves an agreement into or out
of `disputed`, a dispute is opened where the agreement does not allow it, and a dispute that has been
cancelled is resolved, or cancelled once more.

`Move` lists what is left: each kind of move keeps the two sides in step and closed disputes closed.
-/

set_option autoImplicit false

namespace ThalosBackend.Agreements

/-- The operations of a dispute's life. -/
def AgreementRequest.isDisputeFlow : AgreementRequest → Bool
  | .create _ _ | .updateStatus _ _ _ | .openDispute _ _ | .assignResolver _ _ _
  | .resolveDispute _ _ _ | .cancelDispute _ _ _ => true
  | _ => false

/-- The dispute an operation is about. -/
def AgreementRequest.disputeId : AgreementRequest → Option String
  | .assignResolver _ disputeId _ | .resolveDispute _ disputeId _ | .cancelDispute _ disputeId _ =>
    some disputeId
  | _ => none

end ThalosBackend.Agreements

namespace ThalosBackend.Disputes

open Js (FloatArithmetic Timestamp)
open Calls (LeadsTo)
open Agreements

/-- The operations one after the other, none of whose queries fails. -/
def disputeSystem (F : FloatArithmetic) : StepSystem AgreementDb Operation where
  init := AgreementDb.isNew
  step db o db' := o.request.isDisputeFlow = true ∧
    ∃ out, Calls.Runs Answers (o.program F) db out db'

/-- The operation does none of the four things. -/
def keepsInStep (F : FloatArithmetic) (db : AgreementDb) (o : Operation) : Bool :=
  match o.request with
  | .updateStatus userId agreementId dto =>
    !(mayUpdate db userId agreementId dto.actorWallet && db.accepts agreementId dto.status) ||
      dto.status ≠ .disputed &&
        (db.agreementAt agreementId).all fun a => a.status ≠ some "disputed"
  | .openDispute userId dto =>
    !mayOpen db userId dto || (db.liveDisputes dto.agreementId).length = 1 ||
      db.accepts dto.agreementId .disputed
  | .resolveDispute userId disputeId dto =>
    (mayResolve F db userId disputeId dto).all fun d => d.status ≠ .cancelled
  | .cancelDispute userId disputeId dto =>
    (mayCancel db userId disputeId dto).all fun d => d.status ≠ .cancelled ||
      d.updatedAt = o.now && !db.accepts d.agreementId .active
  | _ => true

/-- The agreements are disputed exactly when they have one live dispute, and a closed dispute stays as
it is and has no effect. -/
structure DisputesInStep (M : StepSystem AgreementDb Operation) (db : AgreementDb) : Prop where
  inStep : ∀ a ∈ db.agreements,
    a.status = some "disputed" ↔ (db.liveDisputes a.id).length = 1
  closed : ∀ db', M.Leads db db' → ∀ d ∈ db.disputes, d.status.isLive = false →
    d ∈ db'.disputes ∧ ∀ d' ∈ db'.disputes, d'.id = d.id → d' = d
  idle : ∀ o db', M.step db o db' → ∀ d ∈ db.disputes, d.status.isLive = false →
    o.request.disputeId = some d.id → db'.agreements = db.agreements

/-! ## Moves -/

/-- What an operation makes of the two tables when it keeps them in step. -/
inductive Move (db db' : AgreementDb) : Prop where
  | same : db'.agreements = db.agreements → db'.disputes = db.disputes → Move db db'
  | created (a : Agreement) : (∀ b ∈ db.agreements, b.id ≠ a.id) → a.status = some "pending" →
      db'.agreements = db.agreements ++ [a] → db'.disputes = db.disputes → Move db db'
  | changed (now : Timestamp) (a : Agreement) (target : AgreementStatus) :
      db.agreementAt a.id = some a → a.status ≠ some "disputed" → target ≠ .disputed →
      db'.agreements = (db.changeStatus now a.id target).agreements →
      db'.disputes = db.disputes → Move db db'
  | opened (now : Timestamp) (a : Agreement) (d : Dispute) : db.agreementAt a.id = some a →
      a.status ≠ some "disputed" → d.agreementId = a.id → d.status = .opened →
      (∀ e ∈ db.disputes, e.id ≠ d.id) →
      db'.agreements = (db.changeStatus now a.id .disputed).agreements →
      db'.disputes = db.disputes ++ [d] → Move db db'
  | assigned (d : Dispute) (updates : DisputeUpdates) : db.disputeAt d.id = some d →
      d.status.isLive = true → updates.status.isLive = true → db'.agreements = db.agreements →
      db'.disputes = (db.changeDispute d.id updates).disputes → Move db db'
  | closed (now : Timestamp) (d : Dispute) (updates : DisputeUpdates) (target : AgreementStatus) :
      db.disputeAt d.id = some d → d.status.isLive = true → updates.status.isLive = false →
      target ≠ .disputed → db'.agreements = (db.changeStatus now d.agreementId target).agreements →
      db'.disputes = (db.changeDispute d.id updates).disputes → Move db db'

theorem Move.of_sameTables {db db' : AgreementDb} (h : SameTables db db') : Move db db' :=
  .same h.agreements h.disputes

/-- The two sides of every agreement, under unique ids. -/
structure Coherent (db : AgreementDb) : Prop where
  agreementIds : Table.Unique Agreement.id db.agreements
  disputeIds : Table.Unique Dispute.id db.disputes
  known : ∀ d ∈ db.disputes, ∃ a ∈ db.agreements, a.id = d.agreementId
  live : ∀ a ∈ db.agreements,
    (db.liveDisputes a.id).length = if a.status = some "disputed" then 1 else 0

namespace Coherent

variable {db db' : AgreementDb}

theorem inStep (h : Coherent db) {a : Agreement} (ha : a ∈ db.agreements) :
    a.status = some "disputed" ↔ (db.liveDisputes a.id).length = 1 := by
  rw [h.live a ha]
  split <;> simp [*]

/-- A live dispute is the only one of its agreement, which is disputed. -/
theorem of_live (h : Coherent db) {d : Dispute} (hd : d ∈ db.disputes)
    (hlive : d.status.isLive = true) : ∃ a ∈ db.agreements, a.id = d.agreementId ∧
      a.status = some "disputed" ∧ db.liveDisputes a.id = [d] := by
  obtain ⟨a, ha, hid⟩ := h.known d hd
  have hmem : d ∈ db.liveDisputes a.id :=
    List.mem_filter.mpr ⟨hd, by simp [hid, hlive]⟩
  have hcount := h.live a ha
  split at hcount
  · rename_i hstatus
    obtain ⟨e, he⟩ := List.length_eq_one_iff.mp hcount
    rw [he] at hmem
    rw [← List.mem_singleton.mp hmem] at he
    exact ⟨a, ha, hid, hstatus, he⟩
  · rw [List.length_eq_zero_iff.mp hcount] at hmem
    cases hmem

end Coherent

/-! ## What a move keeps -/

section Tables

variable {db db' : AgreementDb}

/-- A row after a change of status: another one, or the one under the id with the status. -/
theorem mem_changeStatus {now : Timestamp} {id : String} {target : AgreementStatus} {a' : Agreement}
    (h : a' ∈ (db.changeStatus now id target).agreements) :
    (a' ∈ db.agreements ∧ a'.id ≠ id) ∨ a'.id = id ∧ a'.status = some target.text := by
  obtain ⟨a, ha, rfl⟩ := Table.mem_updateWhere.mp h
  by_cases hid : a.id = id
  · rw [if_pos (by simpa using hid)]
    exact .inr ⟨hid, rfl⟩
  · rw [if_neg (by simpa using hid)]
    exact .inl ⟨ha, hid⟩

theorem exists_changeStatus {now : Timestamp} {id : String} {target : AgreementStatus}
    {a : Agreement} (ha : a ∈ db.agreements) :
    ∃ a' ∈ (db.changeStatus now id target).agreements, a'.id = a.id := by
  refine ⟨_, Table.mem_updateWhere.mpr ⟨a, ha, rfl⟩, ?_⟩
  split <;> rfl

theorem uniqueIds_changeStatus {now : Timestamp} {id : String} {target : AgreementStatus}
    (h : Table.Unique Agreement.id db.agreements) :
    Table.Unique Agreement.id (db.changeStatus now id target).agreements :=
  h.updateWhere fun _ _ => rfl

theorem liveDisputes_congr (h : db'.disputes = db.disputes) (id : String) :
    db'.liveDisputes id = db.liveDisputes id := by
  rw [AgreementDb.liveDisputes, h]
  rfl

/-- A change of a dispute of another agreement. -/
theorem liveDisputes_changeDispute_ne {d : Dispute} {updates : DisputeUpdates} {id : String}
    (hat : db.disputeAt d.id = some d) (hne : d.agreementId ≠ id) :
    (db.changeDispute d.id updates).liveDisputes id = db.liveDisputes id := by
  refine Table.filter_updateWhere_eq fun e he hid => ?_
  rw [eq_of_disputeAt hat he (by simpa using hid)]
  simp [hne]

/-- A new dispute is live where it was opened. -/
theorem liveDisputes_concat {d : Dispute} (hopened : d.status = .opened)
    (h : db'.disputes = db.disputes ++ [d]) (id : String) :
    db'.liveDisputes id = db.liveDisputes id ++ if d.agreementId = id then [d] else [] := by
  rw [AgreementDb.liveDisputes, h, List.filter_append]
  by_cases heq : d.agreementId = id
  · simp [heq, hopened, DisputeStatus.isLive, AgreementDb.liveDisputes]
  · simp [heq, AgreementDb.liveDisputes]

/-- A live dispute that stays live is counted where it was. -/
theorem length_liveDisputes_changeDispute {d : Dispute} {updates : DisputeUpdates}
    (hat : db.disputeAt d.id = some d) (hlive : d.status.isLive = true)
    (hlive' : updates.status.isLive = true) (id : String) :
    ((db.changeDispute d.id updates).liveDisputes id).length = (db.liveDisputes id).length := by
  refine Table.length_filter_updateWhere fun e he heq => ?_
  rw [eq_of_disputeAt hat he (by simpa using heq)]
  simp [hlive, hlive']

/-- Every row of a dispute that is known stays known. -/
theorem known_changeDispute {agreements : List Agreement} {disputeId : String}
    {updates : DisputeUpdates} (h : ∀ d ∈ db.disputes, ∃ a ∈ agreements, a.id = d.agreementId) :
    ∀ d ∈ (db.changeDispute disputeId updates).disputes, ∃ a ∈ agreements, a.id = d.agreementId :=
  Table.forall_mem_updateWhere (fun d hd _ => h d hd) fun d hd _ => h d hd

end Tables

namespace Coherent

variable {db db' : AgreementDb}

theorem known_of_changeStatus {now : Timestamp} {id : String} {target : AgreementStatus}
    {agreementId : String} (h : ∃ a ∈ db.agreements, a.id = agreementId) :
    ∃ a ∈ (db.changeStatus now id target).agreements, a.id = agreementId := by
  obtain ⟨a, ha, rfl⟩ := h
  exact exists_changeStatus ha

/-- No dispute can be about an agreement that has just got its id. -/
theorem liveDisputes_of_fresh (h : Coherent db) {id : String}
    (hfresh : ∀ a ∈ db.agreements, a.id ≠ id) : db.liveDisputes id = [] := by
  refine List.filter_eq_nil_iff.mpr fun d hd hlive => ?_
  obtain ⟨a, ha, hid⟩ := h.known d hd
  simp only [decide_eq_true_eq] at hlive
  exact hfresh a ha (hid.trans hlive.1)

/-- Without its live dispute an agreement has none. -/
theorem liveDisputes_of_closed (h : Coherent db) {d : Dispute} {updates : DisputeUpdates}
    (hat : db.disputeAt d.id = some d) (hlive : d.status.isLive = true)
    (hclosed : updates.status.isLive = false) :
    (db.changeDispute d.id updates).liveDisputes d.agreementId = [] := by
  obtain ⟨hd, -⟩ := id_of_disputeAt hat
  obtain ⟨a, -, hid, -, honly⟩ := h.of_live hd hlive
  refine List.filter_eq_nil_iff.mpr fun e he hlive' => ?_
  obtain ⟨old, hold, rfl⟩ := Table.mem_updateWhere.mp he
  by_cases heq : old.id = d.id
  · rw [if_pos (by simpa using heq)] at hlive'
    simp [hclosed] at hlive'
  · -- there was no other live dispute of the agreement
    rw [if_neg (by simpa using heq)] at hlive'
    have hmem : old ∈ db.liveDisputes a.id := by
      rw [hid]
      exact List.mem_filter.mpr ⟨hold, hlive'⟩
    rw [honly] at hmem
    exact heq (by rw [List.mem_singleton.mp hmem])

/-- Every move keeps the two sides in step. -/
theorem move (h : Coherent db) (hmove : Move db db') : Coherent db' := by
  cases hmove with
  | same hagreements hdisputes =>
      refine ⟨hagreements ▸ h.agreementIds, hdisputes ▸ h.disputeIds, ?_, fun a ha => ?_⟩
      · rw [hagreements, hdisputes]
        exact h.known
      · rw [liveDisputes_congr hdisputes]
        exact h.live a (hagreements ▸ ha)
  | created a hfresh hstatus hagreements hdisputes =>
      refine ⟨hagreements ▸ h.agreementIds.concat hfresh, hdisputes ▸ h.disputeIds, ?_,
        fun b hb => ?_⟩
      · rw [hagreements, hdisputes]
        intro d hd
        obtain ⟨b, hb, hid⟩ := h.known d hd
        exact ⟨b, List.mem_append_left _ hb, hid⟩
      · rw [liveDisputes_congr hdisputes]
        rw [hagreements] at hb
        rcases List.mem_append.mp hb with hb | hb
        · exact h.live b hb
        · obtain rfl := List.mem_singleton.mp hb
          rw [h.liveDisputes_of_fresh hfresh, hstatus]
          rfl
  | changed now a target hat hstatus htarget hagreements hdisputes =>
      refine ⟨hagreements ▸ uniqueIds_changeStatus h.agreementIds, hdisputes ▸ h.disputeIds, ?_,
        fun b hb => ?_⟩
      · rw [hagreements, hdisputes]
        exact fun d hd => known_of_changeStatus (h.known d hd)
      · rw [liveDisputes_congr hdisputes]
        rw [hagreements] at hb
        rcases mem_changeStatus hb with ⟨hb, -⟩ | ⟨hid, hb⟩
        · exact h.live b hb
        · -- it was not disputed, and no plain change makes it so
          rw [hid, h.live a (mem_of_agreementAt hat).1, hb, if_neg hstatus, if_neg]
          intro htext
          exact htarget (AgreementStatus.text_inj.mp (Option.some.inj htext))
  | opened now a d hat hstatus hid hopened hfresh hagreements hdisputes =>
      refine ⟨hagreements ▸ uniqueIds_changeStatus h.agreementIds,
        hdisputes ▸ h.disputeIds.concat hfresh, ?_, fun b hb => ?_⟩
      · rw [hagreements, hdisputes]
        intro e he
        rcases List.mem_append.mp he with he | he
        · exact known_of_changeStatus (h.known e he)
        · rw [List.mem_singleton.mp he, hid]
          exact exists_changeStatus (mem_of_agreementAt hat).1
      · rw [liveDisputes_concat hopened hdisputes, List.length_append]
        rw [hagreements] at hb
        rcases mem_changeStatus hb with ⟨hb, hne⟩ | ⟨heq, hb⟩
        · have hother : d.agreementId ≠ b.id := by
            rw [hid]
            exact Ne.symm hne
          rw [if_neg hother, h.live b hb]
          rfl
        · -- it had no live dispute, and has the one that is opened
          rw [heq, h.live a (mem_of_agreementAt hat).1, if_neg hstatus, if_pos hid, hb]
          rfl
  | assigned d updates hat hlive hlive' hagreements hdisputes =>
      refine ⟨hagreements ▸ h.agreementIds, ?_, ?_, fun a ha => ?_⟩
      · rw [hdisputes]
        exact h.disputeIds.updateWhere fun _ _ => rfl
      · rw [hagreements, hdisputes]
        exact known_changeDispute h.known
      · rw [liveDisputes_congr hdisputes, length_liveDisputes_changeDispute hat hlive hlive']
        exact h.live a (hagreements ▸ ha)
  | closed now d updates target hat hlive hclosed htarget hagreements hdisputes =>
      refine ⟨hagreements ▸ uniqueIds_changeStatus h.agreementIds, ?_, ?_, fun b hb => ?_⟩
      · rw [hdisputes]
        exact h.disputeIds.updateWhere fun _ _ => rfl
      · rw [hagreements, hdisputes]
        exact known_changeDispute fun e he => known_of_changeStatus (h.known e he)
      · rw [hagreements] at hb
        rcases mem_changeStatus hb with ⟨hb, hne⟩ | ⟨heq, hb⟩
        · have hsame : db'.liveDisputes b.id = db.liveDisputes b.id := by
            rw [liveDisputes_congr hdisputes]
            exact liveDisputes_changeDispute_ne hat (Ne.symm hne)
          rw [hsame]
          exact h.live b hb
        · -- the only live dispute is the one that is closed
          rw [heq, liveDisputes_congr hdisputes, h.liveDisputes_of_closed hat hlive hclosed, hb, if_neg]
          · rfl
          · intro htext
            exact htarget (AgreementStatus.text_inj.mp (Option.some.inj htext))

end Coherent

/-- A move leaves closed disputes as they are. -/
theorem Move.closed_mem {db db' : AgreementDb} (h : Move db db') {d : Dispute}
    (hd : d ∈ db.disputes) (hclosed : d.status.isLive = false) : d ∈ db'.disputes := by
  have hother : ∀ {e : Dispute} {updates : DisputeUpdates}, db.disputeAt e.id = some e →
      e.status.isLive = true → d ∈ (db.changeDispute e.id updates).disputes := by
    intro e updates hat hlive
    refine Table.mem_updateWhere.mpr ⟨d, hd, ?_⟩
    rw [if_neg]
    intro hid
    rw [eq_of_disputeAt hat hd (by simpa using hid), hlive] at hclosed
    cases hclosed
  cases h with
  | same _ hdisputes => exact hdisputes ▸ hd
  | created _ _ _ _ hdisputes => exact hdisputes ▸ hd
  | changed _ _ _ _ _ _ _ hdisputes => exact hdisputes ▸ hd
  | opened _ _ _ _ _ _ _ _ _ hdisputes => exact hdisputes ▸ List.mem_append_left _ hd
  | assigned _ _ hat hlive _ _ hdisputes => exact hdisputes ▸ hother hat hlive
  | closed _ _ _ _ hat hlive _ _ _ hdisputes => exact hdisputes ▸ hother hat hlive

/-! ## Steps -/

section Steps

variable {F : FloatArithmetic} {db db' : AgreementDb}

/-- An agreement that accepts the status does so as the one under its id. -/
theorem exists_of_accepts {id : String} {target : AgreementStatus} (h : db.accepts id target = true) :
    ∃ a, db.agreementAt id = some a ∧ a.id = id ∧
      canTransition (statusText a.status) target.text = true := by
  obtain ⟨a, hat, hedge⟩ := (Option.any_eq_true _ _).mp h
  exact ⟨a, hat, (mem_of_agreementAt hat).2, hedge⟩

/-- A live dispute's agreement accepts what ends a dispute. -/
theorem Coherent.accepts_of_live (h : Coherent db) {d : Dispute} (hd : d ∈ db.disputes)
    (hlive : d.status.isLive = true) {target : AgreementStatus}
    (htarget : target = .resolved ∨ target = .active) :
    db.accepts d.agreementId target = true := by
  obtain ⟨a, ha, hid, hstatus, -⟩ := h.of_live hd hlive
  have hsole : db.agreementAt d.agreementId = some a := by
    rw [← hid]
    exact Table.sole_eq_some.mpr (h.agreementIds.filter_key ha)
  rw [AgreementDb.accepts, hsole, Option.any_some, hstatus]
  rcases htarget with rfl | rfl <;> decide

theorem isLive_of_ne {d : Dispute} (hresolved : d.status ≠ .resolved)
    (hcancelled : d.status ≠ .cancelled) : d.status.isLive = true := by
  cases hstatus : d.status with
  | opened => rfl
  | underReview => rfl
  | resolved => exact absurd hstatus hresolved
  | cancelled => exact absurd hstatus hcancelled

/-- `statusText` of a disputed agreement. -/
theorem ne_disputed_of_edge {a : Agreement}
    (h : canTransition (statusText a.status) AgreementStatus.disputed.text = true) :
    a.status ≠ some "disputed" := by
  intro hstatus
  rw [hstatus] at h
  exact absurd h (by decide)

theorem create_move {userId : String} {dto : CreateAgreementDto} :
    LeadsTo Answers (Move db) (create F userId dto) db := by
  refine create_outcome.mono fun db' hend => ?_
  rcases hend with hsame | ⟨id, created, hfresh, hsame⟩
  · exact .of_sameTables hsame
  · exact .created _ hfresh rfl hsame.agreements hsame.disputes

theorem updateStatus_move {now : Timestamp} {userId agreementId : String}
    {dto : UpdateAgreementStatusDto}
    (hkeeps : keepsInStep F db ⟨now, .updateStatus userId agreementId dto⟩ = true) :
    LeadsTo Answers (Move db) (updateStatus now userId agreementId dto) db := by
  refine ⟨updateStatus_outcome.mono fun out db' hend => ?_⟩
  rcases hend with hsame | ⟨hmay, haccepts, hsame⟩
  · exact .of_sameTables hsame
  · obtain ⟨a, hat, rfl, hedge⟩ := exists_of_accepts haccepts
    simp only [keepsInStep, hmay, haccepts, hat, Option.all_some, Bool.and_self, Bool.not_true,
      Bool.false_or, Bool.and_eq_true, decide_eq_true_eq] at hkeeps
    exact .changed now a dto.status hat hkeeps.2 hkeeps.1 hsame.agreements hsame.disputes

theorem openDispute_move {now : Timestamp} {userId : String} {dto : OpenDisputeDto}
    (hkeeps : keepsInStep F db ⟨now, .openDispute userId dto⟩ = true) :
    LeadsTo Answers (Move db) (openDispute now userId dto) db := by
  refine ⟨(openDispute_outcome dto).mono fun out db' hend => ?_⟩
  cases hend with
  | refused e _ _ hsame => exact .of_sameTables hsame
  | present message _ _ _ hsame => exact .of_sameTables hsame
  | stranded e id created _ hmay hcount hno => simp [keepsInStep, hmay, hcount, hno] at hkeeps
  | opened id created _ hmay hcount haccepts hfresh hsame =>
      obtain ⟨a, hat, hid, hedge⟩ := exists_of_accepts haccepts
      rw [← hid] at hat
      refine .opened now a _ hat (ne_disputed_of_edge hedge) hid.symm rfl hfresh ?_ hsame.disputes
      rw [hsame.agreements, hid]
      rfl

theorem assignResolver_move {now : Timestamp} {userId disputeId : String}
    {dto : AssignResolverDto} :
    LeadsTo Answers (Move db) (assignResolver now userId disputeId dto) db := by
  refine ⟨(assignResolver_outcome disputeId dto).mono fun out db' hend => ?_⟩
  cases hend with
  | refused e _ _ hsame => exact .of_sameTables hsame
  | assigned d _ hmay hsame =>
      obtain ⟨hat, hstatus⟩ := mayAssign_eq_some hmay
      obtain ⟨-, rfl⟩ := id_of_disputeAt hat
      exact .assigned d (assignUpdates now dto) hat (by rw [hstatus]; rfl) rfl hsame.agreements
        hsame.disputes

theorem Coherent.resolveDispute_move (h : Coherent db) {now : Timestamp}
    {userId disputeId : String} {dto : ResolveDisputeDto}
    (hkeeps : keepsInStep F db ⟨now, .resolveDispute userId disputeId dto⟩ = true) :
    LeadsTo Answers (Move db) (resolveDispute F now userId disputeId dto) db := by
  refine ⟨(resolveDispute_outcome disputeId dto).mono fun out db' hend => ?_⟩
  cases hend with
  | refused e _ _ hsame => exact .of_sameTables hsame
  | stranded d _ id created _ hmay hno =>
      obtain ⟨hat, hresolved⟩ := mayResolve_eq_some hmay
      simp only [keepsInStep, hmay, Option.all_some, decide_eq_true_eq] at hkeeps
      have hlive := isLive_of_ne hresolved hkeeps
      rw [h.accepts_of_live (id_of_disputeAt hat).1 hlive (.inl rfl)] at hno
      cases hno
  | resolved d id created _ hmay haccepts hfresh hsame =>
      obtain ⟨hat, hresolved⟩ := mayResolve_eq_some hmay
      simp only [keepsInStep, hmay, Option.all_some, decide_eq_true_eq] at hkeeps
      obtain ⟨-, rfl⟩ := id_of_disputeAt hat
      exact .closed now d _ .resolved hat (isLive_of_ne hresolved hkeeps) rfl (by decide)
        hsame.agreements hsame.disputes

theorem Coherent.cancelDispute_move (h : Coherent db) {now : Timestamp}
    {userId disputeId : String} {dto : CancelDisputeDto}
    (hkeeps : keepsInStep F db ⟨now, .cancelDispute userId disputeId dto⟩ = true) :
    LeadsTo Answers (Move db) (cancelDispute now userId disputeId dto) db := by
  refine ⟨(cancelDispute_outcome disputeId dto).mono fun out db' hend => ?_⟩
  cases hend with
  | refused e _ _ hsame => exact .of_sameTables hsame
  | stranded d e _ hmay hno hsame =>
      obtain ⟨hat, hresolved⟩ := mayCancel_eq_some hmay
      simp only [keepsInStep, hmay, Option.all_some] at hkeeps
      by_cases hcancelled : d.status = .cancelled
      · -- cancelled once more at the same time: nothing changes
        have hself : d.apply (cancelUpdates now) = d := by
          refine apply_cancelUpdates.mpr ⟨hcancelled, ?_⟩
          simpa [hcancelled, hno] using hkeeps
        exact .same hsame.agreements
          (hsame.disputes.trans ((changeDispute_eq_self_iff hat).mpr hself))
      · have hlive := isLive_of_ne hresolved hcancelled
        rw [h.accepts_of_live (id_of_disputeAt hat).1 hlive (.inr rfl)] at hno
        cases hno
  | cancelled d _ hmay haccepts hsame =>
      obtain ⟨hat, hresolved⟩ := mayCancel_eq_some hmay
      simp only [keepsInStep, hmay, haccepts, Option.all_some, Bool.not_true, Bool.and_false,
        Bool.or_false, decide_eq_true_eq] at hkeeps
      obtain ⟨-, rfl⟩ := id_of_disputeAt hat
      exact .closed now d _ .active hat (isLive_of_ne hresolved hkeeps) rfl (by decide)
        hsame.agreements hsame.disputes

/-- An operation that keeps the sides in step makes a move. -/
theorem Coherent.operation_move (h : Coherent db) {o : Operation}
    (hflow : o.request.isDisputeFlow = true) (hkeeps : keepsInStep F db o = true) :
    LeadsTo Answers (Move db) (o.program F) db := by
  obtain ⟨now, request⟩ := o
  cases request with
  | create userId dto => exact create_move.wrapped _
  | updateStatus userId agreementId dto => exact (updateStatus_move hkeeps).wrapped _
  | openDispute userId dto => exact (openDispute_move hkeeps).wrapped _
  | assignResolver userId disputeId dto => exact assignResolver_move.wrapped _
  | resolveDispute userId disputeId dto => exact (h.resolveDispute_move hkeeps).wrapped _
  | cancelDispute userId disputeId dto => exact (h.cancelDispute_move hkeeps).wrapped _
  | _ => cases hflow

/-- **Step lemma.** A step that keeps the sides in step is a move. -/
theorem Coherent.move_of_step (h : Coherent db) {o : Operation} (hkeeps : keepsInStep F db o = true)
    (hstep : (disputeSystem F).step db o db') : Move db db' := by
  obtain ⟨hflow, out, hrun⟩ := hstep
  exact (h.operation_move hflow hkeeps).of_runs hrun

/-- An operation on a closed dispute leaves the agreements alone. -/
theorem Coherent.operation_idle (h : Coherent db) {o : Operation} (hkeeps : keepsInStep F db o = true)
    {d : Dispute} (hd : d ∈ db.disputes) (hclosed : d.status.isLive = false)
    (habout : o.request.disputeId = some d.id) :
    LeadsTo Answers (fun db' => db'.agreements = db.agreements) (o.program F) db := by
  have hat : db.disputeAt d.id = some d := Table.sole_eq_some.mpr (h.disputeIds.filter_key hd)
  obtain ⟨now, request⟩ := o
  cases request with
  | assignResolver userId disputeId dto =>
      refine Calls.LeadsTo.wrapped ⟨(assignResolver_outcome disputeId dto).mono fun out db' hend => ?_⟩ _
      cases hend with
      | refused e _ _ hsame => exact hsame.agreements
      | assigned d _ _ hsame => exact hsame.agreements
  | resolveDispute userId disputeId dto =>
      obtain rfl : disputeId = d.id := Option.some.inj habout
      refine Calls.LeadsTo.wrapped ⟨(resolveDispute_outcome d.id dto).mono fun out db' hend => ?_⟩ _
      cases hend with
      | refused e _ _ hsame => exact hsame.agreements
      | stranded _ _ id created _ _ _ _ _ hsame => exact hsame.agreements
      | resolved e id created _ hmay =>
          -- a closed dispute that is resolved again would not meet the condition
          obtain ⟨hat', hresolved⟩ := mayResolve_eq_some hmay
          obtain rfl : d = e := Option.some.inj (hat.symm.trans hat')
          simp only [keepsInStep, hmay, Option.all_some, decide_eq_true_eq] at hkeeps
          rw [isLive_of_ne hresolved hkeeps] at hclosed
          cases hclosed
  | cancelDispute userId disputeId dto =>
      obtain rfl : disputeId = d.id := Option.some.inj habout
      refine Calls.LeadsTo.wrapped ⟨(cancelDispute_outcome d.id dto).mono fun out db' hend => ?_⟩ _
      cases hend with
      | refused e _ _ hsame => exact hsame.agreements
      | stranded _ e _ _ _ hsame => exact hsame.agreements
      | cancelled e _ hmay haccepts =>
          obtain ⟨hat', hresolved⟩ := mayCancel_eq_some hmay
          obtain rfl : d = e := Option.some.inj (hat.symm.trans hat')
          simp only [keepsInStep, hmay, haccepts, Option.all_some, Bool.not_true, Bool.and_false,
            Bool.or_false, decide_eq_true_eq] at hkeeps
          rw [isLive_of_ne hresolved hkeeps] at hclosed
          cases hclosed
  | _ => cases habout

end Steps

/-! ## Runs -/

section Runs

variable {F : FloatArithmetic} {db db' : AgreementDb}

/-- The runs whose operations keep the two sides in step. -/
def keptInStep (F : FloatArithmetic) : StepSystem AgreementDb Operation :=
  (disputeSystem F).restrict fun db o => keepsInStep F db o = true

theorem coherent_of_reachable (h : (keptInStep F).Reachable db) : Coherent db := by
  refine StepSystem.invariant_of_steps (fun db hnew => ?_) (fun db o db' _ hdb hstep => ?_) h
  · obtain ⟨hagreements, hdisputes, -⟩ := hnew
    refine ⟨?_, ?_, ?_, ?_⟩
    · rw [hagreements]
      exact List.nodup_nil
    · rw [hdisputes]
      exact List.nodup_nil
    · rw [hdisputes]
      exact fun _ hd => absurd hd List.not_mem_nil
    · rw [hagreements]
      exact fun _ ha => absurd ha List.not_mem_nil
  · exact hdb.move (hdb.move_of_step hstep.1 hstep.2)

/-- What is closed stays. -/
theorem closed_mem_of_leads (h : (keptInStep F).Reachable db) (hl : (keptInStep F).Leads db db') :
    ∀ d ∈ db.disputes, d.status.isLive = false → d ∈ db'.disputes := by
  refine StepSystem.rel_of_steps (R := fun db db' : AgreementDb =>
    ∀ d ∈ db.disputes, d.status.isLive = false → d ∈ db'.disputes) ?_ ?_ ?_ h hl
  · exact fun _ _ hd _ => hd
  · exact fun _ _ _ h₁ h₂ d hd hclosed => h₂ d (h₁ d hd hclosed) hclosed
  · intro s o s' hs hstep d hd hclosed
    exact ((coherent_of_reachable hs).move_of_step hstep.1 hstep.2).closed_mem hd hclosed

/-- **In step.** If no status is moved into or out of `disputed` by hand, no dispute is opened that the
agreement refuses, and no cancelled dispute is resolved or cancelled again, every store the operations
lead to has its disputes and agreements in step. -/
theorem disputes_in_step (F : FloatArithmetic) (db : AgreementDb)
    (h : (keptInStep F).Reachable db) : DisputesInStep (keptInStep F) db where
  inStep := fun _ ha => (coherent_of_reachable h).inStep ha
  closed := by
    intro db' hl d hd hclosed
    have hmem := closed_mem_of_leads h hl d hd hclosed
    refine ⟨hmem, fun d' hd' hid => ?_⟩
    exact Table.Unique.eq (coherent_of_reachable (h.leads hl)).disputeIds hd' hmem hid
  idle := by
    rintro o db' ⟨hkeeps, -, out, hrun⟩ d hd hclosed habout
    exact ((coherent_of_reachable h).operation_idle hkeeps hd hclosed habout).of_runs hrun

end Runs

/-! ## Two runs -/

/-- Operations of a dispute's life, one after the other. -/
theorem disputeSystem_runAll {F : FloatArithmetic} {os : List Operation} {db : AgreementDb}
    (h : (disputeSystem F).Reachable db)
    (hflow : (os.all fun o => o.request.isDisputeFlow) = true) :
    (disputeSystem F).Reachable (runAll F os db) := by
  induction os generalizing db with
  | nil => exact h
  | cons o os ih =>
      obtain ⟨hfirst, hrest⟩ := Bool.and_eq_true_iff.mp hflow
      exact ih (h.step ⟨hfirst, _, o.answers F db⟩) hrest

/-- And if each keeps the sides in step. -/
theorem keptInStep_runAll {F : FloatArithmetic} {os : List Operation} {db : AgreementDb}
    (h : (keptInStep F).Reachable db) (hkeeps : guardedAll F
      (fun db o => o.request.isDisputeFlow && keepsInStep F db o) os db = true) :
    (keptInStep F).Reachable (runAll F os db) := by
  induction os generalizing db with
  | nil => exact h
  | cons o os ih =>
      obtain ⟨hfirst, hrest⟩ := Bool.and_eq_true_iff.mp hkeeps
      obtain ⟨hflow, hkeeps⟩ := Bool.and_eq_true_iff.mp hfirst
      exact ih (h.step ⟨hkeeps, hflow, _, o.answers F db⟩) hrest

/-- An agreement that is funded, worked on, disputed, judged and disputed again. -/
def judgedRun : List Operation :=
  [createOperation "10" none splitTen,
    ⟨1, .updateStatus "payer" "i" ⟨.funded, "P"⟩⟩,
    ⟨2, .updateStatus "payer" "i" ⟨.active, "P"⟩⟩,
    ⟨3, .openDispute "payer" ⟨"i", "P", "late", none⟩⟩,
    ⟨4, .assignResolver "payer" "i" ⟨"Q"⟩⟩,
    ⟨5, .resolveDispute "payee" "i" ⟨"Q", .finite 40, .finite 60, none⟩⟩]

theorem judgedRun_in_step :
    (runAll exactArithmetic judgedRun newStore).agreements.map Agreement.status = [some "resolved"] ∧
      DisputesInStep (keptInStep exactArithmetic) (runAll exactArithmetic judgedRun newStore) :=
  ⟨by decide +kernel, disputes_in_step exactArithmetic _
    (keptInStep_runAll (.init isNew_newStore) (by decide +kernel))⟩

/-- An agreement that the payer sets to `disputed` by hand. -/
def byHandRun : List Operation :=
  [createOperation "10" none splitTen,
    ⟨1, .updateStatus "payer" "i" ⟨.funded, "P"⟩⟩,
    ⟨2, .updateStatus "payer" "i" ⟨.active, "P"⟩⟩,
    ⟨3, .updateStatus "payer" "i" ⟨.disputed, "P"⟩⟩]

theorem not_disputes_in_step : ¬ ∀ db, (disputeSystem exactArithmetic).Reachable db →
    DisputesInStep (disputeSystem exactArithmetic) db := by
  intro h
  have hdisputed : ∃ a ∈ (runAll exactArithmetic byHandRun newStore).agreements,
      a.status = some "disputed" ∧
        ((runAll exactArithmetic byHandRun newStore).liveDisputes a.id).length ≠ 1 := by
    decide +kernel
  obtain ⟨a, ha, hstatus, hcount⟩ := hdisputed
  have hreachable : (disputeSystem exactArithmetic).Reachable
      (runAll exactArithmetic byHandRun newStore) :=
    disputeSystem_runAll (.init isNew_newStore) (by decide +kernel)
  exact hcount (((h _ hreachable).inStep a ha).mp hstatus)

end ThalosBackend.Disputes
