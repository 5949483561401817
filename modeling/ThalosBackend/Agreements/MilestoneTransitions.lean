import ThalosBackend.Agreements.MilestoneWrites
import ThalosBackend.Agreements.ReconcilePolicy

/-!
# What becomes of the statuses of milestones

`statusWritten` bounds what an operation writes into an entry. Where no query fails, `storedStatus` is
what the operation does write: it leaves out the reconciles that end before they have looked at the
milestones. `answered_statuses` says so of every operation and every entry.
-/

set_option autoImplicit false

namespace ThalosBackend.Agreements

open Js (FloatArithmetic Timestamp Value nonEmpty)
open Calls (Ensures)
open Webhooks (editMilestones handleEvent processEvent writeEntry writeMilestoneDescription
  writeMilestoneStatus)

/-! ## What is stored -/

/-- The status that a reconcile stores in an entry: it gets as far as the milestones, and reads them
all. -/
def correctedStatus (first second : Fetch) (a : Agreement) (index : ℕ) : Option MilestoneStatus :=
  match nonEmpty a.contractId with
  | none => none
  | some contractId =>
    let before := fetchTrustlessEscrow contractId first
    let after := fetchTrustlessEscrow contractId second
    if endsUnreported before after a || leavesMilestones before after a then none
    else givenStatus after index

/-- The status that the operation stores in an entry of the row when no query fails. -/
def storedStatus (F : FloatArithmetic) (db : AgreementDb) (o : Operation) (a : Agreement)
    (index : ℕ) : Option MilestoneStatus :=
  match o.request with
  | .reconcile agreementId first second =>
    if db.agreementAt agreementId = some a then correctedStatus first second a index else none
  | _ => statusWritten F db o a index

/-- The entries of the row have got what is stored, and no other status. -/
abbrev StatusesStored (F : FloatArithmetic) (db : AgreementDb) (o : Operation) (a a' : Agreement) :
    Prop :=
  EachEntry (fun index m m' => m'.status = (storedStatus F db o a index).getD m.status) a.milestones
    a'.milestones

section Stored

variable {F : FloatArithmetic} {db db' : AgreementDb} {o : Operation} {a a' : Agreement}

/-- Nothing is stored in a row whose milestones stay. -/
theorem StatusesStored.of_eq (hnone : ∀ index, storedStatus F db o a index = none)
    (h : a'.milestones = a.milestones) : StatusesStored F db o a a' := by
  rw [StatusesStored, h]
  refine .refl (fun index m => ?_) _
  rw [hnone, Option.getD_none]

/-- Where nothing can be written, nothing is stored. -/
theorem MilestonesStep.stored (h : MilestonesStep F db o a a')
    (hwritten : ∀ index, statusWritten F db o a index = none)
    (hstored : ∀ index, storedStatus F db o a index = none) : StatusesStored F db o a a' := by
  refine h.mono fun index m m' _ hwrite => ?_
  rw [hstored, Option.getD_none]
  rcases hwrite.status with hsame | hnew
  · exact hsame
  · rw [hwritten] at hnew
    cases hnew

/-- One entry gets its status. -/
theorem StatusesStored.of_modify (i : ℕ) (write : Milestone → Milestone)
    (hmilestones : a'.milestones = a.milestones.modify i write)
    (hwrite : ∀ m, (write m).status = (storedStatus F db o a i).getD m.status)
    (hother : ∀ index, index ≠ i → storedStatus F db o a index = none) :
    StatusesStored F db o a a' := by
  rw [StatusesStored, hmilestones]
  refine ⟨List.length_modify .., fun index m m' hm hm' => ?_⟩
  rw [List.getElem?_modify, hm] at hm'
  by_cases hi : i = index
  · subst hi
    obtain rfl : write m = m' := by simpa using hm'
    exact hwrite m
  · obtain rfl : m = m' := by simpa [hi] using hm'
    rw [hother index (Ne.symm hi), Option.getD_none]

end Stored

/-! ## A participant -/

section Participant

variable {F : FloatArithmetic} {now : Timestamp} {db : AgreementDb} {userId agreementId : String}
  {dto : UpdateMilestoneDto} {a : Agreement} {m : Milestone}

/-- Whoever may access the agreement passes, and nobody else. -/
theorem assertCanAccessAgreement_answered :
    Ensures Answers (assertCanAccessAgreement userId agreementId) db fun out db' => db' = db ∧
      (out = .ok () ↔ mayAccess db userId agreementId = true) :=
  ((assertCanAccessAgreement_own.of_exec Answers.executes).and assertCanAccessAgreement_all).mono
    fun _ _ h => ⟨h.1.1, h.2⟩

theorem assertActorWallet_answered {actorWallet : String} :
    Ensures Answers (assertActorWallet userId actorWallet) db fun out db' => db' = db ∧
      (out = .ok () ↔ actorWallet ∈ ownWallets db userId) :=
  ((assertActorWallet_own.of_exec Answers.executes).and assertActorWallet_all).mono
    fun _ _ h => ⟨h.1.1, h.2⟩

/-- The events go out one after the other. -/
theorem emitAll_answered (events : List AgreementEvent) :
    Ensures Answers (emitAll events) db fun _ db' =>
      db'.agreements = db.agreements ∧ db'.events = db.events ++ events := by
  induction events generalizing db with
  | nil => exact ⟨rfl, (List.append_nil _).symm⟩
  | cons event rest ih =>
      refine Calls.ensures_ask fun x db₁ hx => ?_
      obtain ⟨-, rfl⟩ := hx
      refine ih.mono fun _ db₂ hrest => ⟨hrest.1, ?_⟩
      rw [hrest.2, List.append_assoc]
      rfl

variable (F now db userId agreementId dto) in
/-- The store after `updateMilestone`: as it was, or with the entry rewritten and its events emitted. -/
inductive MilestoneEnd (db' : AgreementDb) : Prop where
  | refused : acceptsMilestone F now db userId agreementId dto = false →
      db'.agreements = db.agreements → db'.events = db.events → MilestoneEnd db'
  | accepted (a : Agreement) (m : Milestone) :
      acceptsMilestone F now db userId agreementId dto = true → db.agreementAt agreementId = some a →
      a.milestones[dto.milestoneIndex]? = some m →
      db'.agreements = Table.updateWhere (fun b => b.id = agreementId)
        (Agreement.apply { milestones := some (a.milestones.set dto.milestoneIndex (m.update now dto))
                           updatedAt := now }) db.agreements →
      db'.events = db.events ++ milestoneEvents a agreementId dto m.status (m.update now dto) →
      MilestoneEnd db'

/-- `updateMilestone`, when no query fails. -/
theorem updateMilestone_answered :
    Ensures Answers (updateMilestone F now userId agreementId dto) db fun _ db' =>
      MilestoneEnd F now db userId agreementId dto db' := by
  -- each check refuses with the rows and the events as they were
  refine Calls.ensures_bind.mpr (assertCanAccessAgreement_answered.mono ?_)
  rintro access db₁ ⟨rfl, haccess⟩
  refine ⟨fun _ hpass => ?_, fun e hfail => ?_⟩
  swap
  · have hno : ¬ mayAccess db₁ userId agreementId = true := by
      rw [← haccess, hfail]
      simp
    exact .refused (by simp [acceptsMilestone, hno]) rfl rfl
  have hmay := haccess.mp (by rw [hpass])
  refine Calls.ensures_bind.mpr (assertActorWallet_answered.mono ?_)
  rintro actor db₂ ⟨rfl, hactor⟩
  refine ⟨fun _ hpass => ?_, fun e hfail => ?_⟩
  swap
  · have hno : dto.actorWallet ∉ ownWallets db₂ userId := by
      rw [← hactor, hfail]
      simp
    exact .refused (by simp [acceptsMilestone, hno]) rfl rfl
  have hown := hactor.mp (by rw [hpass])
  refine answered_getAgreement (fun a ha => ?_) fun hnone e => ?_
  swap
  · exact .refused (by simp [acceptsMilestone, hnone]) rfl rfl
  dsimp only
  cases hm : a.milestones[dto.milestoneIndex]? with
  | none => exact .refused (by simp [acceptsMilestone, ha, hm]) rfl rfl
  | some m =>
      refine Calls.ensures_bind.mpr (Calls.ensures_ofExcept.mpr ⟨fun consistency hconsistency => ?_,
        fun e herror => ?_⟩)
      swap
      · exact .refused (by simp [acceptsMilestone, ha, hm, isConsistent, herror]) rfl rfl
      cases consistency with
      | error e =>
          exact .refused (by simp [acceptsMilestone, ha, hm, isConsistent, hconsistency]) rfl rfl
      | ok _ =>
          have haccepts : acceptsMilestone F now db₂ userId agreementId dto = true := by
            simp [acceptsMilestone, hmay, hown, ha, hm, isConsistent, hconsistency]
          refine Calls.ensures_ask fun x db₃ hx => ?_
          obtain ⟨rfl, rfl⟩ := hx
          refine Calls.ensures_ask fun y db₄ hy => ?_
          obtain ⟨-, rfl⟩ := hy
          -- the row is written; the events compare it with the row that was read
          refine Calls.ensures_bind.mpr ((emitAll_answered _).mono fun _ db₅ hemitted => ?_)
          refine ⟨fun _ _ => ?_, fun _ _ => .accepted a m haccepts ha hm hemitted.1 hemitted.2⟩
          refine Calls.ensures_ask fun z db₆ hz => ?_
          obtain ⟨-, rfl⟩ := hz
          exact .accepted a m haccepts ha hm hemitted.1 hemitted.2

end Participant

/-! ## Trustless Work -/

section Upstream

variable {now : Timestamp} {db : AgreementDb} {payload : Value} {a : Agreement}

/-- An entry is named by an index that is there, in the range of the list and a key of it. -/
theorem payloadEntry_eq_some {length index : ℕ} (h : payloadEntry payload length = some index) :
    ∃ number key, (Webhooks.milestoneIndex payload).toNumber = some number ∧
      (Webhooks.milestoneIndex payload).toText = some key ∧
      (Webhooks.milestoneIndex payload).isUndefined = false ∧
      number.lt 0 = false ∧ Js.Number.le (.finite length) number = false ∧
      Webhooks.entryIndex key length = some index := by
  unfold payloadEntry at h
  dsimp only at h
  split at h
  · rename_i number key hnumber hkey
    split at h
    · cases h
    · rename_i hrange
      simp only [Bool.or_eq_true, not_or, Bool.not_eq_true] at hrange
      obtain ⟨⟨hundefined, hnegative⟩, hlength⟩ := hrange
      exact ⟨number, key, hnumber, hkey, hundefined, hnegative, hlength, h⟩
  · cases h

/-- A payload with a canonical status for an entry of the list is written. -/
theorem editMilestones_of_entry {milestones : List Milestone} {index : ℕ}
    (hentry : payloadEntry payload milestones.length = some index)
    (hstatus : (payloadStatus payload).isSome = true) :
    editMilestones payload milestones =
      .ok (some (milestones.modify index (Milestone.edit payload))) := by
  have hwritten : ∃ edited, editMilestones payload milestones = .ok (some edited) := by
    obtain ⟨number, key, hnumber, hkey, hundefined, hnegative, hlength, hkeyed⟩ :=
      payloadEntry_eq_some hentry
    obtain ⟨normalized, hnormalized⟩ := Option.isSome_iff_exists.mp hstatus
    simp only [payloadStatus] at hnormalized
    have hfirst : writeMilestoneStatus key ((payload.field "milestone").field "status")
        milestones = some (milestones.modify index
          fun m => { m with status := normalized }) := by
      simp only [writeMilestoneStatus, hnormalized, writeEntry, hkeyed]
    have hsecond : (writeMilestoneDescription key
        ((payload.field "milestone").field "description")
        (milestones.modify index fun m => { m with status := normalized })).isSome = true := by
      unfold writeMilestoneDescription
      split
      · simp only [writeEntry, List.length_modify, hkeyed, Option.isSome_some]
      · rfl
    obtain ⟨edited, hsecond⟩ := Option.isSome_iff_exists.mp hsecond
    refine ⟨edited, ?_⟩
    rw [editMilestones, hnumber, hkey]
    simp only [hundefined, hnegative, hlength, hfirst, Option.bind_some, hsecond,
      Bool.false_eq_true, if_false]
  obtain ⟨edited, hedited⟩ := hwritten
  rw [hedited, editMilestones_eq hedited, hentry]

/-- A webhook with a canonical status for an entry rewrites it. -/
theorem handleEvent_writes {index : ℕ} (now : Timestamp) (hedits : editsMilestones payload db a = true)
    (hentry : payloadEntry payload a.milestones.length = some index)
    (hstatus : (payloadStatus payload).isSome = true) :
    ∃ contractId, db.byContract contractId = [a] ∧
      Ensures Answers (handleEvent now payload) db fun _ db' =>
        db'.agreements = Table.updateWhere (fun b => b.contractId = some contractId)
          (Agreement.apply { milestones := some (a.milestones.modify index (Milestone.edit payload))
                             updatedAt := now }) db.agreements := by
  unfold editsMilestones at hedits
  split at hedits
  · rename_i event contractId hevent hcontract
    obtain ⟨hconfig, hrows⟩ := of_decide_eq_true hedits
    refine ⟨contractId, hrows, ?_⟩
    simp only [handleEvent, hevent, hcontract, hconfig, processEvent]
    refine Calls.ensures_ask fun x db₁ hx => ?_
    obtain ⟨rfl, rfl⟩ := hx
    rw [data_maybeSingle, Table.sole_eq_some.mpr hrows]
    dsimp only
    rw [editMilestones_of_entry hentry hstatus]
    refine Calls.ensures_ask fun y db₂ hy => ?_
    obtain ⟨rfl, rfl⟩ := hy
    refine Calls.ensures_ask fun z db₃ hz => ?_
    obtain ⟨-, rfl⟩ := hz
    rfl
  · cases hedits

/-- Without the agreement a reconcile does nothing. -/
theorem doReconcile_missing {agreementId : String} {first second : Fetch}
    (hnone : db.agreementAt agreementId = none) :
    Ensures Answers (doReconcile now agreementId first second) db fun _ db' => db' = db := by
  refine Calls.ensures_bind.mpr (answered_getAgreement (fun a ha => ?_) fun _ e => ?_)
  · rw [hnone] at ha
    cases ha
  · refine ⟨fun result hresult => ?_, fun _ _ => rfl⟩
    cases hresult
    rfl

end Upstream

/-! ## Every operation -/

section Operations

variable {F : FloatArithmetic} {db db' : AgreementDb} {o : Operation}
  {out : Except HttpException AgreementAnswer}

theorem step_of_runs (hrun : Calls.Runs Answers (o.program F) db out db') :
    (agreementSystem F).step db o db' := by
  have hall : Ensures Executes (o.program F) db fun out db' =>
      Calls.Runs Executes (o.program F) db out db' := Calls.ensures_iff.mpr fun _ _ h => h
  exact ⟨out, Calls.ensures_iff.mp (hall.of_exec Answers.executes) _ _ hrun⟩

/-- What holds at the end of a method holds at the end of its operation. -/
theorem end_of_runs {α : Type} {p : AgreementProgram α} {answer : α → AgreementAnswer}
    {P : AgreementDb → Prop} (h : Ensures Answers p db fun _ db' => P db')
    (hrun : Calls.Runs Answers (p >>= fun a => .done (answer a)) db out db') : P db' :=
  (Calls.LeadsTo.wrapped ⟨h⟩ answer).of_runs hrun

/-- The rows afterwards: the ones there were, with the statuses that are stored, and maybe new ones. -/
def RowsStored (F : FloatArithmetic) (db : AgreementDb) (o : Operation) (rows : List Agreement) :
    Prop :=
  Table.Extends (fun a a' => a'.id = a.id ∧ StatusesStored F db o a a') db.agreements rows

/-- Where nothing can be written into any row, and nothing is stored. -/
theorem rowsStored_of_none (h : (agreementSystem F).step db o db')
    (hwritten : ∀ a ∈ db.agreements, ∀ index, statusWritten F db o a index = none)
    (hstored : ∀ a ∈ db.agreements, ∀ index, storedStatus F db o a index = none) :
    RowsStored F db o db'.agreements := by
  rcases step_milestones h with hrows | ⟨userId, dto, id, created, -, -, -, hadded⟩
  · refine .of_forall₂ (Table.forall₂_imp_mem hrows fun a a' ha hrow => ⟨hrow.1.id_eq, ?_⟩)
    exact hrow.2.stored (hwritten a ha) (hstored a ha)
  · rw [RowsStored, hadded]
    refine ⟨db.agreements, [_], rfl, List.forall₂_same.mpr fun a ha => ⟨rfl, ?_⟩⟩
    exact .of_eq (hstored a ha) rfl

/-- Where the rows that an update reaches get what is stored, and nothing is stored elsewhere. -/
theorem rowsStored_of_update {p : Agreement → Bool} {updates : AgreementUpdates}
    {rows : List Agreement}
    (hrows : rows = Table.updateWhere p (Agreement.apply updates) db.agreements)
    (hreached : ∀ a ∈ db.agreements, p a = true → StatusesStored F db o a (a.apply updates))
    (hother : ∀ a ∈ db.agreements, p a = false → ∀ index, storedStatus F db o a index = none) :
    RowsStored F db o rows := by
  rw [RowsStored, hrows, Table.updateWhere]
  refine .of_forall₂ (List.forall₂_map_right_iff.mpr (List.forall₂_same.mpr fun a ha => ?_))
  cases hp : p a with
  | true => exact ⟨rfl, hreached a ha hp⟩
  | false => exact ⟨rfl, .of_eq (hother a ha hp) rfl⟩

/-- The agreement under an id is the only row with it. -/
theorem eq_of_agreementAt {id : String} {a b : Agreement} (h : db.agreementAt id = some a)
    (hb : b ∈ db.agreements) (hid : b.id = id) : b = a := by
  have hmem : b ∈ db.agreements.filter fun a => a.id = id :=
    List.mem_filter.mpr ⟨hb, by simpa using hid⟩
  rw [Table.sole_eq_some.mp h] at hmem
  exact List.mem_singleton.mp hmem

/-- A payload writes the milestones of one agreement. -/
theorem eq_of_editsMilestones {payload : Value} {a b : Agreement}
    (ha : editsMilestones payload db a = true) (hb : editsMilestones payload db b = true) : b = a := by
  unfold editsMilestones at ha hb
  split at ha
  · rename_i event contractId hevent hcontract
    rw [hevent, hcontract] at hb
    obtain ⟨-, hrows⟩ := of_decide_eq_true ha
    obtain ⟨-, hrows'⟩ := of_decide_eq_true hb
    rw [hrows] at hrows'
    exact (List.cons.inj hrows').1.symm
  · cases ha

theorem updateMilestone_stored {now : Timestamp} {userId agreementId : String}
    {dto : UpdateMilestoneDto}
    (hrun : Calls.Runs Answers (Operation.program F ⟨now, .updateMilestone userId agreementId dto⟩) db
      out db') :
    RowsStored F db ⟨now, .updateMilestone userId agreementId dto⟩ db'.agreements := by
  cases end_of_runs updateMilestone_answered hrun with
  | refused hrefused hrows hevents =>
      have hnone : ∀ a ∈ db.agreements, ∀ index,
          statusWritten F db ⟨now, .updateMilestone userId agreementId dto⟩ a index = none := by
        intro a _ index
        simp [statusWritten, hrefused]
      exact rowsStored_of_none (step_of_runs hrun) hnone hnone
  | accepted a m haccepts ha hm hrows hevents =>
      refine rowsStored_of_update hrows (fun b hb hid => ?_) fun b _ hid index => ?_
      · obtain rfl := eq_of_agreementAt ha hb (of_decide_eq_true hid)
        have hset : b.milestones.set dto.milestoneIndex (m.update now dto) =
            b.milestones.modify dto.milestoneIndex (Milestone.update now dto) := by
          rw [List.modify_eq_set_getElem?, hm]
          rfl
        refine .of_modify dto.milestoneIndex (Milestone.update now dto) hset (fun old => ?_)
          fun index hne => ?_
        · have hid : b.id = agreementId := of_decide_eq_true hid
          simp [storedStatus, statusWritten, haccepts, hid, Milestone.update]
        · simp [storedStatus, statusWritten, hne]
      · have hne : b.id ≠ agreementId := of_decide_eq_false hid
        simp [storedStatus, statusWritten, hne]

theorem webhook_stored {now : Timestamp} {payload : Value}
    (hrun : Calls.Runs Answers (Operation.program F ⟨now, .webhook payload⟩) db out db') :
    RowsStored F db ⟨now, .webhook payload⟩ db'.agreements := by
  by_cases hwrites : ∃ a index, editsMilestones payload db a = true ∧
      payloadEntry payload a.milestones.length = some index ∧ (payloadStatus payload).isSome = true
  · obtain ⟨a, index, hedits, hentry, hstatus⟩ := hwrites
    obtain ⟨contractId, hcontract, hwritten⟩ := handleEvent_writes now hedits hentry hstatus
    have hrows := end_of_runs hwritten hrun
    -- the agreement that is edited is the only one linked to the contract
    have hmem : ∀ b ∈ db.agreements, b.contractId = some contractId ↔ b = a := by
      intro b hb
      have hb' : b ∈ db.byContract contractId ↔ _ := mem_byContract
      rw [hcontract, List.mem_singleton] at hb'
      exact ⟨fun hid => hb'.mpr ⟨hb, hid⟩, fun heq => (hb'.mp heq).2⟩
    refine rowsStored_of_update hrows (fun b hb hid => ?_) fun b hb hid j => ?_
    · obtain rfl := (hmem b hb).mp (of_decide_eq_true hid)
      refine .of_modify index (Milestone.edit payload) rfl (fun m => ?_) fun j hne => ?_
      · simp [storedStatus, statusWritten, hedits, hentry, Milestone.edit]
      · simp [storedStatus, statusWritten, hentry, Ne.symm hne]
    · -- an event edits at most one agreement
      have hother : editsMilestones payload db b = false := by
        rw [Bool.eq_false_iff]
        intro hb'
        exact of_decide_eq_false hid ((hmem b hb).mpr (eq_of_editsMilestones hedits hb'))
      simp [storedStatus, statusWritten, hother]
  · have hnone : ∀ a ∈ db.agreements, ∀ index,
        statusWritten F db ⟨now, .webhook payload⟩ a index = none := by
      intro a _ index
      by_contra hsome
      refine hwrites ⟨a, index, ?_⟩
      unfold statusWritten at hsome
      dsimp only at hsome
      split at hsome
      · rename_i hentry
        exact ⟨hentry.1, hentry.2, Option.isSome_iff_ne_none.mpr hsome⟩
      · exact absurd rfl hsome
    exact rowsStored_of_none (step_of_runs hrun) hnone hnone

/-- The milestones of the agreement that a reconcile was asked for. -/
theorem ReconcileEnd.statusesStored {now : Timestamp} {agreementId contractId : String}
    {first second : Fetch} {a a' : Agreement} {reported : Bool}
    (ha : db.agreementAt agreementId = some a) (hcontract : nonEmpty a.contractId = some contractId)
    (h : ReconcileEnd (fetchTrustlessEscrow contractId first) (fetchTrustlessEscrow contractId second)
      a a' reported) :
    StatusesStored F db ⟨now, .reconcile agreementId first second⟩ a a' := by
  have hstored : ∀ index, storedStatus F db ⟨now, .reconcile agreementId first second⟩ a index =
      if endsUnreported (fetchTrustlessEscrow contractId first)
          (fetchTrustlessEscrow contractId second) a ||
        leavesMilestones (fetchTrustlessEscrow contractId first)
          (fetchTrustlessEscrow contractId second) a then none
      else givenStatus (fetchTrustlessEscrow contractId second) index := by
    intro index
    simp only [storedStatus, ha, if_true, correctedStatus, hcontract]
  cases h with
  | unreported hunreported hmilestones =>
      refine .of_eq (fun index => ?_) hmilestones
      rw [hstored, hunreported, Bool.true_or, if_pos rfl]
  | left hreported hleaves hstatus hmilestones =>
      refine .of_eq (fun index => ?_) hmilestones
      rw [hstored, hleaves, Bool.or_true, if_pos rfl]
  | corrected hreported hleaves hstatus hmilestones =>
      rw [StatusesStored, hmilestones, correctedMilestones]
      refine ⟨List.length_mapIdx, fun index m m' hm hm' => ?_⟩
      rw [List.getElem?_mapIdx, hm, Option.map_some] at hm'
      obtain rfl := Option.some.inj hm'
      rw [hstored, hreported, hleaves, Bool.or_self]
      rfl

/-- A reconcile of an agreement over a contract. -/
theorem reconcile_stored_linked {now : Timestamp} {agreementId contractId : String}
    {first second : Fetch} {a : Agreement} (ha : db.agreementAt agreementId = some a)
    (hcontract : nonEmpty a.contractId = some contractId)
    (hrun : Calls.Runs Answers (Operation.program F ⟨now, .reconcile agreementId first second⟩) db out
      db') :
    RowsStored F db ⟨now, .reconcile agreementId first second⟩ db'.agreements := by
  have hend : Ensures Answers (doReconcile now agreementId first second) db fun _ db' =>
      ∃ reported a', db'.agreementAt agreementId = some a' ∧
        ReconcileEnd (fetchTrustlessEscrow contractId first)
          (fetchTrustlessEscrow contractId second) a a' reported :=
    (doReconcile_end ha hcontract).mono fun out _ h => ⟨reportsReconciled out, h⟩
  obtain ⟨reported, a', ha', hend⟩ := end_of_runs hend hrun
  rcases step_milestones (step_of_runs hrun) with hrows | ⟨_, _, _, _, hcreate, -⟩
  · have hkept := List.Forall₂.flip (Table.forall₂_imp_mem hrows.flip
      fun b' b hb' hrow => And.intro hb' hrow)
    refine .of_forall₂ (Table.forall₂_imp_mem hkept fun b b' hb hboth => ?_)
    obtain ⟨hb', hrow, hmilestones⟩ := hboth
    refine ⟨hrow.id_eq, ?_⟩
    by_cases hid : b.id = agreementId
    · -- the row that the reconcile was asked for
      obtain rfl := eq_of_agreementAt ha hb hid
      rw [eq_of_agreementAt ha' hb' (hrow.id_eq.trans hid)]
      exact hend.statusesStored ha hcontract
    · have hne : a ≠ b := fun hab => hid (hab ▸ (mem_of_agreementAt ha).2)
      refine hmilestones.stored (fun index => ?_) fun index => ?_
      · simp [statusWritten, hid]
      · simp [storedStatus, ha, hne]
  · cases hcreate

theorem reconcile_stored {now : Timestamp} {agreementId : String} {first second : Fetch}
    (hrun : Calls.Runs Answers (Operation.program F ⟨now, .reconcile agreementId first second⟩) db out
      db') :
    RowsStored F db ⟨now, .reconcile agreementId first second⟩ db'.agreements := by
  cases ha : db.agreementAt agreementId with
  | none =>
      obtain rfl := end_of_runs (P := fun db' => db' = db) (doReconcile_missing ha) hrun
      refine .of_forall₂ (List.forall₂_same.mpr fun a _ => ⟨rfl, .of_eq (fun index => ?_) rfl⟩)
      simp [storedStatus, ha]
  | some a =>
      cases hcontract : nonEmpty a.contractId with
      | some contractId => exact reconcile_stored_linked ha hcontract hrun
      | none =>
          -- there is nothing to ask Trustless Work for
          refine rowsStored_of_none (step_of_runs hrun) (fun b hb index => ?_) fun b hb index => ?_
          · by_cases hid : b.id = agreementId
            · simp [eq_of_agreementAt ha hb hid, statusWritten, outOfStep, hcontract]
            · simp [statusWritten, hid]
          · by_cases hab : a = b
            · simp [← hab, storedStatus, correctedStatus, hcontract]
            · simp [storedStatus, ha, hab]

/-- **Step lemma.** When no query fails, an operation keeps every agreement and gives its milestones the
statuses that `storedStatus` says, and no other. -/
theorem answered_statuses (hrun : Calls.Runs Answers (o.program F) db out db') :
    RowsStored F db o db'.agreements := by
  have hstep := step_of_runs hrun
  obtain ⟨now, request⟩ := o
  cases request with
  | updateMilestone userId agreementId dto => exact updateMilestone_stored hrun
  | webhook payload => exact webhook_stored hrun
  | reconcile agreementId first second => exact reconcile_stored hrun
  | _ => exact rowsStored_of_none hstep (fun _ _ _ => rfl) fun _ _ _ => rfl

end Operations

end ThalosBackend.Agreements
