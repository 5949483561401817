import ThalosBackend.Agreements.AccessRule
import ThalosBackend.Agreements.CompletionGate

/-!
# What is written into a milestone

`updateMilestone`, the webhook and `doReconcile` read the list of milestones, change entries and write
the list back. `statusWritten` and `descriptionWritten` say, from the request and the row it finds,
what the operation is about to write into an entry: nothing where it is refused, where the payload
names no entry, or where the loop over the upstream milestones does not get.

`step_milestones` says that an operation writes nothing else, and never moves an entry or touches an
amount.
-/

set_option autoImplicit false

namespace ThalosBackend.Agreements

open Js (FloatArithmetic Number Timestamp Value nonEmpty)
open Calls (ask Ensures)
open Webhooks (editMilestones editMilestones_some entryIndex milestoneIndex namesPrototype twEventMap
  writeEntry writeMilestoneDescription writeMilestoneStatus)

/-! ## Lists of milestones, entry by entry -/

/-- The lists have the same entries, as far as `R` says. -/
structure EachEntry (R : ℕ → Milestone → Milestone → Prop) (milestones milestones' : List Milestone) :
    Prop where
  length_eq : milestones'.length = milestones.length
  entry : ∀ index m m', milestones[index]? = some m → milestones'[index]? = some m' → R index m m'

namespace EachEntry

variable {R S T : ℕ → Milestone → Milestone → Prop} {milestones milestones' : List Milestone}

theorem refl (hR : ∀ index m, R index m m) (milestones : List Milestone) :
    EachEntry R milestones milestones := by
  refine ⟨rfl, fun index m m' hm hm' => ?_⟩
  obtain rfl := Option.some.inj (hm.symm.trans hm')
  exact hR index m

theorem mono (h : EachEntry R milestones milestones')
    (hRS : ∀ index m m', milestones[index]? = some m → R index m m' → S index m m') :
    EachEntry S milestones milestones' :=
  ⟨h.length_eq, fun index m m' hm hm' => hRS index m m' hm (h.entry index m m' hm hm')⟩

/-- An entry that was there is there after the write. -/
theorem exists_entry (h : EachEntry R milestones milestones') {index : ℕ} {m : Milestone}
    (hm : milestones[index]? = some m) : ∃ m', milestones'[index]? = some m' ∧ R index m m' := by
  obtain ⟨hlt, -⟩ := List.getElem?_eq_some_iff.mp hm
  have hlt' : index < milestones'.length := by
    rw [h.length_eq]
    exact hlt
  have hm' := List.getElem?_eq_getElem hlt'
  exact ⟨_, hm', h.entry index m _ hm hm'⟩

/-- An entry that is there after the write was there. -/
theorem exists_old (h : EachEntry R milestones milestones') {index : ℕ} {m' : Milestone}
    (hm' : milestones'[index]? = some m') : ∃ m, milestones[index]? = some m ∧ R index m m' := by
  obtain ⟨hlt, -⟩ := List.getElem?_eq_some_iff.mp hm'
  have hlt' : index < milestones.length := by
    rw [← h.length_eq]
    exact hlt
  have hm := List.getElem?_eq_getElem hlt'
  exact ⟨_, hm, h.entry index _ m' hm hm'⟩

/-- One entry is rewritten. -/
theorem modify (hR : ∀ index m, R index m m) (write : Milestone → Milestone) (i : ℕ)
    (hwrite : ∀ m, milestones[i]? = some m → R i m (write m)) :
    EachEntry R milestones (milestones.modify i write) := by
  refine ⟨List.length_modify .., fun index m m' hm hm' => ?_⟩
  rw [List.getElem?_modify, hm] at hm'
  by_cases hi : i = index
  · subst hi
    obtain rfl : write m = m' := by simpa using hm'
    exact hwrite m hm
  · obtain rfl : m = m' := by simpa [hi] using hm'
    exact hR index m

end EachEntry

/-! ## Payloads -/

/-- The entry of a list of this length that a payload names. -/
def payloadEntry (payload : Value) (length : ℕ) : Option ℕ :=
  let index := milestoneIndex payload
  match index.toNumber, index.toText with
  | some number, some key =>
    if index.isUndefined || number.lt 0 || Number.le (.finite length) number then none
    else entryIndex key length
  | _, _ => none

/-- The status of a payload, if it is canonical. -/
def payloadStatus (payload : Value) : Option MilestoneStatus :=
  normalizeMilestoneStatus ((payload.field "milestone").field "status")

/-- The description of a payload, if there is one. -/
def payloadDescription (payload : Value) : Option Value :=
  let description := (payload.field "milestone").field "description"
  if description.truthy then some description else none

/-- The entry after a webhook. -/
def Milestone.edit (payload : Value) (m : Milestone) : Milestone :=
  { m with
    status := (payloadStatus payload).getD m.status
    description := (payloadDescription payload).getD m.description }

theorem writeEntry_eq {key : String} {write : Milestone → Milestone}
    {milestones milestones' : List Milestone} (h : writeEntry key write milestones = some milestones') :
    milestones' = match entryIndex key milestones.length with
      | some index => milestones.modify index write
      | none => milestones := by
  cases hindex : entryIndex key milestones.length with
  | some index =>
      simp only [writeEntry, hindex, Option.some.injEq] at h
      exact h.symm
  | none =>
      simp only [writeEntry, hindex] at h
      split at h
      · exact (Option.some.inj h).symm
      · cases h

theorem writeMilestoneStatus_eq {key : String} {payload : Value}
    {milestones milestones' : List Milestone}
    (h : writeMilestoneStatus key ((payload.field "milestone").field "status") milestones =
      some milestones') :
    milestones' = match entryIndex key milestones.length with
      | some index => milestones.modify index
          fun m => { m with status := (payloadStatus payload).getD m.status }
      | none => milestones := by
  unfold writeMilestoneStatus at h
  split at h
  · rename_i status hstatus
    rw [writeEntry_eq h, payloadStatus, hstatus]
    rfl
  · rename_i hnone
    have hsame : milestones' = milestones := by
      split at h
      · obtain ⟨_, -, rfl⟩ := Option.map_eq_some_iff.mp h
        rfl
      · cases h
        rfl
    rw [hsame, payloadStatus, hnone]
    split
    · exact (List.modify_id _ _).symm
    · rfl

theorem writeMilestoneDescription_eq {key : String} {payload : Value}
    {milestones milestones' : List Milestone}
    (h : writeMilestoneDescription key ((payload.field "milestone").field "description") milestones =
      some milestones') :
    milestones' = match entryIndex key milestones.length with
      | some index => milestones.modify index
          fun m => { m with description := (payloadDescription payload).getD m.description }
      | none => milestones := by
  unfold writeMilestoneDescription at h
  split at h
  · rename_i htruthy
    rw [writeEntry_eq h, payloadDescription, if_pos htruthy]
    rfl
  · rename_i hfalsy
    cases h
    rw [payloadDescription, if_neg hfalsy]
    split
    · exact (List.modify_id _ _).symm
    · rfl

theorem length_of_writeMilestoneStatus {key : String} {payload : Value}
    {milestones milestones' : List Milestone}
    (h : writeMilestoneStatus key ((payload.field "milestone").field "status") milestones =
      some milestones') : milestones'.length = milestones.length := by
  rw [writeMilestoneStatus_eq h]
  split
  · exact List.length_modify ..
  · rfl

/-- A webhook that writes rewrites the entry its payload names, if it names one. -/
theorem editMilestones_eq {payload : Value} {milestones milestones' : List Milestone}
    (h : editMilestones payload milestones = .ok (some milestones')) :
    milestones' = match payloadEntry payload milestones.length with
      | some index => milestones.modify index (Milestone.edit payload)
      | none => milestones := by
  obtain ⟨number, key, between, hundefined, hnumber, hkey, hnegative, hlength, hstatus,
    hdescription⟩ := editMilestones_some h
  have hentry : payloadEntry payload milestones.length = entryIndex key milestones.length := by
    simp only [payloadEntry, hnumber, hkey, hundefined, hnegative, hlength, Bool.or_self,
      Bool.false_eq_true, if_false]
  have hbetween := writeMilestoneStatus_eq hstatus
  have hafter := writeMilestoneDescription_eq hdescription
  rw [length_of_writeMilestoneStatus hstatus] at hafter
  rw [hentry, hafter]
  cases hindex : entryIndex key milestones.length with
  | none =>
      rw [hindex] at hbetween
      exact hbetween
  | some index =>
      rw [hindex] at hbetween
      dsimp only at hbetween ⊢
      rw [hbetween, List.modify_modify_eq]
      rfl

/-! ## What an operation is about to write -/

/-- `validateAgreementConsistency` finds nothing. -/
def isConsistent (F : FloatArithmetic) (amount : String) (milestones : List Milestone) : Bool :=
  match validateAgreementConsistency F amount milestones with
  | .ok (.ok ()) => true
  | _ => false

/-- `updateMilestone` passes its checks and writes. -/
def acceptsMilestone (F : FloatArithmetic) (now : Timestamp) (db : AgreementDb)
    (userId agreementId : String) (dto : UpdateMilestoneDto) : Bool :=
  mayAccess db userId agreementId && dto.actorWallet ∈ ownWallets db userId &&
    (db.agreementAt agreementId).any fun a => (a.milestones[dto.milestoneIndex]?).any fun m =>
      isConsistent F a.amount (a.milestones.set dto.milestoneIndex (m.update now dto))

/-- `create` passes its checks and inserts. -/
def acceptsCreate (F : FloatArithmetic) (db : AgreementDb) (userId : String)
    (dto : CreateAgreementDto) : Bool :=
  validateAgreement F dto.input = .ok () && dto.createdBy ∈ ownWallets db userId

/-- The webhook finds the agreement and writes its milestones. -/
def editsMilestones (payload : Value) (db : AgreementDb) (a : Agreement) : Bool :=
  match (payload.field "event").toText, (payload.field "contractId").toText with
  | some event, some contractId =>
    twEventMap event = some .milestoneUpdate ∧ db.byContract contractId = [a]
  | _, _ => false

/-- The payload gives every list a description. -/
def sharesDescription (payload : Value) : Bool :=
  namesPrototype payload && (payloadDescription payload).isSome

/-- The operation is a webhook that gives every list a status. -/
def spreadsStatus (db : AgreementDb) (o : Operation) : Bool :=
  match o.request with
  | .webhook payload => sharesStatus payload && db.agreements.any (editsMilestones payload db)
  | _ => false

/-- The operation is a webhook that gives every list a description. -/
def spreadsDescription (db : AgreementDb) (o : Operation) : Bool :=
  match o.request with
  | .webhook payload => sharesDescription payload && db.agreements.any (editsMilestones payload db)
  | _ => false

/-- The status that `doReconcile` takes over from Trustless Work into an entry of the row. Nothing is
taken over when some entry cannot be read. -/
def reconciledStatus (fetch : Fetch) (a : Agreement) (index : ℕ) : Option MilestoneStatus :=
  match nonEmpty a.contractId with
  | none => none
  | some contractId =>
    let escrow := fetchTrustlessEscrow contractId fetch
    match escrow.truthy && (escrow.field "milestones").truthy,
        (lengthOf (escrow.field "milestones")).toNumber with
    | true, some limit =>
      if (List.range a.milestones.length).any (upstreamStatus escrow limit · = some none) then none
      else (upstreamStatus escrow limit index).join
    | _, _ => none

/-- The status the operation is about to write into an entry of the row. -/
def statusWritten (F : FloatArithmetic) (db : AgreementDb) (o : Operation) (a : Agreement)
    (index : ℕ) : Option MilestoneStatus :=
  match o.request with
  | .updateMilestone userId agreementId dto =>
    if a.id = agreementId ∧ index = dto.milestoneIndex ∧
        acceptsMilestone F o.now db userId agreementId dto then some dto.status
    else none
  | .webhook payload =>
    if editsMilestones payload db a ∧ payloadEntry payload a.milestones.length = some index then
      payloadStatus payload
    else none
  | .reconcile agreementId first second =>
    if a.id = agreementId ∧ outOfStep first a then reconciledStatus second a index else none
  | _ => none

/-- The description the operation is about to write into an entry of the row. -/
def descriptionWritten (db : AgreementDb) (o : Operation) (a : Agreement) (index : ℕ) :
    Option Value :=
  match o.request with
  | .webhook payload =>
    if editsMilestones payload db a ∧ payloadEntry payload a.milestones.length = some index then
      payloadDescription payload
    else none
  | _ => none

/-- The entry after a write of these. -/
structure EntryWrite (status : Option MilestoneStatus) (description : Option Value)
    (m m' : Milestone) : Prop where
  amount : m'.amount = m.amount
  status : m'.status = m.status ∨ status = some m'.status
  description : m'.description = m.description ∨ description = some m'.description

/-- The milestones of a row before and after the operation. -/
abbrev MilestonesStep (F : FloatArithmetic) (db : AgreementDb) (o : Operation) (a a' : Agreement) :
    Prop :=
  EachEntry (fun index => EntryWrite (statusWritten F db o a index) (descriptionWritten db o a index))
    a.milestones a'.milestones

/-! ## Steps -/

theorem EntryWrite.refl (status : Option MilestoneStatus) (description : Option Value)
    (m : Milestone) : EntryWrite status description m m :=
  ⟨rfl, .inl rfl, .inl rfl⟩

/-- An edit by an event writes what its payload says. -/
theorem EntryWrite.edit (payload : Value) (m : Milestone) :
    EntryWrite (payloadStatus payload) (payloadDescription payload) m (m.edit payload) := by
  refine ⟨rfl, ?_, ?_⟩
  · cases hstatus : payloadStatus payload with
    | none => exact .inl (by simp [Milestone.edit, hstatus])
    | some status => exact .inr (by simp [Milestone.edit, hstatus])
  · cases hdescription : payloadDescription payload with
    | none => exact .inl (by simp [Milestone.edit, hdescription])
    | some description => exact .inr (by simp [Milestone.edit, hdescription])

section Steps

variable {F : FloatArithmetic} {db db' : AgreementDb} {o : Operation} {a a' : Agreement}

theorem MilestonesStep.of_eq (h : a'.milestones = a.milestones) : MilestonesStep F db o a a' := by
  rw [MilestonesStep, h]
  exact .refl (fun index m => .refl _ _ m) _

/-- The loop of `doReconcile` touches nothing but the status. -/
theorem eq_of_reconcileMilestone {escrow : Value} {limit : Number} {m m' : Milestone} {index : ℕ}
    (h : reconcileMilestone escrow limit (m, index) = .ok m') :
    m' = { m with status := m'.status } := by
  unfold reconcileMilestone at h
  dsimp only at h
  split at h
  · split at h
    · cases h
    · cases h
      rfl
  · cases h
    rfl

/-- The milestones of the list that `doReconcile` writes. -/
theorem each_reconcileMilestones {fetch : Fetch} {contractId : String} {milestones : List Milestone}
    (hcontract : nonEmpty a.contractId = some contractId)
    (htruthy : (fetchTrustlessEscrow contractId fetch).truthy = true)
    (hlisted : ((fetchTrustlessEscrow contractId fetch).field "milestones").truthy = true)
    (h : reconcileMilestones (fetchTrustlessEscrow contractId fetch) a.milestones = .ok milestones) :
    EachEntry (fun index => EntryWrite (reconciledStatus fetch a index) none) a.milestones
      milestones := by
  unfold reconcileMilestones at h
  split at h
  · cases h
  · rename_i limit hlimit
    have hentries := forall₂_of_mapM_eq_ok h
    have hlength : milestones.length = a.milestones.length := by
      rw [← hentries.length_eq, List.length_zipIdx]
    have hstep : ∀ index m m', a.milestones[index]? = some m → milestones[index]? = some m' →
        reconcileMilestone (fetchTrustlessEscrow contractId fetch) limit (m, index) = .ok m' := by
      intro index m m' hm hm'
      obtain ⟨hlt, rfl⟩ := List.getElem?_eq_some_iff.mp hm
      obtain ⟨hlt', rfl⟩ := List.getElem?_eq_some_iff.mp hm'
      have hget := hentries.get (i := index) (by simpa using hlt) hlt'
      simpa using hget
    -- no entry of the row throws, since the list was written
    have hreads : ((List.range a.milestones.length).any
        (upstreamStatus (fetchTrustlessEscrow contractId fetch) limit · = some none)) = false := by
      rw [List.any_eq_false]
      intro index hindex hthrows
      have hlt : index < a.milestones.length := List.mem_range.mp hindex
      have hm := List.getElem?_eq_getElem hlt
      have hm' := List.getElem?_eq_getElem (hlength.symm ▸ hlt)
      have hthrows := of_decide_eq_true hthrows
      rcases reconcileMilestone_eq (hstep index _ _ hm hm') with ⟨hnone, -⟩ | hsome
      · rw [hthrows] at hnone
        cases hnone
      · rw [hthrows] at hsome
        cases hsome
    have hwritten : ∀ index, reconciledStatus fetch a index =
        (upstreamStatus (fetchTrustlessEscrow contractId fetch) limit index).join := by
      intro index
      simp only [reconciledStatus, hcontract, htruthy, hlisted, Bool.and_self, hlimit, hreads,
        Bool.false_eq_true, if_false]
    refine ⟨hlength, fun index m m' hm hm' => ?_⟩
    have hentry := hstep index m m' hm hm'
    rw [hwritten]
    rcases reconcileMilestone_eq hentry with ⟨-, rfl⟩ | hsome
    · exact .refl _ _ _
    · have hsame := eq_of_reconcileMilestone hentry
      have hamount : m'.amount = m.amount := by rw [hsame]
      have hdescription : m'.description = m.description := by rw [hsame]
      exact ⟨hamount, .inr (by rw [hsome]; rfl), .inl hdescription⟩

/-- A request of `updateMilestone` that is refused leaves the agreements alone. -/
theorem updateMilestone_refused {now : Timestamp} {userId agreementId : String}
    {dto : UpdateMilestoneDto}
    (hrefused : acceptsMilestone F now db userId agreementId dto = false) :
    RowsEnd (fun rows => rows = db.agreements) (updateMilestone F now userId agreementId dto) db := by
  refine ⟨Calls.ensures_bind.mpr (assertCanAccessAgreement_own.mono ?_)⟩
  rintro access db₁ ⟨rfl, haccess⟩
  refine ⟨fun _ hpass => ?_, fun e _ => rfl⟩
  have hmay := haccess (by rw [hpass])
  refine Calls.ensures_bind.mpr (assertActorWallet_own.mono ?_)
  rintro actor db₂ ⟨rfl, hactor⟩
  refine ⟨fun _ hpass => ?_, fun e _ => rfl⟩
  have hown := hactor (by rw [hpass])
  refine RowsEnd.ensures (P := fun rows => rows = db₂.agreements) (rowsEnd_ask fun x db₃ hx => ?_)
  obtain ⟨rfl, hfound⟩ := getAgreement_found hx
  cases x with
  | error e => exact Quiet.rowsEnd (quiet_done _) rfl
  | ok a =>
      have hat : db₃.agreementAt agreementId = some a := Table.sole_eq_some.mpr (hfound a rfl)
      dsimp only
      cases hm : a.milestones[dto.milestoneIndex]? with
      | none => exact Quiet.rowsEnd (quiet_done _) rfl
      | some m =>
          refine rowsEnd_ofExcept_bind rfl fun consistency hconsistency => ?_
          cases consistency with
          | error e => exact Quiet.rowsEnd (quiet_fail _) rfl
          | ok _ =>
              -- every check has passed, against what was refused
              have haccepts : acceptsMilestone F now db₃ userId agreementId dto = true := by
                simp [acceptsMilestone, hmay, hown, hat, hm, isConsistent, hconsistency]
              rw [hrefused] at haccepts
              cases haccepts

/-- A request of `create` under a wallet that is not the user's adds nothing. -/
theorem create_refused {userId : String} {dto : CreateAgreementDto}
    (hrefused : dto.createdBy ∉ ownWallets db userId) :
    RowsEnd (fun rows => rows = db.agreements) (create F userId dto) db := by
  unfold create
  split
  · exact Quiet.rowsEnd (quiet_done _) rfl
  · refine ⟨Calls.ensures_bind.mpr (assertActorWallet_own.mono ?_)⟩
    rintro actor db₁ ⟨rfl, hactor⟩
    refine ⟨fun _ hpass => ?_, fun e _ => rfl⟩
    exact absurd (hactor (by rw [hpass])) hrefused

/-- A row that an operation reaches gets what it is about to write. -/
theorem RowStep.milestonesStep (h : RowStep o a a')
    (haccepts : ∀ userId agreementId dto, o.request = .updateMilestone userId agreementId dto →
      acceptsMilestone F o.now db userId agreementId dto = true)
    (halone : ∀ payload contractId, o.request = .webhook payload →
      (payload.field "contractId").toText = some contractId → a.contractId = some contractId →
        db.byContract contractId = [a]) : MilestonesStep F db o a a' := by
  cases h with
  | same => exact .of_eq rfl
  | linked userId dto fetch ho => exact .of_eq rfl
  | status userId dto ho hedge hgate => exact .of_eq rfl
  | disputed target ho htarget hedge => exact .of_eq rfl
  | webhookStatus payload event contractId target => exact .of_eq rfl
  | pulled _ fetch ho hpulled => exact .of_eq hpulled.milestones_eq
  | milestone userId dto m ho hm =>
      rw [MilestonesStep, Agreement.apply_milestones, Option.getD_some]
      have hset : a.milestones.set dto.milestoneIndex (m.update o.now dto) =
          a.milestones.modify dto.milestoneIndex (Milestone.update o.now dto) := by
        rw [List.modify_eq_set_getElem?, hm]
        rfl
      rw [hset]
      refine .modify (fun _ _ => .refl _ _ _) _ _ fun old _ => ?_
      have hwritten : statusWritten F db o a dto.milestoneIndex = some dto.status := by
        simp [statusWritten, ho, haccepts userId a.id dto ho]
      exact ⟨rfl, .inr hwritten, .inl rfl⟩
  | webhookMilestones payload event contractId milestones ho hevent hcontract hconfig hid hedited =>
      rw [MilestonesStep, Agreement.apply_milestones, Option.getD_some]
      have hedits : editsMilestones payload db a = true := by
        simp [editsMilestones, hevent, hcontract, hconfig, halone payload contractId ho hcontract hid]
      -- an event edits one entry, or none
      rw [editMilestones_eq hedited]
      cases hentry : payloadEntry payload a.milestones.length with
      | none => exact .refl (fun _ _ => .refl _ _ _) _
      | some index =>
          refine .modify (fun _ _ => .refl _ _ _) _ _ fun old _ => ?_
          have hstatus : statusWritten F db o a index = payloadStatus payload := by
            simp [statusWritten, ho, hedits, hentry]
          have hdescription : descriptionWritten db o a index = payloadDescription payload := by
            simp [descriptionWritten, ho, hedits, hentry]
          rw [hstatus, hdescription]
          exact .edit payload old
  | reconciled _ first second ho hreconciled =>
      obtain ⟨b, hpulled, rfl | ⟨hout, hcorrected⟩⟩ := hreconciled
      · -- the second part has not been reached, the first one touches no milestone
        exact .of_eq hpulled.milestones_eq
      · rcases hcorrected with rfl |
          ⟨contractId, milestones, hcontract, htruthy, hlisted, hmilestones, rfl⟩
        · exact .of_eq hpulled.milestones_eq
        · rw [hpulled.contractId_eq] at hcontract
          rw [hpulled.milestones_eq] at hmilestones
          rw [MilestonesStep, Agreement.apply_milestones, Option.getD_some]
          refine (each_reconcileMilestones hcontract htruthy hlisted hmilestones).mono
            fun index m m' _ hwrite => ⟨hwrite.amount, ?_, ?_⟩
          · have hwritten : statusWritten F db o a index = reconciledStatus second a index := by
              simp [statusWritten, ho, hout]
            rw [hwritten]
            exact hwrite.status
          · rcases hwrite.description with hsame | hnone
            · exact .inl hsame
            · cases hnone

/-- The kinds of a step. -/
theorem RowsStep.cases {rows rows' : List Agreement} (h : RowsStep F o rows rows') :
    List.Forall₂ (RowStep o) rows rows' ∨
      ∃ userId dto id created, o.request = .create userId dto ∧
        validateAgreement F dto.input = .ok () ∧ (∀ a ∈ rows, a.id ≠ id) ∧
        rows' = rows ++ [dto.row.row id created] := by
  cases h with
  | rows hsteps => exact .inl hsteps
  | added userId dto id created ho hvalid hfresh =>
      exact .inr ⟨userId, dto, id, created, ho, hvalid, hfresh, rfl⟩

/-- **Step lemma.** An operation keeps every agreement, and writes into its milestones only what
`statusWritten` and `descriptionWritten` say. What it adds is a new agreement. -/
theorem step_milestones (h : (agreementSystem F).step db o db') :
    List.Forall₂ (fun a a' => RowStep o a a' ∧ MilestonesStep F db o a a') db.agreements
        db'.agreements ∨
      ∃ userId dto id created, o.request = .create userId dto ∧
        acceptsCreate F db userId dto = true ∧ (∀ a ∈ db.agreements, a.id ≠ id) ∧
        db'.agreements = db.agreements ++ [dto.row.row id created] := by
  have hsame : db'.agreements = db.agreements → List.Forall₂
      (fun a a' => RowStep o a a' ∧ MilestonesStep F db o a a') db.agreements db'.agreements := by
    intro hrows
    rw [hrows]
    exact List.forall₂_same.mpr fun a _ => ⟨.same a, .of_eq rfl⟩
  -- first what writes nothing: a milestone update that is refused
  by_cases hrefused : ∃ userId agreementId dto, o.request = .updateMilestone userId agreementId dto ∧
      acceptsMilestone F o.now db userId agreementId dto = false
  · obtain ⟨userId, agreementId, dto, ho, hrefused⟩ := hrefused
    obtain ⟨now, request⟩ := o
    cases ho
    have hend : RowsEnd (fun rows => rows = db.agreements)
        (Operation.program F ⟨now, .updateMilestone userId agreementId dto⟩) db :=
      (updateMilestone_refused hrefused).bind_quiet fun _ => quiet_done _
    exact .inl (hsame (hend.of_step h))
  -- an event for a contract that is not one agreement's
  by_cases hshared : ∃ payload contractId, o.request = .webhook payload ∧
      (payload.field "contractId").toText = some contractId ∧ ∀ a, db.byContract contractId ≠ [a]
  · obtain ⟨payload, contractId, ho, hcontract, hshared⟩ := hshared
    exact .inl (hsame (unchanged_of_shared ho hcontract hshared h))
  -- a creation by a wallet that is not the user's
  by_cases hunowned : ∃ userId dto, o.request = .create userId dto ∧
      dto.createdBy ∉ ownWallets db userId
  · obtain ⟨userId, dto, ho, hunowned⟩ := hunowned
    obtain ⟨now, request⟩ := o
    cases ho
    have hend : RowsEnd (fun rows => rows = db.agreements)
        (Operation.program F ⟨now, .create userId dto⟩) db :=
      (create_refused hunowned).bind_quiet fun _ => quiet_done _
    exact .inl (hsame (hend.of_step h))
  rcases (step_rows h).cases with hsteps | ⟨userId, dto, id, created, ho, hvalid, hfresh, hadded⟩
  · refine .inl (Table.forall₂_imp_mem hsteps fun a a' ha hrow => ⟨hrow, ?_⟩)
    apply hrow.milestonesStep
    · intro userId agreementId dto ho
      by_contra hno
      exact hrefused ⟨userId, agreementId, dto, ho, Bool.eq_false_iff.mpr hno⟩
    · intro payload contractId ho hcontract hid
      by_contra hno
      refine hshared ⟨payload, contractId, ho, hcontract, fun b hb => hno ?_⟩
      have hmem := mem_byContract.mpr ⟨ha, hid⟩
      rw [hb] at hmem ⊢
      rw [List.mem_singleton.mp hmem]
  · refine .inr ⟨userId, dto, id, created, ho, ?_, hfresh, hadded⟩
    have hown : dto.createdBy ∈ ownWallets db userId := by
      by_contra hno
      exact hunowned ⟨userId, dto, ho, hno⟩
    simp [acceptsCreate, hvalid, hown]

end Steps

end ThalosBackend.Agreements
