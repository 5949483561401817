import ThalosBackend.Agreements.AnsweringDb
import ThalosBackend.Agreements.MilestoneSyncService
import ThalosBackend.Agreements.MilestoneWrites
import ThalosBackend.InternalTrustless.EscrowsController
import ThalosBackend.InternalTrustless.TrustlessRelay

/-!
# Evidence and funding

Evidence for a milestone comes in at four places: the PATCH of a milestone, which stores it, and the
endpoint for `change-milestone-status`, the push of a milestone and the generic relay, which hand it on
to Trustless Work. The guard says that evidence may only be submitted once the escrow holds funds. Two
of the four ask it: the other two let evidence through whatever the balance is.

A history keeps, beside the store, each contract evidence was stored or relayed for, and whether the
request has found its escrow funded. Where the PATCH and the generic relay leave the evidence of
linked contracts to the other two, all of it was found funded.
-/

set_option autoImplicit false

namespace ThalosBackend.Agreements

open Js (FloatArithmetic Timestamp Url Value nonEmpty)
open InternalTrustless (BaseUrl ChangeMilestoneStatusDto Relayed RelayMethod RelayRequest
  assertEscrowFunded relayUrl)

/-! ## The entry points -/

/-- `TrustlessRelayDto`, the arguments of `relayToTrustless`. -/
structure TrustlessRelayDto where
  method : RelayMethod
  path : String
  query : List (String × Value)
  body : Value

/-- The call that `relayWrite(path, body)` makes. -/
def posted (request : RelayRequest) : TrustlessRelayDto := ⟨.post, request.path, [], request.body⟩

/-- Where evidence for a milestone is accepted. -/
inductive EvidenceEntry where
  | updateMilestone (userId agreementId : String) (dto : UpdateMilestoneDto)
  | changeMilestoneStatus (dto : ChangeMilestoneStatusDto)
  | pushMilestoneToTW (payload : MilestoneSyncPayload)
  | prepare (dto : TrustlessRelayDto)

/-- A request, with the time it is served at and what `assertEscrowFunded` is answered if it asks. -/
structure EvidenceRequest where
  now : Timestamp
  funding : Relayed
  entry : EvidenceEntry

/-- What the request hands on to `relayToTrustless`, unless it throws before. -/
def EvidenceRequest.relayed (r : EvidenceRequest) : Except HttpException (Option TrustlessRelayDto) :=
  match r.entry with
  | .updateMilestone _ _ _ => return none
  | .changeMilestoneStatus dto => do
    assertEscrowFunded dto.contractId r.funding
    return some (posted (InternalTrustless.changeMilestoneStatus dto).request)
  | .pushMilestoneToTW payload => do
    return some (posted (← pushMilestoneToTW r.funding payload))
  | .prepare dto => return some dto

/-- `assertEscrowFunded` is asked about the contract, and lets the request through. -/
def EvidenceRequest.findsFunded (r : EvidenceRequest) (contractId : String) : Bool :=
  match r.entry with
  | .changeMilestoneStatus dto =>
    dto.contractId = contractId && (assertEscrowFunded contractId r.funding).isOk
  | .pushMilestoneToTW payload =>
    payload.action = .changeStatus && payload.contractId = contractId &&
      (assertEscrowFunded contractId r.funding).isOk
  | _ => false

/-! ## Where evidence goes -/

/-- The evidence of a milestone. -/
def Milestone.evidence (m : Milestone) : Option String × Option (List String) × Option Timestamp :=
  (m.evidenceDescription, m.evidenceUrls, m.evidenceSubmittedAt)

/-- Some milestone of the row has other evidence than before. -/
def evidenceChanged (a a' : Agreement) : Bool :=
  a.milestones.map Milestone.evidence ≠ a'.milestones.map Milestone.evidence

/-- The contracts of the rows whose evidence was written. -/
def storedEvidence (db db' : AgreementDb) : List String :=
  ((db.agreements.zip db'.agreements).filter fun (a, a') => evidenceChanged a a').filterMap
    fun (a, _) => nonEmpty a.contractId

/-- An agreement is linked to the contract. -/
def AgreementDb.links (db : AgreementDb) (contractId : String) : Bool :=
  db.agreements.any fun a => nonEmpty a.contractId = some contractId

/-- The endpoint of Trustless Work a URL names: the last segment, a slash at the end apart. -/
def endpointOf (url : Url) : Option (List Char) := (url.path.filter (· ≠ [])).getLast?

section Relay

variable (setParam : Option (List Char) → String × String → Option (List Char))
  (base : Option BaseUrl)

/-- The contract whose milestone a relayed call carries evidence for. -/
def carriedEvidence (dto : TrustlessRelayDto) : Option String :=
  match relayUrl setParam base dto.method dto.path dto.query with
  | .error _ => none
  | .ok url =>
    if dto.method = .post ∧ endpointOf url = some "change-milestone-status".toList ∧
        (dto.body.field "newEvidence").truthy then
      match dto.body.field "contractId" with
      | .string contractId => some contractId
      | _ => none
    else none

/-- The linked contract that the request relays evidence for. -/
def relayedEvidence (db : AgreementDb) (r : EvidenceRequest) : Option String :=
  match r.relayed with
  | .ok (some dto) => (carriedEvidence setParam base dto).filter db.links
  | _ => none

end Relay

/-! ## Runs -/

/-- Evidence for a contract has been stored or relayed, in a request that has found the contract's
escrow funded or not. -/
structure EvidenceNote where
  contractId : String
  funded : Bool
  deriving DecidableEq

/-- The store, and the evidence that was stored or relayed. -/
structure EvidenceHistory where
  db : AgreementDb
  evidence : List EvidenceNote

section Systems

variable (F : FloatArithmetic) (setParam : Option (List Char) → String × String → Option (List Char))
  (base : Option BaseUrl)

/-- What a request does to the store: only the PATCH writes. -/
def EvidenceRequest.Stores (r : EvidenceRequest) (db db' : AgreementDb) : Prop :=
  match r.entry with
  | .updateMilestone userId agreementId dto =>
    (agreementSystem F).step db ⟨r.now, .updateMilestone userId agreementId dto⟩ db'
  | _ => db' = db

/-- The history after a request that leaves this store behind. -/
def EvidenceHistory.noted (s : EvidenceHistory) (r : EvidenceRequest) (db' : AgreementDb) :
    EvidenceHistory where
  db := db'
  evidence := s.evidence ++
    (storedEvidence s.db db' ++ (relayedEvidence setParam base s.db r).toList).map
      fun contractId => ⟨contractId, r.findsFunded contractId⟩

/-- The requests one after the other, from any store. -/
def evidenceSystem : StepSystem EvidenceHistory EvidenceRequest where
  init s := s.evidence = []
  step s r s' := ∃ db', r.Stores F s.db db' ∧ s' = s.noted setParam base r db'

/-- A PATCH of a linked agreement that is refused or brings no evidence, and no evidence of a linked
contract through the generic relay. -/
def leavesEvidence (db : AgreementDb) (r : EvidenceRequest) : Bool :=
  match r.entry with
  | .updateMilestone userId agreementId dto =>
    !dto.emitsEvidence || !acceptsMilestone F r.now db userId agreementId dto ||
      db.agreements.all fun a => a.id ≠ agreementId || nonEmpty a.contractId = none
  | .prepare _ => relayedEvidence setParam base db r = none
  | _ => true

/-- The requests, as long as each leaves evidence to the places that ask first. -/
abbrev askingSystem : StepSystem EvidenceHistory EvidenceRequest :=
  (evidenceSystem F setParam base).restrict fun s r => leavesEvidence F setParam base s.db r = true

end Systems

/-! ## What a request stores -/

section Stored

variable {F : FloatArithmetic} {db db' : AgreementDb}

/-- Nothing is stored for a contract when no row of a linked agreement has other evidence. -/
theorem storedEvidence_eq_nil
    (h : ∀ a a', (a, a') ∈ db.agreements.zip db'.agreements → evidenceChanged a a' = true →
      nonEmpty a.contractId = none) : storedEvidence db db' = [] := by
  apply List.filterMap_eq_nil_iff.mpr
  rintro ⟨a, a'⟩ hmem
  obtain ⟨hzip, hchanged⟩ := List.mem_filter.mp hmem
  exact h a a' hzip hchanged

theorem storedEvidence_unchanged (h : db'.agreements = db.agreements) :
    storedEvidence db db' = [] := by
  apply storedEvidence_eq_nil
  intro a a' hzip hchanged
  rw [h] at hzip
  obtain ⟨index, hindex, hentry⟩ := List.getElem_of_mem hzip
  rw [List.getElem_zip] at hentry
  obtain ⟨rfl, rfl⟩ := Prod.mk.inj hentry
  simp [evidenceChanged] at hchanged

/-- A milestone keeps its evidence when none comes with the request. -/
theorem evidence_update {now : Timestamp} {dto : UpdateMilestoneDto} (m : Milestone)
    (h : dto.emitsEvidence = false) : (m.update now dto).evidence = m.evidence := by
  obtain ⟨hdescription, hurls⟩ : dto.evidenceDescription = none ∧ dto.evidenceUrls = none := by
    simpa [UpdateMilestoneDto.emitsEvidence] using h
  simp [Milestone.update, Milestone.evidence, h, hdescription, hurls]

/-- The row after a PATCH that brings no evidence. -/
theorem evidence_set {now : Timestamp} {dto : UpdateMilestoneDto} {m : Milestone}
    {milestones : List Milestone} (h : dto.emitsEvidence = false)
    (hm : milestones[dto.milestoneIndex]? = some m) :
    (milestones.set dto.milestoneIndex (m.update now dto)).map Milestone.evidence =
      milestones.map Milestone.evidence := by
  rw [List.map_set, evidence_update m h]
  apply List.ext_getElem?
  intro index
  by_cases hindex : dto.milestoneIndex = index
  · subst hindex
    obtain ⟨hlength, rfl⟩ := List.getElem?_eq_some_iff.mp hm
    simp [hlength]
  · simp [List.getElem?_set_ne hindex]

/-- What a PATCH makes of a row. -/
theorem rowStep_updateMilestone {now : Timestamp} {userId agreementId : String}
    {dto : UpdateMilestoneDto} {a a' : Agreement}
    (h : RowStep ⟨now, .updateMilestone userId agreementId dto⟩ a a') :
    a' = a ∨ a.id = agreementId ∧ ∃ m, a.milestones[dto.milestoneIndex]? = some m ∧
      a'.milestones = a.milestones.set dto.milestoneIndex (m.update now dto) := by
  cases h with
  | same => exact .inl rfl
  | milestone userId dto m ho hm =>
      cases ho
      exact .inr ⟨rfl, m, hm, rfl⟩
  | linked _ _ _ ho => cases ho
  | status _ _ ho => cases ho
  | disputed _ ho => cases ho
  | webhookStatus _ _ _ _ ho => cases ho
  | webhookMilestones _ _ _ _ ho => cases ho
  | pulled _ _ ho => cases ho
  | reconciled _ _ _ ho => cases ho

/-- The rows before and after a PATCH. -/
theorem rows_updateMilestone {now : Timestamp} {userId agreementId : String}
    {dto : UpdateMilestoneDto} {a a' : Agreement}
    (hstep : (agreementSystem F).step db ⟨now, .updateMilestone userId agreementId dto⟩ db')
    (hzip : (a, a') ∈ db.agreements.zip db'.agreements) :
    a' = a ∨ a.id = agreementId ∧ ∃ m, a.milestones[dto.milestoneIndex]? = some m ∧
      a'.milestones = a.milestones.set dto.milestoneIndex (m.update now dto) := by
  rcases (step_rows hstep).cases with hsteps | ⟨_, _, _, _, ho, _⟩
  · exact rowStep_updateMilestone (List.forall₂_iff_zip.mp hsteps |>.2 hzip)
  · cases ho

/-- A PATCH that is refused leaves the agreements alone. -/
theorem unchanged_updateMilestone {now : Timestamp} {userId agreementId : String}
    {dto : UpdateMilestoneDto} (hrefused : acceptsMilestone F now db userId agreementId dto = false)
    (hstep : (agreementSystem F).step db ⟨now, .updateMilestone userId agreementId dto⟩ db') :
    db'.agreements = db.agreements := by
  have hend : RowsEnd (fun rows => rows = db.agreements)
      (Operation.program F ⟨now, .updateMilestone userId agreementId dto⟩) db :=
    (updateMilestone_refused hrefused).bind_quiet fun _ => quiet_done _
  exact hend.of_step hstep

/-- A PATCH that meets the condition stores no evidence of a linked agreement. -/
theorem storedEvidence_updateMilestone {now : Timestamp} {userId agreementId : String}
    {dto : UpdateMilestoneDto}
    (hleaves : (!dto.emitsEvidence || !acceptsMilestone F now db userId agreementId dto ||
      db.agreements.all fun a => a.id ≠ agreementId || nonEmpty a.contractId = none) = true)
    (hstep : (agreementSystem F).step db ⟨now, .updateMilestone userId agreementId dto⟩ db') :
    storedEvidence db db' = [] := by
  rcases Bool.or_eq_true_iff.mp hleaves with hrequest | hunlinked
  · rcases Bool.or_eq_true_iff.mp hrequest with hnone | hrefused
    · apply storedEvidence_eq_nil
      intro a a' hzip hchanged
      -- a milestone is written, and its evidence is what it was
      rcases rows_updateMilestone hstep hzip with rfl | ⟨-, m, hm, hmilestones⟩
      · simp [evidenceChanged] at hchanged
      · rw [evidenceChanged, hmilestones, evidence_set (by simpa using hnone) hm] at hchanged
        simp at hchanged
    · exact storedEvidence_unchanged (unchanged_updateMilestone (by simpa using hrefused) hstep)
  · apply storedEvidence_eq_nil
    intro a a' hzip hchanged
    rcases rows_updateMilestone hstep hzip with rfl | ⟨hid, -⟩
    · simp [evidenceChanged] at hchanged
    · have hrow := List.all_eq_true.mp hunlinked a (List.of_mem_zip hzip).1
      simpa [hid] using hrow

end Stored

/-! ## What a request relays -/

section Relayed

variable {setParam : Option (List Char) → String × String → Option (List Char)}
  {base : Option BaseUrl} {F : FloatArithmetic} {db : AgreementDb} {r : EvidenceRequest}
  {contractId : String}

/-- The contract of relayed evidence is the one of the body. -/
theorem contract_of_carriedEvidence {dto : TrustlessRelayDto}
    (h : carriedEvidence setParam base dto = some contractId) :
    (dto.body.field "newEvidence").truthy = true ∧
      dto.body.field "contractId" = .string contractId := by
  unfold carriedEvidence at h
  split at h
  · cases h
  · split at h
    · rename_i hcarries
      split at h
      · rename_i carried hcontract
        cases h
        exact ⟨hcarries.2.2, hcontract⟩
      · cases h
    · cases h

/-- What `buildChangeMilestoneStatusRequest` builds is evidence for its own contract at most. -/
theorem contract_of_changeStatusRequest {type : InternalTrustless.ServiceType}
    {requested milestoneIndex newEvidence newStatus serviceProvider : String}
    (h : carriedEvidence setParam base (posted (changeStatusRequest type requested milestoneIndex
      newEvidence newStatus serviceProvider)) = some contractId) : requested = contractId := by
  obtain ⟨-, hcontract⟩ := contract_of_carriedEvidence h
  exact Value.string.inj hcontract

/-- An approval carries no evidence. -/
theorem carriedEvidence_approval {dto : InternalTrustless.ApproveMilestoneDto} :
    carriedEvidence setParam base (posted (InternalTrustless.buildApproveMilestoneRequest dto)) ≠
      some contractId := by
  intro h
  obtain ⟨hcarries, -⟩ := contract_of_carriedEvidence h
  cases hcarries

/-- Evidence that a request relays, apart from the generic relay, was found funded. -/
theorem findsFunded_of_relayed (hleaves : leavesEvidence F setParam base db r = true)
    (h : relayedEvidence setParam base db r = some contractId) : r.findsFunded contractId = true := by
  obtain ⟨now, funding, entry⟩ := r
  cases entry with
  | updateMilestone userId agreementId dto => cases h
  | changeMilestoneStatus dto =>
      unfold relayedEvidence EvidenceRequest.relayed at h
      dsimp only at h
      cases hfunded : assertEscrowFunded dto.contractId funding with
      | error e =>
          rw [hfunded] at h
          cases h
      | ok _ =>
          rw [hfunded] at h
          have hcarried := (Option.filter_eq_some_iff.mp h).1
          obtain rfl := contract_of_changeStatusRequest hcarried
          simp [EvidenceRequest.findsFunded, hfunded, Except.isOk, Except.toBool]
  | pushMilestoneToTW payload =>
      unfold relayedEvidence EvidenceRequest.relayed pushMilestoneToTW at h
      dsimp only at h
      cases haction : payload.action with
      | approve =>
          rw [haction] at h
          -- an approval carries no evidence
          exact absurd (Option.filter_eq_some_iff.mp h).1 carriedEvidence_approval
      | changeStatus =>
          rw [haction] at h
          dsimp only at h
          cases hfunded : assertEscrowFunded payload.contractId funding with
          | error e =>
              rw [hfunded] at h
              cases h
          | ok _ =>
              rw [hfunded] at h
              have hcarried := (Option.filter_eq_some_iff.mp h).1
              obtain rfl := contract_of_changeStatusRequest hcarried
              simp [EvidenceRequest.findsFunded, haction, hfunded, Except.isOk, Except.toBool]
  | prepare dto =>
      have hnone : relayedEvidence setParam base db ⟨now, funding, .prepare dto⟩ = none :=
        of_decide_eq_true hleaves
      rw [hnone] at h
      cases h

end Relayed

/-! ## What runs keep -/

/-- All the evidence was found funded. -/
def AllFunded (s : EvidenceHistory) : Prop := ∀ note ∈ s.evidence, note.funded = true

section Runs

variable {setParam : Option (List Char) → String × String → Option (List Char)}
  {base : Option BaseUrl} {F : FloatArithmetic} {s s' : EvidenceHistory} {r : EvidenceRequest}

/-- A request that meets the condition stores no evidence of a linked agreement. -/
theorem storedEvidence_of_leaves {db' : AgreementDb}
    (hleaves : leavesEvidence F setParam base s.db r = true) (hstores : r.Stores F s.db db') :
    storedEvidence s.db db' = [] := by
  obtain ⟨now, funding, entry⟩ := r
  cases entry with
  | updateMilestone userId agreementId dto => exact storedEvidence_updateMilestone hleaves hstores
  | changeMilestoneStatus dto =>
      cases hstores
      exact storedEvidence_unchanged rfl
  | pushMilestoneToTW payload =>
      cases hstores
      exact storedEvidence_unchanged rfl
  | prepare dto =>
      cases hstores
      exact storedEvidence_unchanged rfl

/-- **Step lemma.** A request that meets the condition notes evidence that it has found funded. -/
theorem allFunded_step (hs : AllFunded s) (hstep : (askingSystem F setParam base).step s r s') :
    AllFunded s' := by
  obtain ⟨hleaves, db', hstores, rfl⟩ := hstep
  intro note hnote
  rcases List.mem_append.mp hnote with hold | hnew
  · exact hs note hold
  · rw [storedEvidence_of_leaves hleaves hstores, List.nil_append] at hnew
    obtain ⟨contractId, hcontract, rfl⟩ := List.mem_map.mp hnew
    exact findsFunded_of_relayed hleaves (Option.mem_toList.mp hcontract)

/-- **No evidence before funding.** Where the PATCH and the generic relay leave the evidence of linked
contracts alone, all evidence that is stored or relayed for one comes with a request during which
`assertEscrowFunded` found its escrow funded. -/
theorem evidence_after_funding (h : (askingSystem F setParam base).Reachable s) :
    ∀ note ∈ s.evidence, note.funded = true := by
  refine StepSystem.invariant_of_steps (I := AllFunded) (fun s hinit => ?_)
    (fun s r s' _ hs hstep => allFunded_step hs hstep) h
  intro note hnote
  rw [hinit] at hnote
  cases hnote

end Runs

/-! ### An agreement linked to a contract -/

/-- An agreement over two milestones, linked to `C`. -/
def linkedStore : AgreementDb :=
  runAll exactArithmetic [createOperation "10" (some "C") splitTen] newStore

/-- Evidence for the first milestone of `C`, while Trustless Work reports this balance. -/
def submitEvidence (balance : ℕ) : EvidenceRequest where
  now := 1
  funding := .ok
    { status := 200
      data := .array [.object [("contractId", .string "C"), ("balance", .number (.finite balance))]] }
  entry := .changeMilestoneStatus
    { contractId := "C"
      milestoneIndex := "0"
      newEvidence := "photo"
      newStatus := "completed"
      serviceProvider := "Q"
      type := .multiRelease
      known := by decide }

/-- The theorem for evidence that is relayed while the escrow holds ten units. -/
theorem evidence_after_funding_relayed :
    let s := EvidenceHistory.noted (fun query _ => query) (some InternalTrustless.sampleBase)
      ⟨linkedStore, []⟩ (submitEvidence 10) linkedStore
    s.evidence = [⟨"C", true⟩] ∧ ∀ note ∈ s.evidence, note.funded = true := by
  intro s
  let asking := askingSystem exactArithmetic (fun query _ => query) (some InternalTrustless.sampleBase)
  have hstart : asking.Reachable ⟨linkedStore, []⟩ := .init rfl
  have hstep : asking.step ⟨linkedStore, []⟩ (submitEvidence 10) s := ⟨rfl, linkedStore, rfl, rfl⟩
  exact ⟨by decide +kernel, evidence_after_funding (hstart.step hstep)⟩

/-- The payee attaches evidence to a milestone, and nobody asks for the balance. -/
theorem not_evidence_after_funding : ¬ ∀ s : EvidenceHistory,
    (evidenceSystem exactArithmetic (fun query _ => query) (some InternalTrustless.sampleBase)).Reachable
      s → ∀ note ∈ s.evidence, note.funded = true := by
  intro h
  let system := evidenceSystem exactArithmetic (fun query _ => query)
    (some InternalTrustless.sampleBase)
  let dto : UpdateMilestoneDto := ⟨0, .pending, "Q", some (some "photo"), none⟩
  let patch : Operation := ⟨1, .updateMilestone "payee" "i" dto⟩
  let r : EvidenceRequest := ⟨1, .error .internal, .updateMilestone "payee" "i" dto⟩
  let after := (patch.run exactArithmetic linkedStore).2
  let s := EvidenceHistory.noted (fun query _ => query) (some InternalTrustless.sampleBase)
    ⟨linkedStore, []⟩ r after
  have hstart : system.Reachable ⟨linkedStore, []⟩ := .init rfl
  have hstep : system.step ⟨linkedStore, []⟩ r s :=
    ⟨after, ⟨_, patch.runs exactArithmetic linkedStore⟩, rfl⟩
  have hfunded := h s (hstart.step hstep)
  have hnoted : s.evidence = [⟨"C", false⟩] := by decide +kernel
  have hfalse := hfunded ⟨"C", false⟩ (by rw [hnoted]; exact List.mem_singleton_self _)
  cases hfalse

end ThalosBackend.Agreements
