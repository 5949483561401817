import ThalosBackend.InternalTrustless.EscrowsController
import ThalosBackend.RetryQueue.Enqueue

/-!
# What the idempotency keys tell apart

A write whose relay fails is enqueued under its idempotency key, and `enqueue` keeps what an earlier
call has stored under the key. So the backstop holds a write only if every write with its key is the
same request.

The keys of different endpoints never agree: their prefixes are no prefixes of each other
(`key_eq_iff`). Within an endpoint the keys leave fields out (the type and the approver of an
approval, the evidence and the provider of a status change, the amounts of a resolution), and join
the others with a colon that they may contain, so that other fields may fall into the same pieces
(`Regrouped`). `Distinguishes` says field by field for which pairs of writes the key is enough, and
`backstop_keeps_iff` that these are the ones for which equal keys mean equal requests; a call that is
distinguished from all calls before it finds its own request in the table.
-/

set_option autoImplicit false

namespace ThalosBackend.InternalTrustless

open Js (Number Value Timestamp)
open Disputes (Distribution)
open RetryQueue (EnqueueRequest RetryQueueConfig QueueState QueueStep Store Task Pc RetryJob)

/-! ## The writes of the controller -/

/-- A resolution that reaches `writeWithBackstop`, with the index as its key shows it. -/
structure ResolveCall where
  dto : ResolveDisputeDto
  distributions : List Distribution
  index : String
  shown : milestoneText dto.milestoneIndex = .ok index

/-- A request to a write endpoint, with what the endpoint reads beside the DTO. -/
inductive WriteCall where
  | create (env : EscrowEnv) (now : Timestamp) (dto : CreateEscrowDto)
  | fund (dto : FundEscrowDto)
  | approve (dto : ApproveMilestoneDto)
  | changeStatus (dto : ChangeMilestoneStatusDto)
  | release (dto : ReleaseFundsDto)
  | resolve (call : ResolveCall)

namespace WriteCall

/-- The arguments of `writeWithBackstop` for the request. -/
def write : WriteCall → BackstoppedWrite
  | .create env now dto => createEscrow env now dto
  | .fund dto => fundEscrow dto
  | .approve dto => approveMilestone dto
  | .changeStatus dto => changeMilestoneStatus dto
  | .release dto => releaseFunds dto
  | .resolve call => resolveWrite call.dto call.distributions call.index

end WriteCall

/-! ## Keys -/

/-- The endpoints that enqueue. -/
inductive Endpoint where
  | create | fund | approve | changeStatus | release | resolve
  deriving DecidableEq

/-- What the keys of an endpoint begin with. -/
def Endpoint.keyPrefix : Endpoint → String
  | .create => "agreement_creation:"
  | .fund => "payment_execution:fund:"
  | .approve => "milestone_update:approve:"
  | .changeStatus => "milestone_update:status:"
  | .release => "payment_execution:release:"
  | .resolve => "payment_execution:resolve:"

def WriteCall.endpoint : WriteCall → Endpoint
  | .create .. => .create
  | .fund _ => .fund
  | .approve _ => .approve
  | .changeStatus _ => .changeStatus
  | .release _ => .release
  | .resolve _ => .resolve

/-- The fields of a key, joined. -/
def WriteCall.keyFields : WriteCall → String
  | .create _ now dto => generateEngagementId dto.serviceType now
  | .fund dto => dto.contractId ++ ":" ++ dto.signer ++ ":" ++ (Number.finite dto.amount).toText
  | .approve dto => dto.contractId ++ ":" ++ dto.milestoneIndex
  | .changeStatus dto => dto.contractId ++ ":" ++ dto.milestoneIndex ++ ":" ++ dto.newStatus
  | .release dto => dto.contractId ++ ":" ++ dto.releaseSigner ++ ":" ++
      dto.milestoneIndex.orElse "all"
  | .resolve call => call.dto.contractId ++ ":" ++ call.dto.disputeResolver ++ ":" ++ call.index

theorem key_eq (call : WriteCall) :
    call.write.idempotencyKey = call.endpoint.keyPrefix ++ call.keyFields := by
  cases call <;>
    simp only [WriteCall.write, createEscrow, fundEscrow, approveMilestone, changeMilestoneStatus,
      releaseFunds, resolveWrite, WriteCall.endpoint, Endpoint.keyPrefix, WriteCall.keyFields,
      String.append_assoc]

/-- No prefix is a prefix of another. -/
theorem keyPrefix_free : ∀ e e' : Endpoint,
    e.keyPrefix.toList <+: e'.keyPrefix.toList → e = e' := by
  intro e e'
  cases e <;> cases e' <;> decide

/-- Texts that begin with prefixes of endpoints and agree, agree in the prefix and in the rest. -/
theorem keyPrefix_append_inj {e e' : Endpoint} {s t : String}
    (h : e.keyPrefix ++ s = e'.keyPrefix ++ t) : e = e' ∧ s = t := by
  have hchars : e.keyPrefix.toList ++ s.toList = e'.keyPrefix.toList ++ t.toList := by
    rw [← String.toList_append, h, String.toList_append]
  have he : e = e' := by
    have hprefix : e.keyPrefix.toList <+: e'.keyPrefix.toList ++ t.toList := ⟨_, hchars⟩
    rcases List.prefix_or_prefix_of_prefix hprefix (List.prefix_append _ _) with hle | hle
    · exact keyPrefix_free e e' hle
    · exact (keyPrefix_free e' e hle).symm
  subst he
  exact ⟨rfl, String.toList_injective (List.append_cancel_left hchars)⟩

/-- **Keys of different endpoints are different**; those of one endpoint agree when their joined
fields do. -/
theorem key_eq_iff (call call' : WriteCall) :
    call.write.idempotencyKey = call'.write.idempotencyKey ↔
      call.endpoint = call'.endpoint ∧ call.keyFields = call'.keyFields := by
  rw [key_eq, key_eq]
  constructor
  · exact keyPrefix_append_inj
  · rintro ⟨hendpoint, hfields⟩
    rw [hendpoint, hfields]

/-! ## Requests -/

@[simp] theorem value_inj {s t : OptionalText} : s.value = t.value ↔ s = t := by
  cases s <;> cases t <;> simp [OptionalText.value]

/-! A request of the endpoints below carries its whole DTO. -/

theorem fundRequest_inj {a b : FundEscrowDto} :
    buildFundEscrowRequest a = buildFundEscrowRequest b ↔ a = b := by
  obtain ⟨contractId, signer, amount, type⟩ := a
  obtain ⟨contractId', signer', amount', type'⟩ := b
  cases type <;> cases type' <;>
    simp [buildFundEscrowRequest, Value.record_inj, Disputes.EscrowKind.text]

theorem approveRequest_inj {a b : ApproveMilestoneDto} :
    buildApproveMilestoneRequest a = buildApproveMilestoneRequest b ↔ a = b := by
  obtain ⟨contractId, milestoneIndex, approver, type⟩ := a
  obtain ⟨contractId', milestoneIndex', approver', type'⟩ := b
  cases type <;> cases type' <;>
    simp [buildApproveMilestoneRequest, Value.record_inj, Disputes.EscrowKind.text]

theorem changeStatusRequest_inj {a b : ChangeMilestoneStatusDto} :
    buildChangeMilestoneStatusRequest a = buildChangeMilestoneStatusRequest b ↔ a = b := by
  obtain ⟨contractId, milestoneIndex, newEvidence, newStatus, serviceProvider, type, -⟩ := a
  obtain ⟨contractId', milestoneIndex', newEvidence', newStatus', serviceProvider', type', -⟩ := b
  cases type <;> cases type' <;>
    simp [buildChangeMilestoneStatusRequest, Value.record_inj, Disputes.EscrowKind.text]

theorem releaseRequest_inj {a b : ReleaseFundsDto} :
    buildReleaseFundsRequest a = buildReleaseFundsRequest b ↔ a = b := by
  obtain ⟨contractId, releaseSigner, type, milestoneIndex⟩ := a
  obtain ⟨contractId', releaseSigner', type', milestoneIndex'⟩ := b
  cases type <;> cases type' <;>
    simp [buildReleaseFundsRequest, Value.record_inj, Disputes.EscrowKind.text]

/-- Two resolutions ask for the same: everything their requests carry agrees. -/
structure SamePayout (a b : ResolveCall) : Prop where
  contractId : a.dto.contractId = b.dto.contractId
  type : a.dto.type = b.dto.type
  milestoneIndex : a.dto.type = .multiRelease → a.dto.milestoneIndex = b.dto.milestoneIndex
  disputeResolver : a.dto.disputeResolver = b.dto.disputeResolver
  distributions : a.distributions.map distributionValue = b.distributions.map distributionValue

theorem resolveRequest_eq_iff {a b : ResolveCall} :
    buildResolveDisputeRequest a.dto a.distributions =
      buildResolveDisputeRequest b.dto b.distributions ↔ SamePayout a b := by
  constructor
  · intro h
    cases htype : a.dto.type <;> cases htype' : b.dto.type <;>
      simp [buildResolveDisputeRequest, htype, htype', Value.record_inj] at h
    · exact ⟨h.1, htype.trans htype'.symm, by simp [htype], h.2.1, h.2.2⟩
    · exact ⟨h.1, htype.trans htype'.symm, fun _ => h.2.1, h.2.2.1, h.2.2.2⟩
  · intro h
    cases htype : a.dto.type with
    | singleRelease =>
        simp only [buildResolveDisputeRequest, htype, h.type.symm.trans htype, h.contractId,
          h.disputeResolver, h.distributions]
    | multiRelease =>
        simp only [buildResolveDisputeRequest, htype, h.type.symm.trans htype, h.contractId,
          h.disputeResolver, h.distributions, h.milestoneIndex htype]

/-- Two create requests of one escrow type ask for the same: everything their bodies carry beside the
engagement id agrees. -/
structure SameAgreement (env env' : EscrowEnv) (dto dto' : CreateEscrowDto) : Prop where
  signer : dto.signer = dto'.signer
  title : dto.title = dto'.title
  description : dto.description = dto'.description
  platformFee : sentNumber (Number.stringToNumber dto.platformFee) =
    sentNumber (Number.stringToNumber dto'.platformFee)
  approver : dto.roles.approver = dto'.roles.approver
  serviceProvider : dto.roles.serviceProvider = dto'.roles.serviceProvider
  releaseSigner : dto.roles.releaseSigner = dto'.roles.releaseSigner
  platformAddress : getPlatformAddress env = getPlatformAddress env'
  disputeResolver : getDisputeResolver env = getDisputeResolver env'
  trustline : getTrustlineAddress env = getTrustlineAddress env'
  single : dto.serviceType = .singleRelease → dto.roles.receiver = dto'.roles.receiver ∧
    sentNumber (Number.stringToNumber dto.amount) = sentNumber (Number.stringToNumber dto'.amount) ∧
    dto.milestones.map (·.description) = dto'.milestones.map (·.description)
  multi : dto.serviceType = .multiRelease →
    dto.milestones.map (fun m => (m.description, sentNumber m.amount.toNumber, m.status)) =
      dto'.milestones.map (fun m => (m.description, sentNumber m.amount.toNumber, m.status))

theorem buildRoles_eq_iff (env env' : EscrowEnv) (type : ServiceType)
    (roles roles' : CreateEscrowRolesDto) :
    buildRoles env type roles = buildRoles env' type roles' ↔
      roles.approver = roles'.approver ∧ roles.serviceProvider = roles'.serviceProvider ∧
      getPlatformAddress env = getPlatformAddress env' ∧ roles.releaseSigner = roles'.releaseSigner ∧
      getDisputeResolver env = getDisputeResolver env' ∧
      (type = .singleRelease → roles.receiver = roles'.receiver) := by
  cases type <;> simp [buildRoles, Value.record_inj]

theorem singleMilestones_eq_iff {ms ms' : List CreateEscrowMilestoneDto} :
    ms.map singleMilestone = ms'.map singleMilestone ↔
      ms.map (·.description) = ms'.map (·.description) := by
  have hmap : ∀ ms : List CreateEscrowMilestoneDto, ms.map singleMilestone =
      (ms.map (·.description)).map fun d => Value.record [("description", .string d)] := fun ms => by
    rw [List.map_map]
    rfl
  rw [hmap, hmap, List.map_inj_right]
  intro d d' h
  simpa [Value.record_inj] using h

theorem multiMilestones_eq_iff {signer : String} {ms ms' : List CreateEscrowMilestoneDto} :
    ms.map (multiMilestone signer) = ms'.map (multiMilestone signer) ↔
      ms.map (fun m => (m.description, sentNumber m.amount.toNumber, m.status)) =
        ms'.map (fun m => (m.description, sentNumber m.amount.toNumber, m.status)) := by
  have hmap : ∀ ms : List CreateEscrowMilestoneDto, ms.map (multiMilestone signer) =
      (ms.map fun m => (m.description, sentNumber m.amount.toNumber, m.status)).map fun x =>
        Value.record [("description", .string x.1), ("amount", x.2.1), ("status", x.2.2.value),
          ("receiver", .string signer)] := fun ms => by
    rw [List.map_map]
    rfl
  rw [hmap, hmap, List.map_inj_right]
  rintro ⟨d, a, s⟩ ⟨d', a', s'⟩ h
  simpa [Value.record_inj] using h

theorem createRequest_eq_iff {env env' : EscrowEnv} {now : Timestamp}
    {dto dto' : CreateEscrowDto} (htype : dto.serviceType = dto'.serviceType) :
    buildCreateEscrowRequest env now dto = buildCreateEscrowRequest env' now dto' ↔
      SameAgreement env env' dto dto' := by
  cases hkind : dto.serviceType with
  | singleRelease =>
      simp only [buildCreateEscrowRequest, buildAgreementBody, ← htype, hkind, agreementBase]
      simp [buildRoles_eq_iff, singleMilestones_eq_iff, Value.record_inj]
      constructor
      · rintro ⟨hsigner, htitle, hdescription, ⟨happrover, hprovider, hplatform, hrelease, hresolver,
          hreceiver⟩, hfee, htrustline, hamount, hmilestones⟩
        exact ⟨hsigner, htitle, hdescription, hfee, happrover, hprovider, hrelease, hplatform,
          hresolver, htrustline, fun _ => ⟨hreceiver, hamount, hmilestones⟩, by simp [hkind]⟩
      · intro h
        exact ⟨h.signer, h.title, h.description, ⟨h.approver, h.serviceProvider, h.platformAddress,
          h.releaseSigner, h.disputeResolver, (h.single hkind).1⟩, h.platformFee, h.trustline,
          (h.single hkind).2⟩
  | multiRelease =>
      simp only [buildCreateEscrowRequest, buildAgreementBody, ← htype, hkind, agreementBase]
      simp [buildRoles_eq_iff, Value.record_inj]
      constructor
      · rintro ⟨hsigner, htitle, hdescription, ⟨happrover, hprovider, hplatform, hrelease, hresolver⟩,
          hfee, htrustline, hmilestones⟩
        refine ⟨hsigner, htitle, hdescription, hfee, happrover, hprovider, hrelease, hplatform,
          hresolver, htrustline, by simp [hkind], fun _ => ?_⟩
        rwa [hsigner, multiMilestones_eq_iff] at hmilestones
      · intro h
        refine ⟨h.signer, h.title, h.description, ⟨h.approver, h.serviceProvider, h.platformAddress,
          h.releaseSigner, h.disputeResolver⟩, h.platformFee, h.trustline, ?_⟩
        rw [h.signer, multiMilestones_eq_iff]
        exact h.multi hkind

theorem generateEngagementId_inj {type type' : ServiceType} {now now' : Timestamp} :
    generateEngagementId type now = generateEngagementId type' now' ↔ type = type' ∧ now = now' := by
  constructor
  · intro h
    cases type <;> cases type'
    · simp only [generateEngagementId, String.append_right_inj] at h
      exact ⟨rfl, Js.base36Text_inj h⟩
    · have hchars := congrArg String.toList h
      simp [generateEngagementId, releaseKind, String.toList_append] at hchars
    · have hchars := congrArg String.toList h
      simp [generateEngagementId, releaseKind, String.toList_append] at hchars
    · simp only [generateEngagementId, String.append_right_inj] at h
      exact ⟨rfl, Js.base36Text_inj h⟩
  · rintro ⟨rfl, rfl⟩
    rfl

/-! ## The pairs a key tells apart -/

/-- The pieces that a text falls into at its colons. -/
def pieces (s : String) : List (List Char) := s.toList.splitOn ':'

theorem pieces_join (s t : String) : pieces (s ++ ":" ++ t) = pieces s ++ pieces t := by
  have hchars : (s ++ ":" ++ t).toList = s.toList ++ ':' :: t.toList := by
    rw [String.toList_append, String.toList_append, List.append_assoc]
    rfl
  rw [pieces, hchars, List.splitOn_append_cons_self]
  rfl

theorem pieces_inj {s t : String} : pieces s = pieces t ↔ s = t := by
  constructor
  · intro h
    have hchars := congrArg (List.intercalate [':']) h
    rw [pieces, pieces, List.intercalate_splitOn, List.intercalate_splitOn] at hchars
    exact String.toList_injective hchars
  · rintro rfl
    rfl

/-- The fields are not the same, but fall into the same pieces: what stands in one field here has
moved over a colon into the next field there. -/
def Regrouped (fields fields' : List String) : Prop :=
  fields ≠ fields' ∧ fields.flatMap pieces = fields'.flatMap pieces

/-- Fields that are joined with colons give one text in two ways. -/
theorem joined_eq_iff {s s' : String} {fields fields' : List String}
    (hs : pieces s = fields.flatMap pieces) (hs' : pieces s' = fields'.flatMap pieces) :
    s = s' ↔ fields = fields' ∨ Regrouped fields fields' := by
  rw [← pieces_inj, hs, hs']
  constructor
  · intro h
    rcases eq_or_ne fields fields' with heq | hne
    · exact .inl heq
    · exact .inr ⟨hne, h⟩
  · rintro (heq | ⟨-, h⟩)
    · rw [heq]
    · exact h

theorem pieces_join₂ (a b : String) : pieces (a ++ ":" ++ b) = [a, b].flatMap pieces := by
  rw [pieces_join]
  simp

theorem pieces_join₃ (a b c : String) :
    pieces (a ++ ":" ++ b ++ ":" ++ c) = [a, b, c].flatMap pieces := by
  rw [pieces_join, pieces_join]
  simp

/-- What is the same as soon as the joined texts are: nothing is regrouped, and the fields decide. -/
theorem same_of_joined_iff {fields fields' : List String} {same : Prop}
    (hsame : same → ¬ Regrouped fields fields') :
    (fields = fields' ∨ Regrouped fields fields' → same) ↔
      ¬ Regrouped fields fields' ∧ (fields = fields' → same) := by
  constructor
  · intro h
    exact ⟨fun hregrouped => hsame (h (.inr hregrouped)) hregrouped, fun heq => h (.inl heq)⟩
  · rintro ⟨hnot, h⟩ (heq | hregrouped)
    · exact h heq
    · exact absurd hregrouped hnot

/-- The amount as the key shows it. -/
def FundEscrowDto.amountText (dto : FundEscrowDto) : String := (Number.finite dto.amount).toText

/-- The key is enough to tell two writes apart. Writes of one endpoint with the same fields in their
keys have the same of the fields that the keys leave out, and no two lists of key fields are one list
of pieces in other groups. Two agreements of one type that are created in one millisecond have one
key; writes of different endpoints never have. -/
def Distinguishes : WriteCall → WriteCall → Prop
  | .create env now dto, .create env' now' dto' =>
      dto.serviceType = dto'.serviceType → now = now' → SameAgreement env env' dto dto'
  | .fund a, .fund b =>
      ¬ Regrouped [a.contractId, a.signer, a.amountText] [b.contractId, b.signer, b.amountText] ∧
        (a.contractId = b.contractId → a.signer = b.signer → a.amountText = b.amountText →
          a.amount = b.amount ∧ a.type = b.type)
  | .approve a, .approve b =>
      ¬ Regrouped [a.contractId, a.milestoneIndex] [b.contractId, b.milestoneIndex] ∧
        (a.contractId = b.contractId → a.milestoneIndex = b.milestoneIndex →
          a.approver = b.approver ∧ a.type = b.type)
  | .changeStatus a, .changeStatus b =>
      ¬ Regrouped [a.contractId, a.milestoneIndex, a.newStatus]
          [b.contractId, b.milestoneIndex, b.newStatus] ∧
        (a.contractId = b.contractId → a.milestoneIndex = b.milestoneIndex →
          a.newStatus = b.newStatus →
          a.newEvidence = b.newEvidence ∧ a.serviceProvider = b.serviceProvider ∧ a.type = b.type)
  | .release a, .release b =>
      ¬ Regrouped [a.contractId, a.releaseSigner, a.milestoneIndex.orElse "all"]
          [b.contractId, b.releaseSigner, b.milestoneIndex.orElse "all"] ∧
        (a.contractId = b.contractId → a.releaseSigner = b.releaseSigner →
          a.milestoneIndex.orElse "all" = b.milestoneIndex.orElse "all" →
          a.milestoneIndex = b.milestoneIndex ∧ a.type = b.type)
  | .resolve a, .resolve b =>
      ¬ Regrouped [a.dto.contractId, a.dto.disputeResolver, a.index]
          [b.dto.contractId, b.dto.disputeResolver, b.index] ∧
        (a.dto.contractId = b.dto.contractId → a.dto.disputeResolver = b.dto.disputeResolver →
          a.index = b.index →
          a.dto.type = b.dto.type ∧
            (a.dto.type = .multiRelease → a.dto.milestoneIndex = b.dto.milestoneIndex) ∧
            a.distributions.map distributionValue = b.distributions.map distributionValue)
  | _, _ => True

section Endpoints

theorem fund_distinguishes_iff {a b : FundEscrowDto} :
    ((WriteCall.fund a).keyFields = (WriteCall.fund b).keyFields → a = b) ↔
      Distinguishes (.fund a) (.fund b) := by
  rw [WriteCall.keyFields, WriteCall.keyFields,
    joined_eq_iff (pieces_join₃ _ _ _) (pieces_join₃ _ _ _), same_of_joined_iff, Distinguishes]
  · obtain ⟨contractId, signer, amount, type⟩ := a
    obtain ⟨contractId', signer', amount', type'⟩ := b
    simp +contextual [FundEscrowDto.amountText]
  · rintro rfl ⟨hne, -⟩
    exact hne rfl

theorem approve_distinguishes_iff {a b : ApproveMilestoneDto} :
    ((WriteCall.approve a).keyFields = (WriteCall.approve b).keyFields → a = b) ↔
      Distinguishes (.approve a) (.approve b) := by
  rw [WriteCall.keyFields, WriteCall.keyFields,
    joined_eq_iff (pieces_join₂ _ _) (pieces_join₂ _ _), same_of_joined_iff, Distinguishes]
  · obtain ⟨contractId, milestoneIndex, approver, type⟩ := a
    obtain ⟨contractId', milestoneIndex', approver', type'⟩ := b
    simp +contextual
  · rintro rfl ⟨hne, -⟩
    exact hne rfl

theorem changeStatus_distinguishes_iff {a b : ChangeMilestoneStatusDto} :
    ((WriteCall.changeStatus a).keyFields = (WriteCall.changeStatus b).keyFields → a = b) ↔
      Distinguishes (.changeStatus a) (.changeStatus b) := by
  rw [WriteCall.keyFields, WriteCall.keyFields,
    joined_eq_iff (pieces_join₃ _ _ _) (pieces_join₃ _ _ _), same_of_joined_iff, Distinguishes]
  · obtain ⟨contractId, milestoneIndex, newEvidence, newStatus, serviceProvider, type, -⟩ := a
    obtain ⟨contractId', milestoneIndex', newEvidence', newStatus', serviceProvider', type', -⟩ := b
    simp +contextual
  · rintro rfl ⟨hne, -⟩
    exact hne rfl

theorem release_distinguishes_iff {a b : ReleaseFundsDto} :
    ((WriteCall.release a).keyFields = (WriteCall.release b).keyFields → a = b) ↔
      Distinguishes (.release a) (.release b) := by
  rw [WriteCall.keyFields, WriteCall.keyFields,
    joined_eq_iff (pieces_join₃ _ _ _) (pieces_join₃ _ _ _), same_of_joined_iff, Distinguishes]
  · obtain ⟨contractId, releaseSigner, type, milestoneIndex⟩ := a
    obtain ⟨contractId', releaseSigner', type', milestoneIndex'⟩ := b
    simp +contextual [and_comm]
  · rintro rfl ⟨hne, -⟩
    exact hne rfl

/-- A payout does not depend on the index of a single release, which the key shows all the same. -/
theorem resolve_distinguishes_iff {a b : ResolveCall} :
    ((WriteCall.resolve a).keyFields = (WriteCall.resolve b).keyFields → SamePayout a b) ↔
      Distinguishes (.resolve a) (.resolve b) := by
  rw [WriteCall.keyFields, WriteCall.keyFields,
    joined_eq_iff (pieces_join₃ _ _ _) (pieces_join₃ _ _ _), same_of_joined_iff, Distinguishes]
  · refine and_congr_right fun _ => ?_
    constructor
    · intro h hcontract hresolver hindex
      have hsame := h (by rw [hcontract, hresolver, hindex])
      exact ⟨hsame.type, hsame.milestoneIndex, hsame.distributions⟩
    · intro h hfields
      obtain ⟨hcontract, hresolver, hindex⟩ : a.dto.contractId = b.dto.contractId ∧
          a.dto.disputeResolver = b.dto.disputeResolver ∧ a.index = b.index := by
        simpa using hfields
      obtain ⟨htype, hmilestone, hdistributions⟩ := h hcontract hresolver hindex
      exact ⟨hcontract, htype, hmilestone, hresolver, hdistributions⟩
  · rintro hsame ⟨hne, hpieces⟩
    -- the fields before the index are the same, and so is what is left of the pieces
    have hindex : a.index = b.index := by
      simpa [hsame.contractId, hsame.disputeResolver, pieces_inj] using hpieces
    exact hne (by rw [hsame.contractId, hsame.disputeResolver, hindex])

end Endpoints

/-- Two writes with equal keys have equal requests exactly when the key distinguishes them. -/
theorem request_eq_of_key_iff (call call' : WriteCall) :
    (call.write.idempotencyKey = call'.write.idempotencyKey →
      call.write.request = call'.write.request) ↔ Distinguishes call call' := by
  rw [key_eq_iff]
  cases call <;> cases call' <;>
    simp only [WriteCall.endpoint, reduceCtorEq, false_and, false_imp_iff, Distinguishes, true_and]
  case create.create env now dto env' now' dto' =>
      rw [WriteCall.keyFields, WriteCall.keyFields, generateEngagementId_inj, and_imp]
      refine imp_congr_right fun htype => imp_congr_right fun hnow => ?_
      rw [hnow]
      exact createRequest_eq_iff htype
  case fund.fund a b => exact (imp_congr_right fun _ => fundRequest_inj).trans fund_distinguishes_iff
  case approve.approve a b =>
      exact (imp_congr_right fun _ => approveRequest_inj).trans approve_distinguishes_iff
  case changeStatus.changeStatus a b =>
      exact (imp_congr_right fun _ => changeStatusRequest_inj).trans changeStatus_distinguishes_iff
  case release.release a b =>
      exact (imp_congr_right fun _ => releaseRequest_inj).trans release_distinguishes_iff
  case resolve.resolve a b =>
      exact (imp_congr_right fun _ => resolveRequest_eq_iff).trans resolve_distinguishes_iff

/-! ## Runs -/

/-- The backstop enqueues the write itself, when the relay fails other than with a 4xx answer. -/
theorem writeWithBackstop_eq_some {write : BackstoppedWrite} {relayed : Relayed}
    {req : EnqueueRequest JobPayload} (h : writeWithBackstop write relayed = some req) :
    req = write.job := by
  unfold writeWithBackstop at h
  split at h
  · cases h
  · split at h
    · cases h
    · exact (Option.some.inj h).symm
  · exact (Option.some.inj h).symm

/-- The enqueue calls there are: those of the backstop, after a relay that failed, and those of the
webhook receiver. -/
inductive Enqueued : EnqueueRequest JobPayload → Prop where
  | backstop {call : WriteCall} {relayed : Relayed} {req : EnqueueRequest JobPayload} :
      writeWithBackstop call.write relayed = some req → Enqueued req
  | webhook {rest : String} {event : Value} :
      Enqueued ⟨.webhookEventProcessing, .webhook event, "webhook:" ++ rest, none⟩

/-- A call that begins, if it is one of `enqueue`, is one of those. -/
def BeginsKnown (_ : QueueState JobPayload) : QueueStep JobPayload → Prop
  | .start _ k => ∀ req, k.pc.request = some req → Enqueued req
  | _ => True

/-- The retry queue as this application uses it. -/
abbrev backstopSystem (cfg : RetryQueueConfig) :
    StepSystem (QueueState JobPayload) (QueueStep JobPayload) :=
  (RetryQueue.queueSystem JobPayload cfg).restrict BeginsKnown

/-- The rows are as `enqueue` leaves them, and every answer went to a call of the application. -/
structure BackstopInv (cfg : RetryQueueConfig) (s : Store JobPayload) : Prop where
  rows : RetryQueue.RowsInv cfg s
  known : ∀ req job, .returned req job ∈ s.log → Enqueued req

/-- The thread-modular proof: a call keeps its request until it is answered. -/
theorem backstop_outline (cfg : RetryQueueConfig) :
    Threads.Outline (τ := RetryQueue.ThreadId) (RetryQueue.queue JobPayload cfg) BeginsKnown
      (BackstopInv cfg) (fun _ k => ∀ req, k.pc.request = some req → Enqueued req)
      fun _ _ => True where
  symm := fun _ _ _ => trivial
  init := by
    rintro s ⟨hrows, hlog, -⟩
    exact ⟨RetryQueue.rowsInv_init hrows hlog, by simp [hlog]⟩
  start := fun _ _ _ hbegins _ _ => ⟨hbegins, fun _ _ _ => trivial⟩
  own := by
    rintro c t a k s next - - hI hA - hact
    refine ⟨⟨hI.rows.act hact, fun req job hret => ?_⟩, fun k' hk' req hreq => ?_⟩
    · rcases hact.returned hret with hold | ⟨hreq, -⟩
      · exact hI.known req job hold
      · exact hA req hreq
    · rcases hact.request_next hk' hreq with ⟨hpc, -⟩ | ⟨hpc, -⟩
      · exact hA req (by rw [hpc]; rfl)
      · exact hA req (by rw [hpc]; rfl)
  other := fun _ _ _ _ _ _ _ _ _ _ _ _ _ _ hA' _ _ => ⟨hA', fun _ _ => trivial⟩
  env := by
    rintro c b s - henv hI
    obtain ⟨hrows, hlog⟩ := henv.rows_log
    exact ⟨⟨hI.rows.of_eq hrows hlog, by rw [hlog]; exact hI.known⟩, fun k _ hA => hA⟩

/-- No write of the controller has a key of the webhook receiver. -/
theorem key_ne_webhook (call : WriteCall) (rest : String) :
    call.write.idempotencyKey ≠ "webhook:" ++ rest := by
  intro h
  rw [key_eq] at h
  have hchars := congrArg String.toList h
  cases hendpoint : call.endpoint <;>
    simp [hendpoint, Endpoint.keyPrefix, String.toList_append] at hchars

/-- The bucket a job goes to depends on the endpoint only. -/
theorem jobType_eq_of_endpoint {call call' : WriteCall} (h : call.endpoint = call'.endpoint) :
    call.write.jobType = call'.write.jobType := by
  cases call <;> cases call' <;> first | rfl | cases h

/-- **What the backstop keeps.** Two writes with equal keys have equal requests exactly when
`Distinguishes` says so of them. And in every run, a write whose enqueue call has returned has a
job with its own path and body, if its key tells it from all writes that were enqueued. -/
theorem backstop_keeps_iff (cfg : RetryQueueConfig) {c : QueueState JobPayload}
    (h : (backstopSystem cfg).Reachable c) :
    (∀ call call' : WriteCall,
      (call.write.idempotencyKey = call'.write.idempotencyKey →
        call.write.request = call'.write.request) ↔ Distinguishes call call') ∧
    ∀ (call : WriteCall) (job : RetryJob JobPayload),
      .returned call.write.job job ∈ c.shared.log →
      (∀ (call' : WriteCall) (job' : RetryJob JobPayload),
        .returned call'.write.job job' ∈ c.shared.log → Distinguishes call' call) →
      ∃ row ∈ c.shared.rows, row.payload = .relay call.write.request ∧
        row.jobType = call.write.jobType ∧ row.idempotencyKey = call.write.idempotencyKey := by
  refine ⟨request_eq_of_key_iff, fun call job hret hdistinguished => ?_⟩
  have hinv := ((backstop_outline cfg).holds h).inv
  obtain ⟨row, hrow, -, hkey⟩ := hinv.rows.returned _ _ hret
  -- the call whose insert created the row
  obtain ⟨req, created, -, hcreated, -, hkey', htype, hpayload⟩ := hinv.rows.winner hrow
  cases hinv.known _ _ hcreated with
  | @webhook rest event => exact absurd (hkey.symm.trans hkey') (key_ne_webhook call rest)
  | @backstop call' relayed _ hreq =>
      obtain rfl := writeWithBackstop_eq_some hreq
      have heq : call'.write.idempotencyKey = call.write.idempotencyKey := hkey'.symm.trans hkey
      have hrequest : call'.write.request = call.write.request :=
        (request_eq_of_key_iff call' call).mpr (hdistinguished call' created hcreated) heq
      refine ⟨row, hrow, ?_, ?_, hkey⟩
      · rw [hpayload]
        exact congrArg JobPayload.relay hrequest
      · rw [htype]
        exact jobType_eq_of_endpoint ((key_eq_iff call' call).mp heq).1

/-- The approval of one milestone by this wallet. -/
def approval (approver : String) : WriteCall :=
  .approve ⟨"C1", "0", approver, .multiRelease⟩

/-- What Trustless Work answers while it is down. -/
def unavailable : Relayed := .ok ⟨503, .null⟩

/-- The queue after the backstop of this write has enqueued it on an empty table. -/
theorem reachable_enqueued (cfg : RetryQueueConfig) (call : WriteCall) :
    ∃ c job, (backstopSystem cfg).Reachable c ∧ (∀ t, c.threads t = none) ∧
      c.shared.log = [.returned call.write.job job, .inserted job] ∧ c.shared.rows = [job] ∧
      job.idempotencyKey = call.write.idempotencyKey ∧ job.payload = .relay call.write.request := by
  have h₀ : (backstopSystem cfg).Reachable (RetryQueue.emptyQueue JobPayload) :=
    .init RetryQueue.emptyQueue_init
  have h₁ := h₀.guarded
    (RetryQueue.queue_start 0 0 (.enqueueFind call.write.job) rfl rfl) (by
      rintro req hreq
      cases hreq
      exact @Enqueued.backstop call unavailable _ rfl)
  have h₂ := h₁.guarded (RetryQueue.queue_call 0 1 rfl (.findMiss rfl)) trivial
  have h₃ := h₂.guarded (RetryQueue.queue_call 0 2 rfl (.insert "a" 2 rfl rfl)) trivial
  refine ⟨_, _, h₃, fun t => ?_, rfl, rfl, rfl, rfl⟩
  by_cases ht : t = 0 <;> simp [ht, RetryQueue.emptyQueue]

/-- One approval alone is kept. -/
theorem backstop_keeps_approval :
    ∃ c, (backstopSystem RetryQueue.retryQueueDefaults).Reachable c ∧
      ∃ row ∈ c.shared.rows, row.payload = .relay (approval "GA").write.request := by
  obtain ⟨c, job, h, -, hlog, -⟩ :=
    reachable_enqueued RetryQueue.retryQueueDefaults (approval "GA")
  have hret : .returned (approval "GA").write.job job ∈ c.shared.log := by simp [hlog]
  obtain ⟨row, hrow, hpayload, -⟩ := (backstop_keeps_iff _ h).2 (approval "GA") job hret
    fun call' job' hret' => (request_eq_of_key_iff call' (approval "GA")).mp fun _ => by
      have hjob : call'.write.job = (approval "GA").write.job := by simp_all
      simpa [BackstoppedWrite.job] using congrArg EnqueueRequest.payload hjob
  exact ⟨c, h, row, hrow, hpayload⟩

/-- An approval by another wallet has the key of the first, and is answered with its job: nothing
holds it. -/
theorem backstop_swallows_second_approval :
    (approval "GA").write.idempotencyKey = (approval "GB").write.idempotencyKey ∧
      (approval "GA").write.request ≠ (approval "GB").write.request ∧
      ∃ c job, (backstopSystem RetryQueue.retryQueueDefaults).Reachable c ∧
        .returned (approval "GB").write.job job ∈ c.shared.log ∧
        ∀ row ∈ c.shared.rows, row.payload ≠ .relay (approval "GB").write.request := by
  refine ⟨by decide, by decide, ?_⟩
  obtain ⟨c, job, h, hidle, -, hrows, hkey, hpayload⟩ :=
    reachable_enqueued RetryQueue.retryQueueDefaults (approval "GA")
  have hfound : c.shared.findByIdempotencyKey (approval "GB").write.idempotencyKey = some job := by
    rw [Store.findByIdempotencyKey, hrows]
    exact List.find?_cons_of_pos (by rw [hkey]; decide)
  have h₁ := h.guarded
    (RetryQueue.queue_start 1 0 (.enqueueFind (approval "GB").write.job) (hidle 1) rfl) (by
      rintro req hreq
      cases hreq
      exact @Enqueued.backstop (approval "GB") unavailable _ rfl)
  have hcall : RetryQueue.Call RetryQueue.retryQueueDefaults 3 0 c.shared
      (.enqueueFind (approval "GB").write.job)
      (c.shared.emit (.returned (approval "GB").write.job job)) none := .findHit hfound
  have h₂ := h₁.guarded (RetryQueue.queue_call 1 3 rfl hcall) trivial
  refine ⟨_, job, h₂, List.mem_cons_self, fun row hrow => ?_⟩
  obtain rfl : row = job := by
    have : row ∈ c.shared.rows := hrow
    simpa [hrows] using this
  rw [hpayload]
  decide

end ThalosBackend.InternalTrustless
