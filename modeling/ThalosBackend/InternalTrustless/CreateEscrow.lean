import ThalosBackend.Agreements.AnsweringDb
import ThalosBackend.InternalTrustless.EscrowsController

/-!
# The two ways to create an escrow

`POST /escrows/create` builds the deploy request of a DTO and relays it. `createEscrow` of
`internal-trustless/escrow-write.helper.ts` builds the same request, and relays it only when
`validateAgreement` accepts the agreement that the DTO describes. The endpoint never calls it: it
relays every DTO.

So the two agree on a DTO exactly when the agreement is accepted, and `Admissible` says which DTOs
these are, field by field (`validatedAlike_iff`). Where both relay, they relay one request up to the
time in its engagement id.
-/

set_option autoImplicit false

namespace ThalosBackend.InternalTrustless

open Agreements (AgreementInput MilestoneInput isBlank isValidPositiveNumeric sumMatches
  validateAgreement)
open Js (FloatArithmetic Number Value Timestamp)

/-! ## `createEscrow` of the helper -/

/-- `field ?? null`. -/
def OptionalText.orNull : OptionalText → Option String
  | .text s => some s
  | _ => none

namespace EscrowWrite

/-- A milestone as it is validated. On single-release every milestone has the whole amount. -/
def milestoneInput (dto : CreateEscrowDto) (m : CreateEscrowMilestoneDto) : MilestoneInput where
  description := m.description
  amount := match dto.serviceType with
    | .multiRelease => m.amount.orNull
    | .singleRelease => some dto.amount

variable (F : FloatArithmetic)

/-- `Number(m.amount)`, where a missing amount is `null` by now. -/
def amountNumber (m : MilestoneInput) : Number :=
  match m.amount with
  | some amount => F.number amount
  | none => 0

/-- The amount as it is validated: on multi-release the sum of the milestones, to two decimals. -/
def agreementAmount (dto : CreateEscrowDto) : String :=
  match dto.serviceType with
  | .multiRelease => F.toFixed ((dto.milestones.map (milestoneInput dto)).foldl
      (fun sum m => F.add sum (amountNumber F m)) 0) 2
  | .singleRelease => dto.amount

def agreementType : ServiceType → String
  | .multiRelease => "multi"
  | .singleRelease => "single"

def agreementInput (dto : CreateEscrowDto) : AgreementInput where
  title := dto.title
  description := some dto.description
  amount := agreementAmount F dto
  asset := some "USDC"
  agreementType := some (agreementType dto.serviceType)
  milestones := some (dto.milestones.map (milestoneInput dto))
  participants := [⟨dto.signer, "payer"⟩]

/-- `createEscrow(dto)`, up to the call of `relayWrite`. -/
def createEscrow (env : EscrowEnv) (now : Timestamp) (dto : CreateEscrowDto) :
    Except HttpException RelayRequest :=
  let request := buildCreateEscrowRequest env now dto
  match validateAgreement F (agreementInput F dto) with
  | .ok () => .ok request
  | .error e => .error (.badRequestBody (Agreements.failureBody e.value))

theorem createEscrow_eq_ok {env : EscrowEnv} {now : Timestamp} {dto : CreateEscrowDto}
    {request : RelayRequest} :
    createEscrow F env now dto = .ok request ↔
      validateAgreement F (agreementInput F dto) = .ok () ∧
        request = buildCreateEscrowRequest env now dto := by
  unfold createEscrow
  cases validateAgreement F (agreementInput F dto) with
  | error e => simp
  | ok u => simp [eq_comm]

end EscrowWrite

/-! ## The DTOs that are accepted -/

/-- How many milestones an escrow of a type may have. -/
def CountAllowed : ServiceType → ℕ → Prop
  | .multiRelease, count => count ≠ 1
  | .singleRelease, count => count ≤ 1

/-- A DTO that describes an agreement `validateAgreement` accepts. A multi-release without
milestones is not told apart here: its amount is the sum `0.00`, which is not positive. -/
structure Admissible (F : FloatArithmetic) (dto : CreateEscrowDto) : Prop where
  title : isBlank dto.title = false
  description : isBlank dto.description = false
  signer : isBlank dto.signer = false
  amount : isValidPositiveNumeric F (EscrowWrite.agreementAmount F dto) = true
  milestones : ∀ m ∈ dto.milestones, isBlank m.description = false ∧
    ∃ amount, (EscrowWrite.milestoneInput dto m).amount = some amount ∧
      isValidPositiveNumeric F amount = true
  sum : dto.milestones ≠ [] → sumMatches F (EscrowWrite.agreementAmount F dto)
    (dto.milestones.filterMap fun m => (EscrowWrite.milestoneInput dto m).amount) = true
  count : CountAllowed dto.serviceType dto.milestones.length

variable {F : FloatArithmetic}

theorem agreementInput_milestones (dto : CreateEscrowDto) :
    (EscrowWrite.agreementInput F dto).milestones.getD [] =
      dto.milestones.map (EscrowWrite.milestoneInput dto) := rfl

theorem agreementInput_description (dto : CreateEscrowDto) :
    (EscrowWrite.agreementInput F dto).description.any isBlank = isBlank dto.description :=
  Option.any_some ..

theorem agreementInput_milestones_ne_nil {dto : CreateEscrowDto} :
    (EscrowWrite.agreementInput F dto).milestones.getD [] ≠ [] ↔ dto.milestones ≠ [] := by
  rw [agreementInput_milestones, ne_eq, List.map_eq_nil_iff]

theorem agreementInput_amounts (dto : CreateEscrowDto) :
    ((EscrowWrite.agreementInput F dto).milestones.getD []).filterMap MilestoneInput.amount =
      dto.milestones.filterMap fun m => (EscrowWrite.milestoneInput dto m).amount := by
  rw [agreementInput_milestones, List.filterMap_map]
  rfl

/-- Both sides count the milestones: `multi` needs two of them, `single` allows one. -/
theorem countAllowed_iff (type : ServiceType) (count : ℕ) :
    CountAllowed type count ↔
      (0 < count → (1 < count ↔ some (EscrowWrite.agreementType type) = some "multi")) := by
  cases type with
  | multiRelease =>
      simp only [CountAllowed, EscrowWrite.agreementType, iff_true]
      omega
  | singleRelease =>
      have hne : some "single" ≠ some "multi" := by decide
      simp only [CountAllowed, EscrowWrite.agreementType, hne, iff_false]
      omega

theorem acceptable_iff (dto : CreateEscrowDto) :
    (EscrowWrite.agreementInput F dto).Acceptable F ↔ Admissible F dto := by
  have hlen : ((EscrowWrite.agreementInput F dto).milestones.getD []).length =
      dto.milestones.length := by
    rw [agreementInput_milestones, List.length_map]
  constructor
  · intro h
    exact {
      title := h.title
      description := (agreementInput_description dto).symm.trans h.description
      signer := h.wallets ⟨dto.signer, "payer"⟩ List.mem_cons_self
      amount := h.amount
      milestones := fun m hm =>
        h.milestones (EscrowWrite.milestoneInput dto m) (List.mem_map_of_mem hm)
      sum := fun hne => agreementInput_amounts (F := F) dto ▸
        h.sum (agreementInput_milestones_ne_nil.mpr hne)
      count := (countAllowed_iff _ _).mpr fun hpos => hlen ▸
        h.type (agreementInput_milestones_ne_nil.mpr (List.length_pos_iff.mp hpos)) }
  · intro h
    exact {
      title := h.title
      description := (agreementInput_description dto).trans h.description
      amount := h.amount
      asset := rfl
      milestones := by
        intro m hm
        obtain ⟨given, hgiven, rfl⟩ := List.mem_map.mp hm
        exact h.milestones given hgiven
      sum := fun hne => by
        rw [agreementInput_amounts]
        exact h.sum (agreementInput_milestones_ne_nil.mp hne)
      type := fun hne => by
        rw [hlen]
        exact (countAllowed_iff _ _).mp h.count
          (List.length_pos_iff.mpr (agreementInput_milestones_ne_nil.mp hne))
      participants := List.cons_ne_nil _ _
      wallets := by
        intro p hp
        rw [List.mem_singleton.mp hp]
        exact h.signer }

/-- **The DTOs that the validator lets through.** -/
theorem validateAgreement_agreementInput (dto : CreateEscrowDto) :
    validateAgreement F (EscrowWrite.agreementInput F dto) = .ok () ↔ Admissible F dto :=
  Agreements.validateAgreement_eq_ok.trans (acceptable_iff dto)

/-! ## What the endpoint deploys -/

/-- The request that a job of the queue relays. -/
def JobPayload.relayed : JobPayload → Option RelayRequest
  | .relay request => some request
  | .webhook _ => none

/-- The deploy requests of `POST /escrows/create`: the one it relays itself, and the one of the job
it leaves behind when the relay fails. -/
def deployRequests (env : EscrowEnv) (now : Timestamp) (dto : CreateEscrowDto)
    (relayed : Relayed) : List RelayRequest :=
  let write := createEscrow env now dto
  write.request ::
    (writeWithBackstop write relayed).toList.filterMap fun job => job.payload.relayed

/-- A retry deploys what the endpoint has tried to deploy. -/
theorem mem_deployRequests {env : EscrowEnv} {now : Timestamp} {dto : CreateEscrowDto}
    {relayed : Relayed} {request : RelayRequest} :
    request ∈ deployRequests env now dto relayed ↔
      request = buildCreateEscrowRequest env now dto := by
  constructor
  · intro h
    rcases List.mem_cons.mp h with rfl | hretry
    · rfl
    · obtain ⟨job, hjob, hpayload⟩ := List.mem_filterMap.mp hretry
      have hwrite := Option.mem_toList.mp hjob
      unfold writeWithBackstop at hwrite
      have hjob : job = (createEscrow env now dto).job := by
        split at hwrite
        · cases hwrite
        · split at hwrite
          · cases hwrite
          · exact (Option.some.inj hwrite).symm
        · exact (Option.some.inj hwrite).symm
      subst hjob
      exact (Option.some.inj hpayload).symm
  · rintro rfl
    exact List.mem_cons_self

/-! ## Requests up to their engagement id -/

/-- A body without its engagement id. -/
def withoutEngagementId : Value → Value
  | .object fields => .object (fields.filter fun f => f.1 != "engagementId")
  | v => v

theorem withoutEngagementId_record (fields : List (String × Value)) :
    withoutEngagementId (.record fields) =
      .record (fields.filter fun f => f.1 != "engagementId") := by
  simp only [withoutEngagementId, Value.record, List.filter_filter, Bool.and_comm]

/-- Requests that differ in the engagement id alone. -/
def SameDeployment (r r' : RelayRequest) : Prop :=
  r.path = r'.path ∧ withoutEngagementId r.body = withoutEngagementId r'.body

/-- The time goes into the engagement id and nowhere else. -/
theorem sameDeployment_buildCreateEscrowRequest (env : EscrowEnv) (now now' : Timestamp)
    (dto : CreateEscrowDto) :
    SameDeployment (buildCreateEscrowRequest env now dto)
      (buildCreateEscrowRequest env now' dto) := by
  refine ⟨rfl, ?_⟩
  have hbase : (agreementBase env now dto).filter (fun f => f.1 != "engagementId") =
      (agreementBase env now' dto).filter fun f => f.1 != "engagementId" := by
    simp [agreementBase]
  have hbody : ∀ rest : List (String × Value),
      withoutEngagementId (.record (agreementBase env now dto ++ rest)) =
        withoutEngagementId (.record (agreementBase env now' dto ++ rest)) := by
    intro rest
    rw [withoutEngagementId_record, withoutEngagementId_record, List.filter_append, hbase,
      ← List.filter_append]
  unfold buildCreateEscrowRequest buildAgreementBody
  cases dto.serviceType with
  | multiRelease => exact hbody _
  | singleRelease => exact hbody _

/-! ## The two side by side -/

/-- The endpoint and the helper treat a DTO alike: one deploys it when the other accepts it, the two
requests are the same up to the engagement id, and what the validator refuses is not deployed. -/
structure ValidatedAlike (F : FloatArithmetic) (env : EscrowEnv) (now now' : Timestamp)
    (relayed : Relayed) (dto : CreateEscrowDto) : Prop where
  accepts : (∃ request, request ∈ deployRequests env now dto relayed) ↔
    ∃ request, EscrowWrite.createEscrow F env now' dto = .ok request
  same : ∀ request ∈ deployRequests env now dto relayed, ∀ request',
    EscrowWrite.createEscrow F env now' dto = .ok request' → SameDeployment request request'
  refused : ∀ e, validateAgreement F (EscrowWrite.agreementInput F dto) = .error e →
    deployRequests env now dto relayed = []

/-- Where both deploy, they deploy the same, whatever the DTO. -/
theorem deployRequests_same {env : EscrowEnv} {now now' : Timestamp} {relayed : Relayed}
    {dto : CreateEscrowDto} {request request' : RelayRequest}
    (h : request ∈ deployRequests env now dto relayed)
    (h' : EscrowWrite.createEscrow F env now' dto = .ok request') :
    SameDeployment request request' := by
  rw [mem_deployRequests.mp h, ((EscrowWrite.createEscrow_eq_ok F).mp h').2]
  exact sameDeployment_buildCreateEscrowRequest env now now' dto

/-- **The DTOs on which the two agree**: those that the validator accepts. -/
theorem validatedAlike_iff (F : FloatArithmetic) (env : EscrowEnv) (now now' : Timestamp)
    (relayed : Relayed) (dto : CreateEscrowDto) :
    ValidatedAlike F env now now' relayed dto ↔ Admissible F dto := by
  rw [← validateAgreement_agreementInput]
  constructor
  · intro h
    obtain ⟨request, hrequest⟩ := h.accepts.mp ⟨_, mem_deployRequests.mpr rfl⟩
    exact ((EscrowWrite.createEscrow_eq_ok F).mp hrequest).1
  · intro hvalid
    exact {
      accepts := ⟨fun _ => ⟨_, (EscrowWrite.createEscrow_eq_ok F).mpr ⟨hvalid, rfl⟩⟩,
        fun _ => ⟨_, mem_deployRequests.mpr rfl⟩⟩
      same := fun _ h _ h' => deployRequests_same h h'
      refused := fun e he => by
        rw [hvalid] at he
        cases he }

/-- A single-release escrow without a title. -/
def untitled : CreateEscrowDto where
  title := ""
  description := "Logo"
  amount := "100"
  platformFee := "1"
  signer := "P"
  serviceType := .singleRelease
  roles := ⟨"P", "Q", "P", .text "Q"⟩
  milestones := [⟨"Logo", .undefined, .undefined⟩]

/-- The endpoint deploys the untitled escrow; the helper refuses it. -/
theorem not_validatedAlike : ¬ ∀ (F : FloatArithmetic) (env : EscrowEnv) (now now' : Timestamp)
    (relayed : Relayed) (dto : CreateEscrowDto), ValidatedAlike F env now now' relayed dto := by
  intro h
  have halike := h Agreements.exactArithmetic {} 0 0 (.ok ⟨200, .null⟩) untitled
  -- the endpoint deploys it, so the helper would have to accept it, and the validator with it
  obtain ⟨request, hrequest⟩ := halike.accepts.mp ⟨_, mem_deployRequests.mpr rfl⟩
  have hvalid := ((EscrowWrite.createEscrow_eq_ok _).mp hrequest).1
  have htitle := ((validateAgreement_agreementInput untitled).mp hvalid).title
  revert htitle
  decide

end ThalosBackend.InternalTrustless
