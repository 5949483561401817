import ThalosBackend.Agreements.MilestoneWrites
import ThalosBackend.Agreements.MoneyIdentity
import ThalosBackend.Profiles.ReputationService

/-!
# Where releases come from

Only Trustless Work knows that a milestone was paid out. `reportsReleased` says when it tells: a
milestone webhook that names the entry, or an escrow that a reconcile fetches, as long as it is the
escrow of the contract. The system below keeps the reports beside the store.

A participant can release as well, with `updateMilestone` or already with `create`, and the public
reputation counts it; a reconcile can take a release over from the escrow of another contract.
`releasesReported` excludes that; where every operation of a run meets it, each released milestone has
been reported, and the reputation counts reported releases only.
-/

set_option autoImplicit false

namespace ThalosBackend.Profiles

open Js (FloatArithmetic Number Value nonEmpty)
open Webhooks (twEventMap)
open Agreements
open InternalTrustless (carries)

/-! ## Reports -/

/-- The escrow that is fetched for the agreement carries its contract id. -/
def fetchesOwn (fetch : Fetch) (a : Agreement) : Bool :=
  (nonEmpty a.contractId).any fun contractId =>
    carries contractId (fetchTrustlessEscrow contractId fetch)

/-- The escrow of the contract says that the milestone is released. -/
def saysReleased (fetch : Fetch) (a : Agreement) (index : ℕ) : Bool :=
  match nonEmpty a.contractId with
  | none => false
  | some contractId =>
    let escrow := fetchTrustlessEscrow contractId fetch
    carries contractId escrow &&
      milestoneStatusFromTrustless (itemOf index (escrow.field "milestones"))
        ((escrow.field "flags").field "released") = some .released

/-- Trustless Work reports, with this operation, that the milestone of the agreement is released. -/
def reportsReleased (o : Operation) (a : Agreement) (index : ℕ) : Bool :=
  match o.request with
  | .webhook payload =>
    match (payload.field "event").toText, (payload.field "contractId").toText with
    | some event, some contractId =>
      twEventMap event = some .milestoneUpdate ∧ a.contractId = some contractId ∧
        payloadEntry payload a.milestones.length = some index ∧
          payloadStatus payload = some .released
    | _, _ => false
  | .reconcile agreementId first second =>
    a.id = agreementId ∧ (saysReleased first a index ∨ saysReleased second a index)
  | _ => false

/-- The milestones, by agreement and index, that the operation reports. -/
def newReports (db : AgreementDb) (o : Operation) : List (String × ℕ) :=
  db.agreements.flatMap fun a =>
    ((List.range a.milestones.length).filter (reportsReleased o a)).map fun index => (a.id, index)

/-- The store, and what has been reported so far. -/
structure ReportedStore where
  db : AgreementDb
  reported : List (String × ℕ)

/-- The operations, with the reports they bring. -/
def reportingSystem (F : FloatArithmetic) : StepSystem ReportedStore Operation where
  init s := s.db.isNew ∧ s.reported = []
  step s o s' := (agreementSystem F).step s.db o s'.db ∧
    s'.reported = s.reported ++ newReports s.db o

/-! ## The condition -/

/-- No participant releases a milestone that has not been reported, no reconcile takes a release over
from the escrow of another contract, and no webhook gives all lists a status. -/
def releasesReported (F : FloatArithmetic) (s : ReportedStore) (o : Operation) : Bool :=
  match o.request with
  | .create userId dto => !acceptsCreate F s.db userId dto ||
      (dto.milestones.getD []).all (·.status ≠ .released)
  | .updateMilestone userId agreementId dto =>
    !acceptsMilestone F o.now s.db userId agreementId dto || dto.status ≠ .released ||
      (agreementId, dto.milestoneIndex) ∈ s.reported
  | .webhook _ => !spreadsStatus s.db o
  | .reconcile _ _ second => s.db.agreements.all fun a =>
      (List.range a.milestones.length).all fun index =>
        statusWritten F s.db o a index ≠ some .released || fetchesOwn second a
  | _ => true

/-- Every released milestone has been reported. -/
def AllReported (s : ReportedStore) : Prop :=
  ∀ a ∈ s.db.agreements, ∀ (index : ℕ) (m : Milestone), a.milestones[index]? = some m →
    m.status = .released → (a.id, index) ∈ s.reported

/-! ## Steps and runs -/

section Runs

variable {F : FloatArithmetic} {s s' : ReportedStore} {o : Operation}

theorem mem_newReports {db : AgreementDb} {a : Agreement} (ha : a ∈ db.agreements) {index : ℕ}
    {m : Milestone} (hm : a.milestones[index]? = some m) (hreports : reportsReleased o a index = true) :
    (a.id, index) ∈ newReports db o := by
  obtain ⟨hlt, -⟩ := List.getElem?_eq_some_iff.mp hm
  refine List.mem_flatMap.mpr ⟨a, ha, List.mem_map.mpr ⟨index, ?_, rfl⟩⟩
  exact List.mem_filter.mpr ⟨List.mem_range.mpr hlt, hreports⟩

/-- What `doReconcile` takes over from the escrow of the contract was said by it. -/
theorem saysReleased_of_reconciledStatus {fetch : Fetch} {a : Agreement} {index : ℕ}
    (hown : fetchesOwn fetch a = true)
    (h : reconciledStatus fetch a index = some .released) : saysReleased fetch a index = true := by
  unfold reconciledStatus at h
  cases hcontract : nonEmpty a.contractId with
  | none =>
      rw [hcontract] at h
      cases h
  | some contractId =>
      rw [hcontract] at h
      dsimp only at h
      split at h
      · split at h
        · cases h
        · rw [upstreamStatus] at h
          split at h
          · have hcarries : carries contractId (fetchTrustlessEscrow contractId fetch) = true := by
              simpa [fetchesOwn, hcontract] using hown
            simpa [saysReleased, hcontract, hcarries] using h
          · cases h
      · cases h

/-- A release that is written is a participant's, or was reported. -/
theorem released_of_statusWritten {db : AgreementDb} {a : Agreement} {index : ℕ}
    (h : statusWritten F db o a index = some .released)
    (hown : ∀ agreementId first second, o.request = .reconcile agreementId first second →
      fetchesOwn second a = true) :
    reportsReleased o a index = true ∨ ∃ userId dto, o.request = .updateMilestone userId a.id dto ∧
      acceptsMilestone F o.now db userId a.id dto = true ∧ dto.status = .released ∧
      dto.milestoneIndex = index := by
  unfold statusWritten at h
  split at h
  · -- the operations that write a status: a participant's update, an event, a reconciliation
    rename_i userId agreementId dto ho
    split at h
    · rename_i hwrites
      obtain ⟨rfl, rfl, haccepts⟩ := hwrites
      exact .inr ⟨userId, dto, ho, haccepts, Option.some.inj h, rfl⟩
    · cases h
  · rename_i payload ho
    split at h
    · rename_i hwrites
      obtain ⟨hedits, hentry⟩ := hwrites
      left
      unfold editsMilestones at hedits
      unfold reportsReleased
      rw [ho]
      dsimp only
      cases hevent : (payload.field "event").toText with
      | none =>
          rw [hevent] at hedits
          cases hedits
      | some event =>
          cases hcontract : (payload.field "contractId").toText with
          | none =>
              rw [hevent, hcontract] at hedits
              cases hedits
          | some contractId =>
              rw [hevent, hcontract] at hedits
              obtain ⟨hmilestone, hrows⟩ := of_decide_eq_true hedits
              have hmem : a ∈ db.byContract contractId := by
                rw [hrows]
                exact List.mem_singleton_self a
              exact decide_eq_true ⟨hmilestone, (mem_byContract.mp hmem).2, hentry, h⟩
    · cases h
  · rename_i agreementId first second ho
    split at h
    · rename_i hwrites
      left
      unfold reportsReleased
      rw [ho]
      exact decide_eq_true ⟨hwrites.1,
        .inr (saysReleased_of_reconciledStatus (hown agreementId first second ho) h)⟩
    · cases h
  · cases h

/-- A reconcile that releases a milestone has fetched the escrow of the contract. -/
theorem fetchesOwn_of_released (hguard : releasesReported F s o = true) {a : Agreement}
    (ha : a ∈ s.db.agreements) {index : ℕ} (hlt : index < a.milestones.length)
    (h : statusWritten F s.db o a index = some .released) :
    ∀ agreementId first second, o.request = .reconcile agreementId first second →
      fetchesOwn second a = true := by
  intro agreementId first second ho
  rw [releasesReported, ho] at hguard
  have hrow := List.all_eq_true.mp (List.all_eq_true.mp hguard a ha) index (List.mem_range.mpr hlt)
  simpa [h] using hrow

/-- The operations, as long as no participant releases what has not been reported, and Trustless Work
is asked about the contract. -/
abbrev reportedSystem (F : FloatArithmetic) : StepSystem ReportedStore Operation :=
  (reportingSystem F).restrict fun s o => releasesReported F s o = true

/-- **Step lemma.** A release that an operation writes has been reported, before or with it. -/
theorem AllReported.step (hall : AllReported s) (hs : (reportedSystem F).step s o s') :
    AllReported s' := by
  obtain ⟨hguard, hstep, hreports⟩ := hs
  intro a' ha' index m' hm' hreleased
  rw [hreports, List.mem_append]
  rcases step_milestones hstep with hrows | ⟨userId, dto, id, created, ho, haccepts, -, hadded⟩
  · obtain ⟨a, ha, hrow, hmilestones⟩ := Table.exists_of_forall₂_right hrows ha'
    rw [hrow.id_eq]
    obtain ⟨m, hm, hwrite⟩ := hmilestones.exists_old hm'
    rcases hwrite.status with hsame | hwritten
    · exact .inl (hall a ha index m hm (hsame ▸ hreleased))
    · rw [hreleased] at hwritten
      have hlt := (List.getElem?_eq_some_iff.mp hm).1
      rcases released_of_statusWritten hwritten (fetchesOwn_of_released hguard ha hlt hwritten) with
        hreport | ⟨userId, dto, ho, haccepts, hstatus, rfl⟩
      · exact .inr (mem_newReports ha hm hreport)
      · left
        simpa [releasesReported, ho, haccepts, hstatus] using hguard
  · rw [hadded] at ha'
    rcases List.mem_append.mp ha' with ha' | ha'
    · exact .inl (hall a' ha' index m' hm' hreleased)
    · -- a new agreement lists no released milestone
      rw [List.mem_singleton.mp ha'] at hm'
      have hnone : ∀ dto' ∈ dto.milestones.getD [], dto'.status ≠ .released := by
        simpa [releasesReported, ho, haccepts] using hguard
      obtain ⟨dto', hdto', rfl⟩ := List.mem_map.mp (List.mem_of_getElem? hm')
      exact absurd hreleased (hnone dto' hdto')

theorem allReported_of_reachable (h : (reportedSystem F).Reachable s) : AllReported s := by
  refine StepSystem.invariant_of_steps (fun s hinit => ?_) (fun s o s' _ hI hs => hI.step hs) h
  intro a ha
  rw [hinit.1.1] at ha
  cases ha

end Runs

/-! ## What the reputation counts -/

/-- The released milestones of these agreements that have been reported. -/
def reportedReleases (reported : List (String × ℕ)) (agreements : List Agreement) :
    List Milestone :=
  agreements.flatMap fun a => (a.milestones.zipIdx.filter fun (m, index) =>
    m.status = .released ∧ (a.id, index) ∈ reported).map Prod.fst

/-- The reputation counts the reported releases of these agreements, and no other milestone. -/
def CountsReported (F : FloatArithmetic) (reported : List (String × ℕ))
    (agreements : List Agreement) (payload : ReputationPayload) : Prop :=
  payload.releasedMilestonesCount = (reportedReleases reported agreements).length ∧
    ∀ total, payload.totalReleasedUsdc = some total →
      total = ((reportedReleases reported agreements).map Milestone.amount).foldl (addReleased F) 0

theorem reportedReleases_eq {reported : List (String × ℕ)} {agreements : List Agreement}
    (h : ∀ a ∈ agreements, ∀ (index : ℕ) (m : Milestone), a.milestones[index]? = some m →
      m.status = .released → (a.id, index) ∈ reported) :
    reportedReleases reported agreements =
      (countedMilestones agreements).filter fun m => m.status = .released := by
  induction agreements with
  | nil => rfl
  | cons a rest ih =>
      have hrest := ih fun b hb => h b (List.mem_cons_of_mem a hb)
      have hfirst : a.milestones.zipIdx.filter (fun (m, index) =>
          m.status = .released ∧ (a.id, index) ∈ reported) =
          a.milestones.zipIdx.filter fun entry => entry.1.status = .released := by
        refine List.filter_congr fun entry hentry => ?_
        obtain ⟨m, index⟩ := entry
        have hm := List.mk_mem_zipIdx_iff_getElem?.mp hentry
        have hreported := h a List.mem_cons_self index m hm
        simpa using hreported
      have hmap : (a.milestones.zipIdx.filter fun entry => entry.1.status = .released).map Prod.fst =
          a.milestones.filter fun m => m.status = .released := by
        have hfst := List.filter_map (f := Prod.fst) (l := a.milestones.zipIdx)
          (p := fun m : Milestone => decide (m.status = .released))
        rw [List.zipIdx_map_fst] at hfst
        exact hfst.symm
      rw [reportedReleases, List.flatMap_cons, hfirst, hmap, countedMilestones, List.flatMap_cons,
        List.filter_append]
      exact congrArg _ hrest

theorem countsReported_compute {F : FloatArithmetic} {reported : List (String × ℕ)}
    {agreements : List Agreement}
    (h : ∀ a ∈ agreements, ∀ (index : ℕ) (m : Milestone), a.milestones[index]? = some m →
      m.status = .released → (a.id, index) ∈ reported) (profile : Profile) (includeEarnings : Bool) :
    CountsReported F reported agreements
      (computeReputation F agreements profile includeEarnings) := by
  rw [CountsReported, reportedReleases_eq h]
  refine ⟨rfl, fun total htotal => ?_⟩
  unfold computeReputation at htotal
  dsimp only at htotal
  split at htotal
  · exact (Option.some.inj htotal).symm
  · cases htotal

/-- **Release provenance.** Where no participant releases a milestone that has not been reported, and no
reconcile one on the word of another contract's escrow, every released milestone has been reported by Trustless Work, and both figures of the reputation
count the reported releases of the wallet's agreements and nothing else. -/
theorem release_provenance {F : FloatArithmetic} {s : ReportedStore}
    (h : (reportedSystem F).Reachable s) :
    AllReported s ∧ ∀ profile : Profile,
      CountsReported F s.reported (fetchBuilderAgreements s.db profile.walletAddress)
        (getPublicReputation F s.db profile) ∧
      CountsReported F s.reported (fetchBuilderAgreements s.db profile.walletAddress)
        (getMyReputation F s.db profile) := by
  have hall := allReported_of_reachable h
  have hbuilder : ∀ wallet, ∀ a ∈ fetchBuilderAgreements s.db wallet,
      ∀ (index : ℕ) (m : Milestone), a.milestones[index]? = some m → m.status = .released →
        (a.id, index) ∈ s.reported := by
    intro wallet a ha
    exact hall a (List.mem_filter.mp ha).1
  refine ⟨hall, fun profile => ⟨?_, ?_⟩⟩
  · exact countsReported_compute (hbuilder _) profile _
  · exact countsReported_compute (hbuilder _) profile _

/-! ## Runs on the answering database -/

/-- The operations, one after the other, with their reports. -/
def reportAll (F : FloatArithmetic) (os : List Operation) (s : ReportedStore) : ReportedStore :=
  os.foldl (fun s o => ⟨(o.run F s.db).2, s.reported ++ newReports s.db o⟩) s

/-- Every operation of the list meets the condition where it starts. -/
def reportedAll (F : FloatArithmetic) : List Operation → ReportedStore → Bool
  | [], _ => true
  | o :: os, s => releasesReported F s o &&
      reportedAll F os ⟨(o.run F s.db).2, s.reported ++ newReports s.db o⟩

theorem reachable_reportAll {F : FloatArithmetic} {os : List Operation} {s : ReportedStore}
    (h : (reportingSystem F).Reachable s) : (reportingSystem F).Reachable (reportAll F os s) := by
  induction os generalizing s with
  | nil => exact h
  | cons o os ih => exact ih (h.step ⟨⟨_, o.runs F s.db⟩, rfl⟩)

theorem reachable_reportedAll {F : FloatArithmetic} {os : List Operation} {s : ReportedStore}
    (h : (reportedSystem F).Reachable s) (hguard : reportedAll F os s = true) :
    (reportedSystem F).Reachable (reportAll F os s) := by
  induction os generalizing s with
  | nil => exact h
  | cons o os ih =>
      obtain ⟨hfirst, hrest⟩ := Bool.and_eq_true_iff.mp hguard
      exact ih (h.step ⟨hfirst, ⟨_, o.runs F s.db⟩, rfl⟩) hrest

/-- No agreement, and no report. -/
def newReportedStore : ReportedStore := ⟨newStore, []⟩

/-- The profile of the payee. -/
def payeeProfile : Profile := ⟨"Q", some "builder", true⟩

/-- A webhook reports the release of the second milestone. -/
def releaseSecond : Value :=
  .object [("event", .string "escrow.milestone_updated"), ("contractId", .string "C"),
    ("milestone", .object [("index", .number 1), ("status", .string "released")])]

/-- The theorem for a release that a webhook reports. -/
theorem release_provenance_reported :
    let s := reportAll exactArithmetic
      [createOperation "10" (some "C") splitTen, ⟨1, .webhook releaseSecond⟩] newReportedStore
    (getPublicReputation exactArithmetic s.db payeeProfile).totalReleasedUsdc = some 6 ∧
      AllReported s ∧ ∀ profile : Profile,
        CountsReported exactArithmetic s.reported (fetchBuilderAgreements s.db profile.walletAddress)
          (getPublicReputation exactArithmetic s.db profile) ∧
        CountsReported exactArithmetic s.reported (fetchBuilderAgreements s.db profile.walletAddress)
          (getMyReputation exactArithmetic s.db profile) := by
  intro s
  refine ⟨by decide +kernel, release_provenance (F := exactArithmetic) ?_⟩
  exact reachable_reportedAll (.init ⟨isNew_newStore, rfl⟩) (by decide +kernel)

/-- A participant releases a milestone of an agreement without a contract, and the payee's public
reputation shows four units. -/
theorem not_release_provenance : ¬ ∀ s, (reportingSystem exactArithmetic).Reachable s →
    AllReported s ∧ ∀ profile : Profile,
      CountsReported exactArithmetic s.reported (fetchBuilderAgreements s.db profile.walletAddress)
        (getPublicReputation exactArithmetic s.db profile) := by
  intro h
  let s := reportAll exactArithmetic [createOperation "10" none splitTen,
    ⟨1, .updateMilestone "payer" "i" ⟨0, .released, "P", none, none⟩⟩] newReportedStore
  have hcounts := (h s (reachable_reportAll (.init ⟨isNew_newStore, rfl⟩))).2 payeeProfile
  have hshown : (getPublicReputation exactArithmetic s.db payeeProfile).totalReleasedUsdc =
      some 4 := by decide +kernel
  have hreported : ((reportedReleases s.reported (fetchBuilderAgreements s.db "Q")).map
      Milestone.amount).foldl (addReleased exactArithmetic) 0 ≠ 4 := by decide +kernel
  exact hreported (hcounts.2 4 hshown).symm

end ThalosBackend.Profiles
