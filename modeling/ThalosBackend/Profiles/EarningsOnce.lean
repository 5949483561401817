import Mathlib.Algebra.Order.BigOperators.Group.List
import ThalosBackend.Agreements.ExactSums
import ThalosBackend.Library.Incidence
import ThalosBackend.Profiles.ReputationService

/-!
# Earnings of all wallets

`fetchBuilderAgreements` takes every agreement that a wallet takes part in, whatever its role, and
`computeReputation` adds up what is released in them. A wallet with several roles is no problem: `in`
asks for a set of ids. But the payer of a milestone earns it as much as the payee.

The earnings of a wallet are the sum of its `credits`, one for each released milestone whose amount
reads as a number. `counted_once_iff` says when no amount is credited twice and the earnings of
all wallets stay within what is released: when each agreement with a credit has one wallet at most,
and what nobody is credited with does not add up to a negative sum.
-/

set_option autoImplicit false

namespace ThalosBackend.Profiles

open Js (FloatArithmetic Number)
open Agreements

/-! ## Exact arithmetic -/

/-- Amounts are rational numbers: a text reads as one or as none, and sums are exact. -/
structure ExactAmounts (F : FloatArithmetic) : Prop where
  add : ∀ a b : ℚ, F.add (.finite a) (.finite b) = .finite (a + b)
  parse : ∀ s, F.parseFloat s = .nan ∨ ∃ q, F.parseFloat s = .finite q

/-- The value of an amount that reads as a number. -/
def amountValue (F : FloatArithmetic) (amount : String) : Option ℚ :=
  match F.parseFloat amount with
  | .finite q => some q
  | _ => none

theorem exactAmounts_decimal : ExactAmounts decimalArithmetic where
  add a b := rfl
  parse s := by
    change readDecimal s = .nan ∨ ∃ q, readDecimal s = .finite q
    unfold readDecimal
    split
    · exact .inr ⟨_, rfl⟩
    · exact .inl rfl

namespace ExactAmounts

variable {F : FloatArithmetic}

/-- One more released amount. -/
theorem addReleased_eq (hF : ExactAmounts F) (total : ℚ) (amount : String) :
    addReleased F (.finite total) amount = .finite (total + (amountValue F amount).getD 0) := by
  unfold addReleased amountValue
  rcases hF.parse amount with hnan | ⟨q, hq⟩
  · simp [hnan]
  · simp [hq, hF.add]

/-- The released amounts add up exactly. -/
theorem foldl_addReleased (hF : ExactAmounts F) (amounts : List String) (total : ℚ) :
    amounts.foldl (addReleased F) (.finite total) =
      .finite (total + (amounts.filterMap (amountValue F)).sum) := by
  induction amounts generalizing total with
  | nil => simp
  | cons amount amounts ih =>
      rw [List.foldl_cons, hF.addReleased_eq, ih, List.filterMap_cons]
      cases amountValue F amount with
      | none => simp
      | some q => simp [add_assoc]

theorem foldl_add (hF : ExactAmounts F) (qs : List ℚ) (total : ℚ) :
    (qs.map Number.finite).foldl F.add (.finite total) = .finite (total + qs.sum) := by
  induction qs generalizing total with
  | nil => simp
  | cons q qs ih => rw [List.map_cons, List.foldl_cons, hF.add, ih, List.sum_cons, add_assoc]

end ExactAmounts

/-! ## Earnings and credits -/

/-- The amounts of the released milestones, in the order they are counted. -/
def releasedAmounts (agreements : List Agreement) : List String :=
  ((countedMilestones agreements).filter fun m => m.status = .released).map Milestone.amount

/-- `total_released_usdc` of a wallet, with earnings included. -/
def earnings (F : FloatArithmetic) (db : AgreementDb) (wallet : String) : Number :=
  (getMyReputation F db ⟨wallet, none, true⟩).totalReleasedUsdc.getD 0

/-- The sum of the amounts of all released milestones. -/
def releasedTotal (F : FloatArithmetic) (db : AgreementDb) : Number :=
  (releasedAmounts db.agreements).foldl (addReleased F) 0

/-- The wallets that take part in something. -/
def participantWallets (db : AgreementDb) : List String :=
  (db.participants.map Participant.walletAddress).dedup

/-- The sum of the earnings of all wallets. -/
def earningsTotal (F : FloatArithmetic) (db : AgreementDb) : Number :=
  ((participantWallets db).map (earnings F db)).foldl F.add 0

/-- An amount that is credited: that of a milestone of an agreement. -/
structure Credit where
  agreementId : String
  index : ℕ
  value : ℚ
  deriving DecidableEq

/-- The credits of an agreement: its released milestones whose amounts read as numbers. -/
def agreementCredits (F : FloatArithmetic) (a : Agreement) : List Credit :=
  a.milestones.zipIdx.filterMap fun (m, index) =>
    if m.status = .released then (amountValue F m.amount).map (Credit.mk a.id index) else none

/-- What a wallet is credited with. -/
def credits (F : FloatArithmetic) (db : AgreementDb) (wallet : String) : List Credit :=
  (fetchBuilderAgreements db wallet).flatMap (agreementCredits F)

/-- The wallet takes part in the agreement. -/
def takesPart (db : AgreementDb) (wallet : String) (a : Agreement) : Bool :=
  db.participants.any fun p => p.walletAddress = wallet && p.agreementId = a.id

/-- What is released in the agreement. -/
def creditSum (F : FloatArithmetic) (a : Agreement) : ℚ :=
  ((agreementCredits F a).map Credit.value).sum

/-- What is released in agreements that nobody takes part in. -/
def unclaimedSum (F : FloatArithmetic) (db : AgreementDb) : ℚ :=
  ((db.agreements.filter fun a =>
    !(participantWallets db).any fun wallet => takesPart db wallet a).map (creditSum F)).sum

/-- **Earnings are counted once.** Together the wallets earn no more than is released, and each
released amount is credited to one wallet at most, and once. -/
structure CountedOnce (F : FloatArithmetic) (db : AgreementDb) : Prop where
  bounded : (earningsTotal F db).le (releasedTotal F db) = true
  single : ∀ wallet wallet' credit, credit ∈ credits F db wallet → credit ∈ credits F db wallet' →
    wallet = wallet'
  once : ∀ wallet, (credits F db wallet).Nodup

/-- An agreement with a credit has one wallet at most. -/
def OneEarner (F : FloatArithmetic) (db : AgreementDb) : Prop :=
  ∀ a ∈ db.agreements, agreementCredits F a ≠ [] →
    ∀ p ∈ db.participants, ∀ p' ∈ db.participants, p.agreementId = a.id → p'.agreementId = a.id →
      p.walletAddress = p'.walletAddress

section Sums

variable {F : FloatArithmetic} {db : AgreementDb}

theorem takesPart_iff {wallet : String} {a : Agreement} :
    takesPart db wallet a = true ↔
      ∃ p ∈ db.participants, p.agreementId = a.id ∧ p.walletAddress = wallet := by
  simp only [takesPart, List.any_eq_true, Bool.and_eq_true, decide_eq_true_eq, and_comm]

theorem fetchBuilderAgreements_eq (wallet : String) :
    fetchBuilderAgreements db wallet = db.agreements.filter (takesPart db wallet) := by
  refine List.filter_congr fun a _ => ?_
  rw [Bool.eq_iff_iff, decide_eq_true_eq, takesPart_iff]
  constructor
  · intro h
    obtain ⟨p, hp, hid⟩ := List.mem_map.mp h
    obtain ⟨hmem, hwallet⟩ := List.mem_filter.mp hp
    exact ⟨p, hmem, hid, of_decide_eq_true hwallet⟩
  · rintro ⟨p, hmem, hid, hwallet⟩
    exact List.mem_map.mpr ⟨p, List.mem_filter.mpr ⟨hmem, decide_eq_true hwallet⟩, hid⟩

/-- The credits of an agreement are the amounts that are counted for it. -/
theorem map_agreementCredits (a : Agreement) :
    (agreementCredits F a).map Credit.value =
      ((a.milestones.filter fun m => m.status = .released).map Milestone.amount).filterMap
        (amountValue F) := by
  have hfrom : ∀ (milestones : List Milestone) (start : ℕ),
      (((milestones.zipIdx start).filterMap fun (m, index) =>
        if m.status = .released then (amountValue F m.amount).map (Credit.mk a.id index)
        else none).map Credit.value) =
      ((milestones.filter fun m => m.status = .released).map Milestone.amount).filterMap
        (amountValue F) := by
    intro milestones
    induction milestones with
    | nil => intro start; rfl
    | cons m milestones ih =>
        intro start
        rw [List.zipIdx_cons, List.filterMap_cons, List.filter_cons]
        by_cases hreleased : m.status = .released
        · cases hvalue : amountValue F m.amount with
          | none => simpa [hreleased, hvalue] using ih (start + 1)
          | some q => simpa [hreleased, hvalue] using ih (start + 1)
        · simpa [hreleased] using ih (start + 1)
  exact hfrom a.milestones 0

/-- The released amounts of agreements add up to their credits. -/
theorem sum_releasedAmounts (agreements : List Agreement) :
    ((releasedAmounts agreements).filterMap (amountValue F)).sum =
      (agreements.map (creditSum F)).sum := by
  induction agreements with
  | nil => rfl
  | cons a agreements ih =>
      have hsplit : releasedAmounts (a :: agreements) =
          (a.milestones.filter fun m => m.status = .released).map Milestone.amount ++
            releasedAmounts agreements := by
        simp [releasedAmounts, countedMilestones]
      rw [hsplit, List.filterMap_append, List.sum_append, ih, ← map_agreementCredits]
      rfl

theorem earnings_eq_sum (hF : ExactAmounts F) (wallet : String) :
    earnings F db wallet =
      .finite ((fetchBuilderAgreements db wallet).map (creditSum F)).sum := by
  have hfold : earnings F db wallet =
      (releasedAmounts (fetchBuilderAgreements db wallet)).foldl (addReleased F) (.finite 0) := rfl
  rw [hfold, hF.foldl_addReleased, zero_add, sum_releasedAmounts]

/-- **The earnings of a wallet are the sum of what it is credited with.** -/
theorem earnings_eq (hF : ExactAmounts F) (wallet : String) :
    earnings F db wallet = .finite ((credits F db wallet).map Credit.value).sum := by
  have hcredits : ∀ agreements : List Agreement,
      ((agreements.flatMap (agreementCredits F)).map Credit.value).sum =
        (agreements.map (creditSum F)).sum := by
    intro agreements
    induction agreements with
    | nil => rfl
    | cons a agreements ih =>
        rw [List.flatMap_cons, List.map_append, List.sum_append, ih]
        rfl
  rw [earnings_eq_sum hF, credits, hcredits]

end Sums

/-! ## What is counted once -/

section Once

variable {F : FloatArithmetic} {db : AgreementDb}

theorem agreementId_of_mem {a : Agreement} {credit : Credit} (h : credit ∈ agreementCredits F a) :
    credit.agreementId = a.id := by
  obtain ⟨⟨m, index⟩, -, hcredit⟩ := List.mem_filterMap.mp h
  dsimp only at hcredit
  split at hcredit
  · obtain ⟨q, -, rfl⟩ := Option.map_eq_some_iff.mp hcredit
    rfl
  · cases hcredit

/-- The credits of an agreement are those of different milestones. -/
theorem nodup_agreementCredits (a : Agreement) : (agreementCredits F a).Nodup := by
  have hindices : ((agreementCredits F a).map Credit.index).Sublist
      (a.milestones.zipIdx.map Prod.snd) := by
    unfold agreementCredits
    generalize a.milestones.zipIdx = entries
    induction entries with
    | nil => exact List.Sublist.refl _
    | cons entry entries ih =>
        obtain ⟨m, index⟩ := entry
        rw [List.filterMap_cons]
        split
        · exact ih.cons _
        · rename_i credit hcredit
          have hindex : credit.index = index := by
            dsimp only at hcredit
            split at hcredit
            · obtain ⟨q, -, rfl⟩ := Option.map_eq_some_iff.mp hcredit
              rfl
            · cases hcredit
          rw [List.map_cons, List.map_cons, hindex]
          exact ih.cons_cons _
  have hnodup : (a.milestones.zipIdx.map Prod.snd).Nodup := by
    rw [List.zipIdx_map_snd]
    exact List.nodup_range'
  exact List.Nodup.of_map _ (hnodup.sublist hindices)

/-- A wallet is credited once, whatever its roles. -/
theorem nodup_credits (hids : (db.agreements.map Agreement.id).Nodup) (wallet : String) :
    (credits F db wallet).Nodup := by
  unfold credits fetchBuilderAgreements
  refine List.nodup_flatMap.mpr ⟨fun a _ => nodup_agreementCredits a, ?_⟩
  refine List.Pairwise.filter _ ((List.pairwise_map.mp hids).imp ?_)
  intro a b hne credit ha hb
  exact hne ((agreementId_of_mem ha).symm.trans (agreementId_of_mem hb))

/-- The amounts that are credited to different wallets belong to different agreements exactly when
each agreement with a credit has one wallet at most. -/
theorem single_iff (hids : (db.agreements.map Agreement.id).Nodup) :
    (∀ wallet wallet' credit, credit ∈ credits F db wallet → credit ∈ credits F db wallet' →
      wallet = wallet') ↔ OneEarner F db := by
  have hcredits : ∀ {wallet : String} {credit : Credit}, credit ∈ credits F db wallet ↔
      ∃ a ∈ db.agreements, takesPart db wallet a = true ∧ credit ∈ agreementCredits F a := by
    intro wallet credit
    rw [credits, fetchBuilderAgreements_eq, List.mem_flatMap]
    simp only [List.mem_filter, and_assoc]
  constructor
  · intro hsingle a ha hsome p hp p' hp' hid hid'
    obtain ⟨credit, hcredit⟩ := List.exists_mem_of_ne_nil _ hsome
    have hmem : ∀ p ∈ db.participants, p.agreementId = a.id →
        credit ∈ credits F db p.walletAddress := fun p hp hid =>
      hcredits.mpr ⟨a, ha, takesPart_iff.mpr ⟨p, hp, hid, rfl⟩, hcredit⟩
    exact hsingle _ _ credit (hmem p hp hid) (hmem p' hp' hid')
  · intro hone wallet wallet' credit hcredit hcredit'
    obtain ⟨a, ha, htakes, hmem⟩ := hcredits.mp hcredit
    obtain ⟨a', ha', htakes', hmem'⟩ := hcredits.mp hcredit'
    -- the credit names its agreement
    have hid : a.id = a'.id := (agreementId_of_mem hmem).symm.trans (agreementId_of_mem hmem')
    obtain rfl : a = a' := List.inj_on_of_nodup_map hids ha ha' hid
    obtain ⟨p, hp, hpid, rfl⟩ := takesPart_iff.mp htakes
    obtain ⟨p', hp', hpid', rfl⟩ := takesPart_iff.mp htakes'
    exact hone a ha (List.ne_nil_of_mem hmem) p hp p' hp' hpid hpid'

theorem earningsTotal_eq (hF : ExactAmounts F) :
    earningsTotal F db = .finite (((participantWallets db).map fun wallet =>
      ((db.agreements.filter (takesPart db wallet)).map (creditSum F)).sum).sum) := by
  have hearnings : (participantWallets db).map (earnings F db) =
      ((participantWallets db).map fun wallet =>
        ((db.agreements.filter (takesPart db wallet)).map (creditSum F)).sum).map Number.finite := by
    rw [List.map_map]
    refine List.map_congr_left fun wallet _ => ?_
    rw [earnings_eq_sum hF, fetchBuilderAgreements_eq]
    rfl
  have hzero : (0 : Number) = .finite 0 := rfl
  rw [earningsTotal, hearnings, hzero, hF.foldl_add, zero_add]

theorem releasedTotal_eq (hF : ExactAmounts F) :
    releasedTotal F db = .finite (db.agreements.map (creditSum F)).sum := by
  have hzero : (0 : Number) = .finite 0 := rfl
  rw [releasedTotal, hzero, hF.foldl_addReleased, zero_add, sum_releasedAmounts]

/-- Where each agreement has one earner at most, the wallets earn what is released except for what is
unclaimed. -/
theorem OneEarner.sum_eq (h : OneEarner F db) :
    ((participantWallets db).map fun wallet =>
        ((db.agreements.filter (takesPart db wallet)).map (creditSum F)).sum).sum +
      unclaimedSum F db = (db.agreements.map (creditSum F)).sum := by
  have hone : ∀ a ∈ db.agreements, creditSum F a ≠ 0 → ∀ wallet ∈ participantWallets db,
      ∀ wallet' ∈ participantWallets db, takesPart db wallet a = true →
        takesPart db wallet' a = true → wallet = wallet' := by
    intro a ha hsum wallet _ wallet' _ htakes htakes'
    have hsome : agreementCredits F a ≠ [] := by
      intro hnone
      exact hsum (by rw [creditSum, hnone]; rfl)
    obtain ⟨p, hp, hpid, rfl⟩ := takesPart_iff.mp htakes
    obtain ⟨p', hp', hpid', rfl⟩ := takesPart_iff.mp htakes'
    exact h a ha hsome p hp p' hp' hpid hpid'
  have hnodup : (participantWallets db).Nodup := List.nodup_dedup _
  rw [Incidence.sum_sum_filter_of_unique hnodup hone, unclaimedSum,
    Incidence.sum_filter_add_sum_filter_not]

/-- **Earnings, counted once.** In exact arithmetic, the wallets earn each released amount once, and
no more than is released, exactly when each agreement with a credit has one wallet at most and
what is unclaimed is no negative sum. -/
theorem counted_once_iff (hF : ExactAmounts F) (hids : (db.agreements.map Agreement.id).Nodup) :
    CountedOnce F db ↔ OneEarner F db ∧ 0 ≤ unclaimedSum F db := by
  have hbounded : (earningsTotal F db).le (releasedTotal F db) = true ↔
      ((participantWallets db).map fun wallet =>
        ((db.agreements.filter (takesPart db wallet)).map (creditSum F)).sum).sum ≤
          (db.agreements.map (creditSum F)).sum := by
    rw [earningsTotal_eq hF, releasedTotal_eq hF, Number.le_finite, decide_eq_true_eq]
  constructor
  · intro h
    have hone : OneEarner F db := (single_iff hids).mp h.single
    have hle := hbounded.mp h.bounded
    rw [← hone.sum_eq] at hle
    exact ⟨hone, nonneg_of_le_add_right hle⟩
  · rintro ⟨hone, hunclaimed⟩
    refine ⟨hbounded.mpr ?_, (single_iff hids).mpr hone, nodup_credits hids⟩
    rw [← hone.sum_eq]
    exact le_add_of_nonneg_right hunclaimed

end Once

/-! ## Two stores -/

/-- A store in which a milestone over 4 is released, with these participants. -/
def releasedStore (participants : List Participant) : AgreementDb :=
  { storeWith (fun _ => none)
      [{ id := "i", contractId := none, title := "Site", description := none, amount := "4",
         asset := none, status := some "funded", agreementType := none,
         milestones := [⟨.string "Work", "4", .released, none, none, none⟩], metadata := .null,
         createdBy := "P", fundedAt := none, completedAt := none, createdAt := 0, updatedAt := 0 }]
      [] with participants }

/-- The theorem for a wallet with two roles. -/
theorem counted_once_two_roles :
    let db := releasedStore [⟨"i", "E", "payee"⟩, ⟨"i", "E", "arbiter"⟩]
    earnings decimalArithmetic db "E" = .finite 4 ∧ CountedOnce decimalArithmetic db := by
  refine ⟨by decide +kernel, (counted_once_iff exactAmounts_decimal (by decide)).mpr ⟨?_, ?_⟩⟩
  · unfold OneEarner
    decide +kernel
  · decide +kernel

/-- Payer and payee both earn what the one has paid the other. -/
theorem counted_twice :
    let db := releasedStore [⟨"i", "P", "payer"⟩, ⟨"i", "E", "payee"⟩]
    earnings decimalArithmetic db "P" = .finite 4 ∧ earnings decimalArithmetic db "E" = .finite 4 ∧
      earningsTotal decimalArithmetic db = .finite 8 ∧
      releasedTotal decimalArithmetic db = .finite 4 ∧ ¬CountedOnce decimalArithmetic db := by
  intro db
  have hearned : earningsTotal decimalArithmetic db = .finite 8 := by decide +kernel
  have hreleased : releasedTotal decimalArithmetic db = .finite 4 := by decide +kernel
  refine ⟨by decide +kernel, by decide +kernel, hearned, hreleased, fun h => ?_⟩
  have hbounded := h.bounded
  rw [hearned, hreleased] at hbounded
  exact absurd hbounded (by decide +kernel)

end ThalosBackend.Profiles
