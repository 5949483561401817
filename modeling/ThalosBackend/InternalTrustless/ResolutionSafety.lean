import ThalosBackend.Disputes.RoundedSplit
import ThalosBackend.InternalTrustless.EscrowsController

/-!
# Safety of resolve-dispute

What a resolution that is relayed pays out, and what the snapshot said about the escrow it is for.
The amounts come from `resolutionTotal` and the state checks from `assertResolvable`; each has its
own lemma on what its success leaves, and `resolveDispute_agrees_iff` puts them together for every
answer Trustless Work can give.

Two snapshots get through that should not: a multi-release escrow of which no positive balance was
read is paid out by its milestone's amount alone, and an escrow that is reported as released is
resolved all the same. On all others the resolution agrees with the snapshot, to the stroop, exactly
when `toStroops` keeps the stroops of what is split, as it does below `2 ^ 28` units. The amounts are
doubles; from `2 ^ 29` units on these no longer tell amounts a stroop apart.
-/

set_option autoImplicit false

namespace ThalosBackend.InternalTrustless

open Js (Number Value)
open Js.Number (nearest nearest_natCast toDouble)
open Disputes (Distribution DistributionError KeepsStroops buildDistributions inStroops inStroops_mono
  inStroops_nearest keepsStroops_iff keepsStroops_of_lt paidStroops paidStroops_eq paidStroops_pos
  stroops_of_nearest)

/-- The double of an amount that Stellar can hold: of a whole number of stroops. -/
def AtMostSevenDecimals (x : Number) : Prop := ∃ k : ℤ, x = .finite (nearest (k / 10 ^ 7))

/-- The amounts of a snapshot have at most seven decimals. -/
structure StellarAmounts (escrow : EscrowSnapshot) : Prop where
  balance : AtMostSevenDecimals escrow.balance
  milestones : ∀ milestone ∈ escrow.milestones, ∀ amount ∈ milestone.amount,
    AtMostSevenDecimals amount

section Agreement

variable (toUpperCase : String → String) (escrow : EscrowSnapshot) (dto : ResolveDisputeDto)
  (distributions : List Distribution)

/-- The milestone a request names. -/
def milestoneOf : Option EscrowMilestoneSnapshot :=
  milestoneAt escrow.milestones (indexNumber dto.milestoneIndex.text?)

/-- The resolution agrees with the snapshot, to the stroop. A single-release escrow carries its dispute
itself, a multi-release escrow on the milestone; flags and roles that the snapshot does not have say
nothing. -/
structure ResolutionAgrees : Prop where
  within_balance : paidStroops distributions ≤ inStroops escrow.balance
  whole_balance : escrow.type = .singleRelease →
    paidStroops distributions = inStroops escrow.balance
  within_milestone : escrow.type = .multiRelease →
    ∃ milestone ∈ milestoneOf escrow dto, ∃ amount ∈ milestone.amount,
      paidStroops distributions ≤ inStroops amount
  not_settled : escrow.flags.released = false ∧ escrow.flags.resolved = false
  disputed : escrow.type = .singleRelease → escrow.flags.disputed = true
  milestone_disputed : escrow.type = .multiRelease → ∀ milestone ∈ milestoneOf escrow dto,
    ∀ flags ∈ milestone.flags,
      flags.disputed = true ∧ flags.released = false ∧ flags.resolved = false
  resolver : ∀ expected ∈ escrow.roles.disputeResolver,
    toUpperCase expected = toUpperCase (Js.trim dto.disputeResolver)

/-- The snapshot does not report the escrow as released and, on multi-release, a positive balance was
read. -/
def SaysThereAreFunds : Prop :=
  escrow.flags.released = false ∧
    (escrow.type = .singleRelease ∨ Number.lt 0 escrow.balance = true)

/-- What is there to split: the balance, and on multi-release no more than the milestone has. -/
def toSplit : Number :=
  if escrow.type = .singleRelease then escrow.balance
  else match (milestoneOf escrow dto).bind EscrowMilestoneSnapshot.amount with
    | some amount => amount.min escrow.balance
    | none => escrow.balance

end Agreement

variable {toUpperCase : String → String}
  {assertRecipientsCanReceive : List String → Option EscrowAsset → Except HttpException Unit}
  {escrow : EscrowSnapshot} {rounded : Number → Number}

/-! ## What each part leaves -/

/-- A resolution that is relayed has passed every check, and its request carries the amounts that
`buildDistributions` made of the total. -/
theorem resolveDispute_ok {relayed : Relayed} {dto : ResolveDisputeDto} {write : BackstoppedWrite}
    (h : resolveDispute toUpperCase assertRecipientsCanReceive relayed dto rounded = .ok write) :
    ∃ escrow total distributions index, readEscrow dto.contractId relayed = .ok escrow ∧
      assertResolvable toUpperCase escrow dto.type dto.disputeResolver dto.milestoneIndex.text? =
        .ok () ∧
      resolutionTotal escrow dto.type dto.milestoneIndex.text? = .ok total ∧
      buildDistributions ⟨dto.type, total, dto.allocations⟩ rounded = .ok distributions ∧
      milestoneText dto.milestoneIndex = .ok index ∧
      write = resolveWrite dto distributions index := by
  obtain ⟨escrow, hread, h⟩ := bind_eq_ok.mp h
  obtain ⟨⟨⟩, hcheck, h⟩ := bind_eq_ok.mp h
  obtain ⟨distributions, hsplit, h⟩ := bind_eq_ok.mp h
  obtain ⟨⟨⟩, -, h⟩ := bind_eq_ok.mp h
  obtain ⟨index, hindex, h⟩ := bind_eq_ok.mp h
  obtain ⟨total, htotal, hbuild⟩ := bind_eq_ok.mp hsplit
  cases h
  refine ⟨escrow, total, distributions, index, hread, hcheck, htotal, ?_, hindex, rfl⟩
  cases hresult : buildDistributions ⟨dto.type, total, dto.allocations⟩ rounded with
  | error e => rw [hresult] at hbuild; cases hbuild
  | ok ds => rw [hresult] at hbuild; cases hbuild; rfl

/-- What `assertResolvable` has checked when it does not throw. -/
theorem assertResolvable_ok {type : ServiceType} {resolver : String} {index : Option String}
    (h : assertResolvable toUpperCase escrow type resolver index = .ok ()) :
    escrow.type = type ∧
      (∀ expected ∈ escrow.roles.disputeResolver, expected ≠ "" →
        toUpperCase expected = toUpperCase (Js.trim resolver)) ∧
      escrow.flags.resolved = false ∧
      (type = .singleRelease → escrow.flags.disputed = true) ∧
      (type = .multiRelease → ∀ milestone ∈ milestoneAt escrow.milestones (indexNumber index),
        ∀ flags ∈ milestone.flags,
          flags.disputed = true ∧ flags.released = false ∧ flags.resolved = false) := by
  unfold assertResolvable at h
  split at h
  · cases h
  · rename_i htype
    split at h
    · cases h
    · rename_i hresolver
      split at h
      · cases h
      · rename_i hresolved
        refine ⟨not_not.mp htype, ?_, by simpa using hresolved, ?_, ?_⟩
        · intro expected hmem hne
          by_contra hdiffers
          exact hresolver ⟨expected, hmem, hne, hdiffers⟩
        · rintro rfl
          by_contra hdisputed
          simp [hdisputed] at h
        · rintro rfl milestone hmilestone flags hflags
          rw [Option.mem_def] at hmilestone hflags
          simp only [hmilestone, hflags, reduceCtorEq, if_false] at h
          split at h
          · cases h
          · rename_i hsettled
            split at h
            · cases h
            · rename_i hdisputed
              simp only [Bool.or_eq_true, not_or, Bool.not_eq_true] at hsettled
              exact ⟨by simpa using hdisputed, hsettled⟩

/-- On single-release the total is the balance, which is positive. -/
theorem resolutionTotal_single {index : Option String} {total : Number}
    (h : resolutionTotal escrow .singleRelease index = .ok total) :
    total = escrow.balance ∧ total.le 0 = false := by
  unfold resolutionTotal at h
  rw [if_pos rfl] at h
  split at h
  · cases h
  · rename_i hpositive
    cases h
    exact ⟨rfl, by simpa using hpositive⟩

/-- On multi-release the total is the milestone's amount, which is positive, capped by a balance that
is. -/
theorem resolutionTotal_multi {index : Option String} {total : Number}
    (h : resolutionTotal escrow .multiRelease index = .ok total) :
    ∃ milestone ∈ milestoneAt escrow.milestones (indexNumber index), ∃ amount ∈ milestone.amount,
      amount.le 0 = false ∧
        total = amount.min (if Number.lt 0 escrow.balance then escrow.balance else amount) := by
  unfold resolutionTotal at h
  simp only [reduceCtorEq, if_false] at h
  split at h
  · cases h
  · split at h
    · cases h
    · rename_i milestone hmilestone
      split at h
      · cases h
      · rename_i amount hamount
        split at h
        · cases h
        · rename_i hpositive
          cases h
          exact ⟨milestone, hmilestone, amount, hamount, by simpa using hpositive, rfl⟩

theorem mem_of_milestoneAt {milestones : List EscrowMilestoneSnapshot} {index : Number}
    {milestone : EscrowMilestoneSnapshot} (h : milestone ∈ milestoneAt milestones index) :
    milestone ∈ milestones := by
  unfold milestoneAt at h
  split at h
  · split at h
    · exact List.mem_of_getElem? h
    · cases h
  · cases h

/-- Once `assertResolvable` has passed, the agreement is left with the amounts, and with `released`, which
it does not look at. -/
theorem resolutionAgrees_iff {relayed : Relayed} {dto : ResolveDisputeDto}
    {distributions : List Distribution} (hread : readEscrow dto.contractId relayed = .ok escrow)
    (hcheck : assertResolvable toUpperCase escrow dto.type dto.disputeResolver
      dto.milestoneIndex.text? = .ok ()) :
    ResolutionAgrees toUpperCase escrow dto distributions ↔
      escrow.flags.released = false ∧ paidStroops distributions ≤ inStroops escrow.balance ∧
        (escrow.type = .singleRelease → paidStroops distributions = inStroops escrow.balance) ∧
        (escrow.type = .multiRelease → ∃ milestone ∈ milestoneOf escrow dto,
          ∃ amount ∈ milestone.amount, paidStroops distributions ≤ inStroops amount) := by
  obtain ⟨htype, hresolver, hresolved, hdisputed, hmilestone⟩ := assertResolvable_ok hcheck
  rw [← htype] at hdisputed hmilestone
  constructor
  · intro h
    exact ⟨h.not_settled.1, h.within_balance, h.whole_balance, h.within_milestone⟩
  · rintro ⟨hreleased, hwithin, hwhole, hshare⟩
    exact
      { within_balance := hwithin
        whole_balance := hwhole
        within_milestone := hshare
        not_settled := ⟨hreleased, hresolved⟩
        disputed := hdisputed
        milestone_disputed := hmilestone
        resolver := fun expected hmem =>
          hresolver expected hmem (disputeResolver_ne_empty hread expected hmem) }

/-! ## The result -/

section Amounts

variable {kind : Disputes.EscrowKind} {allocations : List Disputes.PercentageAllocation}
  {distributions : List Distribution} {index : Option String} {total : Number}

/-- What is paid out of less than `2 ^ 29` units is not less than there is, and it is no more exactly
when `toStroops` keeps the stroops. -/
theorem paidStroops_iff {t : ℚ} (ht : AtMostSevenDecimals (.finite t)) (hpos : 0 < t)
    (hlt : t < 2 ^ 29) (hshort : allocations.length < 2 ^ 32)
    (hbuild : buildDistributions ⟨kind, .finite t, allocations⟩ toDouble = .ok distributions) :
    inStroops (.finite t) ≤ paidStroops distributions ∧
      (KeepsStroops (.finite t) ↔ paidStroops distributions = inStroops (.finite t)) := by
  obtain ⟨k, hk⟩ := ht
  obtain rfl : t = nearest (k / 10 ^ 7) := Number.finite.inj hk
  obtain ⟨n, rfl, hn⟩ := stroops_of_nearest (by norm_num) hpos hlt
  rw [Int.cast_natCast] at hbuild ⊢
  obtain ⟨T, hT, hle, hpaid⟩ := paidStroops_eq hn hshort hbuild
  rw [keepsStroops_iff _ "total", hT, hpaid, inStroops_nearest hn]
  refine ⟨by exact_mod_cast hle, ?_⟩
  rw [Except.ok.injEq, Number.finite.injEq, Int.cast_natCast, Nat.cast_inj, Nat.cast_inj]

/-- On single-release the balance is what is split. -/
theorem toSplit_single {dto : ResolveDisputeDto} (hkind : escrow.type = .singleRelease) :
    toSplit escrow dto = escrow.balance := by
  rw [toSplit, if_pos hkind]

/-- On multi-release it is the smaller one of the milestone's amount and a positive balance. -/
theorem toSplit_multi {dto : ResolveDisputeDto} {milestone : EscrowMilestoneSnapshot} {amount : Number}
    (hkind : escrow.type = .multiRelease) (hmilestone : milestone ∈ milestoneOf escrow dto)
    (hamount : amount ∈ milestone.amount) : toSplit escrow dto = amount.min escrow.balance := by
  rw [Option.mem_def] at hmilestone hamount
  rw [toSplit, hkind, if_neg (by decide), hmilestone, Option.bind_some, hamount]

/-- The smaller one is one of the two, and to the stroop it is at most the other one. -/
theorem le_inStroops_min_iff {p q : ℚ} {paid : ℤ} :
    paid ≤ inStroops (.finite (min p q)) ↔ paid ≤ inStroops (.finite p) ∧ paid ≤ inStroops (.finite q) := by
  constructor
  · intro h
    exact ⟨h.trans (inStroops_mono (min_le_left p q)), h.trans (inStroops_mono (min_le_right p q))⟩
  · rintro ⟨hp, hq⟩
    rcases min_choice p q with hmin | hmin
    · rwa [hmin]
    · rwa [hmin]

theorem atMostSevenDecimals_min {p q : ℚ} (hp : AtMostSevenDecimals (.finite p))
    (hq : AtMostSevenDecimals (.finite q)) : AtMostSevenDecimals (.finite (min p q)) := by
  rcases min_choice p q with hmin | hmin
  · rwa [hmin]
  · rwa [hmin]

/-- Below `2 ^ 28` units `toStroops` keeps the stroops. -/
theorem keepsStroops_of_atMostSevenDecimals {t : ℚ} (ht : AtMostSevenDecimals (.finite t))
    (hpos : 0 < t) (hlt : t < 2 ^ 28) : KeepsStroops (.finite t) := by
  obtain ⟨k, hk⟩ := ht
  obtain rfl : t = nearest (k / 10 ^ 7) := Number.finite.inj hk
  obtain ⟨n, rfl, hn⟩ := stroops_of_nearest (by norm_num) hpos hlt
  rw [Int.cast_natCast]
  exact keepsStroops_of_lt hn

end Amounts

/-- **Safety of resolve-dispute.** A resolution that goes on to the relay agrees with the snapshot only
when the escrow is not reported as released and, on multi-release, a positive balance was read. Of less
than `2 ^ 29` units, which doubles tell apart to the stroop, it agrees exactly when this holds and
`toStroops` keeps the stroops of what is split. -/
theorem resolveDispute_agrees_iff {relayed : Relayed} {dto : ResolveDisputeDto}
    {write : BackstoppedWrite} (hread : readEscrow dto.contractId relayed = .ok escrow)
    (hamounts : StellarAmounts escrow) (hshort : dto.allocations.length < 2 ^ 32)
    (hwrite : resolveDispute toUpperCase assertRecipientsCanReceive relayed dto toDouble =
      .ok write) :
    ∃ distributions, write.request = buildResolveDisputeRequest dto distributions ∧
      (ResolutionAgrees toUpperCase escrow dto distributions → SaysThereAreFunds escrow) ∧
      ((toSplit escrow dto).lt (.finite (2 ^ 29)) = true →
        (ResolutionAgrees toUpperCase escrow dto distributions ↔
          SaysThereAreFunds escrow ∧ KeepsStroops (toSplit escrow dto))) := by
  obtain ⟨escrow', total, distributions, index, hread', hcheck, htotal, hbuild, -, rfl⟩ :=
    resolveDispute_ok hwrite
  obtain rfl : escrow = escrow' := by simpa [hread] using hread'
  obtain ⟨k, hk⟩ := hamounts.balance
  have hfunds : ResolutionAgrees toUpperCase escrow dto distributions → SaysThereAreFunds escrow := by
    -- something is paid out, so a balance that allows it is positive
    refine fun h => ⟨h.not_settled.1, ?_⟩
    by_contra hnone
    have hle : nearest ((k : ℚ) / 10 ^ 7) ≤ 0 := by simpa [hk] using (not_or.mp hnone).2
    have hpaid := h.within_balance
    rw [hk] at hpaid
    have hzero : inStroops (.finite 0) = 0 := by norm_num [inStroops]
    exact absurd (hpaid.trans (hzero ▸ inStroops_mono hle)) (not_le.mpr (paidStroops_pos hbuild))
  refine ⟨distributions, rfl, hfunds, fun hless => ?_⟩
  have hagrees := @resolutionAgrees_iff _ _ _ _ distributions hread hcheck
  obtain ⟨htype, -⟩ := assertResolvable_ok hcheck
  rw [← htype] at htotal hbuild
  cases hkind : escrow.type with
  | singleRelease =>
      rw [hkind] at htotal hbuild
      obtain ⟨rfl, hpositive⟩ := resolutionTotal_single htotal
      rw [toSplit_single hkind] at hless ⊢
      obtain ⟨-, hkeeps⟩ := paidStroops_iff (hk ▸ hamounts.balance) (by simpa [hk] using hpositive)
        (by simpa [hk] using hless) hshort (hk ▸ hbuild)
      rw [← hk] at hkeeps
      rw [hkeeps]
      constructor
      · intro h
        exact ⟨hfunds h, h.whole_balance hkind⟩
      · rintro ⟨⟨hreleased, -⟩, hpaid⟩
        refine hagrees.mpr ⟨hreleased, hpaid.le, fun _ => hpaid, fun h => ?_⟩
        rw [hkind] at h
        cases h
  | multiRelease =>
      rw [hkind] at htotal hbuild
      obtain ⟨milestone, hnamed, amount, hamount, hamountpos, rfl⟩ := resolutionTotal_multi htotal
      obtain ⟨j, rfl⟩ := hamounts.milestones milestone (mem_of_milestoneAt hnamed) amount hamount
      rw [toSplit_multi hkind hnamed hamount, hk, Number.min_finite] at hless ⊢
      -- with a positive balance the smaller amount is what is split
      have hsplit : Number.lt 0 escrow.balance = true →
          (KeepsStroops (.finite (min (nearest (j / 10 ^ 7)) (nearest (k / 10 ^ 7)))) ↔
            paidStroops distributions ≤ inStroops (.finite (nearest (j / 10 ^ 7))) ∧
              paidStroops distributions ≤ inStroops (.finite (nearest (k / 10 ^ 7)))) := by
        intro hpositive
        rw [if_pos hpositive, hk, Number.min_finite] at hbuild
        rw [hk] at hpositive
        obtain ⟨hle, hkeeps⟩ := paidStroops_iff (atMostSevenDecimals_min ⟨j, rfl⟩ ⟨k, rfl⟩)
          (lt_min (by simpa using hamountpos) (by simpa using hpositive)) (by simpa using hless)
          hshort hbuild
        rw [hkeeps, ← le_inStroops_min_iff]
        exact ⟨fun h => h.le, fun h => le_antisymm h hle⟩
      constructor
      · intro h
        obtain ⟨milestone', hnamed', amount', hamount', hwithin⟩ := h.within_milestone hkind
        obtain rfl : milestone = milestone' := Option.mem_unique hnamed hnamed'
        obtain rfl := Option.mem_unique hamount hamount'
        have hbalance := h.within_balance
        rw [hk] at hbalance
        exact ⟨hfunds h, (hsplit ((hfunds h).2.resolve_left (by rw [hkind]; simp))).mpr
          ⟨hwithin, hbalance⟩⟩
      · rintro ⟨⟨hreleased, hread⟩, hkeeps⟩
        obtain ⟨hwithin, hbalance⟩ := (hsplit (hread.resolve_left (by rw [hkind]; simp))).mp hkeeps
        rw [← hk] at hbalance
        refine hagrees.mpr ⟨hreleased, hbalance, fun h => ?_,
          fun _ => ⟨milestone, hnamed, _, hamount, hwithin⟩⟩
        rw [hkind] at h
        cases h

/-! ## Three answers -/

/-- The answer for a multi-release escrow with one milestone of ten units, and these further fields. -/
def milestoneReply (further : List (String × Value)) : Relayed := .ok
  { status := 200
    data := .array [.object (further ++
      [("contractId", .string "C1"), ("type", .string "multi-release"),
        ("milestones", .array [.object [("amount", .number 10)]])])] }

/-- The snapshot of that escrow with this balance. -/
def milestoneSnapshot (balance : ℕ) : EscrowSnapshot where
  contractId := "C1"
  type := .multiRelease
  amount := 0
  balance := .finite balance
  roles := {}
  flags := ⟨false, false, false⟩
  milestones := [{ amount := some 10 }]
  trustline := none

/-- An even split of the milestone. -/
def evenSplit : ResolveDisputeDto where
  contractId := "C1"
  type := .multiRelease
  milestoneIndex := .string "0"
  disputeResolver := "GRESOLVER"
  allocations := [⟨"GPAYER", 50⟩, ⟨"GPAYEE", 50⟩]
  indexed := fun _ => ⟨"0", rfl⟩

theorem stellarAmounts_milestoneSnapshot {balance : ℕ} (h : balance < 2 ^ 53) :
    StellarAmounts (milestoneSnapshot balance) where
  balance := ⟨balance * 10 ^ 7, by
    have hvalue : ((balance * 10 ^ 7 : ℤ) : ℚ) / 10 ^ 7 = balance := by
      rw [Int.cast_mul, Int.cast_natCast, Int.cast_pow, Int.cast_ofNat,
        mul_div_cancel_right₀ _ (by norm_num)]
    rw [hvalue, nearest_natCast h]
    rfl⟩
  milestones := by
    intro milestone hmilestone amount hamount
    obtain rfl : milestone = { amount := some 10 } := by simpa [milestoneSnapshot] using hmilestone
    obtain rfl : 10 = amount := by simpa using hamount
    exact ⟨10 ^ 8, by decide +kernel⟩

/-- The escrow holds fifteen units: the resolution agrees with the snapshot. -/
theorem resolveDispute_agrees_funded :
    ∃ distributions,
      (resolveWrite evenSplit [⟨"GPAYER", 5⟩, ⟨"GPAYEE", 5⟩] "0").request =
        buildResolveDisputeRequest evenSplit distributions ∧
      ResolutionAgrees String.toUpper (milestoneSnapshot 15) evenSplit distributions := by
  obtain ⟨distributions, hrequest, -, hiff⟩ :=
    @resolveDispute_agrees_iff String.toUpper (fun _ _ => .ok ()) (milestoneSnapshot 15)
      (milestoneReply [("balance", .number 15)]) evenSplit
      (resolveWrite evenSplit [⟨"GPAYER", 5⟩, ⟨"GPAYEE", 5⟩] "0") (by decide +kernel)
      (stellarAmounts_milestoneSnapshot (by norm_num)) (by decide) (by decide +kernel)
  have hfunds : SaysThereAreFunds (milestoneSnapshot 15) := ⟨rfl, .inr (by decide +kernel)⟩
  have hkeeps : KeepsStroops (toSplit (milestoneSnapshot 15) evenSplit) := by
    rw [KeepsStroops]
    decide +kernel
  exact ⟨distributions, hrequest, (hiff (by decide +kernel)).mpr ⟨hfunds, hkeeps⟩⟩

/-- No balance is read: the ten units of the milestone are paid out of an escrow that holds none. -/
theorem resolution_exceeds_unread_balance :
    readEscrow "C1" (milestoneReply []) = .ok (milestoneSnapshot 0) ∧
      StellarAmounts (milestoneSnapshot 0) ∧
      resolveDispute String.toUpper (fun _ _ => .ok ()) (milestoneReply []) evenSplit toDouble =
        .ok (resolveWrite evenSplit [⟨"GPAYER", 5⟩, ⟨"GPAYEE", 5⟩] "0") ∧
      ¬ ResolutionAgrees String.toUpper (milestoneSnapshot 0) evenSplit
        [⟨"GPAYER", 5⟩, ⟨"GPAYEE", 5⟩] := by
  refine ⟨by decide +kernel, stellarAmounts_milestoneSnapshot (by norm_num), by decide +kernel,
    fun h => ?_⟩
  exact absurd h.within_balance (by decide +kernel)

/-- The double of these stroops. -/
def amountOf (stroops : ℕ) : Number := .finite (nearest (stroops / 10 ^ 7))

/-- The answer for a disputed single-release escrow with this balance. -/
def disputedReply (balance : Number) : Relayed := .ok
  { status := 200
    data := .object [("contractId", .string "C1"), ("balance", .number balance),
      ("flags", .object [("disputed", .bool true)])] }

def disputedSnapshot (balance : Number) : EscrowSnapshot where
  contractId := "C1"
  type := .singleRelease
  amount := 0
  balance := balance
  roles := {}
  flags := ⟨true, false, false⟩
  milestones := []
  trustline := none

/-- All of it to the payee. -/
def allToPayee : ResolveDisputeDto where
  contractId := "C1"
  type := .singleRelease
  milestoneIndex := .undefined
  disputeResolver := "GRESOLVER"
  allocations := [⟨"GPAYEE", 100⟩]
  indexed := fun h => by cases h

/-- A balance of 268435456.0000017 units, just above `2 ^ 28`, is paid out with one stroop more. -/
theorem resolution_gains_a_stroop :
    readEscrow "C1" (disputedReply (amountOf 2684354560000017)) =
        .ok (disputedSnapshot (amountOf 2684354560000017)) ∧
      StellarAmounts (disputedSnapshot (amountOf 2684354560000017)) ∧
      SaysThereAreFunds (disputedSnapshot (amountOf 2684354560000017)) ∧
      resolveDispute String.toUpper (fun _ _ => .ok ())
          (disputedReply (amountOf 2684354560000017)) allToPayee toDouble =
        .ok (resolveWrite allToPayee [⟨"GPAYEE", amountOf 2684354560000018⟩] "all") ∧
      ¬ ResolutionAgrees String.toUpper (disputedSnapshot (amountOf 2684354560000017)) allToPayee
        [⟨"GPAYEE", amountOf 2684354560000018⟩] := by
  refine ⟨by decide +kernel, ⟨⟨2684354560000017, rfl⟩, fun _ h => ?_⟩, ⟨rfl, .inl rfl⟩,
    by decide +kernel, fun h => ?_⟩
  · cases h
  · exact absurd h.within_balance (by decide +kernel)

end ThalosBackend.InternalTrustless
