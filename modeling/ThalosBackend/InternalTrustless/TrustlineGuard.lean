import Mathlib.Data.List.DropRight
import ThalosBackend.Disputes.DistributionConservation
import ThalosBackend.InternalTrustless.ResolutionSafety

/-!
# Who can receive a resolution

`internal-trustless/trustline.guard.ts`. Before a resolution is relayed, Horizon is asked for the account
of everybody it pays. The accounts are asked for at once, the answers come in any order, and the first
one that cannot be used refuses the resolution, as one that nobody gave would have.

So a resolution goes through exactly when everything else lets it through and everybody it pays holds a
balance line of the issuer, on the network that the escrows are on
(`resolves_iff_recipients_can_receive`). One that is refused names exactly those who do not, or fails
with the check of somebody (`refusal_names_who_cannot_receive`).
-/

set_option autoImplicit false

namespace ThalosBackend.InternalTrustless

open Js (Value trim)
open Disputes (Distribution PercentageAllocation)

/-! ## Horizon -/

/-- What `fetch` comes back with. -/
inductive HorizonReply where
  /-- It throws, after ten seconds at the latest. -/
  | unreachable
  /-- A status, and a body, which may be no JSON. -/
  | answered (status : ℕ) (body : Option Value)

/-- What is answered to each request, and in which order the answers to several requests come. -/
structure Horizon where
  reply : (url : String) → HorizonReply
  arrival : List String → List String
  arrival_perm : ∀ addresses, (arrival addresses).Perm addresses

/-- `horizonUrl()`. -/
def horizonUrl (env : EscrowEnv) : String :=
  if isMainnet env then "https://horizon.stellar.org" else "https://horizon-testnet.stellar.org"

/-- Where the account of an address is asked for. -/
def accountUrl (env : EscrowEnv) (address : String) : String :=
  horizonUrl env ++ "/accounts/" ++ address

/-! ## The guard -/

/-- `usdcIssuer(asset)`. -/
def usdcIssuer (env : EscrowEnv) (asset : Option EscrowAsset) : String :=
  envOr ((asset.bind EscrowAsset.address).map trim) (getTrustlineAddress env)

/-- `assetName(asset)`. -/
def assetName (asset : Option EscrowAsset) : String :=
  envOr ((asset.bind EscrowAsset.symbol).map trim) "USDC"

inductive TrustlineState where
  | held
  | missing
  | noAccount
  deriving DecidableEq

def TrustlineState.text : TrustlineState → String
  | held => "held"
  | missing => "missing"
  | noAccount => "no-account"

/-- `balance.asset_issuer === issuer`. -/
def isIssuedBy (issuer : String) (balance : Value) : Bool :=
  (balance.field "asset_issuer").text? = some issuer

/-- `balances.some((balance) => balance.asset_issuer === issuer)`; reading a field of `null` throws. -/
def someIssuedBy (issuer : String) : List Value → Except HttpException Bool
  | [] => .ok false
  | balance :: rest =>
    if balance.isNullish then .error .internal
    else if isIssuedBy issuer balance then .ok true
    else someIssuedBy issuer rest

/-- What the account says about the issuer. What is neither missing nor a list has no `some`. -/
def trustlineOf (issuer : String) (account : Value) : Except HttpException TrustlineState :=
  if account.isNullish then .error .internal
  else if (account.field "balances").isNullish then .ok .missing
  else match account.field "balances" with
    | .array balances =>
      (someIssuedBy issuer balances).map fun holds => if holds then .held else .missing
    | _ => .error .internal

/-- `readTrustline(address, issuer)`. -/
def readTrustline (env : EscrowEnv) (horizon : Horizon) (issuer address : String) :
    Except HttpException TrustlineState :=
  match horizon.reply (accountUrl env address) with
  | .unreachable => .error (.serviceUnavailable
      "Could not reach Stellar Horizon to check the recipients. Try again in a moment.")
  | .answered status body =>
    if status = 404 then .ok .noAccount
    else if !(200 ≤ status && status ≤ 299) then
      .error (.serviceUnavailable ("Stellar Horizon answered " ++ toString status ++
        " while checking " ++ address ++ ". Try again in a moment."))
    else match body with
      | none => .error .internal
      | some account => trustlineOf issuer account

/-- `TrustlineProblem`. -/
structure TrustlineProblem where
  address : String
  reason : TrustlineState
  deriving DecidableEq

def TrustlineProblem.value (problem : TrustlineProblem) : Value :=
  .record [("address", .string problem.address), ("reason", .string problem.reason.text)]

/-- `[...new Set(addresses.map((a) => a.trim()).filter(Boolean))]`. -/
def uniqueRecipients (addresses : List String) : List String :=
  ((addresses.map trim).filter (· ≠ "")).eraseDups

/-- What is found out about a recipient. -/
def checkRecipient (env : EscrowEnv) (horizon : Horizon) (issuer address : String) :
    Except HttpException TrustlineProblem :=
  (readTrustline env horizon issuer address).map fun reason => ⟨address, reason⟩

/-- The refusal of a resolution that would fail on submit. -/
def trustlineMissing (symbol : String) (problems : List TrustlineProblem) : HttpException :=
  .badRequestBody (.record [
    ("message", .string (if problems.length = 1 then
      "One recipient cannot receive " ++ symbol ++ " yet, so this resolution would fail on submit."
      else "Some recipients cannot receive " ++ symbol ++
        " yet, so this resolution would fail on submit.")),
    ("code", .string "TRUSTLINE_MISSING"),
    ("problems", .array (problems.map TrustlineProblem.value))])

/-- `assertRecipientsCanReceive(addresses, asset)`. -/
def assertRecipientsCanReceive (env : EscrowEnv) (horizon : Horizon) (addresses : List String)
    (asset : Option EscrowAsset) : Except HttpException Unit := do
  let unique := uniqueRecipients addresses
  let issuer := usdcIssuer env asset
  -- `Promise.all` throws the first failure that arrives, and keeps the order of the addresses
  let _ ← (horizon.arrival unique).mapM (checkRecipient env horizon issuer)
  let states ← unique.mapM (checkRecipient env horizon issuer)
  let problems := states.filter (·.reason ≠ .held)
  if problems.length = 0 then .ok ()
  else .error (trustlineMissing (assetName asset) problems)

/-! ## What a check has found -/

/-- The account of the address has a balance line of the issuer, and nothing before it that cannot be
read. -/
def CanReceive (env : EscrowEnv) (horizon : Horizon) (issuer address : String) : Prop :=
  ∃ status account before balance after,
    horizon.reply (accountUrl env address) = .answered status (some account) ∧
      200 ≤ status ∧ status ≤ 299 ∧
      account.field "balances" = .array (before ++ balance :: after) ∧
      isIssuedBy issuer balance = true ∧ ∀ other ∈ before, other.isNullish = false

section Checks

variable {env : EscrowEnv} {horizon : Horizon} {issuer address : String}

theorem isNullish_of_isIssuedBy {balance : Value} (h : isIssuedBy issuer balance = true) :
    balance.isNullish = false := by
  cases balance with
  | undefined => cases h
  | null => cases h
  | _ => rfl

theorem someIssuedBy_eq_true {balances : List Value} :
    someIssuedBy issuer balances = .ok true ↔ ∃ before balance after,
      balances = before ++ balance :: after ∧ isIssuedBy issuer balance = true ∧
        ∀ other ∈ before, other.isNullish = false := by
  induction balances with
  | nil =>
      constructor
      · intro h
        cases h
      · rintro ⟨before, balance, after, h, -⟩
        exact absurd h.symm (List.append_ne_nil_of_right_ne_nil before (List.cons_ne_nil _ _))
  | cons first rest ih =>
      rw [someIssuedBy]
      split
      · rename_i hnullish
        -- reading the issuer of such an entry throws, whatever follows it
        constructor
        · intro h
          cases h
        · rintro ⟨before, balance, after, heq, hissued, hbefore⟩
          cases before with
          | nil =>
              cases heq
              rw [isNullish_of_isIssuedBy hissued] at hnullish
              cases hnullish
          | cons other before =>
              cases heq
              rw [hbefore first List.mem_cons_self] at hnullish
              cases hnullish
      · rename_i hnullish
        split
        · rename_i hissued
          exact iff_of_true rfl ⟨[], first, rest, rfl, hissued, List.forall_mem_nil _⟩
        · rename_i hother
          rw [ih]
          constructor
          · rintro ⟨before, balance, after, rfl, hissued, hbefore⟩
            refine ⟨first :: before, balance, after, rfl, hissued, ?_⟩
            exact List.forall_mem_cons.mpr ⟨by simpa using hnullish, hbefore⟩
          · rintro ⟨before, balance, after, heq, hissued, hbefore⟩
            cases before with
            | nil =>
                cases heq
                exact absurd hissued hother
            | cons other before =>
                cases heq
                exact ⟨before, balance, after, rfl, hissued, (List.forall_mem_cons.mp hbefore).2⟩

theorem trustlineOf_eq_held {account : Value} :
    trustlineOf issuer account = .ok .held ↔ ∃ before balance after,
      account.field "balances" = .array (before ++ balance :: after) ∧
        isIssuedBy issuer balance = true ∧ ∀ other ∈ before, other.isNullish = false := by
  constructor
  · intro h
    rw [trustlineOf] at h
    split at h
    · cases h
    · split at h
      · cases h
      · split at h
        · rename_i balances hbalances
          cases hsome : someIssuedBy issuer balances with
          | error e =>
              rw [hsome] at h
              cases h
          | ok holds =>
              cases holds with
              | false =>
                  rw [hsome] at h
                  cases h
              | true =>
                  obtain ⟨before, balance, after, rfl, hissued⟩ := someIssuedBy_eq_true.mp hsome
                  exact ⟨before, balance, after, hbalances, hissued⟩
        · cases h
  · rintro ⟨before, balance, after, hbalances, hissued⟩
    have hsome : someIssuedBy issuer (before ++ balance :: after) = .ok true :=
      someIssuedBy_eq_true.mpr ⟨before, balance, after, rfl, hissued⟩
    -- an account without fields has no list of balances
    have haccount : account.isNullish = false := by
      cases account with
      | undefined => cases hbalances
      | null => cases hbalances
      | _ => rfl
    rw [trustlineOf, haccount, hbalances]
    simp only [Value.isNullish, Bool.false_eq_true, if_false, hsome]
    rfl

/-- A trustline is found exactly where the account has one. -/
theorem readTrustline_eq_held :
    readTrustline env horizon issuer address = .ok .held ↔
      CanReceive env horizon issuer address := by
  constructor
  · intro h
    rw [readTrustline] at h
    split at h
    · cases h
    · rename_i status body hreply
      split at h
      · cases h
      · split at h
        · cases h
        · rename_i hstatus
          split at h
          · cases h
          · rename_i account
            obtain ⟨before, balance, after, hbalances, hissued, hbefore⟩ :=
              trustlineOf_eq_held.mp h
            have hrange : 200 ≤ status ∧ status ≤ 299 := by simpa using hstatus
            exact ⟨status, account, before, balance, after, hreply, hrange.1, hrange.2, hbalances,
              hissued, hbefore⟩
  · rintro ⟨status, account, before, balance, after, hreply, hlow, hhigh, hbalances, hissued⟩
    have hfound : status ≠ 404 := by omega
    have hok : (!(200 ≤ status && status ≤ 299)) = false := by simp [hlow, hhigh]
    rw [readTrustline, hreply]
    simp only [hfound, hok, if_false, Bool.false_eq_true]
    exact trustlineOf_eq_held.mpr ⟨before, balance, after, hbalances, hissued⟩

end Checks

/-! ## Several checks -/

section Guard

variable {env : EscrowEnv} {horizon : Horizon} {issuer : String} {addresses : List String}
  {asset : Option EscrowAsset}

theorem mem_uniqueRecipients {address : String} : address ∈ uniqueRecipients addresses ↔
    address ≠ "" ∧ ∃ given ∈ addresses, trim given = address := by
  rw [uniqueRecipients, List.mem_eraseDups, List.mem_filter, List.mem_map, decide_eq_true_eq]
  exact and_comm

theorem checkRecipient_eq_ok {address : String} {found : TrustlineProblem} :
    checkRecipient env horizon issuer address = .ok found ↔
      found.address = address ∧ readTrustline env horizon issuer address = .ok found.reason := by
  rw [checkRecipient]
  constructor
  · intro h
    cases hread : readTrustline env horizon issuer address with
    | error e =>
        rw [hread] at h
        cases h
    | ok reason =>
        rw [hread] at h
        cases h
        exact ⟨rfl, rfl⟩
  · rintro ⟨rfl, hread⟩
    rw [hread]
    rfl

/-- Checks that have all ended have found out something about each address, in their order. -/
theorem states_of_checks {states : List TrustlineProblem}
    (h : addresses.mapM (checkRecipient env horizon issuer) = .ok states) :
    states.map TrustlineProblem.address = addresses ∧
      ∀ found ∈ states, readTrustline env horizon issuer found.address = .ok found.reason := by
  have hchecks := forall₂_of_mapM_eq_ok h
  clear h
  induction hchecks with
  | nil => exact ⟨rfl, List.forall_mem_nil _⟩
  | cons hcheck _ ih =>
      obtain ⟨rfl, hread⟩ := checkRecipient_eq_ok.mp hcheck
      refine ⟨?_, List.forall_mem_cons.mpr ⟨hread, ih.2⟩⟩
      rw [List.map_cons, ih.1]

/-- The guard lets pass exactly those lists of which everybody can receive the asset. -/
theorem assertRecipientsCanReceive_eq_ok :
    assertRecipientsCanReceive env horizon addresses asset = .ok () ↔
      ∀ address ∈ uniqueRecipients addresses,
        CanReceive env horizon (usdcIssuer env asset) address := by
  constructor
  · intro h address hmem
    obtain ⟨_, -, h⟩ := bind_eq_ok.mp h
    obtain ⟨states, hstates, h⟩ := bind_eq_ok.mp h
    obtain ⟨haddresses, hreads⟩ := states_of_checks hstates
    rw [← haddresses] at hmem
    obtain ⟨found, hfound, rfl⟩ := List.mem_map.mp hmem
    have hread := hreads found hfound
    change (if (states.filter (·.reason ≠ .held)).length = 0 then _ else _) = _ at h
    split at h
    · rename_i hnone
      have hheld : found.reason = .held := by
        have hfilter := List.filter_eq_nil_iff.mp (List.length_eq_zero_iff.mp hnone) found hfound
        simpa using hfilter
      rw [hheld] at hread
      exact readTrustline_eq_held.mp hread
    · cases h
  · intro hall
    -- every read finds the line held, so nothing is left to report
    have hchecks : ∀ address ∈ uniqueRecipients addresses,
        checkRecipient env horizon (usdcIssuer env asset) address = .ok ⟨address, .held⟩ :=
      fun address hmem => checkRecipient_eq_ok.mpr ⟨rfl, readTrustline_eq_held.mpr (hall address hmem)⟩
    have harrived : ∀ address ∈ horizon.arrival (uniqueRecipients addresses),
        checkRecipient env horizon (usdcIssuer env asset) address = .ok ⟨address, .held⟩ :=
      fun address hmem => hchecks address ((horizon.arrival_perm _).mem_iff.mp hmem)
    have hnone : ((uniqueRecipients addresses).map fun address =>
        TrustlineProblem.mk address .held).filter (·.reason ≠ .held) = [] := by
      rw [List.filter_eq_nil_iff]
      intro found hfound
      obtain ⟨address, -, rfl⟩ := List.mem_map.mp hfound
      simp
    rw [assertRecipientsCanReceive, mapM_of_forall_ok harrived, mapM_of_forall_ok hchecks]
    change (if (List.filter _ _).length = 0 then _ else _) = _
    rw [hnone]
    rfl

/-- **A refusal names who cannot receive.** Either the check of somebody did not end, and its failure is
passed on; or all of them ended, and the refusal lists exactly those who cannot receive the asset, once
each, in the order of the request, with what was found of each. -/
theorem refusal_names_who_cannot_receive {e : HttpException}
    (h : assertRecipientsCanReceive env horizon addresses asset = .error e) :
    (∃ address ∈ uniqueRecipients addresses,
      readTrustline env horizon (usdcIssuer env asset) address = .error e) ∨
    ∃ problems, e = trustlineMissing (assetName asset) problems ∧
      (problems.map TrustlineProblem.address).Sublist (uniqueRecipients addresses) ∧
      (∀ address ∈ uniqueRecipients addresses,
        address ∈ problems.map TrustlineProblem.address ↔
          ¬ CanReceive env horizon (usdcIssuer env asset) address) ∧
      ∀ problem ∈ problems, problem.reason ≠ .held ∧
        readTrustline env horizon (usdcIssuer env asset) problem.address = .ok problem.reason := by
  have hfails : ∀ address e, checkRecipient env horizon (usdcIssuer env asset) address = .error e →
      readTrustline env horizon (usdcIssuer env asset) address = .error e := by
    intro address e hcheck
    rw [checkRecipient] at hcheck
    cases hread : readTrustline env horizon (usdcIssuer env asset) address with
    | error e' =>
        rw [hread] at hcheck
        cases hcheck
        rfl
    | ok reason =>
        rw [hread] at hcheck
        cases hcheck
  rw [assertRecipientsCanReceive] at h
  -- of several failed reads the one that arrives first is answered
  cases harrived : (horizon.arrival (uniqueRecipients addresses)).mapM
      (checkRecipient env horizon (usdcIssuer env asset)) with
  | error e' =>
      rw [harrived] at h
      cases h
      obtain ⟨address, hmem, hcheck⟩ := exists_of_mapM_eq_error harrived
      exact .inl ⟨address, (horizon.arrival_perm _).mem_iff.mp hmem, hfails address e hcheck⟩
  | ok arrived =>
      rw [harrived] at h
      cases hstates : (uniqueRecipients addresses).mapM
          (checkRecipient env horizon (usdcIssuer env asset)) with
      | error e' =>
          rw [hstates] at h
          cases h
          obtain ⟨address, hmem, hcheck⟩ := exists_of_mapM_eq_error hstates
          exact .inl ⟨address, hmem, hfails address e hcheck⟩
      | ok states =>
          rw [hstates] at h
          obtain ⟨haddresses, hreads⟩ := states_of_checks hstates
          change (if (states.filter (·.reason ≠ .held)).length = 0 then _ else _) = _ at h
          split at h
          · cases h
          · cases h
            -- no read has failed, so every reason is that of its recipient
            refine .inr ⟨states.filter (·.reason ≠ .held), rfl, ?_, ?_, ?_⟩
            · rw [← haddresses]
              exact List.filter_sublist.map _
            · intro address hmem
              constructor
              · intro hproblem hreceives
                obtain ⟨found, hfound, rfl⟩ := List.mem_map.mp hproblem
                obtain ⟨hfound, hreason⟩ := List.mem_filter.mp hfound
                have hread := hreads found hfound
                rw [readTrustline_eq_held.mpr hreceives] at hread
                cases hheld : found.reason with
                | held => simp [hheld] at hreason
                | missing =>
                    rw [hheld] at hread
                    cases hread
                | noAccount =>
                    rw [hheld] at hread
                    cases hread
              · intro hnot
                rw [← haddresses] at hmem
                obtain ⟨found, hfound, rfl⟩ := List.mem_map.mp hmem
                refine List.mem_map_of_mem (List.mem_filter.mpr ⟨hfound, decide_eq_true ?_⟩)
                intro hheld
                have hread := hreads found hfound
                rw [hheld] at hread
                exact hnot (readTrustline_eq_held.mp hread)
            · intro problem hproblem
              obtain ⟨hfound, hreason⟩ := List.mem_filter.mp hproblem
              exact ⟨of_decide_eq_true hreason, hreads problem hfound⟩

end Guard

/-- Horizon knows the payer, who holds the asset of the test network, and nobody else. -/
def payerOnly : Horizon where
  reply url :=
    if url = accountUrl {} "GPAYER" then .answered 200 (some (.record [("balances", .array [
      .record [("asset_type", .string "native")],
      .record [("asset_code", .string "USDC"), ("asset_issuer", .string usdcIssuerTestnet)]])]))
    else .answered 404 none
  arrival addresses := addresses
  arrival_perm _ := .refl _

/-- The theorem for a payee without an account. -/
theorem refusal_names_who_cannot_receive_payee :
    assertRecipientsCanReceive {} payerOnly ["GPAYER", "GPAYEE"] none =
        .error (trustlineMissing "USDC" [⟨"GPAYEE", .noAccount⟩]) ∧
      ((∃ address ∈ uniqueRecipients ["GPAYER", "GPAYEE"],
        readTrustline {} payerOnly (usdcIssuer {} none) address =
          .error (trustlineMissing "USDC" [⟨"GPAYEE", .noAccount⟩])) ∨
      ∃ problems, trustlineMissing "USDC" [⟨"GPAYEE", .noAccount⟩] =
          trustlineMissing (assetName none) problems ∧
        (problems.map TrustlineProblem.address).Sublist (uniqueRecipients ["GPAYER", "GPAYEE"]) ∧
        (∀ address ∈ uniqueRecipients ["GPAYER", "GPAYEE"],
          address ∈ problems.map TrustlineProblem.address ↔
            ¬ CanReceive {} payerOnly (usdcIssuer {} none) address) ∧
        ∀ problem ∈ problems, problem.reason ≠ .held ∧
          readTrustline {} payerOnly (usdcIssuer {} none) problem.address = .ok problem.reason) :=
  ⟨by decide +kernel, refusal_names_who_cannot_receive (by decide +kernel)⟩

/-! ## Resolutions -/

section Resolutions

variable {env : EscrowEnv} {horizon : Horizon} {relayed : Relayed} {dto : ResolveDisputeDto}
  {toUpperCase : String → String} {distributions : List Distribution}
  {rounded : Js.Number → Js.Number}

/-- Everybody who is paid has an address, with no white space around it. -/
theorem address_buildDistributions {input : Disputes.BuildDistributionsInput}
    (h : Disputes.buildDistributions input rounded = .ok distributions) :
    ∀ d ∈ distributions, trim d.address = d.address ∧ d.address ≠ "" := by
  rw [Disputes.buildDistributions] at h
  split at h
  · cases h
  · rename_i haccepted
    have hgiven : ∀ a ∈ input.allocations, trim a.address ≠ "" := by
      intro a ha hblank
      have hall : Disputes.assertEachAllocation input.allocations = .ok () := by
        rw [Disputes.assertAllocations] at haccepted
        split at haccepted
        · cases haccepted
        · split at haccepted
          · cases haccepted
          · assumption
      have hone := Disputes.assertEachAllocation_ok hall a ha
      rw [Disputes.assertAllocation, if_pos hblank] at hone
      cases hone
    split at h
    · cases h
    · split at h
      · cases h
      · dsimp only at h
        split at h
        · cases h
        · split at h
          · cases h
          · cases h
            intro d hd
            -- a distribution is made of an allocation and its share
            obtain ⟨entry, hentry, rfl⟩ := List.mem_map.mp hd
            have hentry := (List.mem_filter.mp hentry).1
            rw [← List.map_uncurry_zip_eq_zipWith] at hentry
            obtain ⟨⟨a, share⟩, hpair, rfl⟩ := List.mem_map.mp hentry
            exact ⟨Js.trim_trim a.address, hgiven a (List.of_mem_zip hpair).1⟩

theorem mem_recipients_of_buildDistributions {input : Disputes.BuildDistributionsInput}
    (h : Disputes.buildDistributions input rounded = .ok distributions) {address : String} :
    address ∈ uniqueRecipients (distributions.map Distribution.address) ↔
      ∃ d ∈ distributions, d.address = address := by
  rw [mem_uniqueRecipients]
  constructor
  · rintro ⟨-, given, hgiven, htrim⟩
    obtain ⟨d, hd, rfl⟩ := List.mem_map.mp hgiven
    exact ⟨d, hd, (address_buildDistributions h d hd).1 ▸ htrim⟩
  · rintro ⟨d, hd, rfl⟩
    obtain ⟨htrim, hne⟩ := address_buildDistributions h d hd
    exact ⟨hne, d.address, List.mem_map_of_mem hd, htrim⟩

/-- **Resolutions go to those who can receive them.** Whatever Trustless Work and Horizon answer, in
whatever order, and however the amounts are rounded: a resolution is relayed exactly when the escrow can
be read and resolved, its amounts can be split, and everybody it pays has a balance line of the escrow's
issuer. -/
theorem resolves_iff_recipients_can_receive {write : BackstoppedWrite} :
    resolveDispute toUpperCase (assertRecipientsCanReceive env horizon) relayed dto rounded =
        .ok write ↔
      ∃ escrow distributions index, readEscrow dto.contractId relayed = .ok escrow ∧
        assertResolvable toUpperCase escrow dto.type dto.disputeResolver dto.milestoneIndex.text? =
          .ok () ∧
        splitByPercentage dto escrow rounded = .ok distributions ∧
        milestoneText dto.milestoneIndex = .ok index ∧
        (∀ d ∈ distributions, CanReceive env horizon (usdcIssuer env escrow.trustline) d.address) ∧
        write = resolveWrite dto distributions index := by
  have hbuilt : ∀ {escrow distributions}, splitByPercentage dto escrow rounded =
      .ok distributions →
      ∃ total, Disputes.buildDistributions ⟨dto.type, total, dto.allocations⟩ rounded =
        .ok distributions := by
    intro escrow distributions hsplit
    obtain ⟨total, -, hbuild⟩ := bind_eq_ok.mp hsplit
    refine ⟨total, ?_⟩
    cases hresult : Disputes.buildDistributions ⟨dto.type, total, dto.allocations⟩ rounded with
    | error e =>
        rw [hresult] at hbuild
        cases hbuild
    | ok ds =>
        rw [hresult] at hbuild
        cases hbuild
        rfl
  constructor
  · intro h
    obtain ⟨escrow, hread, h⟩ := bind_eq_ok.mp h
    obtain ⟨⟨⟩, hcheck, h⟩ := bind_eq_ok.mp h
    obtain ⟨distributions, hsplit, h⟩ := bind_eq_ok.mp h
    obtain ⟨⟨⟩, hguard, h⟩ := bind_eq_ok.mp h
    obtain ⟨index, hindex, h⟩ := bind_eq_ok.mp h
    cases h
    obtain ⟨total, hbuild⟩ := hbuilt hsplit
    refine ⟨escrow, distributions, index, hread, hcheck, hsplit, hindex, fun d hd => ?_, rfl⟩
    apply assertRecipientsCanReceive_eq_ok.mp hguard
    exact (mem_recipients_of_buildDistributions hbuild).mpr ⟨d, hd, rfl⟩
  · rintro ⟨escrow, distributions, index, hread, hcheck, hsplit, hindex, hreceive, rfl⟩
    obtain ⟨total, hbuild⟩ := hbuilt hsplit
    have hguard : assertRecipientsCanReceive env horizon (distributions.map Distribution.address)
        escrow.trustline = .ok () := by
      apply assertRecipientsCanReceive_eq_ok.mpr
      intro address hmem
      obtain ⟨d, hd, rfl⟩ := (mem_recipients_of_buildDistributions hbuild).mp hmem
      exact hreceive d hd
    refine bind_eq_ok.mpr ⟨escrow, hread, bind_eq_ok.mpr ⟨(), hcheck, ?_⟩⟩
    refine bind_eq_ok.mpr ⟨distributions, hsplit, bind_eq_ok.mpr ⟨(), hguard, ?_⟩⟩
    exact bind_eq_ok.mpr ⟨index, hindex, rfl⟩

-- the payee has no account, so the split between the two is refused
example : resolveDispute String.toUpper (assertRecipientsCanReceive {} payerOnly)
    (milestoneReply [("balance", .number 15)]) evenSplit =
      .error (trustlineMissing "USDC" [⟨"GPAYEE", .noAccount⟩]) := by
  decide +kernel

end Resolutions

end ThalosBackend.InternalTrustless
