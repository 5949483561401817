import ThalosBackend.Agreements.AgreementSyncService

/-!
# Which escrow an answer is about

Trustless Work is asked for the escrow of one contract and answers with a list or an object. The
funding guard (`escrow-funding.guard.ts`) takes the escrow whose contract id is the one it asked for.
`fetchTrustlessEscrow` falls back on the first item and believes an object unseen, and `readEscrow`
takes the first item of a list. `money_identity_iff` says exactly for which answers the two go on with
the escrow of another contract.
-/

set_option autoImplicit false

namespace ThalosBackend.InternalTrustless

open Js (Value)

/-! ## The funding guard -/

/-- The escrows of an answer: its items, or the answer itself if it says something. -/
def answeredEscrows : Value → List Value
  | .array items => items
  | data => if data.truthy then [data] else []

/-- `assertEscrowFunded(contractId)`, from the answer to `GET helper/get-escrow-by-contract-ids`. -/
def assertEscrowFunded (contractId : String) (relayed : Relayed) : Except HttpException Unit :=
  match relayed with
  | .error e => .error e
  | .ok res =>
    if res.status < 200 ∨ 300 ≤ res.status then
      .error (.serviceUnavailable
        "Could not verify the escrow balance on Trustless Work. Try again in a moment.")
    else match (answeredEscrows res.data).find? fun e => e.field "contractId" = .string contractId with
      | none => .error (.serviceUnavailable ("Escrow " ++ contractId ++
          " is not indexed on Trustless Work yet. Try again in a moment."))
      | some escrow =>
        match (escrow.field "balance").toNumber with
        | none => .error .internal
        | some balance =>
          if !balance.isFinite ∨ balance.le 0 then
            .error (.badRequest
              "This escrow has not been funded yet. Evidence can only be submitted after funding.")
          else .ok ()

/-- The escrow carries the contract id, in one of the two fields Trustless Work has for it. -/
def carries (contractId : String) (escrow : Value) : Bool :=
  escrow.field "id" = .string contractId ∨ escrow.field "contractId" = .string contractId

end ThalosBackend.InternalTrustless

namespace ThalosBackend.Agreements

open Js (Value)
open InternalTrustless

/-! ## The escrow that is fetched -/

/-- The body `fetchTrustlessEscrow` looks into, if it gets to look into one. -/
def Fetch.body (fetch : Fetch) : Option Value :=
  match fetch.direct with
  | .error _ => none
  | .ok direct =>
    if 200 ≤ direct.status ∧ direct.status < 300 ∧ direct.data.truthy then some direct.data
    else match fetch.fallback with
      | .error _ => none
      | .ok fallback =>
        if fallback.status < 400 ∧ fallback.data.truthy then some fallback.data else none

theorem fetchTrustlessEscrow_eq (contractId : String) (fetch : Fetch) :
    fetchTrustlessEscrow contractId fetch = (fetch.body.map (escrowOf contractId)).getD .null := by
  obtain ⟨direct, fallback⟩ := fetch
  unfold fetchTrustlessEscrow Fetch.body
  cases direct with
  | error e => rfl
  | ok direct =>
      dsimp only
      by_cases hserved : 200 ≤ direct.status ∧ direct.status < 300 ∧ direct.data.truthy = true
      · rw [if_pos hserved, if_pos hserved]
        rfl
      · rw [if_neg hserved, if_neg hserved]
        cases fallback with
        | error e => rfl
        | ok fallback =>
            dsimp only
            by_cases hstatus : 400 ≤ fallback.status
            · simp [hstatus, Nat.not_lt.mpr hstatus]
            · cases htruthy : fallback.data.truthy with
              | true => simp [hstatus, Nat.lt_of_not_le hstatus]
              | false => simp

theorem truthy_of_body {fetch : Fetch} {body : Value} (h : fetch.body = some body) :
    body.truthy = true := by
  unfold Fetch.body at h
  split at h
  · cases h
  · split at h
    · rename_i hdirect
      cases h
      exact hdirect.2.2
    · split at h
      · cases h
      · split at h
        · rename_i hfallback
          cases h
          exact hfallback.2
        · cases h

/-- Nothing was found, after a look at every item. -/
theorem findEscrow_eq_none {contractId : String} {items : List Value} :
    findEscrow contractId items = some none ↔
      ∀ e ∈ items, e.isNullish = false ∧ e.field "id" ≠ .string contractId := by
  induction items with
  | nil => simp [findEscrow]
  | cons e rest ih =>
      rw [findEscrow, List.forall_mem_cons, ← ih]
      cases hnullish : e.isNullish with
      | true => simp
      | false =>
          by_cases hid : e.field "id" = .string contractId
          · simp [hid]
          · simp [hid]

theorem findEscrow_eq_some {contractId : String} {items : List Value} {escrow : Value}
    (h : findEscrow contractId items = some (some escrow)) :
    escrow ∈ items ∧ escrow.field "id" = .string contractId := by
  induction items with
  | nil => cases h
  | cons e rest ih =>
      rw [findEscrow] at h
      split at h
      · cases h
      · split at h
        · rename_i hid
          cases h
          exact ⟨List.mem_cons_self, hid⟩
        · exact ⟨List.mem_cons_of_mem _ (ih h).1, (ih h).2⟩

/-- The answer is about the contract: an item has its id (or an item stops the search), or what is
taken instead carries it. -/
def namesOwn (contractId : String) : Value → Bool
  | .array items =>
    items.any (fun e => e.isNullish || e.field "id" = .string contractId) ||
      items.head?.all (carries contractId)
  | data => carries contractId data

/-- The escrow is one of the answer. -/
theorem escrowOf_mem (contractId : String) {data : Value} (hdata : data.truthy = true) :
    escrowOf contractId data = .null ∨ escrowOf contractId data ∈ answeredEscrows data := by
  cases data with
  | array items =>
      simp only [escrowOf, answeredEscrows]
      split
      · exact .inl rfl
      · rename_i escrow hfind
        exact .inr (findEscrow_eq_some hfind).1
      · cases items with
        | nil => exact .inl rfl
        | cons e rest => exact .inr List.mem_cons_self
  | _ => exact .inr (by simp [escrowOf, answeredEscrows, hdata])

/-- What `fetchTrustlessEscrow` makes of a body is the contract's own escrow, or nothing, exactly when
the body is about the contract. -/
theorem escrowOf_own_iff {contractId : String} {data : Value} (hdata : data.truthy = true) :
    (escrowOf contractId data = .null ∨ carries contractId (escrowOf contractId data) = true) ↔
      namesOwn contractId data = true := by
  cases data with
  | array items =>
      simp only [escrowOf, namesOwn]
      split
      · rename_i hstopped
        -- an entry that is null or undefined stops the search
        refine iff_of_true (.inl rfl) (Bool.or_eq_true_iff.mpr (.inl ?_))
        rw [← Bool.not_eq_false]
        intro hnone
        have hall : findEscrow contractId items = some none := by
          refine findEscrow_eq_none.mpr fun e he => ?_
          simpa using List.any_eq_false.mp hnone e he
        rw [hstopped] at hall
        cases hall
      · rename_i escrow hfind
        obtain ⟨hmem, hid⟩ := findEscrow_eq_some hfind
        refine iff_of_true (.inr (by simp [carries, hid])) (Bool.or_eq_true_iff.mpr (.inl ?_))
        exact List.any_eq_true.mpr ⟨escrow, hmem, by simp [hid]⟩
      · rename_i hfind
        have hothers := findEscrow_eq_none.mp hfind
        have hany : items.any (fun e => e.isNullish || e.field "id" = .string contractId) = false := by
          refine List.any_eq_false.mpr fun e he => ?_
          simp [hothers e he]
        rw [hany, Bool.false_or]
        cases items with
        | nil => simp
        | cons e rest =>
            have hnull : e ≠ .null := by
              rintro rfl
              exact absurd (hothers .null List.mem_cons_self).1 (by decide)
            simp [hnull]
  | null => cases hdata
  | _ => simp [escrowOf, namesOwn]

/-! ## The law -/

/-- What the three readers go on with is an escrow of the answer that carries the contract id; if
there is none, they have nothing. -/
structure MoneyIdentity (contractId : String) (fetch : Fetch) (relayed : Relayed) : Prop where
  fetched : fetchTrustlessEscrow contractId fetch = .null ∨ ∃ body, fetch.body = some body ∧
    fetchTrustlessEscrow contractId fetch ∈ answeredEscrows body ∧
      carries contractId (fetchTrustlessEscrow contractId fetch) = true
  validated : (validateContractOnTrustless contractId fetch).valid = true →
    ∃ escrow, (validateContractOnTrustless contractId fetch).escrow = some escrow ∧
      carries contractId escrow = true
  read : ∀ snapshot, readEscrow contractId relayed = .ok snapshot → ∃ reply, relayed = .ok reply ∧
    parseEscrow (firstEscrow reply.data) = some snapshot ∧
      carries contractId (firstEscrow reply.data) = true

/-- `readEscrow` refuses the answer, or its first item carries the contract id. -/
def readsOwn (contractId : String) : Relayed → Bool
  | .error _ => true
  | .ok reply => 400 ≤ reply.status || !(firstEscrow reply.data).isRecord ||
      (optionalString ((firstEscrow reply.data).field "contractId")).isNone ||
      carries contractId (firstEscrow reply.data)

theorem fetched_iff {contractId : String} {fetch : Fetch} :
    (fetchTrustlessEscrow contractId fetch = .null ∨ ∃ body, fetch.body = some body ∧
      fetchTrustlessEscrow contractId fetch ∈ answeredEscrows body ∧
        carries contractId (fetchTrustlessEscrow contractId fetch) = true) ↔
      fetch.body.all (namesOwn contractId) = true := by
  rw [fetchTrustlessEscrow_eq]
  cases hbody : fetch.body with
  | none => simp
  | some body =>
      have htruthy := truthy_of_body hbody
      rw [Option.all_some, ← escrowOf_own_iff htruthy, Option.map_some, Option.getD_some]
      constructor
      · rintro (hnull | ⟨_, -, -, hcarries⟩)
        · exact .inl hnull
        · exact .inr hcarries
      · rintro (hnull | hcarries)
        · exact .inl hnull
        · rcases escrowOf_mem contractId htruthy with hnull | hmem
          · exact .inl hnull
          · exact .inr ⟨body, rfl, hmem, hcarries⟩

theorem parseEscrow_eq_none {raw : Value} : parseEscrow raw = none ↔
    (!raw.isRecord || (optionalString (raw.field "contractId")).isNone) = true := by
  unfold parseEscrow
  cases raw.isRecord with
  | true => simp
  | false => simp

theorem read_iff {contractId : String} {relayed : Relayed} :
    (∀ snapshot, readEscrow contractId relayed = .ok snapshot → ∃ reply, relayed = .ok reply ∧
      parseEscrow (firstEscrow reply.data) = some snapshot ∧
        carries contractId (firstEscrow reply.data) = true) ↔ readsOwn contractId relayed = true := by
  cases relayed with
  | error e => simp [readEscrow, readsOwn]
  | ok reply =>
      simp only [readEscrow, readsOwn, Bool.or_assoc]
      by_cases hfailed : 400 ≤ reply.status
      · -- every branch of a failed answer is an error
        refine iff_of_true (fun snapshot h => ?_) (by simp [hfailed])
        split at h
        · cases h
        · split at h <;> cases h
      · have hserved : ¬ 500 ≤ reply.status := by omega
        rw [if_neg hserved, if_neg hfailed, decide_eq_false hfailed, Bool.false_or, ← Bool.or_assoc]
        cases hparse : parseEscrow (firstEscrow reply.data) with
        | none => simp [parseEscrow_eq_none.mp hparse]
        | some escrow =>
            have hrecord : (!(firstEscrow reply.data).isRecord ||
                (optionalString ((firstEscrow reply.data).field "contractId")).isNone) = false := by
              rw [Bool.eq_false_iff]
              intro hnone
              rw [parseEscrow_eq_none.mpr hnone] at hparse
              cases hparse
            rw [hrecord, Bool.false_or]
            simp [hparse]

/-- **Money identity.** The readers go on with the contract's own escrow, or with none, exactly when
the body that is fetched and the first item that is read are about the contract. -/
theorem money_identity_iff (contractId : String) (fetch : Fetch) (relayed : Relayed) :
    MoneyIdentity contractId fetch relayed ↔
      fetch.body.all (namesOwn contractId) = true ∧ readsOwn contractId relayed = true := by
  constructor
  · intro h
    exact ⟨fetched_iff.mp h.fetched, read_iff.mp h.read⟩
  · rintro ⟨hbody, hread⟩
    have hfetched := fetched_iff.mpr hbody
    refine ⟨hfetched, fun hvalid => ?_, read_iff.mpr hread⟩
    unfold validateContractOnTrustless at hvalid ⊢
    dsimp only at hvalid ⊢
    split at hvalid
    · rename_i htruthy
      rw [if_pos htruthy]
      rcases hfetched with hnull | ⟨_, -, -, hcarries⟩
      · rw [hnull] at htruthy
        cases htruthy
      · exact ⟨_, rfl, hcarries⟩
    · cases hvalid

/-- A search for `C` that finds only the escrow of `D` goes on with the escrow of `D`. -/
theorem not_money_identity : ¬ ∀ contractId fetch relayed, MoneyIdentity contractId fetch relayed := by
  intro h
  let other : Value := .object [("id", .string "D"), ("contractId", .string "D")]
  have hidentity := h "C" ⟨.ok ⟨200, .array [other]⟩, .error .internal⟩ (.ok ⟨200, .array [other]⟩)
  exact absurd (fetched_iff.mp hidentity.fetched) (by decide)

end ThalosBackend.Agreements
