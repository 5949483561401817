import Mathlib.Data.Prod.Lex
import ThalosBackend.Library.SortedByKey
import ThalosBackend.Verification.VerificationService

/-!
# What a summary says

`Summary` says what the compliance status of a subject is, without sorting anything: verified exactly with
a valid record, then at the highest level of these, and otherwise the first of pending, expired, rejected
and unverified that applies.

It settles a response but for the provider and the expiry, which are those of a record that no valid one
surpasses in level and then in update time; there may be several. `aggregate` is such a response
(`aggregate_summary`), and so it does not depend on the order of the rows beyond this choice.
-/

set_option autoImplicit false

namespace ThalosBackend.Verification

open Js (Timestamp)
open SortedByKey (SortsBy)

/-! ## The specification -/

/-- The record is verified, and has not expired. -/
def VerificationRecord.Valid (now : Timestamp) (r : VerificationRecord) : Prop :=
  r.status = .verified ∧ ∀ t ∈ r.expiresAt, now < t

/-- A status that the records of a subject without a valid one speak for. -/
def Applies (now : Timestamp) (records : List VerificationRecord) : VerificationStatus → Prop
  | .pending => ∃ r ∈ records, r.status = .pending
  | .expired => ∃ r ∈ records, r.status = .expired ∨
      (r.status = .verified ∧ ∃ t ∈ r.expiresAt, t ≤ now)
  | .rejected => ∃ r ∈ records, r.status = .rejected
  | .unverified => True
  | .verified => False

/-- The statuses of a subject without a valid record; an earlier one hides the later ones. -/
def unverifiedStatuses : List VerificationStatus := [.pending, .expired, .rejected, .unverified]

/-- The status is the first one that applies. -/
def FirstApplies (now : Timestamp) (records : List VerificationRecord)
    (status : VerificationStatus) : Prop :=
  ∃ before after, unverifiedStatuses = before ++ status :: after ∧ Applies now records status ∧
    ∀ s ∈ before, ¬ Applies now records s

/-- No valid record is on a higher level, or on the same level and newer. -/
structure Best (now : Timestamp) (records : List VerificationRecord) (best : VerificationRecord) :
    Prop where
  mem : best ∈ records
  valid : best.Valid now
  highest : ∀ r ∈ records, r.Valid now → levelRank r.level < levelRank best.level ∨
    (r.level = best.level ∧ r.updatedAt ≤ best.updatedAt)

/-- What the response about a subject says. -/
structure Summary (now : Timestamp) (subjectType : VerificationSubjectType) (subjectId : String)
    (records : List VerificationRecord) (res : VerificationStatusResponse) : Prop where
  subjectType : res.subjectType = subjectType
  subjectId : res.subjectId = subjectId
  isVerified : res.isVerified = true ↔ ∃ r ∈ records, r.Valid now
  verified : (∃ r ∈ records, r.Valid now) → res.status = .verified ∧
    (∃ r ∈ records, r.Valid now ∧ r.level = res.level) ∧
    ∀ r ∈ records, r.Valid now → levelRank r.level ≤ levelRank res.level
  unverified : (¬ ∃ r ∈ records, r.Valid now) →
    res.level = .none ∧ FirstApplies now records res.status
  lastUpdated : ∀ t, res.lastUpdated = some t ↔
    t ∈ records.map VerificationRecord.updatedAt ∧ ∀ r ∈ records, r.updatedAt ≤ t
  /-- The provider and the expiry are those of a best record, if there is one. -/
  chosen : (res.isVerified = false ∧ res.provider = none ∧ res.expiresAt = none) ∨
    ∃ best, Best now records best ∧ res.provider = best.provider ∧ res.expiresAt = best.expiresAt

/-- The responses are the same, but for the choice between records that are on one level and were updated
at one time. -/
def SameUpToTies (records : List VerificationRecord) (res res' : VerificationStatusResponse) : Prop :=
  res' = { res with provider := res'.provider, expiresAt := res'.expiresAt } ∧
    (res' = res ∨ ∃ best ∈ records, ∃ best' ∈ records,
      best.level = best'.level ∧ best.updatedAt = best'.updatedAt ∧
      res.provider = best.provider ∧ res.expiresAt = best.expiresAt ∧
      res'.provider = best'.provider ∧ res'.expiresAt = best'.expiresAt)

/-! ## It settles the response -/

section Unique

variable {now : Timestamp} {subjectType : VerificationSubjectType} {subjectId : String}
  {records records' : List VerificationRecord} {res res' : VerificationStatusResponse}

theorem levelRank_inj {l l' : VerificationLevel} : levelRank l = levelRank l' ↔ l = l' := by
  cases l <;> cases l' <;> decide

theorem Best.tied {a b : VerificationRecord} (ha : Best now records a) (hb : Best now records b) :
    a.level = b.level ∧ a.updatedAt = b.updatedAt := by
  rcases ha.highest b hb.mem hb.valid with hlt | ⟨hlevel, hle⟩
  · rcases hb.highest a ha.mem ha.valid with hlt' | ⟨hlevel, -⟩
    · omega
    · rw [hlevel] at hlt
      omega
  · rcases hb.highest a ha.mem ha.valid with hlt | ⟨-, hle'⟩
    · rw [hlevel] at hlt
      omega
    · exact ⟨hlevel.symm, le_antisymm hle' hle⟩

/-- Only one status is the first that applies. -/
theorem FirstApplies.unique {s s' : VerificationStatus} (h : FirstApplies now records s)
    (h' : FirstApplies now records s') : s = s' := by
  obtain ⟨before, after, hsplit, happlies, hfirst⟩ := h
  obtain ⟨before', after', hsplit', happlies', hfirst'⟩ := h'
  rw [hsplit, List.append_eq_append_iff] at hsplit'
  rcases hsplit' with ⟨middle, rfl, hmiddle⟩ | ⟨middle, rfl, hmiddle⟩
  · cases middle with
    | nil => exact (List.cons.inj hmiddle).1
    | cons x middle =>
        obtain rfl := (List.cons.inj hmiddle).1
        exact absurd happlies (hfirst' s (by simp))
  · cases middle with
    | nil => exact (List.cons.inj hmiddle).1.symm
    | cons x middle =>
        obtain rfl := (List.cons.inj hmiddle).1
        exact absurd happlies' (hfirst s' (by simp))

/-! ### The order of the records is not looked at -/

theorem Applies.perm (hperm : records'.Perm records) (s : VerificationStatus) :
    Applies now records' s ↔ Applies now records s := by
  cases s <;> simp only [Applies, hperm.mem_iff]

theorem FirstApplies.perm (hperm : records'.Perm records) {s : VerificationStatus}
    (h : FirstApplies now records' s) : FirstApplies now records s := by
  obtain ⟨before, after, hsplit, happlies, hfirst⟩ := h
  refine ⟨before, after, hsplit, (Applies.perm hperm s).mp happlies, fun s' hs' hs'' => ?_⟩
  exact hfirst s' hs' ((Applies.perm hperm s').mpr hs'')

theorem Best.perm (hperm : records'.Perm records) {best : VerificationRecord}
    (h : Best now records' best) : Best now records best :=
  ⟨hperm.mem_iff.mp h.mem, h.valid, fun r hr => h.highest r (hperm.mem_iff.mpr hr)⟩

theorem Summary.perm (hperm : records'.Perm records)
    (h : Summary now subjectType subjectId records' res) :
    Summary now subjectType subjectId records res := by
  have hmem (r : VerificationRecord) : r ∈ records' ↔ r ∈ records := hperm.mem_iff
  have htimes (t : Timestamp) : t ∈ records'.map VerificationRecord.updatedAt ↔
      t ∈ records.map VerificationRecord.updatedAt := (hperm.map _).mem_iff
  refine
    { subjectType := h.subjectType
      subjectId := h.subjectId
      isVerified := by simpa only [hmem] using h.isVerified
      verified := by simpa only [hmem] using h.verified
      unverified := fun hnone => ?_
      lastUpdated := by simpa only [hmem, htimes] using h.lastUpdated
      chosen := ?_ }
  · obtain ⟨hlevel, hstatus⟩ := h.unverified (by simpa only [hmem] using hnone)
    exact ⟨hlevel, hstatus.perm hperm⟩
  · rcases h.chosen with hnone | ⟨best, hbest, hprovider⟩
    · exact .inl hnone
    · exact .inr ⟨best, hbest.perm hperm, hprovider⟩

/-! ### Two responses -/

/-- Everything but the provider and the expiry is settled. -/
theorem Summary.settled (h : Summary now subjectType subjectId records res)
    (h' : Summary now subjectType subjectId records res') :
    res'.isVerified = res.isVerified ∧ res'.status = res.status ∧ res'.level = res.level ∧
      res'.lastUpdated = res.lastUpdated := by
  have hverified : res'.isVerified = res.isVerified := by
    rw [Bool.eq_iff_iff, h.isVerified, h'.isVerified]
  have hlast : res'.lastUpdated = res.lastUpdated := by
    ext t
    rw [h.lastUpdated, h'.lastUpdated]
  by_cases hvalid : ∃ r ∈ records, r.Valid now
  · obtain ⟨hstatus, ⟨r, hr, hrvalid, hrlevel⟩, hmax⟩ := h.verified hvalid
    obtain ⟨hstatus', ⟨r', hr', hrvalid', hrlevel'⟩, hmax'⟩ := h'.verified hvalid
    -- each level is reached, and so below the other
    have hle := hmax r' hr' hrvalid'
    have hge := hmax' r hr hrvalid
    rw [hrlevel'] at hle
    rw [hrlevel] at hge
    exact ⟨hverified, hstatus'.trans hstatus.symm, levelRank_inj.mp (le_antisymm hle hge), hlast⟩
  · obtain ⟨hlevel, hfirst⟩ := h.unverified hvalid
    obtain ⟨hlevel', hfirst'⟩ := h'.unverified hvalid
    exact ⟨hverified, hfirst'.unique hfirst, hlevel'.trans hlevel.symm, hlast⟩

/-- Two responses that say what the specification says are the same up to ties. -/
theorem Summary.sameUpToTies (h : Summary now subjectType subjectId records res)
    (h' : Summary now subjectType subjectId records res') : SameUpToTies records res res' := by
  obtain ⟨hverified, hstatus, hlevel, hlast⟩ := h.settled h'
  have hfields : res' = { res with provider := res'.provider, expiresAt := res'.expiresAt } := by
    rw [← hverified, ← hstatus, ← hlevel, ← hlast, h.subjectType, h.subjectId, ← h'.subjectType,
      ← h'.subjectId]
  refine ⟨hfields, ?_⟩
  rcases h.chosen with ⟨hnot, hprovider, hexpires⟩ | ⟨best, hbest, hprovider, hexpires⟩
  · rcases h'.chosen with ⟨-, hprovider', hexpires'⟩ | ⟨best', hbest', -⟩
    · refine .inl ?_
      rw [hfields, hprovider', hexpires', ← hprovider, ← hexpires]
    · have hvalid := h.isVerified.mpr ⟨best', hbest'.mem, hbest'.valid⟩
      rw [hnot] at hvalid
      cases hvalid
  · rcases h'.chosen with ⟨hnot, -⟩ | ⟨best', hbest', hprovider', hexpires'⟩
    · have hvalid := h'.isVerified.mpr ⟨best, hbest.mem, hbest.valid⟩
      rw [hnot] at hvalid
      cases hvalid
    · obtain ⟨hlevels, htimes⟩ := hbest.tied hbest'
      exact .inr ⟨best, hbest.mem, best', hbest'.mem, hlevels, htimes, hprovider, hexpires,
        hprovider', hexpires'⟩

end Unique

/-! ## The code meets it -/

/-- The texts of these times are ordered like the times, and `localeCompare` sees it the same way. -/
structure Collation.InTimeOrder (collation : Collation) (times : List Timestamp) : Prop where
  text : ∀ s ∈ times, ∀ t ∈ times,
    (collation.timestampText s ≤ collation.timestampText t ↔ s ≤ t)
  locale : ∀ s ∈ times, ∀ t ∈ times,
    (collation.localeCompare (collation.timestampText s) (collation.timestampText t) ≤ 0 ↔ s ≤ t)

section Aggregate

variable {collation : Collation} {now : Timestamp} {records : List VerificationRecord}

theorem isExpired_eq_false {r : VerificationRecord} :
    isExpired now r = false ↔ ∀ t ∈ r.expiresAt, now < t := by
  cases h : r.expiresAt <;> simp [isExpired, h]

theorem isExpired_eq_true {r : VerificationRecord} :
    isExpired now r = true ↔ ∃ t ∈ r.expiresAt, t ≤ now := by
  cases h : r.expiresAt <;> simp [isExpired, h]

/-- The valid verified records of the code. -/
theorem mem_validVerified_iff {r : VerificationRecord} :
    r ∈ validVerified collation now records ↔ r ∈ records ∧ r.Valid now := by
  rw [mem_validVerified, isExpired_eq_false]
  rfl

/-- The level first, then the time of the update; the greater comes first. -/
def recordKey (r : VerificationRecord) : (ℤ ×ₗ Timestamp)ᵒᵈ :=
  OrderDual.toDual (toLex (levelRank r.level, r.updatedAt))

theorem recordKey_le {a b : VerificationRecord} : recordKey a ≤ recordKey b ↔
    levelRank b.level < levelRank a.level ∨ (b.level = a.level ∧ b.updatedAt ≤ a.updatedAt) := by
  rw [recordKey, recordKey, OrderDual.toDual_le_toDual, Prod.Lex.toLex_le_toLex, levelRank_inj]

/-- The comparison of the code is the order of the keys. -/
theorem compareRecords_sortsBy
    (h : collation.InTimeOrder (records.map VerificationRecord.updatedAt)) :
    SortsBy (fun a b => compareRecords collation a b ≤ 0) recordKey records := by
  intro a ha b hb
  rw [recordKey_le]
  simp only [compareRecords]
  -- the texts of the times are compared only where the levels are the same
  by_cases hlevel : levelRank b.level - levelRank a.level = 0
  · have hsame : b.level = a.level := levelRank_inj.mp (by omega)
    rw [if_neg (not_not.mpr hlevel),
      h.locale _ (List.mem_map_of_mem hb) _ (List.mem_map_of_mem ha), hsame]
    simp
  · have hne : b.level ≠ a.level := fun heq => hlevel (by rw [heq]; omega)
    rw [if_pos hlevel]
    simp only [hne, false_and, or_false]
    omega

/-- The first of the sorted records is a best one. -/
theorem best_of_head? (h : collation.InTimeOrder (records.map VerificationRecord.updatedAt))
    {best : VerificationRecord} (hbest : (validVerified collation now records).head? = some best) :
    Best now records best := by
  have hsorts : SortsBy (fun a b => compareRecords collation a b ≤ 0) recordKey
      (records.filter (isValidVerified now)) :=
    (compareRecords_sortsBy h).subset fun r hr => (List.mem_filter.mp hr).1
  obtain ⟨hmem, hle⟩ := hsorts.head?_le hbest
  have hvalid (r : VerificationRecord) : r ∈ records.filter (isValidVerified now) ↔
      r ∈ records ∧ r.Valid now := by
    rw [List.mem_filter, isValidVerified_iff, isExpired_eq_false]
    rfl
  obtain ⟨hrecord, hbestValid⟩ := (hvalid best).mp hmem
  exact ⟨hrecord, hbestValid, fun r hr hrvalid =>
    recordKey_le.mp (hle r ((hvalid r).mpr ⟨hr, hrvalid⟩))⟩

/-- The last of the sorted times is the latest. -/
theorem lastUpdated_eq_some (h : collation.InTimeOrder (records.map VerificationRecord.updatedAt))
    (t : Timestamp) : lastUpdated collation records = some t ↔
      t ∈ records.map VerificationRecord.updatedAt ∧ ∀ r ∈ records, r.updatedAt ≤ t := by
  have hsorts : SortsBy
      (fun s t => collation.timestampText s ≤ collation.timestampText t) id
      (records.map VerificationRecord.updatedAt) := h.text
  constructor
  · intro hlast
    obtain ⟨hmem, hle⟩ := hsorts.le_getLast? hlast
    exact ⟨hmem, fun r hr => hle _ (List.mem_map_of_mem hr)⟩
  · rintro ⟨hmem, hle⟩
    cases hlast : lastUpdated collation records with
    -- sorting loses no time, so there is a last one
    | none =>
        rw [lastUpdated, List.getLast?_eq_none_iff] at hlast
        have : t ∈ ([] : List Timestamp) := hlast ▸ (List.mem_insertionSort _).mpr hmem
        cases this
    | some s =>
        obtain ⟨hs, hsle⟩ := hsorts.le_getLast? hlast
        obtain ⟨r, hr, rfl⟩ := List.mem_map.mp hs
        exact congrArg some (le_antisymm (hle r hr) (hsle t hmem))

/-- The cascade finds the first status that applies. -/
theorem effectiveUnverifiedStatus_first (now : Timestamp) (records : List VerificationRecord) :
    FirstApplies now records (effectiveUnverifiedStatus now records) := by
  have hhas (s : VerificationStatus) :
      (records.any fun r => r.status = s) = true ↔ ∃ r ∈ records, r.status = s := by simp
  have hexpired : ((records.any fun r => r.status = .expired) ||
      records.any fun r => r.status = .verified && isExpired now r) = true ↔
        Applies now records .expired := by
    simp [Applies, isExpired_eq_true, List.any_eq_true, and_or_left, exists_or]
  unfold effectiveUnverifiedStatus
  simp only
  -- one case for each rule of the cascade, with the rules before it that do not apply
  split_ifs with hp he hr
  · exact ⟨[], _, rfl, (hhas _).mp hp, nofun⟩
  · refine ⟨[.pending], _, rfl, hexpired.mp he, ?_⟩
    simpa [Applies] using hp
  · refine ⟨[.pending, .expired], _, rfl, (hhas _).mp hr, ?_⟩
    rintro s (_ | ⟨_, _ | ⟨_, _⟩⟩)
    · exact mt (hhas _).mpr hp
    · exact mt hexpired.mpr he
    · contradiction
  · refine ⟨[.pending, .expired, .rejected], _, rfl, trivial, ?_⟩
    rintro s (_ | ⟨_, _ | ⟨_, _ | ⟨_, _⟩⟩⟩)
    · exact mt (hhas _).mpr hp
    · exact mt hexpired.mpr he
    · exact mt (hhas _).mpr hr
    · contradiction

/-- Without a valid record, what is read of a subject is read of an empty list too. -/
theorem aggregate_of_none {subjectType : VerificationSubjectType} {subjectId : String}
    (hnone : ¬ ∃ r ∈ records, r.Valid now) :
    aggregate collation now subjectType subjectId records =
      { notVerified subjectType subjectId with
        status := effectiveUnverifiedStatus now records
        lastUpdated := lastUpdated collation records } := by
  have hvalid : validVerified collation now records = [] := by
    refine List.eq_nil_iff_forall_not_mem.mpr fun r hr => hnone ⟨r, ?_⟩
    exact mem_validVerified_iff.mp hr
  rw [aggregate, hvalid]
  split_ifs with hnil
  · subst hnil
    rfl
  · rfl

/-- With one, the first of the sorted ones is told of. -/
theorem aggregate_of_head {subjectType : VerificationSubjectType} {subjectId : String}
    {best : VerificationRecord} (hbest : (validVerified collation now records).head? = some best) :
    aggregate collation now subjectType subjectId records =
      { subjectType, subjectId
        isVerified := true
        status := .verified
        level := best.level
        provider := best.provider
        expiresAt := best.expiresAt
        lastUpdated := lastUpdated collation records } := by
  have hmem : best ∈ records :=
    (mem_validVerified_iff.mp (List.mem_of_mem_head? (Option.mem_def.mpr hbest))).1
  rw [aggregate, if_neg (List.ne_nil_of_mem hmem), hbest]

/-- The aggregation meets the specification. -/
theorem aggregate_summary (subjectType : VerificationSubjectType) (subjectId : String)
    (h : collation.InTimeOrder (records.map VerificationRecord.updatedAt)) :
    Summary now subjectType subjectId records
      (aggregate collation now subjectType subjectId records) := by
  cases hhead : (validVerified collation now records).head? with
  | none =>
      have hnone : ¬ ∃ r ∈ records, r.Valid now := by
        rintro ⟨r, hr⟩
        have hmem : r ∈ validVerified collation now records := mem_validVerified_iff.mpr hr
        rw [List.head?_eq_none_iff.mp hhead] at hmem
        cases hmem
      rw [aggregate_of_none hnone]
      exact
        { subjectType := rfl
          subjectId := rfl
          isVerified := ⟨nofun, fun hvalid => absurd hvalid hnone⟩
          verified := fun hvalid => absurd hvalid hnone
          unverified := fun _ => ⟨rfl, effectiveUnverifiedStatus_first now records⟩
          lastUpdated := lastUpdated_eq_some h
          chosen := .inl ⟨rfl, rfl, rfl⟩ }
  | some best =>
      have hbest : Best now records best := best_of_head? h hhead
      have hexists : ∃ r ∈ records, r.Valid now := ⟨best, hbest.mem, hbest.valid⟩
      rw [aggregate_of_head hhead]
      exact
        { subjectType := rfl
          subjectId := rfl
          isVerified := ⟨fun _ => hexists, fun _ => rfl⟩
          verified := fun _ => ⟨rfl, ⟨best, hbest.mem, hbest.valid, rfl⟩, fun r hr hvalid => by
            rcases hbest.highest r hr hvalid with hlt | ⟨hlevel, -⟩
            · exact hlt.le
            · rw [hlevel]⟩
          unverified := fun hnone => absurd hexists hnone
          lastUpdated := lastUpdated_eq_some h
          chosen := .inr ⟨best, hbest, rfl, rfl⟩ }

end Aggregate

/-- **Summaries.** When the texts of the update times are in time order, the response about a subject is
what the specification says, and for the same records in another order it is the same up to ties. -/
theorem aggregate_spec (collation : Collation) (now : Timestamp)
    (subjectType : VerificationSubjectType) (subjectId : String) (records : List VerificationRecord)
    (h : collation.InTimeOrder (records.map VerificationRecord.updatedAt)) :
    Summary now subjectType subjectId records
      (aggregate collation now subjectType subjectId records) ∧
    ∀ records', records'.Perm records →
      SameUpToTies records (aggregate collation now subjectType subjectId records)
        (aggregate collation now subjectType subjectId records') := by
  refine ⟨aggregate_summary subjectType subjectId h, fun records' hperm => ?_⟩
  have htimes : ∀ t, t ∈ records'.map VerificationRecord.updatedAt →
      t ∈ records.map VerificationRecord.updatedAt := fun t ht => (hperm.map _).mem_iff.mp ht
  have h' : collation.InTimeOrder (records'.map VerificationRecord.updatedAt) :=
    ⟨fun s hs t ht => h.text s (htimes s hs) t (htimes t ht),
      fun s hs t ht => h.locale s (htimes s hs) t (htimes t ht)⟩
  exact (aggregate_summary subjectType subjectId h).sameUpToTies
    ((aggregate_summary subjectType subjectId h').perm hperm)

/-- The timestamps of the client, compared letter by letter. -/
def isoCollation : Collation where
  timestampText := Js.isoText
  localeCompare s t := if s < t then -1 else if s = t then 0 else 1

/-- A record of a user that was updated at a time. -/
def advancedRecord (provider : String) (status : VerificationStatus) (updatedAt : Timestamp) :
    VerificationRecord where
  id := provider
  subjectType := .user
  subjectId := "user-1"
  provider := some provider
  providerReference := none
  status
  level := .advanced
  verifiedAt := none
  expiresAt := none
  metadata := .null
  createdAt := 1767225600000
  updatedAt

/-- Two verified records on one level; the newer one is told of. -/
theorem aggregate_spec_newer :
    Summary 1767398400000 .user "user-1"
      [advancedRecord "persona" .verified 1767225600000,
        advancedRecord "sumsub" .verified 1767312000000]
      (aggregate isoCollation 1767398400000 .user "user-1"
        [advancedRecord "persona" .verified 1767225600000,
          advancedRecord "sumsub" .verified 1767312000000]) := by
  refine (aggregate_spec isoCollation 1767398400000 .user "user-1" _ ⟨?_, ?_⟩).1
  · decide
  · decide

end ThalosBackend.Verification
