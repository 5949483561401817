import ThalosBackend.InternalTrustless.ResolutionSafety
import ThalosBackend.Js.Numerals

/-!
# The index of the resolved milestone

`assertResolvable` and `resolutionTotal` read the index of a resolution with `Number(…)`, and the
body carries the text on as it came. `Number` reads the empty text as zero and accepts white space,
signs, exponents, hexadecimal digits and trailing zeros, so a text that passes need not be the
numeral of the milestone that was checked. `index_faithful_iff` says for which texts it is.
-/

set_option autoImplicit false

namespace ThalosBackend.InternalTrustless

open Js (Number Value)
open Disputes (Distribution buildDistributions)

/-- The text is the numeral of a milestone of the escrow, the checks were made on that milestone, and
the body names it by the text. -/
def NamesOne (escrow : EscrowSnapshot) (dto : ResolveDisputeDto) (index : String)
    (write : BackstoppedWrite) : Prop :=
  ∃ n, ∃ hn : n < escrow.milestones.length, index = toString n ∧
    milestoneOf escrow dto = some escrow.milestones[n] ∧
    write.request.body.field "milestoneIndex" = .string index

/-- Of every multi-release escrow, whatever is relayed for the text is about the one milestone that the
text is the numeral of. The milestones are those of an array. -/
def IndexFaithful (index : String) : Prop :=
  ∀ (toUpperCase : String → String)
    (assertRecipientsCanReceive : List String → Option EscrowAsset → Except HttpException Unit)
    (relayed : Relayed) (dto : ResolveDisputeDto) (escrow : EscrowSnapshot)
    (write : BackstoppedWrite),
    dto.type = .multiRelease → dto.milestoneIndex = .string index →
    readEscrow dto.contractId relayed = .ok escrow → escrow.milestones.length < 2 ^ 32 →
    resolveDispute toUpperCase assertRecipientsCanReceive relayed dto = .ok write →
      NamesOne escrow dto index write

/-! ## What a relayed resolution was checked against -/

theorem indexNumber_some (index : String) :
    indexNumber (some index) = Number.stringToDouble index := by
  rw [indexNumber, Option.map_some, Option.getD_some]

/-- On multi-release the index is the number of a milestone. -/
theorem index_of_resolutionTotal {escrow : EscrowSnapshot} {index : Option String} {total : Number}
    (h : resolutionTotal escrow .multiRelease index = .ok total) :
    ∃ n < escrow.milestones.length, indexNumber index = .finite (n : ℕ) := by
  unfold resolutionTotal at h
  simp only [reduceCtorEq, if_false] at h
  split at h
  · cases h
  · rename_i hindex
    cases hnumber : indexNumber index with
    | nan => simp [hnumber, Number.isInteger] at hindex
    | infinity negative => simp [hnumber, Number.isInteger] at hindex
    | finite q =>
        simp only [hnumber, Number.isInteger, Number.ofNat_eq, Number.lt_finite, Number.le_finite,
          Bool.or_eq_true, Bool.not_eq_true', decide_eq_false_iff_not, decide_eq_true_eq, not_or,
          not_not, not_lt, not_le, Nat.cast_zero] at hindex
        obtain ⟨⟨hwhole, hnonneg⟩, hlt⟩ := hindex
        -- a whole number that is not negative is a natural number
        have hq : q = (q.num.toNat : ℕ) := by
          have hnum : ((q.num.toNat : ℤ) : ℚ) = (q.num : ℚ) := by
            rw [Int.toNat_of_nonneg (Rat.num_nonneg.mpr hnonneg)]
          rw [← Int.cast_natCast, hnum, Rat.coe_int_num_of_den_eq_one hwhole]
        refine ⟨q.num.toNat, ?_, by rw [← hq]⟩
        rw [hq] at hlt
        exact_mod_cast hlt

theorem milestoneAt_natCast {milestones : List EscrowMilestoneSnapshot} {n : ℕ}
    (h : n < milestones.length) : milestoneAt milestones (.finite n) = some milestones[n] := by
  simp [milestoneAt, h]

theorem body_milestoneIndex {dto : ResolveDisputeDto} {index : String}
    (distributions : List Distribution) (htype : dto.type = .multiRelease)
    (hindex : dto.milestoneIndex = .string index) :
    (buildResolveDisputeRequest dto distributions).body.field "milestoneIndex" = .string index := by
  simp [buildResolveDisputeRequest, htype, hindex, Value.record, Value.field, Value.fields,
    Value.lookup, Value.isUndefined]

/-! ## An escrow whose milestones can all be resolved -/

/-- The answer for a multi-release escrow with one milestone more than `n`, each of ten units. -/
def replyOver (n : ℕ) : Relayed := .ok
  { status := 200
    data := .array [.object [("contractId", .string "C1"), ("type", .string "multi-release"),
      ("balance", .number 15),
      ("milestones", .array (List.replicate (n + 1) (.object [("amount", .number 10)])))]] }

/-- The snapshot of that escrow. -/
def snapshotOver (n : ℕ) : EscrowSnapshot :=
  { milestoneSnapshot 15 with milestones := List.replicate (n + 1) { amount := some 10 } }

/-- An even split of the milestone that a text names. -/
def evenSplitAt (index : String) : ResolveDisputeDto :=
  { evenSplit with milestoneIndex := .string index, indexed := fun _ => ⟨index, rfl⟩ }

theorem readEscrow_replyOver (n : ℕ) : readEscrow "C1" (replyOver n) = .ok (snapshotOver n) := by
  have hmilestone : parseMilestone (.object [("amount", .number 10)]) = { amount := some 10 } := by
    decide +kernel
  have hread : ∀ milestones : Value, readEscrow "C1" (.ok
      { status := 200
        data := .array [.object [("contractId", .string "C1"), ("type", .string "multi-release"),
          ("balance", .number 15), ("milestones", milestones)]] }) =
      .ok { milestoneSnapshot 15 with milestones := parseMilestones milestones } := by
    intro milestones
    rfl
  rw [replyOver, hread, parseMilestones, List.map_replicate, hmilestone]
  rfl

/-- Whatever text is read as the number of its last milestone, the resolution is relayed. -/
theorem resolveDispute_replyOver {index : String} {n : ℕ}
    (h : Number.stringToDouble index = .finite n) :
    resolveDispute String.toUpper (fun _ _ => .ok ()) (replyOver n) (evenSplitAt index) =
      .ok (resolveWrite (evenSplitAt index) [⟨"GPAYER", 5⟩, ⟨"GPAYEE", 5⟩] index) := by
  have hnumber : indexNumber (some index) = .finite n := by rw [indexNumber_some, h]
  have hlast : milestoneAt (snapshotOver n).milestones (indexNumber (some index)) =
      some { amount := some 10 } := by
    rw [hnumber, milestoneAt_natCast (by simp [snapshotOver])]
    simp [snapshotOver]
  have hcheck : assertResolvable String.toUpper (snapshotOver n) .multiRelease "GRESOLVER"
      (some index) = .ok () := by
    simp only [assertResolvable, hlast]
    rfl
  have htotal : resolutionTotal (snapshotOver n) .multiRelease (some index) = .ok 10 := by
    have hlength : (snapshotOver n).milestones.length = n + 1 := by simp [snapshotOver]
    have hnot : ¬ ((n + 1 : ℕ) : ℚ) ≤ n := by
      rw [Nat.cast_le]
      omega
    have hnonneg : ¬ (n : ℚ) < 0 := not_lt.mpr (Nat.cast_nonneg n)
    have hbalance : (snapshotOver n).balance = .finite 15 := rfl
    rw [hnumber] at hlast
    simp only [resolutionTotal, hnumber, hlast, hlength, hbalance, Number.isInteger,
      Rat.den_natCast, Number.ofNat_eq, Nat.cast_zero, Number.lt_finite, Number.le_finite, hnot,
      hnonneg]
    rw [if_neg (by decide)]
    norm_num
  have hbuild : buildDistributions ⟨.multiRelease, 10, evenSplit.allocations⟩ =
      .ok [⟨"GPAYER", 5⟩, ⟨"GPAYEE", 5⟩] := by
    decide +kernel
  have hsplit : splitByPercentage (evenSplitAt index) (snapshotOver n) =
      .ok [⟨"GPAYER", 5⟩, ⟨"GPAYEE", 5⟩] := by
    have htotal' : resolutionTotal (snapshotOver n) (evenSplitAt index).type
        (evenSplitAt index).milestoneIndex.text? = .ok 10 := htotal
    have hbuild' : buildDistributions ⟨(evenSplitAt index).type, 10,
        (evenSplitAt index).allocations⟩ = .ok [⟨"GPAYER", 5⟩, ⟨"GPAYEE", 5⟩] := hbuild
    simp only [splitByPercentage, htotal', bind, Except.bind, hbuild', Except.mapError]
  have hread : readEscrow (evenSplitAt index).contractId (replyOver n) = .ok (snapshotOver n) :=
    readEscrow_replyOver n
  have hcheck' : assertResolvable String.toUpper (snapshotOver n) (evenSplitAt index).type
      (evenSplitAt index).disputeResolver (evenSplitAt index).milestoneIndex.text? = .ok () :=
    hcheck
  simp only [resolveDispute, hread, hcheck', hsplit, bind, Except.bind]
  rfl

/-- **The index of the resolved milestone.** A text is faithful exactly when it is the canonical numeral
of an index, or is not read as the number of one. -/
theorem index_faithful_iff (index : String) :
    IndexFaithful index ↔
      (∃ n < 2 ^ 32 - 1, index = toString n) ∨
        ∀ n < 2 ^ 32 - 1, Number.stringToDouble index ≠ .finite (n : ℕ) := by
  constructor
  · intro hfaithful
    by_cases hread : ∃ n < 2 ^ 32 - 1, Number.stringToDouble index = .finite (n : ℕ)
    · obtain ⟨n, hn, hnumber⟩ := hread
      have hlength : (snapshotOver n).milestones.length = n + 1 := by simp [snapshotOver]
      have hshort : (snapshotOver n).milestones.length < 2 ^ 32 := by
        rw [hlength]
        omega
      -- an escrow with just enough milestones for the number the text reads as
      obtain ⟨m, hm, hnumeral, -⟩ := hfaithful _ _ _ (evenSplitAt index) _ _ rfl rfl
        (readEscrow_replyOver n) hshort (resolveDispute_replyOver hnumber)
      rw [hlength] at hm
      exact Or.inl ⟨m, by omega, hnumeral⟩
    · refine Or.inr fun n hn hnumber => hread ⟨n, hn, hnumber⟩
  · intro hcondition toUpperCase recipients relayed dto escrow write htype hindex hread hshort hwrite
    obtain ⟨escrow', total, distributions, text, hread', -, htotal, -, -, rfl⟩ :=
      resolveDispute_ok hwrite
    obtain rfl : escrow = escrow' := by simpa [hread] using hread'
    have htext : dto.milestoneIndex.text? = some index := by rw [hindex]; rfl
    rw [htype, htext] at htotal
    obtain ⟨n, hn, hnumber⟩ := index_of_resolutionTotal htotal
    rcases hcondition with ⟨m, hm, rfl⟩ | hother
    · have hvalue : indexNumber (some (toString m)) = .finite m := by
        rw [indexNumber_some]
        exact Number.stringToDouble_numeral (by omega)
      -- a numeral reads as its number
      have hsame : m = n := by
        rw [hvalue] at hnumber
        exact_mod_cast Number.finite.inj hnumber
      subst hsame
      refine ⟨m, hn, rfl, ?_, body_milestoneIndex distributions htype hindex⟩
      rw [milestoneOf, htext, hnumber, milestoneAt_natCast hn]
    · rw [indexNumber_some] at hnumber
      exact absurd hnumber (hother n (by omega))

/-- The empty text passes for the number of the first milestone, and the body names a milestone by the
empty text. -/
theorem empty_index_relayed :
    resolveDispute String.toUpper (fun _ _ => .ok ()) (replyOver 0) (evenSplitAt "") =
        .ok (resolveWrite (evenSplitAt "") [⟨"GPAYER", 5⟩, ⟨"GPAYEE", 5⟩] "") ∧
      (resolveWrite (evenSplitAt "") [⟨"GPAYER", 5⟩, ⟨"GPAYEE", 5⟩] "").request.body.field
        "milestoneIndex" = .string "" ∧
      ¬ IndexFaithful "" := by
  have hwrite := @resolveDispute_replyOver "" 0 (by decide +kernel)
  refine ⟨hwrite, body_milestoneIndex _ rfl rfl, fun hfaithful => ?_⟩
  obtain ⟨n, hn, hnumeral, -⟩ := hfaithful String.toUpper (fun _ _ => .ok ()) (replyOver 0)
    (evenSplitAt "") (snapshotOver 0) _ rfl rfl (readEscrow_replyOver 0) (by decide) hwrite
  have hzero : n = 0 := by
    have hone : (snapshotOver 0).milestones.length = 1 := by decide
    omega
  subst hzero
  exact absurd hnumeral (by decide)

end ThalosBackend.InternalTrustless
