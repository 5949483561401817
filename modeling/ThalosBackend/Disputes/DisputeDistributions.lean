import Mathlib.Data.List.Dedup
import ThalosBackend.Js.Print
import ThalosBackend.Js.Text
import ThalosBackend.Library.Apportionment

/-!
# Dispute distributions

`disputes/dispute-distributions.ts`: percentages of an amount to the `distributions` array of a
dispute resolution. Amounts are split in stroops, ten million to the unit. Every share is floored
and what the floors leave over goes to the first largest share; allocations that come out at zero
stroops are dropped; the result is checked once more against the rule of the escrow type.

`rounded` is what is kept of the result of an arithmetic operation: all of it where nothing is said,
`Number.toDouble` where the doubles of the source matter.
-/

set_option autoImplicit false

namespace ThalosBackend.Disputes

open ThalosBackend.Js
open Apportionment (scanLargest)

/-- Stellar holds seven decimal places. -/
def stroopsPerUnit : ℕ := 10000000

inductive EscrowKind where
  | singleRelease
  | multiRelease
  deriving DecidableEq

/-- The text of an escrow type in paths and messages. -/
def EscrowKind.text : EscrowKind → String
  | .singleRelease => "single-release"
  | .multiRelease => "multi-release"

structure PercentageAllocation where
  address : String
  percentage : Number
  deriving DecidableEq

structure Distribution where
  address : String
  amount : Number
  deriving DecidableEq

/-- The errors of the module, with what their messages quote. -/
inductive DistributionError where
  | notFinite (field : String)
  | noAllocations
  | missingAddress
  | percentageNotFinite (address : String)
  | percentageOutOfRange (address : String)
  | duplicateAddress
  | percentagesTotal (total : Number)
  | nothingToDistribute
  | everyAllocationZero
  | balanceMissed (expected got : Number)
  | milestoneExceeded (limit got : Number)
  deriving DecidableEq

def DistributionError.message : DistributionError → String
  | .notFinite field => field ++ " must be a finite number"
  | .noAllocations => "A resolution needs at least one allocation"
  | .missingAddress => "Every allocation needs an address"
  | .percentageNotFinite address => "Percentage for " ++ address ++ " must be a number"
  | .percentageOutOfRange address => "Percentage for " ++ address ++ " must be between 0 and 100"
  | .duplicateAddress => "The same address appears twice in the allocations"
  | .percentagesTotal total => "Percentages must total 100, got " ++ total.toText
  | .nothingToDistribute => "There is nothing to distribute: the total is zero"
  | .everyAllocationZero => "Every allocation rounded to zero"
  | .balanceMissed expected got =>
      "Distributions must total the escrow balance exactly: expected " ++ expected.toText ++
        ", got " ++ got.toText
  | .milestoneExceeded limit got =>
      "Distributions must not exceed the milestone amount: limit " ++ limit.toText ++
        ", got " ++ got.toText

/-- An amount in stroops, rounded rather than truncated. -/
def toStroops (value : Number) (field : String) (rounded : Number → Number := fun x => x) :
    Except DistributionError Number :=
  if value.isFinite then .ok (rounded (value * .finite stroopsPerUnit)).round
  else .error (.notFinite field)

/-- Stroops as an amount with seven decimals. -/
def fromStroops (stroops : Number) (rounded : Number → Number := fun x => x) : Number :=
  rounded ((rounded (stroops.divNat stroopsPerUnit)).toFixed 7)

/-- The tolerance on the sum of the percentages. -/
def percentageTolerance : ℚ := 1 / 10 ^ 9

/-- The checks of `assertAllocations` on one allocation. -/
def assertAllocation (allocation : PercentageAllocation) : Except DistributionError Unit :=
  if trim allocation.address = "" then .error .missingAddress
  else if !allocation.percentage.isFinite then
    .error (.percentageNotFinite allocation.address)
  else if allocation.percentage.lt 0 || Number.lt 100 allocation.percentage then
    .error (.percentageOutOfRange allocation.address)
  else .ok ()

/-- The loop of `assertAllocations` over the allocations, up to the first error. -/
def assertEachAllocation : List PercentageAllocation → Except DistributionError Unit
  | [] => .ok ()
  | allocation :: rest =>
      match assertAllocation allocation with
      | .error e => .error e
      | .ok () => assertEachAllocation rest

/-- The trimmed addresses of the allocations. -/
def trimmedAddresses (allocations : List PercentageAllocation) : List String :=
  allocations.map fun a => trim a.address

/-- The sum of the percentages. -/
def percentageTotal (allocations : List PercentageAllocation)
    (rounded : Number → Number := fun x => x) : Number :=
  allocations.foldl (fun sum a => rounded (sum + a.percentage)) 0

def assertAllocations (allocations : List PercentageAllocation)
    (rounded : Number → Number := fun x => x) : Except DistributionError Unit :=
  if allocations.length = 0 then .error .noAllocations
  else match assertEachAllocation allocations with
    | .error e => .error e
    | .ok () =>
      -- `new Set(addresses).size !== addresses.length`
      if (trimmedAddresses allocations).dedup.length ≠ (trimmedAddresses allocations).length then
        .error .duplicateAddress
      else if Number.lt (rounded (.finite percentageTolerance))
          (rounded (percentageTotal allocations rounded - 100)).abs then
        .error (.percentagesTotal (percentageTotal allocations rounded))
      else .ok ()

/-- The floored shares. -/
def flooredShares (totalStroops : Number) (allocations : List PercentageAllocation)
    (rounded : Number → Number := fun x => x) : List Number :=
  allocations.map fun a => (rounded ((rounded (totalStroops * a.percentage)).divNat 100)).floor

/-- The index of the first largest share: the loop over `i = 1, …, shares.length - 1`. -/
def largestShare (shares : List Number) : ℕ :=
  scanLargest (fun i largest => Number.lt (shares.getD largest 0) (shares.getD i 0)) shares.length

/-- Floor each share and hand the leftover stroops to the largest one. -/
def splitStroops (totalStroops : Number) (allocations : List PercentageAllocation)
    (rounded : Number → Number := fun x => x) : List Number :=
  let shares := flooredShares totalStroops allocations rounded
  let remainder := rounded (totalStroops - shares.foldl (fun sum share => rounded (sum + share)) 0)
  if remainder = 0 then shares
  else shares.modify (largestShare shares) fun share => rounded (share + remainder)

/-- The sum `assertWithinContract` takes: the amounts of the distributions, back in stroops. -/
def sumStroops (distributions : List Distribution) (start : Number)
    (rounded : Number → Number := fun x => x) : Except DistributionError Number :=
  match distributions with
  | [] => .ok start
  | d :: rest =>
      match toStroops d.amount "amount" rounded with
      | .error e => .error e
      | .ok stroops => sumStroops rest (rounded (start + stroops)) rounded

/-- Re-check the result against the rule of the escrow type. -/
def assertWithinContract (escrowType : EscrowKind) (distributions : List Distribution)
    (totalStroops : Number) (rounded : Number → Number := fun x => x) :
    Except DistributionError Unit :=
  match sumStroops distributions 0 rounded with
  | .error e => .error e
  | .ok sum =>
    if escrowType = .singleRelease ∧ sum ≠ totalStroops then
      .error (.balanceMissed (fromStroops totalStroops rounded) (fromStroops sum rounded))
    else if escrowType = .multiRelease ∧ Number.lt totalStroops sum then
      .error (.milestoneExceeded (fromStroops totalStroops rounded) (fromStroops sum rounded))
    else .ok ()

/-- The distributions of shares that are known, zero shares dropped. -/
def positiveDistributions (allocations : List PercentageAllocation) (shares : List Number)
    (rounded : Number → Number := fun x => x) : List Distribution :=
  let entries := List.zipWith (fun a stroops => (trim a.address, stroops)) allocations shares
  (entries.filter fun entry => Number.lt 0 entry.2).map fun entry =>
    ⟨entry.1, fromStroops entry.2 rounded⟩

structure BuildDistributionsInput where
  escrowType : EscrowKind
  total : Number
  allocations : List PercentageAllocation

/-- The `distributions` payload for a dispute resolution. -/
def buildDistributions (input : BuildDistributionsInput)
    (rounded : Number → Number := fun x => x) : Except DistributionError (List Distribution) :=
  match assertAllocations input.allocations rounded with
  | .error e => .error e
  | .ok () =>
    match toStroops input.total "total" rounded with
    | .error e => .error e
    | .ok totalStroops =>
      if totalStroops.le 0 then .error .nothingToDistribute
      else
        let shares := splitStroops totalStroops input.allocations rounded
        let distributions := positiveDistributions input.allocations shares rounded
        if distributions.length = 0 then .error .everyAllocationZero
        else match assertWithinContract input.escrowType distributions totalStroops rounded with
          | .error e => .error e
          | .ok () => .ok distributions

/-- The two-party split, as allocations. -/
def twoPartyAllocations (approver serviceProvider : String) (approverPercentage : Number) :
    List PercentageAllocation :=
  [⟨approver, approverPercentage⟩, ⟨serviceProvider, 100 - approverPercentage⟩]

end ThalosBackend.Disputes
