import KleverGo.Governance.Parameters
import KleverGo.Validators.Model

/-!
# The economics of an epoch end

`ProcessEconomicsEndOfEpochV2` of `core/kapp/validators/peersUpdate.go`, in use since
`EpochRewardsV2`.  For each validator it drops the bookings that were undelegated, shares the fees
of the validator's key among the delegations, updates the jail record and the list of the key, and
starts a new epoch on the key.  What the shares add up to is stored as pending rewards, which
`ClaimPendingRewards` pays out.

Shares are exact (`big.Int`) before they are cut to 64 bits.  Go maps are walked in the order of
their entries.
-/

namespace KleverGo.Validators

open Staking (Gains)

/-- `bucketProcessingResultV2` -/
structure BucketProcessingResult where
  accumulatedDelegations : Gains
  totalDelegated : Int64
  totalUnDelegated : Int64
  keysToDelete : List Bytes

section
variable (fc : ForkController)

/-- One bucket of the loop of `processBucketDelegationsV2`. -/
def processBucket (currentEpoch : UInt32) (result : BucketProcessingResult)
    (e : Sigma fun _ : Bytes => PeerBucket) : BucketProcessingResult :=
  let delegation := e.2
  if fc.fixDelegationSameEpoch ∧ delegation.undelegatedEpoch ≤ currentEpoch then
    { result with
      keysToDelete := result.keysToDelete ++ [e.1]
      totalUnDelegated := result.totalUnDelegated + delegation.value }
  else
    let delegatedEpoch :=
      if fc.fixDelegationSameEpoch then delegation.delegatedEpoch + 1 else delegation.delegatedEpoch
    if delegation.delegatedEpoch = 0 ∨ delegatedEpoch < currentEpoch then
      { result with
        accumulatedDelegations :=
          result.accumulatedDelegations.add delegation.address delegation.value
        totalDelegated := result.totalDelegated + delegation.value }
    else result

/-- `processBucketDelegationsV2` -/
def processBucketDelegations (currentEpoch : UInt32) (pd : FMap Bytes PeerBucket) :
    BucketProcessingResult :=
  pd.entries.foldl (processBucket fc currentEpoch) ⟨∅, 0, 0, []⟩

/-- `calculateUserShareV2`; `big.Int.Div` panics on a zero divisor. -/
def calculateUserShare (totalRemainingFees amount totalDelegated : Int64) : Except Err Int64 := do
  reject (totalDelegated = 0) .divisionByZero
  pure (Int64.ofInt (totalRemainingFees.toInt * amount.toInt / totalDelegated.toInt))

variable (val : ValidatorData)

/-- The commission of `calculateDelegationRewardsV2`. -/
def commissionAmount (accumulatedFees : Int64) : Int64 :=
  Int64.ofInt ((accumulatedFees.toInt * val.commission.toNat).tdiv HundredPercent.toNat)

/-- One delegator of the loop of `calculateDelegationRewardsV2`; the state is what was given to
each address and what remains. -/
def payDelegator (totalRemainingFees totalDelegated : Int64) (acc : Gains × Int64)
    (e : Sigma fun _ : Bytes => Int64) : Except Err (Gains × Int64) := do
  let share ← calculateUserShare totalRemainingFees e.2 totalDelegated
  let userShare := if share ≤ acc.2 then share else acc.2
  pure (acc.1.add e.1 userShare, acc.2 - userShare)

/-- `calculateDelegationRewardsV2` -/
def calculateDelegationRewards (accumulatedFees : Int64) (accumulatedDelegations : Gains)
    (totalDelegated : Int64) : Except Err Gains := do
  let commission := commissionAmount val accumulatedFees
  let remainingFees := accumulatedFees - commission
  let (localDelegations, remaining) ← accumulatedDelegations.entries.foldlM
    (payDelegator remainingFees totalDelegated)
    ((∅ : Gains).insert val.rewardsAddress commission, remainingFees)
  if remaining ≠ 0 ∧ fc.enableSmartContracts then
    pure (localDelegations.add val.rewardsAddress remaining)
  else pure localDelegations

def updateValidatorJailStatus (peerAcc : PeerAccount) (currentEpoch : UInt32) : ValidatorData :=
  let val :=
    if val.jailed ∧ peerAcc.list ≠ .jailed then
      { val with jailed := false, jailedEpoch := 4294967295 }
    else val
  if !val.jailed ∧ peerAcc.list = .jailed then
    { val with jailed := true, jailedEpoch := currentEpoch, numJailed := val.numJailed + 1 }
  else val

def updatePeerListStatus (peerAcc : PeerAccount)
    (minSelfDelegated minTotalDelegated totalDelegated : Int64) : PeerAccount :=
  if val.jailed then peerAcc
  else if val.selfStake < minSelfDelegated then { peerAcc with list := .inactive }
  else if totalDelegated < minTotalDelegated then { peerAcc with list := .waiting }
  else if peerAcc.list ≠ .elected then { peerAcc with list := .eligible }
  else peerAcc

/-- The buckets `updateStakingBucketsV2` deletes the keys from. -/
def deleteKeys (pd : FMap Bytes PeerBucket) (keys : List Bytes) : FMap Bytes PeerBucket :=
  keys.foldl (fun pd key => pd.erase key) pd

/-- `updateStakingBucketsV2`, with the total that counts. -/
def updateStakingBuckets (v : ValidatorStore) (addr : Bytes) (pd : FMap Bytes PeerBucket)
    (result : BucketProcessingResult) : ValidatorStore × Int64 :=
  if !fc.fixStakingBuckets then (v, result.totalDelegated)
  else (setValidatorBuckets v addr (deleteKeys pd result.keysToDelete),
    if !fc.enableSmartContracts then result.totalDelegated - result.totalUnDelegated
    else result.totalDelegated)

def finalizeValidatorEpoch (s : Chain) (addr : Bytes) (val : ValidatorData)
    (peerAcc : PeerAccount) : Chain :=
  let s := s.updatePeer val.blsPubKey peerAcc.resetAtNewEpoch
  let val :=
    { val with
      waiting := peerAcc.list = .waiting
      totalRewards := val.totalRewards + peerAcc.accumulatedFees }
  { s with validators := setValidator s.validators addr val }

/-- Adding the rewards of one validator to those of all. -/
def mergeRewards (totalDelegations localDelegations : Gains) : Gains :=
  localDelegations.entries.foldl (fun total e => total.add e.1 e.2) totalDelegations

/-- `processValidatorEpochV2`; the second component collects the rewards. -/
def processValidatorEpoch (params : Parameters) (currentEpoch : UInt32) (acc : Chain × Gains)
    (info : ValidatorInfo) : Except Err (Chain × Gains) := do
  let (s, totalDelegations) := acc
  let addr := info.ownerAddress
  let pd := getValidatorBuckets s.validators addr
  let result := processBucketDelegations fc currentEpoch pd
  let val ← getValidator s.validators addr
  let peerAcc ← s.loadPeer val.blsPubKey
  let localDelegations ← calculateDelegationRewards fc val peerAcc.accumulatedFees
    result.accumulatedDelegations result.totalDelegated
  let minSelfDelegated := params.getParameterInt .MinSelfDelegatedAmount
  let minTotalDelegated := params.getParameterInt .MinTotalDelegatedAmount
  let val := updateValidatorJailStatus
    { val with selfStaked := decide (minSelfDelegated ≤ val.selfStake) } peerAcc currentEpoch
  let (v, totalDelegated) := updateStakingBuckets fc s.validators addr pd result
  let peerAcc := updatePeerListStatus val peerAcc minSelfDelegated minTotalDelegated totalDelegated
  pure (finalizeValidatorEpoch { s with validators := v } addr val peerAcc,
    mergeRewards totalDelegations localDelegations)

/-! ## Pending rewards -/

section

variable (v : ValidatorStore)

def getPendingRewards (address : Bytes) : Int64 :=
  (v.pendingRewards.lookup address).getD 0

/-- `setPendingRewards`: zero removes the entry. -/
def setPendingRewards (address : Bytes) (amount : Int64) : Except Err ValidatorStore := do
  reject (amount < 0) .ErrInvalidValue
  if amount = 0 then pure { v with pendingRewards := v.pendingRewards.erase address }
  else pure { v with pendingRewards := v.pendingRewards.insert address amount }

def addToPendingRewards (address : Bytes) (amount : Int64) : Except Err ValidatorStore :=
  if amount = 0 then .ok v
  else setPendingRewards v address (getPendingRewards v address + amount)

/-- `savePendingRewardsV2` -/
def savePendingRewards (totalDelegations : Gains) : Except Err ValidatorStore :=
  totalDelegations.entries.foldlM (fun v e => addToPendingRewards v e.1 e.2) v

/-- `ClaimPendingRewards`, with the amount. -/
def claimPendingRewards (address : Bytes) : Except Err (ValidatorStore × Int64) := do
  let pendingAmount := getPendingRewards v address
  if pendingAmount = 0 then pure (v, 0)
  else
    let v ← setPendingRewards v address 0
    pure (v, pendingAmount)

end

/-- `ProcessEconomicsEndOfEpochV2` -/
def processEconomicsEndOfEpoch (params : Parameters) (currentEpoch : UInt32)
    (validatorInfos : List ValidatorInfo) (s : Chain) : Except Err Chain := do
  let (s, totalDelegations) ← validatorInfos.foldlM
    (processValidatorEpoch fc params currentEpoch) (s, (∅ : Gains))
  let v ← savePendingRewards s.validators totalDelegations
  pure { s with validators := v }

end

end KleverGo.Validators
