import KleverGo.State.Chain

/-!
# Staking on a user account

The staking half of `data/state/userAccount.go`.  Every function works on the caller's copies of
the holder's record (`UserKDA`) and of the asset's staking record (`StakingData`), as the source
does; the KApps load and store them.

`Platform` supplies the floating-point amounts of a reward; their clamps and overflow checks are
part of the model.  Go maps are walked in the order of their entries, which the results do not
depend on.
-/

namespace KleverGo

def DefaultUnstakedEpoch : UInt32 := 4294967295

structure FreezeOptions where
  blockEpoch : UInt32
  blockTime : Int64
  newStakingFlow : Bool
  keepStakeHistory : Bool
  deriving DecidableEq, Repr

namespace Staking

/-! ## Buckets -/

/-- The key of a bucket: one bucket per custom asset, hexadecimal identifiers for KLV and KFI. -/
def parsedBucketID (assetID bucketID : Bytes) : Bytes :=
  if assetID ≠ KLVIdentifier ∧ assetID ≠ KFIIdentifier then assetID else hexEncode bucketID

variable {assetID : Bytes}

theorem parsedBucketID_custom (hk : assetID ≠ KLVIdentifier) (hf : assetID ≠ KFIIdentifier)
    (bucketID : Bytes) :
    parsedBucketID assetID bucketID = assetID := by
  simp [parsedBucketID, hk, hf]

def stakeHistoryAfterFreeze (bucket : UserBucket) (epoch lastClaimEpoch : UInt32) :
    List StakeSegment :=
  let kept := bucket.history.filter fun segment => lastClaimEpoch < segment.throughEpoch
  let through := if bucket.unstakedEpoch ≠ DefaultUnstakedEpoch then bucket.unstakedEpoch else epoch
  if bucket.stakedEpoch < through ∧ lastClaimEpoch < through then
    kept ++ [⟨bucket.stakedEpoch, through, bucket.value⟩]
  else kept

/-- `LastClaim.GetEpoch`: zero for `nil`. -/
def lastClaimEpoch (userKDA : UserKDA) : UInt32 := userKDA.lastClaim.elim 0 (·.epoch)

/-- What a freeze adds to the totals: a bucket that was unfrozen is staked again as a whole. -/
def freezeToAdd (opts : FreezeOptions) (value : Int64) : Option UserBucket → Int64
  | none => value
  | some bucket =>
    if opts.newStakingFlow ∧ bucket.unstakedEpoch ≠ DefaultUnstakedEpoch then value + bucket.value
    else value

/-- The bucket a freeze stores in place of the old one, if there is one. -/
def frozenBucket (opts : FreezeOptions) (value : Int64) (lastClaim : UInt32)
    (old : Option UserBucket) : UserBucket where
  stakedAt := opts.blockTime
  stakedEpoch := opts.blockEpoch
  unstakedEpoch := DefaultUnstakedEpoch
  value := old.elim 0 (·.value) + value
  delegation := []
  history :=
    if opts.keepStakeHistory then
      old.elim [] fun bucket => stakeHistoryAfterFreeze bucket opts.blockEpoch lastClaim
    else []

def freeze (assetID bucketID : Bytes) (value : Int64) (opts : FreezeOptions)
    (staking : StakingData) (userKDA : UserKDA) : Except Err (StakingData × UserKDA) := do
  reject (value ≤ 0) .ErrInvalidValue
  let key := parsedBucketID assetID bucketID
  let old := userKDA.bucketMap.lookup key
  let toAdd := freezeToAdd opts value old
  pure ({ staking with totalStaked := staking.totalStaked + toAdd },
    { userKDA with
      buckets := some (userKDA.bucketMap.insert key
        (frozenBucket opts value (lastClaimEpoch userKDA) old))
      frozenBalance := userKDA.frozenBalance + toAdd })

/-- The totals an unfreeze leaves: the staked total of the asset and the holder's frozen
balance. -/
def unfreezeTotals (newStakingFlow : Bool) (staking : StakingData) (userKDA : UserKDA)
    (bucket : UserBucket) : Int64 × Int64 :=
  if newStakingFlow ∧ staking.interestType = .APRI then
    (staking.totalStaked - userKDA.frozenBalance, 0)
  else (staking.totalStaked - bucket.value, userKDA.frozenBalance - bucket.value)

/-- `userAccount.Unfreeze`, with the delegation and the value of the bucket. -/
def unfreeze (assetID bucketID : Bytes) (blockEpoch : UInt32) (newStakingFlow : Bool)
    (staking : StakingData) (userKDA : UserKDA) :
    Except Err (StakingData × UserKDA × Bytes × Int64) := do
  let key := parsedBucketID assetID bucketID
  let bucket ← orError (userKDA.bucketMap.lookup key) .ErrNotStaked
  reject (bucket.unstakedEpoch ≠ DefaultUnstakedEpoch ∨
    blockEpoch - bucket.stakedEpoch < staking.minEpochsToUnstake) .ErrUnstakeNotAvailable
  let totals := unfreezeTotals newStakingFlow staking userKDA bucket
  pure ({ staking with totalStaked := totals.1 },
    { userKDA with
      buckets := some (userKDA.bucketMap.insert key { bucket with unstakedEpoch := blockEpoch })
      frozenBalance := totals.2 },
    bucket.delegation, bucket.value)

variable {bucketID : Bytes} {value : Int64} {staking staking' : StakingData}
  {userKDA userKDA' : UserKDA}

theorem freeze_spec {opts : FreezeOptions}
    (h : freeze assetID bucketID value opts staking userKDA = .ok (staking', userKDA')) :
    0 < value.toInt ∧ ∃ key old, key = parsedBucketID assetID bucketID ∧
      old = userKDA.bucketMap.lookup key ∧
      staking' =
        { staking with totalStaked := staking.totalStaked + freezeToAdd opts value old } ∧
      userKDA' =
        { userKDA with
          buckets := some (userKDA.bucketMap.insert key
            (frozenBucket opts value (lastClaimEpoch userKDA) old))
          frozenBalance := userKDA.frozenBalance + freezeToAdd opts value old } := by
  simp only [freeze, bind_eq_ok, reject_eq_ok, pure_eq_ok, Prod.mk.injEq] at h
  obtain ⟨_, hvalue, rfl, rfl⟩ := h
  rw [Amount.not_pos_iff] at hvalue
  exact ⟨by omega, _, _, rfl, rfl, rfl, rfl⟩

theorem unfreeze_spec {epoch : UInt32} {flow : Bool} {delegation : Bytes}
    (h : unfreeze assetID bucketID epoch flow staking userKDA =
      .ok (staking', userKDA', delegation, value)) :
    ∃ key bucket, key = parsedBucketID assetID bucketID ∧
      userKDA.bucketMap.lookup key = some bucket ∧ bucket.unstakedEpoch = DefaultUnstakedEpoch ∧
      staking' =
        { staking with totalStaked := (unfreezeTotals flow staking userKDA bucket).1 } ∧
      userKDA' =
        { userKDA with
          buckets := some (userKDA.bucketMap.insert key { bucket with unstakedEpoch := epoch })
          frozenBalance := (unfreezeTotals flow staking userKDA bucket).2 } ∧
      delegation = bucket.delegation ∧ value = bucket.value := by
  simp only [unfreeze, bind_eq_ok, orError_eq_ok, reject_eq_ok, pure_eq_ok,
    Prod.mk.injEq, not_or, not_not] at h
  obtain ⟨bucket, hbucket, _, ⟨hstaked, -⟩, rfl, rfl, rfl, rfl⟩ := h
  exact ⟨_, bucket, rfl, hbucket, hstaked, rfl, rfl, rfl, rfl⟩

/-- `userAccount.Delegate`, with the value of the bucket. -/
def delegate (bucketID delegation : Bytes) (userKDA : UserKDA) : Except Err (UserKDA × Int64) := do
  let key := hexEncode bucketID
  let bucket ← orError (userKDA.bucketMap.lookup key) .ErrNotStaked
  pure ({ userKDA with
      buckets := some (userKDA.bucketMap.insert key { bucket with delegation := delegation }) },
    bucket.value)

/-- `userAccount.Undelegate`, with the delegation and the value of the bucket. -/
def undelegate (bucketID : Bytes) (userKDA : UserKDA) : Except Err (UserKDA × Bytes × Int64) := do
  let key := hexEncode bucketID
  let bucket ← orError (userKDA.bucketMap.lookup key) .ErrNotStaked
  reject (bucket.delegation = []) .ErrUndelegatingNotAvailable
  pure ({ userKDA with
      buckets := some (userKDA.bucketMap.insert key { bucket with delegation := [] }) },
    bucket.delegation, bucket.value)

section

variable (epoch minEpochsToWithdraw : UInt32)

/-- Whether a bucket can be withdrawn; one that is staked cannot. -/
def withdrawable (bucket : UserBucket) : Bool :=
  bucket.unstakedEpoch.toNat + minEpochsToWithdraw.toNat ≤ epoch.toNat

/-- The amount the loop of `Withdraw` adds up. -/
def withdrawAmount (userKDA : UserKDA) : Int64 :=
  (userKDA.bucketMap.filter fun _ bucket => withdrawable epoch minEpochsToWithdraw bucket).sumBy
    fun _ bucket => bucket.value

/-- The record without the buckets the loop of `Withdraw` deletes. -/
def withdrawBuckets (userKDA : UserKDA) : UserKDA :=
  { userKDA with
    buckets := userKDA.buckets.map fun buckets =>
      buckets.filter fun _ bucket => !withdrawable epoch minEpochsToWithdraw bucket }

end

/-- `userAccount.Withdraw`, with the amount withdrawn. -/
def withdraw (assetID : Bytes) (epoch minEpochsToWithdraw : UInt32) (acc : UserAccount)
    (userKDA : UserKDA) : Except Err (UserAccount × UserKDA × Int64) := do
  let amount := withdrawAmount epoch minEpochsToWithdraw userKDA
  reject (amount = 0) .ErrWithdrawNotAvailable
  let userKDA := withdrawBuckets epoch minEpochsToWithdraw userKDA
  if assetID = KLVIdentifier then
    let acc := { acc with balance := acc.balance + amount }
    pure (acc.setUserKDA assetID [] userKDA, userKDA, amount)
  else
    let userKDA := { userKDA with balance := userKDA.balance + amount }
    pure (acc.setUserKDA assetID [] userKDA, userKDA, amount)

/-! ## Rewards -/

/-- The gains of a claim by asset; a missing entry is zero. -/
abbrev Gains := FMap Bytes Int64

/-- `gains[key]` -/
def Gains.get (gains : Gains) (key : Bytes) : Int64 := (gains.lookup key).getD 0

/-- `gains[key] += value` -/
def Gains.add (gains : Gains) (key : Bytes) (value : Int64) : Gains :=
  gains.insert key (gains.get key + value)

/-- `big.Float.Int64`: the integer part, at the nearest bound if it is out of range. -/
def saturateI64 (v : Int) : Int64 :=
  if v < -9223372036854775808 then -9223372036854775808
  else if 9223372036854775807 < v then 9223372036854775807
  else Int64.ofInt v

def safeAddI64 (a b : Int64) : Except Err Int64 := do
  reject ((0 < b ∧ 9223372036854775807 - b < a) ∨ (b < 0 ∧ a < -9223372036854775808 - b))
    .ErrInt64Overflow
  pure (a + b)

/-- `bucketStakeAt`; `none` is not staked. -/
def bucketStakeAt (fc : ForkController) (bucket : UserBucket) (fprEpoch : UInt32) : Option Int64 :=
  if bucket.stakedEpoch < fprEpoch then some bucket.value
  else if !fc.fixAuditChangesV5 then none
  else (bucket.history.find? fun segment =>
    segment.stakedEpoch < fprEpoch && fprEpoch ≤ segment.throughEpoch).map (·.value)

def bucketEligibleForFPR (fc : ForkController) (bucket : UserBucket) (fprEpoch : UInt32) : Bool :=
  if bucket.unstakedEpoch = DefaultUnstakedEpoch then true
  else if fc.fixAuditChangesV3 then fprEpoch ≤ bucket.unstakedEpoch
  else !fc.fixStakingBuckets

section
variable (P : Platform) (fc : ForkController)

def calculateFPRAmount (totalAmount totalStaked bucketValue totalClaimed : Int64) : Int64 :=
  if !fc.bigBucketsCompute then P.floatShare totalAmount totalStaked bucketValue
  else if totalAmount ≤ 0 ∨ totalStaked ≤ 0 then 0
  else
    let share := saturateI64 (P.bigShare totalAmount totalStaked bucketValue)
    let capped := if totalAmount < totalClaimed + share then totalAmount - totalClaimed else share
    if fc.fprComputeAndKdaFeeFlow ∧ capped < 0 then 0 else capped

/-- The KLV part of a pool in `accrueBucketFPR`. -/
def accrueKLV (gains : Gains) (fpr : FPRData) (stakedValue : Int64) : Gains × FPRData :=
  if 0 < fpr.totalAmount then
    let kdaID := if fc.claimKFI then KLVIdentifier else KFIIdentifier
    let amount :=
      calculateFPRAmount P fc fpr.totalAmount fpr.totalStaked stakedValue fpr.totalClaimed
    (gains.add kdaID amount, { fpr with totalClaimed := fpr.totalClaimed + amount })
  else (gains, fpr)

/-- One other asset of a pool in `accrueBucketFPR`. -/
def accrueKDA (stakedValue : Int64) (acc : Gains × FPRData)
    (entry : Sigma fun _ : Bytes => KDAFPRData) : Gains × FPRData :=
  let value := entry.2
  let amount :=
    calculateFPRAmount P fc value.totalAmount acc.2.totalStaked stakedValue value.totalClaimed
  (acc.1.add entry.1 amount,
    { acc.2 with kdas :=
        acc.2.kdas.insert entry.1 { value with totalClaimed := value.totalClaimed + amount } })

/-- The amounts a pool pays on a stake. -/
def accrueStake (gains : Gains) (fpr : FPRData) (stakedValue : Int64) : Gains × FPRData :=
  fpr.kdas.entries.foldl (accrueKDA P fc stakedValue) (accrueKLV P fc gains fpr stakedValue)

def accrueBucketFPR (gains : Gains) (fpr : FPRData) (bucket : UserBucket) :
    Except Err (Gains × FPRData) :=
  match bucketStakeAt fc bucket fpr.epoch with
  | none => .ok (gains, fpr)
  | some stakedValue => do
    reject (!fc.bigBucketsCompute ∧ fpr.totalStaked < stakedValue) .ErrInconsistentStakingData
    if bucketEligibleForFPR fc bucket fpr.epoch then pure (accrueStake P fc gains fpr stakedValue)
    else pure (gains, fpr)

/-- One pool of the loop of `computeClaimFPR`. -/
def claimPool (buckets : FMap Bytes UserBucket) (lastClaim blockEpoch : UInt32) (gains : Gains)
    (fpr : FPRData) : Except Err (Gains × FPRData) :=
  if fpr.epoch ≤ lastClaim ∨ blockEpoch < fpr.epoch then .ok (gains, fpr)
  else buckets.entries.foldlM (fun acc e => accrueBucketFPR P fc acc.1 acc.2 e.2) (gains, fpr)

/-- The loop of `computeClaimFPR` over the pools, which it updates. -/
def claimPools (buckets : FMap Bytes UserBucket) (lastClaim blockEpoch : UInt32) :
    Gains → List FPRData → Except Err (Gains × List FPRData)
  | gains, [] => .ok (gains, [])
  | gains, fpr :: rest => do
    let (gains, fpr) ← claimPool P fc buckets lastClaim blockEpoch gains fpr
    let (gains, rest) ← claimPools buckets lastClaim blockEpoch gains rest
    pure (gains, fpr :: rest)

def computeClaimFPR (blockEpoch : UInt32) (userKDA : UserKDA) (staking : StakingData) :
    Except Err (Gains × StakingData) :=
  match userKDA.buckets, userKDA.lastClaim with
  | some buckets, some lastClaim => do
    reject (blockEpoch - lastClaim.epoch < staking.minEpochsToClaim) .ErrClaimNotAvailable
    let (gains, fpr) ← claimPools P fc buckets lastClaim.epoch blockEpoch ∅ staking.fpr
    pure (gains, { staking with fpr := fpr })
  | _, _ => .ok (∅, staking)

def computeAPR (initTime endTime amount currAPR : Int64) : Except Err Int64 := do
  if !fc.bigBucketsCompute then pure (P.floatAPR (endTime - initTime) amount currAPR)
  else
    let gain := P.bigAPR (endTime - initTime) amount currAPR
    reject (fc.fixAuditChangesV6 ∧ 9223372036854775808 ≤ gain) .ErrInt64Overflow
    pure (saturateI64 gain)

/-- `aprGains.add` -/
def aprGainsAdd (assetID : Bytes) (gains : Gains) (initTime endTime amount currAPR : Int64) :
    Except Err Gains := do
  let gain ← computeAPR P fc initTime endTime amount currAPR
  if !fc.fixAuditChangesV6 then pure (gains.add assetID gain)
  else
    reject (gain < 0) .ErrNegativeValue
    let sum ← safeAddI64 (gains.get assetID) gain
    pure (gains.insert assetID sum)

/-- The loop of `computeClaimAPR` over the rates, up to the one that starts after the block. -/
def claimRates (assetID : Bytes) (blockTime amount : Int64) :
    Gains → Int64 → Int64 → List APRData → Except Err (Gains × Int64 × Int64)
  | gains, lastClaim, currAPR, [] => .ok (gains, lastClaim, currAPR)
  | gains, lastClaim, currAPR, apr :: rest =>
    if blockTime ≤ apr.timestamp then .ok (gains, lastClaim, currAPR)
    else if lastClaim < apr.timestamp then do
      let gains ← aprGainsAdd P fc assetID gains lastClaim apr.timestamp amount currAPR
      claimRates assetID blockTime amount gains apr.timestamp (toI64 apr.value) rest
    else claimRates assetID blockTime amount gains lastClaim (toI64 apr.value) rest

def computeClaimAPR (assetID : Bytes) (blockTime : Int64) (userKDA : UserKDA)
    (staking : StakingData) : Except Err Gains :=
  match userKDA.lastClaim, userKDA.bucketMap.lookup assetID with
  | some lastClaim, some bucket =>
    if lastClaim.timestamp = 0 ∨ bucket.unstakedEpoch ≠ DefaultUnstakedEpoch ∨ bucket.value = 0 then
      .ok ∅
    else do
      let (gains, last, currAPR) ←
        claimRates P fc assetID blockTime bucket.value ∅ lastClaim.timestamp 0 staking.apr
      if 0 < currAPR then aprGainsAdd P fc assetID gains last blockTime bucket.value currAPR
      else pure gains
  | _, _ => .ok ∅

/-- `APRGainDropReason`, for an asset with an APR under `FixAuditChangesV6`. -/
def aprGainDropReason (kda : KDAData) (assetID : Bytes) (computed : Except Err Gains) :
    Option Err :=
  match computed with
  | .error e => if e = .ErrInt64Overflow then some .ErrAPRGainDroppedInt64Overflow else none
  | .ok gains =>
    let gain := gains.get assetID
    if gain ≤ 0 then none
    else if kda.circulatingSupply < 0 then some .ErrAPRGainDroppedNegativeCirculatingSupply
    else if 0 < kda.maxSupply ∧ kda.maxSupply - kda.circulatingSupply < gain then
      some .ErrAPRGainDroppedMaxSupplyExceeded
    else if (safeAddI64 kda.circulatingSupply gain).isOk then none
    else some .ErrAPRGainDroppedInt64Overflow

def addAPRGainToSupply (kda : KDAData) (gain : Int64) : KDAData :=
  { kda with
    circulatingSupply := kda.circulatingSupply + gain
    mintedValue :=
      if 9223372036854775807 - gain < kda.mintedValue then 9223372036854775807
      else kda.mintedValue + gain }

def claimAPRStaking (assetID : Bytes) (blockTime : Int64) (userKDA : UserKDA)
    (staking : StakingData) (kda : KDAData) : Except Err (Gains × KDAData) :=
  let computed := computeClaimAPR P fc assetID blockTime userKDA staking
  match aprGainDropReason kda assetID computed with
  | some reason => .error reason
  | none => do
    let gains ← computed
    pure (gains, addAPRGainToSupply kda (gains.get assetID))

/-- The mint of an APR gain before `FixAuditChangesV6`. -/
def mintAPRGain (assetID : Bytes) (gains : Gains) (kda : KDAData) : Except Err KDAData := do
  reject (0 < kda.maxSupply ∧ kda.maxSupply < kda.circulatingSupply + gains.get assetID)
    .ErrMaxSupplyExceeded
  pure { kda with
    circulatingSupply := kda.circulatingSupply + gains.get assetID
    mintedValue := kda.mintedValue + gains.get assetID }

/-- `userAccount.Claim` of staking rewards: the gains and the records it updates. -/
def claim (assetID : Bytes) (epoch : UInt32) (blockTime : Int64) (staking : StakingData)
    (kda : KDAData) (userKDA : UserKDA) : Except Err (Gains × StakingData × KDAData) :=
  match staking.interestType with
  | .FPRI => do
    let (gains, staking) ← computeClaimFPR P fc epoch userKDA staking
    pure (gains, staking, kda)
  | .APRI =>
    if fc.fixAuditChangesV6 then do
      let (gains, kda) ← claimAPRStaking P fc assetID blockTime userKDA staking kda
      pure (gains, staking, kda)
    else do
      let gains ← computeClaimAPR P fc assetID blockTime userKDA staking
      let kda ← mintAPRGain assetID gains kda
      pure (gains, staking, kda)

end

end Staking

end KleverGo
