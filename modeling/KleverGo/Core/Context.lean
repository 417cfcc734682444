import KleverGo.Core.Bytes
import KleverGo.Lib.Checked
import KleverGo.Lib.Float64

/-!
# What every KApp call is given and returns

A KApp call runs in a `KappContext` (the block and the transaction being processed), under the
fork flags of a `ForkController`, on a `Platform` that stands for what the repository imports:
the hash function, the calendar and the gains and shares that are computed in floating point.  It
ends in a state or in a `TxError`: the result code, the Go error and, where the call adds an error
receipt, the field that receipt names.
-/

set_option autoImplicit false

namespace KleverGo

open Float64

/-- `transaction.Transaction_TXResultCode`, the failures returned by the modelled calls. -/
inductive ResultCode where
  | OutOfFunds | AccountError | AssetError | ParameterInvalid | AssetIDInvalid | AssetTypeInvalid
  | AccountNotOwner | DelegationAmountInvalid | ProposalNotActive | ValueInvalid | AmountInvalid
  | BucketIDInvalid | KeyConflict | MaxDelegationAmount | InvalidPeerKey | MinKFIStakedUnreached
  | LoadAccountError | AssetPaused | DeletegateError | BalanceError | KAPPError | UnfreezeError
  | UndelegateError | WithdrawError | ClaimError | BucketsExceeded | FreezeError
  | RoyaltiesChangeStopped | IteratorLimitReached | KDATransferNotAllowed | CommissionTooHigh
  | AssetCantBeBurned | ITONotActive | AssetCantAddRoles | Fail
  deriving DecidableEq, Repr

/-- The Go errors returned by the modelled calls; `nilPointer`, `divisionByZero` and
`indexOutOfRange` stand for run-time panics.
`ErrAPRGainDropped` wraps one of three reasons, so it is there three times. -/
inductive Err where
  | ErrInvalidValue | ErrInvalidArgument | ErrNotFoundInKApp | ErrAssetNotFound | ErrAccNotFound
  | ErrNilAddress | ErrAddBalanceOverflow | ErrInsufficientFunds | ErrInt64Overflow | ErrAccNotOwner
  | ErrAssetIsPaused | ErrKDATransferNotAllowed | ErrInvalidHex | ErrAssetTriggerInvalid
  | ErrInvalidRcvAddr | ErrInvalidOwnerAddr | ErrInvalidSplitRoyaltiesAddr | ErrInvalidArguments
  | ErrNotStaked | ErrUnstakeNotAvailable | ErrUndelegatingNotAvailable | ErrWithdrawNotAvailable
  | ErrClaimNotAvailable | ErrInconsistentStakingData | ErrMaxSupplyExceeded | ErrNegativeValue
  | ErrMaxBucketsExceeded | ErrAssetTypeInvalid | ErrBucketAlreadyDelegated | ErrValidatorNotFound
  | ErrValidatorMaxDelegatorsReached | ErrStakingNotFound | ErrBalance | ErrMinKFIStaked
  | ErrProposalNotFound | ErrProposalMaxVotersReached | ErrInvalidParameter | ErrSyntax | ErrRange
  | ErrEmptyString | ErrEmptyAddress | ErrNilBLSPublicKey | ErrInvalidBLSPublicKey
  | ErrInvalidBLSKeyProof | ErrBLSKeyRevoked | ErrAccountValidatorNotOwner | ErrInvalidPeerList
  | ErrListSizeZero | ErrSmallElectedListSize | ErrEpochNodesConfigDoesNotExist
  | ErrEmptyConsensusGroup | ErrNilPubKeysBitmap | ErrNilValidatorInfos | ErrAccountFrozen
  | ErrAssetPoolAmountError | ErrAssetPoolInvalidAmount | ErrAssetPoolNotActive
  | ErrAssetPoolNotFound | ErrAssetPoolOutOfFunds | ErrComputeKDAFeeError
  | ErrHigherNonceInTransaction | ErrITOStatusInvalid | ErrITOTypeInvalid | ErrInsufficientFee
  | ErrInvalidRoleAddr | ErrInvalidSignature | ErrLowerNonceInTransaction | ErrOverflow
  | ErrSignatureThreshold | ErrInvalidPermissionID | ErrInvalidPermission | ErrNoPermission
  | ErrInvalidContract | ErrInvalidSignerWeight | ErrInvalidPermissionThreshold
  | ErrInvalidPublicKey | ErrMaxGasLimitPerBlockExceeded | ErrSnapshotValueOutOfBounds
  | ErrAPRGainDroppedInt64Overflow | ErrAPRGainDroppedMaxSupplyExceeded
  | ErrAPRGainDroppedNegativeCirculatingSupply | ErrRoleLimitReached | nilPointer | divisionByZero
  | indexOutOfRange
  deriving DecidableEq, Repr

/-- The field an error receipt names (`common.ErrField...`). -/
inductive ErrField where
  | OrderIDMissing | InvalidAmount | OrderNotFound | InvalidOrder | OrderCurrencyInvalid
  | OrderExpired | BidTooLow | PriceBelowMinimum | InvalidMarketType | InsufficientFunds
  | InvalidRoyalties | AssetNotFound | AssetPaused | TransferNotAllowed | ClaimNotAvailable
  | InvalidPermission | InvalidAddress | MarketplaceError | InvalidAssetID | InvalidAssetType
  | InvalidPrice | InvalidName | InvalidToAddress | RoyaltiesChangeStopped | LoadSenderAccount
  | MaxBucketsExceeded | StakingError | InvalidBucketID | ClaimError | BalanceError | FreezeError
  | WithdrawNotAvailable | InvalidProposal | InvalidProposalParams | MinKFIStakedUnreached
  | InsufficientFrozenKFI | InvalidVoteType | InvalidVoteAmount | ProposalNotFound
  | ProposalNotActive | ProposalMaxVoters | InvalidRewardAddress | InvalidCommission
  | InvalidDelegation | InvalidBLSKey | InvalidBLSKeyProof | BLSKeyRevoked | BLSKeyNotOwned
  | ValidatorNotFound | UnjailNotAvailable | InvalidURI | URICountExceeded | InvalidLogo
  | ITOConfigError | ITONotActive | InvalidRoleAddress | InvalidPermissionSigs | AssetCantAddRoles
  | RoleLimitReached
  deriving DecidableEq, Repr

/-- A refused call: `return code, err`, after an error receipt for `field` if there is one. -/
structure TxError where
  code : ResultCode
  err : Err
  field : Option ErrField
  deriving DecidableEq, Repr

/-- `return code, err` without a receipt. -/
def fail (code : ResultCode) (err : Err) : TxError := ⟨code, err, none⟩

/-- `ctx.Receipts().AddError(ctx.ContractID(), field, err.Error()); return code, err` -/
def failAt (code : ResultCode) (field : ErrField) (err : Err) : TxError := ⟨code, err, some field⟩

/-- The error of an operation that has no result code of its own, given the caller's code. -/
def withCode {α : Type} (code : ResultCode) (x : Except Err α) : Except TxError α :=
  x.mapError (fail code)

/-- As `withCode`, with the error receipt the caller adds. -/
def withReceipt {α : Type} (code : ResultCode) (field : ErrField) (x : Except Err α) :
    Except TxError α :=
  x.mapError (failAt code field)

variable {α : Type} {code : ResultCode}

@[simp] theorem withCode_eq_ok {x : Except Err α} {a : α} : withCode code x = .ok a ↔ x = .ok a :=
  mapError_eq_ok

@[simp] theorem withReceipt_eq_ok {field : ErrField} {x : Except Err α} {a : α} :
    withReceipt code field x = .ok a ↔ x = .ok a :=
  mapError_eq_ok

/-- `core.ForkController`: the fork flags, each set once its epoch is reached. -/
structure ForkController where
  (processorFlowITOPrice claimKFI fixStakingBuckets kdaFpr bigBucketsCompute
    fprComputeAndKdaFeeFlow fixDelegationSameEpoch enableSmartContracts fixAuditChanges
    epochRewardsV2 fixAuditChangesV2 fixMarketBuyOverflow fixAuditChangesV3 fixAuditChangesV4
    fixAuditChangesV5 fixAuditChangesV6 fixAuditChangesV7 : Bool)
  deriving DecidableEq, Repr

def ForkController.allActive : ForkController :=
  ⟨true, true, true, true, true, true, true, true, true, true, true, true, true, true, true, true,
   true⟩

/-- `config.EnableEpochs`, in the order of the flags of `ForkController`. -/
structure EnableEpochs where
  (processorFlowITOPrice claimKFI fixStakingBuckets kdaFpr bigBucketsCompute
    fprComputeAndKdaFeeFlow fixDelegationSameEpoch smartContracts fixAuditChanges epochRewardsV2
    fixAuditChangesV2 fixMarketBuyOverflow fixAuditChangesV3 fixAuditChangesV4 fixAuditChangesV5
    fixAuditChangesV6 fixAuditChangesV7 : UInt32)

/-- `Validate`: whether a node starts with the schedule; the texts of the errors are left out. -/
def EnableEpochs.validate (e : EnableEpochs) : Bool :=
  e.processorFlowITOPrice ≤ e.smartContracts ∧
    (e.fixMarketBuyOverflow ≠ 0 → e.fixMarketBuyOverflow < e.fixAuditChangesV4) ∧
    (e.fixAuditChangesV4 ≠ 0 → e.fixAuditChangesV4 < e.fixAuditChangesV5) ∧
    e.bigBucketsCompute ≤ e.fixAuditChangesV6 ∧
    (e.fixAuditChangesV6 ≠ 0 → e.fixAuditChangesV6 < e.fixAuditChangesV7)

/-- `forkController.EpochConfirmed`: the flags of an epoch. -/
def EnableEpochs.epochConfirmed (cfg : EnableEpochs) (epoch : UInt32) : ForkController where
  processorFlowITOPrice := cfg.processorFlowITOPrice ≤ epoch
  claimKFI := cfg.claimKFI ≤ epoch
  fixStakingBuckets := cfg.fixStakingBuckets ≤ epoch
  kdaFpr := cfg.kdaFpr ≤ epoch
  bigBucketsCompute := cfg.bigBucketsCompute ≤ epoch
  fprComputeAndKdaFeeFlow := cfg.fprComputeAndKdaFeeFlow ≤ epoch
  fixDelegationSameEpoch := cfg.fixDelegationSameEpoch ≤ epoch
  enableSmartContracts := cfg.smartContracts ≤ epoch
  fixAuditChanges := cfg.fixAuditChanges ≤ epoch
  epochRewardsV2 := cfg.epochRewardsV2 ≤ epoch
  fixAuditChangesV2 := cfg.fixAuditChangesV2 ≤ epoch
  fixMarketBuyOverflow := cfg.fixMarketBuyOverflow ≤ epoch
  fixAuditChangesV3 := cfg.fixAuditChangesV3 ≤ epoch
  fixAuditChangesV4 := cfg.fixAuditChangesV4 ≤ epoch
  fixAuditChangesV5 := cfg.fixAuditChangesV5 ≤ epoch
  fixAuditChangesV6 := cfg.fixAuditChangesV6 ≤ epoch
  fixAuditChangesV7 := cfg.fixAuditChangesV7 ≤ epoch

/-- Code the repository imports and does not contain. -/
structure Platform where
  /-- `hasher.Compute` -/
  hash : Bytes → Bytes
  /-- `time.Unix(t, 0).AddDate(1, 0, 0).Unix()`, in the node's time zone -/
  oneYearAfter : Int64 → Int64
  /-- Whether `int64(f)` of a `float64` above the range is the largest `int64`, as on `arm64`, or
  the least one, as on `amd64`: the language leaves it open. -/
  saturates : Bool
  /-- `utf8.Valid` -/
  utf8Valid : Bytes → Bool
  /-- `pubkeyConv.Len()` -/
  addressLen : Nat
  /-- the integer part of the `big.Float` gain of an elapsed time, an amount and an APR -/
  bigAPR : Int64 → Int64 → Int64 → Int
  /-- the same in `float64`, as used before `BigBucketsCompute` -/
  floatAPR : Int64 → Int64 → Int64 → Int64
  /-- the integer part of the `big.Float` `totalAmount / totalStaked * bucketValue` -/
  bigShare : Int64 → Int64 → Int64 → Int
  /-- the same in `float64`, as used before `BigBucketsCompute` -/
  floatShare : Int64 → Int64 → Int64 → Int64

/-- A platform with exact arithmetic, for runs on concrete inputs; its hash is injective. -/
def samplePlatform : Platform where
  hash b := b
  oneYearAfter t := t + 31536000
  saturates := false
  utf8Valid _ := true
  addressLen := 1
  bigAPR elapsed amount apr := elapsed.toInt * amount.toInt * apr.toInt / 10000 / 31536000
  floatAPR elapsed amount apr := elapsed * amount * apr / 31536000 / 10000
  bigShare totalAmount totalStaked value := totalAmount.toInt * value.toInt / totalStaked.toInt
  floatShare totalAmount totalStaked value := totalAmount * value / totalStaked

/-- `kapp.KappContext`: the block and the transaction a call belongs to. -/
structure KappContext where
  timestamp : Int64
  epoch : UInt32
  randSeed : Bytes
  txNonce : UInt64
  contractID : Int64
  deriving DecidableEq, Repr

def HundredPercent : UInt32 := 10000

def MaxNameSize : Nat := 100

/-- `int64(f)` of a `float64` with the given sign and integer part -/
def floatToInt64 (P : Platform) (negative : Bool) (magnitude : Nat) : Int64 :=
  if magnitude < 2 ^ 63 then Int64.ofInt (if negative then -magnitude else magnitude)
  else if P.saturates ∧ ¬ negative then Int64.maxValue
  else Int64.minValue

/-- `int64(float64(value) * float64(percentage) / float64(HundredPercent))` -/
def floatPercentage (P : Platform) (value percentage : Int64) : Int64 :=
  floatToInt64 P (decide (value < 0) != decide (percentage < 0)) <| toNat <|
    div (mul (ofNat value.toInt.natAbs)
      (ofNat percentage.toInt.natAbs)) (ofNat HundredPercent.toNat)

/-- `2^53 + 3` lies halfway between two `float64`s, and the one above it has the even significand. -/
example : floatPercentage samplePlatform 9007199254740995 10000 = 9007199254740996 := by
  decide +kernel

def computePercentageI64 (P : Platform) (value percentage : Int64) (checkOverflow : Bool) :
    Except Err Int64 :=
  if !checkOverflow then .ok (floatPercentage P value percentage)
  else
    let result := value.toInt * percentage.toInt / HundredPercent.toNat
    if result < -2 ^ 63 ∨ 2 ^ 63 ≤ result then .error .ErrInt64Overflow
    else .ok (Int64.ofInt result)

theorem computePercentageI64_unchecked (P : Platform) (value percentage : Int64) :
    computePercentageI64 P value percentage false = .ok (floatPercentage P value percentage) :=
  if_pos rfl

variable {P : Platform} {value percentage share : Int64}

theorem computePercentageI64_spec (hv : 0 ≤ value.toInt) (hp : 0 ≤ percentage.toInt)
    (h : computePercentageI64 P value percentage true = .ok share) :
    0 ≤ share.toInt ∧ share.toInt = value.toInt * percentage.toInt / 10000 := by
  have hm : (0 : Int) ≤ value.toInt * percentage.toInt := Int.mul_nonneg hv hp
  have hh : (HundredPercent.toNat : Int) = 10000 := rfl
  simp only [computePercentageI64, hh, Bool.not_true, Bool.false_eq_true, if_false] at h
  split at h
  · cases h
  · rename_i hr
    cases h
    rw [Int64.toInt_ofInt_of_le (by omega) (by omega)]
    omega

theorem computePercentageI64_le (hv : 0 ≤ value.toInt) (hp : 0 ≤ percentage.toInt)
    (hle : percentage.toInt ≤ 10000)
    (h : computePercentageI64 P value percentage true = .ok share) :
    share.toInt ≤ value.toInt := by
  rw [(computePercentageI64_spec hv hp h).2]
  have : value.toInt * percentage.toInt ≤ value.toInt * 10000 :=
    Int.mul_le_mul_of_nonneg_left hle hv
  omega

theorem floatPercentage_of_nonneg (P : Platform) (hv : 0 ≤ value.toInt)
    (hp : 0 ≤ percentage.toInt) :
    floatPercentage P value percentage =
      floatToInt64 P false (toNat (div (mul
        (ofNat value.toInt.natAbs) (ofNat percentage.toInt.natAbs))
        (ofNat 10000))) := by
  have hv' : ¬ value < 0 := by simpa [Int64.lt_iff_toInt_lt] using hv
  have hp' : ¬ percentage < 0 := by simpa [Int64.lt_iff_toInt_lt] using hp
  simp only [floatPercentage, decide_eq_false hv', decide_eq_false hp', bne_self_eq_false]
  rfl

theorem toInt_floatToInt64 (P : Platform) {magnitude : Nat} (h : magnitude < 2 ^ 63) :
    (floatToInt64 P false magnitude).toInt = magnitude := by
  rw [floatToInt64, if_pos h, if_neg Bool.false_ne_true, Int64.toInt_ofInt_of_le] <;> omega

/-- A `float64` share is not negative, unless it is out of range. -/
theorem floatPercentage_nonneg (P : Platform) (hv : 0 ≤ value.toInt) (hp : 0 ≤ percentage.toInt) :
    0 ≤ (floatPercentage P value percentage).toInt ∨
      floatPercentage P value percentage = Int64.minValue := by
  rw [floatPercentage_of_nonneg P hv hp]
  set magnitude := toNat _
  by_cases hrange : magnitude < 2 ^ 63
  · rw [toInt_floatToInt64 P hrange]
    exact .inl (Int.natCast_nonneg _)
  · rw [floatToInt64, if_neg hrange]
    split
    · exact .inl (by decide)
    · exact .inr rfl

open Float64 in
/-- At most half of a number is not rounded above it: there is a power of two in between. -/
theorem toNat_float_half_le (n : Nat) {percentage : Nat} (hhalf : percentage ≤ 5000) :
    toNat (div (mul (ofNat n) (ofNat percentage)) (ofNat 10000)) ≤ n := by
  -- `m * 2 ^ k` is zero or a power of two, and `n` lies between it and its double
  obtain ⟨m, k, hm, hlow, hhigh⟩ : ∃ m k, m ≤ 1 ∧ m * 2 ^ k ≤ n ∧ n ≤ m * 2 * 2 ^ k := by
    rcases Nat.eq_zero_or_pos n with rfl | hn
    · exact ⟨0, 0, by decide, by decide, by decide⟩
    · refine ⟨1, n.log2, le_rfl, ?_, ?_⟩
      · rw [one_mul]
        exact Nat.log2_self_le hn.ne'
      · rw [one_mul, ← pow_succ']
        exact Nat.lt_log2_self.le
  have hfloat : ∀ c ≤ 10000, IsFloat (m * c * 2 ^ k) := fun c hc =>
    ⟨m * c, k, (Nat.mul_le_mul hm hc).trans (by decide), rfl⟩
  have hprod : m * 2 * 2 ^ k * 5000 = m * 10000 * 2 ^ k := by ring
  have hmul : mul (ofNat n) (ofNat percentage) ≤ m * 2 * 2 ^ k * 5000 * one :=
    mul_le (hprod ▸ hfloat 10000 le_rfl) (ofNat_le (hfloat 2 (by decide)) hhigh)
      (ofNat_le (isFloat_of_le (by decide)) hhalf)
  have hexact : ofNat 10000 = 10000 * one := by decide +kernel
  rw [hexact]
  refine (toNat_le (div_le (f := m * 2 ^ k) ?_ (by decide) (hmul.trans_eq ?_))).trans hlow
  · simpa using hfloat 1 (by decide)
  · ring

/-- At most half of a value is not rounded above the value. -/
theorem floatPercentage_le (P : Platform) (hv : 0 ≤ value.toInt) (hp : 0 ≤ percentage.toInt)
    (hhalf : percentage.toInt ≤ 5000) :
    0 ≤ (floatPercentage P value percentage).toInt ∧
      (floatPercentage P value percentage).toInt ≤ value.toInt := by
  have hle := toNat_float_half_le value.toInt.natAbs
    (show percentage.toInt.natAbs ≤ 5000 by omega)
  have hlt := value.toInt_lt
  rw [floatPercentage_of_nonneg P hv hp, toInt_floatToInt64 P (by omega)]
  omega

/-- `int64(percentage)` of an unsigned percentage -/
def toI64 (n : UInt32) : Int64 := Int64.ofInt n.toNat

@[simp] theorem toInt_toI64 (n : UInt32) : (toI64 n).toInt = n.toNat := by
  have := n.toNat_lt
  rw [toI64, Int64.toInt_ofInt_of_le] <;> omega

end KleverGo
