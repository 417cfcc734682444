import KleverGo.Governance.Model
import KleverGo.Staking.Claim
import KleverGo.Validators.Model

/-!
# The staking calls of the accounts KApp

`Freeze`, `Unfreeze`, `Delegate`, `Undelegate` and `Withdraw` of `core/kapp/accounts/accounts.go`.
Each of them loads the staking record of the asset, the asset and the record of the holder, pays
the rewards that are due (`ClaimBalance`), does its work on these copies and stores them.  A nil
asset identifier is KLV.
-/

namespace KleverGo.Staking

section
variable (P : Platform) (fc : ForkController)

def checkPausedStakingAsset (kda : KDAData) : Except TxError Unit :=
  reject (fc.fixAuditChangesV6 ∧ kda.isPaused) (failAt .AssetPaused .AssetPaused .ErrAssetIsPaused)

variable (ctx : KappContext)

/-- `ClaimBalance` as the calls use it: where no claim is available yet nothing is paid. -/
def claimDue (assetID : Bytes) (acc : UserAccount) (records : ClaimRecords) :
    Except Err (Gains × UserAccount × ClaimRecords) :=
  match claimBalance P fc assetID ctx.epoch ctx.timestamp acc records true with
  | .ok claimed => .ok claimed
  | .error e => if e = .ErrClaimNotAvailable then .ok (∅, acc, records) else .error e

/-- The pools `updateFPRTotalStake` leaves: the first one of the next epoch gets the total. -/
def setTotalStaked (epoch : UInt32) (totalStaked : Int64) : List FPRData → List FPRData
  | [] => []
  | fpr :: rest =>
    if fpr.epoch = epoch + 1 then { fpr with totalStaked := totalStaked } :: rest
    else fpr :: setTotalStaked epoch totalStaked rest

def updateFPRTotalStake (epoch : UInt32) (assetID : Bytes) (staking : StakingData) : StakingData :=
  if !fc.bigBucketsCompute ∨ assetID = KLVIdentifier ∨ assetID = KFIIdentifier ∨
      staking.interestType ≠ .FPRI then staking
  else { staking with fpr := setTotalStaked epoch staking.totalStaked staking.fpr }

/-- `SubFromBalance` with the caller's record of the asset; KLV is in the account. -/
def subFromHeldBalance (value : Int64) (assetID : Bytes) (acc : UserAccount) (userKDA : UserKDA) :
    Except Err (UserAccount × UserKDA) := do
  reject (value < 0) .ErrInvalidValue
  if assetID = KLVIdentifier then
    reject (acc.balance - value < 0) .ErrInsufficientFunds
    pure ({ acc with balance := acc.balance - value }, userKDA)
  else
    reject (userKDA.balance - value < 0) .ErrInsufficientFunds
    let userKDA := { userKDA with balance := userKDA.balance - value }
    pure (acc.setUserKDA assetID [] userKDA, userKDA)

/-- Storing the records of a call: `SetUserKDA`, `SetStaking` and `SetKDA`. -/
def storeRecords (s : Chain) (sender assetID : Bytes) (acc : UserAccount) (records : ClaimRecords) :
    Chain :=
  ((s.setUser sender (acc.setUserKDA assetID [] records.userKDA)).setStaking assetID
    records.staking).setKDA assetID records.kda

/-! ## Freeze -/

structure FreezeContract where
  assetID : Option Bytes
  amount : Int64

/-- The bucket a freeze goes to: the asset's own, or a new one for KLV and KFI. -/
def freezeBucketID (sender assetID : Bytes) (amount : Int64) : Bytes :=
  if assetID = KLVIdentifier ∨ assetID = KFIIdentifier then
    toBucketID P.hash ctx.randSeed sender assetID ctx.txNonce ctx.contractID amount
  else assetID

/-- The delegation of the bucket a freeze of KLV or KFI would merge into. -/
def mergedDelegation (assetID bucketID : Bytes) (userKDA : UserKDA) : Bytes :=
  if assetID = KLVIdentifier ∨ assetID = KFIIdentifier then
    (userKDA.bucketMap.lookup (hexEncode bucketID)).elim [] (·.delegation)
  else []

/-- `accountsKapp.Freeze`; `params` are the live network parameters. -/
def kappFreeze (params : Parameters) (ctx : KappContext) (s : Chain) (sender : Bytes)
    (tc : FreezeContract) : Except TxError Chain := do
  let assetID := UserAccount.assetOf tc.assetID
  reject ((assetID = KLVIdentifier ∧ tc.amount < params.getParameterInt .MinKLVBucketAmount) ∨
    tc.amount ≤ 0) (failAt .ValueInvalid .InvalidAmount .ErrInvalidValue)
  let acc ← withReceipt .LoadAccountError .LoadSenderAccount (s.getExistingUser sender)
  let userKDA := acc.getUserKDA assetID []
  reject ((params.getParameterInt .MaxBucketSize).toInt ≤ userKDA.bucketMap.entries.length)
    (failAt .BucketsExceeded .MaxBucketsExceeded .ErrMaxBucketsExceeded)
  let kda ← withReceipt .KAPPError .AssetNotFound (orError (s.kdas.lookup assetID) .ErrAssetNotFound)
  reject (kda.assetType ≠ .Fungible) (failAt .AssetTypeInvalid .InvalidAssetType .ErrAssetTypeInvalid)
  let staking ← withReceipt .KAPPError .StakingError (s.getStaking assetID)
  checkPausedStakingAsset fc kda
  let bucketID := freezeBucketID P ctx sender assetID tc.amount
  reject (fc.fixAuditChangesV6 ∧ mergedDelegation assetID bucketID userKDA ≠ [])
    (failAt .BucketIDInvalid .InvalidBucketID .ErrBucketAlreadyDelegated)
  let (_, acc, records) ← withReceipt .ClaimError .ClaimError
    (claimDue P fc ctx assetID acc ⟨staking, kda, userKDA⟩)
  reject (acc.getBalance assetID < tc.amount)
    (failAt .OutOfFunds .InsufficientFunds .ErrInsufficientFunds)
  let (acc, userKDA) ← withReceipt .BalanceError .BalanceError
    (subFromHeldBalance tc.amount assetID acc records.userKDA)
  let (staking, userKDA) ← withReceipt .FreezeError .FreezeError
    (freeze assetID bucketID tc.amount
      ⟨ctx.epoch, ctx.timestamp, fc.fixStakingBuckets, fc.fixAuditChangesV5⟩ records.staking userKDA)
  pure (storeRecords s sender assetID acc
    ⟨updateFPRTotalStake fc ctx.epoch assetID staking, records.kda, userKDA⟩)

/-! ## Unfreeze -/

structure UnfreezeContract where
  assetID : Option Bytes
  bucketID : Bytes

/-- The delegation an unfrozen bucket leaves, on the validator and on the account. -/
def leaveDelegation (v : ValidatorStore) (epoch : UInt32) (sender bucketID delegation : Bytes)
    (userKDA : UserKDA) : Except TxError (ValidatorStore × UserKDA) :=
  if delegation = [] then .ok (v, userKDA)
  else do
    let v ← Validators.kappUndelegate fc v epoch delegation sender bucketID
    if fc.enableSmartContracts then
      let (userKDA, _) ← withCode .UndelegateError (undelegate bucketID userKDA)
      pure (v, userKDA)
    else pure (v, userKDA)

/-- `accountsKapp.Unfreeze` -/
def kappUnfreeze (s : Chain) (sender : Bytes) (tc : UnfreezeContract) : Except TxError Chain := do
  let acc ← withReceipt .LoadAccountError .LoadSenderAccount (s.getExistingUser sender)
  let assetID := UserAccount.assetOf tc.assetID
  let kda ← withCode .KAPPError (orError (s.kdas.lookup assetID) .ErrAssetNotFound)
  reject (kda.assetType ≠ .Fungible) (failAt .AssetError .InvalidAssetType .ErrAssetTypeInvalid)
  let staking ← withCode .AssetError (s.getStaking assetID)
  checkPausedStakingAsset fc kda
  let (_, acc, records) ← withCode .ClaimError
    (claimDue P fc ctx assetID acc ⟨staking, kda, acc.getUserKDA assetID []⟩)
  let (staking, userKDA, delegation, amount) ← withCode .UnfreezeError
    (unfreeze assetID tc.bucketID ctx.epoch fc.fixStakingBuckets records.staking records.userKDA)
  let (v, userKDA) ← leaveDelegation fc s.validators ctx.epoch sender tc.bucketID delegation userKDA
  let s := storeRecords { s with validators := v } sender assetID acc
    ⟨updateFPRTotalStake fc ctx.epoch assetID staking, records.kda, userKDA⟩
  Governance.handleProposalVotesOnUnfreeze fc s (acc.setUserKDA assetID [] userKDA) assetID sender
    amount

/-! ## Delegation -/

structure DelegateContract where
  toAddress : Bytes
  bucketID : Bytes

/-- `accountsKapp.Delegate` -/
def kappDelegate (ctx : KappContext) (s : Chain) (sender : Bytes) (tc : DelegateContract) :
    Except TxError Chain := do
  reject (tc.toAddress.length ≠ P.addressLen)
    (failAt .AccountError .InvalidToAddress .ErrInvalidRcvAddr)
  reject (tc.bucketID = []) (failAt .BucketIDInvalid .InvalidBucketID .ErrInvalidArgument)
  let acc ← withReceipt .LoadAccountError .LoadSenderAccount (s.getExistingUser sender)
  let staking ← withCode .AssetError (s.getStaking KLVIdentifier)
  let kda ← withCode .KAPPError (orError (s.kdas.lookup KLVIdentifier) .ErrAssetNotFound)
  let (_, acc, records) ← withCode .ClaimError
    (claimDue P fc ctx KLVIdentifier acc ⟨staking, kda, acc.getUserKDA KLVIdentifier []⟩)
  let v ← Validators.kappDelegate fc (s.setUser sender acc) sender ctx.timestamp ctx.epoch
    tc.toAddress tc.bucketID
  let (userKDA, _) ← withCode .DeletegateError
    (delegate tc.bucketID tc.toAddress records.userKDA)
  pure (storeRecords { s with validators := v } sender KLVIdentifier acc
    { records with userKDA := userKDA })

/-- `accountsKapp.Undelegate` -/
def kappUndelegate (ctx : KappContext) (s : Chain) (sender bucketID : Bytes) :
    Except TxError Chain := do
  reject (bucketID = []) (failAt .BucketIDInvalid .InvalidBucketID .ErrInvalidArgument)
  let acc ← withReceipt .LoadAccountError .LoadSenderAccount (s.getExistingUser sender)
  let staking ← withCode .AssetError (s.getStaking KLVIdentifier)
  let kda ← withCode .KAPPError (orError (s.kdas.lookup KLVIdentifier) .ErrAssetNotFound)
  let (_, acc, records) ← withCode .ClaimError
    (claimDue P fc ctx KLVIdentifier acc ⟨staking, kda, acc.getUserKDA KLVIdentifier []⟩)
  let (userKDA, delegation, _) ← withCode .UndelegateError (undelegate bucketID records.userKDA)
  let v ← Validators.kappUndelegate fc s.validators ctx.epoch delegation sender bucketID
  pure (storeRecords { s with validators := v } sender KLVIdentifier acc
    { records with userKDA := userKDA })

/-! ## Withdraw -/

/-- `accountsKapp.Withdraw` -/
def kappWithdraw (s : Chain) (sender : Bytes) (asset : Option Bytes) : Except TxError Chain := do
  let assetID := UserAccount.assetOf asset
  let acc ← withReceipt .LoadAccountError .LoadSenderAccount (s.getExistingUser sender)
  let staking ← withCode .AssetError (s.getStaking assetID)
  let kda ← withCode .KAPPError (orError (s.kdas.lookup assetID) .ErrAssetNotFound)
  checkPausedStakingAsset fc kda
  let (_, acc, records) ← withCode .ClaimError
    (claimDue P fc ctx assetID acc ⟨staking, kda, acc.getUserKDA assetID []⟩)
  let (acc, userKDA, _) ← withReceipt .WithdrawError .WithdrawNotAvailable
    (withdraw assetID ctx.epoch records.staking.minEpochsToWithdraw acc records.userKDA)
  pure (storeRecords s sender assetID acc { records with userKDA := userKDA })

end

end KleverGo.Staking
