import KleverGo.Staking.Account

/-!
# Delegation on the validators KApp

`Delegate` and `Undelegate` of `core/kapp/validators/validators.go`: the bookings of a validator
and its stake totals.
-/

namespace KleverGo.Validators

section

variable (v : ValidatorStore) (validator : Bytes)

def getValidator : Except Err ValidatorData :=
  orError (v.validators.lookup validator) .ErrValidatorNotFound

def setValidator (val : ValidatorData) : ValidatorStore :=
  { v with validators := v.validators.insert validator val }

/-- `getValidatorBuckets`: none if nothing is stored. -/
def getValidatorBuckets : FMap Bytes PeerBucket :=
  (v.buckets.lookup validator).getD ∅

def setValidatorBuckets (pd : FMap Bytes PeerBucket) : ValidatorStore :=
  { v with buckets := v.buckets.insert validator pd }

end

def addStake (val : ValidatorData) (validator staker : Bytes) (delta : Int64) : ValidatorData :=
  { val with
    totalStake := val.totalStake + delta
    selfStake :=
      if validator = staker ∨ val.ownerAddress = staker then val.selfStake + delta
      else val.selfStake }

variable (fc : ForkController)

/-- The buckets `undelegate` leaves: one delegated in the same epoch is removed. -/
def undelegatedBuckets (blockEpoch : UInt32) (pd : FMap Bytes PeerBucket) (key : Bytes)
    (b : PeerBucket) : FMap Bytes PeerBucket :=
  if fc.fixDelegationSameEpoch ∧ b.delegatedEpoch = blockEpoch then pd.erase key
  else pd.insert key { b with undelegatedEpoch := blockEpoch }

variable (v : ValidatorStore)

def undelegate (blockEpoch : UInt32) (validator sender bucketID : Bytes) :
    Except Err ValidatorStore := do
  let val ← getValidator v validator
  let pd := getValidatorBuckets v validator
  let key := hexEncode bucketID
  let b ← orError (pd.lookup key) .ErrInvalidValue
  reject (b.undelegatedEpoch ≠ DefaultUndelegatedEpoch) .ErrInvalidValue
  let v := setValidatorBuckets v validator (undelegatedBuckets fc blockEpoch pd key b)
  pure (setValidator v validator (addStake val validator sender (-b.value)))

/-- `replacedBooking`: the active booking of the bucket on the target, which a delegation
replaces; not looked for before `FixAuditChangesV6`. -/
def replacedBooking (validator key : Bytes) : Option PeerBucket :=
  if fc.fixAuditChangesV6 then
    ((getValidatorBuckets v validator).lookup key).filter fun b =>
      b.undelegatedEpoch = DefaultUndelegatedEpoch
  else none

def acceptsDelegation (val : ValidatorData) (validator sender : Bytes) (amount : Int64)
    (replaced : Option PeerBucket) : Bool :=
  decide (sender = validator) || decide (sender = val.ownerAddress) ||
    (val.canDelegate && (val.maxDelegation == 0 ||
      decide (val.totalStake - replaced.elim 0 (·.value) + amount ≤ val.maxDelegation)))

/-- The totals without the booking that is replaced. -/
def withoutReplaced (val : ValidatorData) (validator : Bytes) (replaced : Option PeerBucket) :
    ValidatorData :=
  replaced.elim val fun b => addStake val validator b.address (-b.value)

def delegate (validator key : Bytes) (booking : PeerBucket) (replaced : Option PeerBucket) :
    Except Err ValidatorStore := do
  let val ← getValidator v validator
  let pd := getValidatorBuckets v validator
  reject (fc.epochRewardsV2 ∧ pd.lookup key = none ∧ MaxBucketsPerValidator ≤ pd.entries.length)
    .ErrValidatorMaxDelegatorsReached
  let v := setValidatorBuckets v validator (pd.insert key booking)
  pure (setValidator v validator
    (addStake (withoutReplaced val validator replaced) validator booking.address booking.value))

/-- The removal of the current delegation in `Delegate`. -/
def leaveCurrent (blockEpoch : UInt32) (current sender bucketID : Bytes) :
    Except TxError ValidatorStore :=
  if current = [] then .ok v
  else withCode .AccountError (undelegate fc v blockEpoch current sender bucketID)

/-- `validatorsKApp.Delegate` -/
def kappDelegate (s : Chain) (sender : Bytes) (blockTime : Int64) (blockEpoch : UInt32)
    (toAddress bucketID : Bytes) : Except TxError ValidatorStore := do
  let v := s.validators
  let acc ← withCode .AccountError (s.getExistingUser sender)
  let val ← withCode .AccountError (getValidator v toAddress)
  let key := hexEncode bucketID
  let bucket ← orError ((acc.getUserKDA KLVIdentifier []).bucketMap.lookup key)
    (fail .BucketIDInvalid .ErrInvalidValue)
  reject (bucket.unstakedEpoch ≠ DefaultUnstakedEpoch) (fail .BucketIDInvalid .ErrInvalidValue)
  reject (toAddress = bucket.delegation) (fail .BucketIDInvalid .ErrInvalidValue)
  let replaced := replacedBooking fc v toAddress key
  reject (acceptsDelegation val toAddress sender bucket.value replaced = false)
    (fail .MaxDelegationAmount .ErrInvalidValue)
  let v ← leaveCurrent fc v blockEpoch bucket.delegation sender bucketID
  withCode .AccountError (delegate fc v toAddress key
    ⟨blockTime, blockEpoch, DefaultUndelegatedEpoch, bucket.value, sender⟩ replaced)

/-- `validatorsKApp.Undelegate` -/
def kappUndelegate (blockEpoch : UInt32) (validator sender bucketID : Bytes) :
    Except TxError ValidatorStore :=
  withCode .Fail (undelegate fc v blockEpoch validator sender bucketID)

end KleverGo.Validators
