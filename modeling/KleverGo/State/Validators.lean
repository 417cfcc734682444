import KleverGo.Core.Context
import KleverGo.Lib.OrderedMap

/-!
# Validators

The records of the validators KApp (`core/kapp/validators`): one `ValidatorData` for each
validator and, beside it, the buckets delegated to it and the rewards that wait to be claimed.
Name, logo, links, the nonce of the registration and slashing are left out: no modelled call reads
them.
-/

namespace KleverGo

def DefaultUndelegatedEpoch : UInt32 := 4294967295

/-- `validators.PeerBucket`: the booking of a user's bucket. -/
structure PeerBucket where
  delegatedAt : Int64
  delegatedEpoch : UInt32
  undelegatedEpoch : UInt32
  value : Int64
  address : Bytes
  deriving DecidableEq, Repr

/-- Whether the booking counts towards the validator's stake. -/
def PeerBucket.active (b : PeerBucket) : Bool := b.undelegatedEpoch == DefaultUndelegatedEpoch

structure ValidatorData where
  ownerAddress : Bytes
  canDelegate : Bool
  (maxDelegation selfStake totalStake : Int64)
  rewardsAddress : Bytes := []
  blsPubKey : Bytes := []
  commission : UInt32 := 0
  selfStaked : Bool := false
  jailed : Bool := false
  jailedEpoch : UInt32 := 0
  numJailed : UInt32 := 0
  waiting : Bool := false
  totalRewards : Int64 := 0
  deriving DecidableEq, Repr

def MaxBucketsPerValidator : Nat := 4500

/-- The storage of the validators KApp; buckets are keyed by hexadecimal identifiers. -/
structure ValidatorStore where
  validators : FMap Bytes ValidatorData
  buckets : FMap Bytes (FMap Bytes PeerBucket)
  pendingRewards : FMap Bytes Int64 := ∅

def ValidatorStore.empty : ValidatorStore := ⟨∅, ∅, ∅⟩

end KleverGo
