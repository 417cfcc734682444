import KleverGo.Core.Context
import KleverGo.Lib.OrderedMap

/-!
# Peer accounts

`data/state/peerAccount.go`: the account of a BLS key, with its owner, the list it is in, its
rating, and the fees and counters of the epoch.  `ValidatorInfo` is what the epoch start reads off
such an account.  The root hash and the nonce are left out.
-/

namespace KleverGo

/-- `state.List` -/
inductive PeerList where
  | inactive | observer | waiting | eligible | elected | leaving | jailed
  deriving DecidableEq, Repr

structure SignRate where
  numSuccess : UInt32
  numFailure : UInt32
  deriving DecidableEq, Repr

def SignRate.zero : SignRate := ⟨0, 0⟩

/-- The lifetime rate after an epoch. -/
def SignRate.plus (total epoch : SignRate) : SignRate :=
  ⟨total.numSuccess + epoch.numSuccess, total.numFailure + epoch.numFailure⟩

structure PeerAccount where
  blsPublicKey : Bytes
  ownerAddress : Bytes
  revoked : Bool
  shardId : UInt32
  list : PeerList
  index : UInt32
  accumulatedFees : Int64
  validatorSuccessRate : SignRate
  leaderSuccessRate : SignRate
  (validatorIgnoredSignaturesRate rating tempRating numSelectedInSuccessBlocks
    consecutiveProposerMisses : UInt32)
  totalValidatorSuccessRate : SignRate
  totalLeaderSuccessRate : SignRate
  totalValidatorIgnoredSignaturesRate : UInt32
  deriving DecidableEq, Repr

namespace PeerAccount

/-- `NewPeerAccount` -/
def new : PeerAccount where
  blsPublicKey := []
  ownerAddress := []
  revoked := false
  shardId := 0
  list := .inactive
  index := 0
  accumulatedFees := 0
  validatorSuccessRate := .zero
  leaderSuccessRate := .zero
  validatorIgnoredSignaturesRate := 0
  rating := 0
  tempRating := 0
  numSelectedInSuccessBlocks := 0
  consecutiveProposerMisses := 0
  totalValidatorSuccessRate := .zero
  totalLeaderSuccessRate := .zero
  totalValidatorIgnoredSignaturesRate := 0

def setListAndIndex (p : PeerAccount) (list : PeerList) (index : UInt32) : PeerAccount :=
  { p with list := list, index := index }

def resetAtNewEpoch (p : PeerAccount) : PeerAccount :=
  { p with
    accumulatedFees := 0
    rating := p.tempRating
    totalLeaderSuccessRate := p.totalLeaderSuccessRate.plus p.leaderSuccessRate
    totalValidatorSuccessRate := p.totalValidatorSuccessRate.plus p.validatorSuccessRate
    totalValidatorIgnoredSignaturesRate :=
      p.totalValidatorIgnoredSignaturesRate + p.validatorIgnoredSignaturesRate
    leaderSuccessRate := .zero
    validatorSuccessRate := .zero
    validatorIgnoredSignaturesRate := 0
    numSelectedInSuccessBlocks := 0 }

def clearEpochAccounting (p : PeerAccount) : PeerAccount :=
  { p with
    accumulatedFees := 0
    leaderSuccessRate := .zero
    validatorSuccessRate := .zero
    validatorIgnoredSignaturesRate := 0
    numSelectedInSuccessBlocks := 0
    consecutiveProposerMisses := 0 }

/-- `CopyFrom`: all but the key, the owner and the revocation. -/
def copyFrom (p old : PeerAccount) : PeerAccount :=
  { old with
    blsPublicKey := p.blsPublicKey
    ownerAddress := p.ownerAddress
    revoked := p.revoked }

end PeerAccount

structure ValidatorInfo where
  ownerAddress : Bytes
  publicKey : Bytes
  list : PeerList
  (index tempRating rating leaderSuccess leaderFailure validatorSuccess validatorFailure
    validatorIgnoredSignatures : UInt32)
  isPubKeyRevoked : Bool
  deriving DecidableEq, Repr

end KleverGo
