import KleverGo.Sharding.NodesCoordinator
import KleverGo.Validators.Crediting
import KleverGo.Validators.EpochEnd

/-!
# Ratings and lists

The parts of `core/kapp/validators/peersUpdate.go`, `core/kapp/validators/validators.go` and
`core/process/peer/process.go` that change the rating of a key or the list it is in: the penalties
for missed slots, the end of an epoch, and the update with the lists of the nodes coordinator in
the first block after it.  A key whose rating is too low is jailed.

Consensus groups are what the nodes coordinator computes (`ConsensusEnv`).
-/

namespace KleverGo.Validators

open Sharding (NodesConfig)

section
variable (R : Rater) (fc : ForkController)

def isValidatorWithLowRating (peerAcc : PeerAccount) : Bool :=
  decide (R.getChance peerAcc.tempRating < R.getChance 0)

def jailValidatorIfBadRating (peerAcc : PeerAccount) : PeerAccount :=
  if isValidatorWithLowRating R peerAcc then peerAcc.setListAndIndex .jailed peerAcc.index
  else peerAcc

variable (s : Chain)

/-- `getPeerAccount`: the current key of a validator and its account. -/
def getPeerAccount (addr : Bytes) : Except Err (Bytes × PeerAccount) := do
  let val ← getValidator s.validators addr
  let peerAcc ← s.loadPeer val.blsPubKey
  pure (val.blsPubKey, peerAcc)

/-! ## Missed slots -/

def decreasedRating (isProposer : Bool) (peerAcc : PeerAccount) : PeerAccount :=
  if isProposer then
    { peerAcc with
      tempRating := R.computeDecreaseProposer peerAcc.tempRating peerAcc.consecutiveProposerMisses
      consecutiveProposerMisses := peerAcc.consecutiveProposerMisses + 1 }
  else { peerAcc with tempRating := R.computeDecreaseValidator peerAcc.tempRating }

def decreaseTempRating (validator : Bytes) (isProposer : Bool) : Except Err Chain := do
  let (key, peerAcc) ← getPeerAccount s validator
  pure (s.updatePeer key (jailValidatorIfBadRating R (decreasedRating R isProposer peerAcc)))

def ceilDivUint64 (numerator denominator : UInt64) : UInt64 :=
  let quotient := numerator / denominator
  if numerator % denominator ≠ 0 then quotient + 1 else quotient

/-- What the processing of a block asks the nodes coordinator for, and the `float64` estimate used
before `FixAuditChangesV6`. -/
structure ConsensusEnv where
  /-- `ComputeConsensusGroup` of a slot: owners and keys, the leader first -/
  computeConsensusGroup : UInt64 → Except Err (List Sharding.Validator)
  /-- `GetAllElectedValidatorsKeys` -/
  electedKeys : List Bytes
  consensusGroupSize : Nat
  maxComputableSlots : UInt64
  floatAppearances : UInt64 → Nat → Int → UInt32 × UInt32

variable (env : ConsensusEnv)

/-- `computeDecreaseAllAppearances`: as leader and as member. -/
def computeDecreaseAllAppearances (missedSlots : UInt64) (validatorsCount : Nat)
    (consensusGroupSizeValidators : Int) : UInt32 × UInt32 :=
  if !fc.fixAuditChangesV6 then
    env.floatAppearances missedSlots validatorsCount consensusGroupSizeValidators
  else if validatorsCount = 0 then (0, 0)
  else
    let numValidators := UInt64.ofNat validatorsCount
    let leaderAppearances := safeU64ToU32 (ceilDivUint64 missedSlots numValidators)
    if consensusGroupSizeValidators ≤ 0 then (leaderAppearances, 0)
    else
      let groupSize := UInt64.ofInt consensusGroupSizeValidators
      if 18446744073709551615 / groupSize < missedSlots then (leaderAppearances, 4294967295)
      else (leaderAppearances,
        safeU64ToU32 (ceilDivUint64 (groupSize * missedSlots) numValidators))

def addFailures (leader validator : UInt32) (peerAcc : PeerAccount) : PeerAccount :=
  { peerAcc with
    leaderSuccessRate := { peerAcc.leaderSuccessRate with
      numFailure := peerAcc.leaderSuccessRate.numFailure + leader }
    validatorSuccessRate := { peerAcc.validatorSuccessRate with
      numFailure := peerAcc.validatorSuccessRate.numFailure + validator } }

/-- The rating after the estimated appearances. -/
def ratingAfterAppearances (leaderAppearances consensusGroupAppearances : UInt32)
    (tempRating : UInt32) : UInt32 :=
  R.computeDecreaseValidator^[consensusGroupAppearances.toNat]
    ((fun r => R.computeDecreaseProposer r 0)^[leaderAppearances.toNat] tempRating)

def decreaseElectedValidator (leaderAppearances consensusGroupAppearances : UInt32) (s : Chain)
    (validator : Bytes) : Except Err Chain := do
  let elected ← s.loadPeer validator
  let accountingKey ← peerForEpochAccounting fc s validator elected
  let accounting ← s.loadPeer accountingKey
  -- the elected key may be the accounting key, so it is read back before its rating is set
  let s := s.updatePeer accountingKey
    (addFailures leaderAppearances consensusGroupAppearances accounting)
  let elected ← s.loadPeer validator
  let newRating :=
    ratingAfterAppearances R leaderAppearances consensusGroupAppearances elected.tempRating
  pure (s.updatePeer validator (jailValidatorIfBadRating R { elected with tempRating := newRating }))

def decreaseAll (missedSlots : UInt64) (s : Chain) : Except Err Chain :=
  let consensusGroupSizeValidators : Int :=
    if fc.enableSmartContracts then env.consensusGroupSize - 1 else env.consensusGroupSize
  let (leaderAppearances, consensusGroupAppearances) := computeDecreaseAllAppearances fc env
    missedSlots env.electedKeys.length consensusGroupSizeValidators
  env.electedKeys.foldlM
    (decreaseElectedValidator R fc leaderAppearances consensusGroupAppearances) s

/-- `validatorSlotCounters`: missed slots as leader and as member, by owner. -/
abbrev MissedCounters := FMap Bytes (UInt32 × UInt32)

/-- The counters of an owner, `decreaseLeader` or `decreaseValidator`. -/
def MissedCounters.count (counters : MissedCounters) (owner : Bytes) (isProposer : Bool) :
    MissedCounters :=
  let (leader, validator) := (counters.lookup owner).getD (0, 0)
  counters.insert owner (if isProposer then (leader + 1, validator) else (leader, validator + 1))

/-- One member of the group of a missed slot. -/
def missMember (acc : Chain × MissedCounters) (member : Sharding.Validator × Nat) :
    Except Err (Chain × MissedCounters) := do
  let isProposer := decide (member.2 = 0)
  let s ← decreaseTempRating R acc.1 member.1.ownerAddress isProposer
  pure (s, acc.2.count member.1.ownerAddress isProposer)

/-- One missed slot of `computeDecrease`. -/
def missSlot (acc : Chain × MissedCounters) (slot : UInt64) :
    Except Err (Chain × MissedCounters) := do
  let consensusGroup ← env.computeConsensusGroup slot
  reject (consensusGroup = []) .ErrEmptyConsensusGroup
  consensusGroup.zipIdx.foldlM (missMember R) acc

def slotsBetween (previousSlot currentSlot : UInt64) : List UInt64 :=
  ((List.range (currentSlot - previousSlot - 1).toNat).map fun i =>
    previousSlot + 1 + UInt64.ofNat i).takeWhile fun slot => slot < currentSlot

def checkForMissedBlocks (currentSlot previousSlot : UInt64) (s : Chain) :
    Except Err (Chain × MissedCounters) :=
  let missedSlots := currentSlot - previousSlot
  if missedSlots ≤ 1 then .ok (s, ∅)
  else if missedSlots ≤ env.maxComputableSlots then
    (slotsBetween previousSlot currentSlot).foldlM (missSlot R env) (s, ∅)
  else do
    let s ← decreaseAll R fc env (missedSlots - 1) s
    pure (s, ∅)

def decreasePeerCounter (e : Sigma fun _ : Bytes => UInt32 × UInt32) : Except Err Chain := do
  let (leader, validator) := e.2
  let (key, peerAcc) ← getPeerAccount s e.1
  if fc.enableSmartContracts then pure (s.updatePeer key (addFailures leader validator peerAcc))
  else pure (s.updatePeer key (addFailures (leader + validator) 0 peerAcc))

def updateMissedBlocksCounters (counters : MissedCounters) : Except Err Chain :=
  counters.entries.foldlM (decreasePeerCounter fc) s

/-- The previous block, as the next one credits it. -/
structure SignedBlock where
  slot : UInt64
  signingBitmap : Bytes
  accumulatedFees : Int64
  deriving DecidableEq, Repr

/-- The crediting of the previous block in `UpdatePeerState`. -/
def creditBlock (P : Platform) (params : Parameters) (b : SignedBlock) (s : Chain) :
    Except Err Chain := do
  let consensusGroup ← env.computeConsensusGroup b.slot
  reject (b.signingBitmap = []) .ErrNilPubKeysBitmap
  updateValidatorInfoOnSuccessfulBlock R fc P params (consensusGroup.map (·.pubKey))
    b.signingBitmap b.accumulatedFees s

/-- `UpdatePeerState`; there is nothing to credit in the first block after genesis.  The groups of
the missed slots and of the previous block are computed in the epochs of their blocks, so they come
from two environments. -/
def updatePeerState (P : Platform) (params : Parameters) (creditEnv : ConsensusEnv)
    (currentSlot previousSlot : UInt64) (previous : Option SignedBlock) (s : Chain) :
    Except Err Chain := do
  let (s, counters) ← checkForMissedBlocks R fc env currentSlot previousSlot s
  let s ← updateMissedBlocksCounters fc s counters
  match previous with
  | none => pure s
  | some b => creditBlock R fc creditEnv P params b s

/-! ## The start of an epoch -/

def peerAccountToValidatorInfo (pubKey : Bytes) (revoked : Bool) (p : PeerAccount) :
    ValidatorInfo where
  ownerAddress := p.ownerAddress
  publicKey := pubKey
  list := p.list
  index := 0
  tempRating := p.tempRating
  rating := p.rating
  leaderSuccess := p.leaderSuccessRate.numSuccess
  leaderFailure := p.leaderSuccessRate.numFailure
  validatorSuccess := p.validatorSuccessRate.numSuccess
  validatorFailure := p.validatorSuccessRate.numFailure
  validatorIgnoredSignatures := p.validatorIgnoredSignaturesRate
  isPubKeyRevoked := revoked

/-- `GetValidatorInfoForRootHash` -/
def getValidatorInfo : List ValidatorInfo :=
  (s.peers.entries.filter fun e => !(fc.fixStakingBuckets && e.2.revoked)).map fun e =>
    peerAccountToValidatorInfo e.2.blsPublicKey e.2.revoked e.2

def wasLeavingElectedInCurrentEpoch (info : ValidatorInfo) : Bool :=
  decide (info.list = .leaving) && (decide (0 < info.leaderFailure) ||
    decide (0 < info.leaderSuccess) || decide (0 < info.validatorSuccess) ||
    decide (0 < info.validatorFailure))

def verifySignaturesBelowSignedThreshold (info : ValidatorInfo) :
    Except Err (Chain × ValidatorInfo) := do
  let validatorOccurrences :=
    max 1 (info.validatorSuccess + info.validatorFailure + info.validatorIgnoredSignatures)
  if R.belowThreshold info.validatorSuccess validatorOccurrences then
    let newTempRating := R.revertIncreaseValidator info.tempRating
      (info.validatorSuccess + info.validatorIgnoredSignatures)
    let peerAcc ← s.loadPeer info.publicKey
    pure (s.updatePeer info.publicKey
        (jailValidatorIfBadRating R { peerAcc with tempRating := newTempRating }),
      { info with tempRating := newTempRating })
  else pure (s, info)

/-- One validator of `ProcessRatingsEndOfEpoch`; the second component collects the records. -/
def processRating (acc : Chain × List ValidatorInfo) (info : ValidatorInfo) :
    Except Err (Chain × List ValidatorInfo) := do
  if info.list ≠ .elected ∧ !wasLeavingElectedInCurrentEpoch info then pure (acc.1, acc.2 ++ [info])
  else
    let (s, info) ← verifySignaturesBelowSignedThreshold R acc.1 info
    pure (s, acc.2 ++ [info])

def processRatingsEndOfEpoch (epoch : UInt32) (infos : List ValidatorInfo) (s : Chain) :
    Except Err (Chain × List ValidatorInfo) := do
  reject (infos = []) .ErrNilValidatorInfos
  if epoch = 0 then pure (s, infos) else infos.foldlM (processRating R) (s, [])

def setToJailedIfNeeded (peerAcc : PeerAccount) (info : ValidatorInfo) : PeerAccount :=
  if info.list = .elected ∨ info.list = .eligible then peerAcc
  else if info.list = .jailed ∧ peerAcc.list ≠ .jailed then
    peerAcc.setListAndIndex .jailed info.index
  else if isValidatorWithLowRating R peerAcc then peerAcc.setListAndIndex .jailed info.index
  else peerAcc

/-- One validator of `ResetValidatorStatisticsAtNewEpoch`. -/
def resetValidator (acc : Chain × List ValidatorInfo) (info : ValidatorInfo) :
    Except Err (Chain × List ValidatorInfo) := do
  if info.isPubKeyRevoked then pure acc
  else
    let peerAcc ← acc.1.loadPeer info.publicKey
    let peerAcc := setToJailedIfNeeded R peerAcc.resetAtNewEpoch info
    pure (acc.1.updatePeer info.publicKey peerAcc,
      acc.2 ++ [peerAccountToValidatorInfo info.publicKey info.isPubKeyRevoked peerAcc])

def resetValidatorStatisticsAtNewEpoch (infos : List ValidatorInfo) (s : Chain) :
    Except Err (Chain × List ValidatorInfo) :=
  infos.foldlM (resetValidator R) (s, [])

/-- `baseProcessEpochStartBlock`, with the records for the nodes coordinator; the proposals of the
epoch are settled between the ratings and the economics and give `params`. -/
def processEpochStart (params : Parameters) (epoch : UInt32) (s : Chain) :
    Except Err (Chain × List ValidatorInfo) := do
  let (s, infos) ← processRatingsEndOfEpoch R epoch (getValidatorInfo fc s) s
  let s ← processEconomicsEndOfEpoch fc params epoch infos s
  resetValidatorStatisticsAtNewEpoch R infos s

/-! ## The first block of an epoch -/

def processValidator (index : Nat) (list : PeerList) (peerAcc : PeerAccount) : PeerAccount :=
  if isValidatorWithLowRating R peerAcc then peerAcc.setListAndIndex .jailed (UInt32.ofNat index)
  else peerAcc.setListAndIndex list (UInt32.ofNat index)

/-- One address of `saveUpdatesForList`. -/
def saveUpdate (list : PeerList) (s : Chain) (member : Bytes × Nat) : Except Err Chain := do
  let (key, peerAcc) ← getPeerAccount s member.1
  pure (s.updatePeer key (processValidator R member.2 list peerAcc))

/-- `SaveUpdatesForNodesMap` -/
def saveUpdatesForList (addrs : List Bytes) (list : PeerList) (s : Chain) : Except Err Chain :=
  addrs.zipIdx.foldlM (saveUpdate R list) s

def saveNodesCoordinatorUpdates (config : Option NodesConfig) (s : Chain) : Except Err Chain := do
  let config ← orError config .ErrEpochNodesConfigDoesNotExist
  let s ← saveUpdatesForList R (config.electedList.map (·.ownerAddress)) .elected s
  let s ← saveUpdatesForList R (config.eligibleList.map (·.ownerAddress)) .eligible s
  saveUpdatesForList R (config.waitingList.map (·.ownerAddress)) .waiting s

end

end KleverGo.Validators
