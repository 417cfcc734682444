import KleverGo.Core.Bytes
import KleverGo.Lib.Checked
import KleverGo.Lib.UnorderedMap

/-!
# The fork detector

`core/process/sync/baseForkDetector.go` and `metaForkDetector.go`: the headers a node knows of, by
nonce, the checkpoints of the blocks it has processed, and the last of them that is final.

What the detector asks the outside (the slot, the time, the black list and the genesis time that a
header implies) is a `Moment`.  The nonce and the slot of the genesis are zero.  A header map is
ranged over in the order of a list where the order could matter.
-/

namespace KleverGo.Sync

def maxUint64 : UInt64 := UInt64.ofNat (2 ^ 64 - 1)

/-- `tools.SafeU64ToI64`, which stops at the largest value. -/
def safeU64ToI64 (value : UInt64) : Int := min (value.toNat : Int) (2 ^ 63 - 1)

/-- `tools.SafeI64ToU64`, which is zero below zero. -/
def safeI64ToU64 (value : Int) : UInt64 := UInt64.ofNat value.toNat

inductive BlockHeaderState where
  | BHReceived
  | BHReceivedTooLate
  | BHProcessed
  | BHProposed
  | BHNotarized
  deriving DecidableEq, Repr

structure HeaderInfo where
  epoch : UInt32
  nonce : UInt64
  slot : UInt64
  hash : Bytes
  state : BlockHeaderState
  deriving DecidableEq, Repr

/-- `checkpointInfo`; the hash of the genesis is empty. -/
structure CheckpointInfo where
  nonce : UInt64 := 0
  slot : UInt64 := 0
  hash : Bytes := []
  deriving DecidableEq, Repr

/-- `process.ForkInfo`, with the values of `NewForkInfo`. -/
structure ForkInfo where
  isDetected : Bool := false
  nonce : UInt64 := maxUint64
  slot : UInt64 := maxUint64
  hash : Option Bytes := none
  deriving DecidableEq, Repr

/-- What the detector reads of a header. -/
structure Header where
  epoch : UInt32
  nonce : UInt64
  slot : UInt64
  timestamp : Int64
  parentHash : Bytes

/-- What the detector asks the outside. -/
structure Moment where
  slotIndex : Int
  now : Int
  isBlackListed : Bytes → Bool
  genesisTimeFromHeader : Header → Int64

inductive SyncError where
  | ErrHeaderIsBlackListed
  | ErrGenesisTimeMismatch
  | ErrLowerSlotInBlock
  | ErrLowerNonceInBlock
  | ErrHigherSlotInBlock
  | ErrHigherNonceInBlock
  | ErrRollBackBehindFinalHeader
  | ErrRollBackBehindForkNonce
  deriving DecidableEq, Repr

/-- `baseForkDetector` -/
structure ForkDetector where
  genesisTime : Int64
  headers : Finmap fun _ : UInt64 => List HeaderInfo := ∅
  checkpoint : List CheckpointInfo := [{}]
  finalCheckpoint : CheckpointInfo := {}
  probableHighestNonce : UInt64 := 0
  highestNonceReceived : UInt64 := 0
  rollBackNonce : UInt64 := maxUint64
  lastSlotWithForcedFork : Int := 0
  tmpStuck : Int := 0

def laterNonce (a b : UInt64) : UInt64 := if b ≤ a then a else b

theorem laterNonce_toNat (a b : UInt64) : (laterNonce a b).toNat = max a.toNat b.toNat := by
  unfold laterNonce
  split
  · next h => exact (max_eq_left (UInt64.le_iff_toNat_le.1 h)).symm
  · next h => exact (max_eq_right (le_of_not_ge fun hle => h (UInt64.le_iff_toNat_le.2 hle))).symm

instance : Std.Commutative laterNonce where
  comm a b := by rw [← UInt64.toNat_inj, laterNonce_toNat, laterNonce_toNat, max_comm]

instance : Std.Associative laterNonce where
  assoc a b c := by
    rw [← UInt64.toNat_inj]
    simp only [laterNonce_toNat, max_assoc]

namespace ForkDetector

variable (bfd : ForkDetector)

def headersAt (nonce : UInt64) : List HeaderInfo :=
  (bfd.headers.lookup nonce).getD []

/-- The entry of a nonce after its list was gone through: an empty list is deleted. -/
def nonEmpty (hdrInfos : List HeaderInfo) : Option (List HeaderInfo) :=
  if hdrInfos = [] then none else some hdrInfos

/-! ## Checkpoints -/

def lastCheckpoint : CheckpointInfo := bfd.checkpoint.getLast?.getD {}

def addCheckpoint (checkpoint : CheckpointInfo) (bfd : ForkDetector) : ForkDetector :=
  { bfd with checkpoint := bfd.checkpoint ++ [checkpoint] }

def removeCheckpointWithNonce (nonce : UInt64) (bfd : ForkDetector) : ForkDetector :=
  { bfd with checkpoint := bfd.checkpoint.filter fun checkpoint => checkpoint.nonce ≠ nonce }

def removePastCheckpoints : ForkDetector :=
  { bfd with checkpoint := bfd.checkpoint.filter fun checkpoint =>
      ¬ checkpoint.nonce < bfd.finalCheckpoint.nonce }

def setFinalToLastCheckpoint : ForkDetector :=
  { bfd with finalCheckpoint := bfd.lastCheckpoint }

/-! ## Headers -/

def removePastHeaders : ForkDetector :=
  { bfd with headers := bfd.headers.filterMapWithKey fun nonce hdrInfos =>
      if nonce < bfd.finalCheckpoint.nonce then none else some hdrInfos }

def removeInvalidReceivedHeaders : ForkDetector :=
  { bfd with headers := bfd.headers.filterMapWithKey fun _ hdrInfos =>
      nonEmpty (hdrInfos.filter fun hdrInfo =>
        let slotDif := safeU64ToI64 hdrInfo.slot - safeU64ToI64 bfd.finalCheckpoint.slot
        let nonceDif := safeU64ToI64 hdrInfo.nonce - safeU64ToI64 bfd.finalCheckpoint.nonce
        let hasStateReceived := hdrInfo.state = .BHReceived ∨ hdrInfo.state = .BHReceivedTooLate
        ¬ (hasStateReceived ∧ slotDif < nonceDif)) }

def removePastOrInvalidRecords : ForkDetector :=
  bfd.removePastHeaders.removeInvalidReceivedHeaders.removePastCheckpoints

def computeProbableHighestNonce : UInt64 :=
  bfd.headers.keys.fold laterNonce bfd.finalCheckpoint.nonce id

/-- `computeProbableHighestNonce` followed by `setProbableHighestNonce`. -/
def updateProbableHighestNonce : ForkDetector :=
  { bfd with probableHighestNonce := bfd.computeProbableHighestNonce }

def setHighestNonceReceived (nonce : UInt64) (bfd : ForkDetector) : ForkDetector :=
  if nonce ≤ bfd.highestNonceReceived then bfd else { bfd with highestNonceReceived := nonce }

/-- `append`: whether the header was not known yet in that state. -/
def append (hdrInfo : HeaderInfo) (bfd : ForkDetector) : Bool × ForkDetector :=
  let hdrInfos := bfd.headersAt hdrInfo.nonce
  if hdrInfos.any fun stored => stored.hash = hdrInfo.hash ∧ stored.state = hdrInfo.state then
    (false, bfd)
  else (true, { bfd with headers := bfd.headers.insert hdrInfo.nonce (hdrInfos ++ [hdrInfo]) })

/-- `RemoveHeader`; `computeFinalCheckpoint` does nothing. -/
def removeHeader (nonce : UInt64) (hash : Bytes) (bfd : ForkDetector) : ForkDetector :=
  let bfd := bfd.removeCheckpointWithNonce nonce
  let preservedHdrsInfo := (bfd.headersAt nonce).filter fun hdrInfo =>
    ¬ (hdrInfo.state ≠ .BHNotarized ∧ hdrInfo.hash = hash)
  updateProbableHighestNonce
    { bfd with headers :=
        if preservedHdrsInfo = [] then bfd.headers.erase nonce
        else bfd.headers.insert nonce preservedHdrsInfo }

def cleanupReceivedHeadersHigherThanNonce (nonce : UInt64) (bfd : ForkDetector) : ForkDetector :=
  { bfd with headers := bfd.headers.filterMapWithKey fun hdrsNonce hdrsInfo =>
      if hdrsNonce ≤ nonce then some hdrsInfo
      else nonEmpty (hdrsInfo.filter fun hdrInfo => hdrInfo.state = .BHNotarized) }

def resetProbableHighestNonce : ForkDetector :=
  (bfd.cleanupReceivedHeadersHigherThanNonce bfd.lastCheckpoint.nonce).updateProbableHighestNonce

def resetFork (moment : Moment) (bfd : ForkDetector) : ForkDetector :=
  { bfd.resetProbableHighestNonce with lastSlotWithForcedFork := moment.slotIndex }

/-! ## Adding headers -/

/-- `checkBlockBasicValidity`, for a header and a hash that are there. -/
def checkBlockBasicValidity (moment : Moment) (header : Header) (bfd : ForkDetector) :
    Except SyncError Unit := do
  let slotDif := safeU64ToI64 header.slot - safeU64ToI64 bfd.finalCheckpoint.slot
  let nonceDif := safeU64ToI64 header.nonce - safeU64ToI64 bfd.finalCheckpoint.nonce
  let nextSlot := moment.slotIndex + 1
  reject (moment.isBlackListed header.parentHash) .ErrHeaderIsBlackListed
  reject (moment.genesisTimeFromHeader header ≠ bfd.genesisTime) .ErrGenesisTimeMismatch
  reject (slotDif < 0) .ErrLowerSlotInBlock
  reject (nonceDif < 0) .ErrLowerNonceInBlock
  reject (header.slot > safeI64ToU64 nextSlot) .ErrHigherSlotInBlock
  reject (slotDif < nonceDif) .ErrHigherNonceInBlock

/-- `isHeaderReceivedTooLate`; 1 is `BlockFinality`. -/
def isHeaderReceivedTooLate (moment : Moment) (header : Header) (state : BlockHeaderState) : Bool :=
  state ≠ .BHProcessed ∧ safeU64ToI64 header.slot < moment.slotIndex - 1

/-- `doJobOnBHProcessed` of the meta fork detector. -/
def doJobOnBHProcessed (header : Header) (headerHash : Bytes) (bfd : ForkDetector) : ForkDetector :=
  ((bfd.setFinalToLastCheckpoint).addCheckpoint
    ⟨header.nonce, header.slot, headerHash⟩).removePastOrInvalidRecords

section

variable (moment : Moment) (header : Header) (headerHash : Bytes) (state : BlockHeaderState)
  (bfd : ForkDetector)

def processReceivedBlock : ForkDetector :=
  let bfd := bfd.setHighestNonceReceived header.nonce
  if state = .BHProposed then bfd
  else
    let state := if isHeaderReceivedTooLate moment header state then .BHReceivedTooLate else state
    let (appended, bfd) := bfd.append ⟨header.epoch, header.nonce, header.slot, headerHash, state⟩
    if appended = false then bfd
    else
      let bfd := if state = .BHProcessed then bfd.doJobOnBHProcessed header headerHash else bfd
      bfd.updateProbableHighestNonce

def addHeader : Except SyncError ForkDetector := do
  bfd.checkBlockBasicValidity moment header
  pure (bfd.processReceivedBlock moment header headerHash state)

end

/-! ## Forks -/

def getMaxEpochFromHdrsInfo (hdrInfos : List HeaderInfo) : UInt32 :=
  hdrInfos.foldl (fun maxEpoch hdrInfo =>
    if hdrInfo.epoch > maxEpoch then hdrInfo.epoch else maxEpoch) 0

/-- The hash, the slot and the epoch of the best header found so far. -/
structure ForkHeader where
  hash : Option Bytes := none
  slot : UInt64 := maxUint64
  epoch : UInt32 := 0
  deriving DecidableEq, Repr

/-- `computeForkInfo`; 0 is `MinForkSlot`. -/
def computeForkInfo (maxForkHeaderEpoch : UInt32) (hdrInfo : HeaderInfo) (lastFork : ForkHeader) :
    ForkHeader :=
  if hdrInfo.state = .BHReceivedTooLate ∧ bfd.highestNonceReceived > hdrInfo.nonce then lastFork
  else if hdrInfo.state ≠ .BHNotarized ∧ hdrInfo.epoch < maxForkHeaderEpoch then lastFork
  else
    let currentForkSlot := if hdrInfo.state = .BHNotarized then 0 else hdrInfo.slot
    if currentForkSlot < lastFork.slot ∨
        (currentForkSlot = lastFork.slot ∧ hdrInfo.hash < lastFork.hash.getD []) then
      ⟨some hdrInfo.hash, currentForkSlot, hdrInfo.epoch⟩
    else lastFork

def shouldSignalFork (headerInfo : HeaderInfo) (lastFork : ForkHeader) : Bool :=
  if headerInfo.hash = lastFork.hash.getD [] then false
  else if lastFork.slot ≠ 0 ∧ headerInfo.epoch > lastFork.epoch then false
  else if lastFork.slot ≠ 0 ∧ headerInfo.epoch < lastFork.epoch then true
  else
    let higherHashForSameSlot :=
      headerInfo.slot = lastFork.slot ∧ lastFork.hash.getD [] < headerInfo.hash
    let higherNonceReceived := bfd.highestNonceReceived > headerInfo.nonce
    headerInfo.slot > lastFork.slot ∨ (higherHashForSameSlot ∧ ¬ higherNonceReceived)

/-- The inner loop of `CheckFork`: the header of the node itself and the best of the others. -/
def scanHeaders (hdrsInfo : List HeaderInfo) : Option HeaderInfo × ForkHeader :=
  let maxForkHeaderEpoch := getMaxEpochFromHdrsInfo hdrsInfo
  hdrsInfo.foldl (fun (selfHdrInfo, forkHeader) hdrInfo =>
    if hdrInfo.state = .BHProcessed then (some hdrInfo, forkHeader)
    else (selfHdrInfo, bfd.computeForkInfo maxForkHeaderEpoch hdrInfo forkHeader)) (none, {})

/-- One round of the outer loop of `CheckFork`. -/
def checkForkAt (forkInfo : ForkInfo) (entry : UInt64 × List HeaderInfo) : ForkInfo :=
  let (nonce, hdrsInfo) := entry
  if hdrsInfo.length = 1 then forkInfo
  else if nonce ≤ bfd.finalCheckpoint.nonce then forkInfo
  else match bfd.scanHeaders hdrsInfo with
    | (none, _) => forkInfo
    | (some selfHdrInfo, forkHeader) =>
      if bfd.shouldSignalFork selfHdrInfo forkHeader = false then forkInfo
      else if nonce < forkInfo.nonce then ⟨true, nonce, forkHeader.slot, forkHeader.hash⟩
      else { forkInfo with isDetected := true }

/-- `isSyncing`: two seconds after it was true last, it still is. -/
def isSyncing (moment : Moment) (bfd : ForkDetector) : Bool × ForkDetector :=
  let noncesDifference :=
    safeU64ToI64 bfd.probableHighestNonce - safeU64ToI64 bfd.lastCheckpoint.nonce
  if noncesDifference > 0 then (true, { bfd with tmpStuck := moment.now })
  else (moment.now < bfd.tmpStuck + 2000000000, bfd)

/-- `isConsensusStuck`; 10 is `MaxSlotsWithoutCommittedBlock` and 5 is `SlotModulusTrigger`. -/
def isConsensusStuck (moment : Moment) (bfd : ForkDetector) : Bool × ForkDetector :=
  if bfd.lastSlotWithForcedFork = moment.slotIndex then (false, bfd)
  else
    let (syncing, bfd) := bfd.isSyncing moment
    if syncing then (false, bfd)
    else
      let slotsDifference := safeI64ToU64 moment.slotIndex - bfd.lastCheckpoint.slot
      (¬ slotsDifference ≤ 10 ∧ moment.slotIndex % 5 = 0, bfd)

/-- `CheckFork`; `order` is the order the map of headers is ranged over in. -/
def checkFork (moment : Moment) (order : List (UInt64 × List HeaderInfo)) (bfd : ForkDetector) :
    ForkInfo × ForkDetector :=
  let (stuck, bfd) := bfd.isConsensusStuck moment
  if stuck then ({ isDetected := true }, bfd)
  else if bfd.rollBackNonce < maxUint64 then
    ({ isDetected := true, nonce := bfd.rollBackNonce }, { bfd with rollBackNonce := maxUint64 })
  else (order.foldl bfd.checkForkAt {}, bfd)

end ForkDetector

end KleverGo.Sync
