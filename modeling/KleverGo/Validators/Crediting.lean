import KleverGo.Governance.Parameters
import KleverGo.Validators.Keys

/-!
# Crediting a successful block

`UpdateValidatorInfoOnSuccessfulBlock` of `core/kapp/validators/peersUpdate.go`.  The fees of a
block are split between its leader and the members that signed; each member's share and counters
go to the peer account of its key, or, once that key was rotated away, to the account of the
validator's current key.  The rating stays on the key that was elected.
-/

namespace KleverGo.Validators

/-- `sharding.PeerAccountListAndRatingHandler`: how ratings move, and the chances they give.
`belowThreshold` is the comparison of a share of signed blocks, in `float32`, with
`GetSignedBlocksThreshold`. -/
structure Rater where
  computeIncreaseProposer : UInt32 → UInt32
  computeIncreaseValidator : UInt32 → UInt32
  computeDecreaseProposer : UInt32 → UInt32 → UInt32
  computeDecreaseValidator : UInt32 → UInt32
  revertIncreaseValidator : UInt32 → UInt32 → UInt32
  getChance : UInt32 → UInt32
  belowThreshold : UInt32 → UInt32 → Bool

/-- A rater that leaves ratings as they are, for runs on concrete inputs. -/
def sampleRater : Rater where
  computeIncreaseProposer rating := rating
  computeIncreaseValidator rating := rating
  computeDecreaseProposer rating _ := rating
  computeDecreaseValidator rating := rating
  revertIncreaseValidator rating _ := rating
  getChance rating := rating
  belowThreshold _ _ := false

/-- `validatorActionType` -/
inductive ValidatorAction where
  | leaderSuccess | leaderFail | validatorSuccess | validatorIgnoredSignature
  deriving DecidableEq, Repr

def computeValidatorActionType (isLeader validatorSigned : Bool) : ValidatorAction :=
  match isLeader, validatorSigned with
  | true, true => .leaderSuccess
  | true, false => .leaderFail
  | false, true => .validatorSuccess
  | false, false => .validatorIgnoredSignature

/-- `signingBitmap[i/8] & (1 << (i % 8)) != 0` -/
def haveSigned (signingBitmap : Bytes) (i : Nat) : Except Err Bool := do
  let byte ← orError (signingBitmap[i / 8]?) .indexOutOfRange
  pure (byte.toNat.testBit (i % 8))

/-- The loop that counts the members that signed. -/
def countSigned (signingBitmap : Bytes) (n : Nat) : Except Err Nat :=
  (List.range n).foldlM (fun total i => do
    let signed ← haveSigned signingBitmap i
    pure (if signed then total + 1 else total)) 0

/-- `splitAccumulatedFees`: the leader's fees, and those of each other member that signed. -/
def splitAccumulatedFees (P : Platform) (accumulatedFees : Int64) (validatorPercent : UInt32)
    (numValidators : Int64) : Except Err (Int64 × Int64) := do
  let share ← computePercentageI64 P accumulatedFees (toI64 validatorPercent) true
  let validatorFees := share / numValidators
  pure (accumulatedFees - validatorFees * numValidators, validatorFees)

/-- The fees of the leader and of each other member. -/
def blockFees (P : Platform) (params : Parameters) (accumulatedFees : Int64) (totalSigned : Nat) :
    Except Err (Int64 × Int64) :=
  if 1 < totalSigned then
    let leaderPercent := min (params.getParameterUint .LeaderValidatorRewardsPercentage)
      HundredPercent.toUInt64
    splitAccumulatedFees P accumulatedFees (HundredPercent - leaderPercent.toUInt32)
      (Int64.ofNat totalSigned - 1)
  else .ok (accumulatedFees, 0)

section
variable (R : Rater) (fc : ForkController)

/-- `peerForEpochAccounting`: the key whose account gets the fees and counters. -/
def peerForEpochAccounting (s : Chain) (pubKey : Bytes) (elected : PeerAccount) :
    Except Err Bytes := do
  if !fc.fixAuditChangesV7 ∨ !elected.revoked then pure pubKey
  else
    let val ← getValidator s.validators elected.ownerAddress
    if val.blsPubKey = elected.blsPublicKey then pure pubKey else pure val.blsPubKey

/-- The fees and counters of one member, on the account that keeps them. -/
def creditAccount (action : ValidatorAction) (leaderFees validatorFees : Int64)
    (p : PeerAccount) : PeerAccount :=
  let p := { p with numSelectedInSuccessBlocks := p.numSelectedInSuccessBlocks + 1 }
  match action with
  | .leaderSuccess =>
    { p with
      leaderSuccessRate := { p.leaderSuccessRate with
        numSuccess := p.leaderSuccessRate.numSuccess + 1 }
      consecutiveProposerMisses := 0
      accumulatedFees := p.accumulatedFees + leaderFees }
  | .validatorSuccess =>
    { p with
      validatorSuccessRate := { p.validatorSuccessRate with
        numSuccess := p.validatorSuccessRate.numSuccess + 1 }
      accumulatedFees := p.accumulatedFees + validatorFees }
  | .validatorIgnoredSignature =>
    { p with validatorIgnoredSignaturesRate := p.validatorIgnoredSignaturesRate + 1 }
  | .leaderFail => p

/-- The new temporary rating of the elected key. -/
def creditedRating (action : ValidatorAction) (elected : PeerAccount) : UInt32 :=
  match action with
  | .leaderSuccess => R.computeIncreaseProposer elected.tempRating
  | .validatorSuccess | .validatorIgnoredSignature => R.computeIncreaseValidator elected.tempRating
  | .leaderFail => elected.rating

def creditElectedValidator (signingBitmap : Bytes) (leaderFees validatorFees : Int64) (s : Chain)
    (member : Bytes × Nat) : Except Err Chain := do
  let (pubKey, index) := member
  let elected ← s.loadPeer pubKey
  let accountingKey ← peerForEpochAccounting fc s pubKey elected
  let accounting ← s.loadPeer accountingKey
  let signed ← haveSigned signingBitmap index
  let action := computeValidatorActionType (decide (index = 0)) signed
  -- the elected key may be the accounting key, so it is read back before its rating is set
  let s := s.updatePeer accountingKey (creditAccount action leaderFees validatorFees accounting)
  let newRating := creditedRating R action elected
  let elected ← s.loadPeer pubKey
  pure (s.updatePeer pubKey { elected with tempRating := newRating })

def updateValidatorInfoOnSuccessfulBlock (P : Platform) (params : Parameters)
    (validatorList : List Bytes) (signingBitmap : Bytes) (accumulatedFees : Int64) (s : Chain) :
    Except Err Chain := do
  let totalSigned ← countSigned signingBitmap validatorList.length
  let (leaderFees, validatorFees) ← blockFees P params accumulatedFees totalSigned
  validatorList.zipIdx.foldlM
    (creditElectedValidator R fc signingBitmap leaderFees validatorFees) s

end

end KleverGo.Validators
