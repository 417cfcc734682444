import KleverGo.Validators.Model

/-!
# The BLS key of a validator

`UpdateValidator` and `Unjail` of `core/kapp/validators/validators.go`.  A validator signs with its
current key.  Rotating to another key revokes the current one and carries its peer account over:
the fees and counters of the epoch move, and a validator that was elected is jailed.
-/

namespace KleverGo.Validators

/-- The BLS code the repository imports: `CheckPublicKeyValid`, and `VerifyBLS` of the proof of
possession of a key for an owner. -/
structure BlsVerifier where
  keyValid : Bytes → Bool
  proofValid : Bytes → Bytes → Bytes → Bool

/-- Code that accepts every key and proof, for runs on concrete inputs. -/
def sampleVerifier : BlsVerifier := ⟨fun _ => true, fun _ _ _ => true⟩

def MaxLogoURISize : Nat := 250

def MaxURIMapSize : Nat := 10

def MaxURIKeySize : Nat := 30

def MaxURIValueSize : Nat := 250

def safeU64ToU32 (value : UInt64) : UInt32 :=
  if 4294967295 < value then 4294967295 else value.toUInt32

structure ValidatorConfig where
  (blsPublicKey blsSignature rewardAddress : Bytes)
  canDelegate : Bool
  commission : UInt32
  maxDelegationAmount : Int64
  logo : Bytes
  uris : List (Bytes × Bytes)
  name : Bytes
  deriving DecidableEq, Repr

section
variable (P : Platform) (B : BlsVerifier) (fc : ForkController)

def validateCommissionAndDelegation (cfg : ValidatorConfig) : Except TxError Unit := do
  reject (HundredPercent < cfg.commission)
    (failAt .CommissionTooHigh .InvalidCommission .ErrInvalidValue)
  reject (cfg.maxDelegationAmount < 0)
    (failAt .DelegationAmountInvalid .InvalidDelegation .ErrInvalidValue)

def validateValidatorMetadata (cfg : ValidatorConfig) : Except TxError Unit := do
  reject (!P.utf8Valid cfg.logo ∨ MaxLogoURISize < cfg.logo.length)
    (failAt .ParameterInvalid .InvalidLogo .ErrInvalidValue)
  reject (MaxURIMapSize < cfg.uris.length)
    (failAt .ParameterInvalid .URICountExceeded .ErrInvalidValue)
  reject (∃ e ∈ cfg.uris, !P.utf8Valid e.1 ∨ !P.utf8Valid e.2 ∨ MaxURIKeySize < e.1.length ∨
    MaxURIValueSize < e.2.length) (failAt .ParameterInvalid .InvalidURI .ErrInvalidValue)
  reject (!P.utf8Valid cfg.name ∨ MaxNameSize < cfg.name.length)
    (failAt .ParameterInvalid .InvalidName .ErrInvalidValue)

def validateBLSPublicKey (blsPubKey : Bytes) : Except Err Unit :=
  reject (fc.fixAuditChangesV3 ∧ !B.keyValid blsPubKey) .ErrInvalidBLSPublicKey

/-- `verifyBLSKeyProof`; there is no proof in the genesis block. -/
def verifyBLSKeyProof (blockNonce : UInt64) (owner blsPubKey sig : Bytes) : Except Err Unit :=
  reject (fc.fixAuditChangesV6 ∧ blockNonce ≠ 0 ∧ (sig = [] ∨ !B.proofValid owner blsPubKey sig))
    .ErrInvalidBLSKeyProof

def checkRotationTarget (sender : Bytes) (peerAcc : PeerAccount) : Except TxError Unit := do
  reject (peerAcc.revoked = true) (failAt .InvalidPeerKey .BLSKeyRevoked .ErrBLSKeyRevoked)
  reject (peerAcc.ownerAddress ≠ [] ∧ sender ≠ peerAcc.ownerAddress)
    (failAt .InvalidPeerKey .BLSKeyNotOwned .ErrAccountValidatorNotOwner)

def loadAndCheckRotationTarget (s : Chain) (sender newKey : Bytes) : Except TxError Unit := do
  let peerAcc ← withCode .InvalidPeerKey (s.loadPeer newKey)
  checkRotationTarget sender peerAcc

def revokePeerAccount (s : Chain) (pubKey : Bytes) : Except Err (Chain × PeerAccount) := do
  let peerAccOld ← s.loadPeer pubKey
  let peerAccOld := { peerAccOld with revoked := true }
  pure (s.updatePeer pubKey peerAccOld, peerAccOld)

/-- The rating and the list of a key that takes over from an elected one. -/
def jailIfElected (peerAcc : PeerAccount) : PeerAccount :=
  if peerAcc.list = .elected then { peerAcc with rating := 0, tempRating := 0, list := .jailed }
  else peerAcc

/-- `initRotatedPeerAccount`: the state with the old account, and the new account. -/
def initRotatedPeerAccount (s : Chain) (peerAcc peerAccOld : PeerAccount) (oldKey newKey : Bytes) :
    Except Err (Chain × PeerAccount) := do
  if peerAcc.blsPublicKey = newKey then pure (s, peerAcc)
  else
    reject (newKey = []) .ErrNilBLSPublicKey
    let peerAcc := { peerAcc with blsPublicKey := newKey }
    if !fc.fixStakingBuckets then pure (s, peerAcc)
    else
      let peerAcc := peerAcc.copyFrom peerAccOld
      let s :=
        if fc.fixAuditChangesV7 then s.updatePeer oldKey peerAccOld.clearEpochAccounting else s
      pure (s, jailIfElected peerAcc)

section

variable (blockNonce : UInt64) (s : Chain) (sender : Bytes) (val : ValidatorData)
  (cfg : ValidatorConfig)

/-- `rotateBLSKey`: the new state and the record of the validator. -/
def rotateBLSKey : Except TxError (Chain × ValidatorData) := do
  let newKey := cfg.blsPublicKey
  withReceipt .InvalidPeerKey .InvalidBLSKey (validateBLSPublicKey B fc newKey)
  checkIf fc.fixAuditChangesV6 (loadAndCheckRotationTarget s sender newKey)
  withReceipt .InvalidPeerKey .InvalidBLSKeyProof
    (verifyBLSKeyProof B fc blockNonce sender newKey cfg.blsSignature)
  let (s, peerAccOld) ← withCode .InvalidPeerKey (revokePeerAccount s val.blsPubKey)
  let peerAcc ← withCode .InvalidPeerKey (s.loadPeer newKey)
  let (s, peerAcc) ← withCode .InvalidPeerKey
    (initRotatedPeerAccount fc s peerAcc peerAccOld val.blsPubKey newKey)
  checkIf (!fc.fixAuditChangesV6) (checkRotationTarget sender peerAcc)
  reject (sender = []) (fail .InvalidPeerKey .ErrEmptyAddress)
  pure (s.updatePeer newKey { peerAcc with ownerAddress := sender },
    { val with blsPubKey := newKey })

/-- The rotation of `rotateKeyAndCheckMetadata`, where the configuration changes the key. -/
def rotateIfChanged : Except TxError (Chain × ValidatorData) :=
  if cfg.blsPublicKey ≠ [] ∧ val.blsPubKey ≠ cfg.blsPublicKey then
    rotateBLSKey B fc blockNonce s sender val cfg
  else .ok (s, val)

def rotateKeyAndCheckMetadata : Except TxError (Chain × ValidatorData) := do
  checkIf fc.fixAuditChangesV6 (validateValidatorMetadata P cfg)
  let (s, val) ← rotateIfChanged B fc blockNonce s sender val cfg
  checkIf (!fc.fixAuditChangesV6) (validateValidatorMetadata P cfg)
  pure (s, val)

end

def applyValidatorConfig (val : ValidatorData) (cfg : ValidatorConfig) : ValidatorData :=
  { val with
    rewardsAddress := if cfg.rewardAddress ≠ [] then cfg.rewardAddress else val.rewardsAddress
    canDelegate := cfg.canDelegate
    commission := cfg.commission
    maxDelegation := cfg.maxDelegationAmount }

def updateValidator (blockNonce : UInt64) (s : Chain) (sender : Bytes) (cfg : ValidatorConfig) :
    Except TxError Chain := do
  reject (cfg.rewardAddress ≠ [] ∧ cfg.rewardAddress.length ≠ P.addressLen)
    (failAt .AccountError .InvalidRewardAddress .ErrInvalidRcvAddr)
  validateCommissionAndDelegation cfg
  let val ← withReceipt .AccountError .ValidatorNotFound (getValidator s.validators sender)
  let (s, val) ← rotateKeyAndCheckMetadata P B fc blockNonce s sender val cfg
  pure { s with validators := setValidator s.validators sender (applyValidatorConfig val cfg) }

/-- `Unjail`; `startRating` is the rating every validator starts with. -/
def unjail (startRating : UInt32) (blockNonce : UInt64) (s : Chain) (sender : Bytes) :
    Except TxError Chain := do
  let val ← withReceipt .Fail .ValidatorNotFound (getValidator s.validators sender)
  let peerAcc ← withCode .AccountError (s.loadPeer val.blsPubKey)
  reject (peerAcc.list ≠ .jailed) (failAt .AccountError .UnjailNotAvailable .ErrInvalidPeerList)
  let peerAcc := { peerAcc with rating := startRating, tempRating := startRating }
  pure (s.updatePeer val.blsPubKey
    (peerAcc.setListAndIndex .waiting (safeU64ToU32 blockNonce)))

end

end KleverGo.Validators
