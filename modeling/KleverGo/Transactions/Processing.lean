import KleverGo.Lib.Process
import KleverGo.Transactions.Signatures
import KleverGo.Transactions.Stores

/-!
# Processing of transactions

`processAndRemoveBadTransaction` of `core/process/block/preprocess/transactions.go` with the calls of
`core/process/transaction/txProcess.go` that it makes: `PreProcessTransaction`, the gas check of the
block, `ProcessBandwidthFee` with the swap of a fee pool, `ProcessTransaction`, and the rollback of
the three stores.  Every fork flag is active, so the cacher caches.

A user account is what processing reads of it (the KLV balance, the nonce, the permissions) and
arbitrary further fields; its KDA records are in its data trie.  Encodings are those of an arbitrary
`Marshalizer`.  A contract is an arbitrary function from what a KApp can see, the accounts and the
handlers in the cache, to the operations that it makes on the cacher and the error it returns.
-/

namespace KleverGo.Processing

open Transactions

/-! ## Accounts -/

structure UserData (X : Type) where
  balance : Int64
  nonce : UInt64
  permissions : List Permission
  rest : X

structure KDAFeesPoolData where
  ownerAddress : Bytes
  kda : Bytes
  active : Bool
  adminAddress : Bytes
  (fRatioKDA fRatioKLV kdaBalance klvBalance : Int64)
  deriving DecidableEq, Repr

/-- The encodings of the records in data tries. -/
structure Marshalizer where
  userKDA : UserKDA → Bytes
  toUserKDA : Bytes → Except Err UserKDA
  feesPool : KDAFeesPoolData → Bytes
  toFeesPool : Bytes → Option KDAFeesPoolData
  toKDAData : Bytes → Except Err KDAData

section
variable {F : Type}

/-- `RetrieveValue` of the data trie tracker. -/
def retrieveValue (h : Handler F) (key : Bytes) : Bytes :=
  overlay h.dirtyData (h.rootHash.getD fun _ => []) key

/-- `SaveKeyValue` of the data trie tracker. -/
def saveKeyValue (h : Handler F) (key value : Bytes) : Handler F :=
  { h with dirtyData := (key, value) :: h.dirtyData.filter fun e => e.1 ≠ key }

end

section
variable {X : Type} (mr : Marshalizer)

/-- `GetUserKDA` of a fungible asset. -/
def getUserKDA (h : Handler (UserData X)) (assetID : Bytes) : Except Err UserKDA :=
  if retrieveValue h (toKDAKey assetID []) = [] then .ok UserKDA.fresh
  else mr.toUserKDA (retrieveValue h (toKDAKey assetID []))

/-- `SetUserKDA` of a fungible asset. -/
def setUserKDA (h : Handler (UserData X)) (assetID : Bytes) (userKDA : UserKDA) :
    Handler (UserData X) :=
  saveKeyValue h (toKDAKey assetID []) (mr.userKDA userKDA)

/-- The asset that is KLV, which has no identifier in some calls. -/
def isKLV (assetID : Bytes) : Bool := assetID = [] || assetID = KLVIdentifier

section

variable (h : Handler (UserData X))

def getBalance (assetID : Bytes) : Int64 :=
  if isKLV assetID then h.fields.balance
  else ((getUserKDA mr h assetID).toOption.map UserKDA.balance).getD 0

/-- A handler with another KLV balance. -/
def setBalance (balance : Int64) : Handler (UserData X) :=
  { h with fields := { h.fields with balance := balance } }

/-- `AddToBalance` of KLV. -/
def addToBalance (value : Int64) : Except Err (Handler (UserData X)) := do
  reject (value < 0) .ErrInvalidValue
  reject (h.fields.balance + value < 0) .ErrAddBalanceOverflow
  pure (setBalance h (h.fields.balance + value))

def subFromBalance (value : Int64) (assetID : Bytes) : Except Err (Handler (UserData X)) := do
  reject (value < 0) .ErrInvalidValue
  if isKLV assetID then
    reject (h.fields.balance - value < 0) .ErrInsufficientFunds
    pure (setBalance h (h.fields.balance - value))
  else
    let userKDA ← getUserKDA mr h assetID
    reject (userKDA.balance - value < 0) .ErrInsufficientFunds
    pure (setUserKDA mr h assetID { userKDA with balance := userKDA.balance - value })

/-- `IncreaseNonce(1)` -/
def increaseNonce : Handler (UserData X) :=
  { h with fields := { h.fields with nonce := h.fields.nonce + 1 } }

end

end

/-! ## Fee handler -/

/-- `fees` of `feeHandler.go` -/
structure Fees where
  txFee : Int64
  kAppFee : Int64
  deriving DecidableEq, Repr

structure FeeHandler where
  mapHashFee : FMap Bytes Fees
  accumulatedTxFees : Int64
  accumulatedKAppFees : Int64

namespace FeeHandler

def booked (f : FeeHandler) (txHash : Bytes) : Fees := (f.mapHashFee.lookup txHash).getD ⟨0, 0⟩

def processTransactionFee (f : FeeHandler) (txCost kAppCost : Int64) (txHash : Bytes) :
    FeeHandler :=
  if txCost < 0 ∨ kAppCost < 0 then f
  else
    let fee := f.booked txHash
    ⟨f.mapHashFee.insert txHash ⟨fee.txFee + txCost, fee.kAppFee + kAppCost⟩,
      f.accumulatedTxFees + txCost, f.accumulatedKAppFees + kAppCost⟩

/-- `RevertTransactionFee`, which never takes back more than was booked. -/
def revertTransactionFee (f : FeeHandler) (txHash : Bytes) (txCost kAppCost : Int64) : FeeHandler :=
  match f.mapHashFee.lookup txHash with
  | none => f
  | some fee =>
    let txCost := if fee.txFee < txCost then fee.txFee else txCost
    let kAppCost := if fee.kAppFee < kAppCost then fee.kAppFee else kAppCost
    ⟨f.mapHashFee.insert txHash ⟨fee.txFee - txCost, fee.kAppFee - kAppCost⟩,
      f.accumulatedTxFees - txCost, f.accumulatedKAppFees - kAppCost⟩

end FeeHandler

/-! ## The ledger -/

/-- The three stores with the cacher over them, the fee handler and the gas of the block. -/
structure Ledger (X K P : Type) where
  users : CachedDB (UserData X)
  kapps : CachedDB K
  peers : CachedDB P
  fees : FeeHandler
  gasUsed : UInt64

/-- What the cacher shows of a side: the stored accounts and the handlers it handed out. -/
def view {F : Type} (c : CachedDB F) : (Bytes → Option (Stored F)) × List (Bytes × Handler F) :=
  (c.db.tries.mainTrie, c.cache)

structure View (X K P : Type) where
  users : (Bytes → Option (Stored (UserData X))) × List (Bytes × Handler (UserData X))
  kapps : (Bytes → Option (Stored K)) × List (Bytes × Handler K)
  peers : (Bytes → Option (Stored P)) × List (Bytes × Handler P)

/-- An operation of a KApp on the cacher. -/
inductive LedgerOp (X K P : Type) where
  | user (op : SideOp (UserData X))
  | kapp (op : SideOp K)
  | peer (op : SideOp P)

/-- A contract of a transaction: the operations it makes and the error it returns. -/
abbrev Contract (X K P : Type) := View X K P → List (LedgerOp X K P) × Option Err

/-- A transaction with its hash and its contracts. -/
structure Tx (X K P : Type) extends Transaction where
  hash : Bytes
  contracts : List (Contract X K P)

/-- What processing takes from other components. -/
structure Env (K PublicKey Cost : Type) where
  signing : Signing PublicKey
  /-- `economicsFee.CheckValidityTxValues` -/
  checkValidityTxValues : Transaction → Except Err Cost
  /-- the fees are not below the computed costs, which are sums of fee parameters -/
  fees_nonneg : ∀ tx cost, checkValidityTxValues tx = .ok cost →
    0 ≤ tx.bandwidthFee ∧ 0 ≤ tx.kAppFee
  /-- `economicsFee.ComputeGas`: the gas limit -/
  computeGas : Transaction → Cost → Except Err UInt64
  /-- `economicsFee.MaxGasLimitPerBlock` -/
  maxGasLimitPerBlock : UInt64
  /-- `common.IsAccountFrozen` -/
  isAccountFrozen : Bytes → Bool
  /-- the account that the factory creates for the KApp of the fee pools -/
  newFeesPoolKApp : K
  marshalizer : Marshalizer

namespace Ledger

variable {X K P : Type}

def saveAll (l : Ledger X K P) : Ledger X K P :=
  { l with users := l.users.saveAll, kapps := l.kapps.saveAll, peers := l.peers.saveAll }

def resetAll (l : Ledger X K P) : Ledger X K P :=
  { l with users := l.users.reset, kapps := l.kapps.reset, peers := l.peers.reset }

def view (l : Ledger X K P) : View X K P :=
  ⟨Processing.view l.users, Processing.view l.kapps, Processing.view l.peers⟩

def exec (l : Ledger X K P) : LedgerOp X K P → Ledger X K P
  | .user op => { l with users := l.users.exec op }
  | .kapp op => { l with kapps := l.kapps.exec op }
  | .peer op => { l with peers := l.peers.exec op }

/-- The change of a user handler that the caller holds; the cache sees it while it has the handler. -/
def touchUser (l : Ledger X K P) (address : Bytes) (h : Handler (UserData X)) : Ledger X K P :=
  { l with users := l.users.write address h.fields h.dirtyData }

/-- The same for a handler of a KApp. -/
def touchKApp (l : Ledger X K P) (address : Bytes) (h : Handler K) : Ledger X K P :=
  { l with kapps := l.kapps.write address h.fields h.dirtyData }

end Ledger

section
variable {X K P PublicKey Cost : Type}

/-- A call on the ledger, which keeps what it changed when it fails. -/
abbrev Proc (X K P α : Type) := Process (Ledger X K P) Err α

def getExistingUser (address : Bytes) : Proc X K P (Handler (UserData X)) :=
  .attempt fun l => (l.users.getExisting address).map fun r => (r.1, { l with users := r.2 })

def getExistingKapp (address : Bytes) : Proc X K P (Handler K) :=
  .attempt fun l => (l.kapps.getExisting address).map fun r => (r.1, { l with kapps := r.2 })

def loadKApp (new : K) (address : Bytes) : Proc X K P (Handler K) :=
  .attempt fun l => (l.kapps.load new address).map fun r => (r.1, { l with kapps := r.2 })

/-- `accountsCacher.SaveUser`; the handler comes back with its new root hash. -/
def saveUser (address : Bytes) (h : Handler (UserData X)) : Proc X K P (Handler (UserData X)) :=
  fun l => (.ok (l.users.saveUser address h).2, { l with users := (l.users.saveUser address h).1 })

/-! ## The KApp of the fee pools -/

def KDAFeesPoolKAppAddress : Bytes :=
  [0, 0, 0, 0, 0, 0, 0, 0, 0, 1, 0, 0, 0, 0, 0, 0, 0, 0, 0, 0, 0, 0, 0, 0, 0, 0, 0, 0, 0, 6, 255, 255]

def KDAKAppAddress : Bytes :=
  [0, 0, 0, 0, 0, 0, 0, 0, 0, 1, 0, 0, 0, 0, 0, 0, 0, 0, 0, 0, 0, 0, 0, 0, 0, 0, 0, 0, 0, 1, 255, 255]

variable (env : Env K PublicKey Cost)

/-- `getKApp` of `kdaFeesPool.go` -/
def getFeesPoolKApp : Proc X K P (Handler K) := loadKApp env.newFeesPoolKApp KDAFeesPoolKAppAddress

def getPool (app : Handler K) (kda : Bytes) : Except Err KDAFeesPoolData :=
  if retrieveValue app kda = [] then .error .ErrAssetPoolNotFound
  else orError (env.marshalizer.toFeesPool (retrieveValue app kda)) .ErrAssetPoolNotFound

def setPool (app : Handler K) (kda : Bytes) (pool : KDAFeesPoolData) : Handler K :=
  saveKeyValue app kda (env.marshalizer.feesPool pool)

/-- `compute`: the pool and what the fee costs in its asset. -/
def compute (app : Handler K) (klvFee : Int64) (info : KDAFee) :
    Except Err (KDAFeesPoolData × Int64) := do
  let pool ← getPool env app info.kda
  reject (¬ pool.active) .ErrAssetPoolNotActive
  reject (pool.fRatioKLV ≤ 0 ∨ pool.fRatioKDA ≤ 0) .ErrAssetPoolInvalidAmount
  let fv := (klvFee.toInt * pool.fRatioKDA.toInt).tdiv pool.fRatioKLV.toInt
  reject (¬ (-2 ^ 63 ≤ fv ∧ fv < 2 ^ 63)) .ErrAssetPoolInvalidAmount
  pure (pool, Int64.ofInt fv)

def validate (app : Handler K) (klvFee : Int64) (info : KDAFee) : Except Err KDAFeesPoolData := do
  reject (klvFee < 0) .ErrAssetPoolInvalidAmount
  let (pool, value) ← compute env app klvFee info
  reject (pool.klvBalance < klvFee) .ErrAssetPoolOutOfFunds
  reject (value ≤ 0 ∨ info.amount < value) .ErrAssetPoolAmountError
  pure pool

def feeAssetID (info : KDAFee) : Bytes :=
  if info.kda = [] then KLVIdentifier else (splitSp info.kda).headD []

/-- `checkFeeTransferControls` of an encoded asset. -/
def checkFeeTransferControls (senderAddress kdaBytes : Bytes) : Except Err Unit := do
  reject (kdaBytes = []) .ErrAssetNotFound
  let kda ← env.marshalizer.toKDAData kdaBytes
  reject (kda.isPaused) .ErrAssetIsPaused
  reject (¬ kda.canSenderTransfer senderAddress) .ErrKDATransferNotAllowed

/-- `Swap`; the handler of the sender comes back. -/
def swap (address : Bytes) (sender : Handler (UserData X)) (klvAmount : Int64) (info : KDAFee) :
    Proc X K P (Handler (UserData X)) := do
  let app ← getFeesPoolKApp env
  let pool ← .lift (validate env app klvAmount info)
  let kdaKapp ← getExistingKapp KDAKAppAddress
  .lift (checkFeeTransferControls env address
    (retrieveValue kdaKapp (toKDAKey (feeAssetID info) [])))
  let sender ← .lift (subFromBalance env.marshalizer sender info.amount info.kda)
  .modify (·.touchUser address sender)
  .lift (reject (pool.klvBalance - klvAmount < 0) .ErrInsufficientFunds)
  let sender ← .lift (addToBalance sender klvAmount)
  .modify (·.touchUser address sender)
  let sender ← saveUser address sender
  .modify (·.touchKApp KDAFeesPoolKAppAddress (setPool env app info.kda
    { pool with
      kdaBalance := pool.kdaBalance + info.amount, klvBalance := pool.klvBalance - klvAmount }))
  pure sender

/-! ## Transactions -/

variable (tx : Transaction)

/-- `computeKDAFees`: the asset the fees are paid in, and how much of it. -/
def computeKDAFees (totalFees : Int64) : Proc X K P (Bytes × Int64) :=
  match tx.kdaFee with
  | none => pure (KLVIdentifier, totalFees)
  | some fee =>
    if fee.kda ≠ [] ∧ fee.kda ≠ KLVIdentifier then do
      let app ← getFeesPoolKApp env
      let (_, totalFeesKDA) ←
        .lift ((compute env app totalFees fee).mapError fun _ => .ErrComputeKDAFeeError)
      pure (fee.kda, totalFeesKDA)
    else pure (KLVIdentifier, totalFees)

def checkPaymentFeeBalance (acntSnd : Handler (UserData X)) : Proc X K P Unit := do
  .lift (reject (0 < tx.bandwidthFee ∧ 9223372036854775807 - tx.bandwidthFee < tx.kAppFee)
    .ErrOverflow)
  let (assetID, kdaFees) ← computeKDAFees env tx (tx.bandwidthFee + tx.kAppFee)
  .lift (reject (getBalance env.marshalizer acntSnd assetID < kdaFees) .ErrInsufficientFee)

/-- `checkTxValues` up to the fees: nonce, permission, signatures and the cost. -/
def checkTxAuthorization (acntSnd : Handler (UserData X)) (txHash : Bytes) : Except Err Cost := do
  validateNonce acntSnd.fields.nonce tx
  let permission ← getPermission tx.sender acntSnd.fields.permissions tx.permissionID
  let _ ← validatePermission env.signing tx permission txHash
  env.checkValidityTxValues tx

variable (tx : Tx X K P)

/-- `PreProcessTransaction`: the account of the sender and the gas limit. -/
def preProcessTransaction : Proc X K P (Handler (UserData X) × UInt64) := do
  let ownerAcc ← getExistingUser tx.sender
  let cost ← .lift (checkTxAuthorization env tx.toTransaction ownerAcc tx.hash)
  checkPaymentFeeBalance env tx.toTransaction ownerAcc
  let gasLimit ← .lift (env.computeGas tx.toTransaction cost)
  pure (ownerAcc, gasLimit)

def consumeFee (fee : Int64) (ownerAcc : Handler (UserData X)) :
    Except Err (Handler (UserData X)) :=
  if fee = 0 then .ok ownerAcc
  else do
    reject (ownerAcc.fields.balance = 0 ∨ ownerAcc.fields.balance < fee) .ErrInsufficientFee
    subFromBalance env.marshalizer ownerAcc fee KLVIdentifier

/-- The swap of `ProcessBandwidthFee`, for a transaction with a KDA fee. -/
def swapFees (tx : Transaction) (ownerAcc : Handler (UserData X)) :
    Proc X K P (Handler (UserData X)) :=
  match tx.kdaFee with
  | none => pure ownerAcc
  | some fee => swap env tx.sender ownerAcc (tx.bandwidthFee + tx.kAppFee) fee

def processBandwidthFee (ownerAcc : Handler (UserData X)) : Proc X K P Unit := do
  let ownerAcc ← swapFees env tx.toTransaction ownerAcc
  let ownerAcc ← .lift (consumeFee env tx.bandwidthFee ownerAcc)
  let _ ← saveUser tx.sender (increaseNonce ownerAcc)
  .modify fun l => { l with fees := l.fees.processTransactionFee tx.bandwidthFee 0 tx.hash }
  .modify Ledger.saveAll

def processKAppFee (ownerAcc : Handler (UserData X)) : Proc X K P Int64 := do
  let ownerAcc ← .lift (consumeFee env tx.kAppFee ownerAcc)
  .modify (·.touchUser tx.sender ownerAcc)
  .modify fun l => { l with fees := l.fees.processTransactionFee 0 tx.kAppFee tx.hash }
  pure tx.kAppFee

/-- The loop of `processContracts`. -/
def runContracts : List (Contract X K P) → Proc X K P Unit
  | [] => pure ()
  | contract :: rest => fun l =>
    match contract l.view with
    | (ops, none) => runContracts rest (ops.foldl Ledger.exec l)
    | (ops, some e) => (.error e, ops.foldl Ledger.exec l)

def processContracts : Proc X K P Unit := do
  runContracts tx.contracts
  .modify Ledger.saveAll

/-- `RevertTransactionFee` for a KApp fee that was taken. -/
def Ledger.revertKAppFee (l : Ledger X K P) (txHash : Bytes) (kAppFee : Int64) : Ledger X K P :=
  if 0 < kAppFee then { l with fees := l.fees.revertTransactionFee txHash 0 kAppFee } else l

/-- `ProcessTransaction` after `ResetAll` and the check for a frozen sender. -/
def executeTransaction : Proc X K P Unit := fun l =>
  match getExistingUser tx.sender l with
  | (.error e, l) => (.error e, l)
  | (.ok ownerAcc, l) =>
    match processKAppFee env tx ownerAcc l with
    | (.error e, l) => (.error e, l.resetAll)
    | (.ok kAppFee, l) =>
      match processContracts tx l with
      | (.error e, l) => (.error e, l.resetAll.revertKAppFee tx.hash kAppFee)
      | (.ok _, l) => (.ok (), l.resetAll)

def processTransaction : Proc X K P Unit := do
  .modify Ledger.resetAll
  .lift (reject (env.isAccountFrozen tx.sender) .ErrAccountFrozen)
  executeTransaction env tx

/-- `RevertToSnapshot` of one store; an error is only logged. -/
def revertSide {F : Type} (c : CachedDB F) (snapshot : Nat) : CachedDB F :=
  { c with db := (c.db.revertToSnapshot snapshot).toOption.getD c.db }

/-- The part of `processAndRemoveBadTransaction` that can reject a transaction:
`PreProcessTransaction`, the gas check of the block and `ProcessBandwidthFee`. -/
def enterBlock : Proc X K P Unit := do
  let (ownerAcc, gasLimit) ← preProcessTransaction env tx
  .attempt fun l => (reject (env.maxGasLimitPerBlock < l.gasUsed + gasLimit)
    .ErrMaxGasLimitPerBlockExceeded).map fun u => (u, l)
  processBandwidthFee env tx ownerAcc
  .modify fun l => { l with gasUsed := l.gasUsed + gasLimit }

/-- The stores taken back to the journal lengths of an earlier ledger. -/
def Ledger.revertTo (l l₀ : Ledger X K P) : Ledger X K P :=
  { l with
    users := revertSide l.users l₀.users.db.entries.length
    kapps := revertSide l.kapps l₀.kapps.db.entries.length
    peers := revertSide l.peers l₀.peers.db.entries.length }

/-- `ProcessTransaction` with the rollback of the stores when it fails. -/
def processOrRevert : Proc X K P Unit := fun l =>
  match processTransaction env tx l with
  | (.error e, l') => (.error e, l'.revertTo l)
  | (.ok _, l') => (.ok (), l')

def processAndRemoveBadTransaction : Proc X K P Unit := do
  enterBlock env tx
  processOrRevert env tx

end

end KleverGo.Processing
