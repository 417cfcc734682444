import KleverGo.Kvm.Host

/-!
# What the node does with the output of a transaction

`processSCOutputAccounts` of `core/process/smartContract/process.go`: the storage updates and the
staged code of every output account are written to the account it names.  The storage of an account
is a function: a key that is not there has an empty value.

The accounts are taken in the order of a list, and so are the storage updates of each: the source
sorts the accounts and ranges over the updates.  The fork flags are all active.
-/

namespace KleverGo.Kvm

inductive ProcessError where
  | ErrInvalidOutputAccountAddressLength
  | ErrStoreProtectedKey
  | ErrStorageKeyTooLong
  | ErrLeafSizeTooBig
  | ErrInvalidCodeMetadata
  deriving DecidableEq, Repr

/-- What a transaction of a contract changes of an account. -/
structure StateAccount where
  storage : Bytes → Bytes := fun _ => []
  code : Bytes := []
  codeMetadata : Bytes := []
  ownerAddress : Address := []

abbrev StateAccounts := Finmap fun _ : Address => StateAccount

/-- `LoadUser`: a missing account is new. -/
def StateAccounts.loadUser (accounts : StateAccounts) (address : Address) : StateAccount :=
  (accounts.lookup address).getD {}

/-! ## Code metadata -/

structure CodeMetadata where
  payable : Bool := false
  payableBySC : Bool := false
  upgradeable : Bool := false
  readable : Bool := false
  deriving DecidableEq

def codeMetadataFromBytes : Bytes → CodeMetadata
  | [first, second] =>
    { upgradeable := first &&& 1 ≠ 0
      readable := first &&& 4 ≠ 0
      payable := second &&& 2 ≠ 0
      payableBySC := second &&& 4 ≠ 0 }
  | _ => {}

def CodeMetadata.toBytes (metadata : CodeMetadata) : Bytes :=
  [(if metadata.upgradeable then 1 else 0) ||| (if metadata.readable then 4 else 0),
    (if metadata.payable then 2 else 0) ||| (if metadata.payableBySC then 4 else 0)]

def filterCodeMetadataForUpgrade (input : Bytes) : Except ProcessError Bytes :=
  let raw := codeMetadataFromBytes input
  if input = raw.toBytes then .ok raw.toBytes else .error .ErrInvalidCodeMetadata

/-! ## Storage -/

/-- `scProtectedKeyPrefixes`: `KLEVER`, `KLV`, `KFI` and `KDA`. -/
def scProtectedKeyPrefixes : List Bytes :=
  [[75, 76, 69, 86, 69, 82], [75, 76, 86], [75, 70, 73], [75, 68, 65]]

/-- `vmInternalStorageKeyPrefix`, the bytes of `KLEVERVM@`. -/
def vmInternalStorageKeyPrefix : Bytes := [75, 76, 69, 86, 69, 82, 86, 77, 64]

def isProtectedStorageKey (key : Bytes) : Bool :=
  if vmInternalStorageKeyPrefix.isPrefixOf key then false
  else scProtectedKeyPrefixes.any fun keyPrefix => keyPrefix.isPrefixOf key

def MaxLeafSize : Nat := 2 ^ 18 + 2 ^ 19

def saveKeyValue (storage : Bytes → Bytes) (key value : Bytes) :
    Except ProcessError (Bytes → Bytes) :=
  if value.length > MaxLeafSize then .error .ErrLeafSizeTooBig
  else .ok (Function.update storage key value)

/-- One round of the loop of `saveStorageUpdates`. -/
def saveStorageUpdate (storage : Bytes → Bytes) (storeUpdate : StorageUpdate) :
    Except ProcessError (Bytes → Bytes) :=
  if storeUpdate.written = true ∧ isProtectedStorageKey storeUpdate.offset = true then
    .error .ErrStoreProtectedKey
  else if storeUpdate.written = false then .ok storage
  -- 4096 is `MaxStorageKeyLength`
  else if storeUpdate.data ≠ [] ∧ storeUpdate.offset.length > 4096 then .error .ErrStorageKeyTooLong
  else saveKeyValue storage storeUpdate.offset storeUpdate.data

def saveStorageUpdates (storage : Bytes → Bytes) :
    List (Bytes × StorageUpdate) → Except ProcessError (Bytes → Bytes)
  | [] => .ok storage
  | (_, storeUpdate) :: storageUpdates => do
    let storage ← saveStorageUpdate storage storeUpdate
    saveStorageUpdates storage storageUpdates

/-! ## Code -/

def updateSmartContractCode (isSmartContractAddress : Address → Bool) (stateAccount : StateAccount)
    (address : Address) (outputAccount : OutputAccount) : Except ProcessError StateAccount :=
  if outputAccount.code = [] then .ok stateAccount
  else if outputAccount.codeMetadata = [] then .ok stateAccount
  else if isSmartContractAddress address = false then .ok stateAccount
  else do
    let codeMetadata ← filterCodeMetadataForUpgrade outputAccount.codeMetadata
    let sameCode := outputAccount.code = stateAccount.code
    let sameCodeMetadata := codeMetadata = stateAccount.codeMetadata
    let codeDeployerAddress := outputAccount.codeDeployerAddress.getD []
    let isCodeDeployerOwner :=
      stateAccount.ownerAddress = codeDeployerAddress ∧ codeDeployerAddress ≠ []
    let isDeployment := stateAccount.code = [] ∧ stateAccount.ownerAddress = []
    let isUpgrade := ¬isDeployment ∧ isCodeDeployerOwner ∧
      (codeMetadataFromBytes stateAccount.codeMetadata).upgradeable = true
    pure (
      if sameCode ∧ sameCodeMetadata then stateAccount
      else if isDeployment then
        { stateAccount with
          ownerAddress := codeDeployerAddress, codeMetadata, code := outputAccount.code }
      else if isUpgrade then { stateAccount with codeMetadata, code := outputAccount.code }
      else stateAccount)

/-! ## The output -/

/-- The output accounts in the order they are processed, each with its storage updates in theirs. -/
abbrev SortedOutput := List (Address × OutputAccount × List (Bytes × StorageUpdate))

/-- `processSCOutputAccounts`, for a transaction that is not simulated.  32 is the length of an
address. -/
def processSCOutputAccounts (isSmartContractAddress : Address → Bool) (accounts : StateAccounts) :
    SortedOutput → Except ProcessError StateAccounts
  | [] => .ok accounts
  | (address, outAcc, storageUpdates) :: outputAccounts =>
    if address.length ≠ 32 then .error .ErrInvalidOutputAccountAddressLength
    else do
      let acc := accounts.loadUser address
      let storage ← saveStorageUpdates acc.storage storageUpdates
      let acc ← updateSmartContractCode isSmartContractAddress { acc with storage } address outAcc
      processSCOutputAccounts isSmartContractAddress (accounts.insert address acc) outputAccounts

/-- The order an output is processed in: every account once, and every storage update of it. -/
structure SortedOutput.Of (sorted : SortedOutput) (outputAccounts : OutputAccounts) : Prop where
  accounts : Finmap.Enumerates (sorted.map fun entry => (entry.1, entry.2.1)) outputAccounts
  storageUpdates : ∀ entry ∈ sorted, Finmap.Enumerates entry.2.2 entry.2.1.storageUpdates

end KleverGo.Kvm
