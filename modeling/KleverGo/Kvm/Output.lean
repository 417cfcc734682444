import KleverGo.Core.Bytes
import KleverGo.Lib.UnorderedMap

/-!
# The output context

`kvm/vmhost/contexts/output.go`: the output a transaction has built so far, the states saved for
the call frames that are open, and the addresses whose code is to be replaced.  A frame is opened
by `pushState` and closed by `popSetActiveState`, which goes back to the saved state,
`popMergeActiveState`, which brings the saved state and the one of the frame together, or
`popDiscard`, which forgets the saved state.

An output account is kept under its address, which the account of the source repeats in a field of
its own.  The fork flags are all active.  The counters of bytes added to and deleted from the
storage are natural numbers: no transaction writes `2^64` bytes.
-/

namespace KleverGo.Kvm

abbrev Address := Bytes

/-- `vmcommon.StorageUpdate`; one that is not written caches what was read. -/
structure StorageUpdate where
  offset : Bytes
  data : Bytes
  written : Bool
deriving DecidableEq

structure KDATransfer where
  kdaValue : Int
  kdaTokenName : Bytes
  kdaTokenType : UInt32 := 0
  kdaTokenNonce : UInt64 := 0
  executed : Bool := false
deriving DecidableEq

structure OutputTransfer where
  index : UInt32
  senderAddress : Address
  rcvAddr : Address
  kdaTransfers : KDATransfer
deriving DecidableEq

structure LogEntry where
  identifier : Bytes
  address : Address
  topics : List Bytes
  data : List Bytes
deriving DecidableEq

/-- `vmcommon.ReturnCode`, the codes the virtual machine gives. -/
inductive ReturnCode where
  | Ok
  | VMFunctionNotFound
  | VMFunctionWrongSignature
  | VMContractNotFound
  | VMUserError
  | VMOutOfGas
  | VMOutOfFunds
  | VMExecutionFailed
  | VMContractInvalid
  | VMUpgradeFailed
deriving DecidableEq

structure OutputAccount where
  storageUpdates : Finmap fun _ : Bytes => StorageUpdate := ∅
  code : Bytes := []
  codeMetadata : Bytes := []
  codeDeployerAddress : Option Address := none
  outputTransfers : List OutputTransfer := []
  gasUsed : UInt64 := 0
  bytesAddedToStorage : Nat := 0
  bytesDeletedFromStorage : Nat := 0
deriving DecidableEq

abbrev OutputAccounts := Finmap fun _ : Address => OutputAccount

/-- `vmcommon.VMOutput`; its defaults are those of `newVMOutput`. -/
structure VMOutput where
  returnData : List Bytes := []
  returnCode : ReturnCode := .Ok
  returnMessage : String := ""
  gasRemaining : UInt64 := 0
  outputAccounts : OutputAccounts := ∅
  deletedAccounts : List Address := []
  logs : List LogEntry := []

structure CodeDeployInput where
  contractCode : Bytes
  contractCodeMetadata : Bytes
  contractAddress : Address
  codeDeployerAddress : Option Address

/-! ## Merging outputs -/

/-- `mergeTransfers`: without `mergeAllTransfers` the right list is taken to begin with the left
one, and only what it has beyond that is appended. -/
def mergeTransfers (leftTransfers rightTransfers : List OutputTransfer)
    (mergeAllTransfers : Bool) : List OutputTransfer :=
  if mergeAllTransfers then leftTransfers ++ rightTransfers
  else if leftTransfers.length < rightTransfers.length then
    leftTransfers ++ rightTransfers.drop leftTransfers.length
  else leftTransfers

def mergeOutputAccounts (leftAccount rightAccount : OutputAccount) (mergeAllTransfers : Bool) :
    OutputAccount where
  storageUpdates := rightAccount.storageUpdates ∪ leftAccount.storageUpdates
  code := if rightAccount.code ≠ [] then rightAccount.code else leftAccount.code
  codeMetadata :=
    if rightAccount.codeMetadata ≠ [] then rightAccount.codeMetadata else leftAccount.codeMetadata
  codeDeployerAddress := rightAccount.codeDeployerAddress.or leftAccount.codeDeployerAddress
  outputTransfers :=
    mergeTransfers leftAccount.outputTransfers rightAccount.outputTransfers mergeAllTransfers
  gasUsed := rightAccount.gasUsed
  bytesAddedToStorage :=
    if rightAccount.bytesAddedToStorage > leftAccount.bytesAddedToStorage then
      rightAccount.bytesAddedToStorage else leftAccount.bytesAddedToStorage
  bytesDeletedFromStorage :=
    if rightAccount.bytesDeletedFromStorage > leftAccount.bytesDeletedFromStorage then
      rightAccount.bytesDeletedFromStorage else leftAccount.bytesDeletedFromStorage

def mergeVMOutputsConditionally (leftOutput rightOutput : VMOutput) (mergeAllTransfers : Bool) :
    VMOutput where
  outputAccounts := leftOutput.outputAccounts.mergeWith
    (fun leftAccount rightAccount =>
      mergeOutputAccounts (leftAccount.getD {}) rightAccount mergeAllTransfers)
    rightOutput.outputAccounts
  logs := leftOutput.logs ++ rightOutput.logs
  returnData := leftOutput.returnData ++ rightOutput.returnData
  gasRemaining := rightOutput.gasRemaining
  returnCode := rightOutput.returnCode
  returnMessage := rightOutput.returnMessage
  deletedAccounts := leftOutput.deletedAccounts ++ rightOutput.deletedAccounts

def mergeVMOutputs (leftOutput rightOutput : VMOutput) : VMOutput :=
  mergeVMOutputsConditionally leftOutput rightOutput false

/-! ## The context -/

structure OutputContext where
  outputState : VMOutput := {}
  stateStack : List VMOutput := []
  codeUpdates : Finset Address := ∅
  codeUpdatesStack : List (Finset Address) := []
  crtTransferIndex : UInt32 := 1

namespace OutputContext

/-- The output accounts of the active state. -/
abbrev outputAccounts (context : OutputContext) : OutputAccounts :=
  context.outputState.outputAccounts

/-- Write the output accounts of the active state. -/
def setOutputAccounts (context : OutputContext) (accounts : OutputAccounts) : OutputContext :=
  { context with outputState := { context.outputState with outputAccounts := accounts } }

/-! ### Frames -/

section

variable (context : OutputContext)

/-- `PushState`.  The copy shares the storage updates with the original, which nothing writes in
place, and has transfer lists of its own. -/
def pushState : OutputContext :=
  { context with
    stateStack := mergeVMOutputs {} context.outputState :: context.stateStack
    codeUpdatesStack := context.codeUpdates :: context.codeUpdatesStack }

def popSetActiveState : OutputContext :=
  match context.stateStack with
  | [] => context
  | prevState :: stateStack =>
    { context with
      outputState := prevState
      stateStack
      codeUpdates := context.codeUpdatesStack.headD context.codeUpdates
      codeUpdatesStack := context.codeUpdatesStack.tail }

def popMergeActiveState : OutputContext :=
  match context.stateStack with
  | [] => context
  | prevState :: stateStack =>
    { context with
      outputState := mergeVMOutputs {} (mergeVMOutputs prevState context.outputState)
      stateStack
      codeUpdatesStack := context.codeUpdatesStack.tail }

def popDiscard : OutputContext :=
  match context.stateStack with
  | [] => context
  | _ :: stateStack =>
    { context with stateStack, codeUpdatesStack := context.codeUpdatesStack.tail }

def censorVMOutput : OutputContext :=
  { context with
    outputState := { context.outputState with
      returnData := []
      returnCode := .Ok
      returnMessage := ""
      gasRemaining := 0
      logs := []
      deletedAccounts := [] } }

end

/-! ### Writes -/

section

variable (context : OutputContext) (address : Address)

/-- `GetOutputAccount`: the account under the address, and whether it is new. -/
def getOutputAccount : (OutputAccount × Bool) × OutputContext :=
  match context.outputAccounts.lookup address with
  | some account => ((account, false), context)
  | none => (({}, true), context.setOutputAccounts (context.outputAccounts.insert address {}))

/-- A write through the pointer that `GetOutputAccount` hands out. -/
def updateOutputAccount (f : OutputAccount → OutputAccount) : OutputContext :=
  let ((account, _), context) := context.getOutputAccount address
  context.setOutputAccounts (context.outputAccounts.insert address (f account))

def deleteOutputAccount : OutputContext :=
  { context.setOutputAccounts (context.outputAccounts.erase address) with
    codeUpdates := context.codeUpdates.erase address }

end

section

variable (context : OutputContext)

def deployCode (input : CodeDeployInput) : OutputContext :=
  { context.updateOutputAccount input.contractAddress fun account =>
      { account with
        code := input.contractCode
        codeMetadata := input.contractCodeMetadata
        codeDeployerAddress := input.codeDeployerAddress } with
    codeUpdates := insert input.contractAddress context.codeUpdates }

def removeNonUpdatedCode : OutputContext :=
  context.setOutputAccounts (context.outputAccounts.mapWithKey fun address account =>
    if address ∈ context.codeUpdates then account
    else { account with code := [], codeMetadata := [], codeDeployerAddress := none })

/-- The code that `blockchainContext.GetCode` read from the chain, kept in the account it has looked
for the code in. -/
def cacheCode (address : Address) (code : Bytes) : OutputContext :=
  context.updateOutputAccount address fun account =>
    { account with code := if account.code ≠ [] then account.code else code }

/-- `storageUpdates[key] = update` for the storage updates of the account. -/
def setStorageUpdate (address : Address) (key : Bytes) (update : StorageUpdate) : OutputContext :=
  context.updateOutputAccount address fun account =>
    { account with storageUpdates := account.storageUpdates.insert key update }

def addDeltaBytes (address : Address) (deltaBytes : Int) : OutputContext :=
  context.updateOutputAccount address fun account =>
    if deltaBytes > 0 then
      { account with bytesAddedToStorage := account.bytesAddedToStorage + deltaBytes.toNat }
    else
      { account with
        bytesDeletedFromStorage := account.bytesDeletedFromStorage + (-deltaBytes).toNat }

def appendOutputTransfers (address : Address) (transfers : List OutputTransfer) : OutputContext :=
  context.updateOutputAccount address fun account =>
    { account with outputTransfers := account.outputTransfers ++ transfers }

/-- The end of `TransferValueOnly`: the transfer is recorded with the next index. -/
def recordValueTransfer (destination sender : Address) (value : Int) : OutputContext :=
  let context := (context.getOutputAccount sender).2
  { context.appendOutputTransfers destination
      [⟨context.crtTransferIndex, sender, destination,
        { kdaValue := value, kdaTokenName := KLVIdentifier }⟩] with
    crtTransferIndex := context.crtTransferIndex + 1 }

def setReturnCode (returnCode : ReturnCode) : OutputContext :=
  { context with outputState := { context.outputState with returnCode } }

def setReturnMessage (returnMessage : String) : OutputContext :=
  { context with outputState := { context.outputState with returnMessage } }

/-- Rewrite the return data: `Finish`, `ClearReturnData`, `RemoveReturnData`. -/
def mapReturnData (f : List Bytes → List Bytes) : OutputContext :=
  { context with
    outputState := { context.outputState with returnData := f context.outputState.returnData } }

def finish (data : Bytes) : OutputContext :=
  context.mapReturnData fun returnData => returnData ++ [data]

def clearReturnData : OutputContext :=
  context.mapReturnData fun _ => []

/-- `RemoveReturnData`; an index beyond the end changes nothing. -/
def removeReturnData (index : UInt32) : OutputContext :=
  context.mapReturnData fun returnData => returnData.eraseIdx index.toNat

/-- Append log entries to the active state. -/
def appendLogs (logs : List LogEntry) : OutputContext :=
  { context with
    outputState := { context.outputState with logs := context.outputState.logs ++ logs } }

/-- `vmOutput.DeletedAccounts = append(...)` on the active state. -/
def appendDeletedAccount (address : Address) : OutputContext :=
  { context with
    outputState := { context.outputState with
      deletedAccounts := context.outputState.deletedAccounts ++ [address] } }

def addToActiveState (rightOutput : VMOutput) : OutputContext :=
  { context with
    outputState := mergeVMOutputsConditionally context.outputState rightOutput true }

/-- The loop of `setGasUsedToOutputAccounts` over the accounts. -/
def setGasUsed (gasUsed : Address → UInt64) : OutputContext :=
  context.setOutputAccounts (context.outputAccounts.mapWithKey fun address account =>
    { account with gasUsed := gasUsed address })

/-- `context.outputState.GasRemaining = ...` -/
def setGasRemaining (gasRemaining : UInt64) : OutputContext :=
  { context with outputState := { context.outputState with gasRemaining } }

end

end OutputContext

end KleverGo.Kvm
