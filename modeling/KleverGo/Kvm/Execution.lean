import KleverGo.Kvm.Host

/-!
# Running contracts on the host

`kvm/vmhost/hostCore/execution.go` with the parts of the metering, runtime, storage and blockchain
contexts it uses: gas accounting, the frames of a call on the destination context and on the same
context, and their closing.
-/

namespace KleverGo.Kvm

open OutputContext UInt64

variable {L : Type}

/-! ## Sums of gas -/

theorem addUint64_toNat (a b : UInt64) :
    (addUint64 a b).toNat = min (a.toNat + b.toNat) (2 ^ 64 - 1) := by
  have ha := a.toNat_lt
  have hb := b.toNat_lt
  unfold addUint64
  split
  · next h =>
    rw [UInt64.le_iff_toNat_le, UInt64.toNat_add] at h
    rw [UInt64.toNat_add]
    omega
  · next h =>
    rw [UInt64.le_iff_toNat_le, UInt64.toNat_add] at h
    rw [toNat_ofNat']
    omega

instance : Std.Commutative addUint64 where
  comm a b := by
    rw [← UInt64.toNat_inj, addUint64_toNat, addUint64_toNat, Nat.add_comm]

instance : Std.Associative addUint64 where
  assoc a b c := by
    rw [← UInt64.toNat_inj]
    simp only [addUint64_toNat]
    omega

/-- The loop that adds up a figure over the accounts of a map, in any order. -/
def totalGas (accounts : Finset Address) (gas : Address → UInt64) : UInt64 :=
  accounts.fold addUint64 0 gas

/-- The gas under an address, as a map of the source reads it. -/
def gasOf (gasUsedByAccounts : Finmap fun _ : Address => UInt64) (address : Address) : UInt64 :=
  (gasUsedByAccounts.lookup address).getD 0

namespace Host

/-! ## Metering -/

variable (host : Host L)

def getPointsUsed : UInt64 :=
  match host.runtime.runningInstance with
  | none => 0
  | some id => host.runtime.pointsUsed id

def setPointsUsed (gasPoints : UInt64) (host : Host L) : Host L :=
  match host.runtime.runningInstance with
  | none => host
  | some id =>
    { host with runtime := { host.runtime with
        pointsUsed := Function.update host.runtime.pointsUsed id
          (if gasPoints > ofNat (2 ^ 63 - 1) then ofNat (2 ^ 63 - 1)
            else gasPoints) } }

def useGas (gas : UInt64) (host : Host L) : Host L :=
  host.setPointsUsed (addUint64 host.getPointsUsed gas)

def restoreGas (gas : UInt64) (host : Host L) : Host L :=
  if gas ≤ host.getPointsUsed then host.setPointsUsed (subUint64 host.getPointsUsed gas) else host

def gasLeft : UInt64 :=
  if host.metering.gasForExecution < host.getPointsUsed then 0
  else host.metering.gasForExecution - host.getPointsUsed

def gasSpentByContract : UInt64 :=
  addUint64 host.metering.initialCost host.getPointsUsed

def mapOutput (f : OutputContext → OutputContext) (host : Host L) : Host L :=
  { host with output := f host.output }

/-- `GetContextAddress` -/
def contextAddress : Address := host.runtime.vmInput.recipientAddr

def updateSCGasUsed : Host L :=
  let currentAccountAddress := host.contextAddress
  let host := host.mapOutput fun output => (output.getOutputAccount currentAccountAddress).2
  -- `getGasUsedByAllOtherAccounts`
  let gasUsedByOthers := totalGas host.output.outputAccounts.keys fun address =>
    if address ≠ currentAccountAddress then gasOf host.metering.gasUsedByAccounts address else 0
  { host with metering := { host.metering with
      gasUsedByAccounts := host.metering.gasUsedByAccounts.insert currentAccountAddress
        (subUint64 host.gasSpentByContract gasUsedByOthers) } }

def setGasUsedToOutputAccounts : HostM L Unit := do
  Process.modify fun host =>
    host.mapOutput fun output => output.setGasUsed (gasOf host.metering.gasUsedByAccounts)
  Process.query fun host =>
    reject (¬host.metering.gasUsedByAccounts.keys ⊆ host.output.outputAccounts.keys)
      .ErrOutputAccountMissing

def getCurrentTotalUsedGas : UInt64 :=
  totalGas host.output.outputAccounts.keys fun address =>
    ((host.output.outputAccounts.lookup address).map (·.gasUsed)).getD 0

def checkGas : Except VMError Unit :=
  reject (addUint64 host.getCurrentTotalUsedGas host.output.outputState.gasRemaining ≠
    host.metering.initialGasProvided) .ErrInputAndOutputGasDoesNotMatch

def updateGasStateOnSuccess : HostM L Unit := do
  Process.modify updateSCGasUsed
  setGasUsedToOutputAccounts
  Process.query checkGas

def updateGasStateOnFailure : Host L :=
  host.mapOutput fun output => output.updateOutputAccount host.contextAddress fun account =>
    { account with gasUsed := addUint64 account.gasUsed host.metering.initialGasProvided }

def useGasBounded (gasToUse : UInt64) : HostM L Unit := do
  Process.query fun host => reject (host.gasLeft < gasToUse) .ErrNotEnoughGas
  Process.modify (useGas gasToUse)

/-! ## The end of an execution -/

def resolveReturnMessageFromError (err : VMError) : String :=
  if err = .ErrSignalError then host.output.outputState.returnMessage
  else if err = .ErrMemoryLimit then VMError.ErrExecutionFailed.text
  else if host.output.outputState.returnMessage ≠ "" then host.output.outputState.returnMessage
  else err.text

def createVMOutputInCaseOfError (err : VMError) (host : Host L) : VMOutput × Host L :=
  ({ returnCode := err.returnCode
     returnMessage := host.resolveReturnMessageFromError err }, host.updateGasStateOnFailure)

/-- The part of `GetVMOutput` that brings the active state up to date. -/
def closeOutputState : HostM L Unit := do
  Process.modify fun host => host.mapOutput removeNonUpdatedCode
  Process.modify fun host => host.mapOutput fun output => output.setGasRemaining host.gasLeft
  updateGasStateOnSuccess

/-- `GetVMOutput`: the active state itself, or an output for the error. -/
def getVMOutput : VMOutput × Host L :=
  match closeOutputState host with
  | (.ok _, host) => (host.output.outputState, host)
  | (.error err, host) => host.createVMOutputInCaseOfError err

/-! ## Frames -/

/-- `managedTypesContext.PushState` followed by `InitState`. -/
def pushManagedTypes : Host L :=
  { host with managedTypes :=
      { backTransfers := {}, stack := host.managedTypes.backTransfers :: host.managedTypes.stack } }

/-- `managedTypesContext.PopSetActiveState` -/
def popManagedTypes : Host L :=
  match host.managedTypes.stack with
  | [] => host
  | backTransfers :: stack => { host with managedTypes := { backTransfers, stack } }

variable (input : ContractCallInput)

/-- `runtimeContext.PushState` followed by `InitStateFromContractCallInput`. -/
def pushRuntime (host : Host L) : Host L :=
  { host with runtime := { host.runtime with
      stateStack := host.runtime.toRuntimeState :: host.runtime.stateStack
      instanceStack := host.runtime.runningInstance :: host.runtime.instanceStack
      vmInput := input
      codeAddress := input.recipientAddr
      callFunction := input.function } }

/-- `runtimeContext.PopSetActiveState` -/
def popRuntime : Host L :=
  match host.runtime.stateStack with
  | [] => host
  | prevState :: stateStack =>
    { host with runtime := { host.runtime with
        toRuntimeState := prevState
        stateStack
        runningInstance := host.runtime.instanceStack.headD host.runtime.runningInstance
        instanceStack := host.runtime.instanceStack.tail } }

/-- `meteringContext.PushState` followed by `InitStateFromContractCallInput`. -/
def pushMetering (gasProvided : UInt64) (host : Host L) : Host L :=
  { host with metering :=
      { initialGasProvided := gasProvided
        initialCost := 0
        gasForExecution := gasProvided
        gasUsedByAccounts := ∅
        stateStack := host.metering.toMeteringState :: host.metering.stateStack } }

/-- `meteringContext.PopSetActiveState` -/
def popSetMetering : Host L :=
  match host.metering.stateStack with
  | [] => host
  | prevState :: stateStack =>
    { host with metering := { toMeteringState := prevState, stateStack } }

/-- `meteringContext.PopMergeActiveState` -/
def popMergeMetering : Host L :=
  match host.metering.stateStack with
  | [] => host
  | prevState :: stateStack =>
    { host with metering := { prevState with
        -- `addToGasUsedByAccounts`
        gasUsedByAccounts := host.metering.gasUsedByAccounts.mergeWith
          (fun gasUsed gas => gasUsed.getD 0 + gas) prevState.gasUsedByAccounts
        stateStack } }

/-- `storageContext.PushState` followed by `SetAddress`. -/
def pushStorage (address : Address) (host : Host L) : Host L :=
  { host with storage :=
      { address, stateStack := host.storage.address :: host.storage.stateStack } }

/-- `storageContext.PopSetActiveState` -/
def popStorage : Host L :=
  match host.storage.stateStack with
  | [] => host
  | address :: stateStack => { host with storage := { address, stateStack } }

/-- The pushes of `executeOnDestContextNoBuiltinFunction`. -/
def enterDestContext (host : Host L) : Host L :=
  (((host.pushManagedTypes.mapOutput openFrame).pushRuntime input).pushMetering
    input.gasProvided).pushStorage input.recipientAddr

def finishExecuteOnDestContext (executeErr : Option VMError) (host : Host L) : VMOutput × Host L :=
  let (vmOutput, host) := match executeErr with
    | some err => host.createVMOutputInCaseOfError err
    | none => host.getVMOutput
  let host := host.popManagedTypes.popStorage
  let host :=
    if vmOutput.returnCode = .Ok then
      host.popMergeMetering.mapOutput popMergeActiveState
    else host.popSetMetering.mapOutput popSetActiveState
  (vmOutput, host.popRuntime.restoreGas vmOutput.gasRemaining)

/-- The pushes of `ExecuteOnSameContext`: the callee's code runs on the account of the caller. -/
def enterSameContext (host : Host L) : Host L :=
  let librarySCAddress := input.recipientAddr
  let input := { input with recipientAddr := input.callerAddr }
  let host := (host.pushManagedTypes.mapOutput pushState).pushRuntime input
  let host := { host with runtime := { host.runtime with codeAddress := librarySCAddress } }
  host.pushMetering input.gasProvided

def finishExecuteOnSameContext (executeErr : Option VMError) (host : Host L) : Host L :=
  if host.output.outputState.returnCode ≠ .Ok ∨ executeErr ≠ none then
    (host.popManagedTypes.popSetMetering.mapOutput popSetActiveState).popRuntime
  else
    let (vmOutput, host) := host.getVMOutput
    ((host.popMergeMetering.mapOutput popDiscard).popManagedTypes.popRuntime).restoreGas
      vmOutput.gasRemaining

def errorOf {α : Type} : Except VMError α → Option VMError
  | .ok _ => none
  | .error err => some err

end Host

end KleverGo.Kvm
