import KleverGo.Lib.Checked
import KleverGo.Lib.Process
import KleverGo.Kvm.Frames

/-!
# The host of the virtual machine

The contexts of `kvm/vmhost/contexts` that a nested call pushes and pops (managed types, output,
runtime, metering, storage) and the blockchain they rest on.  The fork flags are all active.

Of the managed types only the back transfers are kept: the other values are handles the frame itself
has made.  Instances of the executor are
numbered as they start, and the host knows the points each has used, because a caller's instance is
charged while it is on the stack.
-/

namespace KleverGo.Kvm

/-! ## Errors -/

/-- The errors of the virtual machine; `Chain` and `Executor` are those of the blockchain hook and
of the executor. -/
inductive VMError where
  | ErrInvalidCallOnReadOnlyMode
  | ErrNotEnoughGas
  | ErrSignalError
  | ErrExecutionFailed
  | ErrMemoryLimit
  | ErrFailedTransfer
  | ErrTransferInsufficientFunds
  | ErrInvalidUpgradeArguments
  | ErrInitFuncCalledInRun
  | ErrFuncNotFound
  | ErrContractInvalid
  | ErrContractNotFound
  | ErrContractHasStartSection
  | ErrContractCodeNotDecodable
  | ErrStoreReservedKey
  | ErrCannotWriteProtectedKey
  | ErrStorageKeyTooLong
  | ErrCannotWriteOnReadOnly
  | ErrInvalidAccount
  | ErrInputAndOutputGasDoesNotMatch
  | ErrOutputAccountMissing
  | Chain (text : String)
  | Executor (text : String)
deriving DecidableEq

namespace VMError

/-- `err.Error()` -/
def text : VMError → String
  | ErrInvalidCallOnReadOnlyMode => "operation not permitted in read only mode"
  | ErrNotEnoughGas => "not enough gas"
  | ErrSignalError => "error signalled by smartcontract"
  | ErrExecutionFailed => "execution failed"
  | ErrMemoryLimit => "memory limit reached"
  | ErrFailedTransfer => "failed transfer"
  | ErrTransferInsufficientFunds => "failed transfer (insufficient funds)"
  | ErrInvalidUpgradeArguments => "upgrade failed (invalid arguments)"
  | ErrInitFuncCalledInRun => "invalid function (calling init() directly is forbidden)"
  | ErrFuncNotFound => "invalid function (not found)"
  | ErrContractInvalid => "invalid contract code"
  | ErrContractNotFound => "invalid contract code (not found)"
  | ErrContractHasStartSection => "invalid contract code (declares a start section)"
  | ErrContractCodeNotDecodable => "invalid contract code (not a decodable wasm module)"
  | ErrStoreReservedKey => "cannot write to storage under reserved key"
  | ErrCannotWriteProtectedKey => "cannot write to protected key"
  | ErrStorageKeyTooLong => "storage key too long"
  | ErrCannotWriteOnReadOnly => "cannot write on read only mode"
  | ErrInvalidAccount => "account does not exist"
  | ErrInputAndOutputGasDoesNotMatch => "input and output gas does not match"
  | ErrOutputAccountMissing => "expected OutputAccount has used gas but is missing"
  | Chain text => text
  | Executor text => text

/-- `resolveReturnCodeFromError` -/
def returnCode : VMError → ReturnCode
  | ErrSignalError => .VMUserError
  | ErrFuncNotFound => .VMFunctionNotFound
  | ErrInitFuncCalledInRun => .VMUserError
  | ErrNotEnoughGas => .VMOutOfGas
  | ErrContractNotFound => .VMContractNotFound
  | ErrContractInvalid => .VMContractInvalid
  | ErrContractHasStartSection => .VMContractInvalid
  | ErrContractCodeNotDecodable => .VMContractInvalid
  | ErrInvalidUpgradeArguments => .VMUpgradeFailed
  | ErrTransferInsufficientFunds => .VMOutOfFunds
  | _ => .VMExecutionFailed

theorem returnCode_ne_ok (err : VMError) : err.returnCode ≠ .Ok := by
  cases err <;> nofun

end VMError

/-! ## Gas arithmetic -/

/-- `math.AddUint64`, which stops at the largest value. -/
def addUint64 (a b : UInt64) : UInt64 := if a ≤ a + b then a + b else UInt64.ofNat (2 ^ 64 - 1)

/-- `math.SubUint64`, which stops at zero. -/
def subUint64 (a b : UInt64) : UInt64 := if a < b then 0 else a - b

/-- `math.MulUint64`, which stops at the largest value. -/
def mulUint64 (a b : UInt64) : UInt64 :=
  if a.toNat * b.toNat < 2 ^ 64 then a * b else UInt64.ofNat (2 ^ 64 - 1)

/-! ## Calls -/

inductive CallType where
  | DirectCall
  | KDATransferAndExecute
deriving DecidableEq

structure ContractCallInput where
  callerAddr : Address
  recipientAddr : Address
  function : Bytes
  arguments : List Bytes := []
  callType : CallType := .DirectCall
  gasProvided : UInt64
  kdaTransfers : List KDATransfer := []
  allowInitFunction : Bool := false
deriving DecidableEq

/-! ## The blockchain -/

/-- What the host reads of an account: a flag of `GetCodeMetadata`. -/
structure UserAccount where
  readable : Bool

/-- The costs of the gas schedule that the modelled functions charge. -/
structure GasSchedule where
  (dataCopyPerByte persistPerByte storePerByte : UInt64)

/-- What the storage functions ask of the blockchain hook over a ledger, and what the host is
configured with. -/
structure Blockchain (L : Type) where
  gasSchedule : GasSchedule
  userAccount : L → Address → Except VMError (Option UserAccount)
  storageData : L → Address → Bytes → Except VMError Bytes
  /-- `core.IsSmartContractAddress` -/
  isSmartContractAddress : Address → Bool
  /-- `protectedKeyPrefix` -/
  isProtocolProtectedKey : Bytes → Bool
  /-- `vmProtectedKeyPrefix` -/
  isVMProtectedKey : Bytes → Bool

/-! ## The contexts -/

structure BackTransfers where
  kdaTransfers : List KDATransfer := []
  callValue : Int := 0
deriving DecidableEq

structure ManagedTypesContext where
  backTransfers : BackTransfers := {}
  stack : List BackTransfers := []

/-- The fields of `meteringContext` that a frame saves. -/
structure MeteringState where
  initialGasProvided : UInt64 := 0
  initialCost : UInt64 := 0
  gasForExecution : UInt64 := 0
  gasUsedByAccounts : Finmap fun _ : Address => UInt64 := ∅

structure MeteringContext extends MeteringState where
  stateStack : List MeteringState := []

/-- The fields of `runtimeContext` that a frame saves. -/
structure RuntimeState where
  vmInput : ContractCallInput
  codeAddress : Address
  callFunction : Bytes
  readOnly : Bool

/-- `runtimeContext` with its `instanceTracker`. -/
structure RuntimeContext extends RuntimeState where
  stateStack : List RuntimeState := []
  runningInstance : Option Nat := none
  instanceStack : List (Option Nat) := []
  pointsUsed : Nat → UInt64 := fun _ => 0
  startedInstances : Nat := 0

structure StorageContext where
  address : Address
  stateStack : List Address := []

/-- `vmHost` -/
structure Host (L : Type) where
  ledger : L
  managedTypes : ManagedTypesContext
  output : OutputContext
  runtime : RuntimeContext
  metering : MeteringContext
  storage : StorageContext

/-- A function of the host that may fail. -/
abbrev HostM (L : Type) := Process (Host L) VMError

end KleverGo.Kvm
