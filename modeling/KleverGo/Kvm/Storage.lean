import KleverGo.Kvm.Execution

/-!
# The storage context

`kvm/vmhost/contexts/storage.go`: reading the storage of an account through the output accounts of
the frame, and writing that of the context.
-/

namespace KleverGo.Kvm.Host

open Process

variable {L : Type} (blockchain : Blockchain L)

/-- `getStorageFromAddressUnmetered`: a value read from the chain is cached in the account. -/
def getStorageFromAddressUnmetered (address : Address) (key : Bytes) : HostM L Bytes :=
  if blockchain.isProtocolProtectedKey key = true ∧ blockchain.isVMProtectedKey key = false then
    query fun host => blockchain.storageData host.ledger address key
  else do
    let cached ← gets fun host =>
      (host.output.getOutputAccount address).1.1.storageUpdates.lookup key
    Process.modify fun host => host.mapOutput fun output => (output.getOutputAccount address).2
    match cached with
    | some update => pure update.data
    | none => do
      let value ← query fun host => blockchain.storageData host.ledger address key
      Process.modify fun host => host.mapOutput fun output =>
        output.setStorageUpdate address key ⟨key, value, false⟩
      pure value

def getStorageFromAddress (address : Address) (key : Bytes) : HostM L Bytes := do
  query fun host =>
    if address = host.storage.address then .ok ()
    else do
      let userAcc ← blockchain.userAccount host.ledger address
      let userAcc ← orError userAcc .ErrInvalidAccount
      reject (userAcc.readable = false) .ErrInvalidCallOnReadOnlyMode
  getStorageFromAddressUnmetered blockchain address key

/-- `checkReservedAndProtection`; `vmStorageProtectionEnabled` is off for the locks. -/
def checkReservedAndProtection (vmStorageProtectionEnabled : Bool) (key : Bytes) (host : Host L) :
    Except VMError Unit := do
  reject host.runtime.readOnly .ErrCannotWriteOnReadOnly
  reject (blockchain.isVMProtectedKey key = false ∧ blockchain.isProtocolProtectedKey key = true)
    .ErrStoreReservedKey
  reject (blockchain.isVMProtectedKey key = true ∧ vmStorageProtectionEnabled = true)
    .ErrCannotWriteProtectedKey

/-- The gas for a value that replaces one of another, or the same, length. -/
def gasForValue (schedule : GasSchedule) (oldLength newLength : Nat) : UInt64 :=
  if oldLength = 0 then mulUint64 schedule.storePerByte (UInt64.ofNat newLength)
  else if newLength = 0 then 0
  else if oldLength < newLength then
    -- `computeGasForBiggerValues`
    addUint64 (mulUint64 schedule.persistPerByte (UInt64.ofNat oldLength))
      (mulUint64 schedule.storePerByte (UInt64.ofNat (newLength - oldLength)))
  else mulUint64 schedule.persistPerByte (UInt64.ofNat newLength)

/-- `setStorageToAddress`, for the address of the context. -/
def setStorage (vmStorageProtectionEnabled : Bool) (key value : Bytes) : HostM L Unit := do
  query (checkReservedAndProtection blockchain vmStorageProtectionEnabled key)
  let address ← gets fun host => host.storage.address
  let oldValue ← getStorageFromAddressUnmetered blockchain address key
  -- `computeGasForKey`, for what the key has beyond the length of an address
  useGasBounded (mulUint64 blockchain.gasSchedule.dataCopyPerByte (UInt64.ofNat (key.length - 32)))
  if oldValue = value then
    useGasBounded (mulUint64 blockchain.gasSchedule.dataCopyPerByte (UInt64.ofNat value.length))
  else do
    -- 4096 is `MaxStorageKeyLength`
    lift (reject (value ≠ [] ∧ key.length > 4096) .ErrStorageKeyTooLong)
    Process.modify fun host => host.mapOutput fun output =>
      (output.addDeltaBytes address ((value.length : Int) - oldValue.length)).setStorageUpdate
        address key ⟨key, value, true⟩
    useGasBounded (gasForValue blockchain.gasSchedule oldValue.length value.length)

end KleverGo.Kvm.Host
