import KleverGo.Kvm.HostFrames
import KleverGo.Kvm.ScProcessor

/-!
# Frames that read and set storage

A transaction as the tree of its call frames, each of which reads and sets keys through the storage
context and calls other frames, on the destination context or on the same context.  Everything else
a frame does (gas, code, transfers, logs) is an `OtherStep`, which leaves the storage updates alone.

`exec` runs a frame on the host and writes down what happened as a `Trace`: what each read gave, the
sets that returned no error, and the frames inside with whether they survived.  `Trace.view` is the
latest set of each key among the frames that survived or still run, and `Trace.Faithful` says that
every read gave that value, or the one on the chain.
-/

namespace KleverGo.Kvm

variable {L : Type}

/-- `RemoveNonUpdatedStorage`; an update is kept under its offset. -/
def OutputContext.removeNonUpdatedStorage (context : OutputContext) : OutputContext :=
  context.setOutputAccounts (context.outputAccounts.mapWithKey fun _ account =>
    { account with storageUpdates := account.storageUpdates.filterValues (·.written) })

/-- The storage update under a key of an account, if there is one. -/
def OutputContext.stored (context : OutputContext) (address : Address) (key : Bytes) :
    Option StorageUpdate :=
  ((context.outputAccounts.lookup address).getD {}).storageUpdates.lookup key

namespace Host

/-- The open frames and the address of the storage context are the same. -/
structure SameFrames (s t : Host L) : Prop where
  storage : t.storage = s.storage
  savedFrames : t.savedFrames = s.savedFrames

/-- Nothing of the storage is changed. -/
structure SameStorage (s t : Host L) : Prop extends SameFrames s t where
  stored : ∀ address key, t.output.stored address key = s.output.stored address key

end Host

/-- A step that has nothing to do with storage. -/
structure OtherStep (L : Type) where
  run : HostM L Unit
  sameStorage : ∀ host : Host L, host.SameStorage (run host).2

/-- What a frame does: a read hands its value to the rest, and a call whether its frame survived. -/
inductive StorageFrame (L : Type) where
  | done
  | fail (err : VMError)
  | read (address : Address) (key : Bytes) (rest : Bytes → StorageFrame L)
  | set (key value : Bytes) (rest : StorageFrame L)
  | other (step : OtherStep L) (rest : StorageFrame L)
  | callOnDest (input : ContractCallInput) (body : StorageFrame L) (rest : Bool → StorageFrame L)
  | callOnSame (input : ContractCallInput) (body : StorageFrame L) (rest : Bool → StorageFrame L)

inductive StorageTrace where
  | nil
  | read (address : Address) (key value : Bytes) (rest : StorageTrace)
  | set (address : Address) (key value : Bytes) (rest : StorageTrace)
  | frame (survived : Bool) (body rest : StorageTrace)

namespace StorageFrame

variable (blockchain : Blockchain L)

/-- Run a frame.  A read or a set that returns an error ends it in failure. -/
def exec : StorageFrame L → Host L → StorageTrace × Except VMError Unit × Host L
  | done, host => (.nil, .ok (), host)
  | fail err, host => (.nil, .error err, host)
  | read address key rest, host =>
    match Host.getStorageFromAddress blockchain address key host with
    | (.error err, host) => (.nil, .error err, host)
    | (.ok value, host) =>
      let (trace, result) := (rest value).exec host
      (.read address key value trace, result)
  | set key value rest, host =>
    match Host.setStorage blockchain true key value host with
    | (.error err, host) => (.nil, .error err, host)
    | (.ok (), host') =>
      let (trace, result) := rest.exec host'
      (.set host.storage.address key value trace, result)
  | other step rest, host =>
    match step.run host with
    | (.error err, host) => (.nil, .error err, host)
    | (.ok (), host) => rest.exec host
  | callOnDest input body rest, host =>
    let (trace, result, inner) := body.exec (host.enterDestContext input)
    let (vmOutput, host) := inner.finishExecuteOnDestContext (Host.errorOf result)
    let survived : Bool := vmOutput.returnCode = .Ok
    let (trace', result) := (rest survived).exec host
    (.frame survived trace trace', result)
  | callOnSame input body rest, host =>
    let (trace, result, inner) := body.exec (host.enterSameContext input)
    let survived : Bool :=
      inner.output.outputState.returnCode = .Ok ∧ Host.errorOf result = none
    let (trace', result) :=
      (rest survived).exec (inner.finishExecuteOnSameContext (Host.errorOf result))
    (.frame survived trace trace', result)

/-- The frame of the transaction itself, `doRunSmartContractCall`. -/
def execRoot (frame : StorageFrame L) (host : Host L) : StorageTrace × VMOutput :=
  match frame.exec blockchain host with
  | (trace, .error err, host) => (trace, (host.createVMOutputInCaseOfError err).1)
  | (trace, .ok (), host) =>
    (trace, (host.mapOutput OutputContext.removeNonUpdatedStorage).getVMOutput.1)

/-- No key that is read or set is protected. -/
def Unprotected : StorageFrame L → Prop
  | done | fail _ => True
  | read _ key rest =>
    (blockchain.isProtocolProtectedKey key = false ∧ blockchain.isVMProtectedKey key = false) ∧
      ∀ value, (rest value).Unprotected
  | set key _ rest =>
    (blockchain.isProtocolProtectedKey key = false ∧ blockchain.isVMProtectedKey key = false) ∧
      rest.Unprotected
  | other _ rest => rest.Unprotected
  | callOnDest _ body rest | callOnSame _ body rest =>
    body.Unprotected ∧ ∀ survived, (rest survived).Unprotected

end StorageFrame

/-! ## What the frames have set -/

/-- The latest set of every key at every address, if there is one. -/
abbrev StorageView := Address → Bytes → Option Bytes

namespace StorageView

def empty : StorageView := fun _ _ => none

def set (view : StorageView) (address : Address) (key value : Bytes) : StorageView :=
  fun address' key' => if address' = address ∧ key' = key then some value else view address' key'

/-- The value of a key: the latest set, or what the chain has. -/
def value (view : StorageView) (chain : Address → Bytes → Bytes) (address : Address) (key : Bytes) :
    Bytes :=
  (view address key).getD (chain address key)

end StorageView

namespace StorageTrace

/-- The latest sets after what happened: a frame that did not survive has set nothing. -/
def view : StorageTrace → StorageView → StorageView
  | nil, view => view
  | read _ _ _ rest, view => rest.view view
  | set address key value rest, view => rest.view (view.set address key value)
  | frame survived body rest, view => rest.view (if survived then body.view view else view)

/-- Every read gave the latest set, or the value on the chain. -/
def Faithful (chain : Address → Bytes → Bytes) : StorageTrace → StorageView → Prop
  | nil, _ => True
  | read address key value rest, view =>
    value = view.value chain address key ∧ rest.Faithful chain view
  | set address key value rest, view => rest.Faithful chain (view.set address key value)
  | frame survived body rest, view =>
    body.Faithful chain view ∧ rest.Faithful chain (if survived then body.view view else view)

end StorageTrace

end KleverGo.Kvm
