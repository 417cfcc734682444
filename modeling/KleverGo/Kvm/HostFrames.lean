import KleverGo.Kvm.Storage

/-!
# The frames of the host

What the open frames have saved (`SavedFrames`), and what is left of a frame when it is closed: a
call that fails leaves the contexts of the caller as they were (`rolledBack`), one that succeeds
has its output and its gas merged into them (`merged`).  Both hold when what ran in the frame has
left the saved frames alone.
-/

namespace KleverGo.Kvm

open OutputContext

variable {L : Type}

/-- What the open frames have saved in each context. -/
structure SavedFrames where
  managedTypes : List BackTransfers
  outputStates : List VMOutput
  codeUpdates : List (Finset Address)
  runtime : List RuntimeState
  instances : List (Option Nat)
  metering : List MeteringState
  storage : List Address

namespace Host

def savedFrames (host : Host L) : SavedFrames where
  managedTypes := host.managedTypes.stack
  outputStates := host.output.stateStack
  codeUpdates := host.output.codeUpdatesStack
  runtime := host.runtime.stateStack
  instances := host.runtime.instanceStack
  metering := host.metering.stateStack
  storage := host.storage.stateStack

/-- What a failed call leaves: of the frame `inner`, only what no frame saves. -/
def rolledBack (host inner : Host L) : Host L :=
  { host with
    ledger := inner.ledger
    output := { host.output with crtTransferIndex := inner.output.crtTransferIndex }
    runtime := { host.runtime with
      pointsUsed := inner.runtime.pointsUsed
      startedInstances := inner.runtime.startedInstances } }

/-- The gas of a frame and of its caller, by account. -/
def mergedGas (host inner : Host L) : Finmap fun _ : Address => UInt64 :=
  inner.metering.gasUsedByAccounts.mergeWith (fun gasUsed gas => gasUsed.getD 0 + gas)
    host.metering.gasUsedByAccounts

/-- What a call on the destination context leaves when it succeeds. -/
def merged (host inner : Host L) : Host L :=
  { host.rolledBack inner with
    metering := { host.metering with gasUsedByAccounts := host.mergedGas inner }
    output := { inner.output with
      outputState := mergeVMOutputs host.output.outputState inner.output.outputState
      stateStack := host.output.stateStack
      codeUpdatesStack := host.output.codeUpdatesStack } }

/-- What a call on the same context leaves when it succeeds: its output is the caller's. -/
def continued (host inner : Host L) : Host L :=
  { host.rolledBack inner with
    metering := { host.metering with gasUsedByAccounts := host.mergedGas inner }
    output := { inner.output with
      stateStack := host.output.stateStack
      codeUpdatesStack := host.output.codeUpdatesStack } }

variable {host inner : Host L} {input : ContractCallInput}

/-- The saved frames inside a call: the caller's contexts over what was saved before. -/
theorem enterDestContext_savedFrames :
    (host.enterDestContext input).savedFrames =
      { managedTypes := host.managedTypes.backTransfers :: host.managedTypes.stack
        outputStates := host.output.outputState :: host.output.stateStack
        codeUpdates := host.output.codeUpdates :: host.output.codeUpdatesStack
        runtime := host.runtime.toRuntimeState :: host.runtime.stateStack
        instances := host.runtime.runningInstance :: host.runtime.instanceStack
        metering := host.metering.toMeteringState :: host.metering.stateStack
        storage := host.storage.address :: host.storage.stateStack } := by
  unfold enterDestContext savedFrames pushManagedTypes mapOutput openFrame
  rw [pushState_eq]
  rfl

/-- A call on the same context saves the same, except for the storage context. -/
theorem enterSameContext_savedFrames :
    (host.enterSameContext input).savedFrames =
      { (host.enterDestContext input).savedFrames with storage := host.storage.stateStack } := by
  rw [enterDestContext_savedFrames]
  unfold enterSameContext savedFrames pushManagedTypes mapOutput
  rw [pushState_eq]
  rfl

/-- Closing a call on the destination context, when it has failed and when it has succeeded. -/
theorem popDest_eq (h : inner.savedFrames = (host.enterDestContext input).savedFrames) :
    (inner.popManagedTypes.popStorage.popSetMetering.mapOutput
      popSetActiveState).popRuntime = host.rolledBack inner ∧
    (inner.popManagedTypes.popStorage.popMergeMetering.mapOutput
      popMergeActiveState).popRuntime = host.merged inner := by
  rw [enterDestContext_savedFrames] at h
  obtain ⟨_, ⟨_, _⟩, ⟨_, _, _, _, _⟩, ⟨_, _, _, _, _, _⟩, ⟨_, _⟩, ⟨_, _⟩⟩ := inner
  injection h with h1 h2 h3 h4 h5 h6 h7
  subst h1 h2 h3 h4 h5 h6 h7
  refine ⟨rfl, ?_⟩
  unfold merged mergedGas
  rw [← mergeVMOutputs_new (mergeVMOutputs _ _)]
  rfl

/-- The same for a call on the same context. -/
theorem popSame_eq (h : inner.savedFrames = (host.enterSameContext input).savedFrames)
    (hstorage : inner.storage = host.storage) :
    (inner.popManagedTypes.popSetMetering.mapOutput popSetActiveState).popRuntime =
      host.rolledBack inner ∧
    ((inner.popMergeMetering.mapOutput popDiscard).popManagedTypes).popRuntime =
      host.continued inner := by
  rw [enterSameContext_savedFrames, enterDestContext_savedFrames] at h
  obtain ⟨_, ⟨_, _⟩, ⟨_, _, _, _, _⟩, ⟨_, _, _, _, _, _⟩, ⟨_, _⟩, _⟩ := inner
  injection h with h1 h2 h3 h4 h5 h6 h7
  subst h1 h2 h3 h4 h5 h6 hstorage
  exact ⟨rfl, rfl⟩

end Host

end KleverGo.Kvm
