import KleverGo.Kvm.StorageOverlay

/-!
# The storage a transaction commits

* `saveStorageUpdates_spec` — saving the updates of an account in any order writes each of them, or
  is refused for one that is too large;
* `storage_read_your_writes` — **every read of a transaction gives the latest set of its key, and the
  storage it commits is the old one overwritten by the sets that survived**;
* `oversized_set_refused` — a set that the machine accepts and the node refuses to save.
-/

namespace KleverGo.Kvm

open List StorageFrame

variable {L : Type}

/-! ## Saving -/

/-- An update that can be saved, unless it is too large. -/
structure Savable (key : Bytes) (update : StorageUpdate) : Prop where
  offset : update.offset = key
  written : update.written = true
  unprotected : isProtectedStorageKey key = false
  length : update.data ≠ [] → key.length ≤ 4096

theorem saveStorageUpdate_eq {key : Bytes} {update : StorageUpdate} (h : Savable key update)
    (storage : Bytes → Bytes) :
    saveStorageUpdate storage update =
      if MaxLeafSize < update.data.length then .error .ErrLeafSizeTooBig
      else .ok (Function.update storage key update.data) := by
  have hlength : ¬(update.data ≠ [] ∧ update.offset.length > 4096) := by
    rintro ⟨hne, hlong⟩
    rw [h.offset] at hlong
    exact absurd (h.length hne) (by omega)
  unfold saveStorageUpdate saveKeyValue
  rw [if_neg (by simp [h.offset, h.unprotected]), if_neg (by simp [h.written]), if_neg hlength,
    h.offset]

/-- Saving goes through the updates one by one; their keys differ. -/
theorem saveStorageUpdates_spec (storage : Bytes → Bytes) (updates : List (Bytes × StorageUpdate))
    (hnodup : (updates.map Prod.fst).Nodup)
    (h : ∀ key update, (key, update) ∈ updates → Savable key update) :
    match saveStorageUpdates storage updates with
    | .ok storage' => (∀ key update, (key, update) ∈ updates → storage' key = update.data) ∧
        ∀ key, key ∉ updates.map Prod.fst → storage' key = storage key
    | .error err => err = .ErrLeafSizeTooBig ∧
        ∃ key update, (key, update) ∈ updates ∧ MaxLeafSize < update.data.length := by
  induction updates generalizing storage with
  | nil => exact ⟨nofun, fun _ _ => rfl⟩
  | cons entry updates ih =>
    obtain ⟨key, update⟩ := entry
    obtain ⟨hfresh, hrest⟩ := nodup_cons.1 hnodup
    unfold saveStorageUpdates
    rw [saveStorageUpdate_eq (h key update mem_cons_self)]
    by_cases hlarge : MaxLeafSize < update.data.length
    · rw [if_pos hlarge]
      exact ⟨rfl, key, update, mem_cons_self, hlarge⟩
    rw [if_neg hlarge]
    have hspec := ih (Function.update storage key update.data) hrest
      fun key update hmem => h key update (mem_cons_of_mem _ hmem)
    change match saveStorageUpdates (Function.update storage key update.data) updates with
      | .ok storage' => _ | .error err => _
    cases hsave : saveStorageUpdates (Function.update storage key update.data) updates with
    | error err =>
      rw [hsave] at hspec
      obtain ⟨herr, key', update', hmem, hlarge'⟩ := hspec
      exact ⟨herr, key', update', mem_cons_of_mem _ hmem, hlarge'⟩
    | ok storage' =>
      rw [hsave] at hspec
      obtain ⟨hset, hkeep⟩ := hspec
      refine ⟨fun key' update' hmem => ?_, fun key' hnot => ?_⟩
      · rcases mem_cons.1 hmem with heq | hmem
        · obtain ⟨rfl, rfl⟩ := Prod.mk.inj heq
          rw [hkeep key' hfresh, Function.update_self]
        · exact hset key' update' hmem
      · rw [map_cons, mem_cons, not_or] at hnot
        rw [hkeep key' hnot.2, Function.update_of_ne hnot.1]

variable {isSmartContractAddress : Address → Bool}

theorem updateSmartContractCode_storage {account account' : StateAccount} {addr : Address}
    {outAcc : OutputAccount}
    (h : updateSmartContractCode isSmartContractAddress account addr outAcc = .ok account') :
    account'.storage = account.storage := by
  unfold updateSmartContractCode at h
  split_ifs at h
  · cases h; rfl
  · cases h; rfl
  · cases h; rfl
  · obtain ⟨metadata, -, hpure⟩ := (bind_eq_ok _ _ _).1 h
    cases hpure
    split_ifs <;> rfl

theorem loadUser_insert (accounts : StateAccounts) (addr addr' : Address)
    (account : StateAccount) :
    StateAccounts.loadUser (accounts.insert addr account) addr' =
      if addr' = addr then account else accounts.loadUser addr' := by
  unfold StateAccounts.loadUser
  rw [Finmap.lookup_insert_ite]
  split <;> rfl

/-- Every account of the output has its updates saved, and no other account has its storage changed. -/
theorem processSCOutputAccounts_storage {accounts accounts' : StateAccounts} {sorted : SortedOutput}
    (hnodup : (sorted.map Prod.fst).Nodup)
    (h : processSCOutputAccounts isSmartContractAddress accounts sorted = .ok accounts') :
    (∀ entry ∈ sorted, saveStorageUpdates (accounts.loadUser entry.1).storage entry.2.2 =
        .ok (accounts'.loadUser entry.1).storage) ∧
      ∀ addr, addr ∉ sorted.map Prod.fst →
        (accounts'.loadUser addr).storage = (accounts.loadUser addr).storage := by
  induction sorted generalizing accounts with
  | nil =>
    cases h
    exact ⟨nofun, fun _ _ => rfl⟩
  | cons entry sorted ih =>
    obtain ⟨addr, outAcc, updates⟩ := entry
    obtain ⟨hfresh, hrest⟩ := nodup_cons.1 hnodup
    unfold processSCOutputAccounts at h
    split at h
    · cases h
    obtain ⟨storage, hsave, h⟩ := (bind_eq_ok _ _ _).1 h
    obtain ⟨account, hcode, h⟩ := (bind_eq_ok _ _ _).1 h
    have haccount : account.storage = storage := updateSmartContractCode_storage hcode
    obtain ⟨hsaved, hkept⟩ := ih hrest h
    refine ⟨fun entry hmem => ?_, fun addr' hnot => ?_⟩
    · rcases mem_cons.1 hmem with rfl | hmem
      · rw [hsave, hkept addr hfresh, loadUser_insert, if_pos rfl, haccount]
      have hne : entry.1 ≠ addr := by
        intro heq
        have hmapped : entry.1 ∈ sorted.map Prod.fst := mem_map_of_mem hmem
        rw [heq] at hmapped
        exact hfresh hmapped
      have hentry := hsaved entry hmem
      rwa [loadUser_insert, if_neg hne] at hentry
    · rw [map_cons, mem_cons, not_or] at hnot
      rw [hkept addr' hnot.2, loadUser_insert, if_neg hnot.1]

/-! ## What a transaction commits -/

section Commit

variable {blockchain : Blockchain L} {chain : Address → Bytes → Bytes} {view : StorageView}

/-- The updates that are left of an output whose updates reflect the sets: they can be saved, they
have the values that were set, and where there is none the chain has the value already. -/
theorem Reflects.remaining {ctx : OutputContext}
    (hconfig : ∀ key, isProtectedStorageKey key = true → blockchain.isProtocolProtectedKey key = true)
    (h : Reflects blockchain chain ctx view) (addr : Address) (key : Bytes) :
    match ctx.removeNonUpdatedStorage.stored addr key with
    | some update => Savable key update ∧ view addr key = some update.data
    | none => view.value chain addr key = chain addr key := by
  have hentry := h addr key
  rw [ctx.stored_removeNonUpdatedStorage]
  cases hstored : ctx.stored addr key with
  | none =>
    rw [hstored] at hentry
    simp only [Option.filter_none]
    rw [StorageView.value, hentry.absent rfl, Option.getD_none]
  | some update =>
    rw [hstored] at hentry
    have hdata := hentry.data update rfl
    cases hwritten : update.written with
    | false =>
      simp only [Option.filter_some, hwritten, Bool.false_eq_true, if_false]
      rw [StorageView.value, ← hdata, hentry.unwritten update rfl hwritten]
    | true =>
      simp only [Option.filter_some, hwritten, if_true]
      obtain ⟨hset, hlength⟩ := hentry.written update rfl hwritten
      obtain ⟨value, hvalue⟩ := Option.ne_none_iff_exists'.1 hset
      refine ⟨⟨hentry.offset update rfl, hwritten, ?_, hlength⟩, ?_⟩
      · by_contra hprotected
        have hproto := hconfig key (by simpa using hprotected)
        rw [(hentry.unprotected hset).1] at hproto
        cases hproto
      · rw [hvalue] at hdata ⊢
        rw [hdata, Option.getD_some]

variable {host : Host L}

theorem getVMOutput_of_ok (hok : host.getVMOutput.1.returnCode = .Ok) :
    host.getVMOutput.1 = host.getVMOutput.2.output.outputState := by
  unfold Host.getVMOutput at hok ⊢
  split
  · rfl
  · next err _ hclose =>
    rw [hclose] at hok
    exact absurd hok (VMError.returnCode_ne_ok err)

variable {frame : StorageFrame L}

/-- The output of a transaction that succeeds has the updates that are left. -/
theorem execRoot_stored (hok : (frame.execRoot blockchain host).2.returnCode = .Ok) :
    (frame.exec blockchain host).2.1 = .ok () ∧
      ∀ addr key, (((frame.execRoot blockchain host).2.outputAccounts.lookup addr).getD
          {}).storageUpdates.lookup key =
        (frame.exec blockchain host).2.2.output.removeNonUpdatedStorage.stored addr key := by
  unfold execRoot at hok ⊢
  rcases hexec : frame.exec blockchain host with ⟨trace, result, final⟩
  rw [hexec] at hok
  cases result with
  | error err => exact absurd hok (VMError.returnCode_ne_ok err)
  | ok _ =>
    refine ⟨rfl, fun addr key => ?_⟩
    dsimp only at hok ⊢
    rw [getVMOutput_of_ok hok]
    exact (final.mapOutput OutputContext.removeNonUpdatedStorage).sameStorage_getVMOutput.stored
      addr key

theorem save_remaining {updates : Finmap fun _ : Bytes => StorageUpdate} {addr : Address}
    (h : ∀ key, match updates.lookup key with
      | some update => Savable key update ∧ view addr key = some update.data
      | none => view.value chain addr key = chain addr key)
    {order : List (Bytes × StorageUpdate)} (horder : Finmap.Enumerates order updates) :
    match saveStorageUpdates (chain addr) order with
    | .ok storage => ∀ key, storage key = view.value chain addr key
    | .error err => err = .ErrLeafSizeTooBig ∧
        ∃ key value, view addr key = some value ∧ MaxLeafSize < value.length := by
  have hentry : ∀ key update, (key, update) ∈ order →
      Savable key update ∧ view addr key = some update.data := by
    intro key update hmem
    have hkey := h key
    rwa [(horder.2 key update).1 hmem] at hkey
  have hspec := saveStorageUpdates_spec (chain addr) order horder.1
    fun key update hmem => (hentry key update hmem).1
  cases hsave : saveStorageUpdates (chain addr) order with
  | error err =>
    rw [hsave] at hspec
    obtain ⟨herr, key, update, hmem, hlarge⟩ := hspec
    exact ⟨herr, key, update.data, (hentry key update hmem).2, hlarge⟩
  | ok storage =>
    rw [hsave] at hspec
    intro key
    cases hlookup : updates.lookup key with
    | some update =>
      have hmem := (horder.2 key update).2 hlookup
      rw [hspec.1 key update hmem, StorageView.value, (hentry key update hmem).2, Option.getD_some]
    | none =>
      have hkey := h key
      rw [hlookup] at hkey
      rw [hspec.2 key, hkey]
      intro hkeys
      obtain ⟨⟨_, update⟩, hmem, rfl⟩ := mem_map.1 hkeys
      rw [(horder.2 _ update).1 hmem] at hlookup
      cases hlookup

/-- **Storage is read-your-writes and commits the surviving sets.**  For every tree of frames over
keys that are not protected, on a chain whose values stay: each read gives the latest set of its key
among the frames that survived or still run, or the value of the chain.  When the transaction
succeeds, saving the updates of an account, in any order, gives its old storage overwritten by the
sets that survived, or is refused because of one that is too large; and if the output is processed,
so is the storage of every account, and no protected key is changed. -/
theorem storage_read_your_writes (accounts : StateAccounts)
    (hconfig : ∀ key, isProtectedStorageKey key = true → blockchain.isProtocolProtectedKey key = true)
    (hchain : ∀ ledger addr key value, blockchain.storageData ledger addr key = .ok value →
      value = (accounts.loadUser addr).storage key)
    (frame : StorageFrame L) (hframe : frame.Unprotected blockchain)
    (host : Host L) (hhost : host.output.outputAccounts = ∅) :
    let chain := fun addr => (accounts.loadUser addr).storage
    let trace := (frame.execRoot blockchain host).1
    let vmOutput := (frame.execRoot blockchain host).2
    let latest := trace.view .empty
    trace.Faithful chain .empty ∧
    (vmOutput.returnCode = .Ok → ∀ sorted : SortedOutput, sorted.Of vmOutput.outputAccounts →
      (∀ entry ∈ sorted, match saveStorageUpdates (chain entry.1) entry.2.2 with
        | .ok storage => ∀ key, storage key = latest.value chain entry.1 key
        | .error err => err = .ErrLeafSizeTooBig ∧
            ∃ key value, latest entry.1 key = some value ∧ MaxLeafSize < value.length) ∧
      ∀ accounts', processSCOutputAccounts blockchain.isSmartContractAddress accounts sorted =
          .ok accounts' → ∀ addr key,
        (accounts'.loadUser addr).storage key = latest.value chain addr key ∧
        (isProtectedStorageKey key = true →
          (accounts'.loadUser addr).storage key = (accounts.loadUser addr).storage key)) := by
  intro chain trace vmOutput latest
  have hstart : Reflects blockchain chain host.output .empty := by
    intro addr key
    unfold OutputContext.stored
    rw [hhost]
    exact Mirrors.none
  have htracks := exec_tracks hchain frame hframe hstart
  have htrace : trace = (frame.exec blockchain host).1 := by
    dsimp only [trace, execRoot]
    split <;> next hexec => rw [hexec]
  rw [htrace]
  refine ⟨htracks.faithful, fun hok sorted hsorted => ?_⟩
  obtain ⟨hresult, hstored⟩ := execRoot_stored hok
  have hreflects := htracks.reflects hresult
  rw [← htrace] at hreflects
  have hremaining : ∀ addr key, match ((vmOutput.outputAccounts.lookup addr).getD
        {}).storageUpdates.lookup key with
      | some update => Savable key update ∧ latest addr key = some update.data
      | none => latest.value chain addr key = chain addr key := by
    intro addr key
    rw [hstored]
    exact hreflects.remaining hconfig addr key
  have hsaved : ∀ entry ∈ sorted, match saveStorageUpdates (chain entry.1) entry.2.2 with
      | .ok storage => ∀ key, storage key = latest.value chain entry.1 key
      | .error err => err = .ErrLeafSizeTooBig ∧
          ∃ key value, latest entry.1 key = some value ∧ MaxLeafSize < value.length := by
    intro entry hmem
    have hlookup : vmOutput.outputAccounts.lookup entry.1 = some entry.2.1 :=
      (hsorted.accounts.2 entry.1 entry.2.1).1 (mem_map_of_mem hmem)
    refine save_remaining (fun key => ?_) (hsorted.storageUpdates entry hmem)
    have hkey := hremaining entry.1 key
    rwa [hlookup] at hkey
  refine ⟨hsaved, fun accounts' hprocess addr key => ?_⟩
  have hnodup : (sorted.map Prod.fst).Nodup := by
    have hkeys := hsorted.accounts.1
    rwa [map_map] at hkeys
  obtain ⟨hwritten, hkept⟩ := processSCOutputAccounts_storage hnodup hprocess
  have hvalue : (accounts'.loadUser addr).storage key = latest.value chain addr key := by
    by_cases hmem : addr ∈ sorted.map Prod.fst
    · obtain ⟨entry, hentry, rfl⟩ := mem_map.1 hmem
      have hsave := hsaved entry hentry
      rw [hwritten entry hentry] at hsave
      exact hsave key
    have hnone : vmOutput.outputAccounts.lookup addr = none := by
      by_contra hsome
      obtain ⟨account, haccount⟩ := Option.ne_none_iff_exists'.1 hsome
      obtain ⟨entry, hentry, heq⟩ := mem_map.1 ((hsorted.accounts.2 addr account).2 haccount)
      exact hmem (mem_map.2 ⟨entry, hentry, (Prod.mk.inj heq).1⟩)
    have hkey := hremaining addr key
    rw [hnone] at hkey
    rw [hkept addr hmem, hkey]
  refine ⟨hvalue, fun hprotected => ?_⟩
  have hunset : latest addr key = none := by
    by_contra hset
    have hproto := hconfig key hprotected
    rw [((hreflects addr key).unprotected hset).1] at hproto
    cases hproto
  rw [hvalue, StorageView.value, hunset, Option.getD_none]

end Commit

/-! ## A call on one account -/

theorem addUint64_zero (a : UInt64) : addUint64 a 0 = a := by
  have := a.toNat_lt
  rw [← UInt64.toNat_inj, addUint64_toNat, UInt64.toNat_zero]
  omega

theorem zero_addUint64 (a : UInt64) : addUint64 0 a = a :=
  (Std.Commutative.comm 0 a).trans (addUint64_zero a)

namespace Host

variable {L : Type} {host : Host L}

/-- A call that has touched no account but its own and has not used more gas than it has. -/
structure Alone (host : Host L) : Prop where
  keys : host.output.outputAccounts.keys = {host.contextAddress}
  gasUsed : host.metering.gasUsedByAccounts = ∅
  initialCost : host.metering.initialCost = 0
  gas : host.metering.gasForExecution = host.metering.initialGasProvided
  points : host.getPointsUsed ≤ host.metering.initialGasProvided

/-- The gas a lone call has used is that of its account. -/
def ownGas (host : Host L) : Finmap fun _ : Address => UInt64 :=
  (∅ : Finmap fun _ : Address => UInt64).insert host.contextAddress host.getPointsUsed

section
variable (h : host.Alone)
include h

theorem Alone.owned :
    ∃ account, host.output.outputAccounts.lookup host.contextAddress = some account := by
  rw [← Option.isSome_iff_exists, Finmap.lookup_isSome, ← Finmap.mem_keys, h.keys]
  exact Finset.mem_singleton_self _

theorem Alone.updateSCGasUsed :
    host.updateSCGasUsed =
      { host with metering := { host.metering with gasUsedByAccounts := host.ownGas } } := by
  obtain ⟨account, haccount⟩ := h.owned
  have hget : (host.output.getOutputAccount host.contextAddress).2 = host.output := by
    rw [OutputContext.getOutputAccount, haccount]
  have hothers : totalGas host.output.outputAccounts.keys (fun addr =>
      if addr ≠ host.contextAddress then gasOf ∅ addr else 0) = 0 := by
    rw [h.keys, totalGas, Finset.fold_singleton, if_neg (not_not.2 rfl)]
    rfl
  have hspent : subUint64 host.gasSpentByContract 0 = host.getPointsUsed := by
    rw [gasSpentByContract, h.initialCost, zero_addUint64, subUint64, if_neg (by simp),
      UInt64.sub_zero]
  have hsame : (host.mapOutput fun output => (output.getOutputAccount host.contextAddress).2) =
      host := by
    rw [mapOutput, hget]
  simp only [Host.updateSCGasUsed, hsame, h.gasUsed, hothers, hspent, ownGas]

/-- Its output has the return code it has set: the gas it has used and what remains are together
what was provided. -/
theorem Alone.getVMOutput : host.getVMOutput.1.returnCode = host.output.outputState.returnCode := by
  let remained := host.mapOutput fun output =>
    output.removeNonUpdatedCode.setGasRemaining host.gasLeft
  have hremained : remained.Alone :=
    ⟨(Finmap.keys_mapWithKey _ _).trans h.keys, h.gasUsed, h.initialCost, h.gas, h.points⟩
  let closed : Host L := { remained with
    output := remained.output.setGasUsed (gasOf remained.ownGas)
    metering := { remained.metering with gasUsedByAccounts := remained.ownGas } }
  have hkeys : closed.output.outputAccounts.keys = {remained.contextAddress} :=
    (Finmap.keys_mapWithKey _ _).trans hremained.keys
  have htotal : closed.getCurrentTotalUsedGas = host.getPointsUsed := by
    obtain ⟨account, haccount⟩ := hremained.owned
    have hlookup : closed.output.outputAccounts.lookup remained.contextAddress = some _ :=
      (Finmap.lookup_mapWithKey _ _ _).trans (congrArg _ haccount)
    rw [getCurrentTotalUsedGas, hkeys, totalGas, Finset.fold_singleton, addUint64_zero, hlookup]
    simp [gasOf, ownGas]
    rfl
  have hsum : addUint64 closed.getCurrentTotalUsedGas host.gasLeft =
      host.metering.initialGasProvided := by
    have hle := UInt64.le_iff_toNat_le.1 h.points
    have hlt := host.metering.initialGasProvided.toNat_lt
    rw [htotal, gasLeft, h.gas, if_neg (UInt64.not_lt.2 h.points), ← UInt64.toNat_inj,
      addUint64_toNat, UInt64.toNat_sub_of_le _ _ h.points]
    omega
  have hpresent : closed.metering.gasUsedByAccounts.keys ⊆ closed.output.outputAccounts.keys := by
    rw [hkeys]
    intro addr
    simp [closed, ownGas, Finmap.mem_keys, Finmap.notMem_empty]
  have hset : setGasUsedToOutputAccounts remained.updateSCGasUsed = (.ok (), closed) := by
    rw [hremained.updateSCGasUsed]
    exact congrArg (·, closed) (if_neg (not_not.2 hpresent))
  have hcheck : closed.checkGas = .ok () := if_neg (not_not.2 hsum)
  have hclose : closeOutputState host = (setGasUsedToOutputAccounts.andThen fun _ =>
      Process.query checkGas) remained.updateSCGasUsed := rfl
  simp only [Host.getVMOutput, hclose, Process.andThen, hset, Process.query, hcheck]
  rfl

end

end Host

/-! ## A machine with unit costs -/

/-- A chain with no accounts, whose machine charges one for every byte. -/
def unitBlockchain : Blockchain Unit where
  gasSchedule := ⟨1, 1, 1⟩
  userAccount _ _ := .ok none
  storageData _ _ _ := .ok []
  isSmartContractAddress _ := true
  isProtocolProtectedKey key := isProtectedStorageKey key
  isVMProtectedKey key := vmInternalStorageKeyPrefix.isPrefixOf key

/-- A call of a contract by itself. -/
def selfCall (addr : Address) (gasProvided : UInt64) : ContractCallInput where
  callerAddr := addr
  recipientAddr := addr
  function := []
  gasProvided

abbrev zeroAddress : Address := replicate 32 0

/-- The host with a million of gas, when the instance of the first contract has started. -/
def startedHost : Host Unit where
  ledger := ()
  managedTypes := {}
  output := {}
  runtime := {
    vmInput := selfCall zeroAddress 1000000
    codeAddress := zeroAddress
    callFunction := []
    readOnly := false
    runningInstance := some 0
    startedInstances := 1 }
  metering := { initialGasProvided := 1000000, gasForExecution := 1000000 }
  storage := { address := zeroAddress }

/-- The caller pays for the gas it hands on. -/
def payGas (gas : UInt64) : OtherStep Unit where
  run := Host.useGasBounded gas
  sameStorage host := by
    have h := Host.relates_useGasBounded gas host
    rcases hpaid : Host.useGasBounded gas host with ⟨_ | _, _⟩ <;> rw [hpaid] at h <;> exact h

/-- The instance of the called contract starts. -/
def startInstance : OtherStep Unit where
  run := Process.modify fun host => { host with runtime := { host.runtime with
    runningInstance := some host.runtime.startedInstances
    startedInstances := host.runtime.startedInstances + 1 } }
  sameStorage _ := ⟨⟨rfl, rfl⟩, fun _ _ => rfl⟩

/-- A call of another contract with a hundred of gas. -/
def callOther (other : Address) (body rest : StorageFrame Unit) : StorageFrame Unit :=
  .other (payGas 100) <| .callOnDest (selfCall other 100) (.other startInstance body) fun _ => rest

/-- A contract that sets a key and calls another one twice, which sets its own and then fails. -/
def nestedFrame (other : Address) : StorageFrame Unit :=
  .set [1] [2] <| callOther other (.set [1] [3] .done) <|
    callOther other (.set [1] [4] (.fail .ErrSignalError)) <|
      .read zeroAddress [1] fun _ => .done

theorem storage_read_your_writes_nested :
    let frame := nestedFrame (replicate 32 1)
    (frame.execRoot unitBlockchain startedHost).2.returnCode = .Ok ∧
      (frame.execRoot unitBlockchain startedHost).1.Faithful (fun _ _ => []) .empty := by
  refine ⟨by decide +kernel, (storage_read_your_writes ∅ (fun _ h => h) ?_ _ ?_ _ rfl).1⟩
  · rintro _ _ _ _ ⟨⟩
    rfl
  · have hkey : unitBlockchain.isProtocolProtectedKey [1] = false ∧
        unitBlockchain.isVMProtectedKey [1] = false := by decide
    simp [nestedFrame, callOther, Unprotected, hkey]

/-- The host when the contract has set a value and has to pay for it. -/
def hostWithValue (value : Bytes) : Host Unit :=
  ((startedHost.mapOutput fun output =>
    output.setStorageUpdate zeroAddress [1] ⟨[1], [], false⟩).useGas 0).mapOutput fun output =>
      (output.addDeltaBytes zeroAddress value.length).setStorageUpdate zeroAddress [1]
        ⟨[1], value, true⟩

theorem getPointsUsed_hostWithValue (value : Bytes) : (hostWithValue value).getPointsUsed = 0 := rfl

theorem alone_hostWithValue (value : Bytes) :
    (((hostWithValue value).useGas 786433).mapOutput
      OutputContext.removeNonUpdatedStorage).Alone := by
  have hpoints : ((hostWithValue value).useGas 786433).getPointsUsed = 786433 := by
    have hrunning : (hostWithValue value).runtime.runningInstance = some 0 := rfl
    rw [Host.useGas, getPointsUsed_hostWithValue]
    simp only [Host.setPointsUsed, Host.getPointsUsed, hrunning, Function.update_self]
    decide
  refine ⟨rfl, rfl, rfl, rfl, ?_⟩
  · change ((hostWithValue value).useGas 786433).getPointsUsed ≤ 1000000
    rw [hpoints]
    decide

section Oversized

variable {rest : Bytes} (hlength : rest.length = MaxLeafSize)
include hlength

theorem exec_oversized :
    (StorageFrame.set [1] (0 :: rest) .done).exec unitBlockchain startedHost =
      (.set zeroAddress [1] (0 :: rest) .nil, .ok (),
        (hostWithValue (0 :: rest)).useGas 786433) := by
  have hgas : Host.gasForValue unitBlockchain.gasSchedule 0 (rest.length + 1) = 786433 := by
    rw [hlength]
    decide
  have hleft : ¬ (hostWithValue (0 :: rest)).gasLeft < 786433 := by
    rw [Host.gasLeft, getPointsUsed_hostWithValue]
    change ¬ (if (1000000 : UInt64) < 0 then 0 else 1000000 - 0) < 786433
    decide
  have hpaid : Host.useGasBounded 786433 (hostWithValue (0 :: rest)) =
      (.ok (), (hostWithValue (0 :: rest)).useGas 786433) := by
    simp only [Host.useGasBounded, bind, Process.andThen, Process.query, reject, hleft]
    rfl
  have hset : Host.setStorage unitBlockchain true [1] (0 :: rest) startedHost =
      Host.useGasBounded (Host.gasForValue unitBlockchain.gasSchedule 0 (rest.length + 1))
        (hostWithValue (0 :: rest)) := rfl
  simp only [exec, hset, hgas, hpaid]
  rfl

theorem returnCode_oversized :
    ((StorageFrame.set [1] (0 :: rest) .done).execRoot unitBlockchain startedHost).2.returnCode =
      .Ok := by
  simp only [execRoot, exec_oversized hlength]
  exact (alone_hostWithValue _).getVMOutput

theorem remaining_oversized :
    ∃ update, ((((StorageFrame.set [1] (0 :: rest) .done).execRoot unitBlockchain
        startedHost).2.outputAccounts.lookup zeroAddress).getD {}).storageUpdates.lookup
          [1] = some update ∧ Savable [1] update ∧ update.data = 0 :: rest := by
  have hchain : ∀ ledger addr key value, unitBlockchain.storageData ledger addr key =
      .ok value → value = [] := by
    rintro _ _ _ _ ⟨⟩
    rfl
  have hstart : Reflects unitBlockchain (fun _ _ => []) startedHost.output .empty :=
    fun _ _ => Mirrors.none
  have htracks := exec_tracks hchain (.set [1] (0 :: rest) .done) ⟨by decide, trivial⟩ hstart
  obtain ⟨hresult, hstored⟩ := execRoot_stored (returnCode_oversized hlength)
  have hremaining := (htracks.reflects hresult).remaining (fun _ h => h) zeroAddress [1]
  have hview : ((StorageFrame.set [1] (0 :: rest) .done).exec unitBlockchain
      startedHost).1.view .empty zeroAddress [1] = some (0 :: rest) := by
    rw [exec_oversized hlength]
    rfl
  rw [hview, ← hstored] at hremaining
  split at hremaining
  · next update hlookup => exact ⟨update, hlookup, hremaining.1, (Option.some.inj hremaining.2).symm⟩
  · rw [StorageView.value, hview] at hremaining
    cases hremaining

end Oversized

/-- The machine sets a value that is too large for a leaf, but the node refuses to save it. -/
theorem oversized_set_refused :
    let vmOutput := ((StorageFrame.set [1] (0 :: replicate MaxLeafSize 0) .done).execRoot
      unitBlockchain startedHost).2
    vmOutput.returnCode = .Ok ∧
      ∃ update, ((vmOutput.outputAccounts.lookup zeroAddress).getD {}).storageUpdates.lookup [1] =
          some update ∧
        ∀ storage, saveStorageUpdate storage update = .error .ErrLeafSizeTooBig := by
  have hreplicate : (replicate MaxLeafSize (0 : UInt8)).length = MaxLeafSize := length_replicate
  obtain ⟨update, hlookup, hsavable, hdata⟩ := remaining_oversized hreplicate
  refine ⟨returnCode_oversized hreplicate, update, hlookup, fun storage => ?_⟩
  have hlength : update.data.length = MaxLeafSize + 1 := by
    rw [hdata, length_cons, length_replicate]
  exact (saveStorageUpdate_eq hsavable storage).trans (if_pos (by omega))

end KleverGo.Kvm
