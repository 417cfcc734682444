import KleverGo.Kvm.StorageFrames

/-!
# The storage updates reflect the sets

The storage updates of an output account are a cache of what was read and a buffer of what was set.
`Mirrors` says what one entry has to do with the value of the chain and the latest set of its key,
and `Reflects` says so of every key at every address.

* `getStorageFromAddress_spec`, `setStorage_spec` — what one read and one set do;
* `finishExecuteOnDestContext_storage`, `finishExecuteOnSameContext_storage` — what closing a frame
  leaves of its updates;
* `exec_tracks` — along any frame every read gives the latest set, and the updates at its end reflect
  the sets.
-/

namespace KleverGo.Kvm

open Host (getStorageFromAddressUnmetered errorOf)

open Process Finmap Option StorageFrame OutputContext

variable {L : Type}

/-! ## What is stored after a write -/

namespace OutputContext

variable (ctx : OutputContext)

theorem stored_eq (addr : Address) (key : Bytes) :
    ctx.stored addr key = (ctx.account addr).storageUpdates.lookup key := rfl

variable (addr addr' : Address)

theorem stored_updateOutputAccount (f : OutputAccount → OutputAccount) (key : Bytes) :
    (ctx.updateOutputAccount addr f).stored addr' key =
      if addr' = addr then (f (ctx.account addr)).storageUpdates.lookup key
      else ctx.stored addr' key := by
  rw [stored, updateOutputAccount_eq, setOutputAccounts, lookup_insert_ite]
  split
  · rfl
  · rfl

theorem stored_update {addr : Address} {f : OutputAccount → OutputAccount}
    (hf : ∀ account, (f account).storageUpdates = account.storageUpdates) (addr' : Address)
    (key : Bytes) :
    (ctx.updateOutputAccount addr f).stored addr' key = ctx.stored addr' key := by
  rw [stored_updateOutputAccount]
  split
  · next h => rw [h, hf, stored_eq]
  · rfl

theorem stored_setStorageUpdate (key key' : Bytes) (update : StorageUpdate) :
    (ctx.setStorageUpdate addr key update).stored addr' key' =
      if addr' = addr ∧ key' = key then some update else ctx.stored addr' key' := by
  unfold setStorageUpdate
  rw [stored_updateOutputAccount]
  by_cases ha : addr' = addr
  · rw [if_pos ha, lookup_insert_ite]
    subst ha
    simp only [true_and]
    rfl
  · rw [if_neg ha, if_neg fun h => ha h.1]

/-- A rewriting of all accounts that leaves their storage updates. -/
theorem stored_mapAccounts {f : Address → OutputAccount → OutputAccount}
    (hf : ∀ addr account, (f addr account).storageUpdates = account.storageUpdates)
    (addr : Address) (key : Bytes) :
    (ctx.setOutputAccounts (ctx.outputAccounts.mapWithKey f)).stored addr key =
      ctx.stored addr key := by
  unfold stored setOutputAccounts
  rw [lookup_mapWithKey]
  cases ctx.outputState.outputAccounts.lookup addr with
  | none => rfl
  | some account => simp only [map_some, getD_some, hf]

theorem stored_removeNonUpdatedStorage (addr : Address) (key : Bytes) :
    ctx.removeNonUpdatedStorage.stored addr key =
      (ctx.stored addr key).filter fun update => update.written := by
  unfold stored removeNonUpdatedStorage setOutputAccounts
  rw [lookup_mapWithKey]
  cases ctx.outputState.outputAccounts.lookup addr with
  | none => rfl
  | some account => simp only [map_some, getD_some, lookup_filterValues]

end OutputContext

/-- Merging a frame keeps its updates, and brings those of the caller that it does not have. -/
theorem stored_merged (host inner : Host L) (addr : Address) (key : Bytes) :
    (host.merged inner).output.stored addr key =
      (inner.output.stored addr key).or (host.output.stored addr key) := by
  rw [stored_eq]
  unfold Host.merged
  rw [account_merge, stored_eq, stored_eq]
  unfold account
  cases inner.output.outputAccounts.lookup addr with
  | none => simp [lookup_empty]
  | some account =>
    dsimp only [mergeOutputAccounts, getD_some]
    cases hright : account.storageUpdates.lookup key with
    | none => rw [lookup_union_right (lookup_eq_none.1 hright), none_or]
    | some update =>
      rw [lookup_union_left (mem_iff.2 ⟨update, hright⟩), hright, some_or]

/-! ## Steps that leave the storage -/

namespace Host

variable {s t u : Host L}

theorem SameStorage.refl (s : Host L) : SameStorage s s := ⟨⟨rfl, rfl⟩, fun _ _ => rfl⟩

theorem SameFrames.trans (h : SameFrames s t) (h' : SameFrames t u) : SameFrames s u :=
  ⟨h'.storage.trans h.storage, h'.savedFrames.trans h.savedFrames⟩

theorem SameStorage.trans (h : SameStorage s t) (h' : SameStorage t u) : SameStorage s u :=
  ⟨h.toSameFrames.trans h'.toSameFrames,
    fun addr key => (h'.stored addr key).trans (h.stored addr key)⟩

theorem composes_sameStorage : Composes (@SameStorage L) SameStorage where
  refl := .refl
  fail := .refl
  trans _ _ _ h h' := h.trans h'
  trans_fail _ _ _ h h' := h.trans h'

variable {f : OutputContext → OutputContext}

theorem SameFrames.mapOutput {host : Host L}
    (hstacks : OutputContext.SameStacks host.output (f host.output)) :
    SameFrames host (host.mapOutput f) := by
  refine ⟨rfl, ?_⟩
  unfold Host.savedFrames Host.mapOutput
  rw [hstacks.stateStack, hstacks.codeUpdatesStack]

theorem SameStorage.mapAccounts {host : Host L}
    (hstacks : OutputContext.SameStacks host.output (f host.output))
    (hstored : ∀ addr key, (f host.output).stored addr key = host.output.stored addr key) :
    SameStorage host (host.mapOutput f) :=
  ⟨.mapOutput hstacks, hstored⟩

theorem sameStorage_setPointsUsed (host : Host L) (gasPoints : UInt64) :
    SameStorage host (host.setPointsUsed gasPoints) := by
  unfold setPointsUsed
  split
  · exact .refl _
  · exact ⟨⟨rfl, rfl⟩, fun _ _ => rfl⟩

theorem sameStorage_restoreGas (host : Host L) (gas : UInt64) :
    SameStorage host (host.restoreGas gas) := by
  unfold restoreGas
  split
  · exact host.sameStorage_setPointsUsed _
  · exact .refl _

theorem relates_useGasBounded (gas : UInt64) :
    Relates SameStorage SameStorage (useGasBounded gas : HostM L Unit) := by
  refine .bind composes_sameStorage (.query composes_sameStorage) fun _ => ?_
  exact .modify fun host => host.sameStorage_setPointsUsed _

theorem sameStorage_getOutputAccount (host : Host L) (addr : Address) :
    SameStorage host (host.mapOutput fun output => (output.getOutputAccount addr).2) := by
  refine .mapAccounts ((Write.getOutputAccount addr).apply_sameStacks host.output) fun addr' key => ?_
  rw [getOutputAccount_eq]
  exact host.output.stored_update (fun _ => rfl) addr' key

theorem relates_closeOutputState :
    Relates SameStorage SameStorage (closeOutputState : HostM L Unit) := by
  have hquery : ∀ {g : Host L → Except VMError Unit},
      Relates SameStorage SameStorage (query g) := .query composes_sameStorage
  refine .bind composes_sameStorage (.modify fun host => ?_) fun _ =>
    .bind composes_sameStorage (.modify fun host => ?_) fun _ =>
    .bind composes_sameStorage (.modify fun host => ?_) fun _ =>
    .bind composes_sameStorage (.bind composes_sameStorage (.modify fun host => ?_) fun _ => hquery)
      fun _ => hquery
  · exact .mapAccounts (Write.removeNonUpdatedCode.apply_sameStacks host.output)
      (host.output.stored_mapAccounts fun _ _ => by split <;> rfl)
  · exact .mapAccounts ((Write.setGasRemaining host.gasLeft).apply_sameStacks host.output)
      fun _ _ => rfl
  · have h := host.sameStorage_getOutputAccount host.contextAddress
    exact ⟨⟨h.storage, h.savedFrames⟩, h.stored⟩
  · exact .mapAccounts ((Write.setGasUsed _).apply_sameStacks host.output)
      (host.output.stored_mapAccounts fun _ _ => rfl)

theorem sameStorage_createVMOutputInCaseOfError (host : Host L) (err : VMError) :
    SameStorage host (host.createVMOutputInCaseOfError err).2 := by
  unfold createVMOutputInCaseOfError updateGasStateOnFailure
  dsimp only
  refine .mapAccounts ?_ fun addr key => ?_
  · rw [updateOutputAccount_eq]
    exact ⟨rfl, rfl⟩
  · refine host.output.stored_update (fun account => ?_) addr key
    rfl

theorem sameStorage_getVMOutput (host : Host L) : SameStorage host host.getVMOutput.2 := by
  have h := relates_closeOutputState host
  unfold getVMOutput
  rcases hclose : closeOutputState host with ⟨result, closed⟩
  rw [hclose] at h
  cases result with
  | ok _ => exact h
  | error err => exact SameStorage.trans h (closed.sameStorage_createVMOutputInCaseOfError err)

/-! ## Closing a frame -/

section Closing

variable {host inner : Host L} {input : ContractCallInput}

/-- Closing the frame of a call on the destination context, once its output is there. -/
theorem closeDestContext_storage (returnCode : ReturnCode) (gasRemaining : UInt64)
    (h : inner.savedFrames = (host.enterDestContext input).savedFrames) :
    let closed := ((if returnCode = .Ok then
        inner.popManagedTypes.popStorage.popMergeMetering.mapOutput popMergeActiveState
      else inner.popManagedTypes.popStorage.popSetMetering.mapOutput
        popSetActiveState).popRuntime).restoreGas gasRemaining
    SameFrames host closed ∧ ∀ addr key, closed.output.stored addr key =
      if returnCode = .Ok then
        (inner.output.stored addr key).or (host.output.stored addr key)
      else host.output.stored addr key := by
  by_cases hok : returnCode = .Ok
  · simp only [if_pos hok, (popDest_eq h).2]
    have hgas := (host.merged inner).sameStorage_restoreGas gasRemaining
    refine ⟨⟨hgas.storage, hgas.savedFrames⟩, fun addr key => ?_⟩
    rw [hgas.stored, stored_merged]
  · simp only [if_neg hok, (popDest_eq h).1]
    have hgas := (host.rolledBack inner).sameStorage_restoreGas gasRemaining
    exact ⟨⟨hgas.storage, hgas.savedFrames⟩, hgas.stored⟩

/-- A call on the destination context that fails leaves the storage of the caller, and one that
succeeds adds what its frame has. -/
theorem finishExecuteOnDestContext_storage (err : Option VMError)
    (h : inner.savedFrames = (host.enterDestContext input).savedFrames) :
    SameFrames host (inner.finishExecuteOnDestContext err).2 ∧
      ((inner.finishExecuteOnDestContext err).1.returnCode = .Ok → err = none) ∧
      ∀ addr key, (inner.finishExecuteOnDestContext err).2.output.stored addr key =
        if (inner.finishExecuteOnDestContext err).1.returnCode = .Ok then
          (inner.output.stored addr key).or (host.output.stored addr key)
        else host.output.stored addr key := by
  cases err with
  | some err =>
    have hsame := inner.sameStorage_createVMOutputInCaseOfError err
    obtain ⟨hframes, hstored⟩ := closeDestContext_storage
      (inner.createVMOutputInCaseOfError err).1.returnCode
      (inner.createVMOutputInCaseOfError err).1.gasRemaining (hsame.savedFrames.trans h)
    simp only [hsame.stored] at hstored
    exact ⟨hframes, fun hok => absurd hok (VMError.returnCode_ne_ok err), hstored⟩
  | none =>
    have hsame := inner.sameStorage_getVMOutput
    obtain ⟨hframes, hstored⟩ := closeDestContext_storage inner.getVMOutput.1.returnCode
      inner.getVMOutput.1.gasRemaining (hsame.savedFrames.trans h)
    simp only [hsame.stored] at hstored
    exact ⟨hframes, fun _ => rfl, hstored⟩

/-- The same for a call on the same context, whose storage updates are those of the caller. -/
theorem finishExecuteOnSameContext_storage (err : Option VMError)
    (h : inner.savedFrames = (host.enterSameContext input).savedFrames)
    (hstorage : inner.storage = host.storage) :
    SameFrames host (inner.finishExecuteOnSameContext err) ∧
      ∀ addr key, (inner.finishExecuteOnSameContext err).output.stored addr key =
        if inner.output.outputState.returnCode = .Ok ∧ err = none then
          inner.output.stored addr key
        else host.output.stored addr key := by
  unfold finishExecuteOnSameContext
  by_cases hfail : inner.output.outputState.returnCode ≠ .Ok ∨ err ≠ none
  · rw [if_pos hfail, (popSame_eq h hstorage).1]
    refine ⟨⟨rfl, rfl⟩, fun addr key => ?_⟩
    rw [if_neg (by tauto)]
    rfl
  have hok : inner.output.outputState.returnCode = .Ok ∧ err = none := by tauto
  have hsame := inner.sameStorage_getVMOutput
  rw [if_neg hfail]
  dsimp only
  rw [(popSame_eq (hsame.savedFrames.trans h) (hsame.storage.trans hstorage)).2]
  have hgas := (host.continued inner.getVMOutput.2).sameStorage_restoreGas
    inner.getVMOutput.1.gasRemaining
  refine ⟨⟨hgas.storage, hgas.savedFrames⟩, fun addr key => ?_⟩
  rw [hgas.stored, if_pos hok, ← hsame.stored]
  rfl

end Closing

end Host

/-! ## The updates reflect the sets -/

/-- A key that contracts may read and set. -/
def Blockchain.Unprotected (blockchain : Blockchain L) (key : Bytes) : Prop :=
  blockchain.isProtocolProtectedKey key = false ∧ blockchain.isVMProtectedKey key = false

/-- The storage update under a key, with the value of the chain and the latest set.  An update that
is not written has the value of the chain, even after a set, which then was of that value. -/
structure Mirrors (unprotected : Prop) (chainValue key : Bytes) (stored : Option StorageUpdate)
    (latest : Option Bytes) : Prop where
  absent : stored = none → latest = none
  offset : ∀ update, stored = some update → update.offset = key
  data : ∀ update, stored = some update → update.data = latest.getD chainValue
  unwritten : ∀ update, stored = some update → update.written = false → update.data = chainValue
  written : ∀ update, stored = some update → update.written = true →
    latest ≠ none ∧ (update.data ≠ [] → key.length ≤ 4096)
  unprotected : latest ≠ none → unprotected

namespace Mirrors

variable {unprotected : Prop} {chainValue key value : Bytes} {stored : Option StorageUpdate}
  {latest : Option Bytes}

theorem none : Mirrors unprotected chainValue key none none :=
  ⟨fun _ => rfl, nofun, nofun, nofun, nofun, fun h => absurd rfl h⟩

theorem cache (h : Mirrors unprotected chainValue key .none latest) :
    Mirrors unprotected chainValue key (some ⟨key, chainValue, false⟩) latest := by
  rw [h.absent rfl]
  refine ⟨nofun, ?_, ?_, ?_, ?_, fun h => absurd rfl h⟩ <;> rintro update ⟨⟩
  · rfl
  · rfl
  · exact fun _ => rfl
  · nofun

theorem set_same {update : StorageUpdate}
    (h : Mirrors unprotected chainValue key (some update) latest) (hkey : unprotected) :
    Mirrors unprotected chainValue key (some update) (some update.data) := by
  refine ⟨nofun, h.offset, ?_, h.unwritten, ?_, fun _ => hkey⟩ <;> rintro update ⟨⟩
  · rfl
  · exact fun hwritten => ⟨nofun, (h.written update rfl hwritten).2⟩

theorem set_new (hkey : unprotected) (hlength : value ≠ [] → key.length ≤ 4096) :
    Mirrors unprotected chainValue key (some ⟨key, value, true⟩) (some value) := by
  refine ⟨nofun, ?_, ?_, ?_, ?_, fun _ => hkey⟩ <;> rintro update ⟨⟩
  · rfl
  · rfl
  · nofun
  · exact fun _ => ⟨nofun, hlength⟩

/-- An update that the frame does not have comes from its caller: then nothing was set in either. -/
theorem merge {stored' : Option StorageUpdate} {latest' : Option Bytes}
    (h : Mirrors unprotected chainValue key stored latest)
    (h' : Mirrors unprotected chainValue key stored' latest')
    (hgrows : latest' = .none → latest = .none) :
    Mirrors unprotected chainValue key (stored'.or stored) latest' := by
  cases stored' with
  | some update => exact h'
  | none =>
    have hnone := h'.absent rfl
    have hlatest := hgrows hnone
    subst hnone hlatest
    exact h

end Mirrors

/-- The storage updates of an output hold the latest sets over the values of the chain. -/
def Reflects (blockchain : Blockchain L) (chain : Address → Bytes → Bytes) (ctx : OutputContext)
    (view : StorageView) : Prop :=
  ∀ addr key, Mirrors (blockchain.Unprotected key) (chain addr key) key
    (ctx.stored addr key) (view addr key)

namespace Reflects

variable {blockchain : Blockchain L} {chain : Address → Bytes → Bytes} {ctx ctx' : OutputContext}
  {view : StorageView} {addr : Address} {key value : Bytes}

section
variable (h : Reflects blockchain chain ctx view)
include h

theorem congr (hstored : ∀ addr key, ctx'.stored addr key = ctx.stored addr key) :
    Reflects blockchain chain ctx' view := by
  intro addr key
  rw [hstored]
  exact h addr key

theorem cache (hnone : ctx.stored addr key = none) :
    Reflects blockchain chain (ctx.setStorageUpdate addr key ⟨key, chain addr key, false⟩)
      view := by
  intro addr' key'
  rw [ctx.stored_setStorageUpdate]
  split
  · next heq =>
    obtain ⟨rfl, rfl⟩ := heq
    exact (hnone ▸ h addr' key').cache
  · exact h addr' key'

theorem set_same {update : StorageUpdate} (hkey : blockchain.Unprotected key)
    (hsome : ctx.stored addr key = some update) :
    Reflects blockchain chain ctx (view.set addr key update.data) := by
  intro addr' key'
  unfold StorageView.set
  split
  · next heq =>
    obtain ⟨rfl, rfl⟩ := heq
    have hentry := h addr' key'
    rw [hsome] at hentry ⊢
    exact hentry.set_same hkey
  · exact h addr' key'

theorem set_new (hkey : blockchain.Unprotected key) (hlength : value ≠ [] → key.length ≤ 4096) :
    Reflects blockchain chain (ctx.setStorageUpdate addr key ⟨key, value, true⟩)
      (view.set addr key value) := by
  intro addr' key'
  rw [ctx.stored_setStorageUpdate]
  unfold StorageView.set
  by_cases heq : addr' = addr ∧ key' = key
  · rw [if_pos heq, if_pos heq, heq.2]
    exact Mirrors.set_new hkey hlength
  · rw [if_neg heq, if_neg heq]
    exact h addr' key'

end

end Reflects

/-! ## Reading and setting -/

section Access

variable {blockchain : Blockchain L} {chain : Address → Bytes → Bytes} {view : StorageView}
  {host : Host L} {addr : Address} {key value : Bytes}

theorem getOutputAccount_stored (ctx : OutputContext) (addr : Address) (key : Bytes) :
    (ctx.getOutputAccount addr).1.1.storageUpdates.lookup key = ctx.stored addr key := by
  unfold getOutputAccount stored
  cases ctx.outputAccounts.lookup addr <;> rfl

/-- A read of a key that is not protected, by whether there is an update. -/
theorem getStorageFromAddressUnmetered_eq (hkey : blockchain.Unprotected key) :
    getStorageFromAddressUnmetered blockchain addr key host =
      let seen := host.mapOutput fun output => (output.getOutputAccount addr).2
      match host.output.stored addr key with
      | some update => (.ok update.data, seen)
      | none =>
        match blockchain.storageData host.ledger addr key with
        | .error err => (.error err, seen)
        | .ok value =>
          (.ok value, seen.mapOutput fun output => output.setStorageUpdate addr key
            ⟨key, value, false⟩) := by
  unfold getStorageFromAddressUnmetered
  rw [if_neg (by rw [hkey.1]; nofun)]
  simp only [bind, andThen, gets, Process.modify, getOutputAccount_stored]
  cases host.output.stored addr key with
  | some update => rfl
  | none =>
    cases hdata : blockchain.storageData host.ledger addr key with
    | error err => simp only [andThen, query, Host.mapOutput, hdata]
    | ok value =>
      simp only [andThen, query, Host.mapOutput, hdata]
      rfl

section
variable (hchain : ∀ ledger addr key value,
    blockchain.storageData ledger addr key = .ok value → value = chain addr key)
  (hkey : blockchain.Unprotected key) (h : Reflects blockchain chain host.output view)
include hchain hkey h

/-- A read gives the latest set, or the value of the chain, which it caches. -/
theorem getStorageFromAddressUnmetered_spec :
    Ends (fun value host' => value = view.value chain addr key ∧
        host.SameFrames host' ∧ Reflects blockchain chain host'.output view ∧
        ∃ update, host'.output.stored addr key = some update ∧ update.data = value)
      (fun host' => host.SameFrames host')
      (getStorageFromAddressUnmetered blockchain addr key host) := by
  have hseen := host.sameStorage_getOutputAccount addr
  have hreflects := h.congr hseen.stored
  have hentry := h addr key
  rw [getStorageFromAddressUnmetered_eq hkey]
  cases hstored : host.output.stored addr key with
  | some update =>
    rw [hstored] at hentry
    exact ⟨hentry.data update rfl, hseen.toSameFrames, hreflects, update,
      (hseen.stored addr key).trans hstored, rfl⟩
  | none =>
    cases hdata : blockchain.storageData host.ledger addr key with
    | error err => exact hseen.toSameFrames
    | ok value =>
      obtain rfl := hchain _ _ _ _ hdata
      rw [hstored] at hentry
      refine ⟨?_, hseen.toSameFrames.trans (.mapOutput
          ((Write.setStorageUpdate addr key ⟨key, chain addr key, false⟩).apply_sameStacks _)),
        hreflects.cache ((hseen.stored addr key).trans hstored),
        ⟨key, chain addr key, false⟩, ?_, rfl⟩
      · rw [StorageView.value, hentry.absent rfl, getD_none]
      · rw [Host.mapOutput, stored_setStorageUpdate, if_pos ⟨rfl, rfl⟩]

theorem getStorageFromAddress_spec :
    Ends (fun value host' => value = view.value chain addr key ∧
        host.SameFrames host' ∧ Reflects blockchain chain host'.output view)
      (fun host' => host.SameFrames host')
      (Host.getStorageFromAddress blockchain addr key host) := by
  have hspec : Ends _ _ (getStorageFromAddressUnmetered blockchain addr key host) :=
    getStorageFromAddressUnmetered_spec hchain hkey h
  unfold Host.getStorageFromAddress
  simp only [bind, andThen, query]
  split
  · next hquery =>
    obtain ⟨-, rfl⟩ := Prod.mk.inj hquery
    rcases hread : getStorageFromAddressUnmetered blockchain addr key host with ⟨result, host'⟩
    rw [hread] at hspec
    cases result with
    | ok value => exact ⟨hspec.1, hspec.2.1, hspec.2.2.1⟩
    | error err => exact hspec
  · next hquery =>
    obtain ⟨-, rfl⟩ := Prod.mk.inj hquery
    exact ⟨rfl, rfl⟩

theorem setStorage_spec :
    Ends (fun _ host' => host.SameFrames host' ∧
        Reflects blockchain chain host'.output (view.set host.storage.address key value))
      (fun host' => host.SameFrames host')
      (Host.setStorage blockchain true key value host) := by
  -- `seen old` is what holds after the read of the old value, `latest` after the set
  let seen : Bytes → Host L → Prop := fun old s => host.SameFrames s ∧
    Reflects blockchain chain s.output view ∧
    ∃ update, s.output.stored host.storage.address key = some update ∧ update.data = old
  let latest : Host L → Prop := fun s => host.SameFrames s ∧
    Reflects blockchain chain s.output (view.set host.storage.address key value)
  have hgasSeen : ∀ old gas, Triple (seen old) (Host.useGasBounded gas : HostM L Unit)
      (fun _ => seen old) (host.SameFrames ·) := fun old gas =>
    (Host.relates_useGasBounded gas).triple
      (fun s t hs hst => ⟨hs.1.trans hst.toSameFrames, hs.2.1.congr hst.stored,
        hs.2.2.imp fun _ hu => ⟨(hst.stored _ _).trans hu.1, hu.2⟩⟩)
      (fun s t hs hst => hs.1.trans hst.toSameFrames)
  have hgasLatest : ∀ gas, Triple latest (Host.useGasBounded gas : HostM L Unit)
      (fun _ => latest) (host.SameFrames ·) := fun gas =>
    (Host.relates_useGasBounded gas).triple
      (fun s t hs hst => ⟨hs.1.trans hst.toSameFrames, hs.2.congr hst.stored⟩)
      (fun s t hs hst => hs.1.trans hst.toSameFrames)
  have hrefl : host.SameFrames host := ⟨rfl, rfl⟩
  have hread : Triple (· = host)
      (getStorageFromAddressUnmetered blockchain host.storage.address key) seen
      (host.SameFrames ·) := by
    rintro s rfl
    have hspec : Ends _ _
        (getStorageFromAddressUnmetered blockchain s.storage.address key s) :=
      getStorageFromAddressUnmetered_spec hchain hkey h
    rcases hrun : getStorageFromAddressUnmetered blockchain s.storage.address key s with
      ⟨result, s'⟩
    rw [hrun] at hspec
    cases result with
    | ok old => exact hspec.2
    | error err => exact hspec
  have htriple : Triple (· = host) (Host.setStorage blockchain true key value)
      (fun _ => latest) (host.SameFrames ·) := by
    refine .bind (Q := fun _ s => s = host) (.query (fun s _ hs _ => hs)
      (by rintro s rfl; exact hrefl))
      fun _ => ?_
    refine .bind (Q := fun addr s => s = host ∧ addr = host.storage.address)
      (.gets (by rintro s rfl; exact ⟨rfl, rfl⟩)) fun addr => ?_
    refine .of_and fun haddress => ?_
    subst haddress
    refine .bind (Q := seen) hread fun old => ?_
    refine .bind (hgasSeen old _) fun _ => ?_
    split
    · -- the value is there already
      next heq =>
      refine Triple.of_imp (fun s hs => ?_) (hgasLatest _)
      obtain ⟨hframes, hreflects, update, hstored, hdata⟩ := hs
      refine ⟨hframes, ?_⟩
      rw [← heq, ← hdata]
      exact hreflects.set_same hkey hstored
    · refine .lift_bind (fun _ haccepted => ?_) fun s hs => hs.1
      refine .bind (Q := fun _ => latest) (.modify fun s hs => ?_) fun _ => hgasLatest _
      have hlength : value ≠ [] → key.length ≤ 4096 := by
        intro hne
        by_contra hlong
        simp [reject, hne, Nat.lt_of_not_le hlong] at haccepted
      have hreflects : Reflects blockchain chain (s.output.addDeltaBytes host.storage.address
          ((value.length : Int) - old.length)) view :=
        hs.2.1.congr (s.output.stored_update fun _ => by split <;> rfl)
      refine ⟨hs.1.trans (.mapOutput ?_), hreflects.set_new hkey hlength⟩
      exact ((Write.addDeltaBytes _ _).apply_sameStacks s.output).trans
        ((Write.setStorageUpdate _ _ _).apply_sameStacks _)
  exact htriple host rfl

end

end Access

/-! ## Whole frames -/

theorem StorageTrace.view_eq_none (trace : StorageTrace) {view : StorageView} {addr : Address}
    {key : Bytes} (h : trace.view view addr key = none) : view addr key = none := by
  induction trace generalizing view with
  | nil => exact h
  | read _ _ _ rest ih => exact ih h
  | set addr' key' value rest ih =>
    have hset := ih h
    unfold StorageView.set at hset
    split at hset
    · cases hset
    · exact hset
  | frame survived body rest ihb ihr =>
    have hbody := ihr h
    split at hbody
    · exact ihb hbody
    · exact hbody

section Exec

variable {blockchain : Blockchain L} {chain : Address → Bytes → Bytes} {view : StorageView}
  {host inner : Host L} {input : ContractCallInput}

/-- What is known when a frame has run. -/
structure Tracks (blockchain : Blockchain L) (chain : Address → Bytes → Bytes) (view : StorageView)
    (host : Host L) (run : StorageTrace × Except VMError Unit × Host L) : Prop where
  faithful : run.1.Faithful chain view
  frames : host.SameFrames run.2.2
  reflects : run.2.1 = .ok () → Reflects blockchain chain run.2.2.output (run.1.view view)

theorem Reflects.openFrame {ctx : OutputContext} (h : Reflects blockchain chain ctx view) :
    Reflects blockchain chain ctx.openFrame view := by
  refine h.congr fun addr key => ?_
  unfold OutputContext.openFrame
  rw [pushState_eq]
  rfl

theorem Reflects.pushState {ctx : OutputContext} (h : Reflects blockchain chain ctx view) :
    Reflects blockchain chain ctx.pushState view := by
  refine h.congr fun addr key => ?_
  rw [pushState_eq]
  rfl

variable {result : Except VMError Unit}

theorem errorOf_eq_none (h : errorOf result = none) : result = .ok () := by
  cases result with
  | ok _ => rfl
  | error err => cases h

variable {trace : StorageTrace}

theorem Tracks.closeDest (h : Reflects blockchain chain host.output view)
    (hbody : Tracks blockchain chain view (host.enterDestContext input) (trace, result, inner)) :
    let closed := inner.finishExecuteOnDestContext (errorOf result)
    host.SameFrames closed.2 ∧ Reflects blockchain chain closed.2.output
      (if decide (closed.1.returnCode = .Ok) = true then trace.view view else view) := by
  obtain ⟨hframes, herr, hstored⟩ :=
    Host.finishExecuteOnDestContext_storage (errorOf result) hbody.frames.savedFrames
  refine ⟨hframes, fun addr key => ?_⟩
  rw [hstored]
  by_cases hok : (inner.finishExecuteOnDestContext (errorOf result)).1.returnCode = .Ok
  · simp only [hok, decide_true, if_true]
    have hinner := hbody.reflects (errorOf_eq_none (herr hok)) addr key
    exact (h addr key).merge hinner trace.view_eq_none
  · simp only [hok, decide_false, if_false, Bool.false_eq_true]
    exact h addr key

theorem Tracks.closeSame (h : Reflects blockchain chain host.output view)
    (hbody : Tracks blockchain chain view (host.enterSameContext input) (trace, result, inner)) :
    let closed := inner.finishExecuteOnSameContext (errorOf result)
    host.SameFrames closed ∧ Reflects blockchain chain closed.output
      (if decide (inner.output.outputState.returnCode = .Ok ∧ errorOf result = none) = true then
        trace.view view else view) := by
  obtain ⟨hframes, hstored⟩ := Host.finishExecuteOnSameContext_storage (errorOf result)
    hbody.frames.savedFrames hbody.frames.storage
  refine ⟨hframes, fun addr key => ?_⟩
  rw [hstored]
  by_cases hok : inner.output.outputState.returnCode = .Ok ∧ errorOf result = none
  · simp only [hok, and_self, decide_true, if_true]
    exact hbody.reflects (errorOf_eq_none hok.2) addr key
  · simp only [hok, decide_false, if_false, Bool.false_eq_true]
    exact h addr key

/-- By induction on the frame: each step keeps the updates a reflection of the sets, and a frame that
is closed leaves those of its caller or adds its own to them. -/
theorem exec_tracks (hchain : ∀ ledger addr key value,
      blockchain.storageData ledger addr key = .ok value → value = chain addr key)
    (frame : StorageFrame L) (hframe : frame.Unprotected blockchain)
    (h : Reflects blockchain chain host.output view) :
    Tracks blockchain chain view host (frame.exec blockchain host) := by
  induction frame generalizing host view with
  | done => exact ⟨trivial, ⟨rfl, rfl⟩, fun _ => h⟩
  | fail err => exact ⟨trivial, ⟨rfl, rfl⟩, nofun⟩
  | read addr key rest ih =>
    have hspec : Ends _ _ (Host.getStorageFromAddress blockchain addr key host) :=
      getStorageFromAddress_spec hchain hframe.1 h
    unfold exec
    rcases hrun : Host.getStorageFromAddress blockchain addr key host with ⟨result, host'⟩
    rw [hrun] at hspec
    cases result with
    | error err => exact ⟨trivial, hspec, nofun⟩
    | ok value =>
      have hrest := ih value (hframe.2 value) hspec.2.2
      exact ⟨⟨hspec.1, hrest.faithful⟩, hspec.2.1.trans hrest.frames, hrest.reflects⟩
  | set key value rest ih =>
    have hspec : Ends _ _ (Host.setStorage blockchain true key value host) :=
      setStorage_spec hchain hframe.1 h
    unfold exec
    rcases hrun : Host.setStorage blockchain true key value host with ⟨result, host'⟩
    rw [hrun] at hspec
    cases result with
    | error err => exact ⟨trivial, hspec, nofun⟩
    | ok _ =>
      have hrest := ih hframe.2 hspec.2
      exact ⟨hrest.faithful, hspec.1.trans hrest.frames, hrest.reflects⟩
  | other step rest ih =>
    have hsame := step.sameStorage host
    unfold exec
    rcases hrun : step.run host with ⟨result, host'⟩
    rw [hrun] at hsame
    cases result with
    | error err => exact ⟨trivial, hsame.toSameFrames, nofun⟩
    | ok _ =>
      have hrest := ih hframe (h.congr hsame.stored)
      exact ⟨hrest.faithful, hsame.toSameFrames.trans hrest.frames, hrest.reflects⟩
  | callOnDest input body rest ihb ihr =>
    have hbody : Tracks blockchain chain view (host.enterDestContext input) _ :=
      ihb hframe.1 h.openFrame
    unfold exec
    rcases hrun : body.exec blockchain (host.enterDestContext input) with ⟨trace, result, inner⟩
    rw [hrun] at hbody
    obtain ⟨hframes, hclosed⟩ := hbody.closeDest h
    have hrest := ihr (decide ((Host.finishExecuteOnDestContext (errorOf result)
      inner).1.returnCode = .Ok)) (hframe.2 _) hclosed
    exact ⟨⟨hbody.faithful, hrest.faithful⟩, hframes.trans hrest.frames, hrest.reflects⟩
  | callOnSame input body rest ihb ihr =>
    have hbody : Tracks blockchain chain view (host.enterSameContext input) _ :=
      ihb hframe.1 h.pushState
    unfold exec
    rcases hrun : body.exec blockchain (host.enterSameContext input) with ⟨trace, result, inner⟩
    rw [hrun] at hbody
    obtain ⟨hframes, hclosed⟩ := hbody.closeSame h
    have hrest := ihr (decide (inner.output.outputState.returnCode = .Ok ∧
      errorOf result = none)) (hframe.2 _) hclosed
    exact ⟨⟨hbody.faithful, hrest.faithful⟩, hframes.trans hrest.frames, hrest.reflects⟩

end Exec

end KleverGo.Kvm
