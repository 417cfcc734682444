import KleverGo.Kvm.Frames

/-!
# Merging frames

Merging a frame brings the state saved for it and the state of the frame together, account by
account.  It gives the state of the frame when that has only added to the saved one: merging can
neither remove an account nor empty a code field.

Principal results:

* `Grows.popMerge` — merging a frame that has only added to its starting state gives the state of
  the frame;
* `exec_agrees` — a script goes through the same accounts whether it runs in a frame or directly;
* `frames_compose` — frames that are rolled back and frames that are merged, with what a script
  must not do in a merged frame (`Script.Keeps`); `merge_undoes_writes` shows a second upgrade in
  one transaction for which merging and direct writing differ.
-/

namespace KleverGo.Kvm

open OutputContext OutputAccount Finmap Option

/-! ## Adding to a state -/

/-- The account has only been added to: no storage update is gone, the transfers continue the ones
it had, and neither the metadata nor the deployer has been emptied. -/
structure OutputAccount.Grown (account account' : OutputAccount) : Prop where
  storageUpdates : ∀ key, key ∈ account.storageUpdates → key ∈ account'.storageUpdates
  codeMetadata : account'.codeMetadata = [] → account.codeMetadata = []
  codeDeployerAddress : account'.codeDeployerAddress = none → account.codeDeployerAddress = none
  outputTransfers : account.outputTransfers <+: account'.outputTransfers
  bytesAddedToStorage : account.bytesAddedToStorage ≤ account'.bytesAddedToStorage
  bytesDeletedFromStorage : account.bytesDeletedFromStorage ≤ account'.bytesDeletedFromStorage

namespace OutputAccount.Grown

theorem refl (account : OutputAccount) : account.Grown account :=
  ⟨fun _ h => h, id, id, List.prefix_rfl, le_rfl, le_rfl⟩

theorem trans {a b c : OutputAccount} (h : a.Grown b) (h' : b.Grown c) : a.Grown c :=
  ⟨fun key hk => h'.storageUpdates key (h.storageUpdates key hk),
    fun hc => h.codeMetadata (h'.codeMetadata hc),
    fun hc => h.codeDeployerAddress (h'.codeDeployerAddress hc),
    h.outputTransfers.trans h'.outputTransfers, h.bytesAddedToStorage.trans h'.bytesAddedToStorage,
    h.bytesDeletedFromStorage.trans h'.bytesDeletedFromStorage⟩

/-- Merging all the transfers of an output into an account adds to it. -/
theorem merge (account rightAccount : OutputAccount) :
    account.Grown (mergeOutputAccounts account rightAccount true) where
  storageUpdates key h := mem_union.2 (.inr h)
  codeMetadata h := by
    simp only [mergeOutputAccounts] at h
    split at h
    · next hne => exact absurd h hne
    · exact h
  codeDeployerAddress h := (or_eq_none_iff.1 h).2
  outputTransfers := List.prefix_append _ _
  bytesAddedToStorage := by simp only [mergeOutputAccounts]; split <;> omega
  bytesDeletedFromStorage := by simp only [mergeOutputAccounts]; split <;> omega

/-- Merging an account that has grown out of the saved one gives that account; only its code may
still come from the saved one. -/
theorem merge_eq {account account' : OutputAccount} (h : account.Grown account') :
    mergeOutputAccounts account account' false =
      { account' with code := if account'.code ≠ [] then account'.code else account.code } := by
  have hstorage : account'.storageUpdates ∪ account.storageUpdates = account'.storageUpdates := by
    refine ext_lookup fun key => ?_
    by_cases hk : key ∈ account'.storageUpdates
    · rw [lookup_union_left hk]
    · rw [lookup_union_right hk, lookup_eq_none.2 hk,
        lookup_eq_none.2 fun hk' => hk (h.storageUpdates key hk')]
  have htransfers : mergeTransfers account.outputTransfers account'.outputTransfers false =
      account'.outputTransfers := by
    obtain ⟨added, hadded⟩ := h.outputTransfers
    rw [← hadded]
    cases added with
    | nil => simp [mergeTransfers]
    | cons head tail => simp [mergeTransfers]
  unfold mergeOutputAccounts
  rw [hstorage, htransfers]
  congr 1
  · by_cases hm : account'.codeMetadata = []
    · simp [hm, h.codeMetadata hm]
    · simp [hm]
  · cases hd : account'.codeDeployerAddress with
    | none => simp [h.codeDeployerAddress hd]
    | some deployer => rfl
  · have := h.bytesAddedToStorage
    split <;> omega
  · have := h.bytesDeletedFromStorage
    split <;> omega

end OutputAccount.Grown

/-- The context has only added to what it started from: every account is still there and has grown,
and an account whose code is staged has a code, unless that was staged empty to begin with. -/
structure Grows (start ctx : OutputContext) : Prop where
  accounts : ∀ addr account, start.outputAccounts.lookup addr = some account →
    ∃ account', ctx.outputAccounts.lookup addr = some account' ∧ account.Grown account'
  staged : ∀ addr ∈ ctx.codeUpdates, addr ∈ start.codeUpdates ∨
    ∃ account', ctx.outputAccounts.lookup addr = some account' ∧ account'.code ≠ []
  code : ∀ addr ∈ ctx.codeUpdates, ∀ account account',
    start.outputAccounts.lookup addr = some account →
    ctx.outputAccounts.lookup addr = some account' → account.code ≠ [] → account'.code ≠ []

namespace Grows

variable {start ctx ctx' : OutputContext}

/-- A step that leaves the pending code updates and only adds to each account. -/
theorem of_accounts (h : ∀ addr account, ctx.outputAccounts.lookup addr = some account →
      ∃ account', ctx'.outputAccounts.lookup addr = some account' ∧
        account.Grown account' ∧ (account'.code = [] → account.code = []))
    (hupdates : ctx'.codeUpdates = ctx.codeUpdates) : Grows ctx ctx' where
  accounts addr account hlookup := by
    obtain ⟨account', hl, hg, -⟩ := h addr account hlookup
    exact ⟨account', hl, hg⟩
  staged addr hmem := .inl (hupdates ▸ hmem)
  code addr _ account account' hlookup hlookup' hne := by
    obtain ⟨account'', hl, -, hc⟩ := h addr account hlookup
    rw [hlookup'] at hl
    obtain rfl := some_inj.1 hl
    exact fun hnil => hne (hc hnil)

theorem refl (ctx : OutputContext) : Grows ctx ctx :=
  of_accounts (fun _ account h => ⟨account, h, .refl account, id⟩) rfl

theorem trans (h : Grows start ctx) (h' : Grows ctx ctx') : Grows start ctx' where
  accounts addr account hlookup := by
    obtain ⟨account1, hl1, hg1⟩ := h.accounts addr account hlookup
    obtain ⟨account2, hl2, hg2⟩ := h'.accounts addr account1 hl1
    exact ⟨account2, hl2, hg1.trans hg2⟩
  staged addr hmem := by
    rcases h'.staged addr hmem with hmid | hcode
    · rcases h.staged addr hmid with hstart | ⟨account1, hl1, hc1⟩
      · exact .inl hstart
      · obtain ⟨account2, hl2, -⟩ := h'.accounts addr account1 hl1
        exact .inr ⟨account2, hl2, h'.code addr hmem account1 account2 hl1 hl2 hc1⟩
    · exact .inr hcode
  code addr hmem account account2 hlookup hl2 hne := by
    obtain ⟨account1, hl1, -⟩ := h.accounts addr account hlookup
    rcases h'.staged addr hmem with hmid | ⟨account', hl, hc⟩
    · exact h'.code addr hmem account1 account2 hl1 hl2
        (h.code addr hmid account account1 hlookup hl1 hne)
    · rw [hl2] at hl
      rwa [some_inj.1 hl]

theorem congr (h : Grows start ctx) (ha : Agrees ctx ctx') : Grows start ctx' := by
  have hstaged : ∀ addr ∈ ctx.codeUpdates, ∀ account,
      ctx'.outputAccounts.lookup addr = some account →
      ctx.outputAccounts.lookup addr = some account := by
    intro addr hmem account hlookup
    rcases ha.cases addr with ⟨-, hb⟩ | ⟨account1, account2, h₁, h₂, hseen⟩
    · rw [hb] at hlookup
      cases hlookup
    · rw [seen_of_staged hmem, seen_of_staged hmem] at hseen
      rw [hlookup] at h₂
      rw [h₁, hseen, ← some_inj.1 h₂]
  refine ⟨fun addr account hlookup => ?_, fun addr hmem => ?_,
    fun addr hmem account account' hlookup hlookup' => ?_⟩
  · obtain ⟨account1, hl1, hg⟩ := h.accounts addr account hlookup
    rcases ha.cases addr with ⟨hb, -⟩ | ⟨account1', account2, h₁, h₂, hseen⟩
    · rw [hb] at hl1
      cases hl1
    rw [hl1] at h₁
    obtain rfl := some_inj.1 h₁
    refine ⟨account2, h₂, ?_⟩
    by_cases hs : addr ∈ ctx.codeUpdates
    · rw [seen_of_staged hs, seen_of_staged hs] at hseen
      rwa [← hseen]
    rw [seen_of_not_staged hs, seen_of_not_staged hs] at hseen
    simp only [OutputAccount.mk.injEq, true_and] at hseen
    obtain ⟨h1, h2, h3, h4, -, h6, h7⟩ := hseen
    exact ⟨h1 ▸ hg.storageUpdates, h2 ▸ hg.codeMetadata, h3 ▸ hg.codeDeployerAddress,
      h4 ▸ hg.outputTransfers, h6 ▸ hg.bytesAddedToStorage, h7 ▸ hg.bytesDeletedFromStorage⟩
  · rw [ha.codeUpdates] at hmem
    rcases h.staged addr hmem with hstart | ⟨account', hl, hc⟩
    · exact .inl hstart
    rcases ha.cases addr with ⟨hb, -⟩ | ⟨account1, account2, h₁, h₂, hseen⟩
    · rw [hb] at hl
      cases hl
    · have := hstaged addr hmem account2 h₂
      rw [hl] at this
      exact .inr ⟨account2, h₂, some_inj.1 this ▸ hc⟩
  · rw [ha.codeUpdates] at hmem
    exact h.code addr hmem account account' hlookup (hstaged addr hmem account' hlookup')

/-- Merging a frame that has only added to its starting state gives the state of the frame. -/
theorem popMerge (h : Grows start ctx) {stack : List VMOutput}
    (hstack : ctx.stateStack = start.outputState :: stack) :
    Agrees ctx ctx.popMergeActiveState := by
  have hpop : ctx.popMergeActiveState.outputState =
      mergeVMOutputs start.outputState ctx.outputState := by
    unfold popMergeActiveState
    rw [hstack]
    exact mergeVMOutputs_new _
  refine ⟨fun addr => ?_, ?_, ?_⟩
  · simp only [outputAccounts, hpop, mergeVMOutputs, mergeVMOutputsConditionally, lookup_mergeWith]
    cases hc : ctx.outputState.outputAccounts.lookup addr with
    | none =>
      cases hs : start.outputState.outputAccounts.lookup addr with
      | none => rfl
      | some account =>
        obtain ⟨account', hl, -⟩ := h.accounts addr account hs
        rw [outputAccounts, hc] at hl
        cases hl
    | some account' =>
      dsimp only
      cases hs : start.outputState.outputAccounts.lookup addr with
      | none => rw [getD_none, mergeOutputAccounts_new]
      | some account =>
        obtain ⟨account'', hl, hg⟩ := h.accounts addr account hs
        rw [outputAccounts, hc] at hl
        obtain rfl := some_inj.1 hl
        rw [getD_some, hg.merge_eq]
        refine congrArg some ?_
        dsimp only
        by_cases hmem : addr ∈ ctx.codeUpdates
        · rw [seen_of_staged hmem, seen_of_staged hmem]
          by_cases hnil : account'.code = []
          · have : account.code = [] := by
              by_contra hne
              exact h.code addr hmem account account' hs hc hne hnil
            simp only [hnil, this, ne_eq, not_true_eq_false, if_false]
            rw [← hnil]
          · simp [hnil]
        · rw [seen_of_not_staged hmem, seen_of_not_staged hmem]
  · unfold popMergeActiveState
    rw [hstack]
  · unfold popMergeActiveState
    rw [hstack]

end Grows

/-! ## What a merged frame must not do -/

/-- What a write must not do in a frame that was opened at `start` and will be merged: delete an
account that the saved state has, stage an empty code, or empty the metadata or the deployer that
the saved state has. -/
def Write.Keeps (start ctx : OutputContext) : Write → Prop
  | deleteOutputAccount addr => addr ∉ start.outputAccounts
  | deployCode input => input.contractCode ≠ [] ∧
    ∀ account, start.outputAccounts.lookup input.contractAddress = some account →
      (input.contractCodeMetadata = [] → account.codeMetadata = []) ∧
      (input.codeDeployerAddress = none → account.codeDeployerAddress = none)
  | removeNonUpdatedCode => ∀ addr account,
    start.outputAccounts.lookup addr = some account → addr ∉ ctx.codeUpdates →
      account.codeMetadata = [] ∧ account.codeDeployerAddress = none
  | _ => True

/-- Every write of a script keeps to that, in the frame it is done in; a frame that is rolled back
may do anything. -/
def Script.Keeps : Script → OutputContext → OutputContext → Prop
  | done, _, _ => True
  | write w rest, start, ctx => w.Keeps start ctx ∧ rest.Keeps start (w.apply ctx)
  | frame frameEnd body rest, start, ctx =>
    (frameEnd = .merge → body.Keeps ctx ctx.openFrame) ∧
      rest.Keeps start (frameEnd.close (body.exec ctx.openFrame))

theorem Write.Keeps.congr {w : Write} {start start' ctx ctx' : OutputContext}
    (h : w.Keeps start ctx) (hs : Agrees start start') (hc : Agrees ctx ctx') :
    w.Keeps start' ctx' := by
  have hfields : ∀ addr account', start'.outputAccounts.lookup addr = some account' →
      ∃ account, start.outputAccounts.lookup addr = some account ∧
        account.codeMetadata = account'.codeMetadata ∧
        account.codeDeployerAddress = account'.codeDeployerAddress := by
    intro addr account' hlookup
    rcases hs.cases addr with ⟨-, hb⟩ | ⟨account, account'', ha, hb, hseen⟩
    · rw [hb] at hlookup
      cases hlookup
    rw [hlookup] at hb
    obtain rfl := some_inj.1 hb
    refine ⟨account, ha, ?_⟩
    unfold OutputAccount.seen at hseen
    split at hseen
    · rw [hseen]
      exact ⟨rfl, rfl⟩
    · simp only [OutputAccount.mk.injEq, true_and] at hseen
      exact ⟨hseen.2.1, hseen.2.2.1⟩
  cases w with
  | deleteOutputAccount addr =>
    intro hmem
    obtain ⟨account', hlookup⟩ := mem_iff.1 hmem
    obtain ⟨account, hl, -⟩ := hfields addr account' hlookup
    exact h (mem_of_lookup_eq_some hl)
  | deployCode input =>
    refine ⟨h.1, fun account' hlookup => ?_⟩
    obtain ⟨account, hl, hm, hd⟩ := hfields _ account' hlookup
    rw [← hm, ← hd]
    exact h.2 account hl
  | removeNonUpdatedCode =>
    intro addr account' hlookup hmem
    obtain ⟨account, hl, hm, hd⟩ := hfields addr account' hlookup
    rw [← hm, ← hd]
    rw [hc.codeUpdates] at hmem
    exact h addr account hl hmem
  | _ => trivial

namespace Grows

variable {start ctx : OutputContext}

section
variable (addr : Address)
include addr

theorem update {f : OutputAccount → OutputAccount}
    (hf : ∀ account : OutputAccount, account.Grown (f account))
    (hcode : ∀ account : OutputAccount, (f account).code = [] → account.code = []) :
    Grows ctx (ctx.updateOutputAccount addr f) := by
  rw [updateOutputAccount_eq]
  refine of_accounts (fun addr' account hlookup => ?_) rfl
  simp only [setOutputAccounts, outputAccounts, lookup_insert_ite]
  split
  · next heq =>
    subst heq
    refine ⟨_, rfl, ?_⟩
    rw [hlookup, getD_some]
    exact ⟨hf account, hcode account⟩
  · exact ⟨account, hlookup, .refl account, id⟩

theorem getOutputAccount : Grows ctx (ctx.getOutputAccount addr).2 := by
  rw [getOutputAccount_eq]
  exact update addr Grown.refl fun _ => id

theorem setStorageUpdate (key : Bytes) (storageUpdate : StorageUpdate) :
    Grows ctx (ctx.setStorageUpdate addr key storageUpdate) := by
  refine update addr (fun account => ?_) fun _ => id
  exact { Grown.refl account with
    storageUpdates := fun key' hk => mem_insert.2 (.inr hk) }

theorem addDeltaBytes (deltaBytes : Int) : Grows ctx (ctx.addDeltaBytes addr deltaBytes) := by
  refine update addr (fun account => ?_) fun account => ?_
  · split
    · exact { Grown.refl account with bytesAddedToStorage := Nat.le_add_right _ _ }
    · exact { Grown.refl account with
        bytesDeletedFromStorage := Nat.le_add_right _ _ }
  · split <;> exact id

theorem cacheCode (code : Bytes) : Grows ctx (ctx.cacheCode addr code) := by
  refine update addr (fun account => ?_) fun account hcode => ?_
  · exact { Grown.refl account with }
  · by_contra hne
    simp [hne] at hcode

theorem appendOutputTransfers (transfers : List OutputTransfer) :
    Grows ctx (ctx.appendOutputTransfers addr transfers) :=
  update addr (fun account =>
    { Grown.refl account with outputTransfers := List.prefix_append _ _ }) fun _ => id

end

theorem recordValueTransfer (destination sender : Address) (value : Int) :
    Grows ctx (ctx.recordValueTransfer destination sender value) := by
  have hsender : Grows ctx (ctx.getOutputAccount sender).2 := getOutputAccount sender
  have h := hsender.trans (appendOutputTransfers destination
    [⟨(ctx.getOutputAccount sender).2.crtTransferIndex, sender, destination,
      { kdaValue := value, kdaTokenName := KLVIdentifier }⟩])
  exact ⟨h.accounts, h.staged, h.code⟩

theorem addToActiveState (rightOutput : VMOutput) :
    Grows ctx (ctx.addToActiveState rightOutput) := by
  refine of_accounts (fun addr account hlookup => ?_) rfl
  simp only [OutputContext.addToActiveState, mergeVMOutputsConditionally, outputAccounts,
    lookup_mergeWith]
  cases hr : rightOutput.outputAccounts.lookup addr with
  | none => exact ⟨account, hlookup, .refl account, id⟩
  | some rightAccount =>
    refine ⟨_, rfl, ?_⟩
    rw [outputAccounts] at hlookup
    rw [hlookup, getD_some]
    refine ⟨.merge account rightAccount, fun h => ?_⟩
    simp only [mergeOutputAccounts] at h
    split at h
    · next hne => exact absurd h hne
    · exact h

theorem deleteOutputAccount (h : Grows start ctx) {addr : Address}
    (hkeep : addr ∉ start.outputAccounts) :
    Grows start (ctx.deleteOutputAccount addr) := by
  have hlookup : ∀ addr', addr' ≠ addr →
      (ctx.deleteOutputAccount addr).outputAccounts.lookup addr' =
        ctx.outputAccounts.lookup addr' := fun addr' hne => by
    simp only [OutputContext.deleteOutputAccount, setOutputAccounts, outputAccounts,
      lookup_erase_ite, if_neg hne]
  have hold : ∀ addr' account, start.outputAccounts.lookup addr' = some account →
      addr' ≠ addr := fun addr' account hl heq =>
    hkeep (heq ▸ mem_of_lookup_eq_some hl)
  refine ⟨fun addr' account hl => ?_, fun addr' hmem => ?_,
    fun addr' hmem account account' hl => ?_⟩
  · rw [hlookup addr' (hold addr' account hl)]
    exact h.accounts addr' account hl
  · obtain ⟨hne, hmem⟩ := Finset.mem_erase.1 hmem
    rw [hlookup addr' hne]
    exact h.staged addr' hmem
  · rw [hlookup addr' (hold addr' account hl)]
    exact h.code addr' (Finset.mem_of_mem_erase hmem) account account' hl

theorem deployCode (h : Grows start ctx) {input : CodeDeployInput}
    (hkeep : (Write.deployCode input).Keeps start ctx) :
    Grows start (ctx.deployCode input) := by
  obtain ⟨hcode, hfields⟩ := hkeep
  have hlookup : ∀ addr, (ctx.deployCode input).outputAccounts.lookup addr =
      if addr = input.contractAddress then
        some { (ctx.outputAccounts.lookup input.contractAddress).getD {} with
          code := input.contractCode
          codeMetadata := input.contractCodeMetadata
          codeDeployerAddress := input.codeDeployerAddress }
      else ctx.outputAccounts.lookup addr := fun addr => by
    simp only [OutputContext.deployCode, updateOutputAccount_eq, setOutputAccounts, outputAccounts,
      lookup_insert_ite]
  refine ⟨fun addr account hl => ?_, fun addr hmem => ?_,
    fun addr hmem account account' hl => ?_⟩
  · obtain ⟨account', hl', hg⟩ := h.accounts addr account hl
    rw [hlookup]
    split
    · next heq =>
      subst heq
      obtain ⟨hm, hd⟩ := hfields account hl
      refine ⟨_, rfl, ?_⟩
      rw [hl', getD_some]
      exact ⟨hg.storageUpdates, hm, hd, hg.outputTransfers, hg.bytesAddedToStorage,
        hg.bytesDeletedFromStorage⟩
    · exact ⟨account', hl', hg⟩
  · rw [hlookup]
    split
    · exact .inr ⟨_, rfl, hcode⟩
    · next hne => exact h.staged addr ((Finset.mem_insert.1 hmem).resolve_left hne)
  · rw [hlookup]
    split
    · intro heq _
      rw [← some_inj.1 heq]
      exact hcode
    · next hne =>
      exact h.code addr ((Finset.mem_insert.1 hmem).resolve_left hne) account account' hl

theorem removeNonUpdatedCode (h : Grows start ctx)
    (hkeep : Write.removeNonUpdatedCode.Keeps start ctx) :
    Grows start ctx.removeNonUpdatedCode := by
  have hstaged : ∀ addr ∈ ctx.codeUpdates,
      ctx.removeNonUpdatedCode.outputAccounts.lookup addr =
        ctx.outputAccounts.lookup addr := fun addr hmem => by
    simp only [OutputContext.removeNonUpdatedCode, setOutputAccounts, outputAccounts,
      lookup_mapWithKey, if_pos hmem]
    exact map_id'
  refine ⟨fun addr account hl => ?_, fun addr hmem => ?_,
    fun addr hmem account account' hl => ?_⟩
  · obtain ⟨account', hl', hg⟩ := h.accounts addr account hl
    by_cases hmem : addr ∈ ctx.codeUpdates
    · rw [hstaged addr hmem]
      exact ⟨account', hl', hg⟩
    obtain ⟨hm, hd⟩ := hkeep addr account hl hmem
    refine ⟨{ account' with code := [], codeMetadata := [], codeDeployerAddress := none }, ?_,
      hg.storageUpdates, fun _ => hm, fun _ => hd, hg.outputTransfers, hg.bytesAddedToStorage,
      hg.bytesDeletedFromStorage⟩
    rw [outputAccounts] at hl'
    simp only [OutputContext.removeNonUpdatedCode, setOutputAccounts, outputAccounts,
      lookup_mapWithKey, hl', map_some, if_neg hmem]
  · rw [hstaged addr hmem]
    exact h.staged addr hmem
  · rw [hstaged addr hmem]
    exact h.code addr hmem account account' hl

/-- A write that keeps to what a merged frame may do leaves a grown state grown. -/
theorem write (h : Grows start ctx) {w : Write} (hkeep : w.Keeps start ctx) :
    Grows start (w.apply ctx) := by
  cases w with
  | getOutputAccount addr => exact h.trans (getOutputAccount addr)
  | setStorageUpdate addr key storageUpdate =>
    exact h.trans (setStorageUpdate addr key storageUpdate)
  | addDeltaBytes addr deltaBytes => exact h.trans (addDeltaBytes addr deltaBytes)
  | appendOutputTransfers addr transfers => exact h.trans (appendOutputTransfers addr transfers)
  | recordValueTransfer destination sender value =>
    exact h.trans (recordValueTransfer destination sender value)
  | cacheCode addr code => exact h.trans (cacheCode addr code)
  | deployCode input => exact h.deployCode hkeep
  | deleteOutputAccount addr => exact h.deleteOutputAccount hkeep
  | removeNonUpdatedCode => exact h.removeNonUpdatedCode hkeep
  | setGasUsed gasUsed =>
    refine h.trans (of_accounts (fun addr account hl => ?_) rfl)
    refine ⟨{ account with gasUsed := gasUsed addr }, ?_,
      { Grown.refl account with }, id⟩
    rw [outputAccounts] at hl
    simp only [Write.apply, OutputContext.setGasUsed, setOutputAccounts, outputAccounts,
      lookup_mapWithKey, hl, map_some]
  | addToActiveState rightOutput => exact h.trans (addToActiveState rightOutput)
  | _ => exact ⟨h.accounts, h.staged, h.code⟩

end Grows

/-! ## Frames compose -/

theorem Write.apply_crtTransferIndex (w : Write) {a b : OutputContext}
    (h : b.crtTransferIndex = a.crtTransferIndex) :
    (w.apply b).crtTransferIndex = (w.apply a).crtTransferIndex := by
  cases w <;>
    simp only [Write.apply, OutputContext.setStorageUpdate, OutputContext.addDeltaBytes,
      OutputContext.appendOutputTransfers, OutputContext.recordValueTransfer,
      OutputContext.cacheCode, OutputContext.deployCode, getOutputAccount_eq,
      updateOutputAccount_eq, setOutputAccounts, h] <;>
    exact h

theorem close_crtTransferIndex (frameEnd : FrameEnd) (ctx : OutputContext) :
    (frameEnd.close ctx).crtTransferIndex = ctx.crtTransferIndex := by
  cases frameEnd with
  | set => simp only [FrameEnd.close, popSetActiveState]; split <;> rfl
  | merge => simp only [FrameEnd.close, popMergeActiveState]; split <;> rfl

/-- How far the index of the transfers runs does not depend on anything else. -/
theorem exec_crtTransferIndex (script : Script) : ∀ {a b : OutputContext},
    b.crtTransferIndex = a.crtTransferIndex →
    (script.exec b).crtTransferIndex = (script.exec a).crtTransferIndex := by
  induction script with
  | done => exact id
  | write w rest ih => exact fun h => ih (w.apply_crtTransferIndex h)
  | frame frameEnd body rest ihb ihr =>
    intro a b h
    refine ihr ?_
    rw [close_crtTransferIndex, close_crtTransferIndex]
    exact ihb h

/-- A script that runs from two states seen alike, each of which has grown out of the state its
frame was opened at, ends in two such states.  By induction on the script: a frame that is rolled
back changes the index only, and one that is merged has grown out of the states here. -/
theorem exec_agrees (script : Script) : ∀ {start start' ctx ctx' : OutputContext},
    Agrees start start' → Agrees ctx ctx' → Grows start ctx →
    Grows start' ctx' → script.Keeps start ctx →
    Agrees (script.exec ctx) (script.exec ctx') ∧ Grows start (script.exec ctx) ∧
      Grows start' (script.exec ctx') := by
  induction script with
  | done => exact fun _ hagrees hgrows hgrows' _ => ⟨hagrees, hgrows, hgrows'⟩
  | write w rest ih =>
    intro start start' ctx ctx' hstart hagrees hgrows hgrows' hkeep
    exact ih hstart (hagrees.write w) (hgrows.write hkeep.1)
      (hgrows'.write (hkeep.1.congr hstart hagrees)) hkeep.2
  | frame frameEnd body rest ihb ihr =>
    intro start start' ctx ctx' hstart hagrees hgrows hgrows' hkeep
    cases frameEnd with
    | set =>
      have hindex := exec_crtTransferIndex body (a := ctx.openFrame)
        (b := ctx'.openFrame) hagrees.crtTransferIndex
      refine ihr hstart ?_ ?_ ?_ hkeep.2
      · simp only [FrameEnd.close, exec_restores]
        exact ⟨hagrees.accounts, hagrees.codeUpdates, hindex⟩
      · simp only [FrameEnd.close, exec_restores]
        exact ⟨hgrows.accounts, hgrows.staged, hgrows.code⟩
      · simp only [FrameEnd.close, exec_restores]
        exact ⟨hgrows'.accounts, hgrows'.staged, hgrows'.code⟩
    | merge =>
      have hopen := (Agrees.openFrame ctx).symm.trans
        (hagrees.trans (Agrees.openFrame ctx'))
      obtain ⟨hbody, hbodyGrows, hbodyGrows'⟩ := ihb hagrees hopen
        ((Grows.refl ctx).congr (Agrees.openFrame ctx))
        ((Grows.refl ctx').congr (Agrees.openFrame ctx')) (hkeep.1 rfl)
      have hmerged := hbodyGrows.popMerge (exec_sameStacks body _).of_openFrame.1
      have hmerged' := hbodyGrows'.popMerge (exec_sameStacks body _).of_openFrame.1
      exact ihr hstart (hmerged.symm.trans (hbody.trans hmerged'))
        ((hgrows.trans hbodyGrows).congr hmerged) ((hgrows'.trans hbodyGrows').congr hmerged')
        hkeep.2

theorem Agrees.removeNonUpdatedCode_eq {a b : OutputContext} (h : Agrees a b) :
    a.removeNonUpdatedCode.outputAccounts = b.removeNonUpdatedCode.outputAccounts := by
  refine ext_lookup fun addr => ?_
  simp only [OutputContext.removeNonUpdatedCode, setOutputAccounts, outputAccounts,
    lookup_mapWithKey, h.codeUpdates]
  rcases h.cases addr with ⟨ha, hb⟩ | ⟨account, account', ha, hb, hseen⟩
  · rw [outputAccounts] at ha hb
    rw [ha, hb]
  rw [outputAccounts] at ha hb
  rw [ha, hb, map_some, map_some]
  by_cases hs : addr ∈ a.codeUpdates
  · rw [seen_of_staged hs, seen_of_staged hs] at hseen
    rw [hseen]
  · rw [seen_of_not_staged hs, seen_of_not_staged hs] at hseen
    simp only [OutputAccount.mk.injEq, true_and] at hseen
    obtain ⟨h1, -, -, h4, h5, h6, h7⟩ := hseen
    simp only [if_neg hs, h1, h4, h5, h6, h7]

/-- Frames compose.  Whatever runs in a frame, rolling it back restores the starting state.  When
no write of a merged frame takes away what the state saved for it has, merging gives the accounts,
with the code that is staged, and the pending code updates that the same writes done directly give,
and the return data, the logs and the deleted accounts of the frame come after those of the
starting state. -/
theorem frames_compose (script : Script) (ctx : OutputContext) :
    (script.exec ctx.openFrame).popSetActiveState =
      { ctx with
        crtTransferIndex := (script.exec ctx.openFrame).crtTransferIndex } ∧
    (script.Keeps ctx ctx.openFrame →
      let framed := script.exec ctx.openFrame
      let merged := framed.popMergeActiveState
      let direct := script.exec ctx
      merged.removeNonUpdatedCode.outputAccounts = direct.removeNonUpdatedCode.outputAccounts ∧
      merged.codeUpdates = direct.codeUpdates ∧
      merged.crtTransferIndex = direct.crtTransferIndex ∧
      merged.stateStack = ctx.stateStack ∧
      merged.codeUpdatesStack = ctx.codeUpdatesStack ∧
      merged.outputState.returnData =
        ctx.outputState.returnData ++ framed.outputState.returnData ∧
      merged.outputState.logs = ctx.outputState.logs ++ framed.outputState.logs ∧
      merged.outputState.deletedAccounts =
        ctx.outputState.deletedAccounts ++ framed.outputState.deletedAccounts) := by
  refine ⟨exec_restores script ctx, fun hkeep => ?_⟩
  have hopen := Agrees.openFrame ctx
  obtain ⟨hagrees, hgrows, -⟩ := exec_agrees script (Agrees.refl ctx) hopen.symm
    ((Grows.refl ctx).congr hopen) (Grows.refl ctx) hkeep
  obtain ⟨hstack, hupdates⟩ := (exec_sameStacks script ctx.openFrame).of_openFrame
  have hmerged := (hgrows.popMerge hstack).symm.trans hagrees
  refine ⟨hmerged.removeNonUpdatedCode_eq, hmerged.codeUpdates.symm, hmerged.crtTransferIndex.symm,
    ?_⟩
  simp only [popMergeActiveState, hstack, hupdates, mergeVMOutputs_new, List.tail_cons, true_and]
  exact ⟨rfl, rfl, rfl⟩

/-- A contract with a staged code that may be upgraded again. -/
def staged : OutputContext := ({} : OutputContext).deployCode ⟨[7], [1, 0], [1], some [2]⟩

/-- A second upgrade of it in a frame, with other code and without metadata. -/
def secondUpgrade : Script := .write (.deployCode ⟨[8], [], [1], some [2]⟩) .done

/-- The deployment of the contract fails and its account is deleted in a frame. -/
def failedDeployment : Script := .write (.deleteOutputAccount [1]) .done

/-- A frame that stages a code with empty metadata leaves the metadata that was staged before it,
and an account that is deleted in a frame is there again when the frame is merged. -/
theorem merge_undoes_writes :
    (((secondUpgrade.exec staged.openFrame).popMergeActiveState.removeNonUpdatedCode.outputAccounts
        ).lookup [1]).map (fun account => (account.code, account.codeMetadata)) =
      some ([8], [1, 0]) ∧
    ((secondUpgrade.exec staged).removeNonUpdatedCode.outputAccounts.lookup [1]).map
        (fun account => (account.code, account.codeMetadata)) = some ([8], []) ∧
    [1] ∈ (failedDeployment.exec staged.openFrame).popMergeActiveState.outputAccounts ∧
    [1] ∉ (failedDeployment.exec staged).outputAccounts := by
  decide

/-- Writes, a merged frame with a transfer and an upgrade, and one that is rolled back. -/
def callScript : Script :=
  .write (.setStorageUpdate [1] [5] ⟨[5], [6], true⟩) <|
  .frame .merge
    (.write (.recordValueTransfer [1] [3] 40) <|
      .write (.deployCode ⟨[8], [1, 0], [1], some [2]⟩) <|
      .write (.finish [9]) .done) <|
  .frame .set (.write (.deleteOutputAccount [1]) .done) <|
  .write .removeNonUpdatedCode .done

theorem frames_compose_sample :
    callScript.Keeps staged staged.openFrame ∧
    (callScript.exec staged.openFrame).popMergeActiveState.removeNonUpdatedCode.outputAccounts =
      (callScript.exec staged).removeNonUpdatedCode.outputAccounts ∧
    (callScript.exec staged.openFrame).popMergeActiveState.outputState.returnData = [[9]] := by
  have hkeep : callScript.Keeps staged staged.openFrame := by
    refine ⟨trivial, ⟨fun _ => ⟨trivial, ⟨by decide, ?_⟩, trivial, trivial⟩, ⟨nofun, ?_, trivial⟩⟩⟩
    · intro account _
      exact ⟨nofun, nofun⟩
    intro addr account hlookup hmem
    have hone : addr = [1] := by
      by_contra hne
      simp [staged, OutputContext.deployCode, updateOutputAccount_eq, setOutputAccounts,
        lookup_insert_of_ne _ hne] at hlookup
      change lookup addr (∅ : OutputAccounts) = some account at hlookup
      simp at hlookup
    subst hone
    exact absurd (by decide) hmem
  obtain ⟨haccounts, -, -, -, -, hdata, -⟩ := (frames_compose callScript staged).2 hkeep
  exact ⟨hkeep, haccounts, hdata.trans (by decide)⟩

end KleverGo.Kvm
