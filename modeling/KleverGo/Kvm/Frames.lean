import KleverGo.Kvm.Output

/-!
# Frames of the output context

What is done to the output context between opening a call frame and closing it is a `Script`:
writes, and frames that are themselves rolled back (`popSetActiveState`) or merged
(`popMergeActiveState`).

Principal results:

* `pushState_eq` — the state that is saved is the active one;
* `exec_restores` — rolling a frame back gives the starting state, whatever ran in it;
* `Agrees.write` — what a write is seen to do depends on what is seen of the accounts, which leaves
  out the code that is only cached.
-/

namespace KleverGo.Kvm

open Option

/-! ## Scripts -/

/-- The writes of the output context that are done inside a frame. -/
inductive Write where
  | getOutputAccount (addr : Address)
  | setStorageUpdate (addr : Address) (key : Bytes) (update : StorageUpdate)
  | addDeltaBytes (addr : Address) (deltaBytes : Int)
  | appendOutputTransfers (addr : Address) (transfers : List OutputTransfer)
  | recordValueTransfer (destination sender : Address) (value : Int)
  | cacheCode (addr : Address) (code : Bytes)
  | deployCode (input : CodeDeployInput)
  | deleteOutputAccount (addr : Address)
  | removeNonUpdatedCode
  | setGasUsed (gasUsed : Address → UInt64)
  | addToActiveState (rightOutput : VMOutput)
  | setCrtTransferIndex (index : UInt32)
  | finish (data : Bytes)
  | clearReturnData
  | removeReturnData (index : UInt32)
  | appendLogs (logs : List LogEntry)
  | appendDeletedAccount (addr : Address)
  | setReturnCode (returnCode : ReturnCode)
  | setReturnMessage (returnMessage : String)
  | setGasRemaining (gasRemaining : UInt64)

def Write.apply : Write → OutputContext → OutputContext
  | getOutputAccount addr, ctx => (ctx.getOutputAccount addr).2
  | setStorageUpdate addr key update, ctx => ctx.setStorageUpdate addr key update
  | addDeltaBytes addr deltaBytes, ctx => ctx.addDeltaBytes addr deltaBytes
  | appendOutputTransfers addr transfers, ctx =>
    ctx.appendOutputTransfers addr transfers
  | recordValueTransfer destination sender value, ctx =>
    ctx.recordValueTransfer destination sender value
  | cacheCode addr code, ctx => ctx.cacheCode addr code
  | deployCode input, ctx => ctx.deployCode input
  | deleteOutputAccount addr, ctx => ctx.deleteOutputAccount addr
  | removeNonUpdatedCode, ctx => ctx.removeNonUpdatedCode
  | setGasUsed gasUsed, ctx => ctx.setGasUsed gasUsed
  | addToActiveState rightOutput, ctx => ctx.addToActiveState rightOutput
  | setCrtTransferIndex index, ctx => { ctx with crtTransferIndex := index }
  | finish data, ctx => ctx.finish data
  | clearReturnData, ctx => ctx.clearReturnData
  | removeReturnData index, ctx => ctx.removeReturnData index
  | appendLogs logs, ctx => ctx.appendLogs logs
  | appendDeletedAccount addr, ctx => ctx.appendDeletedAccount addr
  | setReturnCode returnCode, ctx => ctx.setReturnCode returnCode
  | setReturnMessage returnMessage, ctx => ctx.setReturnMessage returnMessage
  | setGasRemaining gasRemaining, ctx => ctx.setGasRemaining gasRemaining

inductive FrameEnd where
  | set
  | merge
deriving DecidableEq

/-- Close the frame that was opened last. -/
def FrameEnd.close : FrameEnd → OutputContext → OutputContext
  | set, ctx => ctx.popSetActiveState
  | merge, ctx => ctx.popMergeActiveState

/-- What runs inside a frame: writes and well-nested frames, one after the other. -/
inductive Script where
  | done
  | write (w : Write) (rest : Script)
  | frame (frameEnd : FrameEnd) (body rest : Script)

/-- Open a frame as `executeOnDestContextNoBuiltinFunction` does. -/
def OutputContext.openFrame (ctx : OutputContext) : OutputContext :=
  ctx.pushState.censorVMOutput

def Script.exec : Script → OutputContext → OutputContext
  | done, ctx => ctx
  | write w rest, ctx => rest.exec (w.apply ctx)
  | frame frameEnd body rest, ctx => rest.exec (frameEnd.close (body.exec ctx.openFrame))

/-! ## What the saved state is -/

theorem mergeOutputAccounts_new (account : OutputAccount) :
    mergeOutputAccounts {} account false = account := by
  obtain ⟨storageUpdates, code, codeMetadata, codeDeployerAddress, outputTransfers, gasUsed, added,
    deleted⟩ := account
  unfold mergeOutputAccounts
  congr 1
  · exact Finmap.union_empty
  · by_cases h : code = [] <;> simp [h]
  · by_cases h : codeMetadata = [] <;> simp [h]
  · exact or_none
  · cases outputTransfers <;> simp [mergeTransfers]
  · rcases Nat.eq_zero_or_pos added with h | h <;> simp [h]
  · rcases Nat.eq_zero_or_pos deleted with h | h <;> simp [h]

theorem mergeVMOutputs_new (output : VMOutput) : mergeVMOutputs {} output = output := by
  obtain ⟨returnData, returnCode, returnMessage, gasRemaining, outputAccounts, deletedAccounts,
    logs⟩ := output
  unfold mergeVMOutputs mergeVMOutputsConditionally
  congr 1
  refine Finmap.ext_lookup fun addr => ?_
  rw [Finmap.lookup_mergeWith]
  cases h : outputAccounts.lookup addr with
  | none => rfl
  | some account =>
    dsimp only
    rw [Finmap.lookup_empty, getD_none, mergeOutputAccounts_new]

namespace OutputContext

variable (ctx : OutputContext)

theorem pushState_eq :
    ctx.pushState = { ctx with
      stateStack := ctx.outputState :: ctx.stateStack
      codeUpdatesStack := ctx.codeUpdates :: ctx.codeUpdatesStack } := by
  unfold pushState
  rw [mergeVMOutputs_new]

/-- The stacks of two contexts are the same. -/
structure SameStacks (ctx ctx' : OutputContext) : Prop where
  stateStack : ctx'.stateStack = ctx.stateStack
  codeUpdatesStack : ctx'.codeUpdatesStack = ctx.codeUpdatesStack

theorem SameStacks.refl : SameStacks ctx ctx := ⟨rfl, rfl⟩

theorem SameStacks.trans {a b c : OutputContext} (h : SameStacks a b) (h' : SameStacks b c) :
    SameStacks a c :=
  ⟨h'.stateStack.trans h.stateStack, h'.codeUpdatesStack.trans h.codeUpdatesStack⟩

/-- A write through the pointer of an account is a write under its address. -/
theorem updateOutputAccount_eq (addr : Address) (f : OutputAccount → OutputAccount) :
    ctx.updateOutputAccount addr f = ctx.setOutputAccounts
      (ctx.outputAccounts.insert addr
        (f ((ctx.outputAccounts.lookup addr).getD {}))) := by
  unfold updateOutputAccount getOutputAccount
  cases h : ctx.outputAccounts.lookup addr with
  | some account => rfl
  | none =>
    simp only [setOutputAccounts, outputAccounts, Finmap.insert_insert, getD_none]

theorem getOutputAccount_eq (addr : Address) :
    (ctx.getOutputAccount addr).2 = ctx.updateOutputAccount addr id := by
  rw [updateOutputAccount_eq]
  unfold getOutputAccount
  cases h : ctx.outputAccounts.lookup addr with
  | none => rfl
  | some account =>
    have hsame : ctx.outputAccounts.insert addr account = ctx.outputAccounts := by
      refine Finmap.ext_lookup fun addr' => ?_
      rw [Finmap.lookup_insert_ite]
      split
      · next heq => rw [heq, h]
      · rfl
    simp only [getD_some, id_eq, setOutputAccounts, hsame]

end OutputContext

open OutputContext

theorem Write.apply_sameStacks (w : Write) (ctx : OutputContext) :
    SameStacks ctx (w.apply ctx) := by
  cases w <;>
    simp only [Write.apply, OutputContext.setStorageUpdate, OutputContext.addDeltaBytes,
      OutputContext.appendOutputTransfers, OutputContext.recordValueTransfer,
      OutputContext.cacheCode, OutputContext.deployCode, getOutputAccount_eq,
      updateOutputAccount_eq] <;>
    exact ⟨rfl, rfl⟩

/-- The stacks in a frame that was opened at `ctx`: its own entry over those of `ctx`. -/
theorem OutputContext.SameStacks.of_openFrame {ctx framed : OutputContext}
    (h : SameStacks ctx.openFrame framed) :
    framed.stateStack = ctx.outputState :: ctx.stateStack ∧
      framed.codeUpdatesStack = ctx.codeUpdates :: ctx.codeUpdatesStack := by
  rw [h.stateStack, h.codeUpdatesStack, openFrame, pushState_eq]
  exact ⟨rfl, rfl⟩

theorem close_sameStacks {ctx framed : OutputContext} (frameEnd : FrameEnd)
    (h : SameStacks ctx.openFrame framed) : SameStacks ctx (frameEnd.close framed) := by
  obtain ⟨hs, hc⟩ := h.of_openFrame
  cases frameEnd with
  | set => constructor <;> simp [FrameEnd.close, popSetActiveState, hs, hc]
  | merge => constructor <;> simp [FrameEnd.close, popMergeActiveState, hs, hc]

theorem exec_sameStacks (script : Script) :
    ∀ ctx : OutputContext, SameStacks ctx (script.exec ctx) := by
  induction script with
  | done => exact SameStacks.refl
  | write w rest ih => exact fun ctx => (w.apply_sameStacks ctx).trans (ih _)
  | frame frameEnd body rest ihb ihr =>
    exact fun ctx => (close_sameStacks frameEnd (ihb ctx.openFrame)).trans (ihr _)

/-- A frame that is rolled back leaves the starting state, except for the running index. -/
theorem exec_restores (script : Script) (ctx : OutputContext) :
    (script.exec ctx.openFrame).popSetActiveState =
      { ctx with
        crtTransferIndex := (script.exec ctx.openFrame).crtTransferIndex } := by
  obtain ⟨hs, hc⟩ := (exec_sameStacks script ctx.openFrame).of_openFrame
  unfold popSetActiveState
  rw [hs, hc]
  rfl

/-! ## What is seen of an account

The code of an account without a pending code update is only cached: `GetVMOutput` drops it, and
merging a frame may bring it back.  What is seen of such an account leaves its code out. -/

/-- The account, without its code unless that is staged. -/
def OutputAccount.seen (account : OutputAccount) (staged : Prop) [Decidable staged] :
    OutputAccount :=
  if staged then account else { account with code := [] }

/-- The same accounts are seen, and the same code updates are pending. -/
structure Agrees (ctx ctx' : OutputContext) : Prop where
  accounts : ∀ addr,
    (ctx.outputAccounts.lookup addr).map (·.seen (addr ∈ ctx.codeUpdates)) =
      (ctx'.outputAccounts.lookup addr).map (·.seen (addr ∈ ctx.codeUpdates))
  codeUpdates : ctx'.codeUpdates = ctx.codeUpdates
  crtTransferIndex : ctx'.crtTransferIndex = ctx.crtTransferIndex

namespace Agrees

variable {a b c : OutputContext}

theorem refl (a : OutputContext) : Agrees a a := ⟨fun _ => rfl, rfl, rfl⟩

section
variable (h : Agrees a b)
include h

theorem symm : Agrees b a :=
  ⟨fun addr => by rw [h.codeUpdates]; exact (h.accounts addr).symm, h.codeUpdates.symm,
    h.crtTransferIndex.symm⟩

theorem trans (h' : Agrees b c) : Agrees a c := by
  refine ⟨fun addr => ?_, h'.codeUpdates.trans h.codeUpdates,
    h'.crtTransferIndex.trans h.crtTransferIndex⟩
  have hb := h'.accounts addr
  rw [h.codeUpdates] at hb
  exact (h.accounts addr).trans hb

/-- The two accounts under one address: both are missing, or they are seen alike. -/
theorem cases (addr : Address) :
    (a.outputAccounts.lookup addr = none ∧ b.outputAccounts.lookup addr = none) ∨
    ∃ account account', a.outputAccounts.lookup addr = some account ∧
      b.outputAccounts.lookup addr = some account' ∧
      account.seen (addr ∈ a.codeUpdates) = account'.seen (addr ∈ a.codeUpdates) := by
  have hmap := h.accounts addr
  cases ha : a.outputAccounts.lookup addr with
  | none =>
    cases hb : b.outputAccounts.lookup addr with
    | none => exact .inl ⟨rfl, rfl⟩
    | some account' => simp [ha, hb] at hmap
  | some account =>
    cases hb : b.outputAccounts.lookup addr with
    | none => simp [ha, hb] at hmap
    | some account' =>
      rw [ha, hb] at hmap
      exact .inr ⟨account, account', rfl, rfl, some_inj.1 hmap⟩

/-- A rewriting of all accounts that does not look at unstaged code. -/
theorem mapWithKey {f : Address → OutputAccount → OutputAccount} (hf : ∀ addr account account',
      account.seen (addr ∈ a.codeUpdates) = account'.seen (addr ∈ a.codeUpdates) →
      (f addr account).seen (addr ∈ a.codeUpdates) =
        (f addr account').seen (addr ∈ a.codeUpdates)) :
    Agrees (a.setOutputAccounts (a.outputAccounts.mapWithKey f))
      (b.setOutputAccounts (b.outputAccounts.mapWithKey f)) := by
  refine ⟨fun addr => ?_, h.codeUpdates, h.crtTransferIndex⟩
  simp only [setOutputAccounts, outputAccounts, Finmap.lookup_mapWithKey, map_map]
  rcases h.cases addr with ⟨ha, hb⟩ | ⟨account, account', ha, hb, hseen⟩
  · simp only [ha, hb, map_none]
  · simp only [ha, hb, map_some, Function.comp_apply]
    exact congrArg some (hf addr account account' hseen)

theorem updateOutputAccount {addr : Address} {f : OutputAccount → OutputAccount}
    (hf : ∀ account account',
      account.seen (addr ∈ a.codeUpdates) = account'.seen (addr ∈ a.codeUpdates) →
      (f account).seen (addr ∈ a.codeUpdates) = (f account').seen (addr ∈ a.codeUpdates)) :
    Agrees (a.updateOutputAccount addr f) (b.updateOutputAccount addr f) := by
  rw [updateOutputAccount_eq, updateOutputAccount_eq]
  refine ⟨fun addr' => ?_, h.codeUpdates, h.crtTransferIndex⟩
  simp only [setOutputAccounts, outputAccounts, Finmap.lookup_insert_ite]
  split
  · next heq =>
    subst heq
    rcases h.cases addr' with ⟨ha, hb⟩ | ⟨account, account', ha, hb, hseen⟩
    · simp only [ha, hb]
    · simp only [ha, hb, getD_some, map_some]
      exact congrArg some (hf account account' hseen)
  · exact h.accounts addr'

end

end Agrees

namespace OutputAccount

variable {account account' : OutputAccount} {staged : Prop} [Decidable staged]

theorem seen_of_staged (h : staged) : account.seen staged = account := if_pos h

theorem seen_of_not_staged (h : ¬staged) : account.seen staged = { account with code := [] } :=
  if_neg h

/-- A rewriting that leaves the code alone respects what is seen. -/
theorem seen_congr (f : OutputAccount → OutputAccount)
    (hf : ∀ account : OutputAccount, f { account with code := [] } = { f account with code := [] })
    (h : account.seen staged = account'.seen staged) :
    (f account).seen staged = (f account').seen staged := by
  by_cases hs : staged
  · rw [seen_of_staged hs, seen_of_staged hs] at h
    rw [h]
  · rw [seen_of_not_staged hs, seen_of_not_staged hs] at h
    rw [seen_of_not_staged hs, seen_of_not_staged hs, ← hf, ← hf, h]

theorem seen_cacheCode (code : Bytes) (h : account.seen staged = account'.seen staged) :
    ({ account with code := if account.code ≠ [] then account.code else code } :
        OutputAccount).seen staged =
      ({ account' with code := if account'.code ≠ [] then account'.code else code } :
        OutputAccount).seen staged := by
  by_cases hs : staged
  · rw [seen_of_staged hs, seen_of_staged hs] at h
    rw [h]
  · rw [seen_of_not_staged hs, seen_of_not_staged hs] at h
    rw [seen_of_not_staged hs, seen_of_not_staged hs]
    exact h

theorem seen_merge (rightAccount : OutputAccount) (mergeAllTransfers : Bool)
    (h : account.seen staged = account'.seen staged) :
    (mergeOutputAccounts account rightAccount mergeAllTransfers).seen staged =
      (mergeOutputAccounts account' rightAccount mergeAllTransfers).seen staged := by
  by_cases hs : staged
  · rw [seen_of_staged hs, seen_of_staged hs] at h
    rw [h]
  rw [seen_of_not_staged hs, seen_of_not_staged hs] at h
  rw [seen_of_not_staged hs, seen_of_not_staged hs]
  simp only [OutputAccount.mk.injEq, true_and] at h
  obtain ⟨h1, h2, h3, h4, h5, h6, h7⟩ := h
  simp only [mergeOutputAccounts, h1, h2, h3, h4, h6, h7]

end OutputAccount

namespace Agrees

variable {a b : OutputContext}

section
variable (h : Agrees a b)
include h

theorem update {addr : Address} {f : OutputAccount → OutputAccount}
    (hf : ∀ account : OutputAccount,
      f { account with code := [] } = { f account with code := [] }) :
    Agrees (a.updateOutputAccount addr f) (b.updateOutputAccount addr f) :=
  h.updateOutputAccount fun _ _ => OutputAccount.seen_congr f hf

theorem getOutputAccount (addr : Address) :
    Agrees (a.getOutputAccount addr).2 (b.getOutputAccount addr).2 := by
  rw [getOutputAccount_eq, getOutputAccount_eq]
  exact h.update fun _ => rfl

theorem appendOutputTransfers (addr : Address) (transfers : List OutputTransfer) :
    Agrees (a.appendOutputTransfers addr transfers)
      (b.appendOutputTransfers addr transfers) :=
  h.update fun _ => rfl

theorem recordValueTransfer (destination sender : Address) (value : Int) :
    Agrees (a.recordValueTransfer destination sender value)
      (b.recordValueTransfer destination sender value) := by
  have hsender := h.getOutputAccount sender
  unfold OutputContext.recordValueTransfer
  simp only [hsender.crtTransferIndex]
  have hdest := hsender.appendOutputTransfers destination
    [⟨(a.getOutputAccount sender).2.crtTransferIndex, sender, destination,
      { kdaValue := value, kdaTokenName := KLVIdentifier }⟩]
  exact ⟨hdest.accounts, hdest.codeUpdates, rfl⟩

/-- Deploying writes every code field, so that what was cached does not matter. -/
theorem deployCode (input : CodeDeployInput) :
    Agrees (a.deployCode input) (b.deployCode input) := by
  unfold OutputContext.deployCode
  simp only [updateOutputAccount_eq]
  refine ⟨fun addr => ?_, congrArg (insert input.contractAddress) h.codeUpdates,
    h.crtTransferIndex⟩
  simp only [setOutputAccounts, outputAccounts, Finmap.lookup_insert_ite]
  by_cases heq : addr = input.contractAddress
  · subst heq
    simp only [if_true, map_some]
    rcases h.cases input.contractAddress with ⟨ha, hb⟩ | ⟨account, account', ha, hb, hseen⟩
    · simp only [ha, hb]
    have hclear : ({ account with code := [] } : OutputAccount) = { account' with code := [] } := by
      by_cases hs : input.contractAddress ∈ a.codeUpdates
      · rw [OutputAccount.seen_of_staged hs, OutputAccount.seen_of_staged hs] at hseen
        rw [hseen]
      · rwa [OutputAccount.seen_of_not_staged hs, OutputAccount.seen_of_not_staged hs] at hseen
    simp only [OutputAccount.mk.injEq, true_and] at hclear
    obtain ⟨h1, -, -, h4, h5, h6, h7⟩ := hclear
    simp only [ha, hb, getD_some, h1, h4, h5, h6, h7]
  · rcases h.cases addr with ⟨ha, hb⟩ | ⟨account, account', ha, hb, hseen⟩
    · simp only [if_neg heq, ha, hb]
    have hmem : addr ∈ insert input.contractAddress a.codeUpdates ↔
        addr ∈ a.codeUpdates := by
      simp [Finset.mem_insert, heq]
    simp only [if_neg heq, ha, hb, map_some, hmem]
    exact congrArg some hseen

theorem deleteOutputAccount (addr : Address) :
    Agrees (a.deleteOutputAccount addr) (b.deleteOutputAccount addr) := by
  unfold OutputContext.deleteOutputAccount
  refine ⟨fun addr' => ?_, congrArg (Finset.erase · addr) h.codeUpdates,
    h.crtTransferIndex⟩
  simp only [setOutputAccounts, outputAccounts, Finmap.lookup_erase_ite]
  by_cases heq : addr' = addr
  · simp only [if_pos heq]
  rcases h.cases addr' with ⟨ha, hb⟩ | ⟨account, account', ha, hb, hseen⟩
  · simp only [if_neg heq, ha, hb]
  · have hmem : addr' ∈ a.codeUpdates.erase addr ↔ addr' ∈ a.codeUpdates := by
      simp [Finset.mem_erase, heq]
    simp only [if_neg heq, ha, hb, map_some, hmem]
    exact congrArg some hseen

theorem removeNonUpdatedCode : Agrees a.removeNonUpdatedCode b.removeNonUpdatedCode := by
  unfold OutputContext.removeNonUpdatedCode
  rw [h.codeUpdates]
  refine h.mapWithKey fun addr account account' hseen => ?_
  by_cases hs : addr ∈ a.codeUpdates
  · simp only [if_pos hs]
    exact hseen
  · rw [OutputAccount.seen_of_not_staged hs, OutputAccount.seen_of_not_staged hs] at hseen
    simp only [OutputAccount.mk.injEq, true_and] at hseen
    obtain ⟨h1, -, -, h4, h5, h6, h7⟩ := hseen
    simp only [if_neg hs, h1, h4, h5, h6, h7]

theorem addToActiveState (rightOutput : VMOutput) :
    Agrees (a.addToActiveState rightOutput) (b.addToActiveState rightOutput) := by
  unfold OutputContext.addToActiveState mergeVMOutputsConditionally
  refine ⟨fun addr => ?_, h.codeUpdates, h.crtTransferIndex⟩
  simp only [outputAccounts, Finmap.lookup_mergeWith]
  cases hr : rightOutput.outputAccounts.lookup addr with
  | none => exact h.accounts addr
  | some rightAccount =>
    rcases h.cases addr with ⟨ha, hb⟩ | ⟨account, account', ha, hb, hseen⟩
    · simp only [ha, hb]
    · simp only [ha, hb, getD_some, map_some]
      exact congrArg some (OutputAccount.seen_merge rightAccount true hseen)

theorem write (w : Write) : Agrees (w.apply a) (w.apply b) := by
  cases w with
  | getOutputAccount addr => exact h.getOutputAccount addr
  | setStorageUpdate addr key update =>
    simp only [Write.apply, OutputContext.setStorageUpdate]
    exact h.update fun _ => rfl
  | addDeltaBytes addr deltaBytes =>
    simp only [Write.apply, OutputContext.addDeltaBytes]
    refine h.update fun account => ?_
    split <;> rfl
  | appendOutputTransfers addr transfers =>
    exact h.appendOutputTransfers addr transfers
  | recordValueTransfer destination sender value =>
    exact h.recordValueTransfer destination sender value
  | cacheCode addr code =>
    exact h.updateOutputAccount fun _ _ => OutputAccount.seen_cacheCode code
  | deployCode input => exact h.deployCode input
  | deleteOutputAccount addr => exact h.deleteOutputAccount addr
  | removeNonUpdatedCode => exact h.removeNonUpdatedCode
  | setGasUsed gasUsed =>
    exact h.mapWithKey fun addr _ _ =>
      OutputAccount.seen_congr (fun account => { account with gasUsed := gasUsed addr })
        fun _ => rfl
  | addToActiveState rightOutput => exact h.addToActiveState rightOutput
  | setCrtTransferIndex index => exact ⟨h.accounts, h.codeUpdates, rfl⟩
  | _ => exact ⟨h.accounts, h.codeUpdates, h.crtTransferIndex⟩

end

theorem openFrame (a : OutputContext) : Agrees a a.openFrame := ⟨fun _ => rfl, rfl, rfl⟩

end Agrees

/-! ## The accounts of an output -/

namespace OutputContext

/-- The account under an address; a missing one is new. -/
def account (ctx : OutputContext) (addr : Address) : OutputAccount :=
  (ctx.outputAccounts.lookup addr).getD {}

theorem account_merge (ctx inner : OutputContext) (stack : List VMOutput)
    (codeUpdates : List (Finset Address)) (addr : Address) :
    ({ inner with
        outputState := mergeVMOutputs ctx.outputState inner.outputState
        stateStack := stack, codeUpdatesStack := codeUpdates } : OutputContext).account addr =
      match inner.outputAccounts.lookup addr with
      | some account => mergeOutputAccounts (ctx.account addr) account false
      | none => ctx.account addr := by
  unfold account mergeVMOutputs mergeVMOutputsConditionally
  rw [Finmap.lookup_mergeWith]
  cases inner.outputState.outputAccounts.lookup addr <;> rfl

end OutputContext

end KleverGo.Kvm
