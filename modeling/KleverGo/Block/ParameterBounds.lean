import KleverGo.Block.LiveParameters

/-!
# Network parameters stay within their bounds

Blocks are accepted, rejected at any check, created and given up, and rolled back, in any order.

* `Bounded.attempt` — what one attempt keeps;
* `runAttempts_bounded` — **no vote gives a parameter a value outside its bounds**.
-/

namespace KleverGo.Blocks

open Governance List Option FMap

/-- Every value parses with the type of its parameter and lies within the bounds. -/
def WithinBounds (params : Parameters) : Prop :=
  ∀ c q, params.lookup c = some q → ∃ name v, EnumParameter.ofCode c = some name ∧
    parsers q.type q.value = .ok v ∧
    (paramBounds name).min ≤ v.toI64 ∧ v.toI64 ≤ (paramBounds name).max

def ChainBounded (s : Chain) : Prop := WithinBounds s.proposals.controller.activeParameters

/-- The parameters of a node: the live ones, those it works on, and those of every block. -/
structure Bounded (n : Node) : Prop where
  live : WithinBounds n.live
  working : ChainBounded n.working
  chain : ∀ c ∈ n.head :: n.ancestors, ChainBounded c.tries

/-! ## Settlements -/

section
variable {fc : ForkController} {live given : Parameters} {s : Chain}

theorem initialProposalParameters_withinBounds : WithinBounds (initialProposalParameters fc) := by
  intro c q hq
  obtain ⟨q', name, v, hq', hvalid⟩ := initialProposalParameters_acceptable hq
  obtain rfl := some.inj (hq.symm.trans hq')
  exact ⟨name, v, hvalid⟩

theorem WithinBounds.update (hlive : WithinBounds live) (hgiven : WithinBounds given) :
    WithinBounds (live.updateParameters given) := by
  intro c q hq
  rw [Parameters.lookup_updateParameters, or_eq_some_iff] at hq
  rcases hq with hq | ⟨-, hq⟩
  · exact hgiven c q hq
  · exact hlive c q hq

theorem ChainBounded.merged (h : ChainBounded s) :
    WithinBounds (merged fc s.proposals.controller) := by
  unfold Blocks.merged mergeInitialParameters
  split
  · exact h
  · exact initialProposalParameters_withinBounds.update h

variable (hfork : fc.fixAuditChangesV6 = true)
include hfork

theorem WithinBounds.apply {m m' : Parameters} {e : Sigma fun _ : Int32 => Bytes}
    (hm : WithinBounds m) (h : validateAndApplyParameter fc m e = .ok m') : WithinBounds m' := by
  simp only [validateAndApplyParameter, bind_eq_ok, orError_eq_ok, pure_eq_ok,
    Parameters.parseParamAndValidate_iff hfork] at h
  obtain ⟨_, ⟨q, name, v, hq, hvalid⟩, q', hq', rfl⟩ := h
  rw [hq] at hq'
  cases hq'
  intro c p hp
  rw [lookup_insert_eq] at hp
  split at hp
  · rename_i hc
    cases hp
    exact ⟨name, v, hc ▸ hvalid⟩
  · exact hm c p hp

theorem WithinBounds.settle {kfi : StakingData} {epoch : UInt32} {σ : ProposalStore}
    {c : ProposalController} {ids : List Nat} {r : ProposalStore × Parameters}
    (hlive : WithinBounds live) (hc : WithinBounds c.activeParameters)
    (h : settleBucket fc kfi epoch σ live c ids = .ok r) :
    WithinBounds r.1.controller.activeParameters ∧ WithinBounds r.2 := by
  simp only [settleBucket, bind_eq_ok, pure_eq_ok] at h
  obtain ⟨⟨σ', params⟩, hfold, rfl⟩ := h
  have hparams : WithinBounds params := by
    refine foldlM_invariant (P := fun acc => WithinBounds acc.2) ?_ hc hfold
    intro acc id acc' hacc hstep
    simp only [settleStep, processSingleProposal, applyApproved, bind_eq_ok, pure_eq_ok] at hstep
    obtain ⟨⟨params, p⟩, ⟨q, -, hsingle⟩, rfl⟩ := hstep
    -- a proposal that is denied changes nothing
    split at hsingle
    · cases hsingle
      exact hacc
    split at hsingle
    · cases hsingle
      exact hacc
    · simp only [bind_eq_ok, pure_eq_ok] at hsingle
      obtain ⟨params', hupdate, heq⟩ := hsingle
      cases heq
      exact foldlM_invariant (fun m e m' => WithinBounds.apply hfork) hacc hupdate
  exact ⟨hparams, hlive.update hparams⟩

theorem ChainBounded.endOfEpoch {epoch : UInt32} {r : Chain × Parameters} (hs : ChainBounded s)
    (hlive : WithinBounds live) (h : processProposalsEndOfEpoch fc epoch s live = .ok r) :
    ChainBounded r.1 ∧ WithinBounds r.2 := by
  have hmerged : WithinBounds (if (mergeInitialParameters fc s.proposals.controller).2 = true then
      live.updateParameters (Blocks.merged fc s.proposals.controller) else live) := by
    split
    · exact hlive.update hs.merged
    · exact hlive
  simp only [processProposalsEndOfEpoch] at h
  split at h
  · cases h
    exact ⟨hs, hmerged⟩
  · simp only [bind_eq_ok, pure_eq_ok] at h
    obtain ⟨kfi, -, σ, hsettle, rfl⟩ := h
    exact WithinBounds.settle hfork hmerged hs.merged hsettle

end

/-! ## Attempts -/

section
variable {P : Platform} {cfg : EnableEpochs} {n m : Node} {blk : Block}

section
variable (h : Bounded n) (hhead : m.head = n.head) (hancestors : m.ancestors = n.ancestors)
include h hhead hancestors

theorem Bounded.sameChain : ∀ c ∈ m.head :: m.ancestors, ChainBounded c.tries := by
  rw [hhead, hancestors]
  exact h.chain

theorem Bounded.revert : Bounded (revertStateToSnapshot cfg m) := by
  have hchain := h.sameChain hhead hancestors
  have hback := hchain m.head mem_cons_self
  exact ⟨hback.merged, hback, hchain⟩

theorem Bounded.reject : Bounded (rejectBlock cfg n m blk) := by
  have hchain := h.sameChain hhead hancestors
  unfold rejectBlock
  dsimp only
  split
  · exact ⟨h.live, hchain m.head mem_cons_self, hchain⟩
  · exact h.revert hhead hancestors

end

variable (hfork : ∀ epoch, (cfg.epochConfirmed epoch).fixAuditChangesV6 = true)
include hfork

theorem Bounded.commit (h : Bounded n)
    (hexec : execute P cfg { n with notifier := n.notifier.checkEpoch blk.epoch } blk = .ok m) :
    Bounded (commitBlock m blk) := by
  obtain ⟨hhead, hancestors, -, htransactions, hsettle⟩ := execute_spec hexec
  have hm : ChainBounded m.working ∧ WithinBounds m.live := by
    cases hstart : blk.isEpochStart with
    | true => exact h.working.endOfEpoch (hfork _) h.live (hsettle hstart)
    | false =>
      rw [htransactions hstart, ChainBounded, processBlockTransactions_activeParameters]
      exact ⟨h.working, h.live⟩
  exact ⟨hm.2, hm.1, forall_mem_cons.2 ⟨hm.1, h.sameChain hhead hancestors⟩⟩

theorem Bounded.attempt (h : Bounded n) (a : Attempt) : Bounded (attempt P cfg n a) := by
  cases a with
  | process blk rejectedAt =>
    unfold Blocks.attempt
    obtain ⟨heq, -⟩ | ⟨m, hhead, hancestors, -, heq, -⟩ | ⟨m, hexec, -, heq⟩ :=
      processBlock_cases P cfg n blk rejectedAt <;> simp only [heq]
    · exact h
    · exact h.reject hhead hancestors
    · exact h.commit hfork hexec
  | create blk commits =>
    rw [Blocks.attempt, createBlock]
    cases hexec : execute P cfg { n with notifier := n.notifier.checkEpoch blk.epoch } blk with
    | error e => exact h.revert rfl rfl
    | ok m =>
      obtain ⟨hhead, hancestors, -⟩ := execute_spec hexec
      cases commits with
      | true => exact h.commit hfork hexec
      | false => exact h.revert hhead hancestors
  | rollback =>
    rw [Blocks.attempt, revertStateToBlock]
    split
    · exact h
    · rename_i parent rest hrest
      have hchain := (forall_mem_cons.1 h.chain).2
      rw [hrest] at hchain
      have hback := hchain parent mem_cons_self
      exact ⟨hback.merged, hback, hchain⟩

end

/-- **No vote gives a network parameter a value outside its bounds**: not in the live set, not in the
tries the node works on, and in no block, whatever is accepted, rejected, given up and rolled
back. -/
theorem runAttempts_bounded {P : Platform} {cfg : EnableEpochs}
    (hfork : ∀ epoch, (cfg.epochConfirmed epoch).fixAuditChangesV6 = true) {n : Node}
    (h : Bounded n) (attempts : List Attempt) : Bounded (runAttempts P cfg n attempts) := by
  induction attempts generalizing n with
  | nil => exact h
  | cons a rest ih => exact ih (h.attempt hfork a)

/-- A holder of as much KFI as has to be frozen before there can be proposals. -/
def largeVoter : UserAccount :=
  ⟨0, 0, (∅ : FMap Bytes UserKDA).insert (toKDAKey KFIIdentifier [])
    { UserKDA.fresh with balance := 1000000000000 }⟩

def largeVoters : Chain := { (sampleHead 1).tries with users := AList.insert [1] largeVoter ∅ }

def votingNode : Node := ⟨⟨1, largeVoters⟩, [], largeVoters, ⟨1, 1⟩, (sampleHead 1).stored⟩

/-- A proposal is created and voted for, an epoch start is given up, and the proposal is settled. -/
def sampleVote : List Attempt :=
  [.process ⟨1, false, [sampleGovTx 1 [1] (.freeze 1000000000000),
      sampleGovTx 1 [1] (.create sampleProposal),
      sampleGovTx 1 [1] (.vote ⟨1, 1000000000000, some .Yes⟩)]⟩ none,
    .process ⟨2, true, []⟩ none, .create ⟨3, true, []⟩ false, .process ⟨3, true, []⟩ none,
    .process ⟨4, true, []⟩ none]

theorem runAttempts_bounded_sample :
    let n := runAttempts samplePlatform sampleEpochs votingNode sampleVote
    (n.live.lookup EnumParameter.FeePerDataByte.code).map (·.value) = some (decimal 5) ∧
      Bounded n := by
  have hinitial : ChainBounded (sampleHead 1).tries := initialProposalParameters_withinBounds
  have hnode : Bounded votingNode := ⟨hinitial, hinitial, forall_mem_singleton.2 hinitial⟩
  exact ⟨by decide +kernel, runAttempts_bounded
    (fun epoch => by simp [EnableEpochs.epochConfirmed, sampleEpochs]) hnode sampleVote⟩

end KleverGo.Blocks
