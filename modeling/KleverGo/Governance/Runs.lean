import KleverGo.Staking.Model

/-!
# Runs of governance calls

What moves votes: creating a proposal, voting, freezing and unfreezing KFI, and the settlement at
the start of an epoch.  A call that fails leaves the chain as it was.

* `StoreStep`: what a call can do to the proposal store.  The invariants of the store are proved
  from it, one case for each kind of call.
* `execGov_store`: every call takes such a step.
-/

namespace KleverGo.Governance

open Staking EnumParameter

inductive GovCall where
  | create (tc : ProposalContract)
  | vote (tc : VoteContract)
  | freeze (amount : Int64)
  | unfreeze (bucketID : Bytes)
  | settle

/-- A call, the block and transaction it runs in, and the network parameters of that moment. -/
structure GovTx where
  ctx : KappContext
  params : Parameters
  sender : Bytes
  call : GovCall

section
variable (P : Platform) (fc : ForkController)

def execGov (s : Chain) (tx : GovTx) : Except Err Chain :=
  match tx.call with
  | .create tc => (create P fc tx.params tx.ctx s tx.sender tc).mapError (·.err)
  | .vote tc => (vote fc tx.params tx.ctx s tx.sender tc).mapError (·.err)
  | .freeze amount =>
    (kappFreeze P fc tx.params tx.ctx s tx.sender ⟨some KFIIdentifier, amount⟩).mapError
      (·.err)
  | .unfreeze bucketID =>
    (kappUnfreeze P fc tx.ctx s tx.sender ⟨some KFIIdentifier, bucketID⟩).mapError (·.err)
  | .settle => Prod.fst <$> processProposalsEndOfEpoch fc tx.ctx.epoch s tx.params

/-- The chain after a call: a call that fails is reverted. -/
def attemptGov (s : Chain) (tx : GovTx) : Chain := (execGov P fc s tx).toOption.getD s

def runGov (s : Chain) (txs : List GovTx) : Chain := txs.foldl (attemptGov P fc) s

end

/-- What a call can do to the proposal store. -/
inductive StoreStep (fc : ForkController) (σ : ProposalStore) : ProposalStore → Prop where
  | kept : StoreStep fc σ σ
  | created (ctx : KappContext) (staking : StakingData) (tc : ProposalContract) (sender : Bytes) :
    StoreStep fc σ (finalizeProposal fc ctx σ staking tc sender)
  | voted {σ' : ProposalStore} {id : Nat} {p : ProposalData} {sender : Bytes} {type : VoteType}
    {amount timestamp totalStaked : Int64} (stored : σ.proposals.lookup id = some p)
    (active : p.proposalStatus = .ActiveProposal) (positive : 0 < amount)
    (indexed : indexVote fc (setProposal σ id
      (castVote p (hexEncode sender) type amount timestamp totalStaked)) (hexEncode sender) id
        amount = .ok σ') : StoreStep fc σ σ'
  | unfrozen {σ' : ProposalStore} {update : ProposalVoteUpdate} {total : Int64}
    (staked : update.kfiStaked = .ok total) (updated : updateVotes fc update σ = .ok σ') :
    StoreStep fc σ σ'
  | settled {σ' : ProposalStore} {kfi : StakingData} {epoch : UInt32} {live live' : Parameters}
    {ids : List Nat} (bucket : σ.controller.activeProposals.lookup epoch = some ids)
    (processed : settleBucket fc kfi epoch σ live (mergeInitialParameters fc σ.controller).1 ids =
      .ok (σ', live')) : StoreStep fc σ σ'

section
variable {P : Platform} {fc : ForkController} {s s' : Chain}

theorem mergeInitialParameters_activeProposals (fc : ForkController) (pc : ProposalController) :
    (mergeInitialParameters fc pc).1.activeProposals = pc.activeProposals := by
  unfold mergeInitialParameters
  split <;> rfl

theorem mergeInitialParameters_proposalCount (fc : ForkController) (pc : ProposalController) :
    (mergeInitialParameters fc pc).1.proposalCount = pc.proposalCount := by
  unfold mergeInitialParameters
  split <;> rfl

variable {params : Parameters} {ctx : KappContext} {sender : Bytes}

/-- A successful vote is on an active proposal, and of at most the frozen KFI of the voter. -/
theorem vote_spec {tc : VoteContract} (h : vote fc params ctx s sender tc = .ok s') :
    ∃ type p acc σ', ∃ staking : StakingData, s.proposals.proposals.lookup tc.proposalID = some p ∧
      p.proposalStatus = .ActiveProposal ∧ 0 < tc.amount ∧
      s.users.lookup sender = some acc ∧
      tc.amount ≤ (acc.getUserKDA KFIIdentifier []).frozenBalance ∧
      indexVote fc (setProposal s.proposals tc.proposalID
        (castVote p (hexEncode sender) type tc.amount ctx.timestamp staking.totalStaked))
        (hexEncode sender) tc.proposalID tc.amount = .ok σ' ∧
      s' = { s with proposals := σ' } := by
  simp only [vote, bind_eq_ok, orError_eq_ok, reject_eq_ok, withReceipt_eq_ok,
    withCode_eq_ok, getProposalData, pure_eq_ok, not_or, not_not] at h
  obtain ⟨type, -, _, ⟨-, hpos⟩, p, hp, _, hactive, staking, -, _, -, acc, hacc, _, hle, _, -, σ', hσ',
    rfl⟩ := h
  obtain ⟨-, hacc⟩ := Chain.getExistingUser_spec hacc
  exact ⟨type, p, acc, σ', staking, hp, hactive, Int64.not_le.1 hpos, hacc, Int64.not_lt.1 hle, hσ',
    rfl⟩

/-- A successful creation stores the proposal under the next identifier. -/
theorem create_spec {tc : ProposalContract} (h : create P fc params ctx s sender tc = .ok s') :
    validateCreateInput fc params tc = .ok () ∧
      ∃ staking, s' = { s with
        proposals := finalizeProposal fc ctx s.proposals staking tc sender } := by
  simp only [create, bind_eq_ok, withReceipt_eq_ok, withCode_eq_ok, pure_eq_ok] at h
  obtain ⟨_, hinput, _, -, staking, -, _, -, rfl⟩ := h
  exact ⟨hinput, staking, rfl⟩

/-- The settlement of an epoch settles the bucket of that epoch, if there is one. -/
theorem processProposalsEndOfEpoch_spec {epoch : UInt32} {live : Parameters}
    {r : Chain × Parameters} (h : processProposalsEndOfEpoch fc epoch s live = .ok r) :
    (s.proposals.controller.activeProposals.lookup epoch = none ∧ r.1 = s) ∨
    ∃ ids kfi σ' live1 live', s.proposals.controller.activeProposals.lookup epoch = some ids ∧
      s.staking.lookup KFIIdentifier = some kfi ∧
      settleBucket fc kfi epoch s.proposals live1
        (mergeInitialParameters fc s.proposals.controller).1 ids = .ok (σ', live') ∧
      r.1 = { s with proposals := σ' } := by
  unfold processProposalsEndOfEpoch at h
  simp only [mergeInitialParameters_activeProposals] at h
  split at h
  · rename_i hnone
    cases h
    exact .inl ⟨hnone, rfl⟩
  · rename_i ids hids
    simp only [bind_eq_ok, pure_eq_ok, nativeKFIStaking, orError_eq_ok] at h
    obtain ⟨kfi, ⟨_, -, hkfi⟩, ⟨σ', live'⟩, hsettle, rfl⟩ := h
    exact .inr ⟨ids, kfi, σ', _, live', hids, hkfi, hsettle, rfl⟩

/-- What unfreezing KFI does to the votes: the update has what is still frozen, and the total
stake that was just stored. -/
theorem kappUnfreeze_votes {bucketID : Bytes}
    (h : kappUnfreeze P fc ctx s sender ⟨some KFIIdentifier, bucketID⟩ = .ok s') :
    ∃ (amount total : Int64) (a : UserAccount), s'.users.lookup sender = some a ∧
      updateVotes fc ⟨hexEncode sender, amount, (a.getUserKDA KFIIdentifier []).frozenBalance,
        .ok total⟩ s.proposals = .ok s'.proposals := by
  simp only [kappUnfreeze, bind_eq_ok, withReceipt_eq_ok, withCode_eq_ok, orError_eq_ok] at h
  obtain ⟨a, -, kda, -, _, -, st, -, _, -, r, -, ⟨st3, k3, delegation, amount⟩, -, ⟨v, k4⟩, -,
    hvotes⟩ := h
  have hkfi : UserAccount.assetOf (some KFIIdentifier) = KFIIdentifier := by decide
  simp only [hkfi] at hvotes
  unfold handleProposalVotesOnUnfreeze at hvotes
  simp only [ne_eq, not_true_eq_false, if_false, bind_eq_ok, withCode_eq_ok, pure_eq_ok] at hvotes
  obtain ⟨σ', hσ', rfl⟩ := hvotes
  simp only [Chain.getStaking, storeRecords, Chain.setKDA, Chain.setStaking,
    AList.lookup_insert] at hσ'
  exact ⟨amount, _, _, AList.lookup_insert _, hσ'⟩

/-- **Every call takes a step of the store.** -/
theorem execGov_store {tx : GovTx} (h : execGov P fc s tx = .ok s') :
    StoreStep fc s.proposals s'.proposals := by
  unfold execGov at h
  cases hcall : tx.call with
  | create tc =>
    rw [hcall] at h
    obtain ⟨-, staking, rfl⟩ := create_spec (mapError_eq_ok.1 h)
    exact .created _ _ _ _
  | vote tc =>
    rw [hcall] at h
    obtain ⟨type, p, acc, σ', staking, hp, hactive, hpos, -, -, hindex, rfl⟩ :=
      vote_spec (mapError_eq_ok.1 h)
    exact .voted hp hactive hpos hindex
  | freeze amount =>
    rw [hcall] at h
    have hfreeze := mapError_eq_ok.1 h
    simp only [kappFreeze, bind_eq_ok, pure_eq_ok] at hfreeze
    obtain ⟨_, -, _, -, _, -, _, -, _, -, _, -, _, -, _, -, _, -, _, -, _, -, _, -, rfl⟩ := hfreeze
    exact .kept
  | unfreeze bucketID =>
    rw [hcall] at h
    obtain ⟨amount, total, a, -, hvotes⟩ := kappUnfreeze_votes (mapError_eq_ok.1 h)
    exact .unfrozen rfl hvotes
  | settle =>
    rw [hcall] at h
    obtain ⟨r, hr, rfl⟩ := map_eq_ok.1 h
    rcases processProposalsEndOfEpoch_spec hr with ⟨-, hsame⟩ | ⟨ids, kfi, σ', live, live', hids, -,
      hsettle, hr'⟩
    · rw [hsame]
      exact .kept
    · rw [hr']
      exact .settled hids hsettle

end

/-! ## A sample chain -/

/-- The holder of 100 KFI. -/
def sampleVoter : UserAccount :=
  ⟨0, 0, (∅ : FMap Bytes UserKDA).insert (toKDAKey KFIIdentifier [])
    { UserKDA.fresh with balance := 100 }⟩

/-- Two holders of KFI, and one network parameter. -/
def sampleVoters : Chain where
  users := ((∅ : FMap Bytes UserAccount).insert [2] sampleVoter).insert [1] sampleVoter
  kdas := (∅ : FMap Bytes KDAData).insert KFIIdentifier
    ⟨.Fungible, KFIIdentifier, [3], [], none, false, false, false, [], 0, 0, 0⟩
  market := ⟨∅, ∅, ∅⟩
  staking := ((∅ : FMap Bytes StakingData).insert KLVIdentifier
    ⟨.FPRI, [], [], 0, 0, 0, 0⟩).insert KFIIdentifier ⟨.FPRI, [], [], 0, 0, 0, 0⟩
  proposals := { ProposalStore.empty with controller :=
    ⟨0, (∅ : Parameters).insert FeePerDataByte.code (initialParameter .Int64 4000), ∅⟩ }

/-- Ten buckets per holder, and proposals of at most 40 epochs. -/
def sampleLiveParameters : Parameters :=
  ((∅ : Parameters).insert MaxBucketSize.code (initialParameter .Int64 10)).insert
    ProposalMaxEpochsDuration.code (initialParameter .Uint32 40)

def sampleGovTx (epoch : UInt32) (sender : Bytes) (call : GovCall) : GovTx :=
  ⟨⟨10, epoch, [7], 0, 0⟩, sampleLiveParameters, sender, call⟩

/-- A proposal to set the fee to 5, open for three epochs. -/
def sampleProposal : ProposalContract :=
  ⟨(∅ : FMap Int32 Bytes).insert FeePerDataByte.code (decimal 5), [], 3⟩

/-- The bucket a holder gets for freezing an amount in the sample runs. -/
def sampleKFIBucket (sender : Bytes) (amount : Int64) : Bytes :=
  freezeBucketID samplePlatform ⟨10, 0, [7], 0, 0⟩ sender KFIIdentifier amount

end KleverGo.Governance
