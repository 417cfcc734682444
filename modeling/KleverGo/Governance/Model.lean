import KleverGo.Governance.Parameters
import KleverGo.State.Chain

/-!
# The proposal KApp

`core/kapp/proposal`: creating a proposal and voting on it, and the vote index; the handling of
votes when KFI is unfrozen (`handleProposalVotesOnUnfreeze` of `core/kapp/accounts/accounts.go`);
and the settlement at the start of an epoch (`processProposalsEndOfEpoch` of
`core/process/block/block.go`).

Go maps are walked in the order of their entries where the source does not sort them; only the
error of a refused call can depend on it.
-/

namespace KleverGo.Governance

def MaxProposalsLength : Nat := 10

def MaxDescriptionLength : Nat := 1000

def MaxProposalParamLength : Nat := 50

def MaxVotersPerProposal : Nat := 7000

structure ProposalContract where
  parameters : FMap Int32 Bytes
  description : Bytes
  epochsDuration : UInt32

/-- `transaction.VoteContract`; `none` is a vote type without a name. -/
structure VoteContract where
  proposalID : Nat
  amount : Int64
  type : Option VoteType

/-! ## Storage -/

def getProposalData (σ : ProposalStore) (id : Nat) : Except Err ProposalData :=
  orError (σ.proposals.lookup id) .ErrProposalNotFound

/-- `SetProposal` without a controller. -/
def setProposal (σ : ProposalStore) (id : Nat) (proposal : ProposalData) : ProposalStore :=
  { σ with proposals := σ.proposals.insert id proposal }

def activeProposalIDs (controller : ProposalController) : List Nat :=
  controller.activeProposals.entries.flatMap fun e => e.2

/-- `PreForkVoteIDBound`: the bound, recorded the first time it is needed. -/
def preForkVoteIDBound (σ : ProposalStore) : Nat × ProposalStore :=
  match σ.preForkVotes with
  | some bound => (bound, σ)
  | none =>
    (σ.controller.proposalCount, { σ with preForkVotes := some σ.controller.proposalCount })

def getAccountProposalVotes (σ : ProposalStore) (encodedAddr : Bytes) :
    List ProposalVoteIndexEntry :=
  (σ.votes.lookup encodedAddr).getD []

/-- `SetAccountProposalVotes`: an amount that is not positive is refused, and an empty index is
deleted. -/
def setAccountProposalVotes (σ : ProposalStore) (encodedAddr : Bytes)
    (entries : List ProposalVoteIndexEntry) : Except Err ProposalStore := do
  reject (∃ entry ∈ entries, entry.amount ≤ 0) .ErrInvalidValue
  pure { σ with
    votes :=
      if entries = [] then σ.votes.erase encodedAddr else σ.votes.insert encodedAddr entries }

/-! ## Creating a proposal -/

variable (fc : ForkController)

/-- `validateCreateInput`; `params` are the live parameters. -/
def validateCreateInput (params : Parameters) (tc : ProposalContract) : Except Err Unit := do
  reject (MaxProposalsLength < tc.parameters.entries.length) .ErrInvalidValue
  reject (MaxDescriptionLength < tc.description.length) .ErrInvalidValue
  reject (params.getParameterUint .ProposalMaxEpochsDuration < tc.epochsDuration.toUInt64 ∨
    tc.parameters.entries = []) .ErrInvalidValue
  reject (fc.fixAuditChangesV5 ∧ tc.epochsDuration = 0) .ErrInvalidValue

/-- The check of one parameter in `validateNewParameters`, against the stored parameters. -/
def validateNewParameter (P : Platform) (fc : ForkController) (stored : Parameters)
    (parameter : Int32) (value : Bytes) : Except Err Unit := do
  reject (EnumParameter.ofCode parameter = none) .ErrInvalidParameter
  reject (value = []) .ErrInvalidValue
  reject (¬ P.utf8Valid value ∨ MaxProposalParamLength < value.length) .ErrInvalidValue
  stored.parseParamAndValidate fc parameter value

def validateNewParameters (P : Platform) (fc : ForkController) (stored : Parameters)
    (params : FMap Int32 Bytes) : Except Err Unit :=
  params.entries.forM fun e => validateNewParameter P fc stored e.1 e.2

def checkStakingRequirements (params : Parameters) (s : Chain) (staking : StakingData)
    (sender : Bytes) : Except TxError Unit := do
  reject (staking.totalStaked < params.getParameterInt .MinKFIStakedToEnableProposals)
    (failAt .MinKFIStakedUnreached .MinKFIStakedUnreached .ErrMinKFIStaked)
  let acc ← withCode .LoadAccountError (s.getExistingUser sender)
  reject ((acc.getUserKDA KFIIdentifier []).frozenBalance = 0)
    (failAt .OutOfFunds .InsufficientFrozenKFI .ErrBalance)

def updateActiveProposals (controller : ProposalController) (epochEnd : UInt32) :
    ProposalController :=
  { controller with
    activeProposals := controller.activeProposals.insert epochEnd
      ((controller.activeProposals.lookup epochEnd).getD [] ++ [controller.proposalCount]) }

/-- The proposal `copyProposalDetails` fills in. -/
def newProposal (ctx : KappContext) (totalStaked : Int64) (tc : ProposalContract)
    (sender : Bytes) : ProposalData where
  proposer := sender
  proposalStatus := .ActiveProposal
  parameters := tc.parameters
  description := tc.description
  epochStart := ctx.epoch
  epochEnd := ctx.epoch + tc.epochsDuration
  votes := ∅
  voters := ∅
  totalStaked := totalStaked

def finalizeProposal (ctx : KappContext) (σ : ProposalStore) (staking : StakingData)
    (tc : ProposalContract) (sender : Bytes) : ProposalStore :=
  let proposal := newProposal ctx staking.totalStaked tc sender
  let σ := if fc.fixAuditChangesV5 then (preForkVoteIDBound σ).2 else σ
  let controller := { σ.controller with proposalCount := σ.controller.proposalCount + 1 }
  let controller := updateActiveProposals controller proposal.epochEnd
  { setProposal σ controller.proposalCount proposal with controller := controller }

def create (P : Platform) (fc : ForkController) (params : Parameters) (ctx : KappContext)
    (s : Chain) (sender : Bytes) (tc : ProposalContract) : Except TxError Chain := do
  withReceipt .ParameterInvalid .InvalidProposal (validateCreateInput fc params tc)
  withReceipt .ParameterInvalid .InvalidProposalParams
    (validateNewParameters P fc s.proposals.controller.activeParameters tc.parameters)
  let staking ← withCode .AssetError (s.getStaking KFIIdentifier)
  checkStakingRequirements params s staking sender
  pure { s with proposals := finalizeProposal fc ctx s.proposals staking tc sender }

/-! ## Voting -/

variable (proposal : ProposalData)

/-- `proposal.Votes[type]`, zero if there is none. -/
def votesOf (type : VoteType) : Int64 :=
  (proposal.votes.lookup type).getD 0

/-- `proposal.Votes[type] += delta` -/
def addVotes (type : VoteType) (delta : Int64) : ProposalData :=
  { proposal with votes := proposal.votes.insert type (votesOf proposal type + delta) }

def isVoterLimitExceeded (encodedAddr : Bytes) : Bool :=
  fc.epochRewardsV2 && (proposal.voters.lookup encodedAddr).isNone &&
    decide (MaxVotersPerProposal ≤ proposal.voters.entries.length)

/-- `processExistingVote`: a vote of another type is taken back; one of the same type is
returned. -/
def processExistingVote (encodedAddr : Bytes) (newType : VoteType) : ProposalData × Int64 :=
  match proposal.voters.lookup encodedAddr with
  | none => (proposal, 0)
  | some v =>
    if v.type ≠ newType then (addVotes proposal v.type (-v.amount), 0) else (proposal, v.amount)

def castVote (encodedAddr : Bytes) (type : VoteType) (amount timestamp totalStaked : Int64) :
    ProposalData :=
  let (proposal, oldAmount) := processExistingVote proposal encodedAddr type
  let proposal := addVotes proposal type (amount - oldAmount)
  { proposal with
    voters := proposal.voters.insert encodedAddr ⟨type, amount, timestamp⟩
    totalStaked := totalStaked }

def dropInactiveProposalVotes (entries : List ProposalVoteIndexEntry)
    (controller : ProposalController) : List ProposalVoteIndexEntry :=
  entries.filter fun entry => entry.proposalID ∈ activeProposalIDs controller

/-- `upsertProposalVoteIndex`: the first entry of the proposal is replaced, or one is added. -/
def upsertProposalVoteIndex : List ProposalVoteIndexEntry → Nat → Int64 →
    List ProposalVoteIndexEntry
  | [], proposalID, amount => [⟨proposalID, amount⟩]
  | entry :: rest, proposalID, amount =>
    if entry.proposalID = proposalID then ⟨proposalID, amount⟩ :: rest
    else entry :: upsertProposalVoteIndex rest proposalID amount

/-- `addVoterToIndex`: an index that did not change is not written. -/
def addVoterToIndex (σ : ProposalStore) (encodedAddr : Bytes) (proposalID : Nat)
    (amount : Int64) : Except Err ProposalStore :=
  let entries := getAccountProposalVotes σ encodedAddr
  let updated :=
    upsertProposalVoteIndex (dropInactiveProposalVotes entries σ.controller) proposalID amount
  if updated = entries then .ok σ else setAccountProposalVotes σ encodedAddr updated

/-- The index write of `Vote`. -/
def indexVote (σ : ProposalStore) (encodedAddr : Bytes) (proposalID : Nat) (amount : Int64) :
    Except Err ProposalStore :=
  if fc.fixAuditChangesV5 then addVoterToIndex σ encodedAddr proposalID amount else .ok σ

def vote (fc : ForkController) (params : Parameters) (ctx : KappContext) (s : Chain)
    (sender : Bytes) (tc : VoteContract) : Except TxError Chain := do
  let type ← orError tc.type (failAt .ParameterInvalid .InvalidVoteType .ErrInvalidValue)
  reject (tc.proposalID = 0 ∨ tc.amount ≤ 0)
    (failAt .ParameterInvalid .InvalidVoteAmount .ErrInvalidValue)
  let proposal ← withReceipt .AccountError .ProposalNotFound
    (getProposalData s.proposals tc.proposalID)
  reject (proposal.proposalStatus ≠ .ActiveProposal)
    (failAt .ProposalNotActive .ProposalNotActive .ErrInvalidParameter)
  let staking ← withCode .AssetError (s.getStaking KFIIdentifier)
  reject (staking.totalStaked < params.getParameterInt .MinKFIStakedToEnableProposals)
    (failAt .MinKFIStakedUnreached .MinKFIStakedUnreached .ErrMinKFIStaked)
  let acc ← withCode .LoadAccountError (s.getExistingUser sender)
  reject ((acc.getUserKDA KFIIdentifier []).frozenBalance < tc.amount)
    (failAt .OutOfFunds .InsufficientFrozenKFI .ErrBalance)
  let encodedAddr := hexEncode sender
  reject (isVoterLimitExceeded fc proposal encodedAddr = true)
    (failAt .ParameterInvalid .ProposalMaxVoters .ErrProposalMaxVotersReached)
  let proposal := castVote proposal encodedAddr type tc.amount ctx.timestamp staking.totalStaked
  let σ ← withCode .KAPPError
    (indexVote fc (setProposal s.proposals tc.proposalID proposal) encodedAddr tc.proposalID
      tc.amount)
  pure { s with proposals := σ }

/-! ## Votes when KFI is unfrozen -/

/-- `proposalVoteUpdate`: the voter, what was unfrozen and what is still frozen, and the total
stake of KFI. -/
structure ProposalVoteUpdate where
  encodedAddr : Bytes
  unfrozenAmount : Int64
  frozenBalance : Int64
  kfiStaked : Except Err Int64

def updateVoterAndProposal (update : ProposalVoteUpdate) (voter : VoteDetail)
    (proposal : ProposalData) : ProposalData :=
  if voter.amount ≤ update.unfrozenAmount then
    { addVotes proposal voter.type (-voter.amount) with
      voters := proposal.voters.erase update.encodedAddr }
  else
    { addVotes proposal voter.type (-update.unfrozenAmount) with
      voters := proposal.voters.insert update.encodedAddr
        { voter with amount := voter.amount - update.unfrozenAmount } }

section

variable (update : ProposalVoteUpdate)

def updateProposalTotalStaked (proposal : ProposalData) : Except Err ProposalData := do
  if !fc.enableSmartContracts then pure proposal
  else
    let total ← update.kfiStaked
    pure { proposal with totalStaked := total }

/-- `shrinkVoteIfUncovered`, with the vote that remains. -/
def shrinkVoteIfUncovered (σ : ProposalStore) (proposal : ProposalData) (id : Nat) :
    Except Err (ProposalStore × Option VoteDetail) :=
  match proposal.voters.lookup update.encodedAddr with
  | none => .ok (σ, none)
  | some voter =>
    if update.frozenBalance < voter.amount then do
      let proposal ← updateProposalTotalStaked fc update
        (updateVoterAndProposal update voter proposal)
      pure (setProposal σ id proposal, proposal.voters.lookup update.encodedAddr)
    else .ok (σ, some voter)

def rebuildIndexEntry (activeIDs : List Nat) (σ : ProposalStore) (entry : ProposalVoteIndexEntry) :
    Except Err (ProposalStore × Option ProposalVoteIndexEntry) :=
  if entry.proposalID ∉ activeIDs then .ok (σ, none)
  else if entry.amount ≤ update.frozenBalance then .ok (σ, some entry)
  else
    match σ.proposals.lookup entry.proposalID with
    | none => .ok (σ, none)
    | some proposal => do
      let (σ, remaining) ← shrinkVoteIfUncovered fc update σ proposal entry.proposalID
      pure (σ, remaining.map fun voter => ⟨entry.proposalID, voter.amount⟩)

/-- One entry of the loop of `processIndexedProposalVotes`, with the identifiers seen and the
entries kept so far. -/
def indexStep (activeIDs : List Nat) (acc : ProposalStore × List Nat × List ProposalVoteIndexEntry)
    (entry : ProposalVoteIndexEntry) :
    Except Err (ProposalStore × List Nat × List ProposalVoteIndexEntry) :=
  if entry.proposalID ∈ acc.2.1 then .ok acc
  else do
    let (σ, rebuilt) ← rebuildIndexEntry fc update activeIDs acc.1 entry
    pure (σ, entry.proposalID :: acc.2.1, acc.2.2 ++ rebuilt.toList)

/-- One identifier of `processActiveProposal`; `none` is no bound. -/
def scanStep (skip : List Nat) (idBound : Option Nat) (σ : ProposalStore) (id : Nat) :
    Except Err ProposalStore :=
  if id ∈ skip ∨ (∃ bound ∈ idBound, bound < id) then .ok σ
  else do
    let proposal ← getProposalData σ id
    let (σ, _) ← shrinkVoteIfUncovered fc update σ proposal id
    pure σ

end

/-- The identifiers of the active proposals, in the order `scanActiveProposals` walks them. -/
def scannedIDs (controller : ProposalController) : List Nat :=
  (controller.activeProposals.keys.insertionSort (· ≤ ·)).flatMap fun epoch =>
    (controller.activeProposals.lookup epoch).getD []

def scanActiveProposals (update : ProposalVoteUpdate) (σ : ProposalStore) (skip : List Nat)
    (idBound : Option Nat) : Except Err ProposalStore :=
  (scannedIDs σ.controller).foldlM (scanStep fc update skip idBound) σ

/-- The index write of `processIndexedProposalVotes`. -/
def writeIndex (σ : ProposalStore) (encodedAddr : Bytes)
    (entries kept : List ProposalVoteIndexEntry) : Except Err ProposalStore :=
  if kept = entries then .ok σ else setAccountProposalVotes σ encodedAddr kept

section

variable (update : ProposalVoteUpdate) (σ : ProposalStore)

def processIndexedProposalVotes : Except Err ProposalStore := do
  let entries := getAccountProposalVotes σ update.encodedAddr
  let (σ, skip, kept) ← entries.foldlM
    (indexStep fc update (activeProposalIDs σ.controller)) (σ, [], [])
  let σ ← writeIndex σ update.encodedAddr entries kept
  let (idBound, σ) := preForkVoteIDBound σ
  scanActiveProposals fc update σ skip (some idBound)

/-- The votes after an unfreeze: through the index, or by the full scan before
`FixAuditChangesV5`. -/
def updateVotes : Except Err ProposalStore :=
  if fc.fixAuditChangesV5 then processIndexedProposalVotes fc update σ
  else scanActiveProposals fc update σ [] none

end

def handleProposalVotesOnUnfreeze (s : Chain) (acc : UserAccount) (assetID sender : Bytes)
    (unfrozenAmount : Int64) : Except TxError Chain := do
  if assetID ≠ KFIIdentifier then pure s
  else
    let update : ProposalVoteUpdate :=
      { encodedAddr := hexEncode sender
        unfrozenAmount := unfrozenAmount
        frozenBalance := (acc.getUserKDA assetID []).frozenBalance
        kfiStaked := (s.getStaking KFIIdentifier).map (·.totalStaked) }
    let σ ← withCode .AccountError (updateVotes fc update s.proposals)
    pure { s with proposals := σ }

/-! ## Settlement -/

/-- `determineProposalStatus`: Go's division truncates. -/
def determineProposalStatus (kfi : StakingData) : ProposalStatus :=
  if kfi.totalStaked / 2 < votesOf proposal .Yes then .ApprovedProposal else .DeniedProposal

def validateProposalParameters (params : Parameters) : Except Err Unit :=
  proposal.parameters.entries.forM fun e => params.parseParamAndValidate fc e.1 e.2

def validateAndApplyParameter (params : Parameters) (e : Sigma fun _ : Int32 => Bytes) :
    Except Err Parameters := do
  params.parseParamAndValidate fc e.1 e.2
  let param ← orError (params.lookup e.1) .nilPointer
  pure (params.insert e.1 { param with value := e.2 })

def updateApprovedProposalParameters (params : Parameters) : Except Err Parameters :=
  proposal.parameters.entries.foldlM (validateAndApplyParameter fc) params

/-- What becomes of an approved proposal: from `FixAuditChangesV6` one that holds an invalid
parameter is denied. -/
def applyApproved (params : Parameters) (proposal : ProposalData) :
    Except Err (Parameters × ProposalData) :=
  if fc.fixAuditChangesV6 ∧ ¬ (validateProposalParameters fc proposal params).isOk then
    .ok (params, { proposal with proposalStatus := .DeniedProposal })
  else do
    let params ← updateApprovedProposalParameters fc proposal params
    pure (params, proposal)

/-- `processSingleProposal`, on the parameters of the controller. -/
def processSingleProposal (kfi : StakingData) (σ : ProposalStore) (params : Parameters) (id : Nat) :
    Except Err (Parameters × ProposalData) := do
  let proposal ← orError (σ.proposals.lookup id) .ErrEmptyString
  let proposal : ProposalData := { proposal with
    proposalStatus := determineProposalStatus proposal kfi
    totalStaked := kfi.totalStaked }
  if proposal.proposalStatus ≠ .ApprovedProposal then pure (params, proposal)
  else applyApproved fc params proposal

/-- One identifier of the loop of `processAllProposals`. -/
def settleStep (kfi : StakingData) (acc : ProposalStore × Parameters) (id : Nat) :
    Except Err (ProposalStore × Parameters) := do
  let (params, proposal) ← processSingleProposal fc kfi acc.1 acc.2 id
  pure (setProposal acc.1 id proposal, params)

/-- The settlement of a bucket of proposals, with the live parameters. -/
def settleBucket (kfi : StakingData) (epoch : UInt32) (σ : ProposalStore) (live : Parameters)
    (controller : ProposalController) (ids : List Nat) :
    Except Err (ProposalStore × Parameters) := do
  let (σ, params) ← ids.foldlM (settleStep fc kfi) (σ, controller.activeParameters)
  let controller : ProposalController :=
    { controller with
      activeParameters := params
      activeProposals := controller.activeProposals.erase epoch }
  pure ({ σ with controller := controller }, live.updateParameters params)

/-- `getNativeStakingKApps`, the KFI record. -/
def nativeKFIStaking (s : Chain) : Except Err StakingData := do
  let _ ← orError (s.staking.lookup KLVIdentifier) .ErrEmptyString
  orError (s.staking.lookup KFIIdentifier) .ErrEmptyString

/-- `processProposalsEndOfEpoch`, with the live parameters.  What `getProposalController` merges
is stored only if a bucket is settled. -/
def processProposalsEndOfEpoch (epoch : UInt32) (s : Chain) (live : Parameters) :
    Except Err (Chain × Parameters) :=
  let (controller, merged) := mergeInitialParameters fc s.proposals.controller
  let live := if merged then live.updateParameters controller.activeParameters else live
  match controller.activeProposals.lookup epoch with
  | none => .ok (s, live)
  | some ids => do
    let kfi ← nativeKFIStaking s
    let (σ, live) ← settleBucket fc kfi epoch s.proposals live controller ids
    pure ({ s with proposals := σ }, live)

end KleverGo.Governance
