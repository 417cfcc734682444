import KleverGo.Core.Context
import KleverGo.Lib.OrderedMap

/-!
# Proposals and network parameters

The records of the proposal KApp (`core/kapp/proposal`, `kapps/proposal.pb.go`): the controller
with the network parameters and the identifiers of the active proposals by the epoch they end in,
the proposals, and the vote index of each account.

Proposal identifiers are counted up from one and are natural numbers here.  `EnumType` has the
integer types only: no parameter is of another type.  The hash of the transaction of a proposal
is left out, as nothing reads it.
-/

namespace KleverGo

/-- `ProposalData_VoteDetail_EnumVoteType` -/
inductive VoteType where
  | Yes | No
  deriving DecidableEq, Repr

/-- `kapps.ProposalData_VoteDetail` -/
structure VoteDetail where
  type : VoteType
  amount : Int64
  timestamp : Int64
  deriving DecidableEq, Repr

/-- `ProposalData_EnumProposalStatus` -/
inductive ProposalStatus where
  | ActiveProposal | ApprovedProposal | DeniedProposal
  deriving DecidableEq, Repr

/-- `kapps.ProposalData`; the voters are keyed by hexadecimal addresses. -/
structure ProposalData where
  proposer : Bytes
  proposalStatus : ProposalStatus
  parameters : FMap Int32 Bytes
  description : Bytes
  epochStart : UInt32
  epochEnd : UInt32
  votes : FMap VoteType Int64
  voters : FMap Bytes VoteDetail
  totalStaked : Int64

inductive EnumType where
  | Int8 | Int16 | Int32 | Int64 | Uint8 | Uint16 | Uint32 | Uint64
  deriving DecidableEq, Repr

structure Parameter where
  type : EnumType
  value : Bytes
  deriving DecidableEq, Repr

/-- A set of network parameters, by the code of the parameter. -/
abbrev Parameters := FMap Int32 Parameter

structure ProposalController where
  proposalCount : Nat
  activeParameters : Parameters
  activeProposals : FMap UInt32 (List Nat)

structure ProposalVoteIndexEntry where
  proposalID : Nat
  amount : Int64
  deriving DecidableEq, Repr

/-- The storage of the proposal KApp.  `votes` is the vote index by hexadecimal address;
`preForkVotes` is the bound stored under `ProposalPreForkVotesKey`. -/
structure ProposalStore where
  controller : ProposalController
  proposals : FMap Nat ProposalData
  votes : FMap Bytes (List ProposalVoteIndexEntry)
  preForkVotes : Option Nat

def ProposalStore.empty : ProposalStore := ⟨⟨0, ∅, ∅⟩, ∅, ∅, none⟩

end KleverGo
