import KleverGo.Market.Listing
import KleverGo.Kda.TransferRoyalty
import KleverGo.Kda.Roles
import KleverGo.Staking.Bounds
import KleverGo.Staking.Delegations
import KleverGo.Governance.Settlement
import KleverGo.Block.ParameterBounds
import KleverGo.Validators.Payout
import KleverGo.Validators.RewardShares
import KleverGo.Validators.JailRuns
import KleverGo.Sharding.Reshuffling
import KleverGo.Consensus.HeaderSigVerifier
import KleverGo.Sync.Finality
import KleverGo.Pool.Indices
import KleverGo.Transactions.Rejected
import KleverGo.Kvm.Merging
import KleverGo.Kvm.StorageCommit
import KleverGo.Kvm.ManagedBuffers
import KleverGo.Kvm.InstanceTracker
import KleverGo.State.DataTries
import KleverGo.State.CodeReferences
import KleverGo.Trie.MerkleProof
import KleverGo.Trie.PruningSafe
import KleverGo.Trie.SyncComplete
import KleverGo.Pool.Limits
import KleverGo.Storage.PruningStorer
