import KleverGo.Governance.Runs

/-!
# Block attempts and the live parameters

`core/process/block/block.go`: processing, creating, committing and reverting a block, as far as
the proposal parameters are concerned, with the epoch notifier and the fork flags that hang on it
(`eventNotifier/notifier`, `core/fork/forks.go`).

The network parameters are stored in the KApp trie, and the node computes with a copy of its own,
the live set.  The trie is reverted with the accounts; the live set and the fork flags are not,
and every path that abandons a block has to bring them back itself.

A block is its epoch, the epoch start mark and its transactions, of which only those matter that
write the storage of the proposal KApp.  The checks of a block are an input of the model: a
rejected block says at which one.  A chain before the first block has an empty parameter map, which
the source has as a missing trie.
-/

namespace KleverGo.Blocks

open Governance

/-! ## Fork flags -/

/-- `genericEpochNotifier`, with the epoch its subscribers confirmed last.  The two differ after a
start, when the node confirms the epoch of the head and the notifier holds zero. -/
structure EpochNotifier where
  currentEpoch : UInt32
  confirmed : UInt32
  deriving DecidableEq, Repr

/-- `CheckEpoch`: subscribers hear of another epoch only. -/
def EpochNotifier.checkEpoch (notifier : EpochNotifier) (epoch : UInt32) : EpochNotifier :=
  if notifier.currentEpoch = epoch then notifier else ⟨epoch, epoch⟩

/-! ## The node -/

structure Block where
  epoch : UInt32
  isEpochStart : Bool
  transactions : List GovTx

/-- A committed block: its epoch and the tries after it. -/
structure Committed where
  epoch : UInt32
  tries : Chain

/-- The parameters stored in the KApp trie of a block. -/
def Committed.stored (c : Committed) : Parameters := c.tries.proposals.controller.activeParameters

/-- What the block processor keeps: the head and its ancestors, the tries it works on, the epoch
notifier and the live parameters. -/
structure Node where
  head : Committed
  ancestors : List Committed
  working : Chain
  notifier : EpochNotifier
  live : Parameters

section
variable (P : Platform) (cfg : EnableEpochs)

variable (n : Node)

def Node.forks : ForkController := cfg.epochConfirmed n.notifier.confirmed

def reloadProposalParameters : Node :=
  { n with live := (mergeInitialParameters (n.forks cfg)
      n.working.proposals.controller).1.activeParameters }

def revertStateToSnapshot : Node :=
  reloadProposalParameters cfg { n with working := n.head.tries }

def epochToRestore (notifierEpoch headEpoch : UInt32) : UInt32 :=
  if headEpoch ≤ notifierEpoch then notifierEpoch else headEpoch

/-- What a transaction of a block may do here; the start of an epoch is not a transaction. -/
def isTransaction (tx : GovTx) : Bool :=
  match tx.call with
  | .settle => false
  | _ => true

/-- The transactions of a block, under the live parameters. -/
def processBlockTransactions (transactions : List GovTx) : Chain :=
  (transactions.filter isTransaction).foldl
    (fun s tx => attemptGov P (n.forks cfg) s { tx with params := n.live }) n.working

/-- `baseProcessEpochStartBlock` for the start of an epoch, and the transactions of any other
block. -/
def execute (blk : Block) : Except Err Node := do
  if blk.isEpochStart then
    let (working, live) ← processProposalsEndOfEpoch (n.forks cfg) blk.epoch n.working n.live
    pure { n with working := working, live := live }
  else pure { n with working := processBlockTransactions P cfg n blk.transactions }

/-- The checks of `ProcessBlock`: before anything of the node is touched, between the epoch
notifier and the execution, and after the execution. -/
inductive Check where
  | validity | beforeExecution | afterExecution
  deriving DecidableEq, Repr

/-- The checks of the epoch in `validateBlockAgainstCurrentHeader`. -/
def epochValid (head : Committed) (blk : Block) : Bool :=
  !(blk.epoch < head.epoch || head.epoch + 1 < blk.epoch)

/-- The deferred function of `ProcessBlock` after an error; `before` is the node it started
from. -/
def rejectBlock (before n : Node) (blk : Block) : Node :=
  let prevEpoch := epochToRestore before.notifier.currentEpoch before.head.epoch
  let n := { n with notifier := n.notifier.checkEpoch prevEpoch }
  let n := revertStateToSnapshot cfg n
  if blk.isEpochStart then { n with live := before.live } else n

/-- `metaProcessor.ProcessBlock`, with whether the block was accepted. -/
def processBlock (blk : Block) (rejectedAt : Option Check) : Node × Bool :=
  if rejectedAt = some .validity ∨ epochValid n.head blk = false then (n, false)
  else
    let n₁ := { n with notifier := n.notifier.checkEpoch blk.epoch }
    if rejectedAt = some .beforeExecution then (rejectBlock cfg n n₁ blk, false)
    else
      match execute P cfg n₁ blk with
      | .error _ => (rejectBlock cfg n n₁ blk, false)
      | .ok n₂ =>
        if rejectedAt = some .afterExecution then (rejectBlock cfg n n₂ blk, false) else (n₂, true)

/-- `metaProcessor.CreateBlock`, with whether it succeeded. -/
def createBlock (blk : Block) : Node × Bool :=
  let n := { n with notifier := n.notifier.checkEpoch blk.epoch }
  match execute P cfg n blk with
  | .error _ => (n, false)
  | .ok n => (n, true)

def commitBlock (blk : Block) : Node :=
  { n with head := ⟨blk.epoch, n.working⟩, ancestors := n.head :: n.ancestors }

/-- `metaProcessor.RevertStateToBlock` for the parent of the head, as `rollBackOneBlock` calls
it. -/
def revertStateToBlock : Node :=
  match n.ancestors with
  | [] => n
  | parent :: rest =>
    reloadProposalParameters cfg
      { n with head := parent, ancestors := rest, working := parent.tries }

/-- A block attempt, or a rollback of the head. -/
inductive Attempt where
  | process (blk : Block) (rejectedAt : Option Check)
  | create (blk : Block) (commits : Bool)
  | rollback

/-- The node after an attempt: an accepted block is committed, and a block that was created is
committed or given up by a revert to the snapshot. -/
def attempt : Attempt → Node
  | .process blk rejectedAt =>
    let (n', accepted) := processBlock P cfg n blk rejectedAt
    if accepted then commitBlock n' blk else n'
  | .create blk commits =>
    let (n', created) := createBlock P cfg n blk
    if created && commits then commitBlock n' blk else revertStateToSnapshot cfg n'
  | .rollback => revertStateToBlock cfg n

def runAttempts (attempts : List Attempt) : Node := attempts.foldl (attempt P cfg) n

end

/-! ## What the live parameters are for -/

/-- `Create` does not refuse the parameter as unknown: it has a name, and the stored map, which the
values are parsed against, has it. -/
def KnownToCreate (stored : Parameters) (parameter : Int32) : Prop :=
  EnumParameter.ofCode parameter ≠ none ∧
    ∀ value, stored.parseParam parameter value ≠ .error .ErrInvalidParameter

/-- The live parameters follow the head: they are those stored there, with the initial values of
the forks of its epoch filled in, and a proposal can name each of them. -/
structure FollowsHead (cfg : EnableEpochs) (n : Node) : Prop where
  synced : ∀ c, n.live.lookup c =
    (n.head.stored.lookup c).or
      ((initialProposalParameters (cfg.epochConfirmed n.head.epoch)).lookup c)
  known : ∀ c, n.live.lookup c ≠ none → KnownToCreate n.head.stored c

end KleverGo.Blocks
