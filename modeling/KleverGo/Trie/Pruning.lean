import KleverGo.Lib.UnorderedMap
import KleverGo.Trie.Content

/-!
# Pruning of the trie database

Reference model of `markForEviction` of the trie, of `Prune`, `CancelPrune` and the pruning buffer
of `trieStorageManager`, of the eviction waiting list, and of the places that use them: the commit
of a block with `updateStateStorage`, and `rollBackOneBlock` with `PruneStateOnRollback`.

The database is the set of the hashes of its nodes, and `Tries` says which nodes each root reaches.
A commit marks the nodes that its trie gained and lost; no value is ever under two keys, so these
are the differences of the two sets.  The overflow of the waiting list to a database of its own and
the snapshot databases are left out.
-/

namespace KleverGo.Trie

/-- The nodes reachable from each root.  A root whose nodes are all nodes of another trie would have
its values under other keys there. -/
structure Tries where
  nodes : Bytes → Finset Bytes
  nodes_empty : ∀ root, emptyTrie root = true → nodes root = ∅
  eq_of_subset : ∀ root root', emptyTrie root = false → nodes root ⊆ nodes root' → root = root'

inductive TriePruningIdentifier where
  | OldRoot
  | NewRoot
  deriving DecidableEq, Repr

inductive PruningOperation where
  | cancelPrune
  | prune
  deriving DecidableEq, Repr

/-- A root hash with the identifier appended. -/
abbrev EvictionKey := Bytes × TriePruningIdentifier

/-- An entry of the pruning buffer. -/
structure BufferedHash where
  key : EvictionKey
  operation : PruningOperation
  deriving DecidableEq, Repr

abbrev WaitingList := Finmap fun _ : EvictionKey => Finset Bytes

/-- `trieStorageManager` -/
structure StorageManager where
  db : Finset Bytes
  dbEvictionWaitingList : WaitingList
  pruningBuffer : List BufferedHash
  pruningBufferLen : Nat
  pruningBlockingOps : UInt32

/-! ## The eviction waiting list -/

/-- The hashes at a key, none if there is no entry. -/
def WaitingList.hashes (w : WaitingList) (key : EvictionKey) : Finset Bytes :=
  (w.lookup key).getD ∅

/-- `ShouldKeepHash`: among the entries of other old roots nothing is looked for. -/
def WaitingList.shouldKeepHash (w : WaitingList) (hash : Bytes) (identifier : TriePruningIdentifier) :
    Bool :=
  decide (∃ key ∈ w.keys,
    ¬ (key.2 = .OldRoot ∧ identifier = .OldRoot) ∧ hash ∈ w.hashes key)

namespace StorageManager

section

variable (tsm : StorageManager)

def cancelPrune (key : EvictionKey) : StorageManager :=
  { tsm with dbEvictionWaitingList := tsm.dbEvictionWaitingList.erase key }

/-- `prune`, with `removeFromDb`: the entry is evicted, and its hashes are removed from the database
unless another entry asks for them to be kept. -/
def prune (key : EvictionKey) : StorageManager :=
  let w : WaitingList := tsm.dbEvictionWaitingList.erase key
  { tsm with
    dbEvictionWaitingList := w
    db := tsm.db \ (tsm.dbEvictionWaitingList.hashes key).filter
      fun hash => w.shouldKeepHash hash key.2 = false }

/-- One turn of `resolveBufferedHashes`. -/
def resolveBufferedHash (b : BufferedHash) : StorageManager :=
  match b.operation with
  | .prune => tsm.prune b.key
  | .cancelPrune => tsm.cancelPrune b.key

/-- `pruningBuffer.add`: a full buffer drops what is added. -/
def add (b : BufferedHash) : StorageManager :=
  if tsm.pruningBuffer.length = tsm.pruningBufferLen then tsm
  else { tsm with pruningBuffer := tsm.pruningBuffer ++ [b] }

def Prune (rootHash : Bytes) (identifier : TriePruningIdentifier) : StorageManager :=
  if 0 < tsm.pruningBlockingOps then
    if identifier = .NewRoot then tsm.cancelPrune (rootHash, identifier)
    else tsm.add ⟨(rootHash, identifier), .prune⟩
  else
    let resolved := tsm.pruningBuffer.foldl resolveBufferedHash { tsm with pruningBuffer := [] }
    resolved.prune (rootHash, identifier)

def CancelPrune (rootHash : Bytes) (identifier : TriePruningIdentifier) : StorageManager :=
  if 0 < tsm.pruningBlockingOps ∨ tsm.pruningBuffer ≠ [] then
    tsm.add ⟨(rootHash, identifier), .cancelPrune⟩
  else tsm.cancelPrune (rootHash, identifier)

def enterPruningBufferingMode : StorageManager :=
  { tsm with pruningBlockingOps := tsm.pruningBlockingOps + 1 }

def exitPruningBufferingMode : StorageManager :=
  if tsm.pruningBlockingOps < 1 then tsm
  else { tsm with pruningBlockingOps := tsm.pruningBlockingOps - 1 }

/-- `MarkForEviction`, for an entry that is not empty and a root that is there. -/
def mark (key : EvictionKey) (hashes : Finset Bytes) : StorageManager :=
  if hashes ≠ ∅ ∧ key.1 ≠ [] then
    { tsm with dbEvictionWaitingList := tsm.dbEvictionWaitingList.insert key hashes }
  else tsm

/-- `markForEviction` of the trie, after `removeDuplicatedKeys`. -/
def markForEviction (newRoot oldRoot : Bytes) (newHashes oldHashes : Finset Bytes) :
    StorageManager :=
  if newRoot = oldRoot then tsm
  else (tsm.mark (newRoot, .NewRoot) newHashes).mark (oldRoot, .OldRoot) oldHashes

end

end StorageManager

/-! ## Blocks -/

/-- A node with the roots of its blocks, the last one first. -/
structure Ledger where
  tsm : StorageManager
  blocks : List Bytes
  /-- `tr.oldRoot`: the root whose nodes the trie takes note of when they are changed.  A trie that
  is emptied keeps it. -/
  oldRoot : Bytes
  /-- The last block is not above the highest final one, and will not be rolled back. -/
  final : Bool

namespace Ledger

/-- The root of the last committed block. -/
def root (l : Ledger) : Bytes := l.blocks.headD []

def parentRoot (l : Ledger) : Bytes := l.blocks.tail.headD []

def grandparentRoot (l : Ledger) : Bytes := l.blocks.tail.tail.headD []

/-- `Commit` of the trie: nothing is done for an empty one, and otherwise the nodes that are new are
written to the database. -/
def commitTrie (tries : Tries) (l : Ledger) (newRoot : Bytes) : Ledger :=
  if emptyTrie newRoot then l
  else
    let tsm := l.tsm.markForEviction newRoot l.oldRoot
      (tries.nodes newRoot \ tries.nodes l.oldRoot) (tries.nodes l.oldRoot \ tries.nodes newRoot)
    { l with
      tsm := { tsm with db := tsm.db ∪ (tries.nodes newRoot \ tries.nodes l.root) }
      oldRoot := newRoot }

/-- `updateStateStorage` for the last block and its parent. -/
def updateStateStorage (l : Ledger) : Ledger :=
  match l.blocks with
  | rootHash :: prevRootHash :: _ =>
    if prevRootHash = rootHash then l
    else
      { l with tsm := (l.tsm.CancelPrune prevRootHash .NewRoot).Prune prevRootHash .OldRoot }
  | _ => l

/-- `CommitBlock`: the block before becomes final. -/
def commitBlock (tries : Tries) (l : Ledger) (newRoot : Bytes) : Ledger :=
  let l := (l.commitTrie tries newRoot).updateStateStorage
  { l with blocks := newRoot :: l.blocks, final := false }

/-- `rollBackOneBlock`, which is not tried for a final block and fails when the trie of the block
below cannot be recreated. -/
def rollBackOneBlock (l : Ledger) : Ledger :=
  match l.blocks with
  | rootHash :: prevRootHash :: rest =>
    if l.final ∨ ¬ (emptyTrie prevRootHash ∨ prevRootHash ∈ l.tsm.db) then l
    else
      -- `RevertStateToBlock`
      let l := { l with
        blocks := prevRootHash :: rest
        oldRoot := if emptyTrie prevRootHash then [] else prevRootHash
        final := true }
      -- `PruneStateOnRollback`
      if rootHash = prevRootHash then l
      else { l with tsm := (l.tsm.CancelPrune prevRootHash .OldRoot).Prune rootHash .NewRoot }
  | _ => l

end Ledger

inductive PruningStep where
  | commit (newRoot : Bytes)
  | rollBack
  /-- A snapshot or an iteration over the leaves begins. -/
  | enter
  | exit
  deriving DecidableEq, Repr

def Ledger.step (tries : Tries) (l : Ledger) : PruningStep → Ledger
  | .commit newRoot => l.commitBlock tries newRoot
  | .rollBack => l.rollBackOneBlock
  | .enter => { l with tsm := l.tsm.enterPruningBufferingMode }
  | .exit => { l with tsm := l.tsm.exitPruningBufferingMode }

def Ledger.run (tries : Tries) (l : Ledger) (steps : List PruningStep) : Ledger :=
  steps.foldl (Ledger.step tries) l

/-- A node that has only its first block. -/
def Ledger.genesis (tries : Tries) (root : Bytes) (pruningBufferLen : Nat) : Ledger where
  tsm :=
    { db := tries.nodes root
      dbEvictionWaitingList := ∅
      pruningBuffer := []
      pruningBufferLen := pruningBufferLen
      pruningBlockingOps := 0 }
  blocks := [root]
  oldRoot := if emptyTrie root then [] else root
  final := true

end KleverGo.Trie
