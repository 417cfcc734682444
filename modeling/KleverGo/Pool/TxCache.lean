import KleverGo.Core.Bytes
import KleverGo.Lib.UnorderedMap

/-!
# The transaction pool

`storage/txcache`: the transactions of a node by hash and, in sorted lists, by sender, with the
counters over both.  The lists are objects that outlive their entry in the map of senders: selection
collects the lists to be swept later.  They are numbered as they are created, and `lists` is the
heap they live in.

A snapshot of the senders follows the order of their scores, which is a parameter; so are the score
of a list and the readings of the clock.  The sums of sizes stay below `2^63`.
-/

namespace KleverGo.Pool

/-- `WrappedTransaction`, with what the cache reads of the transaction. -/
structure WrappedTransaction where
  txHash : Bytes
  sender : Bytes
  nonce : UInt64
  totalFees : Int
  gasLimit : UInt64
  size : Nat
  expireOn : Int
  deriving DecidableEq, Repr

/-- `Config`, with `senderConstraints` and the score computer. -/
structure Config where
  evictionEnabled : Bool
  (numBytesThreshold countThreshold numSendersToPreemptivelyEvict maxNumTxs maxNumBytes : Nat)
  computeScore : List WrappedTransaction → UInt32

/-- `txListForSender`, without what only selection uses. -/
structure TxListForSender where
  sender : Bytes
  items : List WrappedTransaction := []
  lastComputedScore : UInt32 := 0

def totalSize (txs : List WrappedTransaction) : Nat := (txs.map fun tx => tx.size).sum

namespace TxListForSender

/-- `findInsertionPlace` and the insertion, over the items from the back; `ErrItemAlreadyInCache` is
none. -/
def insertFromBack (tx : WrappedTransaction) :
    List WrappedTransaction → Option (List WrappedTransaction)
  | [] => some [tx]
  | current :: rest =>
    if tx.txHash = current.txHash then none
    else if current.nonce = tx.nonce ∧ tx.totalFees < current.totalFees then
      some (tx :: current :: rest)
    else if current.nonce < tx.nonce then some (tx :: current :: rest)
    else (insertFromBack tx rest).map (current :: ·)

theorem insertFromBack_perm {tx : WrappedTransaction} {r r' : List WrappedTransaction}
    (h : insertFromBack tx r = some r') : r'.Perm (tx :: r) := by
  induction r generalizing r' with
  | nil =>
    cases h
    exact .refl _
  | cons current rest ih =>
    unfold insertFromBack at h
    split at h
    · cases h
    split at h
    · cases h
      exact .refl _
    split at h
    · cases h
      exact .refl _
    obtain ⟨rest', hrest, rfl⟩ := Option.map_eq_some_iff.1 h
    exact ((ih hrest).cons current).trans (.swap tx current rest)

variable (config : Config)

/-- `isCapacityExceeded` of a list. -/
def isCapacityExceeded (items : List WrappedTransaction) : Bool :=
  config.maxNumBytes < totalSize items ∨ config.maxNumTxs < items.length

/-- `applySizeConstraints`: the evicted transactions and the items that stay; `now` is the clock as
it is read at each transaction. -/
def applySizeConstraints (now : WrappedTransaction → Int) (items : List WrappedTransaction) :
    List WrappedTransaction × List WrappedTransaction :=
  if isCapacityExceeded config items = false then ([], items)
  else
    let expired := items.filter fun tx => tx.expireOn < now tx
    let items := items.filter fun tx => ¬ tx.expireOn < now tx
    -- the loop from the back takes one step: an element that was removed has no `Prev`
    if isCapacityExceeded config items = false then (expired, items)
    else (expired ++ items.getLast?.toList, items.dropLast)

def triggerScoreChange (list : TxListForSender) : TxListForSender :=
  { list with lastComputedScore := config.computeScore list.items }

/-- `AddTx`: the evicted transactions and the list; none if the transaction is there already. -/
def addTx (now : WrappedTransaction → Int) (tx : WrappedTransaction) (list : TxListForSender) :
    Option (List WrappedTransaction × TxListForSender) :=
  (insertFromBack tx list.items.reverse).map fun reversed =>
    let (evicted, items) := applySizeConstraints config now reversed.reverse
    (evicted, { list with items }.triggerScoreChange config)

/-- `findListElementWithTx` and the removal: the search ends at a higher nonce. -/
def eraseTx (tx : WrappedTransaction) :
    List WrappedTransaction → Option (List WrappedTransaction)
  | [] => none
  | value :: rest =>
    if value.txHash = tx.txHash then some rest
    else if tx.nonce < value.nonce then none
    else (eraseTx tx rest).map (value :: ·)

def removeTx (tx : WrappedTransaction) (list : TxListForSender) : TxListForSender :=
  match eraseTx tx list.items with
  | none => list
  | some items => { list with items }.triggerScoreChange config

end TxListForSender

/-! ## The map by hash -/

structure TxByHashMap where
  backingMap : Finmap fun _ : Bytes => WrappedTransaction := ∅
  counter : Int := 0
  numBytes : Int := 0

namespace TxByHashMap

def addTx (tx : WrappedTransaction) (txMap : TxByHashMap) : TxByHashMap :=
  if (txMap.backingMap.lookup tx.txHash).isSome then txMap
  else
    { backingMap := txMap.backingMap.insert tx.txHash tx
      counter := txMap.counter + 1
      numBytes := txMap.numBytes + tx.size }

def removeTx (txHash : Bytes) (txMap : TxByHashMap) : TxByHashMap :=
  match txMap.backingMap.lookup txHash with
  | none => txMap
  | some tx =>
    { backingMap := txMap.backingMap.erase txHash
      counter := txMap.counter - 1
      numBytes := txMap.numBytes - tx.size }

def removeTxsBulk (txs : List WrappedTransaction) (txMap : TxByHashMap) : TxByHashMap :=
  txs.foldl (fun txMap tx => txMap.removeTx tx.txHash) txMap

/-- `clear`: the sum of the sizes is not reset. -/
def clear (txMap : TxByHashMap) : TxByHashMap := { txMap with backingMap := ∅, counter := 0 }

end TxByHashMap

/-! ## The map by sender -/

/-- `txListBySenderMap`, with the heap of the lists. -/
structure TxListBySenderMap where
  lists : Nat → TxListForSender := fun _ => { sender := [] }
  numLists : Nat := 0
  backingMap : Finmap fun _ : Bytes => Nat := ∅
  counter : Int := 0

namespace TxListBySenderMap

def setList (list : Nat) (value : TxListForSender) (txMap : TxListBySenderMap) : TxListBySenderMap :=
  { txMap with lists := Function.update txMap.lists list value }

def getOrAddListForSender (sender : Bytes) (txMap : TxListBySenderMap) : Nat × TxListBySenderMap :=
  match txMap.backingMap.lookup sender with
  | some list => (list, txMap)
  | none =>
    (txMap.numLists,
      { lists := Function.update txMap.lists txMap.numLists { sender }
        numLists := txMap.numLists + 1
        backingMap := txMap.backingMap.insert sender txMap.numLists
        counter := txMap.counter + 1 })

/-- `addTx`: the transactions that are evicted. -/
def addTx (config : Config) (now : WrappedTransaction → Int) (tx : WrappedTransaction)
    (txMap : TxListBySenderMap) : List WrappedTransaction × TxListBySenderMap :=
  let (list, txMap) := txMap.getOrAddListForSender tx.sender
  match (txMap.lists list).addTx config now tx with
  | none => ([], txMap)
  | some (evicted, value) => (evicted, txMap.setList list value)

def removeSender (sender : Bytes) (txMap : TxListBySenderMap) : TxListBySenderMap :=
  if (txMap.backingMap.lookup sender).isSome then
    { txMap with
      backingMap := txMap.backingMap.erase sender
      counter := txMap.counter - 1 }
  else txMap

def removeSendersBulk (senders : List Bytes) (txMap : TxListBySenderMap) : TxListBySenderMap :=
  senders.foldl (fun txMap sender => txMap.removeSender sender) txMap

/-- Write a list and remove its sender if it is empty. -/
def setListOrRemove (list : Nat) (value : TxListForSender) (txMap : TxListBySenderMap) :
    TxListBySenderMap :=
  if value.items = [] then (txMap.setList list value).removeSender value.sender
  else txMap.setList list value

def removeTx (config : Config) (tx : WrappedTransaction) (txMap : TxListBySenderMap) :
    TxListBySenderMap :=
  match txMap.backingMap.lookup tx.sender with
  | none => txMap
  | some list => txMap.setListOrRemove list ((txMap.lists list).removeTx config tx)

/-- `removeTxLowerNonce`: the transactions that are removed. -/
def removeTxLowerNonce (config : Config) (sender : Bytes) (nonce : UInt64)
    (txMap : TxListBySenderMap) : List WrappedTransaction × TxListBySenderMap :=
  match txMap.backingMap.lookup sender with
  | none => ([], txMap)
  | some list =>
    let value := txMap.lists list
    (value.items.takeWhile fun tx => tx.nonce ≤ nonce, txMap.setListOrRemove list
      ({ value with items := value.items.dropWhile fun tx => tx.nonce ≤ nonce }.triggerScoreChange
        config))

/-- A snapshot of the lists, each once, with the senders in some order. -/
def snapshot (order : List Bytes) (txMap : TxListBySenderMap) : List Nat :=
  order.dedup.filterMap fun sender => txMap.backingMap.lookup sender

def clear (txMap : TxListBySenderMap) : TxListBySenderMap :=
  { txMap with backingMap := ∅, counter := 0 }

end TxListBySenderMap

/-! ## The cache -/

structure TxCache where
  txListBySender : TxListBySenderMap := {}
  txByHash : TxByHashMap := {}
  sweepingListOfSenders : List Nat := []

/-- `GetUint64` of a counter, as `NumBytes`, `CountTx` and `CountSenders` read theirs. -/
def counterValue (counter : Int) : Nat := counter.toNat

namespace TxCache

/-- `isCapacityExceeded` of the cache. -/
def isCapacityExceeded (config : Config) (cache : TxCache) : Bool :=
  config.numBytesThreshold < counterValue cache.txByHash.numBytes ∨
    config.countThreshold < counterValue cache.txListBySender.counter ∨
    config.countThreshold < counterValue cache.txByHash.counter

def evictSendersAndTheirTxs (lists : List Nat) (cache : TxCache) : TxCache :=
  let values := lists.map cache.txListBySender.lists
  { cache with
    txByHash := cache.txByHash.removeTxsBulk (values.flatMap fun value => value.items)
    txListBySender := cache.txListBySender.removeSendersBulk (values.map fun value => value.sender) }

/-- The loop of `evictSendersWhile`, with what is left of the snapshot. -/
def evictSendersWhile (config : Config) : Nat → List Nat → TxCache → TxCache
  | 0, _, cache => cache
  | fuel + 1, snapshot, cache =>
    if cache.isCapacityExceeded config = false then cache
    else
      let batchSize := config.numSendersToPreemptivelyEvict
      let evicted := cache.evictSendersAndTheirTxs (snapshot.take batchSize)
      let noTxsEvicted := evicted.txByHash.counter = cache.txByHash.counter
      let incompleteBatch :=
        cache.txListBySender.counter - evicted.txListBySender.counter < batchSize
      if noTxsEvicted ∨ incompleteBatch then evicted
      else evictSendersWhile config fuel (snapshot.drop batchSize) evicted

/-- `doEviction`; every batch but the last one has a sender. -/
def doEviction (config : Config) (order : List Bytes) (cache : TxCache) : TxCache :=
  let snapshot := cache.txListBySender.snapshot order
  evictSendersWhile config (snapshot.length + 1) snapshot cache

def sweepSweepable (cache : TxCache) : TxCache :=
  { cache.evictSendersAndTheirTxs cache.sweepingListOfSenders with sweepingListOfSenders := [] }

def addTx (config : Config) (order : List Bytes) (now : WrappedTransaction → Int)
    (tx : WrappedTransaction) (cache : TxCache) : TxCache :=
  let cache := if config.evictionEnabled then cache.doEviction config order else cache
  let (evicted, txListBySender) := cache.txListBySender.addTx config now tx
  { cache with
    txListBySender
    txByHash := (cache.txByHash.addTx tx).removeTxsBulk evicted }

def removeTxByHash (config : Config) (txHash : Bytes) (cache : TxCache) : TxCache :=
  match cache.txByHash.backingMap.lookup txHash with
  | none => cache
  | some tx =>
    { cache with
      txByHash := cache.txByHash.removeTx txHash
      txListBySender := cache.txListBySender.removeTx config tx }

def removeTxBySenderNonce (config : Config) (sender : Bytes) (nonce : UInt64) (cache : TxCache) :
    TxCache :=
  let (removed, txListBySender) := cache.txListBySender.removeTxLowerNonce config sender nonce
  { cache with txListBySender, txByHash := cache.txByHash.removeTxsBulk removed }

/-- The round of `cleanExpiredTransactions` for one list, with `processExpiredForSender`; a sender
is removed when its last transactions have expired. -/
def cleanExpiredOf (currentTime : Int) (cache : TxCache) (list : Nat) : TxCache :=
  let value := cache.txListBySender.lists list
  let expired := value.items.filter fun tx => tx.expireOn < currentTime
  if expired = [] then cache
  else { cache with
    txByHash := cache.txByHash.removeTxsBulk expired
    txListBySender := cache.txListBySender.setListOrRemove list
      { value with items := value.items.filter fun tx => ¬ tx.expireOn < currentTime } }

/-- `cleanExpiredTransactions`: what is done list by list here is collected and done at the end
there, which is the same for distinct lists. -/
def cleanExpiredTransactions (currentTime : Int) (order : List Bytes) (cache : TxCache) : TxCache :=
  (cache.txListBySender.snapshot order).foldl (cleanExpiredOf currentTime) cache

def clear (cache : TxCache) : TxCache :=
  { cache with
    txListBySender := cache.txListBySender.clear
    txByHash := cache.txByHash.clear }

end TxCache

end KleverGo.Pool
