import KleverGo.Lib.KeyedTotals
import KleverGo.Pool.TxCache

/-!
# The indices of the pool

The map by hash and the lists by sender hold the same transactions, and the counters count them, as
long as three things do not happen: adding a transaction leaves its sender without any, the pool is
cleared while it has bytes, or a list is swept that is no longer the list of its sender.  `Sound` is
the invariant behind `Agrees`; every call keeps it unless it is one of these (`Harmless`).

* `indices_agree_iff` — **in every run from an empty pool, the indices agree after each call exactly
  if each call is harmless in the state it finds**;
* `oversized_leaves_sender` — a transaction above the limit of its sender leaves an empty list.
-/

namespace KleverGo.Pool

open Finmap List Function

/-- The order of a sender's list: by nonce, then by descending fee. -/
def Before (a b : WrappedTransaction) : Prop :=
  a.nonce < b.nonce ∨ a.nonce = b.nonce ∧ b.totalFees ≤ a.totalFees

namespace TxListForSender

variable {tx : WrappedTransaction}

variable {r : List WrappedTransaction}

/-- A transaction that is there, with its nonce and fee, is found. -/
theorem insertFromBack_eq_none {stored : WrappedTransaction} (hr : r.Pairwise fun a b => Before b a)
    (hmem : stored ∈ r)
    (hsame : stored.txHash = tx.txHash ∧ stored.nonce = tx.nonce ∧
      stored.totalFees = tx.totalFees) :
    insertFromBack tx r = none := by
  induction r with
  | nil => cases hmem
  | cons current rest ih =>
    obtain ⟨hcurrent, hrest⟩ := pairwise_cons.1 hr
    unfold insertFromBack
    split
    · rfl
    have hmem : stored ∈ rest := by grind
    have hbefore := hcurrent stored hmem
    have hno : ¬ (current.nonce = tx.nonce ∧ tx.totalFees < current.totalFees) ∧
        ¬ current.nonce < tx.nonce := by
      unfold Before at hbefore
      grind
    rw [if_neg hno.1, if_neg hno.2, ih hrest hmem, Option.map_none]

theorem insertFromBack_spec (hr : r.Pairwise fun a b => Before b a)
    (hnew : ∀ stored ∈ r, stored.txHash ≠ tx.txHash) :
    ∃ r', insertFromBack tx r = some r' ∧ r'.Pairwise fun a b => Before b a := by
  induction r with
  | nil => exact ⟨[tx], rfl, pairwise_singleton ..⟩
  | cons current rest ih =>
    obtain ⟨hcurrent, hrest⟩ := pairwise_cons.1 hr
    obtain ⟨r', heq, hsorted⟩ := ih hrest fun stored h => hnew stored (mem_cons_of_mem _ h)
    unfold insertFromBack
    rw [if_neg fun h => hnew current mem_cons_self h.symm]
    by_cases hstop : (current.nonce = tx.nonce ∧ tx.totalFees < current.totalFees) ∨
        current.nonce < tx.nonce
    · refine ⟨tx :: current :: rest, by grind, pairwise_cons.2 ⟨fun y hy => ?_, hr⟩⟩
      unfold Before at hcurrent ⊢
      grind
    · refine ⟨current :: r', by grind, pairwise_cons.2 ⟨fun y hy => ?_, hsorted⟩⟩
      have hmem := (insertFromBack_perm heq).mem_iff.1 hy
      unfold Before at hcurrent ⊢
      grind

variable {items : List WrappedTransaction}

theorem eraseTx_eq (hsorted : items.Pairwise Before)
    (hdistinct : items.Pairwise fun a b => a.txHash ≠ b.txHash) (hmem : tx ∈ items) :
    eraseTx tx items = some (items.filter fun value => value.txHash ≠ tx.txHash) := by
  induction items with
  | nil => cases hmem
  | cons value rest ih =>
    rw [pairwise_cons] at hsorted hdistinct
    unfold eraseTx
    by_cases hhash : value.txHash = tx.txHash
    · rw [if_pos hhash, filter_cons_of_neg (by simpa using hhash)]
      refine congrArg some (filter_eq_self.2 fun y hy => ?_).symm
      have := hdistinct.1 y hy
      grind
    have hrest : tx ∈ rest := by grind
    have hbefore := hsorted.1 tx hrest
    have hno : ¬ tx.nonce < value.nonce := by unfold Before at hbefore; grind
    rw [if_neg hhash, if_neg hno, ih hsorted.2 hdistinct.2 hrest,
      filter_cons_of_pos (by simpa using hhash), Option.map_some]

theorem dropWhile_eq_filter (hsorted : items.Pairwise Before) (nonce : UInt64) :
    items.dropWhile (fun tx => tx.nonce ≤ nonce) = items.filter (fun tx => ¬ tx.nonce ≤ nonce) ∧
      items.takeWhile (fun tx => tx.nonce ≤ nonce) = items.filter (fun tx => tx.nonce ≤ nonce) := by
  induction items with
  | nil => exact ⟨rfl, rfl⟩
  | cons value rest ih =>
    rw [pairwise_cons] at hsorted
    obtain ⟨hdrop, htake⟩ := ih hsorted.2
    by_cases hle : value.nonce ≤ nonce
    · simp [hle, htake]
      simpa using hdrop
    have hall : ∀ y ∈ rest, ¬ y.nonce ≤ nonce := by
      intro y hy
      have := hsorted.1 y hy
      unfold Before at this
      grind
    simp only [dropWhile_cons, takeWhile_cons, hle, decide_false, Bool.false_eq_true,
      if_false, filter_cons, not_false_eq_true, decide_true, if_true]
    refine ⟨congrArg _ (filter_eq_self.2 fun y hy => by simpa using hall y hy).symm, ?_⟩
    exact (filter_eq_nil_iff.2 fun y hy => by simpa using hall y hy).symm

end TxListForSender

/-! ## The two maps -/

namespace TxByHashMap

structure Counted (txMap : TxByHashMap) : Prop where
  txs : txMap.counter = txMap.backingMap.total fun _ => 1
  bytes : txMap.numBytes = txMap.backingMap.total WrappedTransaction.size

theorem removeTx_spec (txHash : Bytes) (txMap : TxByHashMap) :
    (∀ h, (txMap.removeTx txHash).backingMap.lookup h =
      if h = txHash then none else txMap.backingMap.lookup h) ∧
    (txMap.Counted → (txMap.removeTx txHash).Counted) := by
  unfold removeTx
  cases hstored : txMap.backingMap.lookup txHash with
  | none => exact ⟨by grind, id⟩
  | some tx =>
    refine ⟨fun h => lookup_erase_ite .., fun ⟨htxs, hbytes⟩ => ⟨?_, ?_⟩⟩
    · have := total_erase (f := fun _ => 1) hstored
      dsimp only
      omega
    · have := total_erase (f := WrappedTransaction.size) hstored
      dsimp only
      omega

/-- `RemoveTxsBulk` removes the hashes and keeps the counters exact. -/
theorem removeTxsBulk_spec (txs : List WrappedTransaction) (txMap : TxByHashMap) :
    (∀ h, (txMap.removeTxsBulk txs).backingMap.lookup h =
      if h ∈ txs.map WrappedTransaction.txHash then none else txMap.backingMap.lookup h) ∧
    (txMap.Counted → (txMap.removeTxsBulk txs).Counted) := by
  induction txs generalizing txMap with
  | nil => exact ⟨fun _ => rfl, id⟩
  | cons tx txs ih =>
    obtain ⟨hlookup, hcounted⟩ := ih (txMap.removeTx tx.txHash)
    obtain ⟨hlookup', hcounted'⟩ := removeTx_spec tx.txHash txMap
    refine ⟨fun h => ?_, hcounted ∘ hcounted'⟩
    rw [removeTxsBulk, foldl_cons, ← removeTxsBulk, hlookup, hlookup']
    grind

end TxByHashMap

namespace TxListBySenderMap

variable {txMap : TxListBySenderMap} {sender : Bytes} {list : Nat} {value : TxListForSender}

/-- The transactions of a sender. -/
def pool (txMap : TxListBySenderMap) (sender : Bytes) : List WrappedTransaction :=
  ((txMap.backingMap.lookup sender).map fun list => (txMap.lists list).items).getD []

/-- Every list of the map is that of its sender, and the senders are counted. -/
structure Owned (txMap : TxListBySenderMap) : Prop where
  list : ∀ {sender list}, txMap.backingMap.lookup sender = some list →
    list < txMap.numLists ∧ (txMap.lists list).sender = sender
  senders : txMap.counter = txMap.backingMap.total fun _ => 1

/-- Every sender has a transaction. -/
def Occupied (txMap : TxListBySenderMap) : Prop :=
  ∀ sender list, txMap.backingMap.lookup sender = some list → txMap.pool sender ≠ []

theorem pool_eq (h : txMap.backingMap.lookup sender = some list) :
    txMap.pool sender = (txMap.lists list).items := by
  simp [pool, h]

theorem lookup_of_mem {tx : WrappedTransaction} (h : tx ∈ txMap.pool sender) :
    ∃ list, txMap.backingMap.lookup sender = some list := by
  unfold pool at h
  cases hlookup : txMap.backingMap.lookup sender with
  | none => simp [hlookup] at h
  | some list => exact ⟨list, rfl⟩

theorem removeSendersBulk_spec (senders : List Bytes) (txMap : TxListBySenderMap) :
    (txMap.removeSendersBulk senders).lists = txMap.lists ∧
    (∀ s, (txMap.removeSendersBulk senders).backingMap.lookup s =
      if s ∈ senders then none else txMap.backingMap.lookup s) ∧
    (txMap.Owned → (txMap.removeSendersBulk senders).Owned) := by
  induction senders generalizing txMap with
  | nil => exact ⟨rfl, fun _ => rfl, id⟩
  | cons sender senders ih =>
    have hone : (txMap.removeSender sender).lists = txMap.lists ∧
        (∀ s, (txMap.removeSender sender).backingMap.lookup s =
          if s = sender then none else txMap.backingMap.lookup s) ∧
        (txMap.Owned → (txMap.removeSender sender).Owned) := by
      unfold removeSender
      cases hlist : txMap.backingMap.lookup sender with
      | none => exact ⟨rfl, by grind, id⟩
      | some list =>
        rw [if_pos Option.isSome_some]
        refine ⟨rfl, fun s => lookup_erase_ite .., fun h => ⟨fun {s l} hl => ?_, ?_⟩⟩
        · rw [lookup_erase_ite] at hl
          split at hl
          · cases hl
          · exact h.list hl
        · have := total_erase (f := fun _ => 1) hlist
          have := h.senders
          dsimp only
          omega
    obtain ⟨hlists, hlookup, howned⟩ := ih (txMap.removeSender sender)
    rw [removeSendersBulk, foldl_cons, ← removeSendersBulk]
    refine ⟨hlists.trans hone.1, fun s => ?_, howned ∘ hone.2.2⟩
    rw [hlookup, hone.2.1]
    grind

theorem pool_removeSendersBulk (senders : List Bytes) (s : Bytes) :
    (txMap.removeSendersBulk senders).pool s = if s ∈ senders then [] else txMap.pool s := by
  obtain ⟨hlists, hlookup, -⟩ := removeSendersBulk_spec senders txMap
  rw [pool, hlists, hlookup, pool]
  split <;> rfl

theorem Owned.setList (h : txMap.Owned) (hlist : txMap.backingMap.lookup sender = some list)
    (hsender : value.sender = sender) :
    (txMap.setList list value).Owned ∧
      ∀ s, (txMap.setList list value).pool s =
        if s = sender then value.items else txMap.pool s := by
  have hown := (h.list hlist).2
  refine ⟨⟨fun {s list'} hlist' => ⟨(h.list hlist').1, ?_⟩, h.senders⟩, fun s => ?_⟩
  · have := (h.list hlist').2
    simp only [TxListBySenderMap.setList, update_apply]
    grind
  unfold pool
  simp only [TxListBySenderMap.setList]
  cases hlookup : txMap.backingMap.lookup s with
  | none => grind
  | some list' =>
    have := (h.list hlookup).2
    simp only [Option.map_some, Option.getD_some, update_apply]
    grind

theorem Owned.setListOrRemove (h : txMap.Owned) (hoccupied : txMap.Occupied)
    (hlist : txMap.backingMap.lookup sender = some list) (hsender : value.sender = sender) :
    (txMap.setListOrRemove list value).Owned ∧ (txMap.setListOrRemove list value).Occupied ∧
      ∀ s, (txMap.setListOrRemove list value).pool s =
        if s = sender then value.items else txMap.pool s := by
  obtain ⟨howned, hpool⟩ := h.setList hlist hsender
  unfold TxListBySenderMap.setListOrRemove
  split
  · next hempty =>
    obtain ⟨-, hlookup, howned'⟩ := removeSendersBulk_spec [value.sender] (txMap.setList list value)
    have hpool' : ∀ s, ((txMap.setList list value).removeSender value.sender).pool s =
        if s = sender then value.items else txMap.pool s := by
      intro s
      refine (pool_removeSendersBulk [value.sender] s).trans ?_
      rw [hpool, hsender]
      grind
    refine ⟨howned' howned, fun s list' hlist' => ?_, hpool'⟩
    have hs : s ≠ sender := by
      rintro rfl
      rw [← hsender] at hlist'
      exact absurd ((hlookup _).symm.trans hlist') (by simp)
    rw [hpool', if_neg hs]
    refine hoccupied s list' ?_
    rw [← hlist']
    refine Eq.trans ?_ (hlookup s).symm
    simp [hsender, hs, TxListBySenderMap.setList]
  · next hne =>
    refine ⟨howned, fun s list' hlist' => ?_, hpool⟩
    rw [hpool]
    split
    · exact hne
    · exact hoccupied s list' hlist'

/-- `getOrAddListForSender` finds the list of the sender, or makes an empty one. -/
theorem Owned.getOrAdd (h : txMap.Owned) (sender : Bytes) :
    (txMap.getOrAddListForSender sender).2.Owned ∧
    (txMap.getOrAddListForSender sender).2.backingMap.lookup sender =
      some (txMap.getOrAddListForSender sender).1 ∧
    (∀ s, (txMap.getOrAddListForSender sender).2.pool s = txMap.pool s) ∧
    ∀ s list, s ≠ sender → (txMap.getOrAddListForSender sender).2.backingMap.lookup s = some list →
      txMap.backingMap.lookup s = some list := by
  unfold getOrAddListForSender
  cases hlist : txMap.backingMap.lookup sender with
  | some list => exact ⟨h, hlist, fun _ => rfl, fun _ _ _ h => h⟩
  | none =>
    have hother : ∀ {s list}, txMap.backingMap.lookup s = some list →
        update txMap.lists txMap.numLists { sender } list = txMap.lists list :=
      fun hs => update_of_ne (Nat.ne_of_lt (h.list hs).1) ..
    refine ⟨⟨fun {s list} hs => ?_, ?_⟩, lookup_insert _, fun s => ?_, fun s list hs => ?_⟩
    · dsimp only at hs ⊢
      rw [lookup_insert_ite] at hs
      split at hs
      · next heq =>
        cases hs
        exact ⟨Nat.lt_succ_self _, by rw [update_self, heq]⟩
      · rw [hother hs]
        exact ⟨Nat.lt_succ_of_lt (h.list hs).1, (h.list hs).2⟩
    · rw [total_insert hlist, h.senders]
      rfl
    · unfold pool
      dsimp only
      rw [lookup_insert_ite]
      split
      · next heq =>
        subst heq
        simp [hlist]
      · cases hs : txMap.backingMap.lookup s with
        | none => rfl
        | some list => simp [hother hs]
    · rw [lookup_insert_ite, if_neg hs]
      exact id

end TxListBySenderMap

namespace TxCache

open TxListBySenderMap (Owned Occupied pool_eq lookup_of_mem removeSendersBulk_spec)
open TxListForSender (applySizeConstraints)
open TxByHashMap (Counted)

/-- The transactions of a sender, and that of a hash. -/
abbrev pool (cache : TxCache) : Bytes → List WrappedTransaction := cache.txListBySender.pool

abbrev byHash (cache : TxCache) (txHash : Bytes) : Option WrappedTransaction :=
  cache.txByHash.backingMap.lookup txHash

/-- The indices agree and the counters are exact. -/
structure Agrees (cache : TxCache) : Prop where
  indices : ∀ tx, (∃ txHash, cache.byHash txHash = some tx) ↔ ∃ sender, tx ∈ cache.pool sender
  nonEmpty : cache.txListBySender.Occupied
  countTx : counterValue cache.txByHash.counter = cache.txByHash.backingMap.keys.card
  countSenders : counterValue cache.txListBySender.counter =
    cache.txListBySender.backingMap.keys.card
  numBytes : counterValue cache.txByHash.numBytes =
    cache.txByHash.backingMap.total WrappedTransaction.size
  sorted : ∀ sender, (cache.pool sender).Pairwise Before

/-- What a hash stands for: a sender, a nonce and a fee. -/
abbrev Content := Bytes → Bytes × UInt64 × Int

/-- Two indices over the same transactions, each with the content its hash stands for. -/
structure Matched (content : Content) (pool : Bytes → List WrappedTransaction)
    (byHash : Bytes → Option WrappedTransaction) : Prop where
  indexed : ∀ {txHash tx}, byHash txHash = some tx ↔ tx.txHash = txHash ∧ tx ∈ pool tx.sender
  mine : ∀ {sender tx}, tx ∈ pool sender → tx.sender = sender
  genuine : ∀ {sender tx}, tx ∈ pool sender →
    content tx.txHash = (tx.sender, tx.nonce, tx.totalFees)
  distinct : ∀ sender, (pool sender).Pairwise fun a b => a.txHash ≠ b.txHash
  sorted : ∀ sender, (pool sender).Pairwise Before

structure Sound (content : Content) (cache : TxCache) : Prop where
  owned : cache.txListBySender.Owned
  occupied : cache.txListBySender.Occupied
  matched : Matched content cache.pool cache.byHash
  counted : cache.txByHash.Counted

variable {content : Content} {cache : TxCache}

theorem Sound.agrees (h : Sound content cache) : cache.Agrees := by
  refine ⟨fun tx => ⟨?_, ?_⟩, h.occupied, ?_, ?_, ?_, h.matched.sorted⟩
  · rintro ⟨txHash, hlookup⟩
    exact ⟨tx.sender, (h.matched.indexed.1 hlookup).2⟩
  · rintro ⟨sender, hmem⟩
    exact ⟨tx.txHash, h.matched.indexed.2 ⟨rfl, by rwa [h.matched.mine hmem]⟩⟩
  · rw [counterValue, h.counted.txs, card_keys, Int.toNat_natCast]
  · rw [counterValue, h.owned.senders, card_keys, Int.toNat_natCast]
  · rw [counterValue, h.counted.bytes, Int.toNat_natCast]

variable {pool : Bytes → List WrappedTransaction} {byHash : Bytes → Option WrappedTransaction}

theorem Matched.found (h : Matched content pool byHash) {sender : Bytes} {tx : WrappedTransaction}
    (htx : tx ∈ pool sender) : byHash tx.txHash = some tx :=
  h.indexed.2 ⟨rfl, (h.mine htx).symm ▸ htx⟩

variable {pool' : Bytes → List WrappedTransaction} {byHash' : Bytes → Option WrappedTransaction}

theorem Matched.filter (h : Matched content pool byHash) (keep : WrappedTransaction → Bool)
    (hpool : ∀ sender, pool' sender = (pool sender).filter keep)
    (hbyHash : ∀ txHash tx, byHash' txHash = some tx ↔ byHash txHash = some tx ∧ keep tx = true) :
    Matched content pool' byHash' := by
  refine ⟨fun {txHash tx} => ?_, fun hmem => ?_, fun hmem => ?_, fun sender => ?_, fun sender => ?_⟩
  · rw [hbyHash, h.indexed, hpool, mem_filter, and_assoc]
  · exact h.mine (mem_filter.1 (hpool _ ▸ hmem)).1
  · exact h.genuine (mem_filter.1 (hpool _ ▸ hmem)).1
  · exact hpool sender ▸ (h.distinct sender).filter _
  · exact hpool sender ▸ (h.sorted sender).filter _

/-- Transactions of one sender are removed from its list and from the map by hash. -/
theorem Sound.shrink (h : Sound content cache) {sender : Bytes} {list : Nat}
    {value : TxListForSender} (hlist : cache.txListBySender.backingMap.lookup sender = some list)
    (keep : WrappedTransaction → Bool) (removed : List WrappedTransaction)
    (hsender : value.sender = (cache.txListBySender.lists list).sender)
    (hitems : value.items = (cache.pool sender).filter keep)
    (hremoved : ∀ tx, tx ∈ removed ↔ tx ∈ cache.pool sender ∧ keep tx = false) :
    Sound content { cache with
      txListBySender := cache.txListBySender.setListOrRemove list value
      txByHash := cache.txByHash.removeTxsBulk removed } := by
  obtain ⟨howned, hoccupied, hpool⟩ := h.owned.setListOrRemove h.occupied hlist
    (hsender.trans (h.owned.list hlist).2)
  obtain ⟨hlookup, hcounted⟩ := TxByHashMap.removeTxsBulk_spec removed cache.txByHash
  refine ⟨howned, hoccupied, h.matched.filter
    (fun tx => decide (tx.sender = sender → keep tx = true)) (fun s => ?_) (fun txHash tx => ?_),
    hcounted h.counted⟩
  · refine (hpool s).trans ?_
    split
    · next hs =>
      rw [hs, hitems]
      exact filter_congr fun tx htx => by simp [h.matched.mine htx]
    · next hs =>
      exact (filter_eq_self.2 fun tx htx => by simp [h.matched.mine htx, hs]).symm
  · rw [byHash, hlookup, decide_eq_true_iff]
    constructor
    · intro hkept
      split at hkept
      · cases hkept
      next hnot =>
      refine ⟨hkept, fun hs => ?_⟩
      obtain ⟨rfl, hmem⟩ := h.matched.indexed.1 hkept
      by_contra hkeep
      exact hnot (mem_map.2 ⟨tx, (hremoved tx).2 ⟨hs ▸ hmem, by simpa using hkeep⟩, rfl⟩)
    · rintro ⟨hstored, hkeep⟩
      refine (if_neg fun hin => ?_).trans hstored
      obtain ⟨tx', htx', rfl⟩ := mem_map.1 hin
      obtain ⟨hmem, hnot⟩ := (hremoved tx').1 htx'
      obtain rfl := Option.some.inj ((h.matched.found hmem).symm.trans hstored)
      exact Bool.false_ne_true (hnot.symm.trans (hkeep (h.matched.mine hmem)))

/-! ## Eviction and sweeping -/

section

variable (cache : TxCache) (lists : List Nat)

/-- The senders of some lists, and the hashes in them. -/
def sendersOf : List Bytes :=
  (lists.map cache.txListBySender.lists).map fun value => value.sender

def hashesOf : List Bytes :=
  ((lists.map cache.txListBySender.lists).flatMap fun value => value.items).map
    WrappedTransaction.txHash

/-- Some lists hold the pooled transactions of their senders, and no others. -/
def Covers : Prop :=
  ∀ txHash tx, cache.byHash txHash = some tx →
    (tx.sender ∈ cache.sendersOf lists ↔ txHash ∈ cache.hashesOf lists)

end

/-- Evicting lists keeps the invariant if they are the lists of their senders, and otherwise leaves
the indices in disagreement. -/
theorem Sound.evict (h : Sound content cache) (lists : List Nat) :
    ((cache.evictSendersAndTheirTxs lists).Agrees ↔ cache.Covers lists) ∧
      (cache.Covers lists → Sound content (cache.evictSendersAndTheirTxs lists)) := by
  obtain ⟨-, hsenders, howned⟩ := removeSendersBulk_spec (cache.sendersOf lists)
    cache.txListBySender
  obtain ⟨hbyHash, hcounted⟩ := TxByHashMap.removeTxsBulk_spec
    ((lists.map cache.txListBySender.lists).flatMap fun value => value.items) cache.txByHash
  have hpool : ∀ s, (cache.evictSendersAndTheirTxs lists).pool s =
      if s ∈ cache.sendersOf lists then [] else cache.pool s :=
    TxListBySenderMap.pool_removeSendersBulk (cache.sendersOf lists)
  have hbyHash : ∀ txHash, (cache.evictSendersAndTheirTxs lists).byHash txHash =
      if txHash ∈ cache.hashesOf lists then none else cache.byHash txHash := hbyHash
  have hkeep : cache.Covers lists → Sound content (cache.evictSendersAndTheirTxs lists) := by
    intro hcovers
    refine ⟨howned h.owned, fun s list hlist => ?_,
      h.matched.filter (fun tx => tx.sender ∉ cache.sendersOf lists) (fun s => ?_)
        (fun txHash tx => ?_), hcounted h.counted⟩
    · have hlookup := (hsenders s).symm.trans hlist
      split at hlookup
      · cases hlookup
      next hs =>
      intro hempty
      have hpool := (hpool s).symm.trans hempty
      rw [if_neg hs] at hpool
      exact h.occupied s list hlookup hpool
    · rw [hpool]
      split
      · next hs =>
        exact (filter_eq_nil_iff.2 fun tx htx => by simpa [h.matched.mine htx] using hs).symm
      · next hs =>
        exact (filter_eq_self.2 fun tx htx => by simpa [h.matched.mine htx] using hs).symm
    · rw [hbyHash]
      have := hcovers txHash tx
      grind
  refine ⟨⟨fun hagrees txHash tx hlookup => ?_, fun hcovers => (hkeep hcovers).agrees⟩, hkeep⟩
  obtain ⟨rfl, hmem⟩ := h.matched.indexed.1 hlookup
  constructor
  · intro hsender
    by_contra hhash
    obtain ⟨s, hin⟩ := (hagrees.indices tx).1 ⟨tx.txHash, by rw [hbyHash, if_neg hhash, hlookup]⟩
    rw [hpool] at hin
    split at hin
    · cases hin
    · next hno => exact hno (h.matched.mine hin ▸ hsender)
  · intro hhash
    by_contra hsender
    obtain ⟨txHash, hin⟩ := (hagrees.indices tx).2 ⟨tx.sender, by rwa [hpool, if_neg hsender]⟩
    rw [hbyHash] at hin
    split at hin
    · cases hin
    · next hno => exact hno ((h.matched.indexed.1 hin).1 ▸ hhash)

/-- A list that holds the pooled transactions of its sender. -/
def Faithful (cache : TxCache) (list : Nat) : Prop :=
  ∀ txHash tx, cache.byHash txHash = some tx →
    (tx.sender = (cache.txListBySender.lists list).sender ↔
      txHash ∈ (cache.txListBySender.lists list).items.map WrappedTransaction.txHash)

/-- It stays so when others are evicted: transactions are only removed. -/
theorem Faithful.evict {list : Nat} (h : cache.Faithful list) (lists : List Nat) :
    (cache.evictSendersAndTheirTxs lists).Faithful list := by
  obtain ⟨hlists, -⟩ := removeSendersBulk_spec (cache.sendersOf lists)
    cache.txListBySender
  obtain ⟨hbyHash, -⟩ := TxByHashMap.removeTxsBulk_spec
    ((lists.map cache.txListBySender.lists).flatMap fun value => value.items) cache.txByHash
  intro txHash tx hlookup
  have hstored := (hbyHash txHash).symm.trans hlookup
  split at hstored
  · cases hstored
  change tx.sender = ((cache.txListBySender.removeSendersBulk (cache.sendersOf lists)).lists
    list).sender ↔ txHash ∈ ((cache.txListBySender.removeSendersBulk
      (cache.sendersOf lists)).lists list).items.map _
  rw [hlists]
  exact h txHash tx hstored

theorem covers_of_faithful {lists : List Nat} (h : ∀ list ∈ lists, cache.Faithful list) :
    cache.Covers lists := by
  intro txHash tx hlookup
  simp only [sendersOf, hashesOf, mem_map, mem_flatMap, exists_exists_and_eq_and]
  have := fun list hlist => h list hlist txHash tx hlookup
  simp only [mem_map] at this
  grind

theorem Sound.faithful (h : Sound content cache) {order : List Bytes} :
    ∀ list ∈ cache.txListBySender.snapshot order, cache.Faithful list := by
  intro list hlist txHash tx hlookup
  obtain ⟨sender, -, hsender⟩ := mem_filterMap.1 hlist
  obtain ⟨rfl, hmem⟩ := h.matched.indexed.1 hlookup
  rw [(h.owned.list hsender).2, ← pool_eq hsender, mem_map]
  refine ⟨fun heq => ⟨tx, heq ▸ hmem, rfl⟩, ?_⟩
  rintro ⟨tx', htx', hhash⟩
  obtain rfl := Option.some.inj ((h.matched.found htx').symm.trans (hhash ▸ hlookup))
  exact h.matched.mine htx'

theorem Sound.doEviction (h : Sound content cache) (config : Config) (order : List Bytes) :
    Sound content (cache.doEviction config order) := by
  have hloop : ∀ (fuel : Nat) (snapshot : List Nat) (cache : TxCache), Sound content cache →
      (∀ list ∈ snapshot, cache.Faithful list) →
      Sound content (evictSendersWhile config fuel snapshot cache) := by
    intro fuel
    induction fuel with
    | zero => exact fun _ _ h _ => h
    | succ fuel ih =>
      intro snapshot cache h hfaithful
      let batch := snapshot.take config.numSendersToPreemptivelyEvict
      have hevicted := (h.evict batch).2
        (covers_of_faithful fun list hlist => hfaithful list (mem_of_mem_take hlist))
      unfold evictSendersWhile
      split
      · exact h
      dsimp only
      split
      · exact hevicted
      exact ih _ _ hevicted fun list hlist =>
        (hfaithful list (mem_of_mem_drop hlist)).evict batch
  exact hloop _ _ cache h h.faithful

/-! ## Removals -/

section
variable (h : Sound content cache)
include h

theorem Sound.removeTxByHash (config : Config) (txHash : Bytes) :
    Sound content (cache.removeTxByHash config txHash) := by
  unfold TxCache.removeTxByHash
  cases hstored : cache.txByHash.backingMap.lookup txHash with
  | none => exact h
  | some tx =>
    obtain ⟨rfl, hmem⟩ := h.matched.indexed.1 hstored
    obtain ⟨list, hlist⟩ := lookup_of_mem hmem
    have hitems := pool_eq hlist
    have herase := TxListForSender.eraseTx_eq (h.matched.sorted tx.sender)
      (h.matched.distinct tx.sender) hmem
    have hvalue : (cache.txListBySender.lists list).removeTx config tx =
        TxListForSender.triggerScoreChange config { cache.txListBySender.lists list with
          items := (cache.pool tx.sender).filter fun value => value.txHash ≠ tx.txHash } := by
      rw [TxListForSender.removeTx, ← hitems, herase]
    dsimp only
    rw [TxListBySenderMap.removeTx, hlist]
    dsimp only
    rw [hvalue]
    refine h.shrink hlist (fun value => value.txHash ≠ tx.txHash) [tx] rfl rfl fun tx' => ?_
    rw [List.mem_singleton]
    refine ⟨by rintro rfl; simp [hmem], fun ⟨hmem', hhash⟩ => ?_⟩
    have hhash : tx'.txHash = tx.txHash := by simpa using hhash
    exact Option.some.inj ((h.matched.found hmem').symm.trans (hhash ▸ hstored))

theorem Sound.removeTxBySenderNonce (config : Config) (sender : Bytes)
    (nonce : UInt64) : Sound content (cache.removeTxBySenderNonce config sender nonce) := by
  unfold TxCache.removeTxBySenderNonce TxListBySenderMap.removeTxLowerNonce
  cases hlist : cache.txListBySender.backingMap.lookup sender with
  | none => exact ⟨h.owned, h.occupied, h.matched, h.counted⟩
  | some list =>
    have hitems := pool_eq hlist
    obtain ⟨hdrop, htake⟩ := TxListForSender.dropWhile_eq_filter (h.matched.sorted sender) nonce
    dsimp only
    rw [← hitems, hdrop, htake]
    exact h.shrink hlist (fun tx => ¬ tx.nonce ≤ nonce) _ rfl rfl (by simp)

/-- Cleaning a list, unless it has left the map, keeps the invariant; the other lists stay where they
are. -/
theorem Sound.cleanExpiredOf (currentTime : Int) {sender : Bytes} {list : Nat}
    (hlist : cache.txListBySender.backingMap.lookup sender = some list) :
    Sound content (cache.cleanExpiredOf currentTime list) ∧
      ∀ s, s ≠ sender → (cache.cleanExpiredOf currentTime list).txListBySender.backingMap.lookup s =
        cache.txListBySender.backingMap.lookup s := by
  have hitems := pool_eq hlist
  unfold TxCache.cleanExpiredOf
  dsimp only
  split
  · exact ⟨h, fun _ _ => rfl⟩
  rw [← hitems]
  refine ⟨h.shrink hlist (fun tx => ¬ tx.expireOn < currentTime) _ rfl rfl (by simp),
    fun s hs => ?_⟩
  simp only [TxListBySenderMap.setListOrRemove]
  split
  · refine ((removeSendersBulk_spec [_] _).2.1 s).trans (if_neg ?_)
    simpa [(h.owned.list hlist).2] using hs
  · rfl

theorem Sound.cleanExpired (currentTime : Int) (order : List Bytes) :
    Sound content (cache.cleanExpiredTransactions currentTime order) := by
  have hloop : ∀ senders : List Bytes, senders.Nodup → ∀ (snapshot : List Nat) (cache : TxCache),
      Sound content cache →
      senders.filterMap (fun s => cache.txListBySender.backingMap.lookup s) = snapshot →
      Sound content (snapshot.foldl (TxCache.cleanExpiredOf currentTime) cache) := by
    intro senders
    induction senders with
    | nil =>
      rintro - _ cache h rfl
      exact h
    | cons sender senders ih =>
      rintro hnodup _ cache h rfl
      obtain ⟨hnot, hnodup⟩ := nodup_cons.1 hnodup
      rw [filterMap_cons]
      cases hlist : cache.txListBySender.backingMap.lookup sender with
      | none => exact ih hnodup _ cache h rfl
      | some list =>
        obtain ⟨hsound, hother⟩ := h.cleanExpiredOf currentTime hlist
        rw [foldl_cons]
        refine ih hnodup _ _ hsound (filterMap_congr fun s hs => hother s ?_)
        rintro rfl
        exact hnot hs
  exact hloop _ (nodup_dedup order) _ cache h rfl

end

/-! ## Additions -/

/-- After a transaction was added, some of its sender's stay: they are all within the limits, or
those that have not expired are, or there are two of these at least. -/
def Stays (config : Config) (now : WrappedTransaction → Int) (items : List WrappedTransaction) :
    Prop :=
  TxListForSender.isCapacityExceeded config items = false ∨
    (let fresh := items.filter fun tx => ¬ tx.expireOn < now tx
     fresh ≠ [] ∧ (TxListForSender.isCapacityExceeded config fresh = false ∨ 2 ≤ fresh.length))

variable {items items' : List WrappedTransaction}

theorem isCapacityExceeded_perm {config : Config} (h : items.Perm items') :
    TxListForSender.isCapacityExceeded config items =
      TxListForSender.isCapacityExceeded config items' := by
  unfold TxListForSender.isCapacityExceeded totalSize
  rw [(h.map _).sum_eq, h.length_eq]

theorem stays_perm {config : Config} {now : WrappedTransaction → Int} (h : items.Perm items') :
    Stays config now items ↔ Stays config now items' := by
  have hfresh := h.filter fun tx => decide (¬ tx.expireOn < now tx)
  unfold Stays
  dsimp only
  rw [isCapacityExceeded_perm h, isCapacityExceeded_perm hfresh, hfresh.length_eq, Ne, Ne,
    ← length_eq_zero_iff, ← length_eq_zero_iff, hfresh.length_eq]

/-- The items are split into those that are evicted and those that stay, in their order. -/
theorem applySizeConstraints_spec (config : Config) (now : WrappedTransaction → Int)
    (hdistinct : items.Nodup) :
    ∃ keep : WrappedTransaction → Bool,
      (applySizeConstraints config now items).2 = items.filter keep ∧
      (∀ tx, tx ∈ (applySizeConstraints config now items).1 ↔
        tx ∈ items ∧ keep tx = false) ∧
      ((applySizeConstraints config now items).2 ≠ [] ↔
        items ≠ [] ∧ Stays config now items) := by
  unfold applySizeConstraints Stays
  generalize hfresh : items.filter (fun tx => decide (¬ tx.expireOn < now tx)) = fresh
  have hsub : fresh.Sublist items := hfresh ▸ filter_sublist
  have hnodup := hsub.nodup hdistinct
  have hne : fresh ≠ [] → items ≠ [] := fun h heq => h (sublist_nil.1 (heq ▸ hsub))
  dsimp only
  split
  · next hwithin => exact ⟨fun _ => true, by simp, by simp, by simp [hwithin]⟩
  next hexceeded =>
  split
  · next hwithin =>
    refine ⟨fun tx => ¬ tx.expireOn < now tx, hfresh.symm, by simp, ?_⟩
    simp only [hexceeded, hwithin, true_or, and_true, Bool.true_eq_false, false_or, Ne]
    exact ⟨fun h => ⟨hne h, h⟩, And.right⟩
  next hexceeded' =>
  rcases eq_nil_or_concat fresh with hnil | ⟨init, last, hlast⟩
  · subst hnil
    exact ⟨fun tx => ¬ tx.expireOn < now tx, hfresh.symm, by simp, by simp [hexceeded]⟩
  rw [concat_eq_append] at hlast
  subst hlast
  have hnot : last ∉ init := by grind
  have hmem : last ∈ items ∧ ¬ last.expireOn < now last := by
    have : last ∈ init ++ [last] := by simp
    rw [← hfresh] at this
    simpa using this
  refine ⟨fun tx => decide (tx ≠ last) && decide (¬ tx.expireOn < now tx), ?_, fun tx => ?_, ?_⟩
  · have hinit : init.filter (fun tx => decide (tx ≠ last)) = init :=
      filter_eq_self.2 fun tx htx => by grind
    rw [← filter_filter, hfresh, filter_append, dropLast_concat, hinit]
    simp
  · simp only [getLast?_append, getLast?_singleton, Option.some_or, Option.toList_some,
      List.mem_append, List.mem_filter, List.mem_singleton, decide_eq_true_iff]
    grind
  · simp only [dropLast_concat, hexceeded, hexceeded', length_append, length_singleton]
    have := hne (by simp)
    cases init <;> simp_all

theorem Matched.insert (h : Matched content pool byHash) {tx : WrappedTransaction}
    (hgenuine : content tx.txHash = (tx.sender, tx.nonce, tx.totalFees))
    (hnew : byHash tx.txHash = none) (hperm : items.Perm (tx :: pool tx.sender))
    (hsorted : items.Pairwise Before)
    (hpool : ∀ s, pool' s = if s = tx.sender then items else pool s)
    (hbyHash : ∀ txHash, byHash' txHash = if txHash = tx.txHash then some tx else byHash txHash) :
    Matched content pool' byHash' := by
  have hmem : ∀ {s t}, t ∈ pool' s ↔ (t = tx ∧ s = tx.sender) ∨ t ∈ pool s := by
    intro s t
    have := hperm.mem_iff (a := t)
    rw [hpool]
    grind
  have hfresh : ∀ {s t}, t ∈ pool s → t.txHash ≠ tx.txHash := by
    intro s t ht heq
    cases (h.found ht).symm.trans (heq ▸ hnew)
  refine ⟨fun {txHash t} => ?_, fun ht => ?_, fun ht => ?_, fun s => ?_, fun s => ?_⟩
  · have hindexed : byHash txHash = some t ↔ t.txHash = txHash ∧ t ∈ pool t.sender := h.indexed
    have hnot : t ∈ pool t.sender → t.txHash ≠ tx.txHash := hfresh
    rw [hbyHash, hmem]
    grind
  · rcases hmem.1 ht with ⟨rfl, rfl⟩ | hold
    · rfl
    · exact h.mine hold
  · rcases hmem.1 ht with ⟨rfl, rfl⟩ | hold
    · exact hgenuine
    · exact h.genuine hold
  · rw [hpool]
    split
    · refine (hperm.pairwise_iff fun h => h.symm).2 (pairwise_cons.2 ⟨fun t ht => ?_, ?_⟩)
      · exact (hfresh ht).symm
      · exact h.distinct _
    · exact h.distinct s
  · rw [hpool]
    split
    · exact hsorted
    · exact h.sorted s

/-- A new transaction of a sender, before the limits are applied. -/
theorem Sound.insert (h : Sound content cache) {tx : WrappedTransaction}
    (hgenuine : content tx.txHash = (tx.sender, tx.nonce, tx.totalFees))
    (hnew : cache.byHash tx.txHash = none) (value : TxListForSender)
    (hsender : value.sender = tx.sender) (hperm : value.items.Perm (tx :: cache.pool tx.sender))
    (hsorted : value.items.Pairwise Before) :
    let added := cache.txListBySender.getOrAddListForSender tx.sender
    Sound content { cache with
      txListBySender := added.2.setList added.1 value
      txByHash := cache.txByHash.addTx tx } := by
  intro added
  obtain ⟨howned, hlist, hsame, hother⟩ := h.owned.getOrAdd tx.sender
  obtain ⟨howned', hpool⟩ := howned.setList hlist hsender
  have hadd : cache.txByHash.addTx tx =
      { backingMap := cache.txByHash.backingMap.insert tx.txHash tx
        counter := cache.txByHash.counter + 1
        numBytes := cache.txByHash.numBytes + tx.size } := by
    simp [TxByHashMap.addTx, show cache.txByHash.backingMap.lookup tx.txHash = none from hnew]
  have hpool' : ∀ s, (added.2.setList added.1 value).pool s =
      if s = tx.sender then value.items else cache.pool s :=
    fun s => (hpool s).trans (by rw [hsame])
  refine ⟨howned', fun s list hs => ?_, h.matched.insert hgenuine hnew hperm hsorted hpool' ?_, ?_⟩
  · rw [hpool']
    split
    · exact fun hnil => by simpa [hnil] using hperm.length_eq
    · next hne => exact h.occupied s list (hother s list hne hs)
  · intro txHash
    rw [byHash, hadd]
    exact lookup_insert_ite ..
  · obtain ⟨htxs, hbytes⟩ := h.counted
    rw [hadd]
    exact ⟨by simp [total_insert hnew, htxs], by simp [total_insert hnew, hbytes]⟩

/-- The cache as `AddTx` finds it, once it has made room. -/
def makeRoom (config : Config) (order : List Bytes) (cache : TxCache) : TxCache :=
  if config.evictionEnabled then cache.doEviction config order else cache

/-- Adding a transaction keeps the invariant if some transaction of its sender stays, and otherwise
leaves the sender without any. -/
theorem Sound.addTx (h : Sound content cache) (config : Config) (order : List Bytes)
    (now : WrappedTransaction → Int) {tx : WrappedTransaction}
    (hgenuine : content tx.txHash = (tx.sender, tx.nonce, tx.totalFees)) :
    let before := cache.makeRoom config order
    let harmless := (before.byHash tx.txHash).isSome ∨
      Stays config now (tx :: before.pool tx.sender)
    ((cache.addTx config order now tx).Agrees ↔ harmless) ∧
      (harmless → Sound content (cache.addTx config order now tx)) := by
  intro before harmless
  have hbefore : Sound content before := by
    change Sound content (if config.evictionEnabled then _ else _)
    split
    · exact h.doEviction config order
    · exact h
  have hadd : cache.addTx config order now tx =
      { before with
        txListBySender := (before.txListBySender.addTx config now tx).2
        txByHash := (before.txByHash.addTx tx).removeTxsBulk
          (before.txListBySender.addTx config now tx).1 } := rfl
  obtain ⟨howned, hlist, hsame, -⟩ := hbefore.owned.getOrAdd tx.sender
  have hsorted := pairwise_reverse.2 (hbefore.matched.sorted tx.sender)
  have hitems := (pool_eq hlist).symm.trans (hsame tx.sender)
  have hown := (howned.list hlist).2
  rw [hadd, TxListBySenderMap.addTx]
  dsimp only
  rw [TxListForSender.addTx, hitems]
  cases hstored : before.byHash tx.txHash with
  | some stored =>
    have hharmless : harmless := .inl (by rw [hstored]; rfl)
    obtain ⟨hhash, hmem⟩ := hbefore.matched.indexed.1 hstored
    have hsame' := (hbefore.matched.genuine hmem).symm.trans (hhash ▸ hgenuine)
    simp only [Prod.mk.injEq] at hsame'
    obtain ⟨hsender, hnonce, hfees⟩ := hsame'
    obtain ⟨list, hlookup⟩ := lookup_of_mem (hsender ▸ hmem)
    rw [TxListForSender.insertFromBack_eq_none hsorted (mem_reverse.2 (hsender ▸ hmem))
      ⟨hhash, hnonce, hfees⟩]
    have hsound : Sound content { before with
        txListBySender := (before.txListBySender.getOrAddListForSender tx.sender).2
        txByHash := before.txByHash.addTx tx } := by
      rw [TxListBySenderMap.getOrAddListForSender, hlookup, TxByHashMap.addTx, if_pos]
      · exact ⟨hbefore.1, hbefore.2, hbefore.3, hbefore.4⟩
      · rw [show before.txByHash.backingMap.lookup tx.txHash = _ from hstored]
        rfl
    exact ⟨⟨fun _ => hharmless, fun _ => hsound.agrees⟩, fun _ => hsound⟩
  | none =>
    have hnew : ∀ t ∈ (before.pool tx.sender).reverse, t.txHash ≠ tx.txHash := by
      intro t ht heq
      cases (hbefore.matched.found (mem_reverse.1 ht)).symm.trans (heq ▸ hstored)
    obtain ⟨r, hr, hsorted'⟩ := TxListForSender.insertFromBack_spec hsorted hnew
    have hperm : r.reverse.Perm (tx :: before.pool tx.sender) :=
      (r.reverse_perm.trans (TxListForSender.insertFromBack_perm hr)).trans
        ((before.pool tx.sender).reverse_perm.cons tx)
    rw [hr]
    -- the list with the transaction, before the limits are applied
    have hinserted := fun value => hbefore.insert hgenuine hstored value
    generalize before.txListBySender.getOrAddListForSender tx.sender = added at *
    obtain ⟨list, txMap⟩ := added
    obtain ⟨inserted, hsender, hitems, hinserted⟩ : ∃ inserted : TxListForSender,
        inserted.sender = tx.sender ∧ inserted.items = r.reverse ∧ Sound content { before with
          txListBySender := txMap.setList list inserted
          txByHash := before.txByHash.addTx tx } :=
      ⟨{ txMap.lists list with items := r.reverse }, hown, rfl, hinserted _ hown hperm
        (pairwise_reverse.2 (by simpa using hsorted'))⟩
    have hpool : ∀ value : TxListForSender, value.sender = tx.sender →
        (txMap.setList list value).pool tx.sender = value.items := by
      intro value hvalue
      rw [(howned.setList hlist hvalue).2, if_pos rfl]
    have hdistinct : r.reverse.Nodup :=
      hperm.nodup_iff.2 (nodup_cons.2 ⟨fun hin => hnew tx (mem_reverse.2 hin) rfl,
        (hbefore.matched.distinct tx.sender).imp fun hne heq => hne (congrArg _ heq)⟩)
    obtain ⟨keep, hkept, hevicted, hne⟩ := applySizeConstraints_spec config now hdistinct
    rcases hlimits : applySizeConstraints config now r.reverse with ⟨evicted, kept⟩
    rw [hlimits] at hkept hevicted hne
    simp only [hstored, Option.isSome_none, Bool.false_eq_true, false_or, harmless,
      ← stays_perm hperm]
    have hiff : Stays config now r.reverse ↔ kept ≠ [] :=
      ⟨fun hstays => hne.2 ⟨fun hnil => by simpa [hnil] using hperm.length_eq, hstays⟩,
        fun hkept => (hne.1 hkept).2⟩
    dsimp only [Option.map_some]
    rw [hlimits, hiff]
    generalize hvalue : TxListForSender.triggerScoreChange config
      { txMap.lists list with items := kept } = value
    have hvalueSender : value.sender = tx.sender := hvalue ▸ hown
    have hvalueItems : value.items = kept := hvalue ▸ rfl
    have hsound : kept ≠ [] → Sound content { before with
        txListBySender := txMap.setList list value
        txByHash := (before.txByHash.addTx tx).removeTxsBulk evicted } := by
      intro hkeep
      have hpool := (hpool inserted hsender).trans hitems
      have hshrunk := @shrink _ _ hinserted tx.sender list value hlist keep evicted
        (hvalueSender.trans (hinserted.owned.list hlist).2.symm)
        (hvalueItems.trans (hkept.trans (congrArg _ hpool.symm)))
        (fun t => (hevicted t).trans (by rw [pool, hpool]))
      rw [TxListBySenderMap.setListOrRemove, if_neg (by rwa [hvalueItems])] at hshrunk
      simpa [TxListBySenderMap.setList] using hshrunk
    refine ⟨⟨fun hagrees hnil => ?_, fun hkept => (hsound hkept).agrees⟩, hsound⟩
    exact hagrees.nonEmpty tx.sender list hlist ((hpool value hvalueSender).trans
      (hvalueItems.trans hnil))

/-- A pool of empty maps whose counters are zero. -/
theorem Sound.of_empty (hlists : cache.txListBySender.backingMap = ∅)
    (hsenders : cache.txListBySender.counter = 0) (hbyHash : cache.txByHash.backingMap = ∅)
    (htxs : cache.txByHash.counter = 0) (hbytes : cache.txByHash.numBytes = 0) :
    Sound content cache := by
  refine ⟨⟨fun hs => ?_, by simp [hlists, hsenders]⟩, fun s list hs => ?_, ?_,
    ⟨by simp [hbyHash, htxs], by simp [hbyHash, hbytes]⟩⟩
  · simp [hlists] at hs
  · simp [hlists] at hs
  · constructor <;> simp [pool, TxListBySenderMap.pool, byHash, hlists, hbyHash]

theorem Sound.clear (h : Sound content cache) :
    (cache.clear.Agrees ↔ cache.txByHash.numBytes = 0) ∧
      (cache.txByHash.numBytes = 0 → Sound content cache.clear) := by
  have hsound : cache.txByHash.numBytes = 0 → Sound content cache.clear :=
    fun hzero => Sound.of_empty rfl rfl rfl rfl hzero
  refine ⟨⟨fun hagrees => ?_, fun hzero => (hsound hzero).agrees⟩, hsound⟩
  have hbytes := hagrees.numBytes
  have hcounted := h.counted.bytes
  simp only [TxCache.clear, TxByHashMap.clear, total_empty, counterValue] at hbytes
  omega

end TxCache

/-! ## Runs -/

/-- The calls on a cache; any lists may have been collected for a sweep. -/
inductive Call where
  | addTx (order : List Bytes) (now : WrappedTransaction → Int) (tx : WrappedTransaction)
  | removeTxByHash (txHash : Bytes)
  | removeTxBySenderNonce (sender : Bytes) (nonce : UInt64)
  | cleanExpiredTransactions (currentTime : Int) (order : List Bytes)
  | doEviction (order : List Bytes)
  | sweepSweepable (collected : List Nat)
  | clear

namespace TxCache

variable (config : Config)

def exec (cache : TxCache) : Call → TxCache
  | .addTx order now tx => cache.addTx config order now tx
  | .removeTxByHash txHash => cache.removeTxByHash config txHash
  | .removeTxBySenderNonce sender nonce => cache.removeTxBySenderNonce config sender nonce
  | .cleanExpiredTransactions currentTime order => cache.cleanExpiredTransactions currentTime order
  | .doEviction order => cache.doEviction config order
  | .sweepSweepable collected =>
    sweepSweepable { cache with sweepingListOfSenders := collected }
  | .clear => cache.clear

/-- The transaction of a call has the content its hash stands for. -/
def Genuine (content : Content) : Call → Prop
  | .addTx _ _ tx => content tx.txHash = (tx.sender, tx.nonce, tx.totalFees)
  | _ => True

/-- The calls that keep the indices in agreement, by the state they find. -/
def Harmless (cache : TxCache) : Call → Prop
  | .addTx order now tx =>
    let before := cache.makeRoom config order
    (before.byHash tx.txHash).isSome ∨ Stays config now (tx :: before.pool tx.sender)
  | .sweepSweepable collected => cache.Covers collected
  | .clear => cache.txByHash.numBytes = 0
  | _ => True

def AgreesAfterEach (cache : TxCache) : List Call → Prop
  | [] => True
  | call :: calls => (cache.exec config call).Agrees ∧
    (cache.exec config call).AgreesAfterEach calls

/-- Each call is harmless in the state it finds. -/
def HarmlessEach (cache : TxCache) : List Call → Prop
  | [] => True
  | call :: calls => cache.Harmless config call ∧ (cache.exec config call).HarmlessEach calls

variable {content : Content} {cache : TxCache} {config}

theorem Sound.exec (h : Sound content cache) {call : Call} (hgenuine : Genuine content call) :
    ((cache.exec config call).Agrees ↔ cache.Harmless config call) ∧
      (cache.Harmless config call → Sound content (cache.exec config call)) := by
  have hsound : ∀ {after : TxCache}, Sound content after →
      (after.Agrees ↔ True) ∧ (True → Sound content after) :=
    fun h => ⟨iff_of_true h.agrees trivial, fun _ => h⟩
  cases call with
  | addTx order now tx => exact h.addTx config order now hgenuine
  | removeTxByHash txHash => exact hsound (h.removeTxByHash config txHash)
  | removeTxBySenderNonce sender nonce => exact hsound (h.removeTxBySenderNonce config sender nonce)
  | cleanExpiredTransactions currentTime order => exact hsound (h.cleanExpired currentTime order)
  | doEviction order => exact hsound (h.doEviction config order)
  | sweepSweepable collected =>
    obtain ⟨hiff, hkeep⟩ := h.evict collected
    refine ⟨Iff.trans ⟨?_, ?_⟩ hiff, fun hcovers => ?_⟩
    · exact fun hagrees => ⟨hagrees.1, hagrees.2, hagrees.3, hagrees.4, hagrees.5, hagrees.6⟩
    · exact fun hagrees => ⟨hagrees.1, hagrees.2, hagrees.3, hagrees.4, hagrees.5, hagrees.6⟩
    · have hkept := hkeep hcovers
      exact ⟨hkept.1, hkept.2, hkept.3, hkept.4⟩
  | clear => exact h.clear

theorem Sound.agreesAfterEach_iff (h : Sound content cache) {calls : List Call}
    (hgenuine : ∀ call ∈ calls, Genuine content call) :
    cache.AgreesAfterEach config calls ↔ cache.HarmlessEach config calls := by
  induction calls generalizing cache with
  | nil => exact Iff.rfl
  | cons call calls ih =>
    obtain ⟨hiff, hkeep⟩ := @Sound.exec config _ _ h call (hgenuine call mem_cons_self)
    have hrest := fun hharmless =>
      ih (hkeep hharmless) fun later hlater => hgenuine later (mem_cons_of_mem call hlater)
    unfold AgreesAfterEach HarmlessEach
    rw [hiff]
    exact ⟨fun ⟨hfirst, hlater⟩ => ⟨hfirst, (hrest hfirst).1 hlater⟩,
      fun ⟨hfirst, hlater⟩ => ⟨hfirst, (hrest hfirst).2 hlater⟩⟩

end TxCache

/-- **The indices of the pool agree as long as every call is harmless, and no longer.**  In every run
from an empty cache in which a hash stands for one sender, nonce and fee: after each call the two
indices hold the same transactions, every sender has some, the counters are exact and the lists are
sorted, if and only if no transaction that is added leaves its sender without any, no sweep meets a
list that is not that of its sender any more, and the cache is cleared only when it has no bytes. -/
theorem indices_agree_iff (config : Config) (content : TxCache.Content) (calls : List Call)
    (hgenuine : ∀ call ∈ calls, TxCache.Genuine content call) :
    TxCache.AgreesAfterEach config {} calls ↔ TxCache.HarmlessEach config {} calls :=
  (TxCache.Sound.of_empty rfl rfl rfl rfl rfl).agreesAfterEach_iff hgenuine

/-- A pool of small limits: three bytes and two transactions for each sender. -/
def smallConfig : Config where
  evictionEnabled := false
  numBytesThreshold := 100
  countThreshold := 100
  numSendersToPreemptivelyEvict := 1
  maxNumTxs := 2
  maxNumBytes := 3
  computeScore _ := 0

def txOfSize (size : Nat) : WrappedTransaction where
  txHash := [1]
  sender := [7]
  nonce := 1
  totalFees := 5
  gasLimit := 10
  size := size
  expireOn := 100

theorem indices_agree_after_add_and_remove :
    TxCache.AgreesAfterEach smallConfig {}
      [.addTx [] (fun _ => 0) (txOfSize 2), .removeTxByHash [1]] := by
  refine (indices_agree_iff smallConfig (fun _ => ([7], 1, 5)) _ ?_).2
    ⟨.inr (.inl rfl), trivial, trivial⟩
  intro call hcall
  simp only [mem_cons, not_mem_nil, or_false] at hcall
  obtain rfl | rfl := hcall
  · rfl
  · trivial

/-- A transaction above the limit of its sender is evicted at once, and the sender stays. -/
theorem oversized_leaves_sender :
    ¬ TxCache.AgreesAfterEach smallConfig {} [.addTx [] (fun _ => 0) (txOfSize 4)] := by
  rintro ⟨hagrees, -⟩
  exact hagrees.nonEmpty [7] 0 rfl rfl

end KleverGo.Pool
