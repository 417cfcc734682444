import KleverGo.Pool.TxCache

/-!
# The limits of a sender's list

`AddTx` of `storage/txcache/txListForSender.go` evicts what exceeds the limits of the sender: the
expired transactions, and then the last one.

* `addTx_limits_iff`: **the limits hold afterwards if and only if one eviction is enough**, and then
  nothing was evicted in vain.
-/

namespace KleverGo.Pool.TxListForSender

open List

variable {config : Config} {now : WrappedTransaction → Int} {tx : WrappedTransaction}
  {list : TxListForSender} {items r : List WrappedTransaction}

def expired (now : WrappedTransaction → Int) (items : List WrappedTransaction) :
    List WrappedTransaction :=
  items.filter fun tx => tx.expireOn < now tx

def unexpired (now : WrappedTransaction → Int) (items : List WrappedTransaction) :
    List WrappedTransaction :=
  items.filter fun tx => ¬ tx.expireOn < now tx

theorem isCapacityExceeded_eq_false : isCapacityExceeded config items = false ↔
    totalSize items ≤ config.maxNumBytes ∧ items.length ≤ config.maxNumTxs := by
  simp [isCapacityExceeded]

theorem totalSize_le (h : r.Sublist items) : totalSize r ≤ totalSize items :=
  (h.map _).sum_le_sum fun _ _ => Nat.zero_le _

/-- What an addition should leave of the items with the new transaction among them: if they exceed
the limits, the expired ones are evicted and, from the back, as many as it takes. -/
structure Limited (config : Config) (now : WrappedTransaction → Int)
    (items evicted kept : List WrappedTransaction) : Prop where
  count : kept.length ≤ config.maxNumTxs
  bytes : totalSize kept ≤ config.maxNumBytes
  within : isCapacityExceeded config items = false → evicted = [] ∧ kept = items
  exceeded : isCapacityExceeded config items = true → ∃ last, unexpired now items = kept ++ last ∧
    evicted = expired now items ++ last.reverse ∧
    ∀ longer, kept <+: longer → longer <+: kept ++ last → longer ≠ kept →
      isCapacityExceeded config longer = true

/-- One eviction from the back meets the constraints if and only if it is enough. -/
theorem applySizeConstraints_limited_iff (config : Config) (now : WrappedTransaction → Int)
    (hcount : items.length ≤ config.maxNumTxs + 1) :
    Limited config now items (applySizeConstraints config now items).1
        (applySizeConstraints config now items).2 ↔
      totalSize (unexpired now items).dropLast ≤ config.maxNumBytes := by
  have hsub : (unexpired now items).Sublist items := filter_sublist
  have hdrop := dropLast_sublist (unexpired now items)
  unfold applySizeConstraints
  dsimp only
  rw [← unexpired, ← expired]
  split
  · rename_i hall
    have hbounds := isCapacityExceeded_eq_false.1 hall
    exact ⟨fun _ => (totalSize_le (hdrop.trans hsub)).trans hbounds.1,
      fun _ => ⟨hbounds.2, hbounds.1, fun _ => ⟨rfl, rfl⟩, fun h => nomatch hall.symm.trans h⟩⟩
  rename_i hall
  split
  · rename_i hfresh
    have hbounds := isCapacityExceeded_eq_false.1 hfresh
    refine ⟨fun _ => (totalSize_le hdrop).trans hbounds.1, fun _ => ⟨hbounds.2, hbounds.1,
      fun h => absurd h hall, fun _ => ⟨[], (append_nil _).symm, (append_nil _).symm,
        fun longer hlong hshort hne => ?_⟩⟩⟩
    rw [append_nil] at hshort
    exact absurd (hshort.eq_of_length_le hlong.length_le) hne
  rename_i hfresh
  refine ⟨fun h => h.bytes, fun hbytes => ⟨?_, hbytes, fun h => absurd h hall, fun _ => ?_⟩⟩
  · have := hsub.length_le
    rw [length_dropLast]
    omega
  rcases eq_nil_or_concat (unexpired now items) with hnil | ⟨kept, last, hlast⟩
  · simp [hnil, isCapacityExceeded, totalSize] at hfresh
  rw [concat_eq_append] at hlast
  simp only [hlast, dropLast_concat, getLast?_concat, Option.toList_some] at hfresh ⊢
  refine ⟨[last], rfl, rfl, fun longer hlong hshort hne => ?_⟩
  -- the list that is longer holds the last transaction too
  have hsame : longer = kept ++ [last] := by
    refine hshort.eq_of_length_le ?_
    have hlt : kept.length < longer.length :=
      Nat.lt_of_not_le fun hle => hne (hlong.eq_of_length_le hle).symm
    rw [length_append]
    exact hlt
  rw [hsame]
  exact Bool.eq_true_of_not_eq_false hfresh

/-- **The limits of a sender hold after an addition** if and only if the transactions that have not
expired are within the limit of bytes without the last of them. -/
theorem addTx_limits_iff (config : Config) (now : WrappedTransaction → Int)
    (hwithin : isCapacityExceeded config list.items = false)
    (hinsert : insertFromBack tx list.items.reverse = some items.reverse) :
    ∃ evicted list', list.addTx config now tx = some (evicted, list') ∧
      (Limited config now items evicted list'.items ↔
        totalSize (unexpired now items).dropLast ≤ config.maxNumBytes) := by
  have hlength : items.length = list.items.length + 1 := by
    simpa using (insertFromBack_perm hinsert).length_eq
  have hcount := (isCapacityExceeded_eq_false.1 hwithin).2
  refine ⟨_, _, by rw [addTx, hinsert, Option.map_some, reverse_reverse], ?_⟩
  exact applySizeConstraints_limited_iff config now (by omega)

/-- A list with two transactions of 6 and 4 bytes. -/
def smallList : TxListForSender where
  sender := [1]
  items := [⟨[2], [1], 2, 0, 0, 6, 0⟩, ⟨[3], [1], 3, 0, 0, 4, 0⟩]

def smallConfig : Config := ⟨false, 0, 0, 0, 3, 10, fun _ => 0⟩

theorem addTx_limits_iff_small :
    ∃ evicted list', smallList.addTx smallConfig (fun _ => 0) ⟨[4], [1], 4, 0, 0, 10, 0⟩ =
        some (evicted, list') ∧
      (Limited smallConfig (fun _ => 0) (smallList.items ++ [⟨[4], [1], 4, 0, 0, 10, 0⟩]) evicted
        list'.items ↔ totalSize (unexpired (fun _ => 0)
          (smallList.items ++ [⟨[4], [1], 4, 0, 0, 10, 0⟩])).dropLast ≤ 10) :=
  addTx_limits_iff smallConfig _ (by decide) (by decide)

/-- **Six bytes too many**: the new transaction of 10 bytes goes first, and only the last one of 4
bytes is evicted. -/
theorem addTx_exceeds_limit :
    isCapacityExceeded smallConfig smallList.items = false ∧ smallConfig.maxNumBytes = 10 ∧
      (smallList.addTx smallConfig (fun _ => 0) ⟨[4], [1], 1, 0, 0, 10, 0⟩).map
        (fun r => totalSize r.2.items) = some 16 := by
  decide

end KleverGo.Pool.TxListForSender
