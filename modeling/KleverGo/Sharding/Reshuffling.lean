import KleverGo.Sharding.NodesCoordinator

/-!
# Reshuffling the lists of an epoch

`UpdateNodeLists` of `sharding/hashValidatorShuffler.go` as a partition.  The lists are sorted by the
hashes of their keys, so that with distinct keys and an injective hash the order they come in does
not matter (`shuffleList_eq_of_perm`); then validators only change the list they are in.

* `reshuffling_partition_iff` — **the lists that come out hold the same validators and have the sizes
  they should, whatever the order of the lists that went in, exactly when no more validators are to be
  shuffled out than are elected**;
* `reshuffling_panics` — with fewer elected validators than that, the slice is out of bounds.
-/

namespace KleverGo.Sharding

open Validator Function List

/-! ## The limit on swaps -/

structure MaxNodesChangeConfig where
  epochEnable : UInt32
  nodesToShuffle : UInt32

/-- `randHashShuffler`; the configurations are sorted by the epoch that enables them. -/
structure RandHashShuffler where
  hash : Bytes → Bytes
  nodes : UInt32
  availableNodesConfigs : List MaxNodesChangeConfig

namespace RandHashShuffler

/-- `UpdateShufflerConfig`: the limit on swaps in an epoch. -/
def updateShufflerConfig (rhs : RandHashShuffler) (epoch : UInt32) : UInt32 :=
  rhs.availableNodesConfigs.foldl
    (fun active config => if epoch ≥ config.epochEnable then config.nodesToShuffle else active)
    rhs.nodes

/-- The shuffler in an epoch. -/
def inEpoch (rhs : RandHashShuffler) (epoch : UInt32) : Shuffler where
  hash := rhs.hash
  nodes := rhs.nodes
  maxNodesToSwap := rhs.updateShufflerConfig epoch

end RandHashShuffler

/-! ## Sorting by hashes -/

section Sorting

variable {S : Shuffler} {validators validators' : List Validator} {randomness : Bytes}

/-- The order of `sort.Strings`. -/
abbrev NotAfter (a b : Bytes) : Prop := ¬ b < a

instance : Std.Total NotAfter := ⟨List.le_total⟩

instance : IsTrans Bytes NotAfter := ⟨fun _ _ _ => List.le_trans⟩

/-- The hash that a validator is sorted by. -/
def hashOf (S : Shuffler) (randomness : Bytes) (v : Validator) : Bytes :=
  S.hash (v.pubKey ++ randomness)

section
variable (hinj : Injective S.hash) (hdistinct : (validators.map pubKey).Nodup)
include hinj hdistinct

theorem eq_of_hashOf_eq {v w : Validator} (hv : v ∈ validators) (hw : w ∈ validators)
    (h : hashOf S randomness v = hashOf S randomness w) : v = w :=
  inj_on_of_nodup_map hdistinct hv hw (append_left_injective randomness (hinj h))

/-- The map of the hashes gives back the validator that was hashed. -/
theorem find_hashOf {v : Validator} (hv : v ∈ validators) :
    (validators.reverse.find? fun w => hashOf S randomness w = hashOf S randomness v) = some v := by
  cases hfind : validators.reverse.find? fun w => hashOf S randomness w = hashOf S randomness v with
  | none =>
    have hnone := find?_eq_none.1 hfind v (mem_reverse.2 hv)
    simp at hnone
  | some w =>
    have hw := mem_reverse.1 (mem_of_find?_eq_some hfind)
    have heq := find?_some hfind
    rw [eq_of_hashOf_eq hinj hdistinct hw hv (of_decide_eq_true heq)]

theorem shuffleList_perm : (shuffleList S validators randomness).Perm validators := by
  have hkeys := perm_insertionSort NotAfter (validators.map (hashOf S randomness))
  refine (hkeys.filterMap fun key =>
    validators.reverse.find? fun v => hashOf S randomness v = key).trans ?_
  rw [filterMap_map]
  have hsome : ∀ v ∈ validators, ((fun key => validators.reverse.find? fun w =>
      hashOf S randomness w = key) ∘ hashOf S randomness) v = some v := fun v hv =>
    find_hashOf hinj hdistinct hv
  rw [filterMap_congr hsome, filterMap_some]

end

theorem shuffleList_sorted :
    (shuffleList S validators randomness).Pairwise fun v w =>
      NotAfter (hashOf S randomness v) (hashOf S randomness w) := by
  refine (pairwise_insertionSort NotAfter (validators.map (hashOf S randomness))).filterMap _ ?_
  intro key key' hle v hv w hw
  have hkey : hashOf S randomness v = key := of_decide_eq_true (find?_some hv :)
  have hkey' : hashOf S randomness w = key' := of_decide_eq_true (find?_some hw :)
  rwa [hkey, hkey']

theorem shuffleList_eq_of_perm (hinj : Injective S.hash) (hdistinct : (validators.map pubKey).Nodup)
    (hperm : validators'.Perm validators) :
    shuffleList S validators' randomness = shuffleList S validators randomness := by
  have hdistinct' : (validators'.map pubKey).Nodup :=
    (hperm.map pubKey).nodup_iff.2 hdistinct
  refine Perm.eq_of_pairwise ?_ shuffleList_sorted shuffleList_sorted
    (((shuffleList_perm hinj hdistinct').trans hperm).trans (shuffleList_perm hinj hdistinct).symm)
  intro v w hv hw hle hge
  have hv := hperm.subset (mem_of_mem_shuffleList hv)
  exact eq_of_hashOf_eq hinj hdistinct hv (mem_of_mem_shuffleList hw) (List.le_antisymm hle hge)

end Sorting

/-! ## The partition -/

section Partition

variable {S : Shuffler} {elected eligible : List Validator} {randomness : Bytes}

theorem removeKey_of_notMem {validators : List Validator} {key : Bytes}
    (h : ∀ v ∈ validators, v.pubKey ≠ key) : removeKey validators key = validators := by
  unfold removeKey
  have hnone : (validators.reverse.findIdx? fun v => v.pubKey = key) = none := by
    rw [findIdx?_eq_none_iff]
    intro v hv
    exact decide_eq_false (h v (mem_reverse.1 hv))
  rw [hnone]

/-- Validators whose keys are not in a list are not removed from it. -/
theorem removeValidatorsFromList_of_disjoint {validators toRemove : List Validator}
    (h : ∀ v ∈ validators, ∀ w ∈ toRemove, v.pubKey ≠ w.pubKey) :
    removeValidatorsFromList validators toRemove = validators := by
  unfold removeValidatorsFromList
  induction toRemove with
  | nil => rfl
  | cons w toRemove ih =>
    rw [foldl_cons, removeKey_of_notMem fun v hv => h v hv w mem_cons_self]
    exact ih fun v hv w' hw' => h v hv w' (mem_cons_of_mem w hw')

/-- The number of validators that are to be shuffled out. -/
def numToRemove (S : Shuffler) (elected eligible : List Validator) : Nat :=
  min (elected.length + eligible.length - S.nodes.toNat) S.maxNodesToSwap.toNat

/-- The lists that come out: `shuffled` and `source` are the shuffled lists. -/
def reshuffled (nodes count : Nat) (shuffled source : List Validator) :
    List Validator × List Validator :=
  let needed := min (nodes - (shuffled.length - count)) source.length
  (shuffled.drop count ++ source.take needed, source.drop needed ++ shuffled.take count)

theorem reshuffled_perm (nodes count : Nat) (shuffled source : List Validator) :
    ((reshuffled nodes count shuffled source).1 ++
      (reshuffled nodes count shuffled source).2).Perm (shuffled ++ source) := by
  unfold reshuffled
  generalize min (nodes - (shuffled.length - count)) source.length = needed
  have hsource : (shuffled.drop count ++ source.take needed) ++
      (source.drop needed ++ shuffled.take count) =
        shuffled.drop count ++ source ++ shuffled.take count := by
    rw [append_assoc, ← append_assoc (source.take needed), take_append_drop, append_assoc]
  have hshuffled : shuffled ++ source = shuffled.take count ++ (shuffled.drop count ++ source) := by
    rw [← append_assoc, take_append_drop]
  rw [hsource, hshuffled]
  exact perm_append_comm

/-- Shuffling out splits the shuffled list, unless there is too little to split. -/
theorem shuffleOutNodes_eq (hinj : Injective S.hash) (hdistinct : (elected.map pubKey).Nodup)
    (count : Nat) :
    shuffleOutNodes S elected count randomness =
      if elected.length < count then .error .indexOutOfRange
      else .ok ((shuffleList S elected randomness).take count,
        (shuffleList S elected randomness).drop count) := by
  have hperm : (shuffleList S elected randomness).Perm elected := shuffleList_perm hinj hdistinct
  have hrest : removeValidatorsFromList ((shuffleList S elected randomness).drop count)
      ((shuffleList S elected randomness).take count) =
        (shuffleList S elected randomness).drop count := by
    refine removeValidatorsFromList_of_disjoint fun v hv w hw heq => ?_
    have hkeys : ((shuffleList S elected randomness).map pubKey).Nodup :=
      (hperm.map pubKey).nodup_iff.2 hdistinct
    have hsame := inj_on_of_nodup_map hkeys (mem_of_mem_drop hv)
      (mem_of_mem_take hw) heq
    subst hsame
    exact disjoint_take_drop hkeys.of_map le_rfl hw hv
  unfold shuffleOutNodes
  simp only [hrest, hperm.length_eq]
  unfold reject
  split <;> rfl

theorem updateNodeLists_eq (hinj : Injective S.hash) (hdistinct : (elected.map pubKey).Nodup)
    (hnodes : S.nodes.toNat ≤ elected.length + eligible.length) :
    updateNodeLists S elected eligible randomness =
      if elected.length < numToRemove S elected eligible then .error .indexOutOfRange
      else .ok (reshuffled S.nodes.toNat (numToRemove S elected eligible)
        (shuffleList S elected randomness) (shuffleList S eligible randomness)) := by
  unfold updateNodeLists
  rw [reject, if_neg (by omega)]
  change (shuffleOutNodes S elected (numToRemove S elected eligible) randomness >>= _) = _
  rw [shuffleOutNodes_eq hinj hdistinct]
  by_cases hmany : elected.length < numToRemove S elected eligible
  · rw [if_pos hmany, if_pos hmany]
    rfl
  · rw [if_neg hmany, if_neg hmany]
    unfold reshuffled
    rw [← length_drop]
    rfl

/-- The reshuffling is a safe partition: whatever the order of the lists, two lists come out which
hold the same validators and have the sizes they should; `k` validators are shuffled out. -/
def PartitionsSafely (S : Shuffler) (elected eligible : List Validator) (randomness : Bytes) : Prop :=
  let k := min (elected.length + eligible.length - S.nodes.toNat)
    (min S.maxNodesToSwap.toNat elected.length)
  ∃ elected' eligible', (elected' ++ eligible').Perm (elected ++ eligible) ∧
    elected'.length = max S.nodes.toNat (elected.length - k) ∧
    ∀ electedOrder eligibleOrder, electedOrder.Perm elected → eligibleOrder.Perm eligible →
      updateNodeLists S electedOrder eligibleOrder randomness = .ok (elected', eligible')

theorem partitionsSafely_of_le (hinj : Injective S.hash) (helected : (elected.map pubKey).Nodup)
    (heligible : (eligible.map pubKey).Nodup)
    (hnodes : S.nodes.toNat ≤ elected.length + eligible.length)
    (hfew : numToRemove S elected eligible ≤ elected.length) :
    PartitionsSafely S elected eligible randomness := by
  have hpermElected : (shuffleList S elected randomness).Perm elected :=
    shuffleList_perm hinj helected
  have hpermEligible : (shuffleList S eligible randomness).Perm eligible :=
    shuffleList_perm hinj heligible
  refine ⟨_, _, (reshuffled_perm S.nodes.toNat (numToRemove S elected eligible)
    (shuffleList S elected randomness) (shuffleList S eligible randomness)).trans
      (hpermElected.append hpermEligible), ?_, ?_⟩
  · have hcount : numToRemove S elected eligible ≤
        elected.length + eligible.length - S.nodes.toNat := min_le_left _ _
    have hlength : (reshuffled S.nodes.toNat (numToRemove S elected eligible)
        (shuffleList S elected randomness) (shuffleList S eligible randomness)).1.length =
          max S.nodes.toNat (elected.length - numToRemove S elected eligible) := by
      simp only [reshuffled, length_append, length_drop, length_take, hpermElected.length_eq,
        hpermEligible.length_eq]
      omega
    rw [hlength]
    unfold numToRemove at hfew ⊢
    rw [← min_assoc, min_eq_left hfew]
  · intro electedOrder eligibleOrder horder horder'
    have hdistinct := (horder.map pubKey).nodup_iff.2 helected
    have hremove : numToRemove S electedOrder eligibleOrder = numToRemove S elected eligible := by
      unfold numToRemove
      rw [horder.length_eq, horder'.length_eq]
    rw [← horder.length_eq, ← horder'.length_eq] at hnodes
    rw [updateNodeLists_eq hinj hdistinct hnodes, hremove, horder.length_eq, if_neg (by omega),
      shuffleList_eq_of_perm hinj helected horder, shuffleList_eq_of_perm hinj heligible horder']

/-- **Epoch reshuffling is a safe partition exactly when no more validators are to be shuffled out
than are elected**, in every epoch and with every configuration. -/
theorem reshuffling_partition_iff (rhs : RandHashShuffler) (epoch : UInt32)
    (hinj : Injective rhs.hash) (elected eligible : List Validator)
    (hdistinct : ((elected ++ eligible).map pubKey).Nodup)
    (hnodes : rhs.nodes.toNat ≤ elected.length + eligible.length) (randomness : Bytes) :
    PartitionsSafely (rhs.inEpoch epoch) elected eligible randomness ↔
      min (elected.length + eligible.length - rhs.nodes.toNat)
        (rhs.updateShufflerConfig epoch).toNat ≤ elected.length := by
  rw [map_append] at hdistinct
  have helected := hdistinct.of_append_left
  constructor
  · rintro ⟨elected', eligible', -, -, hresult⟩
    have hok := hresult elected eligible (.refl _) (.refl _)
    rw [updateNodeLists_eq hinj helected hnodes] at hok
    by_contra hmany
    have hpanic : elected.length < numToRemove (rhs.inEpoch epoch) elected eligible :=
      not_le.1 hmany
    rw [if_pos hpanic] at hok
    cases hok
  · intro hfew
    exact partitionsSafely_of_le (S := rhs.inEpoch epoch) hinj helected
      hdistinct.of_append_right hnodes hfew

/-- Three of six validators are to be elected. -/
def threeNodes : RandHashShuffler where
  hash := id
  nodes := 3
  availableNodesConfigs := []

/-- A validator that is known by its key only. -/
def validatorWithKey (key : UInt8) : Validator := ⟨[], [key], 0⟩

theorem reshuffling_partition_three :
    PartitionsSafely (threeNodes.inEpoch 7) ([1, 2, 3].map validatorWithKey)
      ([4, 5, 6].map validatorWithKey) [9] :=
  (reshuffling_partition_iff threeNodes 7 injective_id ([1, 2, 3].map validatorWithKey)
    ([4, 5, 6].map validatorWithKey) (by decide) (by decide) [9]).2 (by decide)

/-- One elected validator is left and three are to be shuffled out. -/
theorem reshuffling_panics :
    (([1] ++ [2, 3, 4, 5, 6] : List UInt8).map fun key => (validatorWithKey key).pubKey).Nodup ∧
      updateNodeLists (threeNodes.inEpoch 7) ([1].map validatorWithKey)
        ([2, 3, 4, 5, 6].map validatorWithKey) [9] = .error .indexOutOfRange := by
  decide

end Partition

end KleverGo.Sharding
