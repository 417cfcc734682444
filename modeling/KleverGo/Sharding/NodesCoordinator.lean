import KleverGo.State.Peers

/-!
# The nodes coordinator

`sharding/nodesCoordinator.go` and `sharding/hashValidatorShuffler.go`: the lists of an epoch are
read off the validators' records and reshuffled.  Jailed validators leave, unless there are too few
elected and eligible ones for a consensus group.

The lists are sorted by index and key; validators with the same index and key stay in the order in
which they were read.
-/

namespace KleverGo.Sharding

open List

/-- `sharding.validator`; every validator has the same chances. -/
structure Validator where
  ownerAddress : Bytes
  pubKey : Bytes
  index : UInt32
  deriving DecidableEq, Repr

/-- `epochNodesConfig` -/
structure NodesConfig where
  (electedList eligibleList waitingList leavingList : List Validator)
  deriving DecidableEq, Repr

/-- `validatorList.Less`, or equal. -/
def lessOrEqual (a b : Validator) : Bool :=
  if a.index = b.index then decide (¬ b.pubKey < a.pubKey) else decide (a.index < b.index)

/-- `NewValidator` of a record. -/
def ofInfo (info : ValidatorInfo) : Validator := ⟨info.ownerAddress, info.publicKey, info.index⟩

/-- The validators whose record names a list. -/
def inList (list : PeerList) (infos : List ValidatorInfo) : List Validator :=
  (infos.filter fun info => info.list = list).map ofInfo

/-- Jailed validators that stay because there are too few others: the eligible and the leaving
list. -/
def keepLeaving (consensusGroupSize numElected : Nat) (eligibleList leavingList : List Validator) :
    List Validator × List Validator :=
  let numToStay := consensusGroupSize - (numElected + eligibleList.length)
  if 0 < numToStay ∧ numToStay ≤ leavingList.length then
    (eligibleList ++ leavingList.take numToStay, leavingList.drop numToStay)
  else (eligibleList, leavingList)

def computeNodesConfigFromList (consensusGroupSize : Nat) (infos : List ValidatorInfo) :
    Except Err NodesConfig := do
  let electedList := inList .elected infos
  let (eligibleList, leavingList) := keepLeaving consensusGroupSize electedList.length
    (inList .eligible infos) (inList .jailed infos)
  reject (electedList = []) .ErrListSizeZero
  pure {
    electedList := electedList.insertionSort (lessOrEqual · ·)
    eligibleList := eligibleList.insertionSort (lessOrEqual · ·)
    waitingList := (inList .waiting infos).insertionSort (lessOrEqual · ·)
    leavingList := leavingList.insertionSort (lessOrEqual · ·) }

/-! ## The shuffler -/

/-- `randHashShuffler` in an epoch: the hash it imports, the number of elected nodes and how many
may be swapped. -/
structure Shuffler where
  hash : Bytes → Bytes
  nodes : UInt32
  maxNodesToSwap : UInt32

section
variable (S : Shuffler)

/-- `shuffleList`: sorted by the hashes of the keys.  Validators whose hashes are equal are all
replaced by the last of them. -/
def shuffleList (validators : List Validator) (randomness : Bytes) : List Validator :=
  let hashOf := fun v : Validator => S.hash (v.pubKey ++ randomness)
  ((validators.map hashOf).insertionSort fun a b => ¬ b < a).filterMap fun key =>
    validators.reverse.find? fun v => hashOf v = key

/-- `removeValidatorFromList`: the last element takes the place of the removed one. -/
def removeValidatorFromList (validators : List Validator) (index : Nat) : List Validator :=
  match validators.getLast? with
  | none => validators
  | some last => (validators.set index last).dropLast

/-- The inner loop of `removeValidatorsFromList`: the last validator with a key goes. -/
def removeKey (validators : List Validator) (key : Bytes) : List Validator :=
  match validators.reverse.findIdx? fun v => v.pubKey = key with
  | none => validators
  | some i => removeValidatorFromList validators (validators.length - 1 - i)

/-- `removeValidatorsFromList`, with as many removals as there are validators to remove. -/
def removeValidatorsFromList (validators validatorsToRemove : List Validator) : List Validator :=
  validatorsToRemove.foldl (fun rest v => removeKey rest v.pubKey) validators

/-- `shuffleOutNodes`: those that go, and those that stay. -/
def shuffleOutNodes (elected : List Validator) (numToShuffle : Nat) (randomness : Bytes) :
    Except Err (List Validator × List Validator) := do
  let shuffledElected := shuffleList S elected randomness
  reject (shuffledElected.length < numToShuffle) .indexOutOfRange
  let shuffledOut := shuffledElected.take numToShuffle
  pure (shuffledOut, removeValidatorsFromList (shuffledElected.drop numToShuffle) shuffledOut)

def moveMaxNumNodesToList (destination source : List Validator) (numNodes : Nat) :
    List Validator × List Validator :=
  let numNeededNodes := min (numNodes - destination.length) source.length
  (destination ++ source.take numNeededNodes, source.drop numNeededNodes)

/-- `UpdateNodeLists`: the new elected and eligible lists. -/
def updateNodeLists (elected eligible : List Validator) (randomness : Bytes) :
    Except Err (List Validator × List Validator) := do
  reject (elected.length + eligible.length < S.nodes.toNat) .ErrSmallElectedListSize
  let numToRemove :=
    min (elected.length + eligible.length - S.nodes.toNat) S.maxNodesToSwap.toNat
  let (shuffledOut, newElected) ← shuffleOutNodes S elected numToRemove randomness
  let (updatedElected, updatedEligible) := moveMaxNumNodesToList newElected
    (shuffleList S eligible randomness) S.nodes.toNat
  pure (updatedElected, updatedEligible ++ shuffledOut)

/-- `EpochStartPrepare`: the lists of the epoch. -/
def epochStartPrepare (consensusGroupSize : Nat) (randomness : Bytes)
    (infos : List ValidatorInfo) : Except Err NodesConfig := do
  let config ← computeNodesConfigFromList consensusGroupSize infos
  let (elected, eligible) ← updateNodeLists S config.electedList config.eligibleList randomness
  pure { config with electedList := elected, eligibleList := eligible }

end

/-! ## Who is in the lists -/

section
variable {S : Shuffler} {v : Validator}

variable {infos : List ValidatorInfo}

theorem mem_inList {list : PeerList} :
    v ∈ inList list infos ↔ ∃ info ∈ infos, info.list = list ∧ ofInfo info = v := by
  simp [inList, and_assoc]

variable {validators : List Validator} {randomness : Bytes}

theorem mem_of_mem_shuffleList (h : v ∈ shuffleList S validators randomness) : v ∈ validators := by
  simp only [shuffleList, mem_filterMap] at h
  obtain ⟨key, -, hfind⟩ := h
  exact mem_reverse.1 (mem_of_find?_eq_some hfind)

theorem mem_of_mem_removeValidatorFromList {i : Nat}
    (h : v ∈ removeValidatorFromList validators i) : v ∈ validators := by
  unfold removeValidatorFromList at h
  split at h
  · exact h
  · rename_i last hlast
    rcases mem_or_eq_of_mem_set (dropLast_subset _ h) with hmem | rfl
    · exact hmem
    · exact mem_of_getLast? hlast

theorem mem_of_mem_removeValidatorsFromList {toRemove : List Validator}
    (h : v ∈ removeValidatorsFromList validators toRemove) : v ∈ validators := by
  induction toRemove generalizing validators with
  | nil => exact h
  | cons w toRemove ih =>
    have hrest : v ∈ removeKey validators w.pubKey := ih h
    unfold removeKey at hrest
    split at hrest
    · exact hrest
    · exact mem_of_mem_removeValidatorFromList hrest

theorem mem_of_mem_updateNodeLists {elected eligible elected' eligible' : List Validator}
    (h : updateNodeLists S elected eligible randomness = .ok (elected', eligible'))
    (hv : v ∈ elected' ∨ v ∈ eligible') : v ∈ elected ∨ v ∈ eligible := by
  simp only [updateNodeLists, shuffleOutNodes, bind_eq_ok, pure_eq_ok, reject_eq_ok] at h
  obtain ⟨_, -, ⟨shuffledOut, newElected⟩, ⟨_, -, heq⟩, hlists⟩ := h
  cases heq
  cases hlists
  simp only [moveMaxNumNodesToList, mem_append] at hv
  rcases hv with (hnew | hmoved) | (hkept | hout)
  · exact .inl (mem_of_mem_shuffleList
      (mem_of_mem_drop (mem_of_mem_removeValidatorsFromList hnew)))
  · exact .inr (mem_of_mem_shuffleList (mem_of_mem_take hmoved))
  · exact .inr (mem_of_mem_shuffleList (mem_of_mem_drop hkept))
  · exact .inl (mem_of_mem_shuffleList (mem_of_mem_take hout))

/-- Who is in the lists of an epoch: with enough elected and eligible validators, those whose
records say so. -/
theorem epochStartPrepare_lists {consensusGroupSize : Nat} {config : NodesConfig}
    (hsize : consensusGroupSize ≤ (inList .elected infos).length + (inList .eligible infos).length)
    (h : epochStartPrepare S consensusGroupSize randomness infos = .ok config)
    (hv : v ∈ config.electedList ∨ v ∈ config.eligibleList ∨ v ∈ config.waitingList) :
    ∃ info ∈ infos, info.list ≠ .jailed ∧ info.ownerAddress = v.ownerAddress := by
  have hkeep : keepLeaving consensusGroupSize (inList .elected infos).length
      (inList .eligible infos) (inList .jailed infos) =
      (inList .eligible infos, inList .jailed infos) := by
    unfold keepLeaving
    rw [Nat.sub_eq_zero_of_le hsize]
    rfl
  simp only [epochStartPrepare, computeNodesConfigFromList, hkeep, bind_eq_ok,
    pure_eq_ok, reject_eq_ok] at h
  obtain ⟨c, ⟨_, -, rfl⟩, ⟨elected, eligible⟩, hshuffle, rfl⟩ := h
  -- membership in one of the lists is a record with the name of that list
  have hrecord : ∀ list, list ≠ PeerList.jailed → v ∈ inList list infos →
      ∃ info ∈ infos, info.list ≠ .jailed ∧ info.ownerAddress = v.ownerAddress := by
    intro list hlist hmem
    obtain ⟨info, hinfo, rfl, rfl⟩ := mem_inList.1 hmem
    exact ⟨info, hinfo, hlist, rfl⟩
  dsimp only at hv hshuffle
  rcases or_assoc.2 hv with hmoved | hwaiting
  · rcases mem_of_mem_updateNodeLists hshuffle hmoved with helected | heligible
    · exact hrecord .elected (by decide) ((mem_insertionSort _).1 helected)
    · exact hrecord .eligible (by decide) ((mem_insertionSort _).1 heligible)
  · exact hrecord .waiting (by decide) ((mem_insertionSort _).1 hwaiting)

end

end KleverGo.Sharding
