import KleverGo.Validators.Fees

/-!
# Fees over runs

A rotation carries the fees that wait on the old key to the new one, and the end of an epoch turns
the fees of a current key into rewards of its validator and of those who delegated to it.  With the
crediting of blocks this gives `fees_paid_once`: **over every run, the fees passed to the crediting
of blocks are what waits on current keys, what is pending and what was claimed.**
`fees_of_unknown_key_lost` shows that fees credited to a key that no validator ever had are not
among these.
-/

namespace KleverGo.Validators

open Option

open Staking (Gains)

section
variable {P : Platform} {B : BlsVerifier} {fc : ForkController} {s s' : Chain}

variable {sender newKey : Bytes}

theorem Rotated.fees {val w : ValidatorData} (hs : Registry s)
    (hval : s.validators.validators.lookup sender = some val)
    (hunbound : (peerOf s newKey).ownerAddress = []) (h : Rotated sender val.blsPubKey newKey s s')
    (hw : w.blsPubKey = newKey) :
    currentFees (storeValidator s' sender w) = currentFees s := by
  have hmoved := FMap.sumBy_update (m := s.validators.validators)
    (f := fun _ c => (peerOf s c.blsPubKey).accumulatedFees)
    (g := fun _ c => (peerOf s' c.blsPubKey).accumulatedFees) hval ?_
  · have hstored := FMap.sumBy_write (fun _ c => (peerOf s' c.blsPubKey).accumulatedFees)
      s.validators.validators sender w
    have hnew : (peerOf s' w.blsPubKey).accumulatedFees =
        (peerOf s val.blsPubKey).accumulatedFees := by
      rw [hw, h.new, jailIfElected]
      split <;> rfl
    rw [hval, elim_some, hmoved, hnew] at hstored
    unfold currentFees storeValidator setValidator
    rw [h.validators]
    refine hstored.trans ?_
    abel
  · intro x c hc hx
    obtain ⟨hne1, hne2⟩ := Rotated.other_key hs hval rfl hunbound hc hx
    rw [h.others _ hne1 hne2]

theorem Rotated.revokedClear {oldKey : Bytes} (hclear : RevokedClear s)
    (h : Rotated sender oldKey newKey s s') : RevokedClear s' := by
  intro k hk
  by_cases hnew : k = newKey
  · rw [hnew, h.new] at hk
    cases hk
  by_cases hold : k = oldKey
  · rw [hold, h.old]
    rfl
  · rw [h.others k hold hnew] at hk ⊢
    exact hclear k hk

/-- A rotation carries the fees over: nothing is added and nothing is lost. -/
theorem updateValidator_fees {nonce : UInt64} {cfg : ValidatorConfig}
    (hbuckets : fc.fixStakingBuckets = true) (hv7 : fc.fixAuditChangesV7 = true) (hs : Registry s)
    (hclear : RevokedClear s) (h : updateValidator P B fc nonce s sender cfg = .ok s') :
    Registry s' ∧ RevokedClear s' ∧ currentFees s' = currentFees s ∧
      s'.validators.pendingRewards = s.validators.pendingRewards := by
  obtain ⟨val, hval, rfl | ⟨-, hkey, hunbound, s1, hrotated, rfl⟩⟩ :=
    updateValidator_spec hbuckets hv7 hs h
  · exact ⟨hs.storeValidator hval rfl, hclear, currentFees_storeValidator hval rfl, rfl⟩
  have hcleared : RevokedClear s1 := hrotated.revokedClear hclear
  refine ⟨hrotated.registry hs hval hkey hunbound rfl, hcleared,
    hrotated.fees hs hval hunbound rfl, ?_⟩
  unfold storeValidator setValidator
  rw [hrotated.validators]

end

/-! ## The end of an epoch -/

def gainsTotal (g : Gains) : Int64 := FMap.sumBy (fun _ amount => amount) g

@[simp] theorem gainsTotal_empty : gainsTotal ∅ = 0 := rfl

theorem gainsTotal_add (g : Gains) (key : Bytes) (value : Int64) :
    gainsTotal (g.add key value) = gainsTotal g + value := by
  unfold gainsTotal Gains.add Gains.get
  rw [FMap.sumBy_write]
  cases g.lookup key with
  | none => simp
  | some old =>
    simp only [getD_some, elim_some]
    abel

theorem gainsTotal_mergeRewards (total localDelegations : Gains) :
    gainsTotal (mergeRewards total localDelegations) =
      gainsTotal total + gainsTotal localDelegations := by
  have hfold : ∀ (l : List (Sigma fun _ : Bytes => Int64)) (g : Gains),
      gainsTotal (l.foldl (fun total e => total.add e.1 e.2) g) =
        gainsTotal g + (l.map fun e => e.2).sum := by
    intro l
    induction l with
    | nil => intro g; simp
    | cons e l ih =>
      intro g
      rw [List.foldl_cons, ih, gainsTotal_add, List.map_cons, List.sum_cons, add_assoc]
  exact hfold _ total

/-- What the delegations of a validator get, with the commission, is what the key collected. -/
theorem calculateDelegationRewards_total {fc : ForkController} {val : ValidatorData}
    {fees totalDelegated : Int64} {delegations g : Gains} (hsc : fc.enableSmartContracts = true)
    (h : calculateDelegationRewards fc val fees delegations totalDelegated = .ok g) :
    gainsTotal g = fees := by
  simp only [calculateDelegationRewards, bind_eq_ok] at h
  obtain ⟨⟨paid, remaining⟩, hloop, h⟩ := h
  -- given and remaining make up the fees after every delegator
  have hsum : gainsTotal paid + remaining = fees := by
    refine foldlM_invariant (P := fun acc : Gains × Int64 => gainsTotal acc.1 + acc.2 = fees)
      (fun acc e acc' hacc hstep => ?_) ?_ hloop
    · simp only [payDelegator, bind_eq_ok, pure_eq_ok] at hstep
      obtain ⟨share, -, rfl⟩ := hstep
      rw [gainsTotal_add, ← hacc, add_assoc, add_sub_cancel]
    have hfirst : gainsTotal ((∅ : Gains).insert val.rewardsAddress (commissionAmount val fees)) =
        commissionAmount val fees := by
      unfold gainsTotal
      rw [FMap.sumBy_insert_of_notMem _ _ rfl, FMap.sumBy_empty, zero_add]
    rw [hfirst, add_sub_cancel]
  split at h
  · cases h
    rw [gainsTotal_add]
    exact hsum
  rename_i hnone
  cases h
  rw [hsc] at hnone
  simp only [ne_eq, and_true, not_not] at hnone
  rwa [hnone, add_zero] at hsum

section
variable {fc : ForkController} {params : Parameters} {epoch : UInt32} {s s' : Chain} {g g' : Gains}

/-- Starting a new epoch on the key of a validator takes the fees off it. -/
theorem finalizeValidatorEpoch_fees {addr : Bytes} {val w : ValidatorData} {p : PeerAccount}
    (hs : Registry s) (hclear : RevokedClear s)
    (hval : s.validators.validators.lookup addr = some val) (hw : w.blsPubKey = val.blsPubKey)
    (hp : p.identity = (peerOf s val.blsPubKey).identity) :
    Registry (finalizeValidatorEpoch s addr w p) ∧
    RevokedClear (finalizeValidatorEpoch s addr w p) ∧
    currentFees (finalizeValidatorEpoch s addr w p) + (peerOf s val.blsPubKey).accumulatedFees =
      currentFees s ∧
    (finalizeValidatorEpoch s addr w p).validators.pendingRewards = s.validators.pendingRewards := by
  have hreset : Registry (s.updatePeer val.blsPubKey p.resetAtNewEpoch) := hs.updatePeer hp
  have hcleared : RevokedClear (s.updatePeer val.blsPubKey p.resetAtNewEpoch) :=
    hclear.updatePeer fun _ => rfl
  have hfees := currentFees_updatePeer (p := p.resetAtNewEpoch) hs hval
  unfold finalizeValidatorEpoch
  rw [hw]
  refine ⟨hreset.storeValidator hval rfl, hcleared, ?_, rfl⟩
  have hstored := currentFees_storeValidator (s := s.updatePeer val.blsPubKey p.resetAtNewEpoch)
    hval (w := { w with
      blsPubKey := val.blsPubKey
      waiting := p.list = .waiting
      totalRewards := w.totalRewards + p.accumulatedFees }) rfl
  refine (congrArg (· + _) (hstored.trans hfees)).trans ?_
  change currentFees s + (0 - _) + _ = _
  rw [add_assoc, sub_add_cancel, add_zero]

theorem processValidatorEpoch_fees {info : ValidatorInfo} (hsc : fc.enableSmartContracts = true)
    (hs : Registry s) (hclear : RevokedClear s)
    (h : processValidatorEpoch fc params epoch (s, g) info = .ok (s', g')) :
    Registry s' ∧ RevokedClear s' ∧ currentFees s' + gainsTotal g' = currentFees s + gainsTotal g ∧
      s'.validators.pendingRewards = s.validators.pendingRewards := by
  simp only [processValidatorEpoch, getValidator, bind_eq_ok, orError_eq_ok, loadPeer_eq_ok,
    pure_eq_ok] at h
  obtain ⟨val, hval, _, ⟨-, rfl⟩, paid, hpaid, heq⟩ := h
  cases heq
  have htotal := calculateDelegationRewards_total hsc hpaid
  generalize hstored : updateStakingBuckets fc s.validators info.ownerAddress _ _ = stored at *
  obtain ⟨v, total⟩ := stored
  -- dropping bookings is apart from keys and fees
  obtain ⟨hvalidators, hpending⟩ : v.validators = s.validators.validators ∧
      v.pendingRewards = s.validators.pendingRewards := by
    unfold updateStakingBuckets at hstored
    split at hstored <;> cases hstored <;> exact ⟨rfl, rfl⟩
  have hs1 : Registry { s with validators := v } :=
    hs.congr (fun _ => rfl) fun _ => by rw [hvalidators]
  have hval1 : v.validators.lookup info.ownerAddress = some val := by rwa [hvalidators]
  have hfees1 : currentFees { s with validators := v } = currentFees s := by
    unfold currentFees
    rw [hvalidators]
    rfl
  have hkey := (updateValidatorJailStatus_frame
    { val with selfStaked := decide (params.getParameterInt .MinSelfDelegatedAmount ≤ val.selfStake) }
    (peerOf s val.blsPubKey) epoch).2.2.2
  generalize updateValidatorJailStatus _ _ _ = w at hkey ⊢
  have hid := updatePeerListStatus_identity w (peerOf s val.blsPubKey)
    (params.getParameterInt .MinSelfDelegatedAmount)
    (params.getParameterInt .MinTotalDelegatedAmount) total
  generalize updatePeerListStatus w _ _ _ _ = p at hid ⊢
  obtain ⟨hregistry, hcleared, hsum, hkept⟩ :=
    finalizeValidatorEpoch_fees hs1 hclear hval1 hkey hid
  refine ⟨hregistry, hcleared, ?_, hkept.trans hpending⟩
  have hmoved : _ + (peerOf s val.blsPubKey).accumulatedFees = _ := hsum
  rw [gainsTotal_mergeRewards, htotal, ← hfees1, ← hmoved, add_assoc, add_comm (gainsTotal g)]

variable {v v' : ValidatorStore} {address : Bytes} {amount : Int64}

theorem setPendingRewards_total (h : setPendingRewards v address amount = .ok v') :
    pendingTotal v' + getPendingRewards v address = pendingTotal v + amount ∧
      v'.validators = v.validators := by
  simp only [setPendingRewards, bind_eq_ok] at h
  obtain ⟨_, -, h⟩ := h
  have hget : getPendingRewards v address =
      (v.pendingRewards.lookup address).elim 0 fun amount => amount := by
    unfold getPendingRewards
    cases v.pendingRewards.lookup address <;> rfl
  rw [hget]
  split at h
  · rename_i hzero
    cases h
    rw [hzero, add_zero]
    exact ⟨FMap.sumBy_erase _ _ _, rfl⟩
  · cases h
    exact ⟨FMap.sumBy_insert _ _ _ _, rfl⟩

theorem addToPendingRewards_total (h : addToPendingRewards v address amount = .ok v') :
    pendingTotal v' = pendingTotal v + amount := by
  unfold addToPendingRewards at h
  split at h
  · rename_i hzero
    cases h
    rw [hzero, add_zero]
  · have hset := (setPendingRewards_total h).1
    rw [add_comm (getPendingRewards v address), ← add_assoc] at hset
    exact add_right_cancel hset

theorem savePendingRewards_total (h : savePendingRewards v g = .ok v') :
    pendingTotal v' = pendingTotal v + gainsTotal g := by
  have hrun := foldlM_rule (P := fun rest w => pendingTotal w +
    (List.map (fun e : Sigma fun _ : Bytes => Int64 => e.2) rest).sum =
      pendingTotal v + gainsTotal g) ?_ g.entries v v' rfl h
  · simpa using hrun
  · intro w e rest w' hw hstep
    rw [addToPendingRewards_total hstep, ← hw, List.map_cons, List.sum_cons, add_assoc]

theorem claimPendingRewards_total (h : claimPendingRewards v address = .ok (v', amount)) :
    pendingTotal v' + amount = pendingTotal v ∧ v'.validators = v.validators := by
  unfold claimPendingRewards at h
  dsimp only at h
  split at h
  · cases h
    exact ⟨add_zero _, rfl⟩
  simp only [bind_eq_ok, pure_eq_ok, Prod.mk.injEq] at h
  obtain ⟨w, hset, rfl, rfl⟩ := h
  have htotal := setPendingRewards_total hset
  rw [add_zero] at htotal
  exact htotal

/-- The end of an epoch turns fees into pending rewards. -/
theorem processEconomicsEndOfEpoch_fees {infos : List ValidatorInfo}
    (hsc : fc.enableSmartContracts = true) (hs : Registry s) (hclear : RevokedClear s)
    (h : processEconomicsEndOfEpoch fc params epoch infos s = .ok s') :
    Registry s' ∧ RevokedClear s' ∧
      currentFees s' + pendingTotal s'.validators = currentFees s + pendingTotal s.validators := by
  simp only [processEconomicsEndOfEpoch, bind_eq_ok, pure_eq_ok] at h
  obtain ⟨⟨s1, g⟩, hloop, v, hsave, rfl⟩ := h
  have hrun : Registry s1 ∧ RevokedClear s1 ∧ currentFees s1 + gainsTotal g = currentFees s ∧
      s1.validators.pendingRewards = s.validators.pendingRewards := by
    refine foldlM_invariant (P := fun acc : Chain × Gains => Registry acc.1 ∧ RevokedClear acc.1 ∧
      currentFees acc.1 + gainsTotal acc.2 = currentFees s ∧
      acc.1.validators.pendingRewards = s.validators.pendingRewards) ?_
      ⟨hs, hclear, by rw [gainsTotal_empty, add_zero], rfl⟩ hloop
    rintro ⟨t, g⟩ info ⟨t', g'⟩ ⟨ht, hcleared, hsum, hpending⟩ hstep
    obtain ⟨ht', hcleared', hsum', hpending'⟩ := processValidatorEpoch_fees hsc ht hcleared hstep
    exact ⟨ht', hcleared', hsum'.trans hsum, hpending'.trans hpending⟩
  obtain ⟨hs1, hclear1, hsum, hpending⟩ := hrun
  have hsaved := savePendingRewards_total hsave
  have hsame : pendingTotal s1.validators = pendingTotal s.validators := by
    unfold pendingTotal
    rw [hpending]
  have hvalidators : v.validators = s1.validators.validators := by
    obtain ⟨m, rfl⟩ := savePendingRewards_frame hsave
    rfl
  have hfees : currentFees { s1 with validators := v } = currentFees s1 := by
    unfold currentFees
    rw [hvalidators]
    rfl
  refine ⟨hs1.congr (fun _ => rfl) fun _ => by rw [hvalidators], hclear1, ?_⟩
  rw [hfees, hsaved, hsame, ← hsum, add_assoc, add_comm (gainsTotal g)]

end

/-! ## Runs -/

/-- What a block, a validator, the end of an epoch or a claimer may do. -/
inductive RewardStep where
  | credit (params : Parameters) (validatorList : List Bytes) (signingBitmap : Bytes) (fees : Int64)
  | update (blockNonce : UInt64) (sender : Bytes) (cfg : ValidatorConfig)
  | epochEnd (params : Parameters) (epoch : UInt32) (validatorInfos : List ValidatorInfo)
  | claim (address : Bytes)

/-- The chain, with the fees passed to the crediting of blocks and the amounts claimed so far. -/
structure RewardState where
  chain : Chain
  credited : Int64
  claimed : Int64

section
variable (R : Rater) (P : Platform) (B : BlsVerifier) (fc : ForkController)

variable (st : RewardState)

def rewardStep : RewardStep → Option RewardState
  | .credit params validatorList bitmap fees =>
    (updateValidatorInfoOnSuccessfulBlock R fc P params validatorList bitmap fees
      st.chain).toOption.map fun s => { st with chain := s, credited := st.credited + fees }
  | .update nonce sender cfg =>
    (updateValidator P B fc nonce st.chain sender cfg).toOption.map fun s => { st with chain := s }
  | .epochEnd params epoch infos =>
    (processEconomicsEndOfEpoch fc params epoch infos st.chain).toOption.map fun s =>
      { st with chain := s }
  | .claim address =>
    (claimPendingRewards st.chain.validators address).toOption.map fun paid =>
      { st with
        chain := { st.chain with validators := paid.1 }
        claimed := st.claimed + paid.2 }

/-- A step; one that fails changes nothing. -/
def execReward (step : RewardStep) : RewardState :=
  (rewardStep R P B fc st step).getD st

def runRewards (steps : List RewardStep) : RewardState :=
  steps.foldl (execReward R P B fc) st

/-- The committee of a block has a leader that signed, and its keys belong or belonged to
validators. -/
def RewardStep.Elects (s : Chain) : RewardStep → Prop
  | .credit _ validatorList bitmap _ =>
    validatorList ≠ [] ∧ signedBit bitmap 0 = true ∧ ∀ key ∈ validatorList, Known s key
  | _ => True

/-- Every block of a run has such a committee when it is credited. -/
def ElectsThroughout (st : RewardState) : List RewardStep → Prop
  | [] => True
  | step :: steps => step.Elects st.chain ∧ ElectsThroughout (execReward R P B fc st step) steps

/-- What waits, what is pending and what was claimed. -/
def RewardState.held : Int64 :=
  currentFees st.chain + pendingTotal st.chain.validators + st.claimed

end

section
variable {R : Rater} {P : Platform} {B : BlsVerifier} {fc : ForkController} {st st' : RewardState}

structure FeesKept (start st : RewardState) : Prop where
  registry : Registry st.chain
  revoked : RevokedClear st.chain
  held : st.held + start.credited = start.held + st.credited

variable {start : RewardState} {step : RewardStep}

section
variable (hbuckets : fc.fixStakingBuckets = true) (hv7 : fc.fixAuditChangesV7 = true)
  (hsc : fc.enableSmartContracts = true)
include hbuckets hv7 hsc

theorem rewardStep_kept (hkept : FeesKept start st) (helects : step.Elects st.chain)
    (h : rewardStep R P B fc st step = some st') :
    FeesKept start st' := by
  obtain ⟨hs, hclear, hheld⟩ := hkept
  cases step with
  | credit params validatorList bitmap fees =>
    obtain ⟨s', hok, rfl⟩ := toOption_map_eq_some.1 h
    obtain ⟨hsame, hclear', hfees⟩ := updateValidatorInfoOnSuccessfulBlock_fees hv7 hs hclear
      helects.1 helects.2.1 helects.2.2 hok
    refine ⟨hsame.registry hs, hclear', ?_⟩
    have hnew : RewardState.held ⟨s', st.credited + fees, st.claimed⟩ = st.held + fees := by
      simp only [RewardState.held, hfees, hsame.validators]
      abel
    rw [hnew, ← add_assoc, ← hheld, add_right_comm]
  | update nonce sender cfg =>
    obtain ⟨s', hok, rfl⟩ := toOption_map_eq_some.1 h
    obtain ⟨hs', hclear', hfees, hpending⟩ := updateValidator_fees hbuckets hv7 hs hclear hok
    refine ⟨hs', hclear', Eq.trans ?_ hheld⟩
    simp only [RewardState.held, pendingTotal, hfees, hpending]
  | epochEnd params epoch infos =>
    obtain ⟨s', hok, rfl⟩ := toOption_map_eq_some.1 h
    obtain ⟨hs', hclear', hsum⟩ := processEconomicsEndOfEpoch_fees hsc hs hclear hok
    refine ⟨hs', hclear', Eq.trans ?_ hheld⟩
    simp only [RewardState.held, hsum]
  | claim address =>
    obtain ⟨⟨v, amount⟩, hok, rfl⟩ := toOption_map_eq_some.1 h
    obtain ⟨htotal, hvalidators⟩ := claimPendingRewards_total hok
    have hfees : currentFees { st.chain with validators := v } = currentFees st.chain := by
      unfold currentFees
      rw [hvalidators]
      rfl
    refine ⟨hs.congr (fun _ => rfl) fun _ => by rw [hvalidators], hclear, Eq.trans ?_ hheld⟩
    simp only [RewardState.held, hfees, ← htotal]
    abel

theorem execReward_kept (hkept : FeesKept start st) (helects : step.Elects st.chain) :
    FeesKept start (execReward R P B fc st step) := by
  unfold execReward
  cases h : rewardStep R P B fc st step with
  | none => exact hkept
  | some st' => exact rewardStep_kept hbuckets hv7 hsc hkept helects h

theorem runRewards_kept (steps : List RewardStep) (hkept : FeesKept start st)
    (helects : ElectsThroughout R P B fc st steps) :
    FeesKept start (runRewards R P B fc st steps) := by
  induction steps generalizing st with
  | nil => exact hkept
  | cons step steps ih =>
    exact ih (execReward_kept hbuckets hv7 hsc hkept helects.1) helects.2

end

/-- **Fees are paid once.**  Over every run, the fees passed to the crediting of blocks are the
increase of what waits on the current keys, what is pending and what was claimed, and no fees wait
on a revoked key. -/
theorem fees_paid_once (hbuckets : fc.fixStakingBuckets = true) (hv7 : fc.fixAuditChangesV7 = true)
    (hsc : fc.enableSmartContracts = true) {s : Chain} (hs : Registry s) (hclear : RevokedClear s)
    (steps : List RewardStep) (helects : ElectsThroughout R P B fc ⟨s, 0, 0⟩ steps) :
    (runRewards R P B fc ⟨s, 0, 0⟩ steps).credited =
      (runRewards R P B fc ⟨s, 0, 0⟩ steps).held - (currentFees s + pendingTotal s.validators) ∧
    RevokedClear (runRewards R P B fc ⟨s, 0, 0⟩ steps).chain := by
  have hstarted : FeesKept ⟨s, 0, 0⟩ ⟨s, 0, 0⟩ := ⟨hs, hclear, rfl⟩
  have hkept := runRewards_kept hbuckets hv7 hsc steps hstarted helects
  refine ⟨?_, hkept.revoked⟩
  have hheld := hkept.held
  have hstart : RewardState.held ⟨s, 0, 0⟩ = currentFees s + pendingTotal s.validators := add_zero _
  rw [hstart, add_zero] at hheld
  rw [hheld, add_sub_cancel_left]

end

instance (s : Chain) (key : Bytes) : Decidable (Known s key) :=
  inferInstanceAs (Decidable ((peerOf s key).ownerAddress ≠ []))

instance (s : Chain) : (step : RewardStep) → Decidable (step.Elects s)
  | .credit _ validatorList bitmap _ => inferInstanceAs (Decidable (validatorList ≠ [] ∧
      signedBit bitmap 0 = true ∧ ∀ key ∈ validatorList, Known s key))
  | .update .. | .epochEnd .. | .claim _ => inferInstanceAs (Decidable True)

instance (R : Rater) (P : Platform) (B : BlsVerifier) (fc : ForkController) :
    (st : RewardState) → (steps : List RewardStep) → Decidable (ElectsThroughout R P B fc st steps)
  | _, [] => inferInstanceAs (Decidable True)
  | st, step :: steps =>
    have := instDecidableElectsThroughout R P B fc (execReward R P B fc st step) steps
    inferInstanceAs (Decidable (step.Elects st.chain ∧
      ElectsThroughout R P B fc (execReward R P B fc st step) steps))

theorem sampleRegistry_revokedClear : RevokedClear sampleRegistry := by
  intro key _
  rw [peerOf_sampleRegistry]
  split_ifs <;> rfl

/-- A block, a rotation of the first key, a block of the same committee, the end of the epoch and
a claim. -/
def sampleRewardSteps : List RewardStep :=
  [.credit ∅ [[21], [22]] [3] 100,
    .update 5 [1] ⟨[23], [7], [], true, 0, 0, [], [], []⟩,
    .credit ∅ [[21], [22]] [1] 50,
    .epochEnd ∅ 3 [⟨[1], [23], .jailed, 0, 0, 0, 0, 0, 0, 0, 0, false⟩,
      ⟨[2], [22], .elected, 0, 0, 0, 0, 0, 0, 0, 0, false⟩],
    .claim [1]]

/-- The fees of both blocks, where the first validator has claimed its part. -/
theorem fees_paid_once_sample :
    let st := runRewards sampleRater samplePlatform sampleVerifier .allActive
      ⟨sampleRegistry, 0, 0⟩ sampleRewardSteps
    (st.credited = 150 ∧ st.claimed = 50 ∧ pendingTotal st.chain.validators = 100) ∧
    st.credited = st.held -
      (currentFees sampleRegistry + pendingTotal sampleRegistry.validators) ∧
    RevokedClear st.chain :=
  ⟨by decide +kernel, fees_paid_once rfl rfl rfl sampleRegistry_registry
    sampleRegistry_revokedClear sampleRewardSteps (by decide +kernel)⟩

/-- Fees credited to a key that no validator ever had wait where no end of an epoch looks. -/
theorem fees_of_unknown_key_lost :
    RevokedClear sampleRegistry ∧
    let st := runRewards sampleRater samplePlatform sampleVerifier .allActive
      ⟨sampleRegistry, 0, 0⟩ [.credit ∅ [[24]] [1] 100]
    st.credited = 100 ∧
    st.held - (currentFees sampleRegistry + pendingTotal sampleRegistry.validators) = 0 :=
  ⟨sampleRegistry_revokedClear, by decide +kernel⟩

end KleverGo.Validators
