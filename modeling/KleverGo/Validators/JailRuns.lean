import KleverGo.Staking.Principal
import KleverGo.Validators.Jail

/-!
# Jail over runs

A validator is jailed while the list of its current key says so.  Rotations and staking calls keep
it jailed, `Unjail` lets it out.  `jail_kept_iff`: **over every run, jail is left only through
`Unjail` exactly if in the first block of every epoch the jailed validators in the lists of the
epoch have a low rating**, and no lists made while a validator is jailed contain it.

The condition can fail: `jail_left_after_epoch_start` is a validator that is jailed for a missed
slot in the epoch-start block, after the lists were made, whose rating is raised again in the same
block because it led the block before.
-/

namespace KleverGo.Validators

open Staking Option Sharding

section
variable {P : Platform} {B : BlsVerifier} {fc : ForkController} {s s' : Chain}

/-! ## Transactions -/

variable {nonce : UInt64} {sender : Bytes}

theorem updateValidator_jail {cfg : ValidatorConfig} (hbuckets : fc.fixStakingBuckets = true)
    (hv7 : fc.fixAuditChangesV7 = true) (hs : Registry s)
    (h : updateValidator P B fc nonce s sender cfg = .ok s') :
    Registry s' ∧ ∀ x, Jailed s x → Jailed s' x := by
  obtain ⟨val, hval, rfl | ⟨-, hkey, hunbound, s1, hrotated, rfl⟩⟩ :=
    updateValidator_spec hbuckets hv7 hs h
  · have hkeeps : KeepsJail s (storeValidator s sender (applyValidatorConfig val cfg)) := by
      refine .validators fun x => ?_
      refine (congrArg (Option.map _) (FMap.lookup_insert_eq _ _ _ _)).trans ?_
      split
      · rename_i hx
        rw [hx, hval]
        rfl
      · rfl
    exact ⟨hkeeps.registry hs, fun _ => hkeeps.kept⟩
  · refine ⟨hrotated.registry hs hval hkey hunbound rfl, fun x ⟨w, hw, hlist⟩ => ?_⟩
    have hlookup := lookup_storeValidator s1 sender x
      (applyValidatorConfig { val with blsPubKey := cfg.blsPublicKey } cfg)
    rw [hrotated.validators] at hlookup
    by_cases hx : x = sender
    · rw [hx, hval] at hw
      cases hw
      refine ⟨_, hlookup.trans (if_pos hx), ?_⟩
      rw [peerOf_storeValidator]
      refine (congrArg PeerAccount.list hrotated.new).trans ?_
      unfold jailIfElected
      split <;> first | rfl | exact hlist
    · obtain ⟨hne1, hne2⟩ := Rotated.other_key hs hval rfl hunbound hw hx
      refine ⟨w, hlookup.trans ((if_neg hx).trans hw), ?_⟩
      rw [peerOf_storeValidator, hrotated.others _ hne1 hne2]
      exact hlist

theorem unjail_jail {startRating : UInt32} (hs : Registry s)
    (h : unjail startRating nonce s sender = .ok s') :
    Registry s' ∧ ∀ x, x ≠ sender → Jailed s x → Jailed s' x := by
  simp only [unjail, getValidator, bind_eq_ok, withReceipt_eq_ok, withCode_eq_ok,
    orError_eq_ok, loadPeer_eq_ok, reject_eq_ok, pure_eq_ok] at h
  obtain ⟨val, hval, _, ⟨-, rfl⟩, _, -, rfl⟩ := h
  refine ⟨hs.updatePeer rfl, ?_⟩
  rintro x hx ⟨w, hw, hlist⟩
  refine ⟨w, hw, ?_⟩
  rw [peerOf_updatePeer_ne]
  · exact hlist
  · exact fun hc => hx (hs.key_injective hw hval hc)

/-- The current keys of the validators are the same. -/
def SameKeys (v v' : ValidatorStore) : Prop :=
  ∀ x, (v'.validators.lookup x).map (·.blsPubKey) = (v.validators.lookup x).map (·.blsPubKey)

variable {v v' : ValidatorStore}

theorem sameKeys_setValidator {x : Bytes} {val w : ValidatorData}
    (hval : v.validators.lookup x = some val) (hv' : v'.validators = v.validators)
    (hw : w.blsPubKey = val.blsPubKey) : SameKeys v (setValidator v' x w) := by
  intro y
  refine (congrArg (Option.map _) (FMap.lookup_insert_eq _ _ _ _)).trans ?_
  rw [hv']
  split
  · rename_i hy
    rw [hy, hval, map_some, map_some, hw]
  · rfl

theorem addStake_blsPubKey (val : ValidatorData) (x u : Bytes) (δ : Int64) :
    (addStake val x u δ).blsPubKey = val.blsPubKey := by
  unfold addStake
  split <;> rfl

variable {epoch : UInt32} {validator bucketID : Bytes}

theorem undelegate_sameKeys (h : undelegate fc v epoch validator sender bucketID = .ok v') :
    SameKeys v v' := by
  simp only [undelegate, getValidator, bind_eq_ok, orError_eq_ok, pure_eq_ok] at h
  obtain ⟨val, hval, b, -, _, -, rfl⟩ := h
  exact sameKeys_setValidator hval rfl (addStake_blsPubKey _ _ _ _)

theorem delegate_sameKeys {key : Bytes} {booking : PeerBucket} {replaced : Option PeerBucket}
    (h : delegate fc v validator key booking replaced = .ok v') : SameKeys v v' := by
  simp only [delegate, getValidator, bind_eq_ok, orError_eq_ok, pure_eq_ok] at h
  obtain ⟨val, hval, _, -, rfl⟩ := h
  refine sameKeys_setValidator hval rfl ((addStake_blsPubKey _ _ _ _).trans ?_)
  cases replaced with
  | none => rfl
  | some b => exact addStake_blsPubKey _ _ _ _

/-- A staking call touches no key, and no validator's choice of one. -/
theorem keepsJail_storeRecords (hkeys : SameKeys s.validators v) (sender asset : Bytes)
    (a : UserAccount) (records : ClaimRecords) :
    KeepsJail s (storeRecords { s with validators := v } sender asset a records) :=
  ⟨fun _ => rfl, hkeys, fun _ hk => hk⟩

theorem kappDelegate_sameKeys {toAddress : Bytes} {time : Int64}
    (h : kappDelegate fc s sender time epoch toAddress bucketID = .ok v') :
    SameKeys s.validators v' := by
  simp only [kappDelegate, bind_eq_ok, withCode_eq_ok] at h
  obtain ⟨a, -, val, -, b, -, _, -, _, -, _, -, v, hleave, hdelegate⟩ := h
  have hleft : SameKeys s.validators v := by
    unfold leaveCurrent at hleave
    split at hleave
    · cases hleave
      exact fun _ => rfl
    · rw [withCode_eq_ok] at hleave
      exact undelegate_sameKeys hleave
  exact fun x => (delegate_sameKeys hdelegate x).trans (hleft x)

theorem execStaking_keepsJail {tx : StakingTx}
    (h : execStaking P fc s tx = .ok s') : KeepsJail s s' := by
  obtain ⟨ctx, params, sender, call⟩ := tx
  cases call with
  | freeze tc =>
    simp only [execStaking, kappFreeze, bind_eq_ok, pure_eq_ok] at h
    obtain ⟨_, -, a, -, _, -, kda, -, _, -, st, -, _, -, _, -, r, -, _, -, q, -, q', -, rfl⟩ := h
    exact keepsJail_storeRecords (fun _ => rfl) _ _ _ _
  | unfreeze tc =>
    simp only [execStaking, kappUnfreeze, bind_eq_ok] at h
    obtain ⟨a, -, kda, -, _, -, st, -, _, -, r, -, q, -, ⟨v, k⟩, hleave, hvotes⟩ := h
    obtain ⟨σ, rfl⟩ := handleProposalVotesOnUnfreeze_frame hvotes
    have hkeys : SameKeys s.validators v := by
      unfold leaveDelegation at hleave
      split at hleave
      · cases hleave
        exact fun _ => rfl
      simp only [bind_eq_ok, kappUndelegate, withCode_eq_ok] at hleave
      obtain ⟨v1, hundelegate, hleave⟩ := hleave
      have hv : v = v1 := by
        split at hleave
        · simp only [bind_eq_ok, pure_eq_ok, Prod.mk.injEq] at hleave
          obtain ⟨_, -, rfl, -⟩ := hleave
          rfl
        · cases hleave
          rfl
      rw [hv]
      exact undelegate_sameKeys hundelegate
    have hstored := keepsJail_storeRecords hkeys sender (UserAccount.assetOf tc.assetID) r.2.1
      ⟨updateFPRTotalStake fc ctx.epoch (UserAccount.assetOf tc.assetID) q.1, r.2.2.kda, k⟩
    exact ⟨hstored.identity, hstored.keys, hstored.jailed⟩
  | delegate tc =>
    simp only [execStaking, Staking.kappDelegate, bind_eq_ok, pure_eq_ok] at h
    obtain ⟨_, -, _, -, a, -, st, -, kda, -, r, -, v, hdelegate, q, -, rfl⟩ := h
    have hkeys := kappDelegate_sameKeys hdelegate
    exact keepsJail_storeRecords (s := s) hkeys _ _ _ _
  | undelegate bucketID =>
    simp only [execStaking, Staking.kappUndelegate, bind_eq_ok, pure_eq_ok,
      kappUndelegate, withCode_eq_ok] at h
    obtain ⟨_, -, a, -, st, -, kda, -, r, -, q, -, v, hundelegate, rfl⟩ := h
    exact keepsJail_storeRecords (undelegate_sameKeys hundelegate) _ _ _ _
  | withdraw asset =>
    simp only [execStaking, kappWithdraw, bind_eq_ok, pure_eq_ok] at h
    obtain ⟨a, -, st, -, kda, -, _, -, r, -, q, -, rfl⟩ := h
    exact keepsJail_storeRecords (fun _ => rfl) _ _ _ _

end

/-! ## Runs -/

/-- The chain, with the lists of the current epoch; there are none if they could not be made. -/
structure NetworkState where
  chain : Chain
  config : Option NodesConfig

inductive NetworkStep where
  /-- the first block of an epoch, before its transactions -/
  | firstBlock
  /-- the penalties and credits of a block, after its transactions -/
  | peerState (env creditEnv : ConsensusEnv) (params : Parameters)
      (currentSlot previousSlot : UInt64) (previous : Option SignedBlock)
  | epochStart (S : Shuffler) (params : Parameters) (epoch : UInt32) (randomness : Bytes)
  | update (nonce : UInt64) (sender : Bytes) (cfg : ValidatorConfig)
  | unjail (nonce : UInt64) (sender : Bytes)
  | stake (tx : StakingTx)

structure Network where
  rater : Rater
  platform : Platform
  verifier : BlsVerifier
  forks : ForkController
  startRating : UInt32
  consensusGroupSize : Nat

section
variable (N : Network)

section

variable (st : NetworkState)

def networkStep : NetworkStep → Option NetworkState
  | .firstBlock =>
    (saveNodesCoordinatorUpdates N.rater st.config st.chain).toOption.map fun s =>
      { st with chain := s }
  | .peerState env creditEnv params currentSlot previousSlot previous =>
    (updatePeerState N.rater N.forks env N.platform params creditEnv currentSlot previousSlot
      previous st.chain).toOption.map fun s => { st with chain := s }
  | .epochStart S params epoch randomness =>
    (processEpochStart N.rater N.forks params epoch st.chain).toOption.map fun r =>
      { chain := r.1
        config := (epochStartPrepare S N.consensusGroupSize randomness r.2).toOption }
  | .update nonce sender cfg =>
    (updateValidator N.platform N.verifier N.forks nonce st.chain sender cfg).toOption.map fun s =>
      { st with chain := s }
  | .unjail nonce sender =>
    (unjail N.startRating nonce st.chain sender).toOption.map fun s => { st with chain := s }
  | .stake tx =>
    (execStaking N.platform N.forks st.chain tx).toOption.map fun s => { st with chain := s }

/-- A step; one that fails changes nothing. -/
def execNetwork (step : NetworkStep) : NetworkState :=
  (networkStep N st step).getD st

/-- At the start of an epoch the elected and eligible validators fill a consensus group. -/
def EnoughNodes : NetworkStep → Prop
  | .epochStart _ params epoch _ =>
    ∀ s infos, processEpochStart N.rater N.forks params epoch st.chain = .ok (s, infos) →
      N.consensusGroupSize ≤ (inList .elected infos).length +
        (inList .eligible infos).length
  | _ => True

/-- A jailed validator is let out by its own successful `Unjail` only. -/
def JailKept (step : NetworkStep) : Prop :=
  ∀ x, Jailed st.chain x → Jailed (execNetwork N st step).chain x ∨
    ∃ nonce, step = .unjail nonce x ∧ (networkStep N st step).isSome = true

/-- In the first block of an epoch, if its lists can be saved, the jailed validators among them have
a low rating. -/
def LowRatings : NetworkStep → Prop
  | .firstBlock => (networkStep N st .firstBlock).isSome = true →
    ∀ config, st.config = some config → ∀ x ∈ listed config, Jailed st.chain x →
      ∀ val, st.chain.validators.validators.lookup x = some val →
        isValidatorWithLowRating N.rater (peerOf st.chain val.blsPubKey) = true
  | _ => True

/-- The lists made in a step contain no validator that is jailed when they are made. -/
def ListsFree : NetworkStep → Prop
  | .epochStart S params epoch randomness =>
    ∀ st', networkStep N st (.epochStart S params epoch randomness) = some st' →
      ∀ config, st'.config = some config → ∀ x, Jailed st'.chain x → x ∉ listed config
  | _ => True

end

/-- A property of every step of a run, in the state in which the step is taken. -/
def Throughout (p : NetworkState → NetworkStep → Prop) : NetworkState → List NetworkStep → Prop
  | _, [] => True
  | st, step :: steps => p st step ∧ Throughout p (execNetwork N st step) steps

end

section
variable {N : Network} {st st' : NetworkState} {step : NetworkStep}

/-- What every successful step but the first block of an epoch does. -/
theorem networkStep_jail (hbuckets : N.forks.fixStakingBuckets = true)
    (hv7 : N.forks.fixAuditChangesV7 = true) (hs : Registry st.chain) (hstep : step ≠ .firstBlock)
    (h : networkStep N st step = some st') :
    Registry st'.chain ∧ ∀ x, Jailed st.chain x → Jailed st'.chain x ∨
      ∃ nonce, step = .unjail nonce x := by
  have hkeeps : ∀ {s : Chain}, KeepsJail st.chain s → Registry s ∧
      ∀ x, Jailed st.chain x → Jailed s x ∨ ∃ nonce, step = .unjail nonce x :=
    fun hk => ⟨hk.registry hs, fun _ hx => .inl (hk.kept hx)⟩
  cases step with
  | firstBlock => exact absurd rfl hstep
  | peerState env creditEnv params currentSlot previousSlot previous =>
    obtain ⟨s, hok, rfl⟩ := toOption_map_eq_some.1 h
    exact hkeeps (updatePeerState_keepsJail hok)
  | epochStart S params epoch randomness =>
    obtain ⟨⟨s, infos⟩, hok, rfl⟩ := toOption_map_eq_some.1 h
    exact hkeeps (processEpochStart_spec hs hok).1
  | update nonce sender cfg =>
    obtain ⟨s, hok, rfl⟩ := toOption_map_eq_some.1 h
    obtain ⟨hs', hjail⟩ := updateValidator_jail hbuckets hv7 hs hok
    exact ⟨hs', fun x hx => .inl (hjail x hx)⟩
  | unjail nonce sender =>
    obtain ⟨s, hok, rfl⟩ := toOption_map_eq_some.1 h
    obtain ⟨hs', hjail⟩ := unjail_jail hs hok
    refine ⟨hs', fun x hx => ?_⟩
    by_cases hsender : x = sender
    · exact .inr ⟨nonce, by rw [hsender]⟩
    · exact .inl (hjail x hsender hx)
  | stake tx =>
    obtain ⟨s, hok, rfl⟩ := toOption_map_eq_some.1 h
    exact hkeeps (execStaking_keepsJail hok)

theorem networkStep_firstBlock (hs : Registry st.chain)
    (h : networkStep N st .firstBlock = some st') :
    ∃ config, st.config = some config ∧
      ListsSaved N.rater (listed config) st.chain st'.chain := by
  obtain ⟨s, hok, rfl⟩ := toOption_map_eq_some.1 h
  exact saveNodesCoordinatorUpdates_saved hs hok

theorem execNetwork_registry (hbuckets : N.forks.fixStakingBuckets = true)
    (hv7 : N.forks.fixAuditChangesV7 = true) (hs : Registry st.chain) (step : NetworkStep) :
    Registry (execNetwork N st step).chain := by
  unfold execNetwork
  cases h : networkStep N st step with
  | none => exact hs
  | some st' =>
    by_cases hfirst : step = .firstBlock
    · rw [hfirst] at h
      obtain ⟨config, -, hsaved⟩ := networkStep_firstBlock hs h
      exact hsaved.registry hs
    · exact (networkStep_jail hbuckets hv7 hs hfirst h).1

/-- A step keeps the jail exactly if the ratings of the jailed validators in the lists are low. -/
theorem jailKept_step_iff (hbuckets : N.forks.fixStakingBuckets = true)
    (hv7 : N.forks.fixAuditChangesV7 = true) (hs : Registry st.chain) (step : NetworkStep) :
    JailKept N st step ↔ LowRatings N st step := by
  by_cases hfirst : step = .firstBlock
  · subst hfirst
    cases h : networkStep N st .firstBlock with
    | none =>
      refine ⟨fun _ hsome => ?_, fun _ x hx => .inl ?_⟩
      · rw [h] at hsome
        cases hsome
      · rw [execNetwork, h]
        exact hx
    | some st' =>
      obtain ⟨config, hconfig, hsaved⟩ := networkStep_firstBlock hs h
      have hexec : (execNetwork N st .firstBlock).chain = st'.chain := by
        rw [execNetwork, h]
        rfl
      refine ⟨fun hkept _ c hc x hx hjailed => ?_, fun hlow x hjailed => .inl ?_⟩
      · rw [hconfig] at hc
        cases hc
        rcases hkept x hjailed with hstill | ⟨nonce, heq, -⟩
        · rw [hexec] at hstill
          exact (hsaved.jailed_iff hjailed).1 hstill hx
        · cases heq
      · rw [hexec, hsaved.jailed_iff hjailed]
        intro hx
        exact hlow (by rw [h]; rfl) config hconfig x hx hjailed
  · have hlow : LowRatings N st step := by
      cases step <;> trivial
    refine ⟨fun _ => hlow, fun _ x hx => ?_⟩
    cases h : networkStep N st step with
    | none =>
      left
      rw [execNetwork, h]
      exact hx
    | some st' =>
      rw [execNetwork, h]
      rcases (networkStep_jail hbuckets hv7 hs hfirst h).2 x hx with hstill | ⟨nonce, heq⟩
      · exact .inl hstill
      · exact .inr ⟨nonce, heq, rfl⟩

theorem listsFree_step (hs : Registry st.chain) {step : NetworkStep}
    (henough : EnoughNodes N st step) : ListsFree N st step := by
  cases step with
  | epochStart S params epoch randomness =>
    intro st' h config hconfig x hx hlisted
    obtain ⟨⟨s, infos⟩, hok, rfl⟩ := toOption_map_eq_some.1 h
    rw [toOption_eq_some] at hconfig
    obtain ⟨v, hv, rfl⟩ : ∃ v, (v ∈ config.electedList ∨ v ∈ config.eligibleList ∨
        v ∈ config.waitingList) ∧ v.ownerAddress = x := by
      simp only [listed, List.mem_append, List.mem_map] at hlisted
      rcases hlisted with (⟨v, hv, rfl⟩ | ⟨v, hv, rfl⟩) | ⟨v, hv, rfl⟩
      · exact ⟨v, .inl hv, rfl⟩
      · exact ⟨v, .inr (.inl hv), rfl⟩
      · exact ⟨v, .inr (.inr hv), rfl⟩
    obtain ⟨info, hinfo, hlist, howner⟩ :=
      epochStartPrepare_lists (henough s infos hok) hconfig hv
    exact hlist ((processEpochStart_spec hs hok).2 info hinfo (howner ▸ hx))
  | firstBlock | peerState | update | unjail | stake => trivial

/-- **Jail is left only through `Unjail`**, over every run in which the elected and eligible
validators fill a consensus group, exactly if the jailed validators in the lists that are saved have
a low rating; and no lists made while a validator is jailed contain it. -/
theorem jail_kept_iff (hbuckets : N.forks.fixStakingBuckets = true)
    (hv7 : N.forks.fixAuditChangesV7 = true) (hs : Registry st.chain) (steps : List NetworkStep)
    (henough : Throughout N (EnoughNodes N) st steps) :
    (Throughout N (JailKept N) st steps ↔ Throughout N (LowRatings N) st steps) ∧
      Throughout N (ListsFree N) st steps := by
  induction steps generalizing st with
  | nil => exact ⟨Iff.rfl, trivial⟩
  | cons step steps ih =>
    obtain ⟨hiff, hfree⟩ := ih (execNetwork_registry hbuckets hv7 hs step) henough.2
    exact ⟨and_congr (jailKept_step_iff hbuckets hv7 hs step) hiff,
      listsFree_step hs henough.1, hfree⟩

end

/-- Ratings in steps as the network has them: a leader gains more than a member of a missed group
loses, and ratings from one to ten are too low. -/
def sampleStepRater : Rater where
  computeIncreaseProposer rating := rating + 20
  computeIncreaseValidator rating := rating + 1
  computeDecreaseProposer rating _ := rating - 80
  computeDecreaseValidator rating := rating - 4
  revertIncreaseValidator rating _ := rating
  getChance rating := if rating = 0 then 5 else if rating ≤ 10 then 0 else 16
  belowThreshold _ _ := false

def sampleNetwork : Network where
  rater := sampleStepRater
  platform := samplePlatform
  verifier := sampleVerifier
  forks := .allActive
  startRating := 50
  consensusGroupSize := 2

/-- The elected validators `[1]` and `[2]`, with ratings 12 and 100. -/
def sampleElected : Chain :=
  (sampleRegistry.updatePeer [21] { peerOf sampleRegistry [21] with tempRating := 12 }).updatePeer
    [22] { peerOf sampleRegistry [22] with tempRating := 100 }

theorem sampleElected_registry : Registry sampleElected := by
  refine Registry.updatePeer ?_ rfl
  exact Registry.updatePeer sampleRegistry_registry rfl

/-- The first validator led the block in slot 5; in slot 6, where it is a member, no block came. -/
def sampleEnv : ConsensusEnv where
  computeConsensusGroup slot :=
    if slot = 5 then .ok [⟨[1], [21], 0⟩, ⟨[2], [22], 0⟩] else .ok [⟨[2], [22], 0⟩, ⟨[1], [21], 0⟩]
  electedKeys := [[21], [22]]
  consensusGroupSize := 2
  maxComputableSlots := 100
  floatAppearances _ _ _ := (0, 0)

/-- The epoch-start block in slot 7: the start of the epoch, then the penalties for slot 6 and the
credits of slot 5. -/
def sampleEpochStart : List NetworkStep :=
  [.epochStart ⟨fun b => b, 2, 2⟩ ∅ 3 [9],
    .peerState sampleEnv sampleEnv ∅ 7 5 (some ⟨5, [3], 0⟩)]

instance (s : Chain) (x : Bytes) : Decidable (Jailed s x) :=
  match h : s.validators.validators.lookup x with
  | none => .isFalse fun ⟨_, hval, _⟩ => by
    rw [h] at hval
    cases hval
  | some val =>
    if hlist : (peerOf s val.blsPubKey).list = .jailed then .isTrue ⟨val, h, hlist⟩
    else .isFalse fun ⟨w, hw, hj⟩ => by
      rw [h] at hw
      cases hw
      exact hlist hj

theorem sampleEpochStart_enough : Throughout sampleNetwork (EnoughNodes sampleNetwork)
    ⟨sampleElected, none⟩ (sampleEpochStart ++ [.firstBlock]) := by
  refine ⟨fun s infos h => ?_, trivial, trivial, trivial⟩
  have hcount : (processEpochStart sampleNetwork.rater sampleNetwork.forks ∅ 3
      (NetworkState.mk sampleElected none).chain).toOption.map (fun r =>
        (inList .elected r.2).length + (inList .eligible r.2).length) =
      some 2 := by
    decide +kernel
  rw [toOption_eq_some.2 h] at hcount
  exact (Option.some.inj hcount).ge

theorem jail_kept_iff_sample :
    (Throughout sampleNetwork (JailKept sampleNetwork) ⟨sampleElected, none⟩
        (sampleEpochStart ++ [.firstBlock]) ↔
      Throughout sampleNetwork (LowRatings sampleNetwork) ⟨sampleElected, none⟩
        (sampleEpochStart ++ [.firstBlock])) ∧
    Throughout sampleNetwork (ListsFree sampleNetwork) ⟨sampleElected, none⟩
      (sampleEpochStart ++ [.firstBlock]) :=
  jail_kept_iff rfl rfl sampleElected_registry _ sampleEpochStart_enough

/-- The jail of the epoch-start block is gone in the next block, without an `Unjail`. -/
theorem jail_left_after_epoch_start :
    Registry sampleElected ∧
    Throughout sampleNetwork (EnoughNodes sampleNetwork) ⟨sampleElected, none⟩
      (sampleEpochStart ++ [.firstBlock]) ∧
    let st := sampleEpochStart.foldl (execNetwork sampleNetwork) ⟨sampleElected, none⟩
    let st' := execNetwork sampleNetwork st .firstBlock
    Jailed st.chain [1] ∧ ¬ Jailed st'.chain [1] :=
  ⟨sampleElected_registry, sampleEpochStart_enough, by decide +kernel⟩

end KleverGo.Validators
