import KleverGo.Staking.Ledger

/-!
# The staked principal

Three ledgers record what is staked: the buckets of a user, the frozen balance of the user's
record and the total of the asset's staking record.

* `Principal`: the three agree, for every user and asset.
* `staking_principal_conserved`: **every run of freezes, unfreezes, delegations and withdrawals
  keeps them in agreement, and moves what a user holds only by the rewards it credits.**
* `unfreeze_at_last_epoch`: the last epoch is the mark of a bucket that is not unfrozen, so an
  unfreeze in that epoch breaks the agreement.
-/

namespace KleverGo.Staking

open UserAccount Chain Option

/-- What a user holds of an asset, free and in buckets. -/
def userHolding (s : Chain) (u y : Bytes) : Int64 :=
  holding ((s.users.lookup u).getD empty) y

/-- The frozen balances of an asset, over all users. -/
def frozenTotal (s : Chain) (x : Bytes) : Int64 :=
  s.users.sumBy fun _ a => (a.getUserKDA x []).frozenBalance

/-- The ledgers of the staked principal agree.  A custom asset has one bucket per user, and KLV
and KFI are assets with pools, as at genesis. -/
structure Principal (s : Chain) : Prop where
  frozen : ∀ u a, s.users.lookup u = some a → ∀ x,
    (a.getUserKDA x []).frozenBalance = stakedValue (a.getUserKDA x [])
  total : ∀ x staking, s.staking.lookup x = some staking → staking.totalStaked = frozenTotal s x
  single : ∀ u a, s.users.lookup u = some a → ∀ x, x ≠ KLVIdentifier → x ≠ KFIIdentifier →
    ∀ key b, (a.getUserKDA x []).bucketMap.lookup key = some b → key = x
  native : ∀ x staking, x = KLVIdentifier ∨ x = KFIIdentifier →
    s.staking.lookup x = some staking → staking.interestType = .FPRI

/-- The rewards a call pays first. -/
def dueGains (P : Platform) (fc : ForkController) (ctx : KappContext) (s : Chain)
    (sender x : Bytes) : Gains :=
  match s.users.lookup sender, s.staking.lookup x, s.kdas.lookup x with
  | some acc, some staking, some kda =>
    ((claimDue P fc ctx x acc ⟨staking, kda, acc.getUserKDA x []⟩).toOption.map Prod.fst).getD ∅
  | _, _, _ => ∅

/-! ## Storing the records of a call -/

section
variable {P : Platform} {fc : ForkController} {ctx : KappContext} {s s1 : Chain} {u x : Bytes}
  {a a' : UserAccount} {k' : UserKDA} {st st' : StakingData} {kda kda' : KDAData}
  {r : Gains × UserAccount × ClaimRecords}

theorem frozenTotal_setUser (s : Chain) (u : Bytes) (a' : UserAccount) (y : Bytes) :
    frozenTotal (s.setUser u a') y = frozenTotal s y +
      ((a'.getUserKDA y []).frozenBalance -
        (((s.users.lookup u).getD empty).getUserKDA y []).frozenBalance) := by
  have h := FMap.sumBy_insert (fun _ a => (getUserKDA a y []).frozenBalance) s.users u a'
  rw [← eq_sub_iff_add_eq] at h
  unfold frozenTotal setUser
  rw [h]
  cases s.users.lookup u with
  | none =>
    have hzero : (empty.getUserKDA y []).frozenBalance = 0 := rfl
    simp only [elim_none, getD_none, hzero]
    abel
  | some b =>
    simp only [elim_some, getD_some]
    abel

theorem dueGains_eq (ha : s.users.lookup u = some a) (hst : s.staking.lookup x = some st)
    (hkda : s.kdas.lookup x = some kda)
    (hclaim : claimDue P fc ctx x a ⟨st, kda, a.getUserKDA x []⟩ = .ok r) :
    dueGains P fc ctx s u x = r.1 := by
  simp only [dueGains, ha, hst, hkda, hclaim]
  rfl

/-- The step of every staking call.  After the claim, a change of the loaded record that keeps
the holdings and moves the frozen balance, the staked buckets and the staked total together keeps
the ledgers in agreement. -/
theorem Principal.store (h : Principal s) (ha : s.users.lookup u = some a)
    (hst : s.staking.lookup x = some st) (hkda : s.kdas.lookup x = some kda)
    (hclaim : claimDue P fc ctx x a ⟨st, kda, a.getUserKDA x []⟩ = .ok r)
    (hworks : Works x 0 (r.2.1, r.2.2.userKDA) (a', k'))
    (hmoves : ∃ δ, stakedValue k' = stakedValue r.2.2.userKDA + δ ∧
      k'.frozenBalance = r.2.2.userKDA.frozenBalance + δ ∧
      st'.totalStaked = r.2.2.staking.totalStaked + δ)
    (htype : st'.interestType = r.2.2.staking.interestType)
    (hsingle : x ≠ KLVIdentifier → x ≠ KFIIdentifier →
      ∀ key b, k'.bucketMap.lookup key = some b → key = x)
    (husers : s1.users = s.users) (hstaking : s1.staking = s.staking) :
    Principal (storeRecords s1 u x a' ⟨st', kda', k'⟩) ∧
    ∀ v y, userHolding (storeRecords s1 u x a' ⟨st', kda', k'⟩) v y =
      userHolding s v y + if v = u then credited (dueGains P fc ctx s u x) y else 0 := by
  obtain ⟨hclaimed, hfrozen, hbuckets, fpr, hfpr⟩ := claimDue_spec hclaim
  obtain ⟨δ, hδstaked, hδfrozen, hδtotal⟩ := hmoves
  have hall := hclaimed.trans hworks
  have hfrozen' : k'.frozenBalance = (a.getUserKDA x []).frozenBalance + δ := by
    rw [hδfrozen, hfrozen]
  have hstaked' : stakedValue k' = stakedValue (a.getUserKDA x []) + δ := by
    rw [hδstaked]
    simp only [stakedValue, UserKDA.bucketMap, hbuckets]
  have hlookup : ∀ v, (storeRecords s1 u x a' ⟨st', kda', k'⟩).users.lookup v =
      if v = u then some (stored x (a', k')) else s.users.lookup v := by
    intro v
    rw [← husers]
    exact FMap.lookup_insert_eq _ _ _ _
  have hrecord : ∀ y, ((stored x (a', k')).getUserKDA y []).frozenBalance =
      if y = x then k'.frozenBalance else (a.getUserKDA y []).frozenBalance := by
    intro y
    rw [stored, frozenBalance_setUserKDA]
    split
    · rfl
    · rename_i hy
      exact hall.frozen y hy
  have hmap : ∀ y, ((stored x (a', k')).getUserKDA y []).bucketMap =
      if y = x then k'.bucketMap else (a.getUserKDA y []).bucketMap := by
    intro y
    rw [stored, bucketMap_setUserKDA]
    split
    · rfl
    · rename_i hy
      exact hall.buckets y hy
  refine ⟨⟨?_, ?_, ?_, ?_⟩, ?_⟩
  · intro v b hb y
    rw [hlookup] at hb
    split at hb
    · cases hb
      simp only [stakedValue, hrecord, hmap]
      split
      · rename_i hy
        rw [hfrozen', h.frozen u a ha x]
        exact hstaked'.symm
      · exact h.frozen u a ha y
    · exact h.frozen v b hb y
  · intro y staking hy
    have htotals : frozenTotal (storeRecords s1 u x a' ⟨st', kda', k'⟩) y =
        frozenTotal s y + if y = x then δ else 0 := by
      have hset := frozenTotal_setUser s u (stored x (a', k')) y
      rw [ha, getD_some, hrecord] at hset
      have heq : frozenTotal (storeRecords s1 u x a' ⟨st', kda', k'⟩) y =
          frozenTotal (s.setUser u (stored x (a', k'))) y := by
        simp only [frozenTotal, storeRecords, setKDA, setStaking, setUser, husers]
        rfl
      rw [heq, hset]
      split
      · rename_i hyx
        rw [hfrozen', hyx]
        abel
      · rw [sub_self]
    rw [htotals]
    have hstore : (storeRecords s1 u x a' ⟨st', kda', k'⟩).staking.lookup y =
        if y = x then some st' else s.staking.lookup y := by
      rw [← hstaking]
      exact FMap.lookup_insert_eq _ _ _ _
    rw [hstore] at hy
    split at hy
    · rename_i hyx
      cases hy
      rw [if_pos hyx, hδtotal, hyx, hfpr]
      exact congrArg (· + δ) (h.total x st hst)
    · rename_i hyx
      rw [if_neg hyx, add_zero]
      exact h.total y staking hy
  · intro v b hb y hklv hkfi key bucket hbucket
    rw [hlookup] at hb
    split at hb
    · cases hb
      rw [hmap] at hbucket
      split at hbucket
      · rename_i hy
        subst hy
        exact hsingle hklv hkfi key bucket hbucket
      · exact h.single u a ha y hklv hkfi key bucket hbucket
    · exact h.single v b hb y hklv hkfi key bucket hbucket
  · intro y staking hnative hy
    have hstore : (storeRecords s1 u x a' ⟨st', kda', k'⟩).staking.lookup y =
        if y = x then some st' else s.staking.lookup y := by
      rw [← hstaking]
      exact FMap.lookup_insert_eq _ _ _ _
    rw [hstore] at hy
    split at hy
    · rename_i hyx
      cases hy
      rw [htype, hfpr]
      exact h.native x st (hyx ▸ hnative) hst
    · exact h.native y staking hnative hy
  · intro v y
    unfold userHolding
    rw [hlookup, dueGains_eq ha hst hkda hclaim]
    split
    · rename_i hv
      rw [hv, ha, getD_some, getD_some]
      have hshift := hall.shifts y
      simp only [add_zero] at hshift
      rw [hshift, holding_stored_loaded]
    · rw [add_zero]

end

/-! ## The calls -/

section
variable {P : Platform} {params : Parameters} {ctx : KappContext} {s s' : Chain} {sender : Bytes}

/-- What a call on an asset does: the ledgers stay in agreement, and the sender is credited the
rewards that are due. -/
def Conserves (P : Platform) (ctx : KappContext) (sender x : Bytes) (s s' : Chain) : Prop :=
  Principal s' ∧ ∀ v y, userHolding s' v y =
    userHolding s v y + if v = sender then credited (dueGains P .allActive ctx s sender x) y else 0

@[simp] theorem updateFPRTotalStake_totalStaked (fc : ForkController) (epoch : UInt32) (x : Bytes)
    (staking : StakingData) :
    (updateFPRTotalStake fc epoch x staking).totalStaked = staking.totalStaked := by
  unfold updateFPRTotalStake
  split <;> rfl

@[simp] theorem updateFPRTotalStake_interestType (fc : ForkController) (epoch : UInt32) (x : Bytes)
    (staking : StakingData) :
    (updateFPRTotalStake fc epoch x staking).interestType = staking.interestType := by
  unfold updateFPRTotalStake
  split <;> rfl

variable {k : UserKDA}

theorem subFromHeldBalance_spec {value : Int64} {x : Bytes} {a a' : UserAccount} {k' : UserKDA}
    (h : subFromHeldBalance value x a k = .ok (a', k')) :
    Works x (entry x (-value)) (a, k) (a', k') ∧ k'.frozenBalance = k.frozenBalance ∧
      k'.buckets = k.buckets := by
  simp only [subFromHeldBalance, bind_eq_ok] at h
  obtain ⟨_, -, h⟩ := h
  split at h
  · rename_i hx
    simp only [bind_eq_ok, pure_eq_ok] at h
    obtain ⟨_, -, h⟩ := h
    cases h
    refine ⟨Works.of_balance ?_, rfl, rfl⟩
    rw [if_pos hx]
    exact ⟨by rw [sub_eq_add_neg], rfl⟩
  · rename_i hx
    simp only [bind_eq_ok, pure_eq_ok] at h
    obtain ⟨_, -, h⟩ := h
    cases h
    refine ⟨Works.of_balance ?_, rfl, rfl⟩
    rw [if_neg hx]
    exact ⟨by rw [sub_eq_add_neg], rfl⟩

theorem stakedValue_congr {k' : UserKDA} (h : k'.buckets = k.buckets) :
    stakedValue k' = stakedValue k := by
  simp only [stakedValue, UserKDA.bucketMap, h]

theorem bucketMap_congr {k' : UserKDA} (h : k'.buckets = k.buckets) :
    k'.bucketMap = k.bucketMap := by
  simp only [UserKDA.bucketMap, h]

variable {key : Bytes} {b : UserBucket}

/-- Writing the one bucket of a custom asset leaves it the only one. -/
theorem single_insert {m : FMap Bytes UserBucket} {x : Bytes} (hkey : key = x)
    (h : ∀ key b, m.lookup key = some b → key = x) :
    ∀ key' b', (m.insert key b).lookup key' = some b' → key' = x := by
  intro key' b' hb'
  rw [FMap.lookup_insert_eq] at hb'
  split at hb'
  · rename_i heq
    exact heq.trans hkey
  · exact h key' b' hb'

theorem kappFreeze_conserves {tc : FreezeContract} (hs : Principal s)
    (h : kappFreeze P .allActive params ctx s sender tc = .ok s') :
    Conserves P ctx sender (assetOf tc.assetID) s s' := by
  simp only [kappFreeze, bind_eq_ok, withReceipt_eq_ok, orError_eq_ok, getStaking, pure_eq_ok] at h
  obtain ⟨_, -, a, ha, _, -, kda, hkda, _, -, st, hst, _, -, _, -, r, hclaim, _, -, ⟨a2, k2⟩, hsub,
    ⟨st3, k3⟩, hfreeze, rfl⟩ := h
  obtain ⟨-, ha⟩ := getExistingUser_spec ha
  obtain ⟨hpay, hfrozen2, hbuckets2⟩ := subFromHeldBalance_spec hsub
  obtain ⟨hvalue, hbalance, δ, hδ⟩ := freeze_ledger rfl hfreeze
  obtain ⟨-, -, hclaimed, -⟩ := claimDue_spec hclaim
  refine hs.store ha hst hkda hclaim ?_ ⟨δ, ?_, ?_, ?_⟩ ?_ ?_ rfl rfl
  · refine (hpay.trans (Works.of_record (v := tc.amount) ?_)).of_eq ?_
    · rw [hvalue, hbalance, add_assoc]
    · rw [entry_add, neg_add_cancel, entry_zero]
  · rw [hδ.1, stakedValue_congr hbuckets2]
  · rw [hδ.2.1, hfrozen2]
  · rw [updateFPRTotalStake_totalStaked, hδ.2.2]
  · rw [updateFPRTotalStake_interestType, hδ.2.2]
  intro hklv hkfi
  obtain ⟨-, key, old, rfl, -, -, rfl⟩ := freeze_spec hfreeze
  refine single_insert (parsedBucketID_custom hklv hkfi _) ?_
  rw [bucketMap_congr hbuckets2, bucketMap_congr hclaimed]
  exact hs.single sender a ha _ hklv hkfi

variable {v v' : ValidatorStore} {epoch : UInt32} {bucketID delegation : Bytes}

/-- Leaving a delegation writes at most the delegation of a bucket. -/
theorem leaveDelegation_cases {fc : ForkController} {k' : UserKDA}
    (h : leaveDelegation fc v epoch sender bucketID delegation k = .ok (v', k')) :
    k' = k ∨ ∃ key b, k.bucketMap.lookup key = some b ∧
      k' = { k with buckets := some (k.bucketMap.insert key { b with delegation := [] }) } := by
  unfold leaveDelegation at h
  split at h
  · cases h
    exact .inl rfl
  simp only [bind_eq_ok] at h
  obtain ⟨v1, -, h⟩ := h
  split at h
  · simp only [bind_eq_ok, pure_eq_ok, withCode_eq_ok, undelegate, orError_eq_ok] at h
    obtain ⟨⟨k1, _⟩, ⟨b, hb, _, -, heq⟩, heq'⟩ := h
    cases heq
    cases heq'
    exact .inr ⟨_, b, hb, rfl⟩
  · cases h
    exact .inl rfl

/-- Leaving a delegation changes no sum and no key of the record. -/
theorem leaveDelegation_spec {fc : ForkController} {k' : UserKDA}
    (h : leaveDelegation fc v epoch sender bucketID delegation k = .ok (v', k')) :
    bucketValue k' = bucketValue k ∧ stakedValue k' = stakedValue k ∧ k'.balance = k.balance ∧
      k'.frozenBalance = k.frozenBalance ∧
      ∀ key, k'.bucketMap.lookup key = none ↔ k.bucketMap.lookup key = none := by
  rcases leaveDelegation_cases h with rfl | ⟨key, b, hb, rfl⟩
  · exact ⟨rfl, rfl, rfl, rfl, fun _ => Iff.rfl⟩
  obtain ⟨hvalue, hstaked⟩ := writeDelegation_ledger hb []
  refine ⟨hvalue, hstaked, rfl, rfl, fun key' => ?_⟩
  change (k.bucketMap.insert _ _).lookup key' = none ↔ _
  rw [FMap.lookup_insert_eq]
  split
  · rename_i hkey
    rw [hkey, hb]
    simp
  · rfl

theorem handleProposalVotesOnUnfreeze_frame {fc : ForkController} {a : UserAccount} {x : Bytes}
    {amount : Int64} (h : Governance.handleProposalVotesOnUnfreeze fc s a x sender amount = .ok s') :
    ∃ σ, s' = { s with proposals := σ } := by
  unfold Governance.handleProposalVotesOnUnfreeze at h
  split at h
  · cases h
    exact ⟨s.proposals, rfl⟩
  · simp only [bind_eq_ok, pure_eq_ok] at h
    obtain ⟨σ, -, rfl⟩ := h
    exact ⟨σ, rfl⟩

theorem Principal.of_proposals (h : Principal s) (σ : ProposalStore) :
    Principal { s with proposals := σ } := ⟨h.frozen, h.total, h.single, h.native⟩

section
variable (hs : Principal s)
include hs

theorem kappUnfreeze_conserves {tc : UnfreezeContract} (hepoch : ctx.epoch ≠ DefaultUnstakedEpoch)
    (h : kappUnfreeze P .allActive ctx s sender tc = .ok s') :
    Conserves P ctx sender (assetOf tc.assetID) s s' := by
  simp only [kappUnfreeze, bind_eq_ok, withReceipt_eq_ok, withCode_eq_ok, orError_eq_ok,
    getStaking] at h
  obtain
    ⟨a, ha, kda, hkda, _, -, st, hst, _, -, r, hclaim, ⟨st3, k3, delegation, amount⟩, hunfreeze,
    ⟨v, k4⟩, hleave, hvotes⟩ := h
  obtain ⟨-, ha⟩ := getExistingUser_spec ha
  obtain ⟨σ, rfl⟩ := handleProposalVotesOnUnfreeze_frame hvotes
  obtain ⟨-, hfrozen1, hclaimed, fpr, hfpr⟩ := claimDue_spec hclaim
  have hsingle : assetOf tc.assetID ≠ KLVIdentifier →
      assetOf tc.assetID ≠ KFIIdentifier →
      ∀ key b, r.2.2.userKDA.bucketMap.lookup key = some b → key = assetOf tc.assetID := by
    rw [bucketMap_congr hclaimed]
    exact hs.single sender a ha _
  obtain ⟨hvalue, hbalance, δ, hδ⟩ := unfreeze_ledger hepoch
    (by rw [hfrozen1, stakedValue_congr hclaimed]; exact hs.frozen sender a ha _)
    (fun hapr key b hb => by
      -- an asset with an APR is a custom asset
      have hne : ∀ y, y = KLVIdentifier ∨ y = KFIIdentifier → assetOf tc.assetID ≠ y := by
        rintro y hy rfl
        have hfpri := hs.native _ st hy hst
        rw [hfpr] at hapr
        rw [show st.interestType = .APRI from hapr] at hfpri
        cases hfpri
      rw [parsedBucketID_custom (hne _ (.inl rfl)) (hne _ (.inr rfl))]
      exact hsingle (hne _ (.inl rfl)) (hne _ (.inr rfl)) key b hb)
    hunfreeze
  obtain ⟨hvalue4, hstaked4, hbalance4, hfrozen4, hkeys4⟩ := leaveDelegation_spec hleave
  have hstored : Conserves P ctx sender (assetOf tc.assetID) s
      (storeRecords { s with validators := v } sender (assetOf tc.assetID) r.2.1
        ⟨updateFPRTotalStake .allActive ctx.epoch (assetOf tc.assetID) st3, r.2.2.kda,
          k4⟩) := by
    refine hs.store ha hst hkda hclaim ?_ ⟨δ, ?_, ?_, ?_⟩ ?_ ?_ rfl rfl
    · refine (Works.of_record (v := 0) ?_).of_eq (entry_zero _)
      rw [hvalue4, hbalance4, hvalue, hbalance, add_zero]
    · rw [hstaked4, hδ.1]
    · rw [hfrozen4, hδ.2.1]
    · rw [updateFPRTotalStake_totalStaked, hδ.2.2]
    · rw [updateFPRTotalStake_interestType, hδ.2.2]
    intro hklv hkfi key b hb
    obtain ⟨_, b0, rfl, hb0, -, -, rfl, -, -⟩ := unfreeze_spec hunfreeze
    have hne : k4.bucketMap.lookup key ≠ none := by rw [hb]; exact some_ne_none _
    rw [ne_eq, hkeys4] at hne
    obtain ⟨b3, hb3⟩ := ne_none_iff_exists'.1 hne
    exact single_insert (parsedBucketID_custom hklv hkfi _) (hsingle hklv hkfi) key b3 hb3
  exact ⟨hstored.1.of_proposals σ, hstored.2⟩

/-- Setting the delegation of a KLV bucket is a step that moves nothing. -/
theorem Principal.store_delegation {a : UserAccount} {st : StakingData} {kda : KDAData}
    {r : Gains × UserAccount × ClaimRecords} (ha : s.users.lookup sender = some a)
    (hst : s.staking.lookup KLVIdentifier = some st) (hkda : s.kdas.lookup KLVIdentifier = some kda)
    (hclaim : claimDue P .allActive ctx KLVIdentifier a ⟨st, kda, a.getUserKDA KLVIdentifier []⟩ =
      .ok r)
    (hb : r.2.2.userKDA.bucketMap.lookup key = some b) :
    Conserves P ctx sender KLVIdentifier s
      (storeRecords { s with validators := v } sender KLVIdentifier r.2.1
        { r.2.2 with userKDA := { r.2.2.userKDA with
          buckets := some (r.2.2.userKDA.bucketMap.insert key
            { b with delegation := delegation }) } }) := by
  obtain ⟨hvalue, hstaked⟩ := writeDelegation_ledger hb delegation
  refine hs.store ha hst hkda hclaim ?_ ⟨0, ?_, ?_, ?_⟩ rfl (fun hne => absurd rfl hne) rfl rfl
  · refine (Works.of_record (v := 0) ?_).of_eq (entry_zero _)
    rw [hvalue, add_zero]
  · rw [hstaked, add_zero]
  · rw [add_zero]
  · rw [add_zero]

theorem kappDelegate_conserves {tc : DelegateContract}
    (h : kappDelegate P .allActive ctx s sender tc = .ok s') :
    Conserves P ctx sender KLVIdentifier s s' := by
  simp only [kappDelegate, bind_eq_ok, withReceipt_eq_ok, withCode_eq_ok, orError_eq_ok,
    getStaking, pure_eq_ok, delegate] at h
  obtain ⟨_, -, _, -, a, ha, st, hst, kda, hkda, r, hclaim, v, -, ⟨k2, _⟩, ⟨b, hb, heq⟩, rfl⟩ := h
  cases heq
  obtain ⟨-, ha⟩ := getExistingUser_spec ha
  exact hs.store_delegation ha hst hkda hclaim hb

theorem kappUndelegate_conserves (h : kappUndelegate P .allActive ctx s sender bucketID = .ok s') :
    Conserves P ctx sender KLVIdentifier s s' := by
  simp only [kappUndelegate, bind_eq_ok, withReceipt_eq_ok, withCode_eq_ok, orError_eq_ok,
    getStaking, pure_eq_ok, undelegate] at h
  obtain ⟨_, -, a, ha, st, hst, kda, hkda, r, hclaim, ⟨k2, _⟩, ⟨b, hb, _, -, heq⟩, v, -, rfl⟩ := h
  cases heq
  obtain ⟨-, ha⟩ := getExistingUser_spec ha
  exact hs.store_delegation ha hst hkda hclaim hb

theorem kappWithdraw_conserves {asset : Option Bytes} (hepoch : ctx.epoch ≠ DefaultUnstakedEpoch)
    (h : kappWithdraw P .allActive ctx s sender asset = .ok s') :
    Conserves P ctx sender (assetOf asset) s s' := by
  simp only [kappWithdraw, bind_eq_ok, withReceipt_eq_ok, withCode_eq_ok, orError_eq_ok,
    getStaking, pure_eq_ok] at h
  obtain ⟨a, ha, st, hst, kda, hkda, _, -, r, hclaim, ⟨a2, k2, amount⟩, hwithdraw, rfl⟩ := h
  obtain ⟨-, ha⟩ := getExistingUser_spec ha
  obtain ⟨-, -, hclaimed, -⟩ := claimDue_spec hclaim
  obtain ⟨hworks, hstaked, hfrozen, hsub⟩ := withdraw_ledger hepoch hwithdraw
  refine hs.store ha hst hkda hclaim hworks ⟨0, ?_, ?_, ?_⟩ rfl ?_ rfl rfl
  · rw [hstaked, add_zero]
  · rw [hfrozen, add_zero]
  · rw [add_zero]
  · intro hklv hkfi key b hb
    have hold := hsub key b hb
    rw [bucketMap_congr hclaimed] at hold
    exact hs.single sender a ha _ hklv hkfi key b hold

end

end

/-! ## Runs -/

inductive StakingCall where
  | freeze (tc : FreezeContract)
  | unfreeze (tc : UnfreezeContract)
  | delegate (tc : DelegateContract)
  | undelegate (bucketID : Bytes)
  | withdraw (asset : Option Bytes)

/-- The asset whose rewards a call pays first. -/
def StakingCall.asset : StakingCall → Bytes
  | .freeze tc => assetOf tc.assetID
  | .unfreeze tc => assetOf tc.assetID
  | .delegate _ | .undelegate _ => KLVIdentifier
  | .withdraw asset => assetOf asset

/-- A call, the block and transaction it runs in, and the network parameters of that moment. -/
structure StakingTx where
  ctx : KappContext
  params : Parameters
  sender : Bytes
  call : StakingCall

section
variable (P : Platform) (fc : ForkController)

def execStaking (s : Chain) (tx : StakingTx) : Except TxError Chain :=
  match tx.call with
  | .freeze tc => kappFreeze P fc tx.params tx.ctx s tx.sender tc
  | .unfreeze tc => kappUnfreeze P fc tx.ctx s tx.sender tc
  | .delegate tc => kappDelegate P fc tx.ctx s tx.sender tc
  | .undelegate bucketID => kappUndelegate P fc tx.ctx s tx.sender bucketID
  | .withdraw asset => kappWithdraw P fc tx.ctx s tx.sender asset

def runStaking (s : Chain) (txs : List StakingTx) : Except TxError Chain :=
  txs.foldlM (execStaking P fc) s

/-- What the claims inside a run credit to a user of an asset. -/
def creditsOfRun (u y : Bytes) : Chain → List StakingTx → Int64
  | _, [] => 0
  | s, tx :: rest =>
    (if u = tx.sender then credited (dueGains P fc tx.ctx s tx.sender tx.call.asset) y else 0) +
      match execStaking P fc s tx with
      | .ok s' => creditsOfRun u y s' rest
      | .error _ => 0

end

variable {P : Platform}

theorem execStaking_conserves {s s' : Chain} {tx : StakingTx} (hs : Principal s)
    (hepoch : tx.ctx.epoch ≠ DefaultUnstakedEpoch) (h : execStaking P .allActive s tx = .ok s') :
    Conserves P tx.ctx tx.sender tx.call.asset s s' := by
  unfold execStaking at h
  cases hcall : tx.call with
  | freeze tc =>
    rw [hcall] at h
    exact kappFreeze_conserves hs h
  | unfreeze tc =>
    rw [hcall] at h
    exact kappUnfreeze_conserves hs hepoch h
  | delegate tc =>
    rw [hcall] at h
    exact kappDelegate_conserves hs h
  | undelegate bucketID =>
    rw [hcall] at h
    exact kappUndelegate_conserves hs h
  | withdraw asset =>
    rw [hcall] at h
    exact kappWithdraw_conserves hs hepoch h

/-- **The staked principal is conserved.**  In any run of successful staking calls before the last
epoch, the frozen balance of every user is the value of the user's staked buckets, the total of
the asset is the sum of the frozen balances, and what a user holds of an asset, free or in
buckets, moves by exactly what the claims inside the calls credit. -/
theorem staking_principal_conserved {s s' : Chain} {txs : List StakingTx} (hs : Principal s)
    (hepoch : ∀ tx ∈ txs, tx.ctx.epoch ≠ DefaultUnstakedEpoch)
    (hrun : runStaking P .allActive s txs = .ok s') :
    Principal s' ∧ ∀ u y, userHolding s' u y =
      userHolding s u y + creditsOfRun P .allActive u y s txs := by
  induction txs generalizing s with
  | nil =>
    cases hrun
    exact ⟨hs, fun u y => (add_zero _).symm⟩
  | cons tx rest ih =>
    simp only [runStaking, List.foldlM_cons, bind_eq_ok] at hrun
    obtain ⟨s1, hexec, hrest⟩ := hrun
    obtain ⟨hs1, hholding⟩ := execStaking_conserves hs (hepoch tx List.mem_cons_self) hexec
    obtain ⟨hs', hholding'⟩ := ih hs1 (fun t ht => hepoch t (List.mem_cons_of_mem _ ht)) hrest
    refine ⟨hs', fun u y => ?_⟩
    rw [hholding', hholding, creditsOfRun, hexec, add_assoc]

/-- A chain on which nothing is staked yet, with the native assets of genesis. -/
theorem Principal.of_unstaked {s : Chain}
    (husers : ∀ u a, s.users.lookup u = some a → ∀ x, (a.getUserKDA x []).frozenBalance = 0 ∧
      (a.getUserKDA x []).bucketMap = ∅)
    (hstaking : ∀ x staking, s.staking.lookup x = some staking →
      staking.totalStaked = 0 ∧ staking.interestType = .FPRI) : Principal s where
  frozen u a ha x := by
    obtain ⟨hfrozen, hbuckets⟩ := husers u a ha x
    rw [hfrozen, stakedValue, hbuckets]
    rfl
  total x staking hx := by
    rw [(hstaking x staking hx).1]
    exact (FMap.sumBy_eq_zero fun u a ha => (husers u a ha x).1).symm
  single u a ha x _ _ key b hb := by
    rw [(husers u a ha x).2, AList.lookup_empty] at hb
    cases hb
  native x staking _ hx := (hstaking x staking hx).2

/-- A user with 100 KLV, and a validator that takes delegations. -/
def sampleStakers : Chain where
  users := (∅ : FMap Bytes UserAccount).insert [1] ⟨100, 0, ∅⟩
  kdas := (∅ : FMap Bytes KDAData).insert KLVIdentifier
    ⟨.Fungible, KLVIdentifier, [3], [], none, false, false, false, [], 0, 0, 0⟩
  market := ⟨∅, ∅, ∅⟩
  staking := (∅ : FMap Bytes StakingData).insert KLVIdentifier ⟨.FPRI, [], [], 0, 0, 0, 0⟩
  validators := { ValidatorStore.empty with
    validators := (∅ : FMap Bytes ValidatorData).insert [9]
      { ownerAddress := [9], canDelegate := true, maxDelegation := 0, selfStake := 0,
        totalStake := 0 } }

theorem sampleStakers_principal : Principal sampleStakers := by
  refine Principal.of_unstaked ?_ ?_
  · intro u a ha x
    simp only [sampleStakers, FMap.lookup_insert_eq, AList.lookup_empty] at ha
    split at ha
    · cases ha
      exact ⟨rfl, rfl⟩
    · cases ha
  · intro x staking hx
    simp only [sampleStakers, FMap.lookup_insert_eq, AList.lookup_empty] at hx
    split at hx
    · cases hx
      exact ⟨rfl, rfl⟩
    · cases hx

/-- The sample network allows ten buckets of any size. -/
def sampleBucketParameters : Parameters :=
  (∅ : Parameters).insert EnumParameter.MaxBucketSize.code (initialParameter .Int64 10)

def sampleFreeze (epoch : UInt32) : StakingTx :=
  ⟨⟨10, epoch, [7], 0, 0⟩, sampleBucketParameters, [1], .freeze ⟨none, 40⟩⟩

def sampleBucketID : Bytes := freezeBucketID samplePlatform ⟨10, 0, [7], 0, 0⟩ [1] KLVIdentifier 40

def sampleUnfreeze (epoch : UInt32) : StakingTx :=
  ⟨⟨20, epoch, [8], 0, 0⟩, ∅, [1], .unfreeze ⟨none, sampleBucketID⟩⟩

def sampleStakingTxs : List StakingTx :=
  [sampleFreeze 1, ⟨⟨12, 1, [8], 0, 0⟩, ∅, [1], .delegate ⟨[9], sampleBucketID⟩⟩,
    ⟨⟨15, 1, [8], 0, 0⟩, ∅, [1], .undelegate sampleBucketID⟩, sampleUnfreeze 2,
    ⟨⟨30, 3, [8], 0, 0⟩, ∅, [1], .withdraw none⟩]

def sampleStakingEnd : Chain :=
  (runStaking samplePlatform .allActive sampleStakers sampleStakingTxs).toOption.getD sampleStakers

theorem staking_principal_conserved_sample :
    userHolding sampleStakingEnd [1] KLVIdentifier = 100 ∧ Principal sampleStakingEnd := by
  have hrun : runStaking samplePlatform .allActive sampleStakers sampleStakingTxs =
      .ok sampleStakingEnd := eq_ok_getD sampleStakers (by decide +kernel)
  exact ⟨by decide +kernel,
    (staking_principal_conserved sampleStakers_principal (by decide) hrun).1⟩

/-- **The last epoch marks a bucket as staked**, so an unfreeze in that epoch takes the value out
of the frozen balance and leaves it in the sum of the staked buckets. -/
theorem unfreeze_at_last_epoch :
    Principal sampleStakers ∧ ∃ s, runStaking samplePlatform .allActive sampleStakers
      [sampleFreeze 1, sampleUnfreeze DefaultUnstakedEpoch] = .ok s ∧ ¬ Principal s := by
  refine ⟨sampleStakers_principal, _, eq_ok_getD sampleStakers (by decide +kernel), ?_⟩
  intro h
  have hfrozen := fun a ha => h.frozen [1] a ha KLVIdentifier
  revert hfrozen
  decide +kernel

end KleverGo.Staking
