import KleverGo.Staking.Principal
import KleverGo.Validators.Bookings

/-!
# The buckets of a user

`bucketsOf` are the buckets of a user's record of an asset, and `delegationOf` is the directory of
the delegations that the KLV buckets name.  A staking call writes one bucket (`WritesBucket`) and
at most two bookings of validators; the effects below say which.  A withdrawal removes buckets.
-/

namespace KleverGo.Staking

open Chain UserAccount

/-- The buckets of a user's record of an asset. -/
def bucketsOf (s : Chain) (u x : Bytes) : FMap Bytes UserBucket :=
  (((s.users.lookup u).getD empty).getUserKDA x []).bucketMap

theorem bucketsOf_eq {s : Chain} {u : Bytes} {a : UserAccount} (h : s.users.lookup u = some a)
    (x : Bytes) : bucketsOf s u x = (a.getUserKDA x []).bucketMap := by
  rw [bucketsOf, h]
  rfl

/-- The delegation named by the bucket under a key: the validator, and the value. -/
def namedEntry (m : FMap Bytes UserBucket) (key : Bytes) : Option (Bytes × Int64) :=
  (m.lookup key).bind fun b =>
    if b.unstakedEpoch = DefaultUnstakedEpoch ∧ b.delegation ≠ [] then some (b.delegation, b.value)
    else none

/-- The delegation a user's KLV bucket names. -/
def delegationOf (s : Chain) (u key : Bytes) : Option (Bytes × Int64) :=
  namedEntry (bucketsOf s u KLVIdentifier) key

theorem namedEntry_eq_some {m : FMap Bytes UserBucket} {key : Bytes} {e : Bytes × Int64} :
    namedEntry m key = some e ↔ ∃ b, m.lookup key = some b ∧
      b.unstakedEpoch = DefaultUnstakedEpoch ∧ b.delegation ≠ [] ∧ e = (b.delegation, b.value) := by
  simp only [namedEntry, Option.bind_eq_some_iff]
  refine exists_congr fun b => and_congr_right fun _ => ?_
  split
  · rename_i h
    simp [h.1, h.2, eq_comm]
  · rename_i h
    rw [not_and] at h
    simp only [reduceCtorEq, false_iff]
    exact fun hc => h hc.1 hc.2.1

/-! ## What a call writes -/

section
variable {P : Platform} {fc : ForkController} {ctx : KappContext} {s : Chain} {u x : Bytes}
  {a a' : UserAccount} {k' : UserKDA} {st st' : StakingData} {kda kda' : KDAData}
  {r : Gains × UserAccount × ClaimRecords}

/-- A call that works on one record leaves the buckets of all others. -/
theorem bucketsOf_storeRecords (v : ValidatorStore) (ha : s.users.lookup u = some a)
    (hclaim : claimDue P fc ctx x a ⟨st, kda, a.getUserKDA x []⟩ = .ok r)
    (hkeep : ∀ y, y ≠ x → (a'.getUserKDA y []).bucketMap = (r.2.1.getUserKDA y []).bucketMap)
    (w y : Bytes) :
    bucketsOf (storeRecords { s with validators := v } u x a' ⟨st', kda', k'⟩) w y =
      if w = u ∧ y = x then k'.bucketMap else bucketsOf s w y := by
  obtain ⟨hclaimed, -⟩ := claimDue_spec hclaim
  have hlookup : (storeRecords { s with validators := v } u x a' ⟨st', kda', k'⟩).users.lookup w =
      if w = u then some (stored x (a', k')) else s.users.lookup w :=
    FMap.lookup_insert_eq _ _ _ _
  unfold bucketsOf
  rw [hlookup]
  by_cases hw : w = u
  · subst hw
    rw [if_pos rfl, Option.getD_some, stored, bucketMap_setUserKDA, ha]
    by_cases hy : y = x
    · rw [if_pos hy, if_pos ⟨rfl, hy⟩]
    · rw [if_neg hy, if_neg fun hc => hy hc.2, hkeep y hy]
      exact hclaimed.buckets y hy
  · rw [if_neg hw, if_neg fun hc => hw hc.1]

/-- One bucket is written, and all others stay. -/
def WritesBucket (u x key : Bytes) (b : UserBucket) (s s' : Chain) : Prop :=
  ∀ w y k, (bucketsOf s' w y).lookup k =
    if w = u ∧ y = x ∧ k = key then some b else (bucketsOf s w y).lookup k

/-- A call whose record differs in one bucket from the one it loaded. -/
theorem writesBucket_storeRecords {key : Bytes} {b : UserBucket} (v : ValidatorStore)
    (ha : s.users.lookup u = some a)
    (hclaim : claimDue P fc ctx x a ⟨st, kda, a.getUserKDA x []⟩ = .ok r)
    (hkeep : ∀ y, y ≠ x → (a'.getUserKDA y []).bucketMap = (r.2.1.getUserKDA y []).bucketMap)
    (hwrite : ∀ k, k'.bucketMap.lookup k =
      if k = key then some b else (bucketsOf s u x).lookup k) :
    WritesBucket u x key b s
      (storeRecords { s with validators := v } u x a' ⟨st', kda', k'⟩) := by
  intro w y k
  rw [bucketsOf_storeRecords v ha hclaim hkeep]
  by_cases hrecord : w = u ∧ y = x
  · obtain ⟨rfl, rfl⟩ := hrecord
    simp only [and_self, if_true, true_and, hwrite]
  · rw [if_neg hrecord, if_neg fun hc => hrecord ⟨hc.1, hc.2.1⟩]

theorem bucketMap_claimed (ha : s.users.lookup u = some a)
    (hclaim : claimDue P fc ctx x a ⟨st, kda, a.getUserKDA x []⟩ = .ok r) :
    r.2.2.userKDA.bucketMap = bucketsOf s u x := by
  obtain ⟨-, -, hbuckets, -⟩ := claimDue_spec hclaim
  rw [bucketMap_congr hbuckets, bucketsOf_eq ha]

/-- Crediting gains leaves the stored KLV record of an account that works on that record. -/
theorem creditGain_klv {p p' : UserAccount × UserKDA} {gain : Sigma fun _ : Bytes => Int64}
    (h : creditGain KLVIdentifier p gain = .ok p') :
    (p'.1.getUserKDA KLVIdentifier []).bucketMap =
      (p.1.getUserKDA KLVIdentifier []).bucketMap := by
  unfold creditGain at h
  split at h
  · cases h
    rfl
  split at h
  · simp only [bind_eq_ok, pure_eq_ok] at h
    obtain ⟨acc, hadd, rfl⟩ := h
    rw [addToBalance_eq hadd]
    exact (getUserKDA_setBalance ..).2
  · rename_i hne
    exact absurd (em _) hne

theorem claimDue_klv {records : ClaimRecords}
    (h : claimDue P fc ctx KLVIdentifier a records = .ok r) :
    (r.2.1.getUserKDA KLVIdentifier []).bucketMap = (a.getUserKDA KLVIdentifier []).bucketMap := by
  unfold claimDue at h
  split at h
  · rename_i claimed hclaim
    cases h
    simp only [claimBalance, bind_eq_ok, pure_eq_ok] at hclaim
    obtain ⟨_, -, userKDA, -, p, hcredit, rfl⟩ := hclaim
    refine foldlM_invariant (P := fun p : UserAccount × UserKDA =>
      (p.1.getUserKDA KLVIdentifier []).bucketMap = (a.getUserKDA KLVIdentifier []).bucketMap)
      (fun p gain p' hp hgain => (creditGain_klv hgain).trans hp) rfl hcredit
  · split at h
    · cases h
      rfl
    · cases h

end

section
variable {P : Platform} {params : Parameters} {ctx : KappContext} {s s' : Chain} {sender : Bytes}

theorem freeze_bucket {x bucketID : Bytes} {value : Int64} {opts : FreezeOptions}
    {staking staking' : StakingData} {k k' : UserKDA}
    (h : freeze x bucketID value opts staking k = .ok (staking', k')) :
    ∃ b : UserBucket, b.delegation = [] ∧ ∀ j, k'.bucketMap.lookup j =
      if j = parsedBucketID x bucketID then some b else k.bucketMap.lookup j := by
  obtain ⟨-, _, old, rfl, -, -, rfl⟩ := freeze_spec h
  exact ⟨frozenBucket opts value (lastClaimEpoch k) old, rfl,
    fun j => FMap.lookup_insert_eq _ _ j _⟩

theorem kappFreeze_effect {tc : FreezeContract}
    (h : kappFreeze P .allActive params ctx s sender tc = .ok s') :
    let x := assetOf tc.assetID
    let key := parsedBucketID x (freezeBucketID P ctx sender x tc.amount)
    s'.validators = s.validators ∧
    (x = KLVIdentifier →
      ((bucketsOf s sender x).lookup key).elim [] (·.delegation) = []) ∧
    ∃ b, b.delegation = [] ∧ WritesBucket sender x key b s s' := by
  intro x key
  simp only [kappFreeze, bind_eq_ok, withReceipt_eq_ok, orError_eq_ok, getStaking,
    pure_eq_ok, reject_eq_ok] at h
  obtain ⟨_, -, a, ha, _, -, kda, hkda, _, -, st, hst, _, -, _, hmerge, r, hclaim, _, -,
    ⟨a2, k2⟩, hsub,
    ⟨st3, k3⟩, hfreeze, rfl⟩ := h
  obtain ⟨-, ha⟩ := getExistingUser_spec ha
  obtain ⟨hpay, -, hbuckets2⟩ := subFromHeldBalance_spec hsub
  obtain ⟨b, hplain, hwrite⟩ := freeze_bucket hfreeze
  have hk2 : k2.bucketMap = bucketsOf s sender x :=
    (bucketMap_congr hbuckets2).trans (bucketMap_claimed ha hclaim)
  refine ⟨rfl, fun hx => ?_, b, hplain, writesBucket_storeRecords s.validators ha hclaim
    hpay.buckets fun k => ?_⟩
  · rw [bucketsOf_eq ha]
    simp only [not_and, not_not] at hmerge
    have hnative : parsedBucketID x (freezeBucketID P ctx sender x tc.amount) =
        hexEncode (freezeBucketID P ctx sender x tc.amount) := by
      simp [parsedBucketID, hx]
    have hdelegation := hmerge rfl
    rw [mergedDelegation, if_pos (Or.inl hx)] at hdelegation
    change ((UserKDA.bucketMap _).lookup (parsedBucketID x _)).elim _ _ = _
    rw [hnative]
    exact hdelegation
  · rw [hwrite, hk2]

theorem kappUnfreeze_effect {tc : UnfreezeContract}
    (h : kappUnfreeze P .allActive ctx s sender tc = .ok s') :
    let x := assetOf tc.assetID
    let key := parsedBucketID x tc.bucketID
    ∃ b, (bucketsOf s sender x).lookup key = some b ∧ b.unstakedEpoch = DefaultUnstakedEpoch ∧
      (b.delegation = [] → s'.validators = s.validators ∧
        WritesBucket sender x key { b with unstakedEpoch := ctx.epoch } s s') ∧
      (b.delegation ≠ [] → x = KLVIdentifier →
        Validators.undelegate .allActive s.validators ctx.epoch b.delegation sender tc.bucketID =
          .ok s'.validators ∧
        WritesBucket sender x key { b with unstakedEpoch := ctx.epoch, delegation := [] } s s') := by
  intro x key
  simp only [kappUnfreeze, bind_eq_ok, withReceipt_eq_ok, withCode_eq_ok, orError_eq_ok,
    getStaking] at h
  obtain ⟨a, ha, kda, hkda, _, -, st, hst, _, -, r, hclaim, ⟨st3, k3, delegation, amount⟩, hunfreeze,
    ⟨v, k4⟩, hleave, hvotes⟩ := h
  obtain ⟨-, ha⟩ := getExistingUser_spec ha
  obtain ⟨σ, rfl⟩ := handleProposalVotesOnUnfreeze_frame hvotes
  obtain ⟨_, b, rfl, hb, hstaked, -, rfl, rfl, rfl⟩ := unfreeze_spec hunfreeze
  rw [bucketMap_claimed ha hclaim] at hb
  refine ⟨b, hb, hstaked, fun hnone => ?_, fun hsome hx => ?_⟩
  · rw [leaveDelegation, if_pos hnone] at hleave
    cases hleave
    refine ⟨rfl, writesBucket_storeRecords s.validators ha hclaim (fun _ _ => rfl) fun k => ?_⟩
    change (r.2.2.userKDA.bucketMap.insert _ _).lookup k = _
    rw [FMap.lookup_insert_eq, bucketMap_claimed ha hclaim]
  · have hkey : parsedBucketID x tc.bucketID = hexEncode tc.bucketID := by
      simp [parsedBucketID, hx]
    rw [leaveDelegation, if_neg hsome] at hleave
    simp only [bind_eq_ok, ForkController.allActive, if_true, withCode_eq_ok, undelegate,
      orError_eq_ok, pure_eq_ok, Validators.kappUndelegate] at hleave
    obtain ⟨v1, hundelegate, ⟨k5, d, w⟩, ⟨b1, hb1, _, -, heq⟩, heq'⟩ := hleave
    cases heq
    cases heq'
    refine ⟨hundelegate, writesBucket_storeRecords _ ha hclaim (fun _ _ => rfl) fun k => ?_⟩
    -- the bucket written by the unfreeze is written once more
    change ((r.2.2.userKDA.bucketMap.insert (parsedBucketID x tc.bucketID) _).insert _ _).lookup k = _
    change (r.2.2.userKDA.bucketMap.insert (parsedBucketID x tc.bucketID) _).lookup _ = _ at hb1
    rw [hkey, AList.lookup_insert] at hb1
    cases hb1
    rw [hkey, FMap.lookup_insert_eq, FMap.lookup_insert_eq, bucketMap_claimed ha hclaim]
    change _ = if k = parsedBucketID x tc.bucketID then _ else _
    rw [hkey]
    split
    · rfl
    · rfl

theorem kappDelegate_effect {tc : DelegateContract}
    (h : kappDelegate P .allActive ctx s sender tc = .ok s') :
    tc.toAddress.length = P.addressLen ∧ sender ≠ [] ∧
    ∃ b v, (bucketsOf s sender KLVIdentifier).lookup (hexEncode tc.bucketID) = some b ∧
      b.unstakedEpoch = DefaultUnstakedEpoch ∧ tc.toAddress ≠ b.delegation ∧
      Validators.leaveCurrent .allActive s.validators ctx.epoch b.delegation sender tc.bucketID =
        .ok v ∧
      Validators.delegate .allActive v tc.toAddress (hexEncode tc.bucketID)
        ⟨ctx.timestamp, ctx.epoch, DefaultUndelegatedEpoch, b.value, sender⟩
        (Validators.replacedBooking .allActive s.validators tc.toAddress (hexEncode tc.bucketID)) =
        .ok s'.validators ∧
      WritesBucket sender KLVIdentifier (hexEncode tc.bucketID)
        { b with delegation := tc.toAddress } s s' := by
  simp only [kappDelegate, bind_eq_ok, withReceipt_eq_ok, withCode_eq_ok, orError_eq_ok,
    getStaking, pure_eq_ok, delegate, reject_eq_ok, not_not] at h
  obtain ⟨_, hlen, _, -, a, ha, st, hst, kda, hkda, r, hclaim, v', hvalidators, ⟨k2, _⟩, ⟨b, hb, heq⟩,
    rfl⟩ := h
  cases heq
  obtain ⟨hsender, ha⟩ := getExistingUser_spec ha
  rw [bucketMap_claimed ha hclaim] at hb
  simp only [Validators.kappDelegate, bind_eq_ok, withCode_eq_ok, orError_eq_ok,
    reject_eq_ok, not_not] at hvalidators
  obtain ⟨acc, hacc, val, -, b', hb', _, hstaked, _, hne, _, -, v, hleave, hdelegate⟩ := hvalidators
  -- the bucket the validators KApp reads is the one of the claimed record
  obtain ⟨-, hacc⟩ := getExistingUser_spec hacc
  rw [lookup_setUser, if_pos rfl] at hacc
  cases hacc
  rw [claimDue_klv hclaim, ← bucketsOf_eq ha, hb] at hb'
  cases hb'
  refine ⟨hlen, hsender, b, v, hb, hstaked, hne, hleave, hdelegate,
    writesBucket_storeRecords v' ha hclaim (fun _ _ => rfl) fun k => ?_⟩
  change (r.2.2.userKDA.bucketMap.insert _ _).lookup k = _
  rw [FMap.lookup_insert_eq, bucketMap_claimed ha hclaim]

theorem kappUndelegate_effect {bucketID : Bytes}
    (h : kappUndelegate P .allActive ctx s sender bucketID = .ok s') :
    ∃ b, (bucketsOf s sender KLVIdentifier).lookup (hexEncode bucketID) = some b ∧
      b.delegation ≠ [] ∧
      Validators.undelegate .allActive s.validators ctx.epoch b.delegation sender bucketID =
        .ok s'.validators ∧
      WritesBucket sender KLVIdentifier (hexEncode bucketID) { b with delegation := [] } s s' := by
  simp only [kappUndelegate, bind_eq_ok, withReceipt_eq_ok, withCode_eq_ok, orError_eq_ok,
    getStaking, pure_eq_ok, undelegate, reject_eq_ok, Validators.kappUndelegate] at h
  obtain ⟨_, -, a, ha, st, hst, kda, hkda, r, hclaim, ⟨k2, _⟩, ⟨b, hb, _, hdelegation, heq⟩, v,
    hundelegate, rfl⟩ := h
  cases heq
  obtain ⟨-, ha⟩ := getExistingUser_spec ha
  rw [bucketMap_claimed ha hclaim] at hb
  refine ⟨b, hb, hdelegation, hundelegate,
    writesBucket_storeRecords v ha hclaim (fun _ _ => rfl) fun k => ?_⟩
  change (r.2.2.userKDA.bucketMap.insert _ _).lookup k = _
  rw [FMap.lookup_insert_eq, bucketMap_claimed ha hclaim]

/-- A withdrawal removes buckets, none of which is staked before the last epoch. -/
theorem kappWithdraw_effect {asset : Option Bytes} (hepoch : ctx.epoch ≠ DefaultUnstakedEpoch)
    (h : kappWithdraw P .allActive ctx s sender asset = .ok s') :
    s'.validators = s.validators ∧ ∀ u x key b,
      ((bucketsOf s' u x).lookup key = some b → (bucketsOf s u x).lookup key = some b) ∧
      ((bucketsOf s u x).lookup key = some b → b.unstakedEpoch = DefaultUnstakedEpoch →
        (bucketsOf s' u x).lookup key = some b) := by
  simp only [kappWithdraw, bind_eq_ok, withReceipt_eq_ok, withCode_eq_ok, orError_eq_ok,
    getStaking, pure_eq_ok] at h
  obtain ⟨a, ha, st, hst, kda, hkda, _, -, r, hclaim, ⟨a2, k2, amount⟩, hwithdraw, rfl⟩ := h
  obtain ⟨-, ha⟩ := getExistingUser_spec ha
  obtain ⟨hworks, -, -, -⟩ := withdraw_ledger hepoch hwithdraw
  refine ⟨rfl, fun u x key b => ?_⟩
  have hmap : k2.bucketMap = (bucketsOf s sender (assetOf asset)).filter
      fun _ b => !withdrawable ctx.epoch r.2.2.staking.minEpochsToWithdraw b := by
    rw [← bucketMap_claimed ha hclaim]
    exact withdraw_bucketMap hwithdraw
  rw [bucketsOf_storeRecords s.validators ha hclaim hworks.buckets]
  split
  · rename_i hrecord
    obtain ⟨rfl, rfl⟩ := hrecord
    rw [hmap, FMap.lookup_filter]
    refine ⟨fun hb => (Option.filter_eq_some_iff.1 hb).1, fun hb hstaked => ?_⟩
    rw [hb, Option.filter_some, if_pos]
    simp [not_withdrawable_of_staked hepoch hstaked]
  · exact ⟨id, fun hb _ => hb⟩

end

end KleverGo.Staking
