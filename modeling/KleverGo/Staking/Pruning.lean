import KleverGo.Staking.Pricing

/-!
# Segments before the cursor are inert

`Holder.prune` drops from every stake history the segments that end at or before the claim
cursor.

* `claim_prune`: a claim pays the same without them.
* `prune_run`: so does every later run.  It gives the same balances, pools and totals, the same
  errors, and the same state but for such segments.
-/

namespace KleverGo.Staking

open FMap Holder

/-- The bucket without the segments up to the cursor. -/
def pruneBucket (cursor : UInt32) (b : UserBucket) : UserBucket :=
  { b with history := b.history.filter fun segment => cursor < segment.throughEpoch }

variable (k : UserKDA)

/-- The record without the segments up to its own cursor. -/
def pruneKDA : UserKDA :=
  { k with buckets := k.buckets.map (mapValues (pruneBucket (lastClaimEpoch k))) }

def pruneAccount (acc : UserAccount) : UserAccount :=
  { acc with kdas := acc.kdas.mapValues pruneKDA }

def Holder.prune (s : Holder) : Holder :=
  ⟨pruneAccount s.acc, { s.records with userKDA := pruneKDA s.records.userKDA }⟩

/-! ## Records -/

theorem pruneBucket_pruneBucket {c c' : UInt32} (h : c ≤ c') (b : UserBucket) :
    pruneBucket c' (pruneBucket c b) = pruneBucket c' b := by
  simp only [pruneBucket, List.filter_filter]
  congr 1
  refine List.filter_congr fun segment _ => ?_
  rw [Bool.and_eq_left_iff_imp]
  simp only [decide_eq_true_eq]
  intro hlt
  exact UInt32.lt_of_le_of_lt h hlt

theorem bucketMap_pruneKDA :
    (pruneKDA k).bucketMap = k.bucketMap.mapValues (pruneBucket (lastClaimEpoch k)) := by
  cases hb : k.buckets <;> simp only [UserKDA.bucketMap, pruneKDA, hb] <;> rfl

theorem pruneKDA_moved {k : UserKDA} {last : LastClaim} (h : lastClaimEpoch k ≤ last.epoch) :
    pruneKDA { pruneKDA k with lastClaim := some last } =
      pruneKDA { k with lastClaim := some last } := by
  have hcomp : pruneBucket last.epoch ∘ pruneBucket (lastClaimEpoch k) = pruneBucket last.epoch :=
    funext fun b => pruneBucket_pruneBucket h b
  simp only [pruneKDA, lastClaimEpoch, Option.elim_some, Option.map_map, Function.comp_def,
    mapValues_mapValues] at hcomp ⊢
  rw [hcomp]

theorem pruneKDA_pruneKDA : pruneKDA (pruneKDA k) = pruneKDA k := by
  have hcomp : pruneBucket (lastClaimEpoch k) ∘ pruneBucket (lastClaimEpoch k) =
      pruneBucket (lastClaimEpoch k) :=
    funext fun b => pruneBucket_pruneBucket (UInt32.le_refl _) b
  simp only [pruneKDA, lastClaimEpoch, Option.map_map, Function.comp_def,
    mapValues_mapValues] at hcomp ⊢
  rw [hcomp]

theorem isEmpty_pruneKDA : (pruneKDA k).isEmpty = k.isEmpty := by
  simp only [UserKDA.isEmpty, bucketMap_pruneKDA, mapValues, List.isEmpty_map]
  rfl

theorem decoded_pruneKDA : (pruneKDA k).decoded = pruneKDA k.decoded := by
  simp only [UserKDA.decoded, bucketMap_pruneKDA]
  simp only [mapValues, List.isEmpty_map]
  split <;> rfl

/-! ## Accounts -/

theorem pruneAccount_setUserKDA (a : UserAccount) (assetID nonce : Bytes) (k : UserKDA) :
    pruneAccount (a.setUserKDA assetID nonce k) =
      (pruneAccount a).setUserKDA assetID nonce (pruneKDA k) := by
  simp only [UserAccount.setUserKDA, pruneAccount, isEmpty_pruneKDA, decoded_pruneKDA]
  split
  · rw [mapValues_erase]
  · rw [mapValues_insert]

theorem pruneAccount_pruneAccount (a : UserAccount) :
    pruneAccount (pruneAccount a) = pruneAccount a := by
  have hcomp : pruneKDA ∘ pruneKDA = pruneKDA := funext pruneKDA_pruneKDA
  simp only [pruneAccount, mapValues_mapValues, hcomp]

theorem getUserKDA_pruneAccount (a : UserAccount) (assetID nonce : Bytes) :
    (pruneAccount a).getUserKDA assetID nonce = pruneKDA (a.getUserKDA assetID nonce) := by
  simp only [UserAccount.getUserKDA, pruneAccount, lookup_mapValues]
  cases a.kdas.lookup (toKDAKey assetID nonce) <;> rfl

theorem addToBalance_prune (a : UserAccount) (value : Int64) (assetID : Option Bytes) :
    (pruneAccount a).addToBalance value assetID =
      pruneAccount <$> a.addToBalance value assetID := by
  have hget : ∀ x, (pruneAccount a).getBalance x = a.getBalance x := by
    intro x
    unfold UserAccount.getBalance
    rw [getUserKDA_pruneAccount]
    rfl
  have hset : ∀ x b, (pruneAccount a).setBalance x b = pruneAccount (a.setBalance x b) := by
    intro x b
    unfold UserAccount.setBalance
    split
    · rfl
    · rw [pruneAccount_setUserKDA, getUserKDA_pruneAccount]
      rfl
  simp only [UserAccount.addToBalance, UserAccount.changeBalance, map_bind, map_pure, hget, hset]

theorem creditGain_prune (assetID : Bytes) (s : UserAccount × UserKDA)
    (gain : Sigma fun _ : Bytes => Int64) :
    creditGain assetID (Prod.map pruneAccount pruneKDA s) gain =
      Prod.map pruneAccount pruneKDA <$> creditGain assetID s gain := by
  unfold creditGain
  split
  · rfl
  split
  · simp only [Prod.map_fst, addToBalance_prune, map_bind, map_pure, bind_map_left]
    rfl
  · simp only [map_bind, map_pure, Prod.map_apply, pruneAccount_setUserKDA]
    rfl

theorem creditGains_prune (assetID : Bytes) (gains : List (Sigma fun _ : Bytes => Int64))
    (s : UserAccount × UserKDA) :
    gains.foldlM (creditGain assetID) (Prod.map pruneAccount pruneKDA s) =
      Prod.map pruneAccount pruneKDA <$> gains.foldlM (creditGain assetID) s := by
  induction gains generalizing s with
  | nil => rfl
  | cons gain rest ih =>
    simp only [List.foldlM_cons, creditGain_prune, bind_map_left, map_bind, ih]

/-! ## Claims -/

variable {P : Platform} {fc : ForkController} {assetID : Bytes}

theorem bucketStakeAt_prune {cursor e : UInt32} (h : cursor < e) (b : UserBucket) :
    bucketStakeAt fc (pruneBucket cursor b) e = bucketStakeAt fc b e := by
  simp only [bucketStakeAt, pruneBucket, List.find?_filter]
  congr 4
  funext segment
  rw [Bool.eq_iff_iff]
  simp only [Bool.and_eq_true, decide_eq_true_eq, and_iff_right_iff_imp]
  rintro ⟨-, hle⟩
  exact UInt32.lt_of_lt_of_le h hle

theorem claimPool_prune (buckets : FMap Bytes UserBucket) (last epoch : UInt32) (gains : Gains)
    (fpr : FPRData) :
    claimPool P fc (buckets.mapValues (pruneBucket last)) last epoch gains fpr =
      claimPool P fc buckets last epoch gains fpr := by
  unfold claimPool
  split
  · rfl
  rename_i hin
  have hafter : last < fpr.epoch := UInt32.not_le.1 fun h => hin (.inl h)
  simp only [mapValues]
  -- the pool keeps its epoch while the buckets are walked
  have hfold : ∀ (l : List (Sigma fun _ : Bytes => UserBucket)) (acc : Gains × FPRData),
      acc.2.epoch = fpr.epoch →
      (l.map (Sigma.map id fun _ => pruneBucket last)).foldlM
          (fun acc (e : Sigma fun _ : Bytes => UserBucket) =>
            accrueBucketFPR P fc acc.1 acc.2 e.2) acc =
        l.foldlM (fun acc e => accrueBucketFPR P fc acc.1 acc.2 e.2) acc := by
    intro l
    induction l with
    | nil => exact fun _ _ => rfl
    | cons e rest ih =>
      intro acc hepoch
      have hstep : accrueBucketFPR P fc acc.1 acc.2 (pruneBucket last e.2) =
          accrueBucketFPR P fc acc.1 acc.2 e.2 := by
        unfold accrueBucketFPR
        rw [bucketStakeAt_prune (hepoch ▸ hafter)]
        rfl
      simp only [List.map_cons, List.foldlM_cons, Sigma.map, hstep]
      cases hacc : accrueBucketFPR P fc acc.1 acc.2 e.2 with
      | error err => rfl
      | ok acc' =>
        refine ih acc' ?_
        rw [accrueBucketFPR_eq hacc, ← hepoch]
        cases stakeUsed fc e.2 acc.2.epoch with
        | none => rfl
        | some v => exact accrueStake_epoch _ _ _
  exact hfold _ _ rfl

theorem claimPools_prune (buckets : FMap Bytes UserBucket) (last epoch : UInt32) (gains : Gains)
    (pools : List FPRData) :
    claimPools P fc (buckets.mapValues (pruneBucket last)) last epoch gains pools =
      claimPools P fc buckets last epoch gains pools := by
  induction pools generalizing gains with
  | nil => rfl
  | cons fpr rest ih => simp only [claimPools, claimPool_prune, ih]

theorem computeClaimFPR_prune (epoch : UInt32) (k : UserKDA) (staking : StakingData) :
    computeClaimFPR P fc epoch (pruneKDA k) staking = computeClaimFPR P fc epoch k staking := by
  unfold computeClaimFPR
  simp only [pruneKDA, lastClaimEpoch]
  cases k.buckets with
  | none => rfl
  | some buckets =>
    cases k.lastClaim with
    | none => rfl
    | some last => simp only [Option.map_some, Option.elim_some, claimPools_prune]

theorem computeClaimAPR_prune (time : Int64) (k : UserKDA) (staking : StakingData) :
    computeClaimAPR P fc assetID time (pruneKDA k) staking =
      computeClaimAPR P fc assetID time k staking := by
  unfold computeClaimAPR
  rw [bucketMap_pruneKDA, lookup_mapValues]
  simp only [pruneKDA]
  cases k.lastClaim with
  | none => rfl
  | some last => cases k.bucketMap.lookup assetID <;> rfl

/-- **Segments before the cursor do not change what a claim pays.** -/
theorem claim_prune (epoch : UInt32) (time : Int64) (staking : StakingData) (kda : KDAData)
    (k : UserKDA) :
    claim P fc assetID epoch time staking kda (pruneKDA k) =
      claim P fc assetID epoch time staking kda k := by
  simp only [claim, claimAPRStaking, computeClaimFPR_prune, computeClaimAPR_prune]

/-! ## Runs -/

theorem claimBalance_prune {epoch : UInt32} {time : Int64} {acc : UserAccount}
    {records : ClaimRecords} (h : lastClaimEpoch records.userKDA ≤ epoch) (drop : Bool) :
    (fun r => prune ⟨r.2.1, r.2.2⟩) <$> claimBalance P fc assetID epoch time
        (pruneAccount acc) { records with userKDA := pruneKDA records.userKDA } drop =
      (fun r => prune ⟨r.2.1, r.2.2⟩) <$>
        claimBalance P fc assetID epoch time acc records drop := by
  -- the credits see the two records only through what pruning leaves of them
  have hcredit : ∀ (gains : Gains) (staking : StakingData) (kda : KDAData) (k k' : UserKDA),
      pruneKDA k' = pruneKDA k →
      (fun s : UserAccount × UserKDA => prune ⟨s.1, ⟨staking, kda, s.2⟩⟩) <$>
          gains.entries.foldlM (creditGain assetID) (pruneAccount acc, k') =
        (fun s : UserAccount × UserKDA => prune ⟨s.1, ⟨staking, kda, s.2⟩⟩) <$>
          gains.entries.foldlM (creditGain assetID) (acc, k) := by
    intro gains staking kda k k' hk
    have hprune : ∀ s : UserAccount × UserKDA,
        Prod.map pruneAccount pruneKDA <$> gains.entries.foldlM (creditGain assetID) s =
          gains.entries.foldlM (creditGain assetID) (Prod.map pruneAccount pruneKDA s) :=
      fun s => (creditGains_prune assetID _ s).symm
    have hsplit : (fun s : UserAccount × UserKDA => prune ⟨s.1, ⟨staking, kda, s.2⟩⟩) =
        (fun s : UserAccount × UserKDA => (⟨s.1, ⟨staking, kda, s.2⟩⟩ : Holder)) ∘
          Prod.map pruneAccount pruneKDA := rfl
    rw [hsplit, comp_map, comp_map, hprune, hprune]
    simp only [Prod.map_apply, hk, pruneAccount_pruneAccount]
  unfold claimBalance claimGains
  simp only [claim_prune, map_bind, map_pure]
  congr
  funext claimed
  unfold moveCursor
  split
  · simp only [bind_assoc, pure_bind]
    cases hlast : records.userKDA.lastClaim with
    | none =>
      have hnone : (pruneKDA records.userKDA).lastClaim = none := hlast
      simp [hnone, orError]
      rfl
    | some last =>
      have hsome : (pruneKDA records.userKDA).lastClaim = some last := hlast
      simp only [hsome, orError]
      exact hcredit _ _ _ _ _ (pruneKDA_moved h)
  · simp only [pure_bind]
    exact hcredit _ _ _ _ _ (pruneKDA_pruneKDA _)

theorem frozenBucket_prune (opts : FreezeOptions) (value : Int64) (cursor : UInt32)
    (old : Option UserBucket) :
    frozenBucket opts value cursor (old.map (pruneBucket cursor)) =
      pruneBucket cursor (frozenBucket opts value cursor old) := by
  cases old with
  | none =>
    simp only [frozenBucket, pruneBucket, Option.map_none, Option.elim_none]
    split <;> rfl
  | some b =>
    have hhist : stakeHistoryAfterFreeze (pruneBucket cursor b) opts.blockEpoch cursor =
        (stakeHistoryAfterFreeze b opts.blockEpoch cursor).filter
          fun segment => cursor < segment.throughEpoch := by
      simp only [stakeHistoryAfterFreeze_eq, pruneBucket, List.filter_append, List.filter_filter,
        Bool.and_self]
      congr 1
      change (if b.stakedEpoch < liveThrough b _ ∧ cursor < liveThrough b _ then _ else _) = _
      split
      · rename_i hnew
        rw [List.filter_singleton, decide_eq_true hnew.2]
        rfl
      · rfl
    simp only [frozenBucket, pruneBucket, Option.map_some, Option.elim_some]
    split
    · rw [← hhist]
      rfl
    · rfl

theorem freeze_prune (value : Int64) (opts : FreezeOptions) (staking : StakingData) (k : UserKDA) :
    freeze assetID assetID value opts staking (pruneKDA k) =
      Prod.map id pruneKDA <$> freeze assetID assetID value opts staking k := by
  have hadd : ∀ old : Option UserBucket, freezeToAdd opts value
      (old.map (pruneBucket (lastClaimEpoch k))) = freezeToAdd opts value old := by
    intro old
    cases old <;> rfl
  have hlast : lastClaimEpoch (pruneKDA k) = lastClaimEpoch k := rfl
  simp only [freeze, bucketMap_pruneKDA, lookup_mapValues, hadd, hlast, frozenBucket_prune,
    ← mapValues_insert, map_bind, map_pure]
  rfl

theorem unfreeze_prune (epoch : UInt32) (flow : Bool) (staking : StakingData) (k : UserKDA) :
    unfreeze assetID assetID epoch flow staking (pruneKDA k) =
      (fun r => (r.1, pruneKDA r.2.1, r.2.2)) <$>
        unfreeze assetID assetID epoch flow staking k := by
  unfold unfreeze
  simp only [bucketMap_pruneKDA, lookup_mapValues, map_bind]
  cases k.bucketMap.lookup (parsedBucketID assetID assetID) with
  | none => rfl
  | some b =>
    simp only [pruneKDA, Option.map_some, mapValues_insert, map_pure]
    rfl

theorem prune_exec {s : Holder} {op : StakeOp} (h : lastClaimEpoch s.records.userKDA ≤ op.epoch) :
    prune <$> execStake P fc assetID s.prune op =
      prune <$> execStake P fc assetID s op := by
  unfold execStake
  cases op.call with
  | freeze value =>
    simp only [prune, freeze_prune, map_bind, map_pure, bind_map_left, pruneAccount_pruneAccount]
    simp only [Prod.map_fst, Prod.map_snd, pruneKDA_pruneKDA, id]
  | unfreeze =>
    simp only [prune, unfreeze_prune, map_bind, map_pure, bind_map_left,
      pruneAccount_pruneAccount, pruneKDA_pruneKDA]
  | claim =>
    simp only [bind_pure_comp, Functor.map_map]
    exact claimBalance_prune h false
  | deposit maxEpochsUnclaimed currencyID amount =>
    simp only [prune, map_bind, map_pure, pruneAccount_pruneAccount, pruneKDA_pruneKDA]

theorem execStake_cursor {s s' : Holder} {op : StakeOp}
    (h : lastClaimEpoch s.records.userKDA ≤ op.epoch)
    (hexec : execStake P fc assetID s op = .ok s') :
    lastClaimEpoch s'.records.userKDA ≤ op.epoch := by
  unfold execStake at hexec
  cases hcall : op.call with
  | freeze value =>
    simp only [hcall, bind_eq_ok, pure_eq_ok] at hexec
    obtain ⟨⟨staking, userKDA⟩, hfreeze, rfl⟩ := hexec
    obtain ⟨-, key, old, -, -, -, rfl⟩ := freeze_spec hfreeze
    exact h
  | unfreeze =>
    simp only [hcall, bind_eq_ok, pure_eq_ok] at hexec
    obtain ⟨⟨staking, userKDA, _, _⟩, hunfreeze, rfl⟩ := hexec
    obtain ⟨key, b, -, -, -, -, rfl, -, -⟩ := unfreeze_spec hunfreeze
    exact h
  | claim =>
    simp only [hcall, bind_eq_ok, pure_eq_ok] at hexec
    obtain ⟨r, hclaim, rfl⟩ := hexec
    obtain ⟨balance, last, huser, hlast⟩ := claimBalance_userKDA hclaim
    simp only [huser]
    rcases hlast with rfl | rfl
    · exact h
    · exact UInt32.le_refl _
  | deposit maxEpochsUnclaimed currencyID amount =>
    simp only [hcall, bind_eq_ok, pure_eq_ok] at hexec
    obtain ⟨staking, -, rfl⟩ := hexec
    exact h

/-- **A run does not see the segments before the cursor.** -/
theorem prune_run {now : UInt32} {ops : List StakeOp}
    (hsorted : (now :: ops.map (·.epoch)).IsChain (· ≤ ·)) {s : Holder}
    (h : lastClaimEpoch s.records.userKDA ≤ now) :
    prune <$> runStake P fc assetID s.prune ops =
      prune <$> runStake P fc assetID s ops := by
  induction ops generalizing now s with
  | nil =>
    simp only [runStake, List.foldlM_nil, map_pure, prune, pruneAccount_pruneAccount,
      pruneKDA_pruneKDA]
  | cons op rest ih =>
    rw [List.map_cons, List.isChain_cons_cons] at hsorted
    have hcursor := UInt32.le_trans h hsorted.1
    have hstep : prune <$> execStake P fc assetID s.prune op =
        prune <$> execStake P fc assetID s op := prune_exec hcursor
    simp only [runStake, List.foldlM_cons, map_bind]
    cases hs : execStake P fc assetID s op with
    | error e =>
      cases ht : execStake P fc assetID s.prune op with
      | error e' =>
        rw [hs, ht] at hstep
        cases hstep
        rfl
      | ok t =>
        rw [hs, ht] at hstep
        cases hstep
    | ok s1 =>
      cases ht : execStake P fc assetID s.prune op with
      | error e' =>
        rw [hs, ht] at hstep
        cases hstep
      | ok t1 =>
        rw [hs, ht] at hstep
        have heq : t1.prune = s1.prune := Except.ok.inj hstep
        have hs1 := ih hsorted.2 (execStake_cursor hcursor hs)
        have ht1 := ih hsorted.2 (execStake_cursor (s := s.prune) hcursor ht)
        rw [heq] at ht1
        exact ht1.symm.trans hs1

end KleverGo.Staking
