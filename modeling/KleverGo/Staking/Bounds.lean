import KleverGo.Staking.Pruning

/-!
# The stake history stays bounded

* `HistoryInv`: the segments of a history follow each other, and each ends in an epoch in which
  the bucket was frozen or unfrozen.
* `stake_history_bounded`: a freeze drops the segments up to the claim cursor, so what it leaves
  is no longer than the list of later epochs with a change.  Nothing else changes the history.
* `history_outlives_claim`: a claim moves the cursor past segments that only the next freeze
  drops.
-/

namespace KleverGo.Staking

open List

/-! ## Order and length -/

/-- The segments follow each other, none of them empty. -/
structure Consecutive (history : List StakeSegment) : Prop where
  proper : ∀ segment ∈ history, segment.stakedEpoch < segment.throughEpoch
  ordered : history.Pairwise fun a b => a.throughEpoch ≤ b.stakedEpoch

variable {history : List StakeSegment}

section
variable (h : Consecutive history)
include h

theorem Consecutive.through_increasing : (history.map (·.throughEpoch)).Pairwise (· < ·) := by
  rw [pairwise_map]
  refine h.ordered.imp_of_mem fun {a b} _ hb hab => ?_
  have := h.proper b hb
  grind

theorem Consecutive.staked_increasing : (history.map (·.stakedEpoch)).Pairwise (· < ·) := by
  rw [pairwise_map]
  refine h.ordered.imp_of_mem fun {a b} ha _ hab => ?_
  have := h.proper a ha
  grind

theorem Consecutive.filter (p : StakeSegment → Bool) :
    Consecutive (history.filter p) where
  proper segment hs := h.proper segment (mem_filter.1 hs).1
  ordered := h.ordered.filter p

theorem Consecutive.append {segment : StakeSegment}
    (hproper : segment.stakedEpoch < segment.throughEpoch)
    (hlast : ∀ a ∈ history, a.throughEpoch ≤ segment.stakedEpoch) :
    Consecutive (history ++ [segment]) where
  proper a ha := by
    rcases mem_append.1 ha with ha | ha
    · exact h.proper a ha
    · rw [mem_singleton.1 ha]
      exact hproper
  ordered := by
    rw [pairwise_append]
    refine ⟨h.ordered, pairwise_singleton _ _, fun a ha b hb => ?_⟩
    rw [mem_singleton.1 hb]
    exact hlast a ha

end

/-- What is known of a bucket after the changes in `log`, at epoch `now`. -/
structure HistoryInv (log : StakeLog) (now : UInt32) (b : UserBucket) : Prop where
  began : b.stakedEpoch ≤ now
  ended : b.unstakedEpoch = DefaultUnstakedEpoch ∨
    b.stakedEpoch ≤ b.unstakedEpoch ∧ b.unstakedEpoch ∈ log.map Prod.fst
  consecutive : Consecutive b.history
  past : ∀ segment ∈ b.history, segment.throughEpoch ≤ b.stakedEpoch
  logged : ∀ segment ∈ b.history, segment.throughEpoch ∈ log.map Prod.fst

namespace HistoryInv

variable {log : StakeLog} {now epoch cursor : UInt32} {b : UserBucket}

section
variable (h : HistoryInv log now b) (hnow : now ≤ epoch)
include h hnow

theorem advance : HistoryInv log epoch b :=
  { h with began := UInt32.le_trans h.began hnow }

theorem unfreeze :
    HistoryInv (log ++ [(epoch, .unfreeze)]) epoch { b with unstakedEpoch := epoch } where
  began := UInt32.le_trans h.began hnow
  ended := .inr ⟨UInt32.le_trans h.began hnow, by simp⟩
  consecutive := h.consecutive
  past := h.past
  logged segment hs := by
    rw [map_append]
    exact mem_append_left _ (h.logged segment hs)

/-- The history a freeze stores is in order, and its segments end in epochs with a change, all
later than the cursor. -/
theorem stakeHistoryAfterFreeze (hlog : ∀ e ∈ log.map Prod.fst, e ≤ now) (cursor : UInt32)
    (value : Int64) :
    Consecutive (stakeHistoryAfterFreeze b epoch cursor) ∧
      ∀ segment ∈ Staking.stakeHistoryAfterFreeze b epoch cursor,
        cursor < segment.throughEpoch ∧ segment.throughEpoch ≤ epoch ∧
          segment.throughEpoch ∈ (log ++ [(epoch, StakeMove.freeze value)]).map Prod.fst := by
  have hbegan := h.began
  have hthrough : liveThrough b epoch ≤ epoch ∧
      liveThrough b epoch ∈ (log ++ [(epoch, StakeMove.freeze value)]).map Prod.fst := by
    rw [map_append, mem_append]
    unfold liveThrough
    rcases h.ended with hd | ⟨-, hd⟩
    · rw [if_neg (not_not.2 hd)]
      exact ⟨UInt32.le_refl _, .inr (by simp)⟩
    · have := hlog _ hd
      split
      · exact ⟨by grind, .inl hd⟩
      · exact ⟨UInt32.le_refl _, .inr (by simp)⟩
  rw [stakeHistoryAfterFreeze_eq]
  have hkept : ∀ segment ∈ b.history.filter fun segment => cursor < segment.throughEpoch,
      cursor < segment.throughEpoch ∧ segment.throughEpoch ≤ epoch ∧
        segment.throughEpoch ∈ (log ++ [(epoch, StakeMove.freeze value)]).map Prod.fst := by
    intro segment hs
    obtain ⟨hm, hc⟩ := mem_filter.1 hs
    have hp := h.past segment hm
    rw [map_append, mem_append]
    exact ⟨by simpa using hc, by grind, .inl (h.logged segment hm)⟩
  split
  · rename_i hnew
    refine ⟨(h.consecutive.filter _).append hnew.1 fun a ha => h.past a (mem_filter.1 ha).1,
      fun segment hs => ?_⟩
    rcases mem_append.1 hs with hs | hs
    · exact hkept segment hs
    · rw [mem_singleton.1 hs]
      exact ⟨hnew.2, hthrough⟩
  · rw [append_nil]
    exact ⟨h.consecutive.filter _, hkept⟩

end

theorem freeze {bucket : Option UserBucket} (h : ∀ old, bucket = some old → HistoryInv log now old)
    (hlog : ∀ e ∈ log.map Prod.fst, e ≤ now) (opts : FreezeOptions) (hnow : now ≤ opts.blockEpoch)
    (value : Int64) (cursor : UInt32) :
    HistoryInv (log ++ [(opts.blockEpoch, .freeze value)]) opts.blockEpoch
        (frozenBucket opts value cursor bucket) ∧
      ∀ segment ∈ (frozenBucket opts value cursor bucket).history,
        cursor < segment.throughEpoch := by
  have hnil : ∀ b : UserBucket, b.history = [] → b.stakedEpoch = opts.blockEpoch →
      b.unstakedEpoch = DefaultUnstakedEpoch →
      HistoryInv (log ++ [(opts.blockEpoch, .freeze value)]) opts.blockEpoch b := by
    intro b hh hs hu
    refine ⟨by rw [hs]; exact UInt32.le_refl _, .inl hu, ⟨?_, ?_⟩, ?_, ?_⟩ <;> simp [hh]
  by_cases hkeep : opts.keepStakeHistory = true
  · cases bucket with
    | none =>
      refine ⟨hnil _ (by simp [frozenBucket]) rfl rfl, ?_⟩
      simp [frozenBucket]
    | some old =>
      obtain ⟨hcons, hseg⟩ := (h old rfl).stakeHistoryAfterFreeze hnow hlog cursor value
      have hhist : (frozenBucket opts value cursor (some old)).history =
          Staking.stakeHistoryAfterFreeze old opts.blockEpoch cursor := by
        simp [frozenBucket, hkeep]
      refine ⟨⟨UInt32.le_refl _, .inl rfl, ?_, ?_, ?_⟩, ?_⟩
      · rw [hhist]; exact hcons
      · rw [hhist]; exact fun segment hs => (hseg segment hs).2.1
      · rw [hhist]; exact fun segment hs => (hseg segment hs).2.2
      · rw [hhist]; exact fun segment hs => (hseg segment hs).1
  · refine ⟨hnil _ (by simp [frozenBucket, hkeep]) rfl rfl, ?_⟩
    simp [frozenBucket, hkeep]

end HistoryInv

/-- The different epochs after the cursor in which the bucket was frozen or unfrozen. -/
def changeEpochs (cursor : UInt32) (log : StakeLog) : List UInt32 :=
  ((log.map Prod.fst).filter fun e => cursor < e).dedup

/-- Segments that end in different epochs with a change are at most as many. -/
theorem HistoryInv.length_le {log : StakeLog} {now cursor : UInt32} {b : UserBucket}
    (h : HistoryInv log now b) (hcursor : ∀ segment ∈ b.history, cursor < segment.throughEpoch) :
    b.history.length ≤ (changeEpochs cursor log).length := by
  have hnodup : (b.history.map (·.throughEpoch)).Nodup :=
    h.consecutive.through_increasing.imp fun hlt => UInt32.ne_of_lt hlt
  have hsub : b.history.map (·.throughEpoch) ⊆ changeEpochs cursor log := by
    intro e he
    obtain ⟨segment, hs, rfl⟩ := mem_map.1 he
    rw [changeEpochs, mem_dedup, mem_filter]
    exact ⟨h.logged segment hs, by simpa using hcursor segment hs⟩
  simpa using (subperm_of_subset hnodup hsub).length_le

/-! ## Runs -/

variable {P : Platform} {fc : ForkController} {assetID : Bytes}

variable {s s' : Holder} {op : StakeOp}

inductive BucketStep (fc : ForkController) (assetID : Bytes) (s s' : Holder) : StakeOp → Prop
  | freeze {epoch time value} (hbucket : s'.bucket assetID = some (frozenBucket
        ⟨epoch, time, fc.fixStakingBuckets, fc.fixAuditChangesV5⟩ value
        (lastClaimEpoch s.records.userKDA) (s.bucket assetID)))
      (hcursor : lastClaimEpoch s'.records.userKDA = lastClaimEpoch s.records.userKDA) :
      BucketStep fc assetID s s' ⟨epoch, time, .freeze value⟩
  | unfreeze {epoch time b} (hb : s.bucket assetID = some b)
      (hb' : s'.bucket assetID = some { b with unstakedEpoch := epoch }) :
      BucketStep fc assetID s s' ⟨epoch, time, .unfreeze⟩
  | other {op : StakeOp} (hlog : op.log = []) (hbucket : s'.bucket assetID = s.bucket assetID) :
      BucketStep fc assetID s s' op

theorem execStake_bucket (hklv : assetID ≠ KLVIdentifier) (hkfi : assetID ≠ KFIIdentifier)
    (h : execStake P fc assetID s op = .ok s') : BucketStep fc assetID s s' op := by
  obtain ⟨epoch, time, call⟩ := op
  cases call with
  | freeze value =>
    simp only [execStake, bind_eq_ok, pure_eq_ok] at h
    obtain ⟨⟨staking, userKDA⟩, hfreeze, rfl⟩ := h
    obtain ⟨-, key, old, hkey, rfl, rfl, rfl⟩ := freeze_spec hfreeze
    rw [parsedBucketID_custom hklv hkfi] at hkey
    subst hkey
    exact .freeze (by simp [Holder.bucket, UserKDA.bucketMap]) rfl
  | unfreeze =>
    simp only [execStake, bind_eq_ok, pure_eq_ok] at h
    obtain ⟨⟨staking, userKDA, _, _⟩, hunfreeze, rfl⟩ := h
    obtain ⟨key, b, hkey, hb, -, rfl, rfl, -, -⟩ := unfreeze_spec hunfreeze
    rw [parsedBucketID_custom hklv hkfi] at hkey
    subst hkey
    exact .unfreeze hb (by simp [Holder.bucket, UserKDA.bucketMap])
  | claim =>
    simp only [execStake, bind_eq_ok, pure_eq_ok] at h
    obtain ⟨r, hclaim, rfl⟩ := h
    obtain ⟨balance, last, huser, -⟩ := claimBalance_userKDA hclaim
    refine .other rfl ?_
    simp only [Holder.bucket, huser]
    rfl
  | deposit maxEpochsUnclaimed currencyID amount =>
    simp only [execStake, bind_eq_ok, pure_eq_ok] at h
    obtain ⟨staking, -, rfl⟩ := h
    exact .other rfl rfl

/-- The history of the holder's bucket fits the log. -/
structure HolderInv (assetID : Bytes) (log : StakeLog) (now : UInt32) (s : Holder) : Prop where
  past : ∀ e ∈ log.map Prod.fst, e ≤ now
  bucket : ∀ b, s.bucket assetID = some b → HistoryInv log now b

theorem HolderInv.exec (hklv : assetID ≠ KLVIdentifier) (hkfi : assetID ≠ KFIIdentifier)
    {log : StakeLog} {now : UInt32} (h : HolderInv assetID log now s) (hnow : now ≤ op.epoch)
    (hexec : execStake P fc assetID s op = .ok s') :
    HolderInv assetID (log ++ op.log) op.epoch s' := by
  have hpast : ∀ e ∈ (log ++ op.log).map Prod.fst, e ≤ op.epoch := by
    intro e he
    rw [map_append, mem_append] at he
    rcases he with he | he
    · exact UInt32.le_trans (h.past e he) hnow
    · unfold StakeOp.log at he
      split at he <;> simp at he <;> rw [he] <;> exact UInt32.le_refl _
  refine ⟨hpast, fun b hb' => ?_⟩
  cases execStake_bucket hklv hkfi hexec with
  | @freeze epoch time value hbucket _ =>
    cases hbucket.symm.trans hb'
    exact (HistoryInv.freeze h.bucket h.past
      ⟨epoch, time, fc.fixStakingBuckets, fc.fixAuditChangesV5⟩ hnow value _).1
  | unfreeze hb1 hb2 =>
    cases hb2.symm.trans hb'
    exact (h.bucket _ hb1).unfreeze hnow
  | other hlog hbucket =>
    rw [hlog, append_nil]
    exact (h.bucket b (hbucket ▸ hb')).advance hnow

variable {ops : List StakeOp}

theorem HolderInv.run (hklv : assetID ≠ KLVIdentifier) (hkfi : assetID ≠ KFIIdentifier)
    {log : StakeLog} {now epoch : UInt32} (h : HolderInv assetID log now s)
    (hsorted : (now :: (ops.map (·.epoch) ++ [epoch])).IsChain (· ≤ ·))
    (hrun : runStake P fc assetID s ops = .ok s') :
    HolderInv assetID (log ++ logOf ops) epoch s' := by
  induction ops generalizing log now s with
  | nil =>
    cases hrun
    have hle := (isChain_cons_cons.1 hsorted).1
    simp only [logOf, flatMap_nil, append_nil]
    exact ⟨fun e he => UInt32.le_trans (h.past e he) hle,
      fun b hb => (h.bucket b hb).advance hle⟩
  | cons op rest ih =>
    simp only [map_cons, cons_append, isChain_cons_cons] at hsorted
    simp only [runStake, foldlM_cons, bind_eq_ok] at hrun
    obtain ⟨s₁, hop, hrest⟩ := hrun
    have hrec := ih (h.exec hklv hkfi hsorted.1 hop) hsorted.2 hrest
    simp only [logOf, flatMap_cons, ← append_assoc] at hrec ⊢
    exact hrec

/-- A change in the epoch the bucket was last frozen in does not lengthen its history. -/
theorem history_sublist_of_same_epoch (hklv : assetID ≠ KLVIdentifier)
    (hkfi : assetID ≠ KFIIdentifier) {log : StakeLog} (h : HolderInv assetID log op.epoch s)
    (hexec : execStake P fc assetID s op = .ok s') {b b' : UserBucket}
    (hb : s.bucket assetID = some b) (hb' : s'.bucket assetID = some b')
    (hsame : b.stakedEpoch = op.epoch) : b'.history.Sublist b.history := by
  cases execStake_bucket hklv hkfi hexec with
  | @freeze epoch _ _ hbucket _ =>
    rw [hbucket, hb] at hb'
    cases hb'
    simp only [frozenBucket, Option.elim_some]
    split
    · have hlive : liveThrough b epoch = epoch := by
        unfold liveThrough
        rcases (h.bucket b hb).ended with hd | ⟨hle, hd⟩
        · rw [if_neg (not_not.2 hd)]
        · have := h.past _ hd
          split
          · grind
          · rfl
      rw [stakeHistoryAfterFreeze_eq, hlive, hsame, if_neg (fun hc => UInt32.lt_irrefl _ hc.1),
        append_nil]
      exact filter_sublist
    · exact nil_sublist _
  | unfreeze hb1 hb2 =>
    cases hb.symm.trans hb1
    cases hb2.symm.trans hb'
    exact Sublist.refl _
  | other _ hbucket =>
    cases hb'.symm.trans (hbucket.trans hb)
    exact Sublist.refl _

theorem runStake_cursor {now epoch : UInt32} (h : lastClaimEpoch s.records.userKDA ≤ now)
    (hsorted : (now :: (ops.map (·.epoch) ++ [epoch])).IsChain (· ≤ ·))
    (hrun : runStake P fc assetID s ops = .ok s') :
    lastClaimEpoch s'.records.userKDA ≤ epoch := by
  induction ops generalizing now s with
  | nil =>
    cases hrun
    exact UInt32.le_trans h (isChain_cons_cons.1 hsorted).1
  | cons op rest ih =>
    simp only [map_cons, cons_append, isChain_cons_cons] at hsorted
    simp only [runStake, foldlM_cons, bind_eq_ok] at hrun
    obtain ⟨s₁, hop, hrest⟩ := hrun
    exact ih (execStake_cursor (UInt32.le_trans h hsorted.1) hop) hsorted.2 hrest

/-- **The stake history stays bounded.**  Consider any operation after any run from a state
without a bucket, at epochs that do not decrease.  The epochs in the history increase; a freeze
leaves at most one segment for each epoch after the cursor with a freeze or an unfreeze; no other
operation changes the history; once the bucket was frozen in an epoch, no operation of that epoch
lengthens it; and neither the next claim nor any later run sees the segments up to the cursor. -/
theorem stake_history_bounded {now : UInt32} {s s₁ s₂ : Holder} {ops : List StakeOp} {op : StakeOp}
    (hklv : assetID ≠ KLVIdentifier) (hkfi : assetID ≠ KFIIdentifier)
    (hcursor : lastClaimEpoch s.records.userKDA ≤ now) (hunstaked : s.bucket assetID = none)
    (hsorted : (now :: (ops.map (·.epoch) ++ [op.epoch])).IsChain (· ≤ ·))
    (hrun : runStake P fc assetID s ops = .ok s₁) (hexec : execStake P fc assetID s₁ op = .ok s₂) :
    (∀ b, s₂.bucket assetID = some b →
      (b.history.map (·.stakedEpoch)).Pairwise (· < ·) ∧
        (b.history.map (·.throughEpoch)).Pairwise (· < ·)) ∧
    (∀ value, op.call = .freeze value → ∀ b, s₂.bucket assetID = some b →
      b.history.length ≤
        (changeEpochs (lastClaimEpoch s₂.records.userKDA) (logOf (ops ++ [op]))).length) ∧
    ((∀ value, op.call ≠ .freeze value) →
      (s₂.bucket assetID).map (·.history) = (s₁.bucket assetID).map (·.history)) ∧
    (∀ b b', s₁.bucket assetID = some b → s₂.bucket assetID = some b' →
      b.stakedEpoch = op.epoch → b'.history.length ≤ b.history.length) ∧
    (∀ epoch time, claim P fc assetID epoch time s₂.records.staking s₂.records.kda
        (pruneKDA s₂.records.userKDA) =
      claim P fc assetID epoch time s₂.records.staking s₂.records.kda s₂.records.userKDA) ∧
    ∀ later : List StakeOp, (op.epoch :: later.map (·.epoch)).IsChain (· ≤ ·) →
      Holder.prune <$> runStake P fc assetID s₂.prune later =
        Holder.prune <$> runStake P fc assetID s₂ later := by
  have h : HolderInv assetID [] now s :=
    ⟨by simp, fun b hb => by rw [hunstaked] at hb; cases hb⟩
  have h1 := h.run hklv hkfi hsorted hrun
  rw [nil_append] at h1
  have h2 := h1.exec hklv hkfi (UInt32.le_refl _) hexec
  have hcursor1 := runStake_cursor hcursor hsorted hrun
  have hstep := execStake_bucket hklv hkfi hexec
  have hlog : logOf (ops ++ [op]) = logOf ops ++ op.log := by simp [logOf]
  refine ⟨fun b hb => ?_, fun value hcall b hb => ?_, fun hother => ?_, fun b b' hb hb' hsame => ?_,
    fun epoch time => claim_prune epoch time _ _ _,
    fun later hlater => prune_run hlater (execStake_cursor hcursor1 hexec)⟩
  · have hc := (h2.bucket b hb).consecutive
    exact ⟨hc.staked_increasing, hc.through_increasing⟩
  · rw [hlog]
    refine (h2.bucket b hb).length_le fun segment hs => ?_
    cases hstep with
    | @freeze epoch time value hbucket hcursor =>
      cases hbucket.symm.trans hb
      rw [hcursor]
      exact (HistoryInv.freeze h1.bucket h1.past
        ⟨epoch, time, fc.fixStakingBuckets, fc.fixAuditChangesV5⟩ (UInt32.le_refl _) value
        _).2 segment hs
    | unfreeze => cases hcall
    | other hlog => simp [StakeOp.log, hcall] at hlog
  · cases hstep with
    | @freeze _ _ value => exact absurd rfl (hother value)
    | unfreeze hb hb' =>
      rw [hb, hb']
      rfl
    | other _ hbucket => rw [hbucket]
  · exact (history_sublist_of_same_epoch hklv hkfi h1 hexec hb hb' hsame).length_le

def sampleRefrozen : Holder :=
  (execStake samplePlatform .allActive [88] sampleStaked ⟨4, 40, .freeze 5⟩).toOption.getD
    sampleHolder

theorem stake_history_bounded_sample :
    (sampleRefrozen.bucket [88]).map (·.history.length) = some 2 ∧
    ∀ b, sampleRefrozen.bucket [88] = some b → b.history.length ≤
      (changeEpochs (lastClaimEpoch sampleRefrozen.records.userKDA)
        (logOf (sampleStakeOps ++ [⟨4, 40, .freeze 5⟩]))).length := by
  have hrun : runStake samplePlatform .allActive [88] sampleHolder sampleStakeOps =
      .ok sampleStaked := eq_ok_getD sampleHolder (by decide +kernel)
  have hexec : execStake samplePlatform .allActive [88] sampleStaked ⟨4, 40, .freeze 5⟩ =
      .ok sampleRefrozen := eq_ok_getD sampleHolder (by decide +kernel)
  exact ⟨by decide +kernel, (stake_history_bounded (by decide) (by decide)
    sampleHolder_start.cursor (by rfl) (by decide +kernel) hrun hexec).2.1 5 rfl⟩

/-! ## After a claim -/

/-- A holder of an asset without pools that can be claimed on every `wait` epochs. -/
def waitingHolder (wait : UInt32) : Holder :=
  { sampleHolder with records :=
    { sampleHolder.records with staking := ⟨.FPRI, [], [], 0, wait, 0, 2⟩ } }

def freezeEpoch (i : Nat) : UInt32 := UInt32.ofNat (i + 1)

variable {i j : Nat}

theorem freezeEpoch_lt (h : i < j) (hj : j + 1 < 4294967296) : freezeEpoch i < freezeEpoch j := by
  rw [UInt32.lt_iff_toNat_lt, freezeEpoch, freezeEpoch, UInt32.toNat_ofNat', UInt32.toNat_ofNat']
  omega

/-- One freeze in each of the epochs from 1 to `n`. -/
def freezeEachEpoch (n : Nat) : List StakeOp :=
  (range n).map fun i => ⟨freezeEpoch i, 0, .freeze 1⟩

/-- What `n + 1` such freezes leave: a history of `n` segments and an unmoved cursor. -/
structure Grown (wait : UInt32) (n : Nat) (s : Holder) : Prop where
  staking : ∃ total, s.records.staking = ⟨.FPRI, [], [], total, wait, 0, 2⟩
  cursor : s.records.userKDA.lastClaim = some ⟨0, 0⟩
  bucket : ∃ b, s.bucket [88] = some b ∧ b.stakedEpoch = freezeEpoch n ∧
    b.unstakedEpoch = DefaultUnstakedEpoch ∧ b.history.length = n ∧
    ∀ segment ∈ b.history, 0 < segment.throughEpoch

variable {n : Nat}

theorem Grown.freeze {wait : UInt32} (hn : n + 2 < 4294967296) (h : Grown wait n s) :
    ∃ s', execStake samplePlatform .allActive [88] s
      ⟨freezeEpoch (n + 1), 0, .freeze 1⟩ = .ok s' ∧ Grown wait (n + 1) s' := by
  obtain ⟨total, hstaking⟩ := h.staking
  obtain ⟨b, hb, hstaked, hunstaked, hlength, hthrough⟩ := h.bucket
  refine ⟨_, rfl, ⟨_, by rw [hstaking]⟩, h.cursor, _, AList.lookup_insert _, rfl, rfl, ?_⟩
  have hcursor : lastClaimEpoch s.records.userKDA = 0 := by simp [lastClaimEpoch, h.cursor]
  have hlt : freezeEpoch n < freezeEpoch (n + 1) := freezeEpoch_lt (Nat.lt_succ_self n) hn
  have hpos : 0 < freezeEpoch (n + 1) := UInt32.lt_of_le_of_lt UInt32.zero_le hlt
  have hkept : b.history.filter (fun segment => (0 : UInt32) < segment.throughEpoch) = b.history :=
    filter_eq_self.2 fun segment hs => by simpa using hthrough segment hs
  have hhist : stakeHistoryAfterFreeze b (freezeEpoch (n + 1)) 0 =
      b.history ++ [⟨freezeEpoch n, freezeEpoch (n + 1), b.value⟩] := by
    simp only [stakeHistoryAfterFreeze, hunstaked, hkept, hstaked, hlt, hpos, ne_eq,
      not_true_eq_false, if_false, and_self, if_true]
  have hold : s.records.userKDA.bucketMap.lookup (parsedBucketID [88] [88]) = some b := hb
  simp only [frozenBucket, hold, hcursor, Option.elim_some, ForkController.allActive, if_true,
    hhist, length_append, hlength, length_singleton, mem_append, mem_singleton, true_and]
  rintro segment (hs | rfl)
  · exact hthrough segment hs
  · exact hpos

theorem freezeEachEpoch_grown (wait : UInt32) (n : Nat) (hn : n + 1 < 4294967296) :
    ∃ s, runStake samplePlatform .allActive [88] (waitingHolder wait) (freezeEachEpoch (n + 1)) =
      .ok s ∧ Grown wait n s := by
  induction n with
  | zero => exact ⟨_, rfl, ⟨_, rfl⟩, rfl, _, rfl, rfl, rfl, rfl, fun _ hs => nomatch hs⟩
  | succ n ih =>
    obtain ⟨s, hrun, hgrown⟩ := ih (by omega)
    obtain ⟨s', hexec, hgrown'⟩ := hgrown.freeze hn
    refine ⟨s', ?_, hgrown'⟩
    rw [freezeEachEpoch, range_succ, map_append, runStake, foldlM_append, bind_eq_ok]
    refine ⟨s, hrun, ?_⟩
    rw [map_cons, map_nil, foldlM_cons, hexec]
    rfl

/-- A claim in the epoch of the last freeze finds no pool and moves the cursor. -/
theorem Grown.claim (h : Grown (freezeEpoch n) n s) :
    ∃ s', execStake samplePlatform .allActive [88] s ⟨freezeEpoch n, 0, .claim⟩ = .ok s' ∧
      s'.records.userKDA = { s.records.userKDA with lastClaim := some ⟨0, freezeEpoch n⟩ } := by
  obtain ⟨total, hstaking⟩ := h.staking
  obtain ⟨b, hb, -⟩ := h.bucket
  have hgains : Staking.claim samplePlatform .allActive [88] (freezeEpoch n) 0 s.records.staking
      s.records.kda s.records.userKDA = .ok (∅, s.records.staking, s.records.kda) := by
    have hwait : ¬ freezeEpoch n - (0 : UInt32) < freezeEpoch n := by
      rw [UInt32.sub_zero]
      exact UInt32.lt_irrefl _
    simp only [Staking.claim, hstaking, computeClaimFPR, h.cursor]
    cases hbuckets : s.records.userKDA.buckets with
    | none =>
      simp only [Holder.bucket, UserKDA.bucketMap, hbuckets] at hb
      cases hb
    | some buckets =>
      simp only [reject, hwait, if_false]
      rfl
  refine ⟨⟨s.acc, { s.records with
    userKDA := { s.records.userKDA with lastClaim := some ⟨0, freezeEpoch n⟩ } }⟩, ?_, rfl⟩
  simp only [execStake, claimBalance, claimGains, hgains]
  simp only [moveCursor, ForkController.allActive, true_or, if_true, h.cursor, orError]
  rfl

theorem freezeEpoch_le (h : i ≤ j) (hj : j + 1 < 4294967296) : freezeEpoch i ≤ freezeEpoch j := by
  rcases Nat.lt_or_eq_of_le h with hlt | rfl
  · exact UInt32.le_of_lt (freezeEpoch_lt hlt hj)
  · exact UInt32.le_refl _

theorem freezeEachEpoch_epochs (n : Nat) :
    (freezeEachEpoch n).map (·.epoch) = (range n).map freezeEpoch := by
  simp [freezeEachEpoch]

theorem freezeEachEpoch_sorted (n : Nat) (hn : n + 1 < 4294967296) :
    (0 :: ((freezeEachEpoch (n + 1)).map (·.epoch) ++ [freezeEpoch n])).IsChain (· ≤ ·) := by
  refine List.Pairwise.isChain (pairwise_cons.2 ⟨fun _ _ => UInt32.zero_le, ?_⟩)
  rw [freezeEachEpoch_epochs, pairwise_append, pairwise_map]
  refine ⟨?_, pairwise_singleton _ _, ?_⟩
  · refine pairwise_lt_range.imp_of_mem fun {i j} _ hj hij => ?_
    have := mem_range.1 hj
    exact freezeEpoch_le (by omega) (by omega)
  rintro e he e' he'
  obtain ⟨i, hi, rfl⟩ := mem_map.1 he
  have := mem_range.1 hi
  rw [mem_singleton.1 he']
  exact freezeEpoch_le (by omega) hn

theorem changeEpochs_freezeEachEpoch (n : Nat) (hn : n + 1 < 4294967296) :
    changeEpochs (freezeEpoch n) (logOf (freezeEachEpoch (n + 1))) = [] := by
  have hlog : (logOf (freezeEachEpoch (n + 1))).map Prod.fst =
      (range (n + 1)).map freezeEpoch := by
    simp [logOf, freezeEachEpoch, flatMap_map, StakeOp.log, ← map_eq_flatMap]
  rw [changeEpochs, hlog, filter_eq_nil_iff.2, dedup_nil]
  intro e he
  obtain ⟨i, hi, rfl⟩ := mem_map.1 he
  have := mem_range.1 hi
  simpa using freezeEpoch_le (by omega) hn

/-- **A claim can leave any number of segments behind its cursor.**  No constant below the number
of epochs bounds the history by the epochs with a change since the cursor. -/
theorem history_outlives_claim :
    ¬ ∃ C : Nat, C + 3 < 4294967296 ∧ ∀ (s s₁ s₂ : Holder) (ops : List StakeOp) (op : StakeOp),
      StakeStart 0 s → (0 :: (ops.map (·.epoch) ++ [op.epoch])).IsChain (· ≤ ·) →
      runStake samplePlatform .allActive [88] s ops = .ok s₁ →
      execStake samplePlatform .allActive [88] s₁ op = .ok s₂ →
      ∀ b, s₂.bucket [88] = some b → b.history.length ≤
        (changeEpochs (lastClaimEpoch s₂.records.userKDA) (logOf (ops ++ [op]))).length + C := by
  rintro ⟨C, hC, hbound⟩
  obtain ⟨s₁, hrun, hgrown⟩ :=
    freezeEachEpoch_grown (freezeEpoch (C + 1)) (C + 1) (by omega)
  obtain ⟨s₂, hexec, huser⟩ := hgrown.claim
  obtain ⟨b, hb, -, -, hlength, -⟩ := hgrown.bucket
  have hstart : StakeStart 0 (waitingHolder (freezeEpoch (C + 1))) :=
    ⟨rfl, Option.some_ne_none _, UInt32.le_refl _, rfl, .nil⟩
  have hnone : changeEpochs (lastClaimEpoch s₂.records.userKDA)
      (logOf (freezeEachEpoch (C + 1 + 1) ++ [⟨freezeEpoch (C + 1), 0, .claim⟩])) = [] := by
    have hlog : logOf (freezeEachEpoch (C + 1 + 1) ++ [⟨freezeEpoch (C + 1), 0, .claim⟩]) =
        logOf (freezeEachEpoch (C + 1 + 1)) := by simp [logOf, StakeOp.log]
    rw [huser, hlog]
    exact changeEpochs_freezeEachEpoch (C + 1) (by omega)
  have hle := hbound _ _ _ _ ⟨freezeEpoch (C + 1), 0, .claim⟩ hstart
    (freezeEachEpoch_sorted (C + 1) (by omega)) hrun hexec b
    (by simpa [Holder.bucket, huser, UserKDA.bucketMap] using hb)
  rw [hnone, hlength, length_nil] at hle
  omega

end KleverGo.Staking
