import KleverGo.Staking.Account

/-!
# Claims and pools

`claimBalance` of `core/kapp/accounts/accounts.go`: it computes the rewards of a holder, moves the
claim cursor (`LastClaim`) and credits the gains.  `depositFPR` is what `Deposit` of
`core/kapp/kda/kda.go` does to the pools of an asset.

* `claimPools_eq`: a claim pays, for each pool between the cursor and the block, the stake
  `stakeUsed` reports, and leaves the other pools alone.
-/

namespace KleverGo.Staking

structure ClaimRecords where
  staking : StakingData
  kda : KDAData
  userKDA : UserKDA

/-- `AddToBalance` of one gain; the caller's record is used for its own asset. -/
def creditGain (assetID : Bytes) (s : UserAccount × UserKDA)
    (gain : Sigma fun _ : Bytes => Int64) : Except Err (UserAccount × UserKDA) := do
  if gain.2 ≤ 0 then pure s
  else if gain.1 = KLVIdentifier ∨ gain.1 ≠ assetID then
    let acc ← s.1.addToBalance gain.2 (some gain.1)
    pure (acc, s.2)
  else
    reject (s.2.balance + gain.2 < 0) .ErrAddBalanceOverflow
    let userKDA := { s.2 with balance := s.2.balance + gain.2 }
    pure (s.1.setUserKDA assetID [] userKDA, userKDA)

section
variable (P : Platform) (fc : ForkController)

/-- `errors.Is(err, state.ErrAPRGainDropped)` -/
def isAPRGainDropped : Err → Bool
  | .ErrAPRGainDroppedInt64Overflow | .ErrAPRGainDroppedMaxSupplyExceeded
  | .ErrAPRGainDroppedNegativeCirculatingSupply => true
  | _ => false

section

variable (assetID : Bytes) (epoch : UInt32) (blockTime : Int64)

/-- `Claim` followed by `recordDroppedAPRGain`. -/
def claimGains (records : ClaimRecords) (dropUncreditedAPRGain : Bool) :
    Except Err (Gains × StakingData × KDAData) :=
  match claim P fc assetID epoch blockTime records.staking records.kda records.userKDA with
  | .ok claimed => .ok claimed
  | .error e =>
    if dropUncreditedAPRGain && isAPRGainDropped e then .ok (∅, records.staking, records.kda)
    else .error e

/-- The claim cursor after a claim. -/
def moveCursor (gains : Gains) (userKDA : UserKDA) : Except Err UserKDA := do
  if fc.claimKFI ∨ 0 < gains.get assetID then
    let _ ← orError userKDA.lastClaim .nilPointer
    pure { userKDA with lastClaim := some ⟨blockTime, epoch⟩ }
  else pure userKDA

/-- `claimBalance` of staking rewards -/
def claimBalance (acc : UserAccount) (records : ClaimRecords) (dropUncreditedAPRGain : Bool) :
    Except Err (Gains × UserAccount × ClaimRecords) := do
  let (gains, staking, kda) ←
    claimGains P fc assetID epoch blockTime records dropUncreditedAPRGain
  let userKDA ← moveCursor fc assetID epoch blockTime gains records.userKDA
  let (acc, userKDA) ← gains.entries.foldlM (creditGain assetID) (acc, userKDA)
  pure (gains, acc, ⟨staking, kda, userKDA⟩)

end

end

/-! ## Deposits -/

def MaxDepositKDAs : Nat := 20

/-- Whether `Deposit` keeps a pool of an earlier epoch. -/
def notExpired (fc : ForkController) (maxEpochsUnclaimed epoch : UInt32) (fpr : FPRData) : Bool :=
  if fc.fixAuditChangesV6 then epoch.toNat ≤ fpr.epoch.toNat + maxEpochsUnclaimed.toNat
  else epoch ≤ fpr.epoch + maxEpochsUnclaimed

/-- The pool of the next epoch `Deposit` adds to: the last one found, or an empty one. -/
def nextPool (epoch : UInt32) (pools : List FPRData) : FPRData :=
  pools.foldl (fun next fpr => if fpr.epoch = epoch + 1 then fpr else next) ⟨0, 0, 0, 0, ∅⟩

/-- The pool of the next epoch with the deposit in it. -/
def depositPool (epoch : UInt32) (currencyID : Bytes) (amount totalStaked : Int64)
    (next : FPRData) : FPRData :=
  if currencyID = KLVIdentifier then
    ⟨next.totalAmount + amount, totalStaked, epoch + 1, next.totalClaimed, next.kdas⟩
  else
    let old := (next.kdas.lookup currencyID).getD ⟨0, 0⟩
    ⟨next.totalAmount, totalStaked, epoch + 1, next.totalClaimed,
      next.kdas.insert currencyID { old with totalAmount := old.totalAmount + amount }⟩

/-- The pools after `Deposit`: the expired ones are dropped. -/
def depositFPR (fc : ForkController) (maxEpochsUnclaimed epoch : UInt32) (currencyID : Bytes)
    (amount : Int64) (staking : StakingData) : Except Err StakingData := do
  let next := nextPool epoch staking.fpr
  let valid := staking.fpr.filter fun fpr =>
    fpr.epoch ≠ epoch + 1 ∧ notExpired fc maxEpochsUnclaimed epoch fpr
  reject (MaxDepositKDAs ≤ next.kdas.entries.length ∧ currencyID ≠ KLVIdentifier)
    .ErrMaxSupplyExceeded
  pure { staking with
    fpr := valid ++ [depositPool epoch currencyID amount staking.totalStaked next] }

/-! ## The stake a pool is paid on -/

/-- The stake `accrueBucketFPR` pays a pool on; `none` if it pays nothing. -/
def stakeUsed (fc : ForkController) (bucket : UserBucket) (fprEpoch : UInt32) : Option Int64 :=
  if bucketEligibleForFPR fc bucket fprEpoch then bucketStakeAt fc bucket fprEpoch else none

variable {P : Platform} {fc : ForkController}

variable {gains : Gains} {fpr : FPRData} {bucket : UserBucket} {r : Gains × FPRData}

theorem accrueBucketFPR_eq (h : accrueBucketFPR P fc gains fpr bucket = .ok r) :
    r = (stakeUsed fc bucket fpr.epoch).elim (gains, fpr) (accrueStake P fc gains fpr) := by
  unfold accrueBucketFPR at h
  unfold stakeUsed
  split at h
  · rename_i hs
    cases h
    simp [hs]
  rename_i v hs
  simp only [bind_eq_ok] at h
  obtain ⟨_, -, h⟩ := h
  split at h
  · rename_i he
    cases h
    simp [hs, he]
  · rename_i he
    cases h
    simp [he]

theorem accrueStake_epoch (gains : Gains) (fpr : FPRData) (v : Int64) :
    (accrueStake P fc gains fpr v).2.epoch = fpr.epoch := by
  have hfold : ∀ (l : List (Sigma fun _ : Bytes => KDAFPRData)) (acc : Gains × FPRData),
      (l.foldl (accrueKDA P fc v) acc).2.epoch = acc.2.epoch := by
    intro l
    induction l with
    | nil => exact fun _ => rfl
    | cons e rest ih => exact fun acc => ih _
  unfold accrueStake
  rw [hfold]
  unfold accrueKLV
  split <;> rfl

/-- The stake a claim pays a pool on: nothing outside the window between the cursor and the
block. -/
def settledStake (fc : ForkController) (bucket : Option UserBucket) (lastClaim blockEpoch : UInt32)
    (fpr : FPRData) : Option Int64 :=
  if fpr.epoch ≤ lastClaim ∨ blockEpoch < fpr.epoch then none
  else bucket.bind fun b => stakeUsed fc b fpr.epoch

variable {buckets : FMap Bytes UserBucket} {assetID : Bytes} {last epoch : UInt32}

theorem claimPool_eq (hkeys : ∀ k b, buckets.lookup k = some b → k = assetID)
    (h : claimPool P fc buckets last epoch gains fpr = .ok r) :
    r = (settledStake fc (buckets.lookup assetID) last epoch fpr).elim (gains, fpr)
      (accrueStake P fc gains fpr) := by
  unfold claimPool at h
  unfold settledStake
  split at h
  · rename_i hout
    cases h
    simp [hout]
  rename_i hin
  rw [FMap.entries_of_key_eq hkeys] at h
  rw [if_neg hin]
  cases hb : buckets.lookup assetID with
  | none =>
    rw [hb] at h
    cases h
    rfl
  | some b =>
    rw [hb] at h
    simp only [Option.elim_some, List.foldlM_cons, List.foldlM_nil, bind_eq_ok, pure_eq_ok] at h
    obtain ⟨_, h, rfl⟩ := h
    exact accrueBucketFPR_eq h

/-- What a claim does to the pools, for a holder with one bucket: each pool is paid on its
settled stake, in order, and keeps its epoch. -/
def settlePools (P : Platform) (fc : ForkController) (settled : FPRData → Option Int64) :
    Gains → List FPRData → Gains × List FPRData
  | gains, [] => (gains, [])
  | gains, fpr :: rest =>
    let paid := (settled fpr).elim (gains, fpr) (accrueStake P fc gains fpr)
    let others := settlePools P fc settled paid.1 rest
    (others.1, paid.2 :: others.2)

variable {pools : List FPRData}

theorem claimPools_eq (hkeys : ∀ k b, buckets.lookup k = some b → k = assetID)
    {r : Gains × List FPRData} (h : claimPools P fc buckets last epoch gains pools = .ok r) :
    r = settlePools P fc (settledStake fc (buckets.lookup assetID) last epoch) gains pools := by
  induction pools generalizing gains r with
  | nil =>
    cases h
    rfl
  | cons fpr rest ih =>
    simp only [claimPools, bind_eq_ok, pure_eq_ok] at h
    obtain ⟨⟨gains1, fpr1⟩, hpool, ⟨gains2, rest2⟩, hrest, rfl⟩ := h
    have hpaid := claimPool_eq hkeys hpool
    have hothers := ih hrest
    simp only [settlePools, ← hpaid, ← hothers]

theorem settlePools_epochs (settled : FPRData → Option Int64) (gains : Gains)
    (pools : List FPRData) :
    (settlePools P fc settled gains pools).2.map (·.epoch) = pools.map (·.epoch) := by
  induction pools generalizing gains with
  | nil => rfl
  | cons fpr rest ih =>
    simp only [settlePools, List.map_cons, ih]
    cases settled fpr with
    | none => rfl
    | some v => rw [Option.elim_some, accrueStake_epoch]

/-! ## What a claim leaves -/

variable {s s' : UserAccount × UserKDA}

theorem creditGain_spec {gain : Sigma fun _ : Bytes => Int64}
    (h : creditGain assetID s gain = .ok s') :
    ∃ balance, s'.2 = { s.2 with balance := balance } := by
  unfold creditGain at h
  split at h
  · cases h
    exact ⟨_, rfl⟩
  split at h
  · simp only [bind_eq_ok, pure_eq_ok] at h
    obtain ⟨_, -, rfl⟩ := h
    exact ⟨_, rfl⟩
  · simp only [bind_eq_ok, pure_eq_ok] at h
    obtain ⟨_, -, rfl⟩ := h
    exact ⟨_, rfl⟩

/-- Crediting the gains changes the balance of the caller's record only. -/
theorem creditGains_spec {gains : List (Sigma fun _ : Bytes => Int64)}
    (h : gains.foldlM (creditGain assetID) s = .ok s') :
    ∃ balance, s'.2 = { s.2 with balance := balance } := by
  refine foldlM_invariant (P := fun s1 => ∃ balance, s1.2 = { s.2 with balance := balance }) ?_
    ⟨_, rfl⟩ h
  rintro s1 gain s2 ⟨balance, hs1⟩ hstep
  obtain ⟨balance', hs2⟩ := creditGain_spec hstep
  exact ⟨balance', by rw [hs2, hs1]⟩

variable {time : Int64} {acc : UserAccount} {records : ClaimRecords} {drop : Bool}

/-- Every claim leaves the buckets alone and the cursor where it is or at the block. -/
theorem claimBalance_userKDA {r : Gains × UserAccount × ClaimRecords}
    (h : claimBalance P fc assetID epoch time acc records drop = .ok r) :
    ∃ balance last, r.2.2.userKDA =
        { records.userKDA with balance := balance, lastClaim := last } ∧
      (last = records.userKDA.lastClaim ∨ last = some ⟨time, epoch⟩) := by
  simp only [claimBalance, bind_eq_ok, pure_eq_ok] at h
  obtain ⟨_, -, userKDA, hcursor, _, hcredit, rfl⟩ := h
  obtain ⟨balance, hbalance⟩ := creditGains_spec hcredit
  unfold moveCursor at hcursor
  split at hcursor
  · simp only [bind_eq_ok, pure_eq_ok] at hcursor
    obtain ⟨_, -, rfl⟩ := hcursor
    exact ⟨balance, _, hbalance, .inr rfl⟩
  · cases hcursor
    exact ⟨balance, _, hbalance, .inl rfl⟩

variable {userKDA : UserKDA} {staking : StakingData}

theorem computeClaimFPR_spec (hkeys : ∀ k b, userKDA.bucketMap.lookup k = some b → k = assetID)
    {lc : LastClaim} (hlast : userKDA.lastClaim = some lc) {r : Gains × StakingData}
    (h : computeClaimFPR P fc epoch userKDA staking = .ok r) :
    r.2 = { staking with fpr := (settlePools P fc
      (settledStake fc (userKDA.bucketMap.lookup assetID) lc.epoch epoch) ∅ staking.fpr).2 } ∧
    r.1 = (settlePools P fc
      (settledStake fc (userKDA.bucketMap.lookup assetID) lc.epoch epoch) ∅ staking.fpr).1 := by
  unfold computeClaimFPR at h
  rw [hlast] at h
  unfold UserKDA.bucketMap at hkeys ⊢
  cases hb : userKDA.buckets with
  | none =>
    rw [hb] at h
    cases h
    have hnone : settledStake fc ((none : Option (FMap Bytes UserBucket)).getD ∅ |>.lookup assetID)
        lc.epoch epoch = fun _ => none := by
      funext fpr
      simp [settledStake]
    have hid : ∀ (pools : List FPRData) (gains : Gains),
        settlePools P fc (fun _ => none) gains pools = (gains, pools) := by
      intro pools
      induction pools with
      | nil => exact fun _ => rfl
      | cons fpr rest ih =>
        intro gains
        simp only [settlePools, Option.elim_none, ih]
    rw [hnone, hid]
    exact ⟨rfl, rfl⟩
  | some buckets =>
    rw [hb] at h hkeys
    simp only [bind_eq_ok, pure_eq_ok] at h
    obtain ⟨_, -, ⟨gains, fpr⟩, hpools, rfl⟩ := h
    simp only [Option.getD_some] at hkeys ⊢
    rw [← claimPools_eq hkeys hpools]
    exact ⟨rfl, rfl⟩

variable {e : Err}

theorem accrueBucketFPR_error (h : accrueBucketFPR P fc gains fpr bucket = .error e) :
    e = .ErrInconsistentStakingData := by
  unfold accrueBucketFPR at h
  split at h
  · cases h
  · rw [bind_eq_error, reject_eq_error] at h
    rcases h with h | ⟨_, -, h⟩
    · exact h.2.symm
    · split at h <;> exact absurd h (pure_ne_error _ _)

theorem claimPools_error (h : claimPools P fc buckets last epoch gains pools = .error e) :
    e = .ErrInconsistentStakingData := by
  induction pools generalizing gains with
  | nil => cases h
  | cons fpr rest ih =>
    simp only [claimPools, bind_eq_error, pure_ne_error, and_false, exists_false, or_false] at h
    rcases h with h | ⟨_, -, h⟩
    · unfold claimPool at h
      split at h
      · cases h
      · obtain ⟨_, _, h⟩ := foldlM_error h
        exact accrueBucketFPR_error h
    · exact ih h

theorem computeClaimFPR_error (h : computeClaimFPR P fc epoch userKDA staking = .error e) :
    isAPRGainDropped e = false := by
  unfold computeClaimFPR at h
  split at h
  · simp only [bind_eq_error, pure_ne_error, and_false, exists_false, or_false,
      reject_eq_error] at h
    rcases h with h | ⟨_, -, h⟩
    · rw [← h.2]
      rfl
    · rw [claimPools_error h]
      rfl
  · cases h

/-- A claim on pools, with `ClaimKFI` active: every pool is paid on its settled stake, the
cursor moves to the block, and nothing else of the records changes but the balance. -/
theorem claimBalance_fpri {r : Gains × UserAccount × ClaimRecords} (hkfi : fc.claimKFI = true)
    (hfpri : records.staking.interestType = .FPRI)
    (hkeys : ∀ k b, records.userKDA.bucketMap.lookup k = some b → k = assetID)
    (h : claimBalance P fc assetID epoch time acc records drop = .ok r) :
    r.2.2.staking = { records.staking with fpr := (settlePools P fc
      (settledStake fc (records.userKDA.bucketMap.lookup assetID)
        (lastClaimEpoch records.userKDA) epoch) ∅ records.staking.fpr).2 } ∧
    ∃ balance, r.2.2.userKDA =
      { records.userKDA with balance := balance, lastClaim := some ⟨time, epoch⟩ } := by
  simp only [claimBalance, moveCursor, hkfi, true_or, if_true, bind_eq_ok, orError_eq_ok,
    pure_eq_ok] at h
  obtain ⟨⟨gains, staking, kda⟩, hclaim, _, ⟨lc, hlast, rfl⟩, ⟨acc', userKDA'⟩, hcredit, rfl⟩ := h
  obtain ⟨balance, hbalance⟩ := creditGains_spec hcredit
  refine ⟨?_, balance, hbalance⟩
  have hcomputed : computeClaimFPR P fc epoch records.userKDA records.staking =
      .ok (gains, staking) := by
    unfold claimGains claim at hclaim
    rw [hfpri] at hclaim
    cases hc : computeClaimFPR P fc epoch records.userKDA records.staking with
    | ok r =>
      simp only [hc] at hclaim
      cases hclaim
      rfl
    | error e =>
      have hkept := computeClaimFPR_error hc
      simp only [hc, bind, Except.bind, hkept, Bool.and_false, Bool.false_eq_true, if_false] at hclaim
      cases hclaim
  have hspec := (computeClaimFPR_spec hkeys hlast hcomputed).1
  rw [lastClaimEpoch, hlast]
  exact hspec

end KleverGo.Staking
