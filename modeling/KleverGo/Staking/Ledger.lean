import KleverGo.Staking.Model

/-!
# What an account holds of an asset

The free balance of an asset and its buckets are two ledgers of one account.  `holding` adds them
up, `stakedValue` adds the buckets that are staked.  A call works on a copy of one record, so the
effect of each step is stated on `stored`, the account with that copy written back:

* `claimDue_spec`: a claim moves the holdings by what it credits and touches no bucket;
* `freeze_ledger`, `unfreeze_ledger`, `withdraw_ledger`: the frozen balance moves with the staked
  buckets, and the holdings stay as they are.

Sums are sums of amounts, modulo `2 ^ 64` as the source adds them.
-/

namespace KleverGo

open UserKDA FMap UserAccount

namespace UserAccount

theorem frozenBalance_setUserKDA (a : UserAccount) (x y : Bytes) (k : UserKDA) :
    ((a.setUserKDA x [] k).getUserKDA y []).frozenBalance =
      if y = x then k.frozenBalance else (a.getUserKDA y []).frozenBalance := by
  rw [getUserKDA_setUserKDA, apply_ite frozenBalance, k.readBack_spec.2.1]

theorem bucketMap_setUserKDA (a : UserAccount) (x y : Bytes) (k : UserKDA) :
    ((a.setUserKDA x [] k).getUserKDA y []).bucketMap =
      if y = x then k.bucketMap else (a.getUserKDA y []).bucketMap := by
  rw [getUserKDA_setUserKDA, apply_ite bucketMap, k.readBack_spec.2.2]

end UserAccount

namespace Staking

/-! ## Ledgers -/

def stakedValue (k : UserKDA) : Int64 :=
  k.bucketMap.sumBy fun _ b => if b.unstakedEpoch = DefaultUnstakedEpoch then b.value else 0

def bucketValue (k : UserKDA) : Int64 := k.bucketMap.sumBy fun _ b => b.value

/-- The free balance and the buckets of an asset. -/
def holding (a : UserAccount) (y : Bytes) : Int64 :=
  a.getBalance y + bucketValue (a.getUserKDA y [])

/-- The account with the caller's copy of a record written back. -/
def stored (x : Bytes) (p : UserAccount × UserKDA) : UserAccount := p.1.setUserKDA x [] p.2

theorem holding_stored (x : Bytes) (p : UserAccount × UserKDA) (y : Bytes) :
    holding (stored x p) y =
      if y = x then (if x = KLVIdentifier then p.1.balance else p.2.balance) + bucketValue p.2
      else holding p.1 y := by
  simp only [holding, stored, bucketValue, bucketMap_setUserKDA, getBalance_setUserKDA]
  by_cases hy : y = x
  · subst hy
    by_cases hk : y = KLVIdentifier <;> simp [hk, getBalance]
  · simp [hy]

theorem holding_stored_loaded (x : Bytes) (a : UserAccount) (y : Bytes) :
    holding (stored x (a, a.getUserKDA x [])) y = holding a y := by
  rw [holding_stored]
  split
  · rename_i hy
    subst hy
    simp only [holding, getBalance]
  · rfl

/-- What a step on the copy of the record of `x` does to the account: the holdings shift by `δ`,
and the frozen balances and buckets of the other assets stay. -/
structure Works (x : Bytes) (δ : Bytes → Int64) (p p' : UserAccount × UserKDA) : Prop where
  shifts : Shifts (fun p => holding (stored x p)) δ p p'
  frozen : ∀ y, y ≠ x →
    (p'.1.getUserKDA y []).frozenBalance = (p.1.getUserKDA y []).frozenBalance
  buckets : ∀ y, y ≠ x → (p'.1.getUserKDA y []).bucketMap = (p.1.getUserKDA y []).bucketMap

namespace Works

variable {x : Bytes} {δ δ' : Bytes → Int64} {p p1 p2 : UserAccount × UserKDA}

theorem refl (x : Bytes) (p : UserAccount × UserKDA) : Works x 0 p p :=
  ⟨.refl _ p, fun _ _ => rfl, fun _ _ => rfl⟩

theorem trans (h1 : Works x δ p p1) (h2 : Works x δ' p1 p2) : Works x (δ + δ') p p2 where
  shifts := h1.shifts.trans h2.shifts
  frozen y hy := (h2.frozen y hy).trans (h1.frozen y hy)
  buckets y hy := (h2.buckets y hy).trans (h1.buckets y hy)

theorem of_eq (h : Works x δ p p1) (he : δ = δ') : Works x δ' p p1 := he ▸ h

variable {a : UserAccount} {k k' : UserKDA} {v : Int64}

theorem of_record
    (hbalance : (if x = KLVIdentifier then a.balance else k'.balance) + bucketValue k' =
      (if x = KLVIdentifier then a.balance else k.balance) + bucketValue k + v) :
    Works x (entry x v) (a, k) (a, k') where
  shifts y := by
    simp only [holding_stored]
    split
    · rename_i hy
      rw [hy, entry_self]
      exact hbalance
    · rename_i hy
      rw [entry_ne hy, add_zero]
  frozen _ _ := rfl
  buckets _ _ := rfl

/-- A step that moves the free balance of `x`, wherever it is kept. -/
theorem of_balance {a' : UserAccount}
    (h : if x = KLVIdentifier then a' = { a with balance := a.balance + v } ∧ k' = k
      else k' = { k with balance := k.balance + v } ∧ a' = a.setUserKDA x [] k') :
    Works x (entry x v) (a, k) (a', k') := by
  split at h
  · rename_i hx
    obtain ⟨rfl, rfl⟩ := h
    refine ⟨fun y => ?_, fun _ _ => rfl, fun _ _ => rfl⟩
    simp only [holding_stored, hx, if_true]
    split
    · rename_i hy
      rw [hy, entry_self]
      exact add_right_comm _ _ _
    · rename_i hy
      rw [entry_ne hy, add_zero]
      simp only [holding, getBalance, hy, if_false]
      rfl
  · rename_i hx
    obtain ⟨rfl, rfl⟩ := h
    refine ⟨fun y => ?_, fun y hy => ?_, fun y hy => ?_⟩
    · simp only [holding_stored, hx, if_false]
      split
      · rename_i hy
        rw [hy, entry_self]
        exact add_right_comm _ _ _
      rename_i hy
      rw [entry_ne hy, add_zero]
      have hstored := holding_stored x (a, { k with balance := k.balance + v }) y
      rw [if_neg hy] at hstored
      exact hstored
    · rw [frozenBalance_setUserKDA, if_neg hy]
    · rw [bucketMap_setUserKDA, if_neg hy]

end Works

/-! ## Claims -/

/-- What crediting a gain adds: nothing if it is not positive. -/
def credit (v : Int64) : Int64 := if v ≤ 0 then 0 else v

/-- What a claim credits of each asset. -/
def credited (gains : Gains) (y : Bytes) : Int64 := gains.sumBy fun k v => entry k (credit v) y

variable {y : Bytes} {a a' : UserAccount} {v : Int64}

/-- Crediting an asset other than the one at work, in the stored account. -/
theorem Works.of_other {x : Bytes} (hne : y ≠ x) (k : UserKDA) :
    Works x (entry y v) (a, k) (a.setBalance y (a.getBalance y + v), k) := by
  refine ⟨fun z => ?_, fun z _ => (getUserKDA_setBalance a y z _).1,
    fun z _ => (getUserKDA_setBalance a y z _).2⟩
  simp only [holding_stored]
  split
  · rename_i hz
    rw [hz, entry_ne hne.symm, add_zero]
    split
    · rename_i hx
      rw [setBalance, if_neg fun hy => hne (hy.trans hx.symm)]
      rfl
    · rfl
  -- of the other assets, the balance of `y` is the only thing that moves
  · simp only [holding, bucketValue, getBalance_setBalance, (getUserKDA_setBalance a y z _).2]
    split
    · rename_i hz
      rw [hz, entry_self]
      exact add_right_comm _ _ _
    · rename_i hz
      rw [entry_ne hz, add_zero]

theorem addToBalance_eq (h : a.addToBalance v (some y) = .ok a') :
    a' = a.setBalance y (a.getBalance y + v) := by
  simp only [addToBalance, changeBalance, bind_eq_ok, pure_eq_ok] at h
  obtain ⟨_, -, _, -, rfl⟩ := h
  rfl

variable {p' : UserAccount × UserKDA}

theorem creditGain_works {x : Bytes} {p : UserAccount × UserKDA}
    {gain : Sigma fun _ : Bytes => Int64} (h : creditGain x p gain = .ok p') :
    Works x (entry gain.1 (credit gain.2)) p p' := by
  unfold creditGain at h
  split at h
  · rename_i hpos
    cases h
    rw [credit, if_pos hpos, entry_zero]
    exact .refl x _
  rename_i hpos
  rw [credit, if_neg hpos]
  split at h
  · rename_i hasset
    simp only [bind_eq_ok, pure_eq_ok] at h
    obtain ⟨a, hadd, rfl⟩ := h
    rw [addToBalance_eq hadd]
    by_cases hne : gain.1 = x
    · -- the asset at work, which can only be KLV here
      have hx : gain.1 = KLVIdentifier := hasset.resolve_right fun hc => hc hne
      rw [hne]
      refine Works.of_balance ?_
      rw [if_pos (hne.symm.trans hx), setBalance, getBalance, if_pos (hne.symm.trans hx),
        if_pos (hne.symm.trans hx)]
      exact ⟨rfl, rfl⟩
    · exact Works.of_other hne p.2
  · rename_i hasset
    rw [not_or, not_not] at hasset
    simp only [bind_eq_ok, pure_eq_ok] at h
    obtain ⟨_, -, rfl⟩ := h
    rw [hasset.2]
    refine Works.of_balance ?_
    rw [if_neg (hasset.2 ▸ hasset.1)]
    exact ⟨rfl, rfl⟩

theorem creditGains_works {x : Bytes} {gains : List (Sigma fun _ : Bytes => Int64)}
    {p : UserAccount × UserKDA} (h : gains.foldlM (creditGain x) p = .ok p') :
    Works x (fun y => (gains.map fun e => entry e.1 (credit e.2) y).sum) p p' := by
  induction gains generalizing p with
  | nil =>
    cases h
    exact .refl x _
  | cons gain rest ih =>
    simp only [List.foldlM_cons, bind_eq_ok] at h
    obtain ⟨p1, hgain, hrest⟩ := h
    refine ((creditGain_works hgain).trans (ih hrest)).of_eq ?_
    funext y
    simp only [Pi.add_apply, List.map_cons, List.sum_cons]

variable {P : Platform} {fc : ForkController} {epoch : UInt32} {staking : StakingData} {k : UserKDA}

/-- A claim changes the pools of the staking record and nothing else of it. -/
theorem claim_staking {x : Bytes} {time : Int64} {kda : KDAData} {r : Gains × StakingData × KDAData}
    (h : claim P fc x epoch time staking kda k = .ok r) :
    ∃ fpr, r.2.1 = { staking with fpr := fpr } := by
  unfold claim at h
  split at h
  · simp only [bind_eq_ok, pure_eq_ok] at h
    obtain ⟨⟨gains, staking'⟩, hfpr, rfl⟩ := h
    unfold computeClaimFPR at hfpr
    split at hfpr
    · simp only [bind_eq_ok, pure_eq_ok] at hfpr
      obtain ⟨_, -, ⟨_, fpr⟩, -, heq⟩ := hfpr
      cases heq
      exact ⟨fpr, rfl⟩
    · cases hfpr
      exact ⟨staking.fpr, rfl⟩
  · split at h
    · simp only [bind_eq_ok, pure_eq_ok] at h
      obtain ⟨_, -, rfl⟩ := h
      exact ⟨staking.fpr, rfl⟩
    · simp only [bind_eq_ok, pure_eq_ok] at h
      obtain ⟨_, -, _, -, rfl⟩ := h
      exact ⟨staking.fpr, rfl⟩

/-- **What paying the rewards that are due does**: the holdings shift by what is credited, the
record keeps its frozen balance and its buckets, and only the pools of the asset change. -/
theorem claimDue_spec {ctx : KappContext} {x : Bytes} {records : ClaimRecords}
    {r : Gains × UserAccount × ClaimRecords} (h : claimDue P fc ctx x a records = .ok r) :
    Works x (credited r.1) (a, records.userKDA) (r.2.1, r.2.2.userKDA) ∧
    r.2.2.userKDA.frozenBalance = records.userKDA.frozenBalance ∧
    r.2.2.userKDA.buckets = records.userKDA.buckets ∧
    ∃ fpr, r.2.2.staking = { records.staking with fpr := fpr } := by
  unfold claimDue at h
  split at h
  · rename_i claimed hclaim
    cases h
    obtain ⟨balance, last, huser, -⟩ := claimBalance_userKDA hclaim
    refine ⟨?_, by rw [huser], by rw [huser], ?_⟩
    · simp only [claimBalance, bind_eq_ok, pure_eq_ok] at hclaim
      obtain ⟨⟨gains, staking, kda⟩, -, userKDA, hcursor, ⟨acc', userKDA'⟩, hcredit, rfl⟩ := hclaim
      have hworks := creditGains_works hcredit
      have hcursor' : Works x 0 (a, records.userKDA) (a, userKDA) := by
        have hk : userKDA.balance = records.userKDA.balance ∧
            userKDA.buckets = records.userKDA.buckets := by
          unfold moveCursor at hcursor
          split at hcursor
          · simp only [bind_eq_ok, pure_eq_ok] at hcursor
            obtain ⟨_, -, rfl⟩ := hcursor
            exact ⟨rfl, rfl⟩
          · cases hcursor
            exact ⟨rfl, rfl⟩
        refine (Works.of_record (v := 0) ?_).of_eq (entry_zero x)
        simp only [bucketValue, bucketMap, hk.1, hk.2, add_zero]
      exact (hcursor'.trans hworks).of_eq (zero_add _)
    · simp only [claimBalance, bind_eq_ok, pure_eq_ok] at hclaim
      obtain ⟨⟨gains, staking, kda⟩, hgains, _, -, _, -, rfl⟩ := hclaim
      unfold claimGains at hgains
      split at hgains
      · rename_i hclaim
        cases hgains
        exact claim_staking hclaim
      · split at hgains
        · cases hgains
          exact ⟨records.staking.fpr, rfl⟩
        · cases hgains
  · split at h
    · cases h
      exact ⟨.refl x _, rfl, rfl, records.staking.fpr, rfl⟩
    · cases h

/-! ## Buckets -/

theorem sumBy_write {M : Type} [AddCommGroup M] (f : UserBucket → M) (m : FMap Bytes UserBucket)
    (key : Bytes) (b : UserBucket) : sumBy (fun _ b => f b) (m.insert key b) =
      sumBy (fun _ b => f b) m + (f b - (m.lookup key).elim 0 f) :=
  FMap.sumBy_write (fun _ b => f b) m key b

/-- The share of a bucket in the staked value. -/
def stakedShare (b : UserBucket) : Int64 :=
  if b.unstakedEpoch = DefaultUnstakedEpoch then b.value else 0

theorem stakedValue_eq (k : UserKDA) :
    stakedValue k = k.bucketMap.sumBy fun _ b => stakedShare b := rfl

variable {bucketID : Bytes} {value : Int64} {staking' : StakingData} {k' : UserKDA}

/-- **Freezing**: the free balance pays for what the buckets gain, and the frozen balance moves
with the staked buckets. -/
theorem freeze_ledger {x : Bytes} {opts : FreezeOptions} (hflow : opts.newStakingFlow = true)
    (h : freeze x bucketID value opts staking k = .ok (staking', k')) :
    bucketValue k' = bucketValue k + value ∧ k'.balance = k.balance ∧
    ∃ δ, stakedValue k' = stakedValue k + δ ∧ k'.frozenBalance = k.frozenBalance + δ ∧
      staking' = { staking with totalStaked := staking.totalStaked + δ } := by
  obtain ⟨-, key, old, rfl, hold, rfl, rfl⟩ := freeze_spec h
  have hmap : ∀ m : FMap Bytes UserBucket, ∀ f : Int64,
      ({ k with buckets := some m, frozenBalance := f } : UserKDA).bucketMap = m := fun _ _ => rfl
  refine ⟨?_, rfl, freezeToAdd opts value old, ?_, rfl, rfl⟩
  · rw [bucketValue, hmap, sumBy_write (fun b => b.value), ← hold]
    cases old with
    | none => simp [frozenBucket, bucketValue]
    | some b =>
      simp only [frozenBucket, Option.elim_some, bucketValue]
      abel
  · rw [stakedValue_eq, hmap, sumBy_write stakedShare, ← hold, stakedValue_eq]
    cases old with
    | none => simp [frozenBucket, stakedShare, freezeToAdd]
    | some b =>
      simp only [stakedShare, frozenBucket, freezeToAdd, Option.elim_some, if_true, hflow]
      by_cases hstaked : b.unstakedEpoch = DefaultUnstakedEpoch
      · simp only [hstaked, ne_eq, not_true_eq_false, and_false, if_false, if_true]
        abel
      · simp only [hstaked, ne_eq, not_false_eq_true, and_self, if_true, if_false]
        abel

/-- **Unfreezing** leaves the values of the buckets and moves the frozen balance with the staked
ones, except in the epoch that is also the mark of a bucket that is not unfrozen.  An asset with
an APR has one bucket, and its whole frozen balance is released. -/
theorem unfreeze_ledger {x : Bytes} {flow : Bool} {delegation : Bytes}
    (hepoch : epoch ≠ DefaultUnstakedEpoch) (hfrozen : k.frozenBalance = stakedValue k)
    (hsingle : staking.interestType = .APRI → ∀ key b, k.bucketMap.lookup key = some b →
      key = parsedBucketID x bucketID)
    (h : unfreeze x bucketID epoch flow staking k = .ok (staking', k', delegation, value)) :
    bucketValue k' = bucketValue k ∧ k'.balance = k.balance ∧
    ∃ δ, stakedValue k' = stakedValue k + δ ∧ k'.frozenBalance = k.frozenBalance + δ ∧
      staking' = { staking with totalStaked := staking.totalStaked + δ } := by
  obtain ⟨key, b, hkey, hb, hstaked, rfl, rfl, rfl, rfl⟩ := unfreeze_spec h
  have hmap : ∀ m : FMap Bytes UserBucket, ∀ f : Int64,
      ({ k with buckets := some m, frozenBalance := f } : UserKDA).bucketMap = m := fun _ _ => rfl
  refine ⟨?_, rfl, -b.value, ?_, ?_⟩
  · rw [bucketValue, hmap, sumBy_write (fun b => b.value), hb]
    simp [bucketValue]
  · rw [stakedValue_eq, hmap, sumBy_write stakedShare, hb, stakedValue_eq]
    simp [stakedShare, hepoch, hstaked]
  -- the totals of the two kinds of interest agree: with an APR the bucket is the frozen balance
  have htotals : unfreezeTotals flow staking k b =
      (staking.totalStaked + -b.value, k.frozenBalance + -b.value) := by
    unfold unfreezeTotals
    split
    · rename_i hapr
      have hall : k.frozenBalance = b.value := by
        rw [hfrozen, stakedValue_eq, sumBy, entries_of_key_eq (hsingle hapr.2), ← hkey, hb]
        simp [stakedShare, hstaked]
      rw [hall, sub_eq_add_neg, add_neg_cancel]
    · rw [sub_eq_add_neg, sub_eq_add_neg]
  rw [htotals]
  exact ⟨rfl, rfl⟩

variable {b : UserBucket}

theorem writeDelegation_ledger {key : Bytes} (hb : k.bucketMap.lookup key = some b)
    (delegation : Bytes) :
    let k' : UserKDA :=
      { k with buckets := some (k.bucketMap.insert key { b with delegation := delegation }) }
    bucketValue k' = bucketValue k ∧ stakedValue k' = stakedValue k := by
  have hmap : ∀ m : FMap Bytes UserBucket,
      ({ k with buckets := some m } : UserKDA).bucketMap = m := fun _ => rfl
  refine ⟨?_, ?_⟩
  · rw [bucketValue, hmap, sumBy_write (fun b => b.value), hb]
    simp [bucketValue]
  · rw [stakedValue_eq, hmap, sumBy_write stakedShare, hb, stakedValue_eq]
    simp [stakedShare]

variable {minEpochs : UInt32}

/-- A bucket that is staked cannot be withdrawn before the last epoch. -/
theorem not_withdrawable_of_staked (hepoch : epoch ≠ DefaultUnstakedEpoch)
    (hstaked : b.unstakedEpoch = DefaultUnstakedEpoch) :
    withdrawable epoch minEpochs b = false := by
  have hlt : epoch.toNat < DefaultUnstakedEpoch.toNat := by
    have := epoch.toNat_lt
    have hne : epoch.toNat ≠ DefaultUnstakedEpoch.toNat := fun hc => hepoch (UInt32.toNat_inj.1 hc)
    have hmax : DefaultUnstakedEpoch.toNat = 4294967295 := rfl
    omega
  simp only [withdrawable, hstaked, decide_eq_false_iff_not]
  omega

theorem bucketMap_withdrawBuckets (epoch minEpochs : UInt32) (k : UserKDA) :
    (withdrawBuckets epoch minEpochs k).bucketMap =
      k.bucketMap.filter fun _ b => !withdrawable epoch minEpochs b := by
  unfold withdrawBuckets bucketMap
  cases k.buckets <;> rfl

variable {amount : Int64}

theorem withdraw_bucketMap {x : Bytes} (h : withdraw x epoch minEpochs a k = .ok (a', k', amount)) :
    k'.bucketMap = k.bucketMap.filter fun _ b => !withdrawable epoch minEpochs b := by
  rw [← bucketMap_withdrawBuckets]
  simp only [withdraw, bind_eq_ok] at h
  obtain ⟨_, -, h⟩ := h
  split at h <;> cases h <;> rfl

/-- **Withdrawing** moves the value of the buckets it deletes to the free balance; none of them
is staked. -/
theorem withdraw_ledger {x : Bytes} (hepoch : epoch ≠ DefaultUnstakedEpoch)
    (h : withdraw x epoch minEpochs a k = .ok (a', k', amount)) :
    Works x 0 (a, k) (a', k') ∧ stakedValue k' = stakedValue k ∧
    k'.frozenBalance = k.frozenBalance ∧
    ∀ key b, k'.bucketMap.lookup key = some b → k.bucketMap.lookup key = some b := by
  have hmap := bucketMap_withdrawBuckets epoch minEpochs k
  have hsplit : ∀ f : UserBucket → Int64,
      sumBy (fun _ b => f b) (k.bucketMap.filter fun _ b => withdrawable epoch minEpochs b) +
        sumBy (fun _ b => f b) (withdrawBuckets epoch minEpochs k).bucketMap =
      sumBy (fun _ b => f b) k.bucketMap := by
    intro f
    rw [hmap]
    exact sumBy_filter_add _ _ _
  -- a bucket that is staked cannot be withdrawn before the last epoch
  have hstaked : sumBy (fun _ b => stakedShare b)
      (k.bucketMap.filter fun _ b => withdrawable epoch minEpochs b) = 0 := by
    refine sumBy_eq_zero fun key b hb => ?_
    rw [lookup_filter, Option.filter_eq_some_iff] at hb
    rw [stakedShare, if_neg]
    intro hdefault
    rw [not_withdrawable_of_staked hepoch hdefault] at hb
    exact Bool.false_ne_true hb.2
  have hkept : stakedValue (withdrawBuckets epoch minEpochs k) = stakedValue k := by
    have := hsplit stakedShare
    rwa [hstaked, zero_add] at this
  have hvalue : withdrawAmount epoch minEpochs k + bucketValue (withdrawBuckets epoch minEpochs k) =
      bucketValue k := hsplit fun b => b.value
  have hsub : ∀ key b, (withdrawBuckets epoch minEpochs k).bucketMap.lookup key = some b →
      k.bucketMap.lookup key = some b := by
    intro key b hb
    rw [hmap, lookup_filter, Option.filter_eq_some_iff] at hb
    exact hb.1
  simp only [withdraw, bind_eq_ok] at h
  obtain ⟨_, -, h⟩ := h
  split at h
  · rename_i hx
    cases h
    refine ⟨⟨fun y => ?_, fun y hy => ?_, fun y hy => ?_⟩, hkept, rfl, hsub⟩
    · rw [Pi.zero_apply, add_zero]
      simp only [holding_stored]
      split
      · simp only [hx, ← hvalue]
        exact add_assoc _ _ _
      rename_i hy
      have hz : y ≠ KLVIdentifier := fun hc => hy (hc.trans hx.symm)
      refine (holding_stored x (_, _) y).trans ?_
      simp only [hy, if_false, holding, getBalance, hz]
      rfl
    · rw [frozenBalance_setUserKDA, if_neg hy]
      rfl
    · rw [bucketMap_setUserKDA, if_neg hy]
      rfl
  · rename_i hx
    cases h
    refine ⟨⟨fun y => ?_, fun y hy => ?_, fun y hy => ?_⟩, hkept, rfl, hsub⟩
    · rw [Pi.zero_apply, add_zero]
      simp only [holding_stored]
      split
      · rw [← hvalue]
        exact add_assoc _ _ _
      · rename_i hy
        refine (holding_stored x (_, _) y).trans ?_
        rw [if_neg hy]
    · rw [frozenBalance_setUserKDA, if_neg hy]
    · rw [bucketMap_setUserKDA, if_neg hy]

end Staking

end KleverGo
