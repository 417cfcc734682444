import KleverGo.Staking.Principal

/-!
# A supply that fits

Ledgers are added modulo `2 ^ 64` by the source.  Here the amounts of one asset other than KLV are
added up as integers: while no amount is negative and all of them together fit in an `int64`, the
frozen balances are exact.

* `Sound`: no balance and no bucket of the asset is negative.
* `kappFreeze_supply`, `kappUnfreeze_supply`: a freeze and an unfreeze keep it so, and add to the
  supply what their claim pays.
* `Principal.frozen_exact`: the frozen balance of a user is the integer sum of the staked buckets.
-/

namespace KleverGo.Staking

open FMap UserAccount

/-! ## Records -/

/-- The free balance and the buckets of a record. -/
def recordTotal (k : UserKDA) : Int := k.balance.toInt + k.bucketMap.sumBy fun _ b => b.value.toInt

def stakedTotal (k : UserKDA) : Int := k.bucketMap.sumBy fun _ b => (stakedShare b).toInt

structure SoundRecord (k : UserKDA) : Prop where
  balance : 0 ≤ k.balance.toInt
  buckets : ∀ key b, k.bucketMap.lookup key = some b → 0 ≤ b.value.toInt

/-- An amount that a record can pay leaves room for itself. -/
structure Fits (k : UserKDA) (amount : Int) : Prop where
  sound : SoundRecord k
  room : recordTotal k + amount < 2 ^ 63

namespace SoundRecord

variable {k k' : UserKDA}

theorem bucketTotal_nonneg (h : SoundRecord k) :
    0 ≤ k.bucketMap.sumBy fun _ (b : UserBucket) => b.value.toInt := sumBy_nonneg h.buckets

theorem recordTotal_nonneg (h : SoundRecord k) : 0 ≤ recordTotal k :=
  Int.add_nonneg h.balance h.bucketTotal_nonneg

variable {b : UserBucket}

theorem stakedShare_le (h : 0 ≤ b.value.toInt) :
    0 ≤ (stakedShare b).toInt ∧ (stakedShare b).toInt ≤ b.value.toInt := by
  unfold stakedShare
  split
  · exact ⟨h, Int.le_refl _⟩
  · exact ⟨Int.le_refl _, h⟩

theorem stakedTotal_nonneg (h : SoundRecord k) : 0 ≤ stakedTotal k :=
  sumBy_nonneg fun key b hb => (stakedShare_le (h.buckets key b hb)).1

theorem stakedTotal_le (h : SoundRecord k) : stakedTotal k ≤ recordTotal k := by
  have hle : stakedTotal k ≤ k.bucketMap.sumBy fun _ b => b.value.toInt :=
    sumBy_mono fun key b hb => (stakedShare_le (h.buckets key b hb)).2
  have hbalance := h.balance
  unfold recordTotal
  omega

theorem bucket_le (h : SoundRecord k) {key : Bytes} (hb : k.bucketMap.lookup key = some b) :
    b.value.toInt ≤ recordTotal k := by
  have hle := le_sumBy (f := fun _ (b : UserBucket) => b.value.toInt) h.buckets hb
  have hbalance := h.balance
  unfold recordTotal
  omega

theorem old_le (h : SoundRecord k) (key : Bytes) :
    0 ≤ (k.bucketMap.lookup key).elim 0 (fun b => b.value.toInt) ∧
    (k.bucketMap.lookup key).elim 0 (fun b => b.value.toInt) ≤ recordTotal k ∧
    (k.bucketMap.lookup key).elim 0 (fun b => (stakedShare b).toInt) ≤
      (k.bucketMap.lookup key).elim 0 (fun b => b.value.toInt) := by
  have htotal := h.recordTotal_nonneg
  cases hb : k.bucketMap.lookup key with
  | none =>
    simp only [Option.elim_none]
    omega
  | some b =>
    have hpos := h.buckets key b hb
    simp only [Option.elim_some]
    exact ⟨hpos, h.bucket_le hb, (stakedShare_le hpos).2⟩

end SoundRecord

variable {key : Bytes} {b : UserBucket}

theorem insert_sound {k : UserKDA} {m : FMap Bytes UserBucket} (hk : SoundRecord k)
    (hm : k.bucketMap = m) (hb : 0 ≤ b.value.toInt) (frozen : Int64) :
    SoundRecord { k with buckets := some (m.insert key b), frozenBalance := frozen } := by
  refine ⟨hk.balance, fun key' b' hb' => ?_⟩
  change (m.insert key b).lookup key' = some b' at hb'
  rw [lookup_insert_eq] at hb'
  split at hb'
  · cases hb'
    exact hb
  · exact hk.buckets key' b' (hm ▸ hb')

variable {bucketID : Bytes} {value : Int64} {staking staking' : StakingData}

/-- Freezing moves the amount into the buckets. -/
theorem freeze_totals {x : Bytes} {opts : FreezeOptions} {k k' : UserKDA} (hk : Fits k value.toInt)
    (h : freeze x bucketID value opts staking k = .ok (staking', k')) :
    SoundRecord k' ∧ recordTotal k' = recordTotal k + value.toInt ∧
      stakedTotal k ≤ stakedTotal k' := by
  obtain ⟨hvalue, key, old, rfl, hold, -, rfl⟩ := freeze_spec h
  set b' := frozenBucket opts value (lastClaimEpoch k) old with hb'
  have holdValue := hk.sound.old_le (parsedBucketID x bucketID)
  rw [← hold] at holdValue
  have hexact : b'.value.toInt = (old.elim 0 fun b => b.value.toInt) + value.toInt := by
    have hsum : b'.value = old.elim 0 (·.value) + value := rfl
    have hroom := hk.room
    rw [hsum]
    cases old with
    | none => simp
    | some b =>
      simp only [Option.elim_some] at holdValue ⊢
      exact Amount.toInt_add_of_lt holdValue.1 (by omega) (by omega)
  have hdefault : b'.unstakedEpoch = DefaultUnstakedEpoch := by simp only [hb', frozenBucket]
  have hstaked : (stakedShare b').toInt = b'.value.toInt := by rw [stakedShare, if_pos hdefault]
  refine ⟨insert_sound hk.sound rfl (by omega) _, ?_, ?_⟩
  · change k.balance.toInt + sumBy (fun _ (b : UserBucket) => b.value.toInt)
      (k.bucketMap.insert _ b') = _
    rw [sumBy_write (fun b => b.value.toInt), ← hold, hexact, recordTotal]
    omega
  · change _ ≤ sumBy (fun _ (b : UserBucket) => (stakedShare b).toInt)
      (k.bucketMap.insert _ b')
    rw [sumBy_write (fun b => (stakedShare b).toInt), ← hold, hstaked, hexact, stakedTotal]
    omega

variable {delegation : Bytes}

/-- Unfreezing takes a bucket out of the staked ones and keeps the total. -/
theorem unfreeze_totals {x : Bytes} {epoch : UInt32} {flow : Bool} {k k' : UserKDA}
    (hepoch : epoch ≠ DefaultUnstakedEpoch) (hk : SoundRecord k)
    (h : unfreeze x bucketID epoch flow staking k = .ok (staking', k', delegation, value)) :
    SoundRecord k' ∧ recordTotal k' = recordTotal k ∧ 0 ≤ value.toInt ∧
      stakedTotal k' = stakedTotal k - value.toInt := by
  obtain ⟨key, b, rfl, hb, hstaked, -, rfl, -, rfl⟩ := unfreeze_spec h
  have hpos := hk.buckets _ b hb
  refine ⟨insert_sound hk rfl (by exact hpos) _, ?_, hpos, ?_⟩
  · change k.balance.toInt + sumBy (fun _ (b : UserBucket) => b.value.toInt)
      (k.bucketMap.insert _ { b with unstakedEpoch := epoch }) = _
    rw [sumBy_write (fun b => b.value.toInt), hb, recordTotal]
    simp
  change sumBy (fun _ (b : UserBucket) => (stakedShare b).toInt)
    (k.bucketMap.insert _ { b with unstakedEpoch := epoch }) = _
  rw [sumBy_write (fun b => (stakedShare b).toInt), hb, stakedTotal]
  simp [stakedShare, hepoch, hstaked]
  omega

theorem writeDelegation_totals {k : UserKDA} (hk : SoundRecord k)
    (hb : k.bucketMap.lookup key = some b) :
    let k' : UserKDA :=
      { k with buckets := some (k.bucketMap.insert key { b with delegation := delegation }) }
    SoundRecord k' ∧ recordTotal k' = recordTotal k ∧ stakedTotal k' = stakedTotal k := by
  refine ⟨insert_sound hk rfl (by exact hk.buckets key b hb) _, ?_, ?_⟩
  · change k.balance.toInt + sumBy (fun _ (b : UserBucket) => b.value.toInt)
      (k.bucketMap.insert key { b with delegation := delegation }) = _
    rw [sumBy_write (fun b => b.value.toInt), hb, recordTotal]
    simp
  · change sumBy (fun _ (b : UserBucket) => (stakedShare b).toInt)
      (k.bucketMap.insert key { b with delegation := delegation }) = _
    rw [sumBy_write (fun b => (stakedShare b).toInt), hb, stakedTotal]
    simp [stakedShare]

/-! ## Rewards -/

theorem credited_eq (gains : Gains) (y : Bytes) :
    credited gains y = (gains.lookup y).elim 0 credit := by
  have hsplit := sumBy_erase (fun k v => entry k (credit v) y) gains y
  have hothers : sumBy (fun k v => entry k (credit v) y) (gains.erase y) = 0 := by
    refine sumBy_eq_zero fun k v hk => entry_ne ?_ _
    rintro rfl
    rw [lookup_erase_eq, if_pos rfl] at hk
    cases hk
  rw [hothers, zero_add] at hsplit
  rw [credited, ← hsplit]
  cases gains.lookup y with
  | none => rfl
  | some v => exact entry_self y (credit v)

theorem credited_nonneg (gains : Gains) (y : Bytes) : 0 ≤ (credited gains y).toInt := by
  rw [credited_eq]
  cases gains.lookup y with
  | none => simp
  | some v =>
    rw [Option.elim_some, credit]
    split
    · simp
    · rename_i hpos
      rw [Amount.not_pos_iff] at hpos
      omega

/-- A claim adds what it credits to the balance of the record it works on. -/
theorem claimDue_balance {P : Platform} {fc : ForkController} {ctx : KappContext} {x : Bytes}
    {a : UserAccount} {records : ClaimRecords} {r : Gains × UserAccount × ClaimRecords}
    (hx : x ≠ KLVIdentifier) (h : claimDue P fc ctx x a records = .ok r) :
    r.2.2.userKDA.balance = records.userKDA.balance + credited r.1 x := by
  obtain ⟨hworks, -, hbuckets, -⟩ := claimDue_spec h
  have hshift := hworks.shifts x
  simp only [holding_stored, if_true, hx, if_false, bucketValue, UserKDA.bucketMap, hbuckets] at hshift
  rw [add_right_comm] at hshift
  exact add_right_cancel hshift

/-! ## The supply of an asset -/

/-- All of an asset that users hold, free and in buckets. -/
def assetTotal (s : Chain) (x : Bytes) : Int :=
  s.users.sumBy fun _ a => recordTotal (a.getUserKDA x [])

/-- No amount of the asset is negative. -/
def Sound (x : Bytes) (s : Chain) : Prop :=
  ∀ u a, s.users.lookup u = some a → SoundRecord (a.getUserKDA x [])

section
variable (x : Bytes) (a : UserAccount) (k : UserKDA)

theorem getUserKDA_stored : (stored x (a, k)).getUserKDA x [] = k.readBack := by
  rw [stored, getUserKDA_setUserKDA, if_pos rfl]

theorem recordTotal_stored : recordTotal ((stored x (a, k)).getUserKDA x []) = recordTotal k := by
  rw [getUserKDA_stored, recordTotal, k.readBack_spec.1, k.readBack_spec.2.2]
  rfl

theorem stakedTotal_stored : stakedTotal ((stored x (a, k)).getUserKDA x []) = stakedTotal k := by
  rw [getUserKDA_stored, stakedTotal, k.readBack_spec.2.2]
  rfl

end

theorem sound_stored {x : Bytes} {a : UserAccount} {k : UserKDA} (h : SoundRecord k) :
    SoundRecord ((stored x (a, k)).getUserKDA x []) := by
  rw [getUserKDA_stored]
  exact ⟨k.readBack_spec.1 ▸ h.balance, k.readBack_spec.2.2 ▸ h.buckets⟩

namespace Sound

variable {x : Bytes} {s s' : Chain} {sender : Bytes} {a a' : UserAccount}

theorem record_le (h : Sound x s) {u : Bytes} (ha : s.users.lookup u = some a) :
    recordTotal (a.getUserKDA x []) ≤ assetTotal s x :=
  le_sumBy (f := fun _ (a : UserAccount) => recordTotal (a.getUserKDA x []))
    (fun u a ha => (h u a ha).recordTotal_nonneg) ha

theorem insert (h : Sound x s) (husers : s'.users = s.users.insert sender a')
    (ha' : SoundRecord (a'.getUserKDA x [])) : Sound x s' := by
  intro u b hb
  rw [husers, lookup_insert_eq] at hb
  split at hb
  · cases hb
    exact ha'
  · exact h u b hb

end Sound

theorem assetTotal_insert {x : Bytes} {s s' : Chain} {sender : Bytes} {a a' : UserAccount} {δ : Int}
    (ha : s.users.lookup sender = some a) (husers : s'.users = s.users.insert sender a')
    (hδ : recordTotal (a'.getUserKDA x []) = recordTotal (a.getUserKDA x []) + δ) :
    assetTotal s' x = assetTotal s x + δ := by
  have h := sumBy_insert (fun _ (a : UserAccount) => recordTotal (a.getUserKDA x [])) s.users
    sender a'
  rw [ha, Option.elim_some, hδ] at h
  unfold assetTotal
  rw [husers]
  omega

/-- **The frozen balance is exact** while the supply of the asset fits. -/
theorem Principal.frozen_exact {x : Bytes} {s : Chain} (hp : Principal s) (hs : Sound x s)
    (hfits : assetTotal s x < 2 ^ 63) {u : Bytes} {a : UserAccount}
    (ha : s.users.lookup u = some a) :
    (a.getUserKDA x []).frozenBalance.toInt = stakedTotal (a.getUserKDA x []) := by
  have hrecord := hs u a ha
  have hle := hrecord.stakedTotal_le
  have hsupply := hs.record_le ha
  have hnonneg := hrecord.stakedTotal_nonneg
  rw [hp.frozen u a ha x, stakedValue_eq, stakedTotal]
  unfold stakedTotal at hle hnonneg
  exact Amount.toInt_sumBy (by omega) (by omega)

section
variable {P : Platform} {params : Parameters} {ctx : KappContext} {s s' : Chain} {sender x : Bytes}

/-- What the claim of a call leaves of the record it works on: the same buckets, and room for all
of it. -/
theorem claimDue_fits {a : UserAccount} {st : StakingData} {kda : KDAData}
    {r : Gains × UserAccount × ClaimRecords} (hx : x ≠ KLVIdentifier) (hs : Sound x s)
    (ha : s.users.lookup sender = some a) (hfits : assetTotal s x + (credited r.1 x).toInt < 2 ^ 63)
    (hclaim : claimDue P .allActive ctx x a ⟨st, kda, a.getUserKDA x []⟩ = .ok r) :
    SoundRecord r.2.2.userKDA ∧
    recordTotal r.2.2.userKDA = recordTotal (a.getUserKDA x []) + (credited r.1 x).toInt ∧
    recordTotal r.2.2.userKDA < 2 ^ 63 ∧
    stakedTotal r.2.2.userKDA = stakedTotal (a.getUserKDA x []) := by
  have hrecord := hs sender a ha
  have hsupply := hs.record_le ha
  have hcredit := credited_nonneg r.1 x
  have hbuckets := (claimDue_spec hclaim).2.2.1
  have hmap : r.2.2.userKDA.bucketMap = (a.getUserKDA x []).bucketMap := bucketMap_congr hbuckets
  have htotal := hrecord.bucketTotal_nonneg
  have hbalance : r.2.2.userKDA.balance.toInt =
      (a.getUserKDA x []).balance.toInt + (credited r.1 x).toInt := by
    rw [claimDue_balance hx hclaim]
    refine Amount.toInt_add_of_lt hrecord.balance hcredit ?_
    dsimp only
    unfold recordTotal at hsupply
    omega
  have hrecordTotal : recordTotal r.2.2.userKDA =
      recordTotal (a.getUserKDA x []) + (credited r.1 x).toInt := by
    rw [recordTotal, recordTotal, hbalance, hmap]
    omega
  refine ⟨⟨?_, fun key b hb => hrecord.buckets key b (hmap ▸ hb)⟩, hrecordTotal, by omega, ?_⟩
  · have := hrecord.balance
    omega
  · rw [stakedTotal, hmap]
    rfl

/-- **A freeze** adds to the supply what its claim pays, and never lowers the stake. -/
theorem kappFreeze_supply {tc : FreezeContract} (hx : x ≠ KLVIdentifier)
    (hasset : assetOf tc.assetID = x) (hs : Sound x s)
    (hfits : assetTotal s x + (credited (dueGains P .allActive ctx s sender x) x).toInt < 2 ^ 63)
    (h : kappFreeze P .allActive params ctx s sender tc = .ok s') :
    ∃ a a', s.users.lookup sender = some a ∧ s'.users = s.users.insert sender a' ∧
      SoundRecord (a'.getUserKDA x []) ∧
      recordTotal (a'.getUserKDA x []) = recordTotal (a.getUserKDA x []) +
        (credited (dueGains P .allActive ctx s sender x) x).toInt ∧
      stakedTotal (a.getUserKDA x []) ≤ stakedTotal (a'.getUserKDA x []) := by
  subst hasset
  simp only [kappFreeze, bind_eq_ok, withReceipt_eq_ok, orError_eq_ok, Chain.getStaking,
    pure_eq_ok] at h
  obtain ⟨_, -, a, ha, _, -, kda, hkda, _, -, st, hst, _, -, _, -, r, hclaim, _, -, ⟨a2, k2⟩, hsub,
    ⟨st3, k3⟩, hfreeze, rfl⟩ := h
  obtain ⟨-, ha⟩ := Chain.getExistingUser_spec ha
  rw [dueGains_eq ha hst hkda hclaim] at hfits ⊢
  obtain ⟨hsound, htotal, hroom, hstaked⟩ := claimDue_fits hx hs ha hfits hclaim
  -- the free balance pays the amount
  have hpaid : k2.buckets = r.2.2.userKDA.buckets ∧ 0 ≤ k2.balance.toInt ∧
      k2.balance.toInt = r.2.2.userKDA.balance.toInt - tc.amount.toInt := by
    simp only [subFromHeldBalance, bind_eq_ok, hx, if_false, reject_eq_ok, pure_eq_ok] at hsub
    obtain ⟨_, hpos, _, hleft, heq⟩ := hsub
    cases heq
    rw [Amount.not_neg_iff] at hpos hleft
    exact ⟨rfl, hleft, Amount.toInt_sub hsound.balance hpos⟩
  obtain ⟨hbuckets2, hbalance2, hexact2⟩ := hpaid
  have hmap2 := bucketMap_congr hbuckets2
  have hfits2 : Fits k2 tc.amount.toInt := by
    refine ⟨⟨hbalance2, fun key b hb => hsound.buckets key b (hmap2 ▸ hb)⟩, ?_⟩
    unfold recordTotal at hroom ⊢
    rw [hmap2, hexact2]
    omega
  obtain ⟨hsound3, htotal3, hstaked3⟩ := freeze_totals hfits2 hfreeze
  refine ⟨a, stored _ (a2, k3), ha, rfl, sound_stored hsound3, ?_, ?_⟩
  · rw [recordTotal_stored, htotal3, ← htotal, recordTotal, recordTotal, hmap2, hexact2]
    omega
  · rw [stakedTotal_stored, ← hstaked]
    refine Int.le_trans (Int.le_of_eq ?_) hstaked3
    rw [stakedTotal, stakedTotal, hmap2]

/-- **An unfreeze** adds to the supply what its claim pays, and takes the value of the bucket out
of the stake. -/
theorem kappUnfreeze_supply {tc : UnfreezeContract} (hx : x ≠ KLVIdentifier)
    (hasset : assetOf tc.assetID = x) (hepoch : ctx.epoch ≠ DefaultUnstakedEpoch) (hs : Sound x s)
    (hfits : assetTotal s x + (credited (dueGains P .allActive ctx s sender x) x).toInt < 2 ^ 63)
    (h : kappUnfreeze P .allActive ctx s sender tc = .ok s') :
    ∃ a a' s1 amount, s.users.lookup sender = some a ∧ s'.users = s.users.insert sender a' ∧
      SoundRecord (a'.getUserKDA x []) ∧
      recordTotal (a'.getUserKDA x []) = recordTotal (a.getUserKDA x []) +
        (credited (dueGains P .allActive ctx s sender x) x).toInt ∧
      0 ≤ amount.toInt ∧
      stakedTotal (a'.getUserKDA x []) = stakedTotal (a.getUserKDA x []) - amount.toInt ∧
      s1.proposals = s.proposals ∧ s1.staking.lookup x ≠ none ∧
      Governance.handleProposalVotesOnUnfreeze .allActive s1 a' x sender amount = .ok s' := by
  subst hasset
  simp only [kappUnfreeze, bind_eq_ok, withReceipt_eq_ok, withCode_eq_ok, orError_eq_ok,
    Chain.getStaking] at h
  obtain ⟨a, ha, kda, hkda, _, -, st, hst, _, -, r, hclaim, ⟨st3, k3, delegation, amount⟩, hunfreeze,
    ⟨v, k4⟩, hleave, hvotes⟩ := h
  obtain ⟨-, ha⟩ := Chain.getExistingUser_spec ha
  rw [dueGains_eq ha hst hkda hclaim] at hfits ⊢
  obtain ⟨hsound, htotal, -, hstaked⟩ := claimDue_fits hx hs ha hfits hclaim
  obtain ⟨hsound3, htotal3, hamount, hstaked3⟩ := unfreeze_totals hepoch hsound hunfreeze
  have hleft : SoundRecord k4 ∧ recordTotal k4 = recordTotal k3 ∧
      stakedTotal k4 = stakedTotal k3 := by
    rcases leaveDelegation_cases hleave with rfl | ⟨key, b, hb, rfl⟩
    · exact ⟨hsound3, rfl, rfl⟩
    · exact writeDelegation_totals hsound3 hb
  obtain ⟨hsound4, htotal4, hstaked4⟩ := hleft
  refine ⟨a, stored _ (r.2.1, k4), _, amount, ha, ?_, sound_stored hsound4, ?_, hamount, ?_, ?_, ?_,
    hvotes⟩
  · obtain ⟨σ, rfl⟩ := handleProposalVotesOnUnfreeze_frame hvotes
    rfl
  · rw [recordTotal_stored, htotal4, htotal3, htotal]
  · rw [stakedTotal_stored, hstaked4, hstaked3, hstaked]
  · rfl
  · simp [storeRecords, Chain.setKDA, Chain.setStaking, AList.lookup_insert]

end

end KleverGo.Staking
