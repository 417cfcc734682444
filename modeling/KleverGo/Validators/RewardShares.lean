import KleverGo.Lib.Shares
import KleverGo.Validators.EpochEnd

/-!
# The shares of an epoch's fees

`calculateDelegationRewardsV2` gives the commission to the rewards address, walks the delegations
in the order of a Go map and caps each share by what remains.

`calculateDelegationRewards_exact` shows that the order plays no part: the cap never applies, every
delegator gets the floor of their share, no entry is negative, and with the remainder the entries
add up to the fees.  The remainder is only handed out since `EnableSmartContracts`;
`remainder_lost_before_fork` is a distribution before that.
-/

namespace KleverGo.Validators

open List FMap

open Staking (Gains)

/-- What is given so far and what remains make up the fees. -/
structure Shared (fees : Int64) (given : Gains) (remaining : Int64) : Prop where
  nonneg : ∀ k v, given.lookup k = some v → 0 ≤ v.toInt
  rest : 0 ≤ remaining.toInt
  total : given.sumBy (fun _ v => v.toInt) + remaining.toInt = fees.toInt

/-- The share of an amount in the fees, rounded down, and as `calculateUserShareV2` returns it. -/
def share (fees total amount : Int64) : Int := fees.toInt * amount.toInt / total.toInt

def userShare (fees total amount : Int64) : Int64 := Int64.ofInt (share fees total amount)

/-- A share of a part is exact. -/
theorem toInt_userShare {fees total amount : Int64} (hfees : 0 ≤ fees.toInt)
    (hamount : 0 < amount.toInt ∧ amount.toInt ≤ total.toInt) :
    (userShare fees total amount).toInt = share fees total amount ∧
      0 ≤ share fees total amount := by
  have hle := @sum_shares_le _ _ [amount.toInt] hfees (by omega : 0 < total.toInt)
    (by simpa using hamount.2)
  have hlow : 0 ≤ share fees total amount :=
    Int.ediv_nonneg (Int.mul_nonneg hfees (by omega)) (by omega)
  rw [map_singleton, sum_singleton] at hle
  have hlt := fees.toInt_lt
  refine ⟨Int64.toInt_ofInt_of_le (by omega) (lt_of_le_of_lt hle hlt), hlow⟩

variable {fees remaining : Int64} {given : Gains}

theorem lookup_add (key k : Bytes) (value : Int64) :
    (given.add key value).lookup k =
      if k = key then some (given.get key + value) else given.lookup k :=
  lookup_insert_eq _ _ _ _

theorem Shared.add (h : Shared fees given remaining) (key : Bytes) (value : Int64)
    (hv : 0 ≤ value.toInt) (hle : value.toInt ≤ remaining.toInt) :
    Shared fees (given.add key value) (remaining - value) := by
  have hsub := Amount.toInt_sub h.rest hv
  have hlt := fees.toInt_lt
  have htotal := h.total
  -- the entry so far is part of the fees
  obtain ⟨hold, hentry⟩ : 0 ≤ (given.get key).toInt ∧
      (given.get key).toInt ≤ given.sumBy fun _ v => v.toInt := by
    unfold Gains.get
    cases hk : given.lookup key with
    | none => exact ⟨by decide, sumBy_nonneg h.nonneg⟩
    | some v => exact ⟨h.nonneg key v hk, le_sumBy h.nonneg hk⟩
  have hadd := Amount.toInt_add_of_lt hold hv (by omega)
  refine ⟨fun k v hk => ?_, by omega, ?_⟩
  · rw [lookup_add] at hk
    split at hk
    · cases hk
      omega
    · exact h.nonneg k v hk
  · have hwritten := sumBy_write (fun _ v => v.toInt) given key (given.get key + value)
    have hget : (given.lookup key).elim 0 (fun v => v.toInt) = (given.get key).toInt := by
      unfold Gains.get
      cases given.lookup key <;> rfl
    unfold Gains.add
    omega

/-- The loop gives each delegator their share: the cap never applies. -/
theorem payDelegator_loop {rest total : Int64} (hrest : 0 ≤ rest.toInt) :
    ∀ (l : List (Sigma fun _ : Bytes => Int64)) {given : Gains} {remaining : Int64}, l.NodupKeys →
      (∀ e ∈ l, 0 < e.2.toInt ∧ e.2.toInt ≤ total.toInt) →
      (l.map fun e => share rest total e.2).sum ≤ remaining.toInt → Shared fees given remaining →
      ∃ given' remaining', l.foldlM (payDelegator rest total) (given, remaining) =
          .ok (given', remaining') ∧ Shared fees given' remaining' ∧
        remaining' = remaining - (l.map fun e => userShare rest total e.2).sum ∧
        ∀ k, given'.lookup k = (l.dlookup k).elim (given.lookup k) fun amount =>
          some (given.get k + userShare rest total amount)
  | [], given, remaining, _, _, _, hshared => ⟨given, remaining, rfl, hshared, by simp, by simp⟩
  | ⟨key, amount⟩ :: l, given, remaining, hnodup, hamounts, hsum, hshared => by
    have hamount := hamounts _ mem_cons_self
    obtain ⟨hnotin, hnodup⟩ := nodupKeys_cons.1 hnodup
    obtain ⟨hexact, hlow⟩ := toInt_userShare hrest hamount
    have hlater : 0 ≤ (l.map fun e => share rest total e.2).sum := by
      refine sum_nonneg fun n hn => ?_
      obtain ⟨e, he, rfl⟩ := mem_map.1 hn
      exact (toInt_userShare hrest (hamounts e (mem_cons_of_mem _ he))).2
    dsimp only at hamount hexact hlow
    simp only [map_cons, sum_cons] at hsum ⊢
    have hsub := Amount.toInt_sub hshared.rest (hexact ▸ hlow)
    have hstep : payDelegator rest total (given, remaining) ⟨key, amount⟩ =
        .ok (given.add key (userShare rest total amount),
          remaining - userShare rest total amount) := by
      have hzero : total ≠ 0 := by
        rintro rfl
        exact absurd hamount.2 (by simpa using hamount.1)
      simp only [payDelegator, calculateUserShare, bind_eq_ok, reject_eq_ok, pure_eq_ok]
      refine ⟨userShare rest total amount, ⟨(), hzero, rfl⟩, ?_⟩
      rw [if_pos (Int64.le_iff_toInt_le.2 (by omega))]
    obtain ⟨given', remaining', hloop, hshared', hremaining, hlookup⟩ :=
      payDelegator_loop hrest l hnodup (fun e he => hamounts e (mem_cons_of_mem _ he))
        (by omega) (hshared.add key (userShare rest total amount) (by omega) (by omega))
    refine ⟨given', remaining', ?_, hshared', by rw [hremaining, sub_sub], fun k => ?_⟩
    · rw [foldlM_cons, hstep]
      exact hloop
    rw [hlookup k]
    by_cases hk : k = key
    · subst hk
      rw [dlookup_eq_none.2 hnotin, dlookup_cons_eq]
      simp [lookup_add]
    · rw [dlookup_cons_ne _ _ hk]
      simp [lookup_add, hk, Gains.get]

/-! ## The distribution -/

variable {fc : ForkController} {val : ValidatorData} {totalDelegated : Int64} {delegations : Gains}

theorem commissionAmount_spec (hfees : 0 ≤ fees.toInt) (hc : val.commission ≤ HundredPercent) :
    (commissionAmount val fees).toInt = fees.toInt * val.commission.toNat / 10000 ∧
      0 ≤ (commissionAmount val fees).toInt ∧ (commissionAmount val fees).toInt ≤ fees.toInt := by
  have hc : val.commission.toNat ≤ 10000 := UInt32.le_iff_toNat_le.1 hc
  have hlow : 0 ≤ fees.toInt * val.commission.toNat := Int.mul_nonneg hfees (by omega)
  have hhigh : fees.toInt * val.commission.toNat ≤ fees.toInt * 10000 :=
    Int.mul_le_mul_of_nonneg_left (by omega) hfees
  have hlt := fees.toInt_lt
  have hdiv : (fees.toInt * val.commission.toNat).tdiv HundredPercent.toNat =
      fees.toInt * val.commission.toNat / 10000 := Int.tdiv_eq_ediv_of_nonneg hlow
  have hvalue : (commissionAmount val fees).toInt =
      fees.toInt * val.commission.toNat / 10000 := by
    unfold commissionAmount
    rw [hdiv]
    exact Int64.toInt_ofInt_of_le (by omega) (by omega)
  omega

/-- The delegations are those `calculateDelegationRewardsV2` is given: positive, and the total is
their sum. -/
structure Delegated (delegations : Gains) (totalDelegated : Int64) : Prop where
  pos : ∀ k amount, delegations.lookup k = some amount → 0 < amount.toInt
  total : delegations.sumBy (fun _ amount => amount.toInt) = totalDelegated.toInt

theorem Delegated.amount (h : Delegated delegations totalDelegated) {k : Bytes} {amount : Int64}
    (hk : delegations.lookup k = some amount) :
    0 < amount.toInt ∧ amount.toInt ≤ totalDelegated.toInt := by
  have hle := le_sumBy (fun k v hk => (h.pos k v hk).le) hk
  rw [h.total] at hle
  exact ⟨h.pos k amount hk, hle⟩

/-- The entry of an address, whatever the order of the delegations. -/
def rewardOf (val : ValidatorData) (fees totalDelegated : Int64) (delegations : Gains) (k : Bytes) :
    Option Int64 :=
  let commission := commissionAmount val fees
  let share := userShare (fees - commission) totalDelegated
  if k = val.rewardsAddress then
    some (commission + (delegations.lookup k).elim 0 share +
      (fees - commission - (delegations.entries.map fun e => share e.2).sum))
  else (delegations.lookup k).map share

theorem calculateDelegationRewards_spec (hsc : fc.enableSmartContracts = true)
    (hfees : 0 ≤ fees.toInt) (hc : val.commission ≤ HundredPercent)
    (hd : Delegated delegations totalDelegated) :
    ∃ given, calculateDelegationRewards fc val fees delegations totalDelegated = .ok given ∧
      Shared fees given 0 ∧
      ∀ k, given.lookup k = rewardOf val fees totalDelegated delegations k := by
  obtain ⟨-, hcom0, hcom⟩ := commissionAmount_spec hfees hc
  have hrest := Amount.toInt_sub hfees hcom0
  generalize hcommission : commissionAmount val fees = commission at *
  have hamounts : ∀ e ∈ delegations.entries, 0 < e.2.toInt ∧ e.2.toInt ≤ totalDelegated.toInt :=
    fun e he => hd.amount (mem_entries_iff.1 he)
  have hsum : (delegations.entries.map fun e => share (fees - commission) totalDelegated e.2).sum ≤
      (fees - commission).toInt := by
    cases hempty : delegations.entries with
    | nil => simpa using (by omega : 0 ≤ (fees - commission).toInt)
    | cons e l =>
      have := hamounts e (by simp [hempty])
      have hshares := sum_shares_le (by omega : 0 ≤ (fees - commission).toInt)
        (by omega : 0 < totalDelegated.toInt) hd.total.le
      rwa [map_map, hempty] at hshares
  have hstart : Shared fees ((∅ : Gains).insert val.rewardsAddress commission)
      (fees - commission) := by
    refine ⟨fun k v hk => ?_, by omega, ?_⟩
    · rw [lookup_insert_eq] at hk
      split at hk
      · cases hk
        exact hcom0
      · cases hk
    · rw [sumBy_insert_of_notMem _ _ rfl, sumBy_empty]
      omega
  obtain ⟨given, remaining, hloop, hshared, hremaining, hlookup⟩ :=
    payDelegator_loop (by omega) delegations.entries delegations.nodupKeys hamounts hsum hstart
  have hfind : ∀ k, delegations.entries.dlookup k = delegations.lookup k := fun _ => rfl
  -- what the rewards address has before the remainder
  have hreceiver : given.lookup val.rewardsAddress = some (commission +
      (delegations.lookup val.rewardsAddress).elim 0
        (userShare (fees - commission) totalDelegated)) := by
    rw [hlookup, hfind, Gains.get, lookup_insert_eq, if_pos rfl]
    cases delegations.lookup val.rewardsAddress <;> simp
  have hothers : ∀ k, k ≠ val.rewardsAddress → given.lookup k =
      (delegations.lookup k).map (userShare (fees - commission) totalDelegated) := by
    intro k hk
    rw [hlookup, hfind, Gains.get, lookup_insert_eq, if_neg hk]
    cases delegations.lookup k <;> simp
  have hresult : calculateDelegationRewards fc val fees delegations totalDelegated =
      .ok (if remaining ≠ 0 then given.add val.rewardsAddress remaining else given) := by
    simp only [calculateDelegationRewards, hcommission, hloop, hsc, and_true]
    change (if _ then _ else _) = _
    split <;> rfl
  refine ⟨_, hresult, ?_, fun k => ?_⟩
  · split
    · simpa using hshared.add val.rewardsAddress remaining hshared.rest le_rfl
    · rename_i hnone
      rw [not_not] at hnone
      rwa [hnone] at hshared
  · simp only [rewardOf, hcommission, ← hremaining]
    by_cases hk : k = val.rewardsAddress
    · subst hk
      split
      · simp [lookup_add, Gains.get, hreceiver]
      · rename_i hnone
        rw [not_not] at hnone
        simp [hreceiver, hnone]
    · rw [if_neg hk, ← hothers k hk]
      split
      · simp [lookup_add, hk]
      · rfl

/-- **The distribution of an epoch's fees is exact and order-free**: every entry is non-negative,
the entries sum to the fees, a delegator other than the rewards address gets the floor of their
share, and another order of the delegations gives the same entries. -/
theorem calculateDelegationRewards_exact (hsc : fc.enableSmartContracts = true)
    (hfees : 0 ≤ fees.toInt) (hc : val.commission ≤ HundredPercent)
    (hd : Delegated delegations totalDelegated) :
    ∃ given, calculateDelegationRewards fc val fees delegations totalDelegated = .ok given ∧
      (∀ k v, given.lookup k = some v → 0 ≤ v.toInt) ∧
      given.sumBy (fun _ v => v.toInt) = fees.toInt ∧
      (∀ k amount, delegations.lookup k = some amount → k ≠ val.rewardsAddress →
        ∃ v, given.lookup k = some v ∧ v.toInt =
          (fees.toInt - fees.toInt * val.commission.toNat / 10000) * amount.toInt /
            totalDelegated.toInt) ∧
      ∀ reordered : Gains, reordered.entries.Perm delegations.entries →
        ∃ given', calculateDelegationRewards fc val fees reordered totalDelegated = .ok given' ∧
          ∀ k, given'.lookup k = given.lookup k := by
  obtain ⟨given, hresult, hshared, hlookup⟩ := calculateDelegationRewards_spec hsc hfees hc hd
  have htotal := hshared.total
  rw [Int64.toInt_zero, add_zero] at htotal
  refine ⟨given, hresult, hshared.nonneg, htotal, ?_, ?_⟩
  · intro k amount hk hne
    obtain ⟨hcommission, hcom0, hcom⟩ := commissionAmount_spec hfees hc
    have hrest := Amount.toInt_sub hfees hcom0
    have hentry := hlookup k
    rw [rewardOf, if_neg hne, hk, Option.map_some] at hentry
    refine ⟨_, hentry, ?_⟩
    rw [(toInt_userShare (by omega) (hd.amount hk)).1, share, hrest, hcommission]
  · intro reordered hperm
    have hsame : ∀ k, reordered.lookup k = delegations.lookup k := fun k => AList.perm_lookup hperm
    have hd' : Delegated reordered totalDelegated :=
      ⟨fun k amount hk => hd.pos k amount (hsame k ▸ hk),
        ((hperm.map fun e : Sigma fun _ : Bytes => Int64 => e.2.toInt).sum_eq).trans hd.total⟩
    obtain ⟨given', hresult', -, hlookup'⟩ := calculateDelegationRewards_spec hsc hfees hc hd'
    refine ⟨given', hresult', fun k => ?_⟩
    rw [hlookup', hlookup, rewardOf, rewardOf, hsame]
    rw [(hperm.map fun e => userShare (fees - commissionAmount val fees) totalDelegated e.2).sum_eq]

def twoDelegators : Gains := ((∅ : Gains).insert [1] 1).insert [2] 1

/-- A validator without a commission, whose rewards go to an address that delegates nothing. -/
def noCommission : ValidatorData :=
  { ownerAddress := [9], canDelegate := true, maxDelegation := 0, selfStake := 0, totalStake := 0
    rewardsAddress := [9] }

theorem twoDelegators_delegated : Delegated twoDelegators 2 := by
  refine ⟨fun k amount hk => ?_, rfl⟩
  have hentry : ∀ e ∈ twoDelegators.entries, 0 < e.2.toInt := by decide
  exact hentry ⟨k, amount⟩ (mem_entries_iff.2 hk)

/-- A fee of one that cannot be shared goes to the rewards address. -/
theorem remainder_to_rewards_address : ∃ given,
    calculateDelegationRewards .allActive noCommission 1 twoDelegators 2 = .ok given ∧
      given.sumBy (fun _ v => v.toInt) = (1 : Int64).toInt := by
  obtain ⟨given, hresult, -, htotal, -⟩ := calculateDelegationRewards_exact
    (show ForkController.allActive.enableSmartContracts = true from rfl)
    (show 0 ≤ (1 : Int64).toInt by decide) (show noCommission.commission ≤ _ by decide)
    twoDelegators_delegated
  exact ⟨given, hresult, htotal⟩

/-- **Before `EnableSmartContracts` the remainder is lost**: nobody receives the fee of one. -/
theorem remainder_lost_before_fork : Delegated twoDelegators 2 ∧ ∃ given,
    calculateDelegationRewards { ForkController.allActive with enableSmartContracts := false }
      noCommission 1 twoDelegators 2 = .ok given ∧ given.sumBy (fun _ v => v.toInt) = 0 :=
  ⟨twoDelegators_delegated, _, rfl, rfl⟩

end KleverGo.Validators
